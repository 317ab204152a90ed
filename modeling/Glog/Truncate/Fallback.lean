import Glog.Files.Descriptor
import Glog.Truncate.Tail

/-! # Where `pread` and `pwrite` are missing

The replacements move the position of the descriptor, read or write there, and move the position back. They move it from
where it is and not from the beginning of the file, and they do not move it back behind a transfer that fails. -/

namespace Glog.Truncate
open Files Run

/-- The body of both functions, with `read` or `write` as the transfer. -/
def positioned {ρ : Type} (transfer : Call ρ) (offset : Int) : Call ρ := do
  let origOffset ← lseek 0 .cur
  let _ ← lseek offset .cur
  let len ← transfer
  let _ ← lseek origOffset .set
  return len

namespace Fallback

def pread (count : Nat) (offset : Int) (outcome : Outcome) : Call (List UInt8) := positioned (read count outcome) offset

def pwrite (bytes : List UInt8) (offset : Int) (outcome : Outcome) : Call Nat := positioned (write bytes outcome) offset

end Fallback

/-- Every `lseek` on the way succeeds. -/
structure Seekable (d : Descriptor) (offset : Int) : Prop where
  here : d.position ≤ offMax
  nonneg : 0 ≤ d.position + offset
  le : d.position + offset ≤ offMax

/-- A read may fail at the beginning of the relative distance only; one that succeeds must find the same bytes at both
    places, as many as it asks for. -/
def ReadsAlike (d : Descriptor) (count : Nat) (offset : Int) : Outcome → Prop
  | .fails _ => offset = 0
  | .moves limit =>
    0 ≤ offset ∧ ∀ i < min limit count, d.content[d.position + offset.toNat + i]? = d.content[offset.toNat + i]?

/-- A write that succeeds must change nothing by going to the other place. -/
def WritesAlike (d : Descriptor) (bytes : List UInt8) (offset : Int) : Outcome → Prop
  | .fails _ => offset = 0
  | .moves limit => 0 ≤ offset ∧ Repeats d.content offset.toNat d.position (bytes.take limit)

instance (d : Descriptor) (count : Nat) (offset : Int) : DecidablePred (ReadsAlike d count offset)
  | .fails _ => inferInstanceAs (Decidable (offset = 0))
  | .moves limit => inferInstanceAs (Decidable (0 ≤ offset ∧ ∀ i < min limit count, _))

instance (d : Descriptor) (bytes : List UInt8) (offset : Int) : DecidablePred (WritesAlike d bytes offset)
  | .fails _ => inferInstanceAs (Decidable (offset = 0))
  | .moves _ => inferInstanceAs (Decidable (0 ≤ offset ∧ Repeats _ _ _ _))

/-- A call does what the POSIX call does: it has the same result, leaves the same content, and keeps the position. -/
def Positional {ρ : Type} (fallback posix : Call ρ) (d : Descriptor) : Prop :=
  fallback d = posix d ∧ (fallback d).2.position = d.position

section
variable {ρ : Type} {transfer : Call ρ} {result : Descriptor → ρ} {behind : Descriptor → Descriptor} {d d' : Descriptor}
  {offset : Int} {a : ρ} {e : IoError} {n count : Nat} {bytes content : List UInt8}

/-! ### The way there and back -/

theorem lseek_cur (hnonneg : 0 ≤ d.position + offset) (hle : d.position + offset ≤ offMax) :
    lseek offset .cur d = (.ok (d.position + offset), { d with position := (d.position + offset).toNat }) := by
  unfold lseek
  dsimp only
  rw [if_neg (by omega), if_neg (by omega)]

theorem lseek_set (h : (n : Int) ≤ offMax) : lseek n .set d = (.ok (n : Int), { d with position := n }) := by
  unfold lseek
  dsimp only
  rw [if_neg (by omega), if_neg (by omega), Int.toNat_natCast]

theorem lseek_here (h : d.position ≤ offMax) : lseek 0 .cur d = (.ok (d.position : Int), d) := by
  rw [lseek_cur (by omega) (by omega), Int.add_zero, Int.toNat_natCast]

theorem positioned_of_ok (hseek : Seekable d offset)
    (h : transfer { d with position := (d.position + offset).toNat } = (.ok a, d')) :
    positioned transfer offset d = (.ok a, { d' with position := d.position }) := by
  unfold positioned
  rw [bind_of_ok (lseek_here hseek.here), bind_of_ok (lseek_cur hseek.nonneg hseek.le), bind_of_ok h,
    bind_of_ok (lseek_set hseek.here)]
  rfl

/-- The position is not moved back. -/
theorem positioned_of_error (hseek : Seekable d offset)
    (h : transfer { d with position := (d.position + offset).toNat } = (.error e, d')) :
    positioned transfer offset d = (.error e, d') := by
  unfold positioned
  rw [bind_of_ok (lseek_here hseek.here), bind_of_ok (lseek_cur hseek.nonneg hseek.le), bind_of_error h]

/-! ### Against a transfer at the offset -/

/-- A transfer that fails leaves the position where it has been moved to. -/
theorem positioned_of_failing {errno : Nat} (hseek : Seekable d offset)
    (hfails : ∀ d, transfer d = (.error (.device errno), d)) :
    positioned transfer offset d = atOffset transfer offset d ↔ offset = 0 := by
  rw [positioned_of_error hseek (hfails _), atOffset]
  have hnonneg := hseek.nonneg
  by_cases hneg : offset < 0
  · rw [if_pos hneg]
    constructor
    · intro h
      cases (Prod.mk.inj h).1
    · rintro rfl
      exact absurd hneg (Int.lt_irrefl 0)
  · rw [if_neg hneg, hfails]
    constructor
    · intro h
      have hposition : (d.position + offset).toNat = d.position := congrArg Descriptor.position (Prod.mk.inj h).2
      omega
    · rintro rfl
      rw [Int.add_zero, Int.toNat_natCast]

/-- A transfer that succeeds is to have the same result at both places, and to leave the same content. -/
theorem positioned_of_moving {result : Descriptor → ρ} {behind : Descriptor → Descriptor} (hseek : Seekable d offset)
    (hmoves : ∀ d, transfer d = (.ok (result d), behind d)) :
    positioned transfer offset d = atOffset transfer offset d ↔
      0 ≤ offset ∧ result { d with position := d.position + offset.toNat } = result { d with position := offset.toNat } ∧
        (behind { d with position := d.position + offset.toNat }).content =
          (behind { d with position := offset.toNat }).content := by
  rw [positioned_of_ok hseek (hmoves _), atOffset]
  by_cases hneg : offset < 0
  · rw [if_pos hneg]
    constructor
    · intro h
      cases (Prod.mk.inj h).1
    · rintro ⟨hnonneg, -⟩
      omega
  · have hplace : (d.position + offset).toNat = d.position + offset.toNat := by omega
    rw [if_neg hneg, hmoves, hplace]
    constructor
    · intro h
      obtain ⟨hresult, hbehind⟩ := Prod.mk.inj h
      have hcontent := congrArg Descriptor.content hbehind
      exact ⟨by omega, Except.ok.inj hresult, hcontent⟩
    · rintro ⟨-, hresult, hcontent⟩
      rw [hresult, hcontent]

/-- What is the same as a transfer at the offset keeps the position. -/
theorem positional_iff_eq : Positional (positioned transfer offset) (atOffset transfer offset) d ↔
    positioned transfer offset d = atOffset transfer offset d := by
  refine and_iff_left_of_imp fun h => ?_
  rw [h, atOffset_position]

theorem pread_positional_iff (hseek : Seekable d offset) (count : Nat) (outcome : Outcome) :
    Positional (Fallback.pread count offset outcome) (Files.pread count offset outcome) d ↔
      ReadsAlike d count offset outcome := by
  refine positional_iff_eq.trans ?_
  cases outcome with
  | fails errno => exact positioned_of_failing hseek fun _ => rfl
  | moves limit =>
    refine (positioned_of_moving hseek fun _ => rfl).trans ?_
    refine and_congr_right fun _ => ?_
    rw [and_iff_left rfl]
    exact take_drop_eq_iff

theorem pwrite_positional_iff (hseek : Seekable d offset) (bytes : List UInt8) (outcome : Outcome) :
    Positional (Fallback.pwrite bytes offset outcome) (Files.pwrite bytes offset outcome) d ↔
      WritesAlike d bytes offset outcome := by
  refine positional_iff_eq.trans ?_
  cases outcome with
  | fails errno => exact positioned_of_failing hseek fun _ => rfl
  | moves limit =>
    refine (positioned_of_moving hseek fun _ => rfl).trans ?_
    refine and_congr_right fun _ => ?_
    rw [and_iff_right rfl, Nat.add_comm]
    exact ⟨repeats_of_written_eq, Repeats.written_eq⟩

/-- When the replacements do what POSIX says. -/
theorem fallback_positional_iff (d : Descriptor) (offset : Int) (outcome : Outcome) (hseek : Seekable d offset) :
    (∀ count, Positional (Fallback.pread count offset outcome) (Files.pread count offset outcome) d ↔
      ReadsAlike d count offset outcome) ∧
    (∀ bytes, Positional (Fallback.pwrite bytes offset outcome) (Files.pwrite bytes offset outcome) d ↔
      WritesAlike d bytes offset outcome) :=
  ⟨fun count => pread_positional_iff hseek count outcome, fun bytes => pwrite_positional_iff hseek bytes outcome⟩

theorem fallback_positional_start :
    Positional (Fallback.pread 2 1 (.moves 2)) (Files.pread 2 1 (.moves 2)) ⟨[7, 8, 9], 0⟩ ∧
    Positional (Fallback.pwrite [5] 1 (.moves 2)) (Files.pwrite [5] 1 (.moves 2)) ⟨[7, 8, 9], 0⟩ := by
  obtain ⟨hread, hwrite⟩ := fallback_positional_iff ⟨[7, 8, 9], 0⟩ 1 (.moves 2) ⟨by decide, by decide, by decide⟩
  exact ⟨(hread 2).mpr (by decide), (hwrite [5]).mpr (by decide)⟩

/-- At position 1 the replacements go to the wrong place, and at position 0 they do not come back from a failure. -/
theorem not_fallback_positional :
    ¬ Positional (Fallback.pread 1 1 (.moves 1)) (Files.pread 1 1 (.moves 1)) ⟨[7, 8, 9], 1⟩ ∧
    ¬ Positional (Fallback.pwrite [5] 1 (.moves 1)) (Files.pwrite [5] 1 (.moves 1)) ⟨[7, 8, 9], 1⟩ ∧
    ¬ Positional (Fallback.pread 1 1 (.fails 5)) (Files.pread 1 1 (.fails 5)) ⟨[7, 8, 9], 0⟩ ∧
    ¬ Positional (Fallback.pwrite [5] 1 (.fails 5)) (Files.pwrite [5] 1 (.fails 5)) ⟨[7, 8, 9], 0⟩ := by
  refine ⟨fun h => ?_, fun h => ?_, fun h => ?_, fun h => ?_⟩
  · exact absurd (Except.ok.inj (Prod.mk.inj h.1).1) (by decide)
  · exact absurd (congrArg Descriptor.content (Prod.mk.inj h.1).2) (by decide)
  · exact absurd h.2 (by decide)
  · exact absurd h.2 (by decide)

/-! ### The copy in place with the replacements -/

/-- What the device does in a turn of the loop. -/
def Transfer.reads (t : Transfer) : Outcome :=
  match t.bytesin with
  | none => .fails 0
  | some more => .moves (more + 1)

def Transfer.writes (t : Transfer) (block : Bytes) : Outcome :=
  match t.missing with
  | none => .fails 0
  | some missing => .moves (block.length - missing)

/-- The copy with the descriptor that it works on. -/
structure DescriptorCopy where
  descriptor : Descriptor
  readOffset : Int
  writeOffset : Nat
  turn : Nat

def DescriptorCopy.copy (s : DescriptorCopy) : Copy := ⟨s.descriptor.content, s.readOffset, s.writeOffset, s.turn⟩

namespace Fallback

def copyTurn (io : Nat → Transfer) (s : DescriptorCopy) : Except DescriptorCopy (Turn DescriptorCopy DescriptorCopy) :=
  match Fallback.pread kCopyBlockSize s.readOffset (io s.turn).reads s.descriptor with
  | (.error _, d) => .error { s with descriptor := d }
  | (.ok block, d) =>
    if block.length = 0 then .ok (.leave { s with descriptor := d })
    else
      match Fallback.pwrite block s.writeOffset ((io s.turn).writes block) d with
      | (.error _, d) => .error { s with descriptor := d }
      | (.ok bytesout, d) => .ok (.again ⟨d, s.readOffset + block.length, s.writeOffset + bytesout, s.turn + 1⟩)

/-- `TruncateLogFile` with the replacements; a descriptor that has just been opened stands at the beginning. -/
def truncateLogFile (fuel : Nat) (env : Env) (limit keep : UInt64) (content : Bytes) : Option Bytes :=
  match env.opened with
  | .failed => some content
  | .tooBig => some (if env.truncate then [] else content)
  | .ok =>
    if env.fstat = false ∨ env.regular = false then some content
    else if (content.length : Int) ≤ offT limit.toNat then some content
    else if (content.length : Int) ≤ offT keep.toNat then some content
    else
      (loop (copyTurn env.transfer) fuel ⟨⟨content, 0⟩, offT (content.length - offT keep.toNat), 0, 0⟩).map fun result =>
        let s := match result with
          | .error s => s
          | .ok s => s
        if env.ftruncate then s.descriptor.content.take s.writeOffset else s.descriptor.content

end Fallback

/-- The state of the copy as long as every transfer has succeeded. -/
structure AtStart (s : DescriptorCopy) : Prop where
  position : s.descriptor.position = 0
  length : (s.descriptor.content.length : Int) ≤ offMax
  readOffset : s.readOffset ≤ offMax
  behind : s.writeOffset = 0 ∨ (s.writeOffset : Int) ≤ s.readOffset

section
variable {t : Transfer} {s : DescriptorCopy} {io : Nat → Transfer} {block : Bytes} {limit keep : UInt64}

theorem seekable_of_start (hposition : d.position = 0) (hnonneg : 0 ≤ offset) (hle : offset ≤ offMax) :
    Seekable d offset := by
  refine ⟨?_, ?_, ?_⟩
  · rw [hposition]
    decide
  · omega
  · omega

theorem pread_of_failing (h : Truncate.pread content offset t = none) : offset < 0 ∨ t.bytesin = none := by
  rw [Truncate.pread] at h
  split at h
  · rename_i hneg
    exact Or.inl hneg
  · exact Or.inr (Option.map_eq_none_iff.mp h)

/-- Where `pread` fails, the replacement at the beginning of the file does, and the content is the same. -/
theorem fallback_pread_none (hposition : d.position = 0) (hle : offset ≤ offMax)
    (h : Truncate.pread d.content offset t = none) :
    ∃ e d', Fallback.pread kCopyBlockSize offset t.reads d = (.error e, d') ∧ d'.content = d.content := by
  by_cases hneg : offset < 0
  · refine ⟨.invalid, d, ?_, rfl⟩
    have hhere : lseek 0 .cur d = (.ok (d.position : Int), d) := lseek_here (by rw [hposition]; decide)
    have hlseek : lseek offset .cur d = (.error .invalid, d) := by
      unfold lseek
      dsimp only
      rw [if_pos (by omega)]
    rw [Fallback.pread, positioned, bind_of_ok hhere, bind_of_error hlseek]
  · have hseek := seekable_of_start hposition (Int.not_lt.mp hneg) hle
    rw [Transfer.reads, (pread_of_failing h).resolve_left hneg]
    exact ⟨_, _, positioned_of_error hseek rfl, rfl⟩

theorem fallback_pread_some (hposition : d.position = 0) (hle : offset ≤ offMax)
    (h : Truncate.pread d.content offset t = some block) :
    0 ≤ offset ∧ block = (d.content.drop offset.toNat).take block.length ∧
      Fallback.pread kCopyBlockSize offset t.reads d = (.ok block, d) := by
  rw [Truncate.pread] at h
  split at h
  · cases h
  · rename_i hneg
    obtain ⟨more, hmore, rfl⟩ := Option.map_eq_some_iff.mp h
    have hnonneg := Int.not_lt.mp hneg
    have hseek := seekable_of_start hposition hnonneg hle
    have halike : ReadsAlike d kCopyBlockSize offset (.moves (more + 1)) :=
      ⟨hnonneg, fun i _ => by rw [hposition, Nat.zero_add]⟩
    have hposix := ((pread_positional_iff hseek kCopyBlockSize (.moves (more + 1))).mpr halike).1
    refine ⟨hnonneg, by simp, ?_⟩
    rw [Transfer.reads, hmore]
    dsimp only
    rw [hposix, Files.pread, atOffset, if_neg hneg]
    rfl

theorem overwrite_eq_written (h : n ≤ content.length) : overwrite content n block = written content n block := by
  rw [written]
  split
  · rename_i hnil
    rw [hnil, overwrite, List.append_nil, List.length_nil, Nat.add_zero, List.take_append_drop]
  · rw [overwrite, List.take_append_of_le_length h]

theorem fallback_pwrite_none (hseek : Seekable d (n : Int)) (h : t.missing = none) :
    ∃ e d', Fallback.pwrite block n (t.writes block) d = (.error e, d') ∧ d'.content = d.content := by
  rw [Transfer.writes, h]
  exact ⟨_, _, positioned_of_error hseek rfl, rfl⟩

theorem fallback_pwrite_some {missing : Nat} (hposition : d.position = 0) (hseek : Seekable d (n : Int))
    (hle : n ≤ d.content.length) (h : t.missing = some missing) :
    Fallback.pwrite block n (t.writes block) d =
      (.ok (block.take (block.length - missing)).length,
        ⟨overwrite d.content n (block.take (block.length - missing)), 0⟩) := by
  have halike : WritesAlike d block n (.moves (block.length - missing)) := by
    refine ⟨Int.natCast_nonneg n, fun i hi => ⟨fun hlt => ?_, fun hge => ?_, fun _ => ?_⟩⟩
    · omega
    · omega
    · rw [hposition, Nat.add_zero]
  have hposix := ((pwrite_positional_iff hseek block (.moves (block.length - missing))).mpr halike).1
  rw [Transfer.writes, h]
  dsimp only
  rw [hposix, Files.pwrite, atOffset, if_neg (by omega), overwrite_eq_written hle, Int.toNat_natCast, hposition]
  rfl

/-- A turn with the replacements is a turn of the copy, and the descriptor is back at the beginning behind it. -/
theorem copyTurn_fallback (h : AtStart s) :
    copyTurn io s.copy = Turn.image DescriptorCopy.copy DescriptorCopy.copy DescriptorCopy.copy (Fallback.copyTurn io s) ∧
      ∀ u, Fallback.copyTurn io s = .ok (.again u) → AtStart u := by
  unfold copyTurn Fallback.copyTurn
  dsimp only [DescriptorCopy.copy]
  cases hpread : Truncate.pread s.descriptor.content s.readOffset (io s.turn) with
  | none =>
    obtain ⟨e, d', hcall, hcontent⟩ := fallback_pread_none h.position h.readOffset hpread
    rw [hcall]
    refine ⟨?_, fun u hu => by cases hu⟩
    dsimp only [Turn.image, DescriptorCopy.copy]
    rw [hcontent]
  | some block =>
    obtain ⟨hnonneg, hblock, hcall⟩ := fallback_pread_some h.position h.readOffset hpread
    rw [hcall]
    dsimp only
    by_cases hempty : block.length = 0
    · rw [if_pos hempty, if_pos hempty]
      exact ⟨rfl, fun u hu => by cases hu⟩
    · -- What has been read lies in the file, so the offset to write at does too.
      have hlength := congrArg List.length hblock
      rw [List.length_take, List.length_drop] at hlength
      have hbehind := h.behind
      have hcontent := h.length
      have hseek : Seekable s.descriptor (s.writeOffset : Int) :=
        seekable_of_start h.position (Int.natCast_nonneg _) (by omega)
      rw [if_neg hempty, if_neg hempty]
      cases hmissing : (io s.turn).missing with
      | none =>
        obtain ⟨e, d', hcall, hsame⟩ := @fallback_pwrite_none _ _ _ block hseek hmissing
        rw [hcall]
        refine ⟨?_, fun u hu => by cases hu⟩
        dsimp only [Turn.image, DescriptorCopy.copy]
        rw [hsame]
      | some missing =>
        have hwritten : (block.take (block.length - missing)).length ≤ block.length := List.length_take_le' _ _
        rw [fallback_pwrite_some h.position hseek (by omega) hmissing]
        refine ⟨rfl, fun u hu => ?_⟩
        cases hu
        refine ⟨rfl, ?_, ?_, ?_⟩
        · dsimp only
          rw [length_overwrite (by omega)]
          exact hcontent
        · dsimp only
          omega
        · dsimp only
          omega

/-- The descriptor of `TruncateLogFile` stands at the beginning until a transfer fails, and then the copy ends. So the
    replacements do it no harm. -/
theorem truncateLogFile_fallback (fuel : Nat) (env : Env) (hlength : (content.length : Int) ≤ offMax) :
    Fallback.truncateLogFile fuel env limit keep content = truncateLogFile fuel env limit keep content := by
  have hoffset : offT (content.length - offT keep.toNat) ≤ offMax := by
    have hkeep := offT_cases keep.toNat
    have hkeep_lt := keep.toNat_lt
    have hcases := offT_cases (content.length - offT keep.toNat)
    unfold offMax at hlength ⊢
    omega
  have hstart : AtStart ⟨⟨content, 0⟩, offT (content.length - offT keep.toNat), 0, 0⟩ := by
    refine ⟨rfl, hlength, ?_, Or.inl rfl⟩
    dsimp only
    exact hoffset
  have hloop := loop_image (fun s h => (@copyTurn_fallback s env.transfer h).1)
    (fun s u h hagain => (@copyTurn_fallback s env.transfer h).2 u hagain) hstart fuel
  unfold Fallback.truncateLogFile truncateLogFile
  cases env.opened with
  | failed => rfl
  | tooBig => rfl
  | ok =>
    dsimp only
    dsimp only [DescriptorCopy.copy] at hloop
    rw [hloop, Option.map_map]
    congr 4
    funext result
    cases result with
    | error s => rfl
    | ok s => rfl

end

end

end Glog.Truncate
