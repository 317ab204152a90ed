import Mathlib.Data.List.Basic

/-! # File descriptors

A descriptor stands at a position of a file, which `lseek` moves and which `read` and `write` move on. `pread` and `pwrite`
work at an offset of their own and leave the position as it is. -/

namespace Files

inductive IoError
  | invalid | overflow
  /-- What the device fails with. -/
  | device (errno : Nat)
  deriving DecidableEq

structure Descriptor where
  content : List UInt8
  position : Nat
  deriving DecidableEq

/-- A call fails with an error or has a result, and leaves the descriptor behind in both cases. -/
abbrev Call (ρ : Type) := ExceptT IoError (StateM Descriptor) ρ

inductive Whence
  | set | cur | fromEnd
  deriving DecidableEq

/-- What the device does with the bytes of a call: nothing, or it moves so many of them at most. -/
inductive Outcome
  | fails (errno : Nat)
  | moves (limit : Nat)
  deriving DecidableEq

/-- The largest offset. -/
def offMax : Int := 9223372036854775807

def lseek (offset : Int) (whence : Whence) : Call Int := fun d =>
  let target := match whence with
    | .set => offset
    | .cur => d.position + offset
    | .fromEnd => d.content.length + offset
  if target < 0 then (.error .invalid, d)
  else if target > offMax then (.error .overflow, d)
  else (.ok target, { d with position := target.toNat })

/-- The content behind a write at an offset; a gap before it is filled with zeros. -/
def written (content : List UInt8) (offset : Nat) (bytes : List UInt8) : List UInt8 :=
  if bytes = [] then content
  else (content ++ List.replicate (offset - content.length) 0).take offset ++ bytes ++ content.drop (offset + bytes.length)

def read (count : Nat) (outcome : Outcome) : Call (List UInt8) := fun d =>
  match outcome with
  | .fails errno => (.error (.device errno), d)
  | .moves limit =>
    let bytes := (d.content.drop d.position).take (min limit count)
    (.ok bytes, { d with position := d.position + bytes.length })

/-- The result is the number of bytes that are written. -/
def write (bytes : List UInt8) (outcome : Outcome) : Call Nat := fun d =>
  match outcome with
  | .fails errno => (.error (.device errno), d)
  | .moves limit =>
    let moved := bytes.take limit
    (.ok moved.length, ⟨written d.content d.position moved, d.position + moved.length⟩)

/-- The same transfer at an offset, which leaves the position as it is. -/
def atOffset {ρ : Type} (transfer : Call ρ) (offset : Int) : Call ρ := fun d =>
  if offset < 0 then (.error .invalid, d)
  else
    let r := transfer { d with position := offset.toNat }
    (r.1, { r.2 with position := d.position })

def pread (count : Nat) (offset : Int) (outcome : Outcome) : Call (List UInt8) := atOffset (read count outcome) offset

def pwrite (bytes : List UInt8) (offset : Int) (outcome : Outcome) : Call Nat := atOffset (write bytes outcome) offset

/-- The bytes stand at `o` and at `o + p` already, but for where these places overlap; there they repeat themselves. -/
def Repeats (content : List UInt8) (o p : Nat) (bytes : List UInt8) : Prop :=
  ∀ i < bytes.length, (i < p → content[o + i]? = bytes[i]?) ∧ (bytes.length ≤ i + p → content[o + p + i]? = bytes[i]?) ∧
    (i + p < bytes.length → bytes[i + p]? = bytes[i]?)

instance (content : List UInt8) (o p : Nat) (bytes : List UInt8) : Decidable (Repeats content o p bytes) :=
  inferInstanceAs (Decidable (∀ i < bytes.length, _))

section
variable {ρ σ : Type} {transfer : Call ρ} {f : ρ → Call σ} {a : ρ} {e : IoError} {d d' : Descriptor}
  {content bytes : List UInt8} {offset o p k : Nat}

theorem bind_eq : (transfer >>= f) d = ExceptT.bindCont f (transfer d).1 (transfer d).2 := rfl

theorem bind_of_ok (h : transfer d = (.ok a, d')) : (transfer >>= f) d = f a d' := by
  rw [bind_eq, h]
  rfl

theorem bind_of_error (h : transfer d = (.error e, d')) : (transfer >>= f) d = (.error e, d') := by
  rw [bind_eq, h]
  rfl

@[simp] theorem atOffset_position {offset : Int} : ((atOffset transfer offset) d).2.position = d.position := by
  unfold atOffset
  split
  · rfl
  · rfl

/-- When as many bytes are the same at two places. -/
theorem take_drop_eq_iff {o o' m : Nat} :
    (content.drop o).take m = (content.drop o').take m ↔ ∀ i < m, content[o + i]? = content[o' + i]? := by
  constructor
  · intro h i hi
    have hbyte := congrArg (fun l : List UInt8 => l[i]?) h
    simpa [List.getElem?_take_of_lt hi] using hbyte
  · intro h
    refine List.ext_getElem? fun i => ?_
    by_cases hi : i < m
    · simpa [List.getElem?_take_of_lt hi] using h i hi
    · rw [List.getElem?_take_eq_none (Nat.le_of_not_lt hi), List.getElem?_take_eq_none (Nat.le_of_not_lt hi)]

/-! ### Writes -/

theorem written_nil : written content offset [] = content := if_pos rfl

/-- The bytes of a file behind a write. -/
theorem getElem?_written (hne : bytes ≠ []) : (written content offset bytes)[k]? =
    if k < offset then (if k < content.length then content[k]? else some 0)
    else if k < offset + bytes.length then bytes[k - offset]? else content[k]? := by
  have hhead : ((content ++ List.replicate (offset - content.length) 0).take offset).length = offset := by
    rw [List.length_take, List.length_append, List.length_replicate]
    omega
  rw [written, if_neg hne]
  by_cases hbefore : k < offset
  · rw [if_pos hbefore, List.append_assoc, List.getElem?_append_left (by omega), List.getElem?_take_of_lt hbefore]
    by_cases hin : k < content.length
    · rw [if_pos hin, List.getElem?_append_left hin]
    · rw [if_neg hin, List.getElem?_append_right (by omega), List.getElem?_replicate, if_pos (by omega)]
  · rw [if_neg hbefore]
    by_cases hin : k < offset + bytes.length
    · rw [if_pos hin, List.append_assoc, List.getElem?_append_right (by omega), hhead,
        List.getElem?_append_left (by omega)]
    · rw [if_neg hin, List.getElem?_append_right (by rw [List.length_append, hhead]; omega), List.length_append, hhead,
        List.getElem?_drop]
      congr 1
      omega

theorem Repeats.written_eq (h : Repeats content o p bytes) : written content (o + p) bytes = written content o bytes := by
  rcases eq_or_ne bytes [] with rfl | hne
  · rw [written_nil, written_nil]
  have hpos : 0 < bytes.length := List.length_pos_iff.mpr hne
  refine List.ext_getElem? fun k => ?_
  rw [getElem?_written hne, getElem?_written hne]
  by_cases hbefore : k < o
  · rw [if_pos hbefore, if_pos (by omega)]
  rw [if_neg hbefore]
  by_cases hfirst : k < o + bytes.length
  · -- A byte of the first place: it is there already, or belongs to the second place too.
    obtain ⟨hhere, -, -⟩ := h (k - o) (by omega)
    rw [if_pos hfirst]
    by_cases hgap : k < o + p
    · have hbyte := hhere (by omega)
      rw [show o + (k - o) = k by omega, List.getElem?_eq_getElem (show k - o < bytes.length by omega)] at hbyte
      obtain ⟨hin, -⟩ := List.getElem?_eq_some_iff.mp hbyte
      rw [if_pos hgap, if_pos hin, hbyte, List.getElem?_eq_getElem]
    · obtain ⟨-, -, hrepeat⟩ := h (k - (o + p)) (by omega)
      rw [if_neg hgap, if_pos (by omega), ← hrepeat (by omega)]
      congr 1
      omega
  rw [if_neg hfirst]
  by_cases hgap : k < o + p
  · -- Between the places nothing is changed: the second one lies in the file.
    obtain ⟨-, hthere, -⟩ := h 0 hpos
    have hbyte := hthere (by omega)
    rw [List.getElem?_eq_getElem hpos] at hbyte
    obtain ⟨hin, -⟩ := List.getElem?_eq_some_iff.mp hbyte
    rw [if_pos hgap, if_pos (by omega)]
  rw [if_neg hgap]
  by_cases hsecond : k < o + p + bytes.length
  · obtain ⟨-, hthere, -⟩ := h (k - (o + p)) (by omega)
    rw [if_pos hsecond, ← hthere (by omega)]
    congr 1
    omega
  · rw [if_neg hsecond]

theorem repeats_of_written_eq (h : written content (o + p) bytes = written content o bytes) :
    Repeats content o p bytes := by
  rcases eq_or_ne bytes [] with rfl | hne
  · exact fun i hi => absurd hi (Nat.not_lt_zero i)
  have hpos : 0 < bytes.length := List.length_pos_iff.mpr hne
  have hbyte : ∀ k : Nat, (written content (o + p) bytes)[k]? = (written content o bytes)[k]? := fun k => by rw [h]
  simp only [getElem?_written hne] at hbyte
  intro i hi
  refine ⟨fun hgap => ?_, fun hpast => ?_, fun hboth => ?_⟩
  · -- The second place ends inside of the file, so the first byte is not one of a gap.
    have hlast := hbyte (o + p + (bytes.length - 1))
    rw [if_neg (by omega), if_pos (by omega), if_neg (by omega), if_neg (by omega),
      List.getElem?_eq_getElem (show o + p + (bytes.length - 1) - (o + p) < bytes.length by omega)] at hlast
    obtain ⟨hin, -⟩ := List.getElem?_eq_some_iff.mp hlast.symm
    have hfirst := hbyte (o + i)
    rw [if_pos (by omega), if_pos (by omega), if_neg (by omega), if_pos (by omega), Nat.add_sub_cancel_left] at hfirst
    exact hfirst
  · have hsecond := hbyte (o + p + i)
    rw [if_neg (by omega), if_pos (by omega), Nat.add_sub_cancel_left, if_neg (by omega), if_neg (by omega)] at hsecond
    exact hsecond.symm
  · have hover := hbyte (o + p + i)
    rw [if_neg (by omega), if_pos (by omega), Nat.add_sub_cancel_left, if_neg (by omega), if_pos (by omega)] at hover
    rw [hover]
    congr 1
    omega

end

end Files
