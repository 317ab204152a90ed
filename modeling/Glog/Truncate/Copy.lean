import Mathlib.Algebra.GroupWithZero.Nat
import Glog.Run.Loop

/-! # The copy in place

`TruncateLogFile` copies the last `keep` bytes of a file to its beginning, block by block, and cuts the file off behind
them. What `pread` and `pwrite` come to is given turn by turn; the file has no other writer. The messages that the
function logs are left out. -/

namespace Glog.Truncate
open Run

abbrev Bytes := List UInt8

def kCopyBlockSize : Nat := 8192

/-- A value as an `off_t`, which wraps around. -/
def offT (x : Int) : Int := if x < (2 ^ 63 : Nat) then x else x - (2 ^ 64 : Nat)

/-- What the two calls of a turn of the loop come to. -/
structure Transfer where
  /-- `pread` reads one byte and so many more, as far as there are any; `none` for -1. -/
  bytesin : Option Nat
  /-- `pwrite` writes so many bytes less than it is given; `none` for -1. -/
  missing : Option Nat

structure Copy where
  content : Bytes
  readOffset : Int
  writeOffset : Nat
  turn : Nat

/-- `pread` refuses a negative offset. -/
def pread (content : Bytes) (offset : Int) (t : Transfer) : Option Bytes :=
  if offset < 0 then none
  else t.bytesin.map fun more => (content.drop offset.toNat).take (min (more + 1) kCopyBlockSize)

/-- The content after a `pwrite` of a block at an offset in the file. -/
def overwrite (content : Bytes) (offset : Nat) (block : Bytes) : Bytes :=
  content.take offset ++ block ++ content.drop (offset + block.length)

/-- One turn of the loop, which ends at the end of the file or with a call that fails. -/
def copyTurn (io : Nat → Transfer) (s : Copy) : Except Copy (Turn Copy Copy) :=
  match pread s.content s.readOffset (io s.turn) with
  | none => .error s
  | some block =>
    if block.length = 0 then .ok (.leave s)
    else
      match (io s.turn).missing with
      | none => .error s
      | some missing =>
        let written := block.take (block.length - missing)
        .ok (.again ⟨overwrite s.content s.writeOffset written, s.readOffset + block.length,
          s.writeOffset + written.length, s.turn + 1⟩)

/-- Where the loop is left, by a `break` or not. -/
def stopped : Except Copy Copy → Copy
  | .error s => s
  | .ok s => s

inductive Opened
  | ok
  /-- `open` fails with `EFBIG`. -/
  | tooBig
  | failed
  deriving DecidableEq

/-- What the other calls come to. -/
structure Env where
  opened : Opened
  truncate : Bool
  fstat : Bool
  regular : Bool
  transfer : Nat → Transfer
  ftruncate : Bool

/-- The file after `TruncateLogFile`; `none` where the loop needs more turns. -/
def truncateLogFile (fuel : Nat) (env : Env) (limit keep : UInt64) (content : Bytes) : Option Bytes :=
  match env.opened with
  | .failed => some content
  | .tooBig => some (if env.truncate then [] else content)
  | .ok =>
    if env.fstat = false ∨ env.regular = false then some content
    else if (content.length : Int) ≤ offT limit.toNat then some content
    else if (content.length : Int) ≤ offT keep.toNat then some content
    else
      (loop (copyTurn env.transfer) fuel ⟨content, offT (content.length - offT keep.toNat), 0, 0⟩).map fun result =>
        let s := stopped result
        if env.ftruncate then s.content.take s.writeOffset else s.content

/-! ### One turn -/

section
variable {c content block : Bytes} {offset shift n : Nat} {io : Nat → Transfer} {s u : Copy} {t : Transfer}

/-- The number of bytes that a `pread` may return. -/
def Transfer.asked (t : Transfer) : Nat :=
  match t.bytesin with
  | none => 0
  | some more => min (more + 1) kCopyBlockSize

/-- Both calls do all that they can. -/
structure Transfer.Full (t : Transfer) : Prop where
  read : t.bytesin ≠ none
  written : t.missing = some 0

theorem Transfer.asked_pos (h : t.bytesin ≠ none) : 0 < t.asked := by
  obtain ⟨more, hmore⟩ := Option.ne_none_iff_exists'.mp h
  simp only [asked, hmore, kCopyBlockSize]
  omega

theorem pread_eq_none : pread content offset t = none ↔ t.bytesin = none := by
  rw [pread, if_neg (by omega), Option.map_eq_none_iff]

theorem pread_eq_some (h : pread content offset t = some block) :
    t.bytesin ≠ none ∧ block = (content.drop offset).take t.asked := by
  rw [pread, if_neg (by omega)] at h
  obtain ⟨more, hmore, hblock⟩ := Option.map_eq_some_iff.mp h
  refine ⟨by simp [hmore], ?_⟩
  rw [← hblock, Transfer.asked, hmore]
  rfl

/-- A turn that does not end the loop. -/
theorem copyTurn_again (h : copyTurn io s = .ok (.again u)) : ∃ block missing,
    pread s.content s.readOffset (io s.turn) = some block ∧ block.length ≠ 0 ∧ (io s.turn).missing = some missing ∧
      u = ⟨overwrite s.content s.writeOffset (block.take (block.length - missing)), s.readOffset + block.length,
        s.writeOffset + (block.take (block.length - missing)).length, s.turn + 1⟩ := by
  unfold copyTurn at h
  split at h
  · cases h
  · rename_i block hread
    split at h
    · cases h
    · rename_i hblock
      split at h
      · cases h
      · rename_i missing hmissing
        cases h
        exact ⟨block, missing, hread, hblock, hmissing, rfl⟩

/-- A turn that ends the loop leaves the state as it is. -/
theorem copyTurn_result {r : Except Copy Copy} (h : Turn.result (copyTurn io s) = some r) : stopped r = s ∧
    (pread s.content s.readOffset (io s.turn) = none ∨ pread s.content s.readOffset (io s.turn) = some [] ∨
      (io s.turn).missing = none) := by
  unfold copyTurn at h
  split at h
  · rename_i hread
    cases h
    exact ⟨rfl, Or.inl hread⟩
  · rename_i block hread
    split at h
    · rename_i hblock
      cases h
      exact ⟨rfl, Or.inr (Or.inl (by rw [hread, List.length_eq_zero_iff.mp hblock]))⟩
    · split at h
      · rename_i hmissing
        cases h
        exact ⟨rfl, Or.inr (Or.inr hmissing)⟩
      · cases h

theorem length_overwrite (h : offset + block.length ≤ content.length) :
    (overwrite content offset block).length = content.length := by
  simp only [overwrite, List.length_append, List.length_take, List.length_drop]
  omega

theorem take_overwrite (h : offset ≤ content.length) :
    (overwrite content offset block).take (offset + block.length) = content.take offset ++ block := by
  have hlength : (content.take offset ++ block).length = offset + block.length := by
    rw [List.length_append, List.length_take, Nat.min_eq_left h]
  rw [overwrite, ← hlength, List.take_left]

theorem drop_overwrite (h : offset ≤ content.length) :
    (overwrite content offset block).drop (offset + block.length) = content.drop (offset + block.length) := by
  have hlength : (content.take offset ++ block).length = offset + block.length := by
    rw [List.length_append, List.length_take, Nat.min_eq_left h]
  conv => lhs; rw [overwrite, ← hlength, List.drop_left]
  rw [hlength]

end

end Glog.Truncate
