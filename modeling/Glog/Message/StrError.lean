import Glog.Message.Buffer
import Glog.Run.Ambient
import Mathlib.Data.List.TakeWhile

/-! # The text of an error

`posix_strerror_r` calls `strerror_r`, whichever version of it the system has, and leaves errno as it was unless that sets
it. `strerror_r` is a parameter: what it comes to for an error and a length. -/

namespace Glog.LogMessage
open Ambient LogFile

/-- The number of `EINVAL`. -/
def einval : Int := 22

/-- What `strerror_r` returns: null, its buffer, or a text that is elsewhere. -/
inductive Returned
  | null
  | buffer
  | other (text : Text)
  deriving DecidableEq

structure Strerror where
  returned : Returned
  /-- What it leaves in its buffer. -/
  buf : Nat → Char
  /-- What errno is then; it has been zero before. -/
  errno : Int

/-- `strncat` onto an empty text. -/
def strncat (text : Text) (n : Nat) (buf : Nat → Char) : Nat → Char := fun i =>
  let l := (cString text).take n
  if i < l.length then l.getD i '\x00' else if i = l.length then '\x00' else buf i

/-- What `posix_strerror_r` returns, its buffer and errno. -/
structure PosixStrerror where
  rc : Int
  buf : Nat → Char
  errno : Int

section
variable (strerrorR : Int → Nat → Strerror)

/-- The buffer has `len` bytes, or is null. -/
def posixStrerrorR (err : Int) (isNull : Bool) (buf : Nat → Char) (len : Nat) (errno : Int) : PosixStrerror :=
  if isNull ∨ len = 0 then ⟨-1, buf, einval⟩
  else
    let r := strerrorR err len
    -- Both versions set errno on failure
    if r.errno ≠ 0 then ⟨-1, setPlace 0 '\x00' r.buf, r.errno⟩
    else
      match r.returned with
      | .null | .buffer => ⟨0, setPlace (len - 1) '\x00' r.buf, errno⟩
      -- GNU semantics detected
      | .other text => ⟨0, strncat text (len - 1) (setPlace (len - 1) '\x00' r.buf), errno⟩

/-- `StrError`, which has a buffer of 100 bytes; `snprintf` may set errno. -/
def strError (sets : Nat → Option Int) (err : Int) (errno : Cell Int) : Text × Cell Int :=
  -- The array is not initialized; it is not read before it is written.
  let r := posixStrerrorR strerrorR err false (fun _ => ' ') 100 errno.value
  if r.rc < 0 ∨ r.buf 0 = '\x00' then ("Error number ".toList ++ decimal err, (errno.set r.errno).call sets)
  else (cString (slice r.buf 0 100), errno.set r.errno)

end

/-! ### What they come to -/

/-- The text that `strerror_r` gives, as far as a buffer of `len` bytes holds it. -/
def Strerror.text (len : Nat) (r : Strerror) : Text :=
  match r.returned with
  | .null | .buffer => cString (slice r.buf 0 (len - 1))
  | .other text => (cString text).take (len - 1)

/-- errno is not set, and the text is not empty. -/
def Strerror.Succeeds (len : Nat) (r : Strerror) : Prop := r.errno = 0 ∧ r.text len ≠ []

instance (len : Nat) (r : Strerror) : Decidable (r.Succeeds len) := inferInstanceAs (Decidable (_ ∧ _))

section
variable {strerrorR : Int → Nat → Strerror} {sets : Nat → Option Int} {buf : Nat → Char} {err errno : Int} {len n : Nat}
  {text l rest : Text}

theorem cString_append : cString (l ++ '\x00' :: rest) = cString l := by
  induction l with
  | nil => rfl
  | cons c l ih =>
    simp only [cString, List.cons_append, List.takeWhile_cons] at ih ⊢
    rw [ih]

theorem cString_of_not_mem (h : '\x00' ∉ l) : cString l = l :=
  List.takeWhile_eq_self_iff.mpr fun _ hc => bne_iff_ne.mpr fun heq => h (heq ▸ hc)

theorem not_mem_cString : '\x00' ∉ cString l := fun hmem =>
  bne_iff_ne.mp (List.all_eq_true.mp (List.all_takeWhile (l := l) (p := (· != '\x00'))) _ hmem) rfl

/-- The text in a buffer that it does not fill. -/
theorem cString_slice (hlen : l.length < len) (hsame : slice buf 0 l.length = l) (hend : buf l.length = '\x00') :
    cString (slice buf 0 len) = cString l := by
  have hsplit : slice buf 0 len = slice buf 0 (l.length + 1) ++ (slice buf 0 len).drop (l.length + 1) := by
    have htake : (slice buf 0 len).take (l.length + 1) = slice buf 0 (l.length + 1) := by
      rw [slice, ← List.map_take, List.take_range, Nat.min_eq_left hlen]
      rfl
    rw [← htake, List.take_append_drop]
  rw [hsplit, slice_succ, hsame, Nat.zero_add, hend, List.append_assoc, List.singleton_append, cString_append]

theorem cString_slice_setPlace : cString (slice (setPlace len '\x00' buf) 0 (len + 1)) = cString (slice buf 0 len) := by
  have hsame : slice (setPlace len '\x00' buf) 0 len = slice buf 0 len := slice_congr fun i _ hi => setPlace_ne (by omega)
  rw [slice_succ, hsame, Nat.zero_add, setPlace_self, cString_append]

theorem cString_slice_strncat (hn : n < len) : cString (slice (strncat text n buf) 0 len) = (cString text).take n := by
  generalize hl : (cString text).take n = l
  have hnot : '\x00' ∉ l := fun hmem => not_mem_cString (List.mem_of_mem_take (hl ▸ hmem))
  have hlt : l.length < len := by
    rw [← hl]
    exact Nat.lt_of_le_of_lt (List.length_take_le _ _) hn
  have hsame : slice (strncat text n buf) 0 l.length = l := by
    refine List.ext_getElem length_slice fun i hi hi' => ?_
    simp [slice, strncat, hl, hi']
  have hend : strncat text n buf l.length = '\x00' := by simp [strncat, hl]
  rw [cString_slice hlt hsame hend, cString_of_not_mem hnot]

/-- A text is empty if it begins with its end. -/
theorem cString_slice_eq_nil_iff : cString (slice buf 0 (len + 1)) = [] ↔ buf 0 = '\x00' := by
  rw [slice, List.range_succ_eq_map, List.map_cons, Nat.add_zero, cString, List.takeWhile_cons]
  by_cases hfirst : buf 0 = '\x00'
  · simp [hfirst]
  · simp [hfirst]

/-- Where `strerror_r` does not fail its text is in the buffer, and errno is as before. -/
theorem posixStrerrorR_of_zero (hzero : (strerrorR err (len + 1)).errno = 0) :
    (posixStrerrorR strerrorR err false buf (len + 1) errno).rc = 0 ∧
      (posixStrerrorR strerrorR err false buf (len + 1) errno).errno = errno ∧
        cString (slice (posixStrerrorR strerrorR err false buf (len + 1) errno).buf 0 (len + 1)) =
          (strerrorR err (len + 1)).text (len + 1) := by
  have hroom : ¬ (false = true ∨ len + 1 = 0) := by simp
  rw [posixStrerrorR, if_neg hroom]
  dsimp only
  rw [if_neg (not_not.mpr hzero), Strerror.text]
  cases (strerrorR err (len + 1)).returned with
  | null | buffer => exact ⟨rfl, rfl, cString_slice_setPlace⟩
  | other text => exact ⟨rfl, rfl, cString_slice_strncat (Nat.lt_succ_self len)⟩

theorem posixStrerrorR_of_ne_zero (hset : (strerrorR err (len + 1)).errno ≠ 0) :
    posixStrerrorR strerrorR err false buf (len + 1) errno =
      ⟨-1, setPlace 0 '\x00' (strerrorR err (len + 1)).buf, (strerrorR err (len + 1)).errno⟩ := by
  have hroom : ¬ (false = true ∨ len + 1 = 0) := by simp
  rw [posixStrerrorR, if_neg hroom]
  exact if_pos hset

/-- `StrError` gives the text of `strerror_r` and leaves errno as it was, or else it makes a text itself. -/
theorem strError_eq (sets : Nat → Option Int) (err : Int) (errno : Cell Int) : strError strerrorR sets err errno =
    if (strerrorR err 100).Succeeds 100 then ((strerrorR err 100).text 100, errno)
    else ("Error number ".toList ++ decimal err,
      (if (strerrorR err 100).errno = 0 then errno else errno.set (strerrorR err 100).errno).call sets) := by
  rw [strError]
  by_cases hzero : (strerrorR err 100).errno = 0
  · obtain ⟨hrc, herrno, htext⟩ := @posixStrerrorR_of_zero strerrorR (fun _ => ' ') err errno.value 99 hzero
    have hempty := @cString_slice_eq_nil_iff (posixStrerrorR strerrorR err false (fun _ => ' ') 100 errno.value).buf 99
    have hkept : errno.set errno.value = errno := rfl
    rw [htext] at hempty
    simp only [hrc, herrno, htext, hkept, ← hempty, Strerror.Succeeds, hzero]
    by_cases htext : (strerrorR err 100).text 100 = []
    · simp [htext]
    · simp [htext]
  · rw [posixStrerrorR_of_ne_zero hzero, if_neg fun h : (strerrorR err 100).Succeeds 100 => hzero h.1, if_neg hzero]
    exact if_pos (Or.inl (Int.negSucc_lt_zero 0))

end

end Glog.LogMessage
