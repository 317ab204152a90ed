import Glog.Demangle.Indexed
import Glog.Demangle.Soundness

/-! # Function clone suffixes, character by character

`IsFunctionCloneSuffix` as it runs, two characters on at a time behind a look at the second one. It reads no character
behind the terminator and accepts the sequences of groups. -/

namespace Glog.Demangle
open Run Indexed Computability

/-- `str[i] == c && p(str[i + 1])` -/
def Indexed.followedBy (str : CString) (c : Char) (p : Char → Bool) (i : Nat) : Except Fault Bool :=
  Scan.followedBy .outOfBounds '\x00' str.chars c p i

/-- `while (p(str[i])) ++i;` -/
def Indexed.skipWhile (str : CString) (p : Char → Bool) (fuel i : Nat) : Machine Nat :=
  ExceptT.mk (Scan.skipWhile .outOfBounds '\x00' str.chars p fuel i)

/-- The loop of `IsFunctionCloneSuffix` from index `i` on. -/
def Indexed.isFunctionCloneSuffixFrom (str : CString) : Nat → Nat → Machine Bool
  | 0, _ => ExceptT.mk none
  | fuel + 1, i => do
    let c ← Machine.of (peek str i)
    if c = '\x00' then return true
    else
      -- Consume a single .<alpha>+.<digit>+ sequence.
      let named ← Machine.of (followedBy str '.' isAlpha i)
      if !named then return false
      else
        let i ← skipWhile str isAlpha fuel (i + 2)
        let numbered ← Machine.of (followedBy str '.' isDigit i)
        if !numbered then return false
        else
          let i ← skipWhile str isDigit fuel (i + 2)
          isFunctionCloneSuffixFrom str fuel i

def Indexed.isFunctionCloneSuffix (str : CString) (fuel : Nat) : Machine Bool := isFunctionCloneSuffixFrom str fuel 0

section
variable {str : CString} {fuel i : Nat} {chars l l' : List Char} {c : Char} {p : Char → Bool}

/-! ### The scan -/

theorem Indexed.of_bind {α β : Type} (a : α) (f : α → Machine β) : (Machine.of (.ok a) >>= f) = f a := rfl

theorem Indexed.followedBy_eq (h : i ≤ str.length) (hc : c ≠ '\x00') : followedBy str c p i =
    .ok (decide ((str.rest i).headD '\x00' = c) && p ((str.rest (i + 1)).headD '\x00')) := Scan.followedBy_eq h hc

theorem Indexed.skipWhile_eq (hp : p '\x00' = false) (h : i ≤ str.length) (hfuel : str.length - i < fuel) :
    skipWhile str p fuel i = Machine.of (.ok (i + ((str.rest i).takeWhile p).length)) :=
  congrArg ExceptT.mk (Scan.skipWhile_eq hp h hfuel)

theorem rest_skip : str.rest (i + ((str.rest i).takeWhile p).length) = (str.rest i).dropWhile p := Scan.drop_skip

theorem skip_le (h : i ≤ str.length) : i + ((str.rest i).takeWhile p).length ≤ str.length := by
  have hle : ((str.rest i).takeWhile p).length ≤ (str.rest i).length := (List.takeWhile_sublist p).length_le
  rw [CString.rest, List.length_drop] at hle
  unfold CString.length at h ⊢
  rw [CString.rest]
  omega

theorem rest_tail : str.rest (i + 1) = (str.rest i).tail := List.tail_drop.symm

/-- Behind a dot and a character of a kind the other characters of the kind are skipped. -/
theorem skip_half (hp : p '\x00' = false) (hfuel : str.length - i ≤ fuel)
    (hhalf : (decide ((str.rest i).headD '\x00' = '.') && p ((str.rest i).tail.headD '\x00')) = true) :
    ∃ j, skipWhile str p fuel (i + 2) = Machine.of (.ok j) ∧ i + 2 ≤ j ∧ j ≤ str.length ∧
      str.rest j = (str.rest i).tail.dropWhile p := by
  obtain ⟨-, hsecond⟩ := Bool.and_eq_true_iff.mp hhalf
  cases hrest : (str.rest i).tail with
  | nil =>
    rw [hrest, List.headD_nil, hp] at hsecond
    cases hsecond
  | cons c chars =>
    rw [hrest, List.headD_cons] at hsecond
    have hnext : str.rest (i + 1) = c :: chars := rest_tail.trans hrest
    have hlt := rest_cons_lt hnext
    have hbehind : str.rest (i + 2) = chars := rest_succ hnext
    refine ⟨_, Indexed.skipWhile_eq hp hlt (by omega), Nat.le_add_right _ _, skip_le hlt, ?_⟩
    rw [rest_skip, hbehind, List.dropWhile_cons_of_pos hsecond]

/-- A group is two halves, of letters and of digits. -/
theorem isFunctionCloneSuffix_cons {dot : Char} : Demangle.isFunctionCloneSuffix (fuel + 1) (dot :: chars) =
    ((decide (dot = '.') && isAlpha (chars.headD '\x00')) &&
      ((decide ((chars.dropWhile isAlpha).headD '\x00' = '.') && isDigit ((chars.dropWhile isAlpha).tail.headD '\x00')) &&
        Demangle.isFunctionCloneSuffix fuel ((chars.dropWhile isAlpha).tail.dropWhile isDigit))) := by
  simp only [Demangle.isFunctionCloneSuffix, beq_eq_decide, Bool.and_assoc]

/-- Character by character `IsFunctionCloneSuffix` gives what `isFunctionCloneSuffix` gives. -/
theorem isFunctionCloneSuffix_indexed (h : i ≤ str.length) (hfuel : str.length - i < fuel) :
    isFunctionCloneSuffixFrom str fuel i = Machine.of (.ok (Demangle.isFunctionCloneSuffix fuel (str.rest i))) := by
  induction fuel generalizing i with
  | zero => omega
  | succ fuel ih =>
    rw [isFunctionCloneSuffixFrom, Indexed.peek_eq h, of_bind]
    cases hrest : str.rest i with
    | nil => rfl
    | cons dot chars =>
      have hdot : dot ≠ '\x00' := by
        rintro rfl
        exact str.nulFree (List.mem_of_mem_drop (hrest ▸ List.mem_cons_self))
      rw [List.headD_cons, if_neg hdot, Indexed.followedBy_eq h (by decide), of_bind, rest_tail, hrest, List.headD_cons,
        List.tail_cons, isFunctionCloneSuffix_cons]
      cases hnamed : decide (dot = '.') && isAlpha (chars.headD '\x00') with
      | false =>
        rw [if_pos Bool.not_false, Bool.false_and]
        rfl
      | true =>
        obtain ⟨j, hskip, hij, hj, hdigits⟩ :=
          @skip_half str fuel i isAlpha (by decide) (by omega) (by rw [hrest]; exact hnamed)
        rw [hrest, List.tail_cons] at hdigits
        rw [if_neg (by decide), hskip, of_bind, Indexed.followedBy_eq hj (by decide), of_bind, rest_tail, hdigits]
        cases hnumbered : decide ((chars.dropWhile isAlpha).headD '\x00' = '.') &&
          isDigit ((chars.dropWhile isAlpha).tail.headD '\x00') with
        | false =>
          rw [if_pos Bool.not_false, Bool.false_and, Bool.and_false]
          rfl
        | true =>
          obtain ⟨k, hskip, hjk, hk, hgroups⟩ :=
            @skip_half str fuel j isDigit (by decide) (by omega) (by rw [hdigits]; exact hnumbered)
          rw [if_neg (by decide), hskip, of_bind, ih hk (by omega), hgroups, hdigits, Bool.true_and, Bool.true_and]

/-! ### The language -/

theorem head_run1 (h : l ∈ run1 p) (l' : List Char) : p ((l ++ l').headD '\x00') = true := by
  obtain ⟨hne, hall⟩ := h
  obtain ⟨c, chars, rfl⟩ := List.exists_cons_of_ne_nil hne
  exact hall c List.mem_cons_self

theorem dropWhile_run1 (h : l ∈ run1 p) (hend : p (l'.headD '\x00') = false) : (l ++ l').dropWhile p = l' := by
  rw [List.dropWhile_append_of_pos h.2]
  cases l' with
  | nil => rfl
  | cons c chars => exact List.dropWhile_cons_of_neg (Bool.eq_false_iff.mp hend)

theorem mem_cloneSuffix (h : l ∈ cloneSuffix) :
    ∃ letters ∈ run1 isAlpha, ∃ digits ∈ run1 isDigit, l = '.' :: (letters ++ '.' :: digits) := by
  obtain ⟨_, ⟨_, ⟨dot, hdot, letters, hletters, rfl⟩, dot', hdot', rfl⟩, digits, hdigits, rfl⟩ := h
  obtain rfl : dot = ['.'] := hdot
  obtain rfl : dot' = ['.'] := hdot'
  exact ⟨letters, hletters, digits, hdigits, by simp⟩

/-- One turn takes one group. -/
theorem isFunctionCloneSuffix_group (h : l ∈ cloneSuffix) (hend : isDigit (l'.headD '\x00') = false) :
    Demangle.isFunctionCloneSuffix (fuel + 1) (l ++ l') = Demangle.isFunctionCloneSuffix fuel l' := by
  obtain ⟨letters, hletters, digits, hdigits, rfl⟩ := mem_cloneSuffix h
  have hdot : isAlpha (('.' :: (digits ++ l')).headD '\x00') = false := rfl
  rw [List.cons_append, List.append_assoc, List.cons_append, isFunctionCloneSuffix_cons, head_run1 hletters,
    dropWhile_run1 hletters hdot, List.headD_cons, List.tail_cons, head_run1 hdigits, dropWhile_run1 hdigits hend]
  simp

theorem head_groups {groups : List (List Char)} (h : ∀ l ∈ groups, l ∈ cloneSuffix) :
    isDigit (groups.flatten.headD '\x00') = false := by
  cases groups with
  | nil => rfl
  | cons l groups =>
    obtain ⟨letters, -, digits, -, rfl⟩ := mem_cloneSuffix (h _ List.mem_cons_self)
    rfl

theorem isFunctionCloneSuffix_groups {groups : List (List Char)} (h : ∀ l ∈ groups, l ∈ cloneSuffix)
    (hfuel : groups.flatten.length ≤ fuel) : Demangle.isFunctionCloneSuffix fuel groups.flatten = true := by
  induction groups generalizing fuel with
  | nil => cases fuel <;> rfl
  | cons l groups ih =>
    obtain ⟨hl, hgroups⟩ := List.forall_mem_cons.mp h
    have hpos : 0 < l.length := by
      obtain ⟨letters, -, digits, -, rfl⟩ := mem_cloneSuffix hl
      exact Nat.succ_pos _
    rw [List.flatten_cons, List.length_append] at hfuel
    obtain ⟨fuel, rfl⟩ := Nat.exists_eq_add_of_le' (show 1 ≤ fuel by omega)
    rw [List.flatten_cons, isFunctionCloneSuffix_group hl (head_groups hgroups)]
    exact ih hgroups (by omega)

theorem isFunctionCloneSuffix_iff (hfuel : l.length ≤ fuel) :
    Demangle.isFunctionCloneSuffix fuel l = true ↔ l ∈ cloneSuffix∗ := by
  constructor
  · exact isFunctionCloneSuffix_mem fuel l
  · rintro ⟨groups, rfl, hgroups⟩
    exact isFunctionCloneSuffix_groups hgroups hfuel

/-- Character by character the parser's condition is decided, with its own fuel. -/
theorem isFunctionCloneSuffix_refines (h : i ≤ str.length) (hfuel : str.length - i < fuel) :
    isFunctionCloneSuffixFrom str fuel i = Machine.of (.ok (Demangle.isFunctionCloneSuffix str.length (str.rest i))) := by
  have hlength : (str.rest i).length = str.length - i := List.length_drop
  rw [isFunctionCloneSuffix_indexed h hfuel]
  congr 2
  exact Bool.eq_iff_iff.mpr
    ((isFunctionCloneSuffix_iff (by omega)).trans (isFunctionCloneSuffix_iff (by omega)).symm)

/-- `IsFunctionCloneSuffix` ends for every string without reading behind the terminator, and accepts the sequences of
groups. -/
theorem isFunctionCloneSuffix_recognizes (str : CString) : ∃ accepted,
    (∀ fuel, str.length < fuel → Indexed.isFunctionCloneSuffix str fuel = some (.ok accepted)) ∧
      (accepted = true ↔ str.chars ∈ cloneSuffix∗) :=
  ⟨Demangle.isFunctionCloneSuffix str.length str.chars,
    fun _ hfuel => isFunctionCloneSuffix_refines (Nat.zero_le _) (by omega), isFunctionCloneSuffix_iff (Nat.le_refl _)⟩

example : Indexed.isFunctionCloneSuffix ⟨".isra.2".toList, by decide⟩ 9 = some (.ok true) := by rfl

end

end Glog.Demangle
