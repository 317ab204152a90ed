import Glog.Cleaner.Recognize
import Glog.LogFile.Write

/-! # Names that the cleaner recognizes

The names of the log files are made by `LogFileObject`, and taken apart by `LogCleaner`. -/

namespace Glog.LogCleaner
open LogFile

/-! ### Delimiters -/

theorem collapse_sublist : ∀ l, (collapse l).Sublist l
  | [] => .slnil
  | [c] => .refl _
  | c :: d :: rest => by
    unfold collapse
    split
    · exact (collapse_sublist (d :: rest)).cons c
    · exact (collapse_sublist (d :: rest)).cons_cons c

/-- Only delimiters are left out. -/
theorem length_collapse : ∀ l, l.length + (collapse l).count '/' = (collapse l).length + l.count '/'
  | [] => rfl
  | [_] => rfl
  | c :: d :: rest => by
    have ih := length_collapse (d :: rest)
    unfold collapse
    split
    · rename_i h
      obtain ⟨rfl, -⟩ := h
      rw [List.length_cons, List.count_cons_self]
      omega
    · simp only [List.length_cons, List.count_cons] at ih ⊢
      omega

theorem collapse_eq_of_count {l : Text} (h : l.count '/' ≤ (collapse l).count '/') : collapse l = l := by
  have hlength := length_collapse l
  have hshort := (collapse_sublist l).length_le
  have hcount := (collapse_sublist l).count_le '/'
  exact (collapse_sublist l).eq_of_length (by omega)

theorem collapse_repeat (r : Text) : ∀ l, collapse (l ++ '/' :: '/' :: r) = collapse (l ++ '/' :: r)
  | [] => by
    rw [List.nil_append, collapse, if_pos ⟨rfl, rfl⟩]
    rfl
  | [c] => by
    have ih := collapse_repeat r []
    simp only [List.nil_append, List.cons_append] at ih ⊢
    rw [collapse, ih]
    rfl
  | c :: d :: l => by
    have ih := collapse_repeat r (d :: l)
    simp only [List.cons_append] at ih ⊢
    rw [collapse, ih]
    rfl

theorem collapse_append {r : Text} (hr : '/' ∉ r) : ∀ l, collapse (l ++ r) = collapse l ++ r
  | [] => collapse_eq_of_count (by rw [List.nil_append, List.count_eq_zero.mpr hr]; exact Nat.zero_le _)
  | [c] => by
    cases r with
    | nil => rfl
    | cons d r =>
      have ih := collapse_append hr []
      have hd : d ≠ '/' := fun h => hr (h ▸ List.mem_cons_self)
      rw [List.nil_append] at ih
      change collapse (c :: d :: r) = c :: d :: r
      rw [collapse, if_neg (fun h => hd h.2), ih]
      rfl
  | c :: d :: l => by
    have ih := collapse_append hr (d :: l)
    simp only [List.cons_append] at ih ⊢
    rw [collapse, collapse, ih]
    split <;> rfl

/-! ### The characters of a stamp -/

theorem stampChar_of_matchesFrom {c : Char} (q : Text) : ∀ {i k}, matchesFrom i q = true → q[k]? = some c →
    stampChar (i + k) c = true := by
  induction q with
  | nil => exact fun _ h => nomatch h
  | cons d q ih =>
    intro i k hmatches hchar
    rw [matchesFrom, Bool.and_eq_true] at hmatches
    cases k with
    | zero =>
      cases hchar
      exact hmatches.1
    | succ k =>
      rw [Nat.add_comm k, ← Nat.add_assoc]
      exact ih hmatches.2 hchar

theorem stampChar_of_matches {q : Text} {k : Nat} {c : Char} (hmatches : matchesStamp q = true) (hchar : q[k]? = some c) :
    stampChar k c = true := by
  have hstamp := stampChar_of_matchesFrom q hmatches hchar
  rwa [Nat.zero_add] at hstamp

theorem eq_of_stampChar_dash {k : Nat} (h : stampChar k '-' = true) : k = 8 := by
  have hdigit : '-'.isDigit = false := by decide
  have hdot : ('-' == '.') = false := by decide
  unfold stampChar at h
  split at h
  · rw [hdigit] at h
    cases h
  · split at h
    · assumption
    · split at h
      · rw [hdigit] at h
        cases h
      · split at h
        · rw [hdot] at h
          cases h
        · rw [hdigit] at h
          cases h

/-- The only `-` of a stamp is at the place 8. -/
theorem dash_iff {q : Text} (hmatches : matchesStamp q = true) (hlength : 9 ≤ q.length) {k : Nat} :
    q[k]? = some '-' ↔ k = 8 := by
  refine ⟨fun hchar => eq_of_stampChar_dash (stampChar_of_matches hmatches hchar), ?_⟩
  rintro rfl
  have hchar : q[8]? = some q[8] := List.getElem?_eq_getElem (by omega)
  have hstamp := stampChar_of_matches hmatches hchar
  have hdash : q[8] = '-' := beq_iff_eq.mp hstamp
  rw [hchar, hdash]

theorem not_mem_of_matches {q : Text} (hmatches : matchesStamp q = true) : '/' ∉ q := by
  intro hmem
  obtain ⟨k, hchar⟩ := List.mem_iff_getElem?.mp hmem
  have hstamp := stampChar_of_matches hmatches hchar
  have hdigit : '/'.isDigit = false := by decide
  unfold stampChar at hstamp
  split at hstamp
  · rw [hdigit] at hstamp
    cases hstamp
  · split at hstamp
    · exact absurd (beq_iff_eq.mp hstamp) (by decide)
    · split at hstamp
      · rw [hdigit] at hstamp
        cases hstamp
      · split at hstamp
        · exact absurd (beq_iff_eq.mp hstamp) (by decide)
        · rw [hdigit] at hstamp
          cases hstamp

/-! ### The part behind the base name -/

/-- Beside the extension there is a beginning of a stamp; the extension is looked for in front first. -/
def Fits (extension t : Text) : Prop :=
  ∃ q, matchesStamp q = true ∧ (t = extension ++ q ∨ t = q ++ extension ∧ ¬ extension <+: t)

section
variable {stamp extension t : Text}

/-- An extension in front of a stamp and of itself: it is shorter than the stamp, or begins with it. -/
theorem exists_of_prefix (h : extension <+: stamp ++ extension) (hlength : stamp.length ≤ extension.length) :
    ∃ e, extension = stamp ++ e ∧ e <+: stamp ++ e ∧ e.length + stamp.length = extension.length := by
  obtain ⟨e, rfl⟩ := List.prefix_of_prefix_length_le (List.prefix_append stamp extension) h hlength
  refine ⟨e, rfl, (List.prefix_append_right_inj stamp).mp h, ?_⟩
  rw [List.length_append, Nat.add_comm]

/-- Stamps in a row can be exchanged. -/
theorem append_comm_of_dvd (hstamp : stamp ≠ []) (n : Nat) : ∀ {extension : Text}, extension.length = n →
    extension <+: stamp ++ extension → stamp.length ∣ extension.length → stamp ++ extension = extension ++ stamp := by
  have hpos : 0 < stamp.length := List.length_pos_iff.mpr hstamp
  induction n using Nat.strongRecOn with
  | ind n ih =>
    intro extension hn hfront hdvd
    by_cases hempty : extension = []
    · rw [hempty, List.append_nil, List.nil_append]
    · have hle : stamp.length ≤ extension.length := Nat.le_of_dvd (List.length_pos_iff.mpr hempty) hdvd
      obtain ⟨e, rfl, hfront', hlength⟩ := exists_of_prefix hfront hle
      have hdvd' : stamp.length ∣ e.length := (Nat.dvd_add_iff_left (Nat.dvd_refl _)).mpr (hlength ▸ hdvd)
      have hcomm : stamp ++ e = e ++ stamp := ih e.length (by omega) rfl hfront' hdvd'
      rw [List.append_assoc, ← hcomm]

/-- Two stamps at the ends of a text that is an extension and a stamp in both orders: the extension is made of
    stamps. -/
theorem dvd_of_append_eq {q : Text} (hstamp : matchesStamp stamp = true) (hlength : 9 ≤ stamp.length)
    (hq : matchesStamp q = true) (n : Nat) : ∀ {extension : Text}, extension.length = n →
      stamp ++ extension = extension ++ q → stamp.length ∣ extension.length := by
  induction n using Nat.strongRecOn with
  | ind n ih =>
    intro extension hn heq
    have hsame : q.length = stamp.length := by
      have hsum := congrArg List.length heq
      simp only [List.length_append] at hsum
      omega
    by_cases hle : stamp.length ≤ extension.length
    · have hfront : extension <+: stamp ++ extension := heq ▸ List.prefix_append _ _
      obtain ⟨e, rfl, -, hsum⟩ := exists_of_prefix hfront hle
      rw [List.append_assoc] at heq
      have hdvd := ih e.length (by omega) rfl (List.append_cancel_left heq)
      exact hsum ▸ Nat.dvd_add hdvd (Nat.dvd_refl _)
    · -- The stamp begins with the extension, and `q` ends in it: the `-` would be at two places.
      obtain ⟨v, rfl⟩ := List.prefix_of_prefix_length_le (List.prefix_append extension q)
        (heq ▸ List.prefix_append stamp extension) (by omega)
      rw [List.append_assoc] at heq
      obtain rfl := List.append_cancel_left heq
      have hdash : (extension ++ v)[8]? = some '-' := (dash_iff hstamp hlength).mpr rfl
      have hlength' : 9 ≤ (v ++ extension).length := by omega
      rw [List.length_append] at hle
      by_cases hplace : 8 < extension.length
      · rw [List.getElem?_append_left hplace] at hdash
        have hmoved : (v ++ extension)[v.length + 8]? = some '-' := by
          rw [List.getElem?_append_right (by omega), Nat.add_sub_cancel_left, hdash]
        have hplace' := (dash_iff hq hlength').mp hmoved
        omega
      · rw [List.getElem?_append_right (by omega)] at hdash
        have hshort : 8 - extension.length < v.length := (List.getElem?_eq_some_iff.mp hdash).1
        have hmoved : (v ++ extension)[8 - extension.length]? = some '-' := by
          rw [List.getElem?_append_left hshort, hdash]
        have hplace' := (dash_iff hq hlength').mp hmoved
        have hnil : extension = [] := List.length_eq_zero_iff.mp (by omega)
        rw [hnil]
        exact Nat.dvd_zero _

/-- A stamp and an extension fit, unless the extension is found in front and is not made of stamps. -/
theorem fits_stamp_iff (hstamp : matchesStamp stamp = true) (hlength : 9 ≤ stamp.length) :
    Fits extension (stamp ++ extension) ↔ ¬ extension <+: stamp ++ extension ∨ stamp.length ∣ extension.length := by
  constructor
  · rintro ⟨q, hq, heq | ⟨-, hnot⟩⟩
    · exact Or.inr (dvd_of_append_eq hstamp hlength hq _ rfl heq)
    · exact Or.inl hnot
  · intro h
    by_cases hfront : extension <+: stamp ++ extension
    · have hne : stamp ≠ [] := List.length_pos_iff.mp (by omega)
      refine ⟨stamp, hstamp, Or.inl ?_⟩
      exact append_comm_of_dvd hne _ rfl hfront (h.resolve_left fun hnot => hnot hfront)
    · exact ⟨stamp, hstamp, Or.inr ⟨rfl, hfront⟩⟩

/-- Without a `-` in the stamp nothing fits. -/
theorem not_fits_of_not_mem (hstamp : '-' ∉ stamp) (hlength : 9 ≤ stamp.length) :
    ¬ Fits extension (stamp ++ extension) := by
  rintro ⟨q, hq, heq⟩
  have hsum : (stamp ++ extension).length = q.length + extension.length ∧
      (stamp ++ extension).count '-' = q.count '-' + extension.count '-' := by
    rcases heq with heq | ⟨heq, -⟩
    · rw [heq, List.length_append, List.count_append]
      exact ⟨Nat.add_comm _ _, Nat.add_comm _ _⟩
    · rw [heq, List.length_append, List.count_append]
      exact ⟨rfl, rfl⟩
  rw [List.length_append, List.count_append] at hsum
  have hdash : q[8]? = some '-' := (dash_iff hq (by omega)).mpr rfl
  have hcount : 0 < q.count '-' := List.count_pos_iff.mpr (List.mem_of_getElem? hdash)
  have hnone : stamp.count '-' = 0 := List.count_eq_zero.mpr hstamp
  omega

/-- With a sequence number behind it nothing fits: there is another `-` behind the stamp. -/
theorem not_fits_numbered {digits : Text} (hlength : 9 ≤ stamp.length) :
    ¬ Fits extension (stamp ++ extension ++ '-' :: digits) := by
  rintro ⟨q, hq, heq | ⟨heq, -⟩⟩
  · have hsum := congrArg List.length heq
    simp only [List.length_append, List.length_cons] at hsum
    -- `q` ends in the number.
    obtain ⟨front, rfl⟩ : '-' :: digits <:+ q :=
      List.suffix_of_suffix_length_le (List.suffix_append _ _) (heq ▸ List.suffix_append extension q)
        (by rw [List.length_cons]; omega)
    rw [List.length_append, List.length_cons] at hsum
    have hmoved : (front ++ '-' :: digits)[front.length]? = some '-' := by
      rw [List.getElem?_append_right (Nat.le_refl _), Nat.sub_self]
      rfl
    have hplace := (dash_iff hq (by rw [List.length_append]; omega)).mp hmoved
    omega
  · have hsum := congrArg List.length heq
    simp only [List.length_append, List.length_cons] at hsum
    -- `q` begins with the stamp.
    have hfront : stamp <+: q ++ extension := by
      rw [← heq, List.append_assoc]
      exact List.prefix_append _ _
    obtain ⟨w, rfl⟩ := List.prefix_of_prefix_length_le hfront (List.prefix_append q extension) (by omega)
    rw [List.append_assoc, List.append_assoc] at heq
    have hcount := congrArg (List.count '-') (List.append_cancel_left heq)
    rw [List.count_append, List.count_append, List.count_cons_self] at hcount
    have hpos : 0 < w.count '-' := by omega
    obtain ⟨k, hk⟩ := List.mem_iff_getElem?.mp (List.count_pos_iff.mp hpos)
    have hmoved : (stamp ++ w)[stamp.length + k]? = some '-' := by
      rw [List.getElem?_append_right (by omega), Nat.add_sub_cancel_left, hk]
    have hplace := (dash_iff hq (by rw [List.length_append]; omega)).mp hmoved
    omega

end

/-! ### The names that are made -/

/-- What `localtime` and `gmtime` give for a year of four digits. -/
structure FourDigitYear (tm : Tm) : Prop where
  year : 1000 ≤ 1900 + tm.year ∧ 1900 + tm.year ≤ 9999
  mon : tm.mon ≤ 11
  mday : tm.mday ≤ 31
  hour : tm.hour ≤ 23
  min : tm.min ≤ 59
  sec : tm.sec ≤ 60

def AllDigits (l : Text) : Prop := ∀ c ∈ l, c.isDigit = true

theorem AllDigits.append {l l' : Text} (h : AllDigits l) (h' : AllDigits l') : AllDigits (l ++ l') := fun c hc =>
  (List.mem_append.mp hc).elim (h c) (h' c)

theorem AllDigits.not_mem {l : Text} {c : Char} (h : AllDigits l) (hc : c.isDigit = false) : c ∉ l := fun hmem => by
  rw [h c hmem] at hc
  cases hc

theorem decimal_nat (n : Nat) : AllDigits (decimal n) ∧ decimal n ≠ [] :=
  ⟨fun _ hc => Nat.isDigit_of_mem_toDigits (by decide) (by decide) hc, Nat.toDigits_ne_nil⟩

theorem decimal_pid {pid : Int} (h : 0 ≤ pid) : AllDigits (decimal pid) ∧ decimal pid ≠ [] := by
  obtain ⟨n, rfl⟩ := Int.eq_ofNat_of_zero_le h
  exact decimal_nat n

theorem twoDigits_spec {n : Nat} (h : n < 100) : AllDigits (twoDigits n) ∧ (twoDigits n).length = 2 := by
  have hlength : (decimal n).length ≤ 2 := (Nat.length_toDigits_le_iff (by decide) (by decide)).mpr h
  refine ⟨AllDigits.append (fun c hc => ?_) (decimal_nat n).1, ?_⟩
  · rw [(List.mem_replicate.mp hc).2]
    rfl
  · rw [twoDigits, setw, List.length_append, List.length_replicate]
    omega

theorem decimal_year {y : Int} (h : 1000 ≤ y ∧ y ≤ 9999) : AllDigits (decimal y) ∧ (decimal y).length = 4 := by
  obtain ⟨n, rfl⟩ := Int.eq_ofNat_of_zero_le (show 0 ≤ y by omega)
  refine ⟨(decimal_nat n).1, ?_⟩
  have hle : (decimal n).length ≤ 4 := (Nat.length_toDigits_le_iff (by decide) (by decide)).mpr (by omega)
  have hnot : ¬ (decimal n).length ≤ 3 := fun hshort => by
    have hlt := (Nat.length_toDigits_le_iff (by decide) (by decide)).mp hshort
    omega
  omega

/-- The date in front of a stamp. -/
def date (tm : Tm) : Text := decimal (1900 + tm.year) ++ twoDigits (1 + tm.mon) ++ twoDigits tm.mday

section
variable {tm : Tm} {policy : Policy} {pid : Int}

theorem date_spec (h : FourDigitYear tm) : AllDigits (date tm) ∧ (date tm).length = 8 := by
  obtain ⟨hyear, hyearLength⟩ := decimal_year h.year
  obtain ⟨hmon, hmonLength⟩ := twoDigits_spec (n := 1 + tm.mon) (by have := h.mon; omega)
  obtain ⟨hmday, hmdayLength⟩ := twoDigits_spec (n := tm.mday) (by have := h.mday; omega)
  refine ⟨(hyear.append hmon).append hmday, ?_⟩
  rw [date, List.length_append, List.length_append]
  omega

/-- `YYYYMMDD-HHMMSS.pid`. -/
def stamp (tm : Tm) (pid : Int) : Text :=
  date tm ++ '-' :: (twoDigits tm.hour ++ twoDigits tm.min ++ twoDigits tm.sec ++ '.' :: decimal pid)

theorem isStamp_stamp (h : FourDigitYear tm) (hpid : 0 ≤ pid) : IsStamp (stamp tm pid) := by
  obtain ⟨hdate, hdateLength⟩ := date_spec h
  obtain ⟨hhour, hhourLength⟩ := twoDigits_spec (n := tm.hour) (by have := h.hour; omega)
  obtain ⟨hmin, hminLength⟩ := twoDigits_spec (n := tm.min) (by have := h.min; omega)
  obtain ⟨hsec, hsecLength⟩ := twoDigits_spec (n := tm.sec) (by have := h.sec; omega)
  obtain ⟨hdigits, hne⟩ := decimal_pid hpid
  refine ⟨date tm, twoDigits tm.hour ++ twoDigits tm.min ++ twoDigits tm.sec, decimal pid, rfl, hdateLength, ?_, hne, ?_⟩
  · rw [List.length_append, List.length_append]
    omega
  · exact (hdate.append ((hhour.append hmin).append hsec)).append hdigits

/-- Under the size policy the name has a stamp. -/
theorem timePidString_of_size (hpolicy : policy = .size ∨ policy = .other) :
    timePidString policy tm pid = stamp tm pid := by
  rcases hpolicy with rfl | rfl
  · simp only [timePidString, stamp, date, List.append_assoc, List.cons_append]
  · simp only [timePidString, stamp, date, List.append_assoc, List.cons_append]

/-- Under the policies of time there is no `-` in the name. -/
theorem timePidString_of_time (h : FourDigitYear tm) (hpid : 0 ≤ pid) (hpolicy : policy = .day ∨ policy = .hour) :
    '-' ∉ timePidString policy tm pid := by
  obtain ⟨hdate, -⟩ := date_spec h
  obtain ⟨hhour, -⟩ := twoDigits_spec (n := tm.hour) (by have := h.hour; omega)
  obtain ⟨hdigits, -⟩ := decimal_pid hpid
  have hnot : ∀ {l}, AllDigits l → '-' ∉ l := fun hl => hl.not_mem rfl
  have hyear := hnot hdate
  simp only [date, List.mem_append, not_or] at hyear
  rcases hpolicy with rfl | rfl <;>
    simp [timePidString, hyear, hnot hhour, hnot hdigits]

/-- Under every policy the name goes on with the date, a dot and the process id. -/
theorem timePidString_spec (h : FourDigitYear tm) (hpid : 0 ≤ pid) :
    9 ≤ (timePidString policy tm pid).length ∧ '/' ∉ timePidString policy tm pid := by
  obtain ⟨hdate, hdateLength⟩ := date_spec h
  obtain ⟨hhour, -⟩ := twoDigits_spec (n := tm.hour) (by have := h.hour; omega)
  obtain ⟨hmin, -⟩ := twoDigits_spec (n := tm.min) (by have := h.min; omega)
  obtain ⟨hsec, -⟩ := twoDigits_spec (n := tm.sec) (by have := h.sec; omega)
  obtain ⟨hdigits, -⟩ := decimal_pid hpid
  have hnot : ∀ {l}, AllDigits l → '/' ∉ l := fun hl => hl.not_mem rfl
  have hyear := hnot hdate
  simp only [date, List.length_append] at hdateLength
  simp only [date, List.mem_append, not_or] at hyear
  refine ⟨?_, ?_⟩
  · simp only [timePidString, List.length_append, List.length_cons]
    omega
  · cases policy <;>
      simp [timePidString, hyear, hnot hhour, hnot hmin, hnot hsec, hnot hdigits]

end

end Glog.LogCleaner
