import Glog.Cleaner.Naming
import Glog.LogFile.Prepare

/-! # Naming and cleaning

Whether the cleaner recognizes the file that `CreateLogfile` makes, in the directory of its base name. The
cleaner leaves out repeated delimiters of the base name, but not those of a directory. -/

namespace Glog.LogCleaner
open LogFile

/-! ### Sequence numbers -/

section
variable {cfg : Config} {env : Env} {origin : Text}

def Numbered (origin name : Text) : Prop := ∃ digits, AllDigits digits ∧ name = origin ++ '-' :: digits

theorem numbered_setw (i : Nat) : Numbered origin (origin ++ '-' :: setw 3 (decimal i)) := by
  refine ⟨_, AllDigits.append (fun c hc => ?_) (decimal_nat i).1, rfl⟩
  rw [(List.mem_replicate.mp hc).2]
  rfl

/-- Once the oldest file is a numbered one, the name is. -/
theorem nextSequence_numbered (count : Nat) : ∀ {i oldest}, Numbered origin oldest.2 →
    Numbered origin (nextSequence cfg env origin count i oldest) := by
  induction count with
  | zero => exact fun h => h
  | succ count ih =>
    intro i oldest h
    rw [nextSequence]
    split
    · exact numbered_setw i
    · split
      · exact numbered_setw i
      · split
        · exact ih (numbered_setw i)
        · exact ih h

/-- A numbered file that is full, and not older. -/
def FullSince (cfg : Config) (env : Env) (origin : Text) (mtime : Int) (i : Nat) : Prop :=
  ∃ st, env.stat (origin ++ '-' :: setw 3 (decimal i)) = some st ∧ maxLogSize cfg ≤ st.size >>> 20 ∧ mtime ≤ st.mtime

/-- The name remains as it is if all the numbered files are full, and not older. -/
theorem nextSequence_spec (count : Nat) : ∀ {i mtime}, (∀ k < count, FullSince cfg env origin mtime (i + k)) ∧
    nextSequence cfg env origin count i (mtime, origin) = origin ∨
    ¬ (∀ k < count, FullSince cfg env origin mtime (i + k)) ∧
      Numbered origin (nextSequence cfg env origin count i (mtime, origin)) := by
  induction count with
  | zero => exact Or.inl ⟨fun k hk => absurd hk (Nat.not_lt_zero k), rfl⟩
  | succ count ih =>
    intro i mtime
    have hshift : (∀ k < count + 1, FullSince cfg env origin mtime (i + k)) ↔
        FullSince cfg env origin mtime i ∧ ∀ k < count, FullSince cfg env origin mtime (i + 1 + k) := by
      rw [Nat.forall_lt_succ_left]
      simp only [Nat.add_zero, Nat.add_assoc, Nat.add_comm 1]
    have hhere : FullSince cfg env origin mtime i ↔ ∃ st,
        env.stat (origin ++ '-' :: setw 3 (decimal i)) = some st ∧ maxLogSize cfg ≤ st.size >>> 20 ∧
          mtime ≤ st.mtime := Iff.rfl
    rw [hshift, hhere, nextSequence]
    dsimp only
    cases hstat : env.stat (origin ++ '-' :: setw 3 (decimal i)) with
    | none => 
      refine Or.inr ⟨fun h => ?_, numbered_setw i⟩
      obtain ⟨⟨st, hst, -⟩, -⟩ := h
      exact nomatch hst
    | some st =>
      dsimp only
      split
      · rename_i hsize
        refine Or.inr ⟨fun h => ?_, numbered_setw i⟩
        obtain ⟨⟨st', hst, hfull, -⟩, -⟩ := h
        cases hst
        omega
      · rename_i hsize
        split
        · rename_i holder
          refine Or.inr ⟨fun h => ?_, nextSequence_numbered count (numbered_setw i)⟩
          obtain ⟨⟨st', hst, -, hmtime⟩, -⟩ := h
          cases hst
          omega
        · rename_i holder
          rcases @ih (i + 1) mtime with ⟨hfull, heq⟩ | ⟨hnot, hnumbered⟩
          · exact Or.inl ⟨⟨⟨st, rfl, by omega, by omega⟩, hfull⟩, heq⟩
          · exact Or.inr ⟨fun h => hnot h.2, hnumbered⟩

/-- How many numbers are tried. -/
def sequenceLength (env : Env) (p : Process) : Nat :=
  if p.rollingFileNumber < 0 ∨ p.rollingFileNumber > 100 then 10
  else if p.rollingFileNumber = 0 then 2147483647
  else env.indeterminateCount

/-- The name is free or its file is not too large, or all the numbered files are full, and not older. -/
def Unnumbered (cfg : Config) (env : Env) (origin : Text) (p : Process) : Prop :=
  ∀ st, env.stat origin = some st → st.size >>> 20 > maxLogSize cfg →
    ∀ k < sequenceLength env p, FullSince cfg env origin st.mtime k

theorem getSuitableFileName_of_large {st : FileStat} {p : Process} (hstat : env.stat origin = some st)
    (hlarge : st.size >>> 20 > maxLogSize cfg) :
    (getSuitableFileName cfg env origin p).1 = nextSequence cfg env origin (sequenceLength env p) 0 (st.mtime, origin) := by
  rw [getSuitableFileName, hstat]
  dsimp only
  rw [if_pos hlarge, sequenceLength]
  split
  · rfl
  · split
    · rfl
    · rfl

/-- The name has a number behind it or not. -/
theorem getSuitableFileName_spec (p : Process) : ∃ number, (getSuitableFileName cfg env origin p).1 = origin ++ number ∧
    (number = [] ∧ Unnumbered cfg env origin p ∨
      (∃ digits, AllDigits digits ∧ number = '-' :: digits) ∧ ¬ Unnumbered cfg env origin p) := by
  by_cases hlarge : ∃ st, env.stat origin = some st ∧ st.size >>> 20 > maxLogSize cfg
  · obtain ⟨st, hstat, hlarge⟩ := hlarge
    have hiff : Unnumbered cfg env origin p ↔ ∀ k < sequenceLength env p, FullSince cfg env origin st.mtime (0 + k) := by
      simp only [Unnumbered, hstat, Option.some.injEq, forall_eq', hlarge, true_imp_iff, Nat.zero_add]
    rw [hiff, getSuitableFileName_of_large hstat hlarge]
    rcases @nextSequence_spec cfg env origin (sequenceLength env p) 0 st.mtime with
      ⟨hfull, heq⟩ | ⟨hnot, digits, hdigits, heq⟩
    · exact ⟨[], heq.trans (List.append_nil origin).symm, Or.inl ⟨rfl, hfull⟩⟩
    · exact ⟨_, heq, Or.inr ⟨⟨digits, hdigits, rfl⟩, hnot⟩⟩
  · refine ⟨[], ?_, Or.inl ⟨rfl, fun st hstat hsize => absurd ⟨st, hstat, hsize⟩ hlarge⟩⟩
    rw [getSuitableFileName, List.append_nil]
    cases hstat : env.stat origin with
    | none => rfl
    | some st =>
      dsimp only
      rw [if_neg (fun hsize => hlarge ⟨st, hstat, hsize⟩)]

end

/-! ### Directories -/

theorem collapse_cons (c : Char) (l : Text) : ∃ r, collapse (c :: l) = c :: r := by
  induction l generalizing c with
  | nil => exact ⟨[], rfl⟩
  | cons d l ih =>
    rw [collapse]
    split
    · rename_i h
      obtain ⟨rfl, rfl⟩ := h
      exact ih '/'
    · exact ⟨_, rfl⟩

theorem collapse_collapse : ∀ l, collapse (collapse l) = collapse l
  | [] => rfl
  | [_] => rfl
  | c :: d :: rest => by
    have ih := collapse_collapse (d :: rest)
    rw [collapse]
    split
    · exact ih
    · rename_i h
      obtain ⟨r, hr⟩ := collapse_cons d rest
      rw [hr] at ih ⊢
      rw [collapse, if_neg h, ih]

theorem mem_collapse {c : Char} : ∀ l, c ∈ collapse l ↔ c ∈ l
  | [] => Iff.rfl
  | [_] => Iff.rfl
  | a :: d :: rest => by
    have ih := mem_collapse (c := c) (d :: rest)
    rw [collapse]
    split
    · rename_i h
      obtain ⟨rfl, rfl⟩ := h
      rw [ih, List.mem_cons (l := '/' :: rest), List.mem_cons, ← or_assoc, or_self]
    · rw [List.mem_cons, ih, List.mem_cons (b := a)]

theorem collapse_eq_of_not_mem {l : Text} (h : '/' ∉ l) : collapse l = l :=
  collapse_eq_of_count (by rw [List.count_eq_zero.mpr h]; exact Nat.zero_le _)

/-- A delimiter remains behind a text that does not end with one. -/
theorem collapse_delim : ∀ {l}, l.getLast? ≠ some '/' → collapse (l ++ ['/']) = collapse l ++ ['/']
  | [], _ => rfl
  | [c], h => by
    have hc : ¬ (c = '/' ∧ '/' = '/') := fun hc => h (congrArg some hc.1)
    exact if_neg hc
  | c :: d :: l, h => by
    rw [List.getLast?_cons_cons] at h
    have ih := collapse_delim h
    rw [List.cons_append, List.cons_append, collapse, collapse, ← List.cons_append, ih]
    split <;> rfl

theorem collapse_delim_repeat {l : Text} (h : l.getLast? = some '/') : collapse (l ++ ['/']) = collapse l := by
  obtain ⟨front, rfl⟩ := List.getLast?_eq_some_iff.mp h
  rw [List.append_assoc]
  exact collapse_repeat [] front

theorem getLast?_collapse : ∀ l, (collapse l).getLast? = l.getLast?
  | [] => rfl
  | [_] => rfl
  | c :: d :: rest => by
    have ih := getLast?_collapse (d :: rest)
    rw [collapse, List.getLast?_cons_cons]
    split
    · exact ih
    · obtain ⟨r, hr⟩ := collapse_cons d rest
      rw [hr] at ih ⊢
      rw [List.getLast?_cons_cons, ih]

theorem exists_last_delim {path : Text} (h : '/' ∈ path) : ∃ l r, path = l ++ '/' :: r ∧ '/' ∉ r := by
  obtain ⟨r, l, hreverse, hnot⟩ := List.eq_append_cons_of_mem (List.mem_reverse.mpr h)
  refine ⟨l.reverse, r.reverse, ?_, fun hmem => hnot (List.mem_reverse.mp hmem)⟩
  rw [← List.reverse_reverse path, hreverse]
  simp

/-- The directory of a file. -/
def directoryOf (path : Text) : Text := if '/' ∈ path then dirPart path else ['.']

/-- What comes behind the last delimiter. -/
def fileName (path : Text) : Text := (path.reverse.takeWhile (· ≠ '/')).reverse

theorem dirPart_append_fileName (path : Text) : dirPart path ++ fileName path = path := by
  rw [dirPart, fileName, ← List.reverse_append, List.takeWhile_append_dropWhile, List.reverse_reverse]

section
variable {l r path : Text}

theorem takeWhile_reverse_append (h : '/' ∉ r) (l : Text) :
    (r.reverse ++ l).takeWhile (· ≠ '/') = r.reverse ++ l.takeWhile (· ≠ '/') := by
  apply List.takeWhile_append_of_pos
  intro c hc
  exact decide_eq_true fun heq => h (heq ▸ List.mem_reverse.mp hc)

theorem fileName_of_not_mem (h : '/' ∉ path) : fileName path = path := by
  rw [fileName, ← List.append_nil path.reverse, takeWhile_reverse_append h, List.takeWhile_nil, List.append_nil,
    List.reverse_reverse]

theorem fileName_append (h : '/' ∉ r) : fileName (l ++ '/' :: r) = r := by
  rw [fileName, List.reverse_append, List.reverse_cons, List.append_assoc, takeWhile_reverse_append h]
  simp

theorem dirPart_append (h : '/' ∉ r) : dirPart (l ++ '/' :: r) = l ++ ['/'] := by
  have hparts := dirPart_append_fileName (l ++ '/' :: r)
  rw [fileName_append h] at hparts
  exact List.append_cancel_right (hparts.trans (List.append_assoc l ['/'] r).symm)

theorem directoryOf_append (h : '/' ∉ r) : directoryOf (l ++ '/' :: r) = l ++ ['/'] := by
  rw [directoryOf, if_pos (by simp), dirPart_append h]

end

/-! ### Recognition -/

section
variable {base front extension t path : Text}

theorem count_eq_of_recognized (hext : '/' ∉ extension) (h : isLogFromCurrentProject path base extension = true) :
    path.count '/' = (collapse base).count '/' := by
  have hnone : extension.count '/' = 0 := List.count_eq_zero.mpr hext
  rw [isLogFromCurrentProject_iff, cleanBaseFilename_eq] at h
  rcases h with ⟨q, hmatches, hlaid⟩ | ⟨⟨rest, hrest⟩, hsuffix, -, -, hlength⟩
  · have hq : q.count '/' = 0 := List.count_eq_zero.mpr (not_mem_of_matches hmatches)
    rcases hlaid with rfl | ⟨rfl, -⟩
    · rw [List.count_append, List.count_append, hnone, hq]
      rfl
    · rw [List.count_append, List.count_append, hnone, hq]
      rfl
  · -- What is behind the base name belongs to the extension.
    have hpart : rest <:+ extension := by
      refine List.suffix_of_suffix_length_le ⟨_, hrest⟩ hsuffix ?_
      rw [← hrest, List.length_append] at hlength
      omega
    have hnone' : rest.count '/' = 0 := Nat.le_zero.mp (hnone ▸ hpart.sublist.count_le '/')
    rw [← hrest, List.count_append, hnone']
    rfl

/-- Without other delimiters, a file is recognized if its directory is spelled without repeated delimiters. -/
theorem recognized_append_iff (hbase : collapse base = collapse front) (hext : '/' ∉ extension) (ht : '/' ∉ t)
    (hlength : extension.length ≤ t.length) :
    isLogFromCurrentProject (front ++ t) base extension = true ↔ collapse front = front ∧ Fits extension t := by
  constructor
  · intro h
    have hcount := count_eq_of_recognized hext h
    rw [List.count_append, List.count_eq_zero.mpr ht, hbase, Nat.add_zero] at hcount
    have hclean : collapse front = front := collapse_eq_of_count (Nat.le_of_eq hcount)
    refine ⟨hclean, ?_⟩
    rw [isLogFromCurrentProject_iff, cleanBaseFilename_eq, hbase, hclean] at h
    rcases h with ⟨q, hmatches, heq | ⟨heq, hnot⟩⟩ | ⟨-, -, -, -, hshort⟩
    · rw [List.append_assoc] at heq
      exact ⟨q, hmatches, Or.inl (List.append_cancel_left heq)⟩
    · rw [List.append_assoc] at heq
      rw [List.prefix_append_right_inj] at hnot
      exact ⟨q, hmatches, Or.inr ⟨List.append_cancel_left heq, hnot⟩⟩
    · rw [List.length_append] at hshort
      omega
  · rintro ⟨hclean, q, hmatches, heq⟩
    rw [isLogFromCurrentProject_iff, cleanBaseFilename_eq, hbase, hclean]
    refine Or.inl ⟨q, hmatches, ?_⟩
    rcases heq with rfl | ⟨rfl, hnot⟩
    · exact Or.inl (List.append_assoc _ _ _).symm
    · exact Or.inr ⟨(List.append_assoc _ _ _).symm, fun h => hnot ((List.prefix_append_right_inj front).mp h)⟩

/-- Two spellings of a directory, which differ in delimiters only. -/
def SameDirectory (dir dir' : Text) : Prop := collapse (dir ++ ['/']) = collapse (dir' ++ ['/'])

/-- One of the directories holds the base name and the file, and the file is recognized there. -/
def RecognizedIn (dirs : List Text) (path base extension : Text) : Prop :=
  ∃ dir ∈ dirs, SameDirectory dir (directoryOf base) ∧ SameDirectory dir (directoryOf path) ∧
    isLogFromCurrentProject (entryPath dir (fileName path)) base extension = true

theorem entryPath_of_delim {dir name : Text} (h : dir.getLast? = some '/') : entryPath dir name = dir ++ name := if_pos h

theorem entryPath_of_not_delim {dir name : Text} (h : dir.getLast? ≠ some '/') : entryPath dir name = name := if_neg h

theorem SameDirectory.collapse_eq {dir dir' : Text} (h : SameDirectory dir dir') (hdir : dir.getLast? = some '/')
    (hdir' : dir'.getLast? = some '/') : collapse dir = collapse dir' := by
  rw [← collapse_delim_repeat hdir, ← collapse_delim_repeat hdir']
  exact h

/-- The base name is in a directory that it names. -/
theorem recognizedIn_of_directory {dirs : List Text} {l r : Text} (hr : '/' ∉ r) (hext : '/' ∉ extension) (ht : '/' ∉ t)
    (hlength : extension.length ≤ t.length) :
    RecognizedIn dirs (l ++ '/' :: (r ++ t)) (l ++ '/' :: r) extension ↔ collapse (l ++ ['/']) ∈ dirs ∧
      Fits extension t := by
  have hrt : '/' ∉ r ++ t := fun h => (List.mem_append.mp h).elim hr ht
  have hbase : l ++ '/' :: r = l ++ ['/'] ++ r := (List.append_assoc l ['/'] r).symm
  have hdelim : (l ++ ['/']).getLast? = some '/' := List.getLast?_concat
  rw [RecognizedIn, directoryOf_append hr, directoryOf_append hrt, fileName_append hrt]
  constructor
  · rintro ⟨dir, hmem, hsame, -, hrecognized⟩
    by_cases hdir : dir.getLast? = some '/'
    · have hcollapse := hsame.collapse_eq hdir hdelim
      rw [entryPath_of_delim hdir, ← List.append_assoc, recognized_append_iff _ hext ht hlength,
        collapse_append hr] at hrecognized
      · obtain ⟨hclean, hfits⟩ := hrecognized
        rw [← hcollapse, List.append_cancel_right hclean]
        exact ⟨hmem, hfits⟩
      · rw [hbase, collapse_append hr, collapse_append hr, hcollapse]
    · -- The name alone has no delimiter, the base name has.
      rw [entryPath_of_not_delim hdir] at hrecognized
      have hcount := count_eq_of_recognized hext hrecognized
      rw [List.count_eq_zero.mpr hrt] at hcount
      have hnot := List.count_eq_zero.mp hcount.symm
      rw [mem_collapse] at hnot
      exact absurd (List.mem_append_right l List.mem_cons_self) hnot
  · rintro ⟨hmem, hfits⟩
    have hdir : (collapse (l ++ ['/'])).getLast? = some '/' := (getLast?_collapse _).trans hdelim
    have hsame : SameDirectory (collapse (l ++ ['/'])) (l ++ ['/']) := by
      rw [SameDirectory, collapse_delim_repeat hdir, collapse_delim_repeat hdelim, collapse_collapse]
    refine ⟨_, hmem, hsame, hsame, ?_⟩
    rw [entryPath_of_delim hdir, ← List.append_assoc, recognized_append_iff _ hext ht hlength]
    · exact ⟨by rw [collapse_append hr, collapse_collapse], hfits⟩
    · rw [hbase, collapse_append hr, collapse_append hr, collapse_collapse]

/-- The base name is in the current directory. -/
theorem recognizedIn_current {dirs : List Text} (hbase : '/' ∉ base) (hext : '/' ∉ extension) (ht : '/' ∉ t)
    (hlength : extension.length ≤ t.length) :
    RecognizedIn dirs (base ++ t) base extension ↔ ['.'] ∈ dirs ∧ Fits extension t := by
  have hpath : '/' ∉ base ++ t := fun h => (List.mem_append.mp h).elim hbase ht
  have hclean := collapse_eq_of_not_mem hbase
  have hcurrent : ∀ {p : Text}, '/' ∉ p → directoryOf p = ['.'] := fun h => if_neg h
  rw [RecognizedIn, hcurrent hbase, hcurrent hpath, fileName_of_not_mem hpath]
  constructor
  · rintro ⟨dir, hmem, hsame, -, hrecognized⟩
    by_cases hdir : dir.getLast? = some '/'
    · rw [entryPath_of_delim hdir] at hrecognized
      have hcount := count_eq_of_recognized hext hrecognized
      rw [hclean, List.count_eq_zero.mpr hbase, List.count_eq_zero, List.mem_append, not_or] at hcount
      exact absurd (List.mem_of_getLast? hdir) hcount.1
    · rw [entryPath_of_not_delim hdir, recognized_append_iff rfl hext ht hlength] at hrecognized
      have hdot : collapse dir = ['.'] := List.append_cancel_right ((collapse_delim hdir).symm.trans hsame)
      have hnot : '/' ∉ dir := fun h => absurd ((mem_collapse dir).mpr h) (by rw [hdot]; decide)
      rw [collapse_eq_of_not_mem hnot] at hdot
      exact ⟨hdot ▸ hmem, hrecognized.2⟩
  · rintro ⟨hmem, hfits⟩
    refine ⟨['.'], hmem, rfl, rfl, ?_⟩
    rw [entryPath_of_not_delim (by decide), recognized_append_iff rfl hext ht hlength]
    exact ⟨hclean, hfits⟩

theorem recognizedIn_append_iff {dirs : List Text} (hext : '/' ∉ extension) (ht : '/' ∉ t)
    (hlength : extension.length ≤ t.length) :
    RecognizedIn dirs (base ++ t) base extension ↔ collapse (directoryOf base) ∈ dirs ∧ Fits extension t := by
  by_cases hbase : '/' ∈ base
  · obtain ⟨l, r, rfl, hr⟩ := exists_last_delim hbase
    rw [directoryOf_append hr, List.append_assoc, List.cons_append]
    exact recognizedIn_of_directory hr hext ht hlength
  · rw [recognizedIn_current hbase hext ht hlength, directoryOf, if_neg hbase]
    rfl

/-- The characters other than delimiters are those of the directory. -/
theorem SameDirectory.length_eq {dir dir' : Text} (h : SameDirectory dir dir') :
    dir.length + dir'.count '/' = dir'.length + dir.count '/' := by
  have hleft := length_collapse (dir ++ ['/'])
  have hright := length_collapse (dir' ++ ['/'])
  rw [show collapse (dir ++ ['/']) = collapse (dir' ++ ['/']) from h] at hleft
  simp only [List.length_append, List.count_append] at hleft hright
  omega

/-- With a delimiter in the extension the file is not in the directory of the base name. -/
theorem not_recognizedIn_of_mem {dirs : List Text} {stamp number : Text} (hstamp : '/' ∉ stamp) (hlength : 9 ≤ stamp.length)
    (hext : '/' ∈ extension) (hnumber : '/' ∉ number) :
    ¬ RecognizedIn dirs (base ++ (stamp ++ extension ++ number)) base extension := by
  rintro ⟨dir, -, hbase, hpath, -⟩
  obtain ⟨l, r, rfl, hr⟩ := exists_last_delim hext
  have hrest : '/' ∉ r ++ number := fun h => (List.mem_append.mp h).elim hr hnumber
  have hsplit : base ++ (stamp ++ (l ++ '/' :: r) ++ number) = (base ++ stamp ++ l) ++ '/' :: (r ++ number) := by
    simp only [List.append_assoc, List.cons_append]
  rw [hsplit, directoryOf_append hrest] at hpath
  have hsame := hbase.length_eq
  have hsame' := hpath.length_eq
  simp only [List.length_append, List.count_append, List.count_eq_zero.mpr hstamp, List.count_singleton_self] at hsame'
  have hle : l.count '/' ≤ l.length := List.count_le_length
  have hle' : base.count '/' ≤ base.length := List.count_le_length
  by_cases hmem : '/' ∈ base
  · obtain ⟨l', r', rfl, hr'⟩ := exists_last_delim hmem
    rw [directoryOf_append hr'] at hsame
    simp only [List.length_append, List.length_cons, List.count_append, List.count_cons_self, List.count_eq_zero.mpr hr',
      List.length_nil, List.count_nil] at hsame hsame' hle'
    omega
  · rw [directoryOf, if_neg hmem] at hsame
    simp only [List.length_cons, List.length_nil, List.count_eq_zero.mpr (show '/' ∉ ['.'] by decide)] at hsame hsame'
    omega

theorem recognizedIn_iff {dirs : List Text} {stamp number : Text} (hstamp : '/' ∉ stamp) (hlength : 9 ≤ stamp.length)
    (hnumber : '/' ∉ number) : RecognizedIn dirs (base ++ (stamp ++ extension ++ number)) base extension ↔
      '/' ∉ extension ∧ collapse (directoryOf base) ∈ dirs ∧ Fits extension (stamp ++ extension ++ number) := by
  by_cases hext : '/' ∈ extension
  · exact ⟨fun h => absurd h (not_recognizedIn_of_mem hstamp hlength hext hnumber), fun h => absurd hext h.1⟩
  · have ht : '/' ∉ stamp ++ extension ++ number := by simp [hstamp, hext, hnumber]
    have hlonger : extension.length ≤ (stamp ++ extension ++ number).length := by
      simp only [List.length_append]
      omega
    rw [recognizedIn_append_iff hext ht hlonger]
    exact ⟨fun h => ⟨hext, h⟩, And.right⟩

end

/-! ### The names that are made -/

section
variable {cfg : Config} {env : Env} {timestamp : Int} {o : LogFileObject} {p : Process} {path : Text}

/-- The file is recognized by the cleaner that is run for the object. -/
def Recognized (cfg : Config) (o : LogFileObject) (path : Text) : Prop :=
  RecognizedIn (cleanedDirectories o.baseFilenameSelected o.baseFilename cfg.loggingDirectories) path o.baseFilename
    o.filenameExtension

/-- A recognized file is removed once it is overdue. -/
theorem exists_mem_run {disk : Disk} (hrecognized : Recognized cfg o path)
    (hname : fileName path ≠ ".".toList ∧ fileName path ≠ "..".toList)
    (hlisted : ∀ dir, SameDirectory dir (directoryOf path) → ∃ entries, disk.entries dir = some entries ∧
      fileName path ∈ entries)
    (hover : ∀ dir, SameDirectory dir (directoryOf path) →
      disk.isLogLastModifiedOver (entryPath dir (fileName path)) = true) :
    ∃ dir, SameDirectory dir (directoryOf path) ∧ entryPath dir (fileName path) ∈
      run disk o.baseFilenameSelected o.baseFilename o.filenameExtension cfg.loggingDirectories := by
  obtain ⟨dir, hmem, -, hsame, hlog⟩ := hrecognized
  obtain ⟨entries, hentries, hentry⟩ := hlisted dir hsame
  refine ⟨dir, hsame, List.mem_flatMap.mpr ⟨dir, hmem, ?_⟩⟩
  rw [getOverdueLogNames, hentries]
  refine List.mem_filterMap.mpr ⟨fileName path, hentry, ?_⟩
  rw [if_neg (not_or.mpr hname)]
  dsimp only
  rw [hlog, hover dir hsame]
  rfl

/-- The name under which `createLogfile` opens a file. -/
def generatedName (cfg : Config) (env : Env) (timestamp : Int) (o : LogFileObject) (p : Process) : Text :=
  (getSuitableFileName cfg env
    (logfileName cfg (timePidString cfg.policy (namingTime cfg timestamp) p.mainThreadPid) o) p).1

theorem createLogfile_path
    (h : (createLogfile cfg env (timePidString cfg.policy (namingTime cfg timestamp) p.mainThreadPid)
      timestamp o p).1 = true) :
    (createLogfile cfg env (timePidString cfg.policy (namingTime cfg timestamp) p.mainThreadPid) timestamp o p).2.1.file.map
      Handle.path = some (generatedName cfg env timestamp o p) := by
  rw [generatedName]
  unfold createLogfile createLogfileInternal at h ⊢
  cases hopen : env.openFile (getSuitableFileName cfg env
      (logfileName cfg (timePidString cfg.policy (namingTime cfg timestamp) p.mainThreadPid) o) p).1
        cfg.timestampInLogfileName with
  | success inode isNew =>
    simp only [hopen]
    rfl
  | failed | lockFailed | noStream =>
    simp only [hopen] at h
    cases h

/-- When the name that is made can be recognized. -/
structure Agrees (cfg : Config) (env : Env) (timestamp : Int) (o : LogFileObject) (p : Process) : Prop where
  policy : cfg.policy = .size ∨ cfg.policy = .other
  unnumbered :
    Unnumbered cfg env (o.baseFilename ++ stamp (namingTime cfg timestamp) p.mainThreadPid ++ o.filenameExtension) p
  extension : '/' ∉ o.filenameExtension
  /-- The extension is not found in front, unless it is made of stamps. -/
  apart : ¬ o.filenameExtension <+: stamp (namingTime cfg timestamp) p.mainThreadPid ++ o.filenameExtension ∨
    (stamp (namingTime cfg timestamp) p.mainThreadPid).length ∣ o.filenameExtension.length
  directory : collapse (directoryOf o.baseFilename) ∈
    cleanedDirectories o.baseFilenameSelected o.baseFilename cfg.loggingDirectories

/-- The cleaner recognizes the file that is made, exactly if the policy is the size policy, the name has no
    sequence number, the extension is not taken for another part of the name, and the directory is scanned under
    the name that the cleaned base name has. -/
theorem recognized_iff (htimestamp : cfg.timestampInLogfileName = true) (hyear : FourDigitYear (namingTime cfg timestamp))
    (hpid : 0 ≤ p.mainThreadPid) : Recognized cfg o (generatedName cfg env timestamp o p) ↔
      Agrees cfg env timestamp o p := by
  obtain ⟨hlength, hslash⟩ := @timePidString_spec _ cfg.policy _ hyear hpid
  rw [Recognized, generatedName, logfileName, if_pos htimestamp]
  obtain ⟨number, heq, hnumber⟩ := @getSuitableFileName_spec cfg env
    (o.baseFilename ++ timePidString cfg.policy (namingTime cfg timestamp) p.mainThreadPid ++ o.filenameExtension) p
  have hnot : '/' ∉ number := by
    rcases hnumber with ⟨rfl, -⟩ | ⟨⟨digits, hdigits, rfl⟩, -⟩
    · exact List.not_mem_nil
    · exact fun hmem => (List.mem_cons.mp hmem).elim (by decide) (hdigits.not_mem rfl)
  rw [heq, List.append_assoc o.baseFilename, List.append_assoc o.baseFilename, recognizedIn_iff hslash hlength hnot]
  by_cases hpolicy : cfg.policy = .size ∨ cfg.policy = .other
  · have hstamp := isStamp_iff.mp (isStamp_stamp hyear hpid)
    rw [timePidString_of_size hpolicy] at hnumber ⊢
    rcases hnumber with ⟨rfl, hfree⟩ | ⟨⟨digits, -, rfl⟩, hnumbered⟩
    · rw [List.append_nil, fits_stamp_iff hstamp.1 (by omega)]
      constructor
      · rintro ⟨hext, hdir, hapart⟩
        exact ⟨hpolicy, hfree, hext, hapart, hdir⟩
      · intro h
        exact ⟨h.extension, h.directory, h.apart⟩
    · exact ⟨fun h => absurd h.2.2 (not_fits_numbered (by omega)), fun h => absurd h.unnumbered hnumbered⟩
  · refine ⟨fun h => absurd h.2.2 ?_, fun h => absurd h.policy hpolicy⟩
    rcases hnumber with ⟨rfl, -⟩ | ⟨⟨digits, -, rfl⟩, -⟩
    · rw [List.append_nil]
      refine not_fits_of_not_mem (timePidString_of_time hyear hpid ?_) hlength
      cases hcase : cfg.policy <;> simp_all
    · exact not_fits_numbered hlength

theorem fourDigitYear_plainTm : FourDigitYear (plainTm 0) :=
  ⟨by decide, by decide, by decide, by decide, by decide, by decide⟩

/-- The name that is made under the size policy for the base name `a` is recognized. -/
theorem recognized_size : Recognized historyConfig (plainObject historyConfig)
    (generatedName historyConfig plainEnv 0 (plainObject historyConfig) plainProcess) := by
  have hyear : FourDigitYear (namingTime historyConfig 0) := fourDigitYear_plainTm
  refine (recognized_iff rfl hyear (by decide)).mpr ⟨Or.inl rfl, ?_, List.not_mem_nil, Or.inr ?_, ?_⟩
  · exact fun st hstat => nomatch hstat
  · exact Nat.dvd_zero _
  · decide

/-- Under the day policy the name has no time, and is not recognized. -/
theorem not_recognized_day : ¬ ∀ (cfg : Config) (env : Env) (timestamp : Int) (o : LogFileObject) (p : Process),
    cfg.timestampInLogfileName = true → FourDigitYear (namingTime cfg timestamp) → 0 ≤ p.mainThreadPid →
      Recognized cfg o (generatedName cfg env timestamp o p) := fun h => by
  obtain ⟨dir, hmem, -, -, hlog⟩ :=
    h plainConfig plainEnv 0 (plainObject plainConfig) plainProcess rfl fourDigitYear_plainTm (by decide)
  obtain rfl := List.mem_singleton.mp hmem
  exact absurd hlog (by decide)

end

end Glog.LogCleaner
