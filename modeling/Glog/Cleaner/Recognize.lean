import Glog.LogFile.Object

/-! # The log cleaner

`LogCleaner` of `logging.cc` removes the overdue log files in the directories that it derives from the base name
of a log file object. Whether a file is a log of this project is decided by its name alone. The only delimiter
is `/`, as it is everywhere but on Windows. -/

namespace Glog.LogCleaner
open LogFile (Text)

/-! ### Names -/

/-- A character of the base name; a delimiter behind a delimiter is left out. -/
def addCleaned (cleaned : Text) (c : Char) : Text :=
  if cleaned = [] then cleaned ++ [c]
  else if c ≠ '/' ∨ cleaned.getLast? ≠ some c then cleaned ++ [c]
  else cleaned

def cleanBaseFilename (baseFilename : Text) : Text := baseFilename.foldl addCleaned []

/-- The characters of `YYYYMMDD-HHMMSS.pid`. -/
def stampChar (i : Nat) (c : Char) : Bool :=
  if i ≤ 7 then c.isDigit
  else if i = 8 then c == '-'
  else if i ≤ 14 then c.isDigit
  else if i = 15 then c == '.'
  else c.isDigit

/-- The loop over the characters, of which the first has the place `i`. -/
def matchesFrom : Nat → Text → Bool
  | _, [] => true
  | i, c :: rest => stampChar i c && matchesFrom (i + 1) rest

def matchesStamp (q : Text) : Bool := matchesFrom 0 q

def isLogFromCurrentProject (filepath baseFilename filenameExtension : Text) : Bool :=
  let cleaned := cleanBaseFilename baseFilename
  -- Return early if the filename doesn't start with the cleaned base name.
  if ¬ cleaned <+: filepath then false
  else if filenameExtension = [] then matchesStamp (filepath.drop cleaned.length)
  else if cleaned.length ≥ filepath.length then false
  -- for origin version, the extension is in the middle of the path.
  else if (filepath.drop cleaned.length).take filenameExtension.length = filenameExtension then
    matchesStamp (filepath.drop (cleaned ++ filenameExtension).length)
  -- for new version, the extension is on the right of the path.
  else if filenameExtension.length ≥ filepath.length then false
  else if filepath.drop (filepath.length - filenameExtension.length) ≠ filenameExtension then false
  else matchesStamp ((filepath.take (filepath.length - filenameExtension.length)).drop cleaned.length)

/-! ### Directories -/

/-- What comes before the last delimiter, which belongs to it. -/
def dirPart (baseFilename : Text) : Text := (baseFilename.reverse.dropWhile (· ≠ '/')).reverse

/-- The directories that are scanned. -/
def cleanedDirectories (baseFilenameSelected : Bool) (baseFilename : Text) (loggingDirectories : List Text) : List Text :=
  if baseFilenameSelected then [if '/' ∈ baseFilename then dirPart baseFilename else ['.']]
  else loggingDirectories

/-- The path that is examined for an entry of a directory. -/
def entryPath (logDirectory name : Text) : Text :=
  if logDirectory.getLast? = some '/' then logDirectory ++ name else name

/-- What the file system answers: the entries of a directory, and whether a file is old enough. -/
structure Disk where
  entries : Text → Option (List Text)
  isLogLastModifiedOver : Text → Bool

def getOverdueLogNames (disk : Disk) (logDirectory baseFilename filenameExtension : Text) : List Text :=
  ((disk.entries logDirectory).getD []).filterMap fun name =>
    if name = ".".toList ∨ name = "..".toList then none
    else
      let filepath := entryPath logDirectory name
      if isLogFromCurrentProject filepath baseFilename filenameExtension && disk.isLogLastModifiedOver filepath then
        some filepath
      else none

/-- The files that `Run` removes. -/
def run (disk : Disk) (baseFilenameSelected : Bool) (baseFilename filenameExtension : Text)
    (loggingDirectories : List Text) :
    List Text :=
  (cleanedDirectories baseFilenameSelected baseFilename loggingDirectories).flatMap fun dir =>
    getOverdueLogNames disk dir baseFilename filenameExtension

/-! ### Stamps -/

/-- Eight digits, `-`, six digits, `.`, and one or more digits. -/
def IsStamp (q : Text) : Prop :=
  ∃ date time pid : Text, q = date ++ '-' :: (time ++ '.' :: pid) ∧ date.length = 8 ∧ time.length = 6 ∧ pid ≠ [] ∧
    ∀ c ∈ date ++ time ++ pid, c.isDigit = true

theorem matchesFrom_append (l l' : Text) :
    ∀ i, matchesFrom i (l ++ l') = (matchesFrom i l && matchesFrom (i + l.length) l') := by
  induction l with
  | nil => exact fun i => rfl
  | cons c l ih =>
    intro i
    rw [List.cons_append, matchesFrom, ih, matchesFrom, List.length_cons, Bool.and_assoc, Nat.add_assoc, Nat.add_comm 1]

/-- A stretch of places where only digits are allowed. -/
theorem matchesFrom_digits {n : Nat} (l : Text) :
    ∀ {i}, i + l.length ≤ n → (∀ k, i ≤ k → k < n → ∀ c, stampChar k c = c.isDigit) →
    (matchesFrom i l = true ↔ ∀ c ∈ l, c.isDigit = true) := by
  induction l with
  | nil => exact fun _ _ => ⟨fun _ => nofun, fun _ => rfl⟩
  | cons c l ih =>
    intro i hlength hdigits
    rw [List.length_cons] at hlength
    have hrest : matchesFrom (i + 1) l = true ↔ ∀ c ∈ l, c.isDigit = true :=
      ih (by omega) fun k hk => hdigits k (by omega)
    rw [matchesFrom, Bool.and_eq_true, hrest, hdigits i (Nat.le_refl i) (by omega), List.forall_mem_cons]

theorem matchesStamp_parts {date time pid : Text} (hdate : date.length = 8) (htime : time.length = 6) :
    matchesStamp (date ++ '-' :: (time ++ '.' :: pid)) = true ↔ ∀ c ∈ date ++ time ++ pid, c.isDigit = true := by
  have hfirst : matchesFrom 0 date = true ↔ ∀ c ∈ date, c.isDigit = true :=
    matchesFrom_digits (n := 8) date (by omega) fun k _ hk c => by rw [stampChar, if_pos (by omega)]
  have hsecond : matchesFrom 9 time = true ↔ ∀ c ∈ time, c.isDigit = true :=
    matchesFrom_digits (n := 15) time (by omega) fun k hk hk' c => by
      rw [stampChar, if_neg (by omega), if_neg (by omega), if_pos (by omega)]
  have hthird : matchesFrom 16 pid = true ↔ ∀ c ∈ pid, c.isDigit = true :=
    matchesFrom_digits (n := 16 + pid.length) pid (Nat.le_refl _) fun k hk _ c => by
      rw [stampChar, if_neg (by omega), if_neg (by omega), if_neg (by omega), if_neg (by omega)]
  have hdash : stampChar 8 '-' = true := rfl
  have hdot : stampChar 15 '.' = true := rfl
  rw [matchesStamp, matchesFrom_append, Nat.zero_add, hdate, matchesFrom, hdash, Bool.true_and, matchesFrom_append, htime,
    matchesFrom, hdot, Bool.true_and, Bool.and_eq_true, Bool.and_eq_true, hfirst, hsecond, hthird]
  simp only [List.mem_append, or_imp, forall_and, and_assoc]

theorem exists_split {n : Nat} {q : Text} (h : n < q.length) : ∃ l c r, q = l ++ c :: r ∧ l.length = n :=
  ⟨q.take n, q[n], q.drop (n + 1), by rw [← List.drop_eq_getElem_cons h, List.take_append_drop],
    by rw [List.length_take]; omega⟩

/-- A complete stamp is one that has a character of the process id. -/
theorem isStamp_iff {q : Text} : IsStamp q ↔ matchesStamp q = true ∧ 17 ≤ q.length := by
  constructor
  · rintro ⟨date, time, pid, rfl, hdate, htime, hpid, hdigits⟩
    refine ⟨(matchesStamp_parts hdate htime).mpr hdigits, ?_⟩
    have hpos : 0 < pid.length := List.length_pos_iff.mpr hpid
    simp only [List.length_append, List.length_cons]
    omega
  · rintro ⟨hmatches, hlength⟩
    obtain ⟨date, dash, rest, rfl, hdate⟩ := exists_split (show 8 < q.length by omega)
    rw [List.length_append, List.length_cons, hdate] at hlength
    obtain ⟨time, dot, pid, rfl, htime⟩ := exists_split (show 6 < rest.length by omega)
    rw [List.length_append, List.length_cons, htime] at hlength
    have hparts := hmatches
    rw [matchesStamp, matchesFrom_append, Nat.zero_add, hdate, matchesFrom, matchesFrom_append, htime,
      matchesFrom] at hparts
    simp only [Bool.and_eq_true] at hparts
    obtain ⟨-, hdash, -, hdot, -⟩ := hparts
    obtain rfl : dash = '-' := beq_iff_eq.mp hdash
    obtain rfl : dot = '.' := beq_iff_eq.mp hdot
    refine ⟨date, time, pid, rfl, hdate, htime, ?_, (matchesStamp_parts hdate htime).mp hmatches⟩
    exact List.length_pos_iff.mp (by omega)

/-- A text with one delimiter in the place of several. -/
def collapse : Text → Text
  | [] => []
  | [c] => [c]
  | c :: d :: rest => if c = '/' ∧ d = '/' then collapse (d :: rest) else c :: collapse (d :: rest)

theorem foldl_addCleaned (rest : Text) : ∀ (front : Text) (c : Char),
    rest.foldl addCleaned (front ++ [c]) = front ++ collapse (c :: rest) := by
  induction rest with
  | nil => exact fun _ _ => rfl
  | cons d rest ih =>
    intro front c
    rw [List.foldl_cons, addCleaned, if_neg (by simp), List.getLast?_concat]
    by_cases hboth : c = '/' ∧ d = '/'
    · obtain ⟨rfl, rfl⟩ := hboth
      rw [if_neg (by simp), ih]
      rfl
    · rw [if_pos (by simp only [ne_eq, Option.some.injEq]; grind), ih, collapse, if_neg hboth, List.append_assoc]
      rfl

theorem cleanBaseFilename_eq (baseFilename : Text) : cleanBaseFilename baseFilename = collapse baseFilename := by
  cases baseFilename with
  | nil => rfl
  | cons c rest => exact foldl_addCleaned rest [] c

/-! ### What is recognized -/

/-- The path is too short for the base name and the extension, which overlap in it. -/
def Overlap (cleaned extension path : Text) : Prop :=
  cleaned <+: path ∧ extension <:+ path ∧ cleaned.length < path.length ∧ extension.length < path.length ∧
    path.length < cleaned.length + extension.length

/-- The base name and the extension, and the characters `q` behind them, or between them if the extension is not
    found right behind the base name. -/
def LaidOut (cleaned extension q path : Text) : Prop :=
  path = cleaned ++ extension ++ q ∨ path = cleaned ++ q ++ extension ∧ ¬ cleaned ++ extension <+: path

section
variable {path base extension : Text}

theorem take_drop_eq_iff {b : Text} (h : b <+: path) :
    (path.drop b.length).take extension.length = extension ↔ b ++ extension <+: path := by
  obtain ⟨rest, rfl⟩ := h
  rw [List.drop_left, eq_comm, ← List.prefix_iff_eq_take, List.prefix_append_right_inj]

theorem drop_eq_iff : path.drop (path.length - extension.length) = extension ↔ extension <:+ path := by
  rw [eq_comm, ← List.suffix_iff_eq_drop]

/-- The extension is right behind the base name. -/
theorem recognized_front_iff {b rest : Text} :
    ((∃ q, matchesStamp q = true ∧ LaidOut b extension q (b ++ extension ++ rest)) ∨
    Overlap b extension (b ++ extension ++ rest)) ↔ matchesStamp rest = true := by
  constructor
  · rintro (⟨q, hmatches, heq | ⟨-, hnot⟩⟩ | ⟨-, -, -, -, hlength⟩)
    · rwa [List.append_cancel_left heq]
    · exact absurd (List.prefix_append _ _) hnot
    · simp only [List.length_append] at hlength
      omega
  · exact fun hmatches => Or.inl ⟨rest, hmatches, Or.inl rfl⟩

theorem LaidOut.eq_of_not_front {b q : Text} (h : LaidOut b extension q path) (hmiddle : ¬ b ++ extension <+: path) :
    path = b ++ q ++ extension := h.elim (fun heq => absurd ⟨_, heq.symm⟩ hmiddle) And.left

theorem LaidOut.longer {b q : Text} (h : LaidOut b extension q path) (hmiddle : ¬ b ++ extension <+: path) :
    b.length < path.length ∧ extension.length < path.length := by
  have heq := h.eq_of_not_front hmiddle
  have hlength := congrArg List.length heq
  simp only [List.length_append] at hlength
  have hpos : 0 < extension.length := List.length_pos_iff.mpr fun hnone => hmiddle (by
    rw [heq, hnone, List.append_nil, List.append_nil]
    exact List.prefix_append b q)
  refine ⟨by omega, Nat.lt_of_le_of_ne (by omega) fun hsame => hmiddle ?_⟩
  have hb : b = [] := List.length_eq_zero_iff.mp (by omega)
  have hq : q = [] := List.length_eq_zero_iff.mp (by omega)
  rw [heq, hb, hq]
  exact List.prefix_refl _

/-- The extension is at the end only, with or without room for the base name before it. -/
theorem recognized_end_iff {b front : Text} (hfront : b <+: front ++ extension)
    (hmiddle : ¬ b ++ extension <+: front ++ extension)
    (hlength : b.length < (front ++ extension).length) (hlength' : extension.length < (front ++ extension).length) :
    ((∃ q, matchesStamp q = true ∧ LaidOut b extension q (front ++ extension)) ∨ Overlap b extension (front ++ extension)) ↔
      matchesStamp (front.drop b.length) = true := by
  by_cases hroom : b.length ≤ front.length
  · obtain ⟨q, rfl⟩ := List.prefix_of_prefix_length_le hfront (List.prefix_append front extension) hroom
    rw [List.drop_left]
    constructor
    · rintro (⟨q', hmatches, hlaid⟩ | ⟨-, -, -, -, hshort⟩)
      · rwa [List.append_cancel_left (List.append_cancel_right (hlaid.eq_of_not_front hmiddle))]
      · simp only [List.length_append] at hshort
        omega
    · exact fun hmatches => Or.inl ⟨q, hmatches, Or.inr ⟨rfl, hmiddle⟩⟩
  · rw [List.drop_eq_nil_of_le (by omega)]
    refine ⟨fun _ => rfl, fun _ => Or.inr ⟨hfront, List.suffix_append _ _, hlength, hlength', ?_⟩⟩
    rw [List.length_append]
    omega

/-- A name is recognized if the characters beside the base name and the extension begin like a stamp, or if
    there is no room for any. -/
theorem isLogFromCurrentProject_iff : isLogFromCurrentProject path base extension = true ↔
    (∃ q, matchesStamp q = true ∧ LaidOut (cleanBaseFilename base) extension q path) ∨
      Overlap (cleanBaseFilename base) extension path := by
  unfold isLogFromCurrentProject
  generalize cleanBaseFilename base = b
  dsimp only
  by_cases hfront : b <+: path
  · rw [if_neg (fun h => h hfront)]
    by_cases hmiddle : b ++ extension <+: path
    · obtain ⟨rest, rfl⟩ := hmiddle
      rw [recognized_front_iff]
      by_cases hext : extension = []
      · subst hext
        rw [if_pos rfl, List.append_nil, List.drop_left]
      · have hpos : 0 < extension.length := List.length_pos_iff.mpr hext
        rw [if_neg hext, if_neg (by simp only [List.length_append]; omega),
          if_pos ((take_drop_eq_iff hfront).mpr (List.prefix_append _ _)), List.drop_left]
    · -- What remains is a path that ends in the extension.
      have hext : extension ≠ [] := fun hnone => hmiddle (by rwa [hnone, List.append_nil])
      rw [if_neg hext]
      by_cases hlength : b.length ≥ path.length
      · rw [if_pos hlength]
        refine ⟨nofun, ?_⟩
        rintro (⟨q, -, hlaid⟩ | ⟨-, -, hshort, -⟩)
        · exact absurd (hlaid.longer hmiddle).1 (Nat.not_lt.mpr hlength)
        · exact absurd hshort (Nat.not_lt.mpr hlength)
      · rw [if_neg hlength, if_neg (fun h => hmiddle ((take_drop_eq_iff hfront).mp h))]
        by_cases hlength' : extension.length ≥ path.length
        · rw [if_pos hlength']
          refine ⟨nofun, ?_⟩
          rintro (⟨q, -, hlaid⟩ | ⟨-, -, -, hshort, -⟩)
          · exact absurd (hlaid.longer hmiddle).2 (Nat.not_lt.mpr hlength')
          · exact absurd hshort (Nat.not_lt.mpr hlength')
        · rw [if_neg hlength']
          by_cases hsuffix : extension <:+ path
          · rw [if_neg (fun h => h (drop_eq_iff.mpr hsuffix))]
            obtain ⟨front, rfl⟩ := hsuffix
            rw [recognized_end_iff hfront hmiddle (Nat.lt_of_not_le hlength) (Nat.lt_of_not_le hlength'),
              List.length_append, Nat.add_sub_cancel, List.take_left]
          · rw [if_pos (fun h => hsuffix (drop_eq_iff.mp h))]
            refine ⟨nofun, ?_⟩
            rintro (⟨q, -, hlaid⟩ | ⟨-, hend, -⟩)
            · exact absurd ⟨_, (hlaid.eq_of_not_front hmiddle).symm⟩ hsuffix
            · exact absurd hend hsuffix
  · rw [if_pos hfront]
    refine ⟨nofun, ?_⟩
    rintro (⟨q, -, rfl | ⟨rfl, -⟩⟩ | ⟨hb, -⟩)
    · exact absurd ((List.prefix_append b extension).trans (List.prefix_append _ q)) hfront
    · exact absurd ((List.prefix_append b q).trans (List.prefix_append _ extension)) hfront
    · exact absurd hb hfront

/-- The name of a log file of this project. -/
def IsLogName (path base extension : Text) : Prop :=
  ∃ stamp, IsStamp stamp ∧ (path = collapse base ++ extension ++ stamp ∨ path = collapse base ++ stamp ++ extension)

theorem LaidOut.length_eq {cleaned q : Text} (h : LaidOut cleaned extension q path) :
    path.length = cleaned.length + extension.length + q.length := by
  rcases h with rfl | ⟨rfl, -⟩
  · simp only [List.length_append]
  · simp only [List.length_append]
    omega

theorem IsLogName.length_le (h : IsLogName path base extension) :
    (collapse base).length + extension.length + 17 ≤ path.length := by
  obtain ⟨stamp, hstamp, hpath⟩ := h
  have hlength := (isStamp_iff.mp hstamp).2
  rcases hpath with rfl | rfl
  · simp only [List.length_append]
    omega
  · simp only [List.length_append]
    omega

/-- A name that is recognized is the name of a log file, unless there is only a beginning of a stamp in it, or
    the base name and the extension overlap. -/
theorem isLogName_of_recognized_iff : (isLogFromCurrentProject path base extension = true → IsLogName path base extension) ↔
    ¬ ((∃ q, matchesStamp q = true ∧ q.length < 17 ∧ LaidOut (collapse base) extension q path) ∨
      Overlap (collapse base) extension path) := by
  rw [isLogFromCurrentProject_iff, cleanBaseFilename_eq]
  constructor
  · rintro hname (⟨q, hmatches, hshort, hlaid⟩ | hoverlap)
    · have hlength := (hname (Or.inl ⟨q, hmatches, hlaid⟩)).length_le
      rw [hlaid.length_eq] at hlength
      omega
    · have hlength := (hname (Or.inr hoverlap)).length_le
      have hshort := hoverlap.2.2.2.2
      omega
  · rintro hcomplete (⟨q, hmatches, hlaid⟩ | hoverlap)
    · have hlength : 17 ≤ q.length := Nat.le_of_not_lt fun hshort => hcomplete (Or.inl ⟨q, hmatches, hshort, hlaid⟩)
      exact ⟨q, isStamp_iff.mpr ⟨hmatches, hlength⟩, hlaid.imp_right And.left⟩
    · exact absurd (Or.inr hoverlap) hcomplete

/-- The file `app2` of the user is taken for a log file with the base name `app`. -/
theorem not_isLogName_of_recognized : ¬ ∀ path base extension : Text,
    isLogFromCurrentProject path base extension = true → IsLogName path base extension := fun h => by
  have hlength := (h "app2".toList "app".toList [] (by decide)).length_le
  exact absurd hlength (by decide)

end

end Glog.LogCleaner
