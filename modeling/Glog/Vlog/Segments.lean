import Mathlib.Data.List.Chain
import Glog.Vlog.Decisions

/-! # The segments of the flag

`--vmodule` is meant to be a list of segments with commas between them. The scanner does not look for the end of a segment:
it looks for an equals sign, wherever that is, and then for the next comma. -/

namespace Glog.Vlog
open LogFile

/-! ### What a segment says -/

/-- What `c_str` shows of a string. -/
def cStr (text : Text) : Text := text.takeWhile (· != '\x00')

def segments (text : Text) : List Text := text.splitOn ','

/-- A pattern and a level with the first equals sign between them. -/
def segmentEntry (segment : Text) : Option (Text × Int) :=
  if '=' ∈ segment then (scanInt (segment.dropWhile (· != '=')).tail).map fun level => (segment.takeWhile (· != '='), level)
  else none

def segmentEntries (text : Text) : List (Text × Int) := (segments text).filterMap segmentEntry

/-- What the flag puts in front of the list is what its segments say. -/
def ParsesSegments {Site : Type} (s : State Site) : Prop :=
  ∃ front, (vlog2Initializer s).vmoduleList = front ++ s.vmoduleList ∧
    front.map (fun info => (info.modulePattern, info.vlogLevel)) = segmentEntries s.flagsVmodule

/-- A segment behind one without an equals sign says nothing. -/
def Separated (l : List Text) : Prop := l.IsChain fun segment next => '=' ∈ segment ∨ segmentEntry next = none

instance (l : List Text) : Decidable (Separated l) := inferInstanceAs (Decidable (l.IsChain _))

/-! ### Segments -/

/-- The induction over the segments of a text. -/
theorem segments_induction {motive : Text → Prop} (last : ∀ segment, ',' ∉ segment → motive segment)
    (more : ∀ segment rest, ',' ∉ segment → motive rest → motive (segment ++ ',' :: rest)) (text : Text) : motive text := by
  induction hlength : text.length using Nat.strong_induction_on generalizing text with
  | _ n ih =>
    by_cases hcomma : ',' ∈ text
    · obtain ⟨segment, rest, rfl, hsegment⟩ := List.eq_append_cons_of_mem hcomma
      refine more segment rest hsegment (ih rest.length ?_ rest rfl)
      rw [← hlength, List.length_append, List.length_cons]
      omega
    · exact last text hcomma

theorem segments_last {segment : Text} (h : ',' ∉ segment) : segments segment = [segment] := List.splitOn_eq_singleton h

theorem segments_more {segment : Text} (h : ',' ∉ segment) (rest : Text) :
    segments (segment ++ ',' :: rest) = segment :: segments rest := List.splitOn_append_cons_self_of_not_mem h rest

theorem not_mem_of_segment (text : Text) : ∀ segment ∈ segments text, ',' ∉ segment := by
  induction text using segments_induction with
  | last segment hsegment =>
    rw [segments_last hsegment]
    exact List.forall_mem_singleton.mpr hsegment
  | more segment rest hsegment ih =>
    rw [segments_more hsegment]
    exact List.forall_mem_cons.mpr ⟨hsegment, ih⟩

/-- A segment with an equals sign. -/
theorem exists_of_mem {segment : Text} (h : '=' ∈ segment) : ∃ name value, segment = name ++ '=' :: value ∧ '=' ∉ name ∧
    segmentEntry segment = (scanInt value).map fun level => (name, level) := by
  obtain ⟨name, value, heq, hname⟩ := List.eq_append_cons_of_mem h
  have hall : ∀ c ∈ name, (c != '=') = true := fun c hc => bne_iff_ne.mpr fun h => hname (h ▸ hc)
  refine ⟨name, value, heq, hname, ?_⟩
  rw [segmentEntry, if_pos h, heq, List.dropWhile_append_of_pos hall, List.takeWhile_append_of_pos hall]
  simp

/-! ### The scanner, segment by segment -/

/-- The segments without an equals sign are skipped, and go into the next pattern. -/
def scanSegments (skipped : Text) : List Text → List (Text × Int)
  | [] => []
  | segment :: rest =>
    if '=' ∈ segment then
      ((segmentEntry segment).map fun entry => (skipped ++ entry.1, entry.2)).toList ++ scanSegments [] rest
    else scanSegments (skipped ++ segment ++ [',']) rest

/-- Nothing is skipped before a segment that says something. -/
def Unskipped (skipped : Text) (l : List Text) : Prop :=
  (skipped = [] ∨ ∀ segment ∈ l.head?, segmentEntry segment = none) ∧ Separated l

theorem segmentEntry_of_not_mem {segment : Text} (h : '=' ∉ segment) : segmentEntry segment = none := if_neg h

theorem separated_cons {segment : Text} {l : List Text} :
    Separated (segment :: l) ↔ (∀ next ∈ l.head?, '=' ∈ segment ∨ segmentEntry next = none) ∧ Separated l :=
      List.isChain_cons

theorem scanSegments_of_unskipped (l : List Text) : ∀ {skipped}, Unskipped skipped l →
    scanSegments skipped l = l.filterMap segmentEntry := by
  induction l with
  | nil => exact fun _ => rfl
  | cons segment rest ih =>
    intro skipped h
    obtain ⟨hskipped, hseparated⟩ := h
    obtain ⟨hnext, hrest⟩ := separated_cons.mp hseparated
    rw [scanSegments]
    by_cases hmem : '=' ∈ segment
    · rw [if_pos hmem, ih ⟨Or.inl rfl, hrest⟩]
      cases hentry : segmentEntry segment with
      | none =>
        rw [List.filterMap_cons_none hentry]
        rfl
      | some entry =>
        rw [List.filterMap_cons_some hentry]
        rcases hskipped with rfl | hnone
        · rfl
        · exact absurd (hnone segment rfl) (by rw [hentry]; exact Option.some_ne_none entry)
    · rw [if_neg hmem, List.filterMap_cons_none (segmentEntry_of_not_mem hmem)]
      exact ih ⟨Or.inr fun next hhead => (hnext next hhead).resolve_left hmem, hrest⟩

/-- Where something is skipped before a segment that says something, a pattern has a comma. -/
theorem unskipped_of_scanSegments (l : List Text) : ∀ {skipped}, (skipped = [] ∨ ',' ∈ skipped) →
    (∀ entry ∈ scanSegments skipped l, ',' ∉ entry.1) → Unskipped skipped l := by
  induction l with
  | nil => exact fun _ _ => ⟨Or.inr fun _ h => (by cases h), List.isChain_nil⟩
  | cons segment rest ih =>
    intro skipped hskipped hentries
    rw [scanSegments] at hentries
    by_cases hmem : '=' ∈ segment
    · rw [if_pos hmem] at hentries
      have hrest := ih (Or.inl rfl) fun entry hentry => hentries entry (List.mem_append_right _ hentry)
      refine ⟨?_, separated_cons.mpr ⟨fun _ _ => Or.inl hmem, hrest.2⟩⟩
      rcases hskipped with hnil | hcomma
      · exact Or.inl hnil
      · right
        intro segment' hhead
        cases hhead
        cases hentry : segmentEntry segment with
        | none => rfl
        | some entry =>
          rw [hentry] at hentries
          exact absurd (List.mem_append_left entry.1 hcomma) (hentries _ (List.mem_append_left _ List.mem_cons_self))
    · rw [if_neg hmem] at hentries
      have hrest := ih (Or.inr (List.mem_append_right _ List.mem_cons_self)) hentries
      refine ⟨Or.inr fun segment' hhead => ?_, separated_cons.mpr ⟨fun next hnext => Or.inr ?_, hrest.2⟩⟩
      · cases hhead
        exact segmentEntry_of_not_mem hmem
      · rcases hrest.1 with hnil | hnone
        · simp at hnil
        · exact hnone next hnext

/-! ### The scanner -/

/-- The end of a string, or what comes from a zero byte on. -/
def Ends (tail : Text) : Prop := tail = [] ∨ ∃ r, tail = '\x00' :: r

theorem strchr_append {c : Char} {l : Text} (hc : c ∉ l) (hzero : '\x00' ∉ l) (r : Text) :
    strchr c (l ++ c :: r) = some (c :: r) := by
  induction l with
  | nil => exact if_pos rfl
  | cons a l ih =>
    rw [List.mem_cons, not_or] at hc hzero
    rw [List.cons_append, strchr, if_neg (Ne.symm hc.1), if_neg (Ne.symm hzero.1)]
    exact ih hc.2 hzero.2

theorem strchr_none {c : Char} {l tail : Text} (hc : c ∉ l) (hne : c ≠ '\x00') (htail : Ends tail) :
    strchr c (l ++ tail) = none := by
  induction l with
  | nil =>
    rcases htail with rfl | ⟨r, rfl⟩
    · rfl
    · rw [List.nil_append, strchr, if_neg (Ne.symm hne), if_pos rfl]
  | cons a l ih =>
    rw [List.mem_cons, not_or] at hc
    rw [List.cons_append, strchr, if_neg (Ne.symm hc.1), ih hc.2, ite_self]

/-- A character that no number has in it ends one. -/
theorem scanInt_append {c : Char} (hspace : isSpace c = false) (hdigit : c.isDigit = false) (hminus : c ≠ '-')
    (hplus : c ≠ '+') (l r : Text) : scanInt (l ++ c :: r) = scanInt l := by
  have hspaces : (l ++ c :: r).dropWhile isSpace = l.dropWhile isSpace ++ c :: r := by
    rw [List.dropWhile_append, List.dropWhile_cons_of_neg (by simp [hspace])]
    split
    · rename_i hempty
      rw [List.isEmpty_iff.mp hempty, List.nil_append]
    · rfl
  have hdigits : ∀ l : Text, (l ++ c :: r).takeWhile Char.isDigit = l.takeWhile Char.isDigit := by
    intro l
    rw [List.takeWhile_append, List.takeWhile_cons_of_neg (by simp [hdigit]), List.append_nil]
    split
    · rename_i hall
      exact ((List.takeWhile_prefix Char.isDigit).eq_of_length hall).symm
    · rfl
  rw [scanInt, scanInt, hspaces]
  cases l.dropWhile isSpace with
  | nil =>
    have hfirst : (c :: r).takeWhile Char.isDigit = [] := List.takeWhile_cons_of_neg (by simp [hdigit])
    simp [hminus, hplus, hfirst]
  | cons a l =>
    have hsigned : ∀ b : Bool, (if b then l ++ c :: r else a :: (l ++ c :: r)) = (if b then l else a :: l) ++ c :: r := by
      intro b
      cases b <;> rfl
    rw [List.cons_append, List.head?_cons, List.head?_cons, List.tail_cons, List.tail_cons, hsigned, hdigits]

theorem scanInt_ends {tail : Text} (htail : Ends tail) (l : Text) : scanInt (l ++ tail) = scanInt l := by
  rcases htail with rfl | ⟨r, rfl⟩
  · rw [List.append_nil]
  · exact scanInt_append (by decide) (by decide) (by decide) (by decide) l r

theorem vmoduleEntries_of_strchr {vmodule sep : Text} (hsep : strchr '=' vmodule = some sep) : vmoduleEntries vmodule =
    ((scanInt sep.tail).map fun level => (vmodule.takeWhile (· != '='), level)).toList ++
      ((strchr ',' sep).map fun rest => vmoduleEntries rest.tail).getD [] := by
  rw [vmoduleEntries]
  split
  · rename_i hnone
    cases hsep.symm.trans hnone
  · rename_i sep' hsep'
    cases hsep.symm.trans hsep'
    split
    · rename_i hrest
      simp [hrest]
    · rename_i rest hrest
      simp [hrest]

/-- An entry, and what comes behind the next comma. -/
theorem vmoduleEntries_entry {pattern : Text} (hequals : '=' ∉ pattern) (hzero : '\x00' ∉ pattern) (behind : Text) :
    vmoduleEntries (pattern ++ '=' :: behind) = ((scanInt behind).map fun level => (pattern, level)).toList ++
      ((strchr ',' behind).map fun rest => vmoduleEntries rest.tail).getD [] := by
  have hall : ∀ c ∈ pattern, (c != '=') = true := fun c hc => bne_iff_ne.mpr fun h => hequals (h ▸ hc)
  have hcomma : strchr ',' ('=' :: behind) = strchr ',' behind := by
    rw [strchr, if_neg (by decide), if_neg (by decide)]
  rw [vmoduleEntries_of_strchr (strchr_append hequals hzero behind), List.takeWhile_append_of_pos hall, hcomma]
  simp

theorem vmoduleEntries_of_none {vmodule : Text} (hsep : strchr '=' vmodule = none) : vmoduleEntries vmodule = [] := by
  rw [vmoduleEntries]
  split
  · rfl
  · rename_i hsome
    cases hsep.symm.trans hsome

theorem vmoduleEntries_eq_scanSegments (text : Text) :
    ∀ {skipped tail : Text}, '\x00' ∉ text → '\x00' ∉ skipped → '=' ∉ skipped →
    Ends tail → vmoduleEntries (skipped ++ text ++ tail) = scanSegments skipped (segments text) := by
  induction text using segments_induction with
  | last segment hsegment =>
    intro skipped tail hzero hzeros hequals htail
    rw [segments_last hsegment, scanSegments]
    by_cases hmem : '=' ∈ segment
    · obtain ⟨name, value, rfl, hname, hentry⟩ := exists_of_mem hmem
      have hshape : skipped ++ (name ++ '=' :: value) ++ tail = (skipped ++ name) ++ '=' :: (value ++ tail) := by simp
      have hcomma : ',' ∉ value := fun h => hsegment (List.mem_append_right name (List.mem_cons_of_mem '=' h))
      rw [if_pos hmem, hentry, hshape, vmoduleEntries_entry (List.not_mem_append hequals hname)
        (List.not_mem_append hzeros fun h => hzero (List.mem_append_left _ h)), scanInt_ends htail,
          strchr_none hcomma (by decide) htail,
        Option.map_map]
      rfl
    · rw [if_neg hmem]
      exact vmoduleEntries_of_none (strchr_none (List.not_mem_append hequals hmem) (by decide) htail)
  | more segment rest hsegment ih =>
    intro skipped tail hzero hzeros hequals htail
    obtain ⟨hzeroSegment, hzeroRest⟩ := not_or.mp (mt List.mem_append.mpr hzero)
    have hrest : '\x00' ∉ rest := fun h => hzeroRest (List.mem_cons_of_mem ',' h)
    rw [segments_more hsegment, scanSegments]
    by_cases hmem : '=' ∈ segment
    · obtain ⟨name, value, rfl, hname, hentry⟩ := exists_of_mem hmem
      have hshape : skipped ++ (name ++ '=' :: value ++ ',' :: rest) ++ tail =
          (skipped ++ name) ++ '=' :: (value ++ ',' :: (rest ++ tail)) := by simp
      have hcomma : ',' ∉ value := fun h => hsegment (List.mem_append_right name (List.mem_cons_of_mem '=' h))
      have hvalue : '\x00' ∉ value := fun h => hzeroSegment (List.mem_append_right name (List.mem_cons_of_mem '=' h))
      have hbehind := @ih [] tail hrest List.not_mem_nil List.not_mem_nil htail
      rw [if_pos hmem, hentry, hshape, vmoduleEntries_entry (List.not_mem_append hequals hname)
        (List.not_mem_append hzeros fun h => hzeroSegment (List.mem_append_left _ h)),
        scanInt_append (by decide) (by decide) (by decide) (by decide), strchr_append hcomma hvalue,
          Option.map_map, ← hbehind]
      rfl
    · have hshape : skipped ++ (segment ++ ',' :: rest) ++ tail = (skipped ++ segment ++ [',']) ++ rest ++ tail := by simp
      rw [if_neg hmem, hshape]
      exact ih hrest (List.not_mem_append (List.not_mem_append hzeros hzeroSegment) (by decide))
        (List.not_mem_append (List.not_mem_append hequals hmem) (by decide)) htail

/-- The scanner sees the string up to the first zero byte. -/
theorem vmoduleEntries_eq (text : Text) : vmoduleEntries text = scanSegments [] (segments (cStr text)) := by
  have hzero : '\x00' ∉ cStr text := fun h => by
    have hne := List.mem_takeWhile_imp h
    exact absurd hne (by decide)
  have htail : Ends (text.dropWhile (· != '\x00')) := by
    cases hdrop : text.dropWhile (· != '\x00') with
    | nil => exact Or.inl rfl
    | cons c r =>
      have hhead := List.head?_dropWhile_not (· != '\x00') text
      rw [hdrop] at hhead
      have hc : c = '\x00' := by simpa using hhead
      exact Or.inr ⟨r, by rw [hc]⟩
  have hscan := vmoduleEntries_eq_scanSegments (cStr text) hzero List.not_mem_nil List.not_mem_nil htail
  rw [List.nil_append, cStr, List.takeWhile_append_dropWhile] at hscan
  exact hscan

/-! ### The flag -/

theorem not_mem_of_segmentEntries {text : Text} : ∀ entry ∈ segmentEntries text, ',' ∉ entry.1 := by
  intro entry hentry
  obtain ⟨segment, hsegment, heq⟩ := List.mem_filterMap.mp hentry
  have hcomma := not_mem_of_segment text segment hsegment
  by_cases hmem : '=' ∈ segment
  · obtain ⟨name, value, rfl, -, hname⟩ := exists_of_mem hmem
    rw [hname] at heq
    obtain ⟨level, -, rfl⟩ := Option.map_eq_some_iff.mp heq
    exact fun h => hcomma (List.mem_append_left _ h)
  · rw [segmentEntry_of_not_mem hmem] at heq
    cases heq

theorem vmoduleEntries_iff (text : Text) : vmoduleEntries text = segmentEntries text ↔
    Separated (segments (cStr text)) ∧ segmentEntries (cStr text) = segmentEntries text := by
  rw [vmoduleEntries_eq]
  constructor
  · intro h
    have hunskipped : Unskipped [] (segments (cStr text)) :=
      unskipped_of_scanSegments _ (Or.inl rfl) (h ▸ not_mem_of_segmentEntries)
    refine ⟨hunskipped.2, ?_⟩
    rw [← h, scanSegments_of_unskipped _ hunskipped, segmentEntries]
  · rintro ⟨hseparated, heq⟩
    rw [scanSegments_of_unskipped _ ⟨Or.inl rfl, hseparated⟩, ← heq, segmentEntries]

/-- The flag is read segment by segment exactly where no segment without an equals sign comes before one that says
    something, and nothing is said behind a zero byte. -/
theorem parsesSegments_iff {Site : Type} (s : State Site) : ParsesSegments s ↔
    Separated (segments (cStr s.flagsVmodule)) ∧ segmentEntries (cStr s.flagsVmodule) = segmentEntries s.flagsVmodule := by
  rw [← vmoduleEntries_iff, ParsesSegments, vmoduleList_vlog2Initializer]
  constructor
  · rintro ⟨front, hlist, hfront⟩
    rw [← List.append_cancel_right hlist, map_entriesFrom] at hfront
    exact hfront
  · intro h
    exact ⟨_, rfl, (map_entriesFrom _ _).trans h⟩

/-- The segment `a` goes into the pattern behind it. -/
theorem not_parsesSegments : ¬ ∀ (Site : Type) (s : State Site), ParsesSegments s := fun h => by
  have hiff := (parsesSegments_iff _).mp (h Unit (start Unit 0 "a,b=1".toList))
  exact absurd hiff.1 (by decide)

end Glog.Vlog
