import Mathlib.Data.List.TakeWhile
import Glog.Vlog.Runs

/-! # Decisions

What an evaluation of `VLOG_IS_ON` returns. The call that reads the flag does not cache, the next one does, and then
the macro reads through the cached pointer; as long as only `FLAGS_v` is assigned, all of them decide alike. -/

namespace Glog.Vlog
open LogFile Run

section
variable {Site : Type} [DecidableEq Site]

inductive Evaluates (file : Site → Text) (s : State Site) : State Site → Prop
  | vlogIsOn (x : Site) (verboseLevel : Int) : Evaluates file s (vlogIsOn x (file x) verboseLevel s).1
  /-- A thread has found the site without a level, and another one has initialized it meanwhile. -/
  | initVLOG3 (x : Site) (verboseLevel : Int) : Evaluates file s (initVLOG3 x .flagsV (file x) verboseLevel s).1
  | assignV (v : Int) : Evaluates file s { s with flagsV := v }

end

/-! ### Base names -/

/-- A path without its directory, without everything from the first `.` of the rest, and without an `-inl` before that. -/
def IsBaseName (fname base : Text) : Prop :=
  ∃ directory stem rest, fname = directory ++ (stem ++ rest) ∧ (directory = [] ∨ ∃ d, directory = d ++ ['/']) ∧
    '/' ∉ stem ++ rest ∧ '.' ∉ stem ∧ (rest = [] ∨ ∃ r, rest = '.' :: r) ∧
      (stem = base ++ "-inl".toList ∨ stem = base ∧ ¬ "-inl".toList <:+ stem)

theorem afterLast_append {c : Char} {front back : Text} (hback : c ∉ back) (hfront : front = [] ∨ ∃ d, front = d ++ [c]) :
    afterLast c (front ++ back) = back := by
  have hall : ∀ a ∈ back.reverse, (a != c) = true := fun a ha => by
    refine bne_iff_ne.mpr fun heq => hback ?_
    rw [← heq]
    exact List.mem_reverse.mp ha
  have hstop : front.reverse.takeWhile (· != c) = [] := by
    rcases hfront with rfl | ⟨d, rfl⟩
    · rfl
    · rw [List.reverse_append, List.reverse_singleton, List.singleton_append, List.takeWhile_cons_of_neg (by simp)]
  rw [afterLast, List.reverse_append, List.takeWhile_append_of_pos hall, hstop, List.append_nil, List.reverse_reverse]

theorem takeWhile_stem {stem rest : Text} (hstem : '.' ∉ stem) (hrest : rest = [] ∨ ∃ r, rest = '.' :: r) :
    (stem ++ rest).takeWhile (· != '.') = stem := by
  have hall : ∀ a ∈ stem, (a != '.') = true := fun a ha => bne_iff_ne.mpr fun heq => hstem (heq ▸ ha)
  have hstop : rest.takeWhile (· != '.') = [] := by
    rcases hrest with rfl | ⟨r, rfl⟩
    · rfl
    · rw [List.takeWhile_cons_of_neg (by simp)]
  rw [List.takeWhile_append_of_pos hall, hstop, List.append_nil]

theorem baseName_eq {fname base : Text} (h : IsBaseName fname base) : baseName fname = base := by
  obtain ⟨directory, stem, rest, rfl, hdirectory, hslash, hdot, hrest, hinl⟩ := h
  rw [baseName, afterLast_append hslash hdirectory, takeWhile_stem hdot hrest]
  rcases hinl with rfl | ⟨rfl, hnot⟩
  · rw [if_pos (List.isSuffixOf_iff_suffix.mpr (List.suffix_append base _)), List.length_append]
    have hlength : base.length + "-inl".toList.length - 4 = base.length := Nat.add_sub_cancel base.length 4
    rw [hlength, List.take_left]
  · rw [if_neg fun hc => hnot (List.isSuffixOf_iff_suffix.mp hc)]

theorem eq_append_afterLast (c : Char) (text : Text) :
    ∃ front, text = front ++ afterLast c text ∧ (front = [] ∨ ∃ d, front = d ++ [c]) := by
  refine ⟨(text.reverse.dropWhile (· != c)).reverse, ?_, ?_⟩
  · rw [afterLast, ← List.reverse_append, List.takeWhile_append_dropWhile, List.reverse_reverse]
  · cases hrest : text.reverse.dropWhile (· != c) with
    | nil => exact Or.inl rfl
    | cons a rest =>
      have hstop := List.head?_dropWhile_not (fun a => a != c) text.reverse
      rw [hrest] at hstop
      have ha : a = c := by simpa using hstop
      exact Or.inr ⟨rest.reverse, by rw [ha, List.reverse_cons]⟩

theorem not_mem_afterLast (c : Char) (text : Text) : c ∉ afterLast c text := fun hmem => by
  rw [afterLast, List.mem_reverse] at hmem
  simpa using List.mem_takeWhile_imp hmem

/-- Every path has a base name. -/
theorem isBaseName_baseName (fname : Text) : IsBaseName fname (baseName fname) := by
  obtain ⟨directory, hfname, hdirectory⟩ := eq_append_afterLast '/' fname
  have hsplit : (afterLast '/' fname).takeWhile (· != '.') ++ (afterLast '/' fname).dropWhile (· != '.') =
      afterLast '/' fname :=
    List.takeWhile_append_dropWhile
  refine ⟨directory, (afterLast '/' fname).takeWhile (· != '.'), (afterLast '/' fname).dropWhile (· != '.'),
    hsplit.symm ▸ hfname, hdirectory, hsplit.symm ▸ not_mem_afterLast '/' fname, fun hmem => ?_, ?_, ?_⟩
  · simpa using List.mem_takeWhile_imp hmem
  · cases hrest : (afterLast '/' fname).dropWhile (· != '.') with
    | nil => exact Or.inl rfl
    | cons a rest =>
      have hstop := List.head?_dropWhile_not (fun a => a != '.') (afterLast '/' fname)
      rw [hrest] at hstop
      have ha : a = '.' := by simpa using hstop
      exact Or.inr ⟨rest, by rw [ha]⟩
  · unfold baseName
    dsimp only
    split
    · rename_i hinl
      obtain ⟨stem, hstem⟩ := List.isSuffixOf_iff_suffix.mp hinl
      refine Or.inl ?_
      rw [← hstem, List.length_append]
      have hlength : stem.length + "-inl".toList.length - 4 = stem.length := Nat.add_sub_cancel stem.length 4
      rw [hlength, List.take_left]
    · rename_i hinl
      exact Or.inr ⟨rfl, fun hc => hinl (List.isSuffixOf_iff_suffix.mpr hc)⟩

/-! ### What is read through a pointer -/

/-- The entries have addresses of their own, which `new` has returned. -/
structure Addressed (l : List VModuleInfo) (nextAddress : Nat) : Prop where
  distinct : (l.map VModuleInfo.address).Nodup
  bounded : ∀ info ∈ l, info.address < nextAddress

/-- The entries of a flag, from an address on. -/
def entriesFrom (address : Nat) (entries : List (Text × Int)) : List VModuleInfo :=
  entries.mapIdx fun i entry => ⟨address + i, entry.1, entry.2⟩

section
variable {l : List VModuleInfo} {address nextAddress : Nat} {entries : List (Text × Int)} {name : Text} {info : VModuleInfo}

theorem addresses_entriesFrom : (entriesFrom address entries).map VModuleInfo.address =
    List.range' address entries.length := by
  apply List.ext_getElem
  · rw [entriesFrom, List.length_map, List.length_mapIdx, List.length_range']
  · intro i hi hi'
    simp [entriesFrom]

theorem find_of_address (hdistinct : (l.map VModuleInfo.address).Nodup) (hinfo : info ∈ l) :
    l.find? (fun i => i.address == info.address) = some info := by
  induction l with
  | nil => cases hinfo
  | cons i l ih =>
    obtain ⟨hnot, hdistinct⟩ := List.nodup_cons.mp hdistinct
    rcases List.mem_cons.mp hinfo with rfl | hmem
    · exact List.find?_cons_of_pos (beq_self_eq_true _)
    · rw [List.find?_cons_of_neg]
      · exact ih hdistinct hmem
      · intro heq
        refine hnot ?_
        rw [beq_iff_eq.mp heq]
        exact List.mem_map_of_mem hmem

theorem map_entriesFrom (address : Nat) (entries : List (Text × Int)) :
    (entriesFrom address entries).map (fun info => (info.modulePattern, info.vlogLevel)) = entries := by
  apply List.ext_getElem
  · rw [entriesFrom, List.length_map, List.length_mapIdx]
  · intro i hi hi'
    simp [entriesFrom]

/-- The first entry of the flag that matches gives the level. -/
theorem firstMatch_entriesFrom : (firstMatch name (entriesFrom address entries)).map VModuleInfo.vlogLevel =
    (entries.find? fun entry => safeFNMatch entry.1 name).map Prod.snd := by
  conv => rhs; rw [← map_entriesFrom address entries]
  rw [List.find?_map, Option.map_map]
  rfl

end

section
variable {Site : Type} [DecidableEq Site] {file : Site → Text} {s s' : State Site} {x : Site} {verboseLevel : Int}

/-- The level that a lookup finds for a base name. -/
def State.governing (s : State Site) (base : Text) : Int :=
  ((firstMatch base s.vmoduleList).map VModuleInfo.vlogLevel).getD s.flagsV

omit [DecidableEq Site] in
theorem read_siteFlagValue (haddressed : Addressed s.vmoduleList s.nextAddress) (base : Text) :
    s.read (siteFlagValue .flagsV base s.vmoduleList) = s.governing base := by
  rw [siteFlagValue, State.governing]
  cases hmatch : firstMatch base s.vmoduleList with
  | none => rfl
  | some info =>
    dsimp only [State.read]
    rw [find_of_address haddressed.distinct (List.mem_of_find?_eq_some hmatch)]
    rfl

/-- The state when the flag has been read. -/
def State.parsed (s : State Site) : State Site := if s.initedVmodule then s else vlog2Initializer s

omit [DecidableEq Site] in
theorem vmoduleList_vlog2Initializer :
    (vlog2Initializer s).vmoduleList = entriesFrom s.nextAddress (vmoduleEntries s.flagsVmodule) ++ s.vmoduleList := rfl

omit [DecidableEq Site] in
theorem addressed_vlog2Initializer (h : Addressed s.vmoduleList s.nextAddress) :
    Addressed (vlog2Initializer s).vmoduleList (vlog2Initializer s).nextAddress where
  distinct := by
    rw [vmoduleList_vlog2Initializer, List.map_append, addresses_entriesFrom, List.nodup_append]
    refine ⟨List.nodup_range', h.distinct, fun a ha b hb heq => ?_⟩
    obtain ⟨info, hinfo, rfl⟩ := List.mem_map.mp hb
    have hlt := h.bounded info hinfo
    rw [List.mem_range'_1] at ha
    omega
  bounded info hinfo := by
    rw [vmoduleList_vlog2Initializer] at hinfo
    change info.address < s.nextAddress + (vmoduleEntries s.flagsVmodule).length
    rcases List.mem_append.mp hinfo with hnew | hold
    · have ha := List.mem_map_of_mem (f := VModuleInfo.address) hnew
      rw [addresses_entriesFrom, List.mem_range'_1] at ha
      omega
    · have hlt := h.bounded info hold
      omega

omit [DecidableEq Site] in
theorem addressed_parsed (h : Addressed s.vmoduleList s.nextAddress) :
    Addressed s.parsed.vmoduleList s.parsed.nextAddress := by
  unfold State.parsed
  split
  · exact h
  · exact addressed_vlog2Initializer h

omit [DecidableEq Site] in
theorem parsed_of_read (h : s.initedVmodule = true) : s.parsed = s := if_pos h

omit [DecidableEq Site] in
theorem parsed_of_unread (h : s.initedVmodule = false) : s.parsed = vlog2Initializer s :=
  if_neg (by rw [h]; exact Bool.false_ne_true)

/-! ### Evaluations -/

/-- What a site has cached is what a lookup finds. -/
def Settled (x : Site) (base : Text) (s : State Site) : Prop :=
  ∀ value, (s.site x).level = some value →
    s.initedVmodule = true ∧ value = siteFlagValue .flagsV base s.vmoduleList

/-- What an evaluation keeps: the entries once the flag has been read. -/
structure Keeps (s s' : State Site) : Prop where
  flagsVmodule : s'.flagsVmodule = s.flagsVmodule
  list : s'.parsed.vmoduleList = s.parsed.vmoduleList
  address : s'.parsed.nextAddress = s.parsed.nextAddress
  inited : s.initedVmodule = true → s'.initedVmodule = true

/-- Caching writes the links, and the level of one site. -/
theorem cacheSite_eq {levelDefault value : LevelPointer} {base : Text} :
    ∃ cachedSiteList site, cacheSite x levelDefault base value s =
      { s with cachedSiteList := cachedSiteList, site := site } ∧
      ∀ y, (site y).level = if y = x then some value else (s.site y).level := by
  have hlevel : ∀ (flag : SiteFlag Site) (y : Site), flag.level = some value →
      (Function.update s.site x flag y).level = if y = x then some value else (s.site y).level := by
    intro flag y hflag
    by_cases heq : y = x
    · rw [if_pos heq, heq, Function.update_self, hflag]
    · rw [if_neg heq, Function.update_of_ne heq]
  by_cases hpush : value = levelDefault ∧ (s.site x).baseName = none
  · refine ⟨some x, _, ?_, fun y => hlevel ⟨some value, some base, s.cachedSiteList⟩ y rfl⟩
    unfold cacheSite
    exact if_pos hpush
  · refine ⟨s.cachedSiteList, _, ?_, fun y => hlevel { s.site x with level := some value } y rfl⟩
    unfold cacheSite
    exact if_neg hpush

/-- An evaluation reads through the pointer, or it is a call of `InitVLOG3__`. -/
theorem vlogIsOn_cases (x : Site) (fname : Text) (verboseLevel : Int) (s : State Site) :
    (∃ level, (s.site x).level = some level ∧ vlogIsOn x fname verboseLevel s = (s, decide (s.read level ≥ verboseLevel))) ∨
      vlogIsOn x fname verboseLevel s = initVLOG3 x .flagsV fname verboseLevel s := by
  unfold vlogIsOn
  cases (s.site x).level with
  | some level => exact Or.inl ⟨level, rfl, rfl⟩
  | none => exact Or.inr rfl

/-- A call of `InitVLOG3__` caches what it finds, or it reads the flag. -/
theorem initVLOG3_cases (x : Site) (fname : Text) (verboseLevel : Int) (s : State Site) :
    (s.initedVmodule = true ∧
      ∃ cachedSiteList site, (initVLOG3 x .flagsV fname verboseLevel s).1 =
        { s with cachedSiteList := cachedSiteList, site := site } ∧
        ∀ y, (site y).level = if y = x then some (siteFlagValue .flagsV (baseName fname) s.vmoduleList)
          else (s.site y).level) ∨
    (s.initedVmodule = false ∧ (initVLOG3 x .flagsV fname verboseLevel s).1 = vlog2Initializer s) := by
  rcases Bool.eq_false_or_eq_true s.initedVmodule with hread | hread
  · refine Or.inl ⟨hread, ?_⟩
    have heq : (initVLOG3 x .flagsV fname verboseLevel s).1 =
        cacheSite x .flagsV (baseName fname) (siteFlagValue .flagsV (baseName fname) s.vmoduleList) s := by
      unfold initVLOG3
      rw [hread]
      rfl
    rw [heq]
    exact cacheSite_eq
  · refine Or.inr ⟨hread, ?_⟩
    unfold initVLOG3
    rw [hread]
    rfl

/-- A call of `InitVLOG3__` decides by what it finds. -/
theorem initVLOG3_snd {fname : Text} (haddressed : Addressed s.parsed.vmoduleList s.parsed.nextAddress) :
    (initVLOG3 x .flagsV fname verboseLevel s).2 = decide (verboseLevel ≤ s.parsed.governing (baseName fname)) := by
  rw [← read_siteFlagValue haddressed (baseName fname)]
  unfold initVLOG3
  cases hread : s.initedVmodule with
  | false =>
    rw [parsed_of_unread hread]
    rfl
  | true =>
    rw [parsed_of_read hread]
    dsimp only
    rw [if_pos rfl, if_pos rfl]
    -- what is cached is the pointer, not what it points to
    obtain ⟨cachedSiteList, site, hcached, -⟩ := @cacheSite_eq _ _ s x .flagsV
      (siteFlagValue .flagsV (baseName fname) s.vmoduleList) (baseName fname)
    rw [hcached]
    rfl

omit [DecidableEq Site] in
theorem Keeps.refl (s : State Site) : Keeps s s := ⟨rfl, rfl, rfl, id⟩

omit [DecidableEq Site] in
theorem Keeps.trans {s'' : State Site} (h : Keeps s s') (h' : Keeps s' s'') : Keeps s s'' :=
  ⟨h'.flagsVmodule.trans h.flagsVmodule, h'.list.trans h.list, h'.address.trans h.address, h'.inited ∘ h.inited⟩

theorem keeps_initVLOG3 (fname : Text) : Keeps s (initVLOG3 x .flagsV fname verboseLevel s).1 := by
  rcases initVLOG3_cases x fname verboseLevel s with ⟨hread, cachedSiteList, site, heq, -⟩ | ⟨hread, heq⟩
  · rw [heq]
    refine ⟨rfl, ?_, ?_, id⟩
    · rw [parsed_of_read hread, parsed_of_read (by exact hread)]
    · rw [parsed_of_read hread, parsed_of_read (by exact hread)]
  · rw [heq]
    refine ⟨rfl, ?_, ?_, fun _ => rfl⟩
    · rw [parsed_of_unread hread, parsed_of_read rfl]
    · rw [parsed_of_unread hread, parsed_of_read rfl]

theorem settled_initVLOG3 {file : Site → Text} (y : Site) (h : Settled x (baseName (file x)) s) :
    Settled x (baseName (file x)) (initVLOG3 y .flagsV (file y) verboseLevel s).1 := by
  rcases initVLOG3_cases y (file y) verboseLevel s with ⟨hread, cachedSiteList, site, heq, hsite⟩ | ⟨hread, heq⟩
  · rw [heq]
    intro value hvalue
    dsimp only at hvalue
    rw [hsite] at hvalue
    split at hvalue
    · subst x
      cases hvalue
      exact ⟨hread, rfl⟩
    · exact h value hvalue
  · rw [heq]
    intro value hvalue
    rw [(h value hvalue).1] at hread
    cases hread

section
variable {file : Site → Text}

theorem Evaluates.keeps (h : Evaluates file s s') : Keeps s s' := by
  cases h with
  | initVLOG3 y verboseLevel => exact keeps_initVLOG3 (file y)
  | vlogIsOn y verboseLevel =>
    rcases vlogIsOn_cases y (file y) verboseLevel s with ⟨level, -, heq⟩ | heq
    · rw [heq]
      exact .refl s
    · rw [heq]
      exact keeps_initVLOG3 (file y)
  | assignV v =>
    rcases Bool.eq_false_or_eq_true s.initedVmodule with hread | hread
    · refine ⟨rfl, ?_, ?_, id⟩
      · rw [parsed_of_read hread, parsed_of_read (by exact hread)]
      · rw [parsed_of_read hread, parsed_of_read (by exact hread)]
    · refine ⟨rfl, ?_, ?_, id⟩
      · rw [parsed_of_unread hread, parsed_of_unread (by exact hread)]
        rfl
      · rw [parsed_of_unread hread, parsed_of_unread (by exact hread)]
        rfl

theorem Evaluates.settled (h : Evaluates file s s') (hsettled : Settled x (baseName (file x)) s) :
    Settled x (baseName (file x)) s' := by
  cases h with
  | assignV v => exact hsettled
  | initVLOG3 y verboseLevel => exact settled_initVLOG3 y hsettled
  | vlogIsOn y verboseLevel =>
    rcases vlogIsOn_cases y (file y) verboseLevel s with ⟨level, -, heq⟩ | heq
    · rw [heq]
      exact hsettled
    · rw [heq]
      exact settled_initVLOG3 y hsettled

/-- A run of evaluations keeps the entries, and what a site has cached stays what a lookup finds. -/
theorem keeps_of_run (h : Relation.ReflTransGen (Evaluates file) s s') : Keeps s s' := by
  induction h with
  | refl => exact .refl s
  | tail _ hstep ih => exact ih.trans hstep.keeps

theorem settled_of_run (h : Relation.ReflTransGen (Evaluates file) s s') (hsettled : Settled x (baseName (file x)) s) :
    Settled x (baseName (file x)) s' := by
  induction h with
  | refl => exact hsettled
  | tail _ hstep ih => exact hstep.settled ih

end

omit [DecidableEq Site] in
theorem Settled.of_none {base : Text} (h : (s.site x).level = none) : Settled x base s := fun value hvalue => by
  rw [h] at hvalue
  cases hvalue

/-- The decision at a site that has cached nothing else than what a lookup finds. -/
theorem vlogIsOn_of_settled {fname : Text} (haddressed : Addressed s.parsed.vmoduleList s.parsed.nextAddress)
    (hsettled : Settled x (baseName fname) s) :
    (vlogIsOn x fname verboseLevel s).2 = decide (verboseLevel ≤ s.parsed.governing (baseName fname)) := by
  rcases vlogIsOn_cases x fname verboseLevel s with ⟨level, hlevel, heq⟩ | heq
  · obtain ⟨hread, rfl⟩ := hsettled level hlevel
    rw [heq]
    rw [parsed_of_read hread] at haddressed ⊢
    rw [read_siteFlagValue haddressed (baseName fname)]
  · rw [heq]
    exact initVLOG3_snd haddressed

/-- The level that the entries of the flag give a base name, or else `FLAGS_v`. -/
def flagLevel (flagsVmodule base : Text) (flagsV : Int) : Int :=
  (((vmoduleEntries flagsVmodule).find? fun entry => safeFNMatch entry.1 base).map Prod.snd).getD flagsV

/-- In a run of evaluations and assignments to `FLAGS_v` every evaluation decides by the entries of the flag, whether it
    reads through the pointer or calls `InitVLOG3__`. -/
theorem decision_of_run {file : Site → Text} {flagsV : Int} {flagsVmodule base : Text}
    (hrun : Relation.ReflTransGen (Evaluates file) (start Site flagsV flagsVmodule) s) (hbase : IsBaseName (file x) base) :
    (vlogIsOn x (file x) verboseLevel s).2 = decide (verboseLevel ≤ flagLevel flagsVmodule base s.flagsV) ∧
      (initVLOG3 x .flagsV (file x) verboseLevel s).2 = decide (verboseLevel ≤ flagLevel flagsVmodule base s.flagsV) := by
  have hkeeps := keeps_of_run hrun
  have hsettled : Settled x (baseName (file x)) s := settled_of_run hrun (.of_none rfl)
  have hstart :
      Addressed (start Site flagsV flagsVmodule).parsed.vmoduleList (start Site flagsV flagsVmodule).parsed.nextAddress :=
    addressed_parsed ⟨List.nodup_nil, fun info hinfo => nomatch hinfo⟩
  rw [← hkeeps.list, ← hkeeps.address] at hstart
  have hlist : s.parsed.vmoduleList = entriesFrom 0 (vmoduleEntries flagsVmodule) := by
    rw [hkeeps.list, parsed_of_unread rfl]
    exact List.append_nil _
  have hflagsV : s.parsed.flagsV = s.flagsV := by
    unfold State.parsed
    split <;> rfl
  have hgoverning : s.parsed.governing (baseName (file x)) = flagLevel flagsVmodule base s.flagsV := by
    rw [State.governing, hlist, firstMatch_entriesFrom, hflagsV, baseName_eq hbase]
    rfl
  rw [← hgoverning]
  exact ⟨vlogIsOn_of_settled hstart hsettled, initVLOG3_snd hstart⟩

/-- The first evaluation reads the flag, and the second one caches. -/
theorem decision_of_run_twice :
    (vlogIsOn () "d/a-inl.h".toList 2 (initVLOG3 () .flagsV "d/a-inl.h".toList 1
      (initVLOG3 () .flagsV "d/a-inl.h".toList 1 (start Unit 0 "b=1,?=2".toList)).1).1).2 = true := by
  have hbase : IsBaseName "d/a-inl.h".toList "a".toList :=
    ⟨"d/".toList, "a-inl".toList, ".h".toList, rfl, Or.inr ⟨['d'], rfl⟩,
      by decide, by decide, Or.inr ⟨['h'], rfl⟩, Or.inl rfl⟩
  have hsecond : vmoduleEntries "?=2".toList = [("?".toList, 2)] := by
    rw [vmoduleEntries]
    rfl
  have hentries : vmoduleEntries "b=1,?=2".toList = [("b".toList, 1), ("?".toList, 2)] := by
    rw [vmoduleEntries]
    change [("b".toList, (1 : Int))] ++ vmoduleEntries "?=2".toList = _
    rw [hsecond]
    rfl
  have hrun : Relation.ReflTransGen (Evaluates fun _ => "d/a-inl.h".toList) (start Unit 0 "b=1,?=2".toList) _ :=
    (Relation.ReflTransGen.single (.initVLOG3 () 1)).tail (.initVLOG3 () 1)
  rw [(decision_of_run hrun hbase).1, flagLevel, hentries]
  rfl

end

end Glog.Vlog
