import Glog.Vlog.Sites

/-! # Runs of verbose logging

Any threads evaluate sites and set levels, in any order; each step is what is done under `vmodule_lock`, or an
assignment to a flag. A site belongs to one file. -/

namespace Glog.Vlog
open LogFile Run

section
variable {Site : Type} [DecidableEq Site]

inductive Step (file : Site → Text) (s : State Site) : State Site → Prop
  /-- Also for a site that another thread has initialized meanwhile. -/
  | initVLOG3 (x : Site) (verboseLevel : Int) : Step file s (initVLOG3 x .flagsV (file x) verboseLevel s).1
  | setLevel {fuel : Nat} {modulePattern : Text} {logLevel result : Int} {s' : State Site}
    (h : setLevelLocked fuel modulePattern logLevel s = some (s', result)) : Step file s s'
  | assignV (v : Int) : Step file s { s with flagsV := v }
  | assignVmodule (vmodule : Text) : Step file s { s with flagsVmodule := vmodule }

def Reachable (file : Site → Text) (s : State Site) : Prop :=
  ∃ flagsV flagsVmodule, Relation.ReflTransGen (Step file) (start Site flagsV flagsVmodule) s

end

/-! ### The list of patterns -/

/-- What becomes of an entry when the level of a pattern is set. -/
def setLevelOf (modulePattern : Text) (logLevel : Int) (info : VModuleInfo) : VModuleInfo :=
  if info.modulePattern = modulePattern then { info with vlogLevel := logLevel } else info

section
variable {modulePattern name : Text} {logLevel result : Int} {found : Bool} {l : List VModuleInfo} {info : VModuleInfo}

theorem setLevelOf_modulePattern : (setLevelOf modulePattern logLevel info).modulePattern = info.modulePattern := by
  unfold setLevelOf
  split <;> rfl

theorem setLevelOf_address : (setLevelOf modulePattern logLevel info).address = info.address := by
  unfold setLevelOf
  split <;> rfl

theorem firstMatch_cons : firstMatch name (info :: l) = if safeFNMatch info.modulePattern name = true then some info
    else firstMatch name l := by
  rw [firstMatch, List.find?_cons]
  cases safeFNMatch info.modulePattern name <;> rfl

theorem updateLevels_list : (updateLevels modulePattern logLevel l result found).list =
    l.map (setLevelOf modulePattern logLevel) := by
  induction l generalizing result found with
  | nil => rfl
  | cons info l ih =>
    rw [updateLevels, List.map_cons, setLevelOf]
    split
    · dsimp only
      rw [ih]
    · split
      · dsimp only
        rw [ih]
      · dsimp only
        rw [ih]

/-- An entry is found if its pattern matches; an equal one does. -/
theorem updateLevels_found : (updateLevels modulePattern logLevel l result found).found = true ↔
    found = true ∨ firstMatch modulePattern l ≠ none := by
  induction l generalizing result found with
  | nil => simp [updateLevels, firstMatch]
  | cons info l ih =>
    rw [updateLevels, firstMatch_cons]
    by_cases hequal : info.modulePattern = modulePattern
    · rw [if_pos hequal, hequal, safeFNMatch_self, if_pos rfl]
      dsimp only
      rw [ih]
      simp
    · rw [if_neg hequal]
      cases hmatch : safeFNMatch info.modulePattern modulePattern with
      | true =>
        cases found with
        | true =>
          rw [if_neg (by simp)]
          dsimp only
          rw [ih]
          simp
        | false =>
          rw [if_pos (by simp)]
          dsimp only
          rw [ih]
          simp
      | false =>
        rw [if_neg (by simp), if_neg Bool.false_ne_true]
        dsimp only
        rw [ih]

theorem firstMatch_map : firstMatch name (l.map (setLevelOf modulePattern logLevel)) =
    (firstMatch name l).map (setLevelOf modulePattern logLevel) := by
  rw [firstMatch, List.find?_map, firstMatch]
  congr 2
  funext info
  rw [Function.comp_apply, setLevelOf_modulePattern]

/-- Where no pattern matches there is no equal one. -/
theorem map_setLevelOf_of_none (h : firstMatch modulePattern l = none) : l.map (setLevelOf modulePattern logLevel) = l := by
  refine (List.map_congr_left fun info hinfo => ?_).trans (List.map_id l)
  refine if_neg fun hequal => ?_
  have hmatch := List.find?_eq_none.mp h info hinfo
  rw [hequal, safeFNMatch_self] at hmatch
  exact hmatch rfl

theorem firstMatch_map_eq_none : firstMatch name (l.map (setLevelOf modulePattern logLevel)) = none ↔
    firstMatch name l = none := by
  rw [firstMatch_map, Option.map_eq_none_iff]

end

/-! ### Setting a level -/

section
variable {Site : Type} [DecidableEq Site] {modulePattern : Text} {logLevel result : Int} {fuel : Nat} {s s' : State Site}

/-- The entry that is put at the head. -/
def inserted (modulePattern : Text) (logLevel : Int) (s : State Site) : State Site :=
  { s with vmoduleList := ⟨s.nextAddress, modulePattern, logLevel⟩ :: s.vmoduleList, nextAddress := s.nextAddress + 1 }

/-- Where a pattern matches, equal ones are updated. -/
theorem setLevelLocked_of_some (h : firstMatch modulePattern s.vmoduleList ≠ none) :
    ∃ result, setLevelLocked fuel modulePattern logLevel s =
      some ({ s with vmoduleList := s.vmoduleList.map (setLevelOf modulePattern logLevel) }, result) := by
  refine ⟨(updateLevels modulePattern logLevel s.vmoduleList s.flagsV false).result, ?_⟩
  rw [setLevelLocked, if_pos (updateLevels_found.mpr (Or.inr h)), updateLevels_list]

/-- Where none does, the pattern is inserted and the sites are redirected. -/
theorem setLevelLocked_of_none (h : firstMatch modulePattern s.vmoduleList = none) :
    ∃ result, setLevelLocked fuel modulePattern logLevel s =
      (redirect modulePattern s.nextAddress fuel .head s.cachedSiteList (inserted modulePattern logLevel s)).map
        fun t => (t, result) := by
  refine ⟨(updateLevels modulePattern logLevel s.vmoduleList s.flagsV false).result, ?_⟩
  rw [setLevelLocked, if_neg]
  · dsimp only
    rw [updateLevels_list, map_setLevelOf_of_none h]
    rfl
  · rw [updateLevels_found]
    rintro (hc | hc)
    · cases hc
    · exact hc h

/-- What setting a level does. -/
theorem setLevelLocked_cases (h : setLevelLocked fuel modulePattern logLevel s = some (s', result)) :
    (firstMatch modulePattern s.vmoduleList ≠ none ∧
        s' = { s with vmoduleList := s.vmoduleList.map (setLevelOf modulePattern logLevel) }) ∨
      (firstMatch modulePattern s.vmoduleList = none ∧
        redirect modulePattern s.nextAddress fuel .head s.cachedSiteList (inserted modulePattern logLevel s) =
          some s') := by
  cases hmatch : firstMatch modulePattern s.vmoduleList with
  | some info =>
    have hsome : firstMatch modulePattern s.vmoduleList ≠ none := by
      rw [hmatch]
      exact Option.some_ne_none info
    obtain ⟨result', heq⟩ := @setLevelLocked_of_some _ _ modulePattern logLevel fuel s hsome
    rw [h] at heq
    cases heq
    exact Or.inl ⟨Option.some_ne_none info, rfl⟩
  | none =>
    obtain ⟨result', heq⟩ := @setLevelLocked_of_none _ _ modulePattern logLevel fuel s hmatch
    rw [h] at heq
    obtain ⟨t, ht, heq'⟩ := Option.map_eq_some_iff.mp heq.symm
    cases heq'
    exact Or.inr ⟨rfl, ht⟩

end

/-! ### The invariant -/

section
variable {Site : Type} [DecidableEq Site]

/-- The sites of the list are those on the default, and the patterns match none of them; a site that has been on the
    list and is not any more is matched by one. -/
structure Listed (file : Site → Text) (s : State Site) (l : List Site) : Prop where
  chain : Chain s.next s.cachedSiteList l
  onDefault : ∀ x, x ∈ l ↔ (s.site x).level = some .flagsV
  listed : ∀ x ∈ l, (s.site x).baseName = some (baseName (file x))
  unmatched : ∀ x ∈ l, firstMatch (baseName (file x)) s.vmoduleList = none
  dropped : ∀ x, (s.site x).baseName ≠ none → x ∉ l → firstMatch (baseName (file x)) s.vmoduleList ≠ none
  unread : s.initedVmodule = false → ∀ x, (s.site x).level = none ∧ (s.site x).baseName = none

variable {file : Site → Text} {s s' : State Site} {l : List Site} {x : Site}

namespace Listed

omit [DecidableEq Site] in
theorem matched_eq (h : Listed file s l) (hx : x ∈ l) (modulePattern : Text) :
    matched modulePattern s x = safeFNMatch modulePattern (baseName (file x)) := by
  rw [matched, h.listed x hx, Option.getD_some]

omit [DecidableEq Site] in
/-- Before the flag has been read no site is cached. -/
theorem eq_nil (h : Listed file s l) (hunread : s.initedVmodule = false) : l = [] := by
  refine List.eq_nil_iff_forall_not_mem.mpr fun x hx => ?_
  have hlevel := (h.onDefault x).mp hx
  rw [(h.unread hunread x).1] at hlevel
  cases hlevel

omit [DecidableEq Site] in
theorem vlog2Initializer (h : Listed file s l) (hunread : s.initedVmodule = false) :
    Listed file (vlog2Initializer s) l := by
  obtain rfl := h.eq_nil hunread
  exact {
    chain := h.chain
    onDefault := h.onDefault
    listed := h.listed
    unmatched := fun x hx => nomatch hx
    dropped := fun x hx => absurd (h.unread hunread x).2 hx
    unread := fun hc => nomatch hc }

/-- The level of a site is set to a pointer that agrees with the list. -/
theorem setSite (h : Listed file s l) (hread : s.initedVmodule = true) {value : LevelPointer}
    (hvalue : x ∈ l ↔ value = .flagsV) :
    Listed file (s.setSite x { s.site x with level := some value }) l where
  chain := by
    rw [setSite_level_next]
    exact h.chain
  onDefault y := by
    rw [setSite_level]
    by_cases heq : y = x
    · subst heq
      rw [if_pos rfl, Option.some_inj]
      exact hvalue
    · rw [if_neg heq]
      exact h.onDefault y
  listed y hy := setSite_level_baseName.trans (h.listed y hy)
  unmatched := h.unmatched
  dropped y hy hnot := by
    rw [setSite_level_baseName] at hy
    exact h.dropped y hy hnot
  unread hunread := absurd (hread.symm.trans hunread) nofun

/-- A site that is left on the default for the first time is put at the head. -/
theorem push (h : Listed file s l) (hread : s.initedVmodule = true)
    (hnone : firstMatch (baseName (file x)) s.vmoduleList = none) (hname : (s.site x).baseName = none) :
    Listed file { s.setSite x ⟨some .flagsV, some (baseName (file x)), s.cachedSiteList⟩
      with cachedSiteList := some x } (x :: l) := by
  have hx : x ∉ l := fun hx => by
    rw [h.listed x hx] at hname
    cases hname
  have hne : ∀ y ∈ l, y ≠ x := fun y hy heq => hx (heq ▸ hy)
  exact {
    chain := by
      refine .cons ?_
      dsimp only [State.next]
      rw [setSite_self]
      refine h.chain.congr fun y hy => ?_
      dsimp only [State.next]
      rw [setSite_ne (hne y hy)]
    onDefault := fun y => by
      dsimp only
      by_cases heq : y = x
      · subst heq
        rw [setSite_self]
        simp
      · rw [setSite_ne heq, List.mem_cons, or_iff_right heq]
        exact h.onDefault y
    listed := fun y hy => by
      dsimp only
      rcases List.mem_cons.mp hy with rfl | hmem
      · rw [setSite_self]
      · rw [setSite_ne (hne y hmem)]
        exact h.listed y hmem
    unmatched := fun y hy => by
      rcases List.mem_cons.mp hy with rfl | hmem
      · exact hnone
      · exact h.unmatched y hmem
    dropped := fun y hy hnot => by
      rw [List.mem_cons, not_or] at hnot
      dsimp only at hy
      rw [setSite_ne hnot.1] at hy
      exact h.dropped y hy hnot.2
    unread := fun hunread => absurd (hread.symm.trans hunread) nofun }

theorem cacheSite (h : Listed file s l) (hread : s.initedVmodule = true) :
    ∃ l',
      Listed file
        (cacheSite x .flagsV (baseName (file x)) (siteFlagValue .flagsV (baseName (file x)) s.vmoduleList) s) l' := by
  unfold Vlog.cacheSite siteFlagValue
  cases hmatch : firstMatch (baseName (file x)) s.vmoduleList with
  | none =>
    by_cases hname : (s.site x).baseName = none
    · rw [if_pos ⟨rfl, hname⟩]
      exact ⟨x :: l, h.push hread hmatch hname⟩
    · rw [if_neg fun hc => hname hc.2]
      have hx : x ∈ l := Classical.byContradiction fun hx => h.dropped x hname hx hmatch
      exact ⟨l, h.setSite hread ⟨fun _ => rfl, fun _ => hx⟩⟩
  | some info =>
    rw [if_neg fun hc => LevelPointer.noConfusion hc.1]
    have hx : x ∉ l := fun hx => by
      rw [h.unmatched x hx] at hmatch
      cases hmatch
    exact ⟨l, h.setSite hread ⟨fun hc => absurd hc hx, fun hc => LevelPointer.noConfusion hc⟩⟩

theorem initVLOG3 (h : Listed file s l) (verboseLevel : Int) :
    ∃ l', Listed file (initVLOG3 x .flagsV (file x) verboseLevel s).1 l' := by
  unfold Vlog.initVLOG3
  cases hread : s.initedVmodule with
  | false => exact ⟨l, h.vlog2Initializer hread⟩
  | true =>
    dsimp only
    exact h.cacheSite hread

omit [DecidableEq Site] in
/-- Entries with the same patterns. -/
theorem updated (h : Listed file s l) (modulePattern : Text) (logLevel : Int) :
    Listed file { s with vmoduleList := s.vmoduleList.map (setLevelOf modulePattern logLevel) } l where
  chain := h.chain
  onDefault := h.onDefault
  listed := h.listed
  unmatched x hx := firstMatch_map_eq_none.mpr (h.unmatched x hx)
  dropped x hname hx hnone := h.dropped x hname hx (firstMatch_map_eq_none.mp hnone)
  unread := h.unread

/-- The sites that a new pattern matches are not on the list any more. -/
theorem redirected (h : Listed file s l) {modulePattern : Text} {logLevel : Int} {address : Nat}
    (hredirected : Redirected modulePattern address .head l (inserted modulePattern logLevel s) s') :
    Listed file s' (l.filter fun x => !safeFNMatch modulePattern (baseName (file x))) where
  chain := by
    have hfilter : l.filter (fun x => !matched modulePattern (inserted modulePattern logLevel s) x) =
        l.filter fun x => !safeFNMatch modulePattern (baseName (file x)) :=
      List.filter_congr fun x hx => congrArg not (h.matched_eq hx modulePattern)
    rw [← hfilter]
    exact hredirected.chain
  onDefault x := by
    rw [hredirected.level, List.mem_filter, Bool.not_eq_true']
    by_cases hx : x ∈ l
    · have hmatched : matched modulePattern (inserted modulePattern logLevel s) x = _ := h.matched_eq hx modulePattern
      rw [hmatched]
      cases hmatch : safeFNMatch modulePattern (baseName (file x)) with
      | true =>
        rw [if_pos ⟨hx, rfl⟩]
        exact ⟨fun hc => absurd hc.2 nofun, fun hc => absurd hc nofun⟩
      | false =>
        rw [if_neg fun hc => Bool.false_ne_true hc.2]
        exact ⟨fun hc => (h.onDefault x).mp hc.1, fun hc => ⟨hx, rfl⟩⟩
    · rw [if_neg fun hc => hx hc.1]
      exact ⟨fun hc => absurd hc.1 hx, fun hc => absurd ((h.onDefault x).mpr hc) hx⟩
  listed x hx := (hredirected.baseName x).trans (h.listed x (List.mem_filter.mp hx).1)
  unmatched x hx := by
    obtain ⟨hx, hnot⟩ := List.mem_filter.mp hx
    rw [hredirected.modules.vmoduleList, inserted, firstMatch_cons, if_neg (by simpa using hnot)]
    exact h.unmatched x hx
  dropped x hname hx := by
    rw [hredirected.modules.vmoduleList, inserted, firstMatch_cons]
    cases hmatch : safeFNMatch modulePattern (baseName (file x)) with
    | true =>
      rw [if_pos rfl]
      exact Option.some_ne_none _
    | false =>
      rw [if_neg Bool.false_ne_true]
      refine h.dropped x ?_ fun hmem => hx (List.mem_filter.mpr ⟨hmem, by rw [hmatch]; rfl⟩)
      rw [hredirected.baseName] at hname
      exact hname
  unread hunread x := by
    have hunread' : s.initedVmodule = false := hredirected.modules.initedVmodule.symm.trans hunread
    obtain rfl := h.eq_nil hunread'
    refine ⟨?_, (hredirected.baseName x).trans (h.unread hunread' x).2⟩
    rw [hredirected.level, if_neg fun hc => nomatch hc.1]
    exact (h.unread hunread' x).1

/-- What the traversal does from such a state. -/
theorem redirect (h : Listed file s l) {modulePattern : Text} {logLevel : Int} {fuel : Nat}
    (hredirect : Vlog.redirect modulePattern s.nextAddress fuel .head s.cachedSiteList
      (inserted modulePattern logLevel s) = some s') :
    Redirected modulePattern s.nextAddress .head l (inserted modulePattern logLevel s) s' :=
  redirected_of_redirect h.chain rfl (fun _ hx => nomatch hx) hredirect

theorem step (h : Listed file s l) (hstep : Step file s s') : ∃ l', Listed file s' l' := by
  cases hstep with
  | initVLOG3 x verboseLevel => exact h.initVLOG3 verboseLevel
  | setLevel hset =>
    rcases setLevelLocked_cases hset with ⟨-, rfl⟩ | ⟨-, hredirect⟩
    · exact ⟨l, h.updated _ _⟩
    · exact ⟨_, h.redirected (h.redirect hredirect)⟩
  | assignV v => exact ⟨l, h.chain, h.onDefault, h.listed, h.unmatched, h.dropped, h.unread⟩
  | assignVmodule vmodule => exact ⟨l, h.chain, h.onDefault, h.listed, h.unmatched, h.dropped, h.unread⟩

/-- Setting a level ends. -/
theorem setLevel_ends (h : Listed file s l) (modulePattern : Text) (logLevel : Int) :
    ∃ r, setLevelLocked l.length modulePattern logLevel s = some r := by
  by_cases hnone : firstMatch modulePattern s.vmoduleList = none
  · obtain ⟨result, heq⟩ := @setLevelLocked_of_none _ _ modulePattern logLevel l.length s hnone
    obtain ⟨s', hs', -⟩ :=
      @redirect_spec _ _ (inserted modulePattern logLevel s) modulePattern s.nextAddress .head l l.length
      s.cachedSiteList h.chain rfl (fun x hx => nomatch hx) (Nat.le_refl _)
    rw [heq, hs']
    exact ⟨(s', result), rfl⟩
  · obtain ⟨result, heq⟩ := @setLevelLocked_of_some _ _ modulePattern logLevel l.length s hnone
    exact ⟨_, heq⟩

end Listed

omit [DecidableEq Site] in
theorem listed_start (flagsV : Int) (flagsVmodule : Text) : Listed file (start Site flagsV flagsVmodule) [] where
  chain := .nil
  onDefault _ := ⟨fun hx => absurd hx List.not_mem_nil, fun hc => absurd hc nofun⟩
  listed _ hx := nomatch hx
  unmatched _ hx := nomatch hx
  dropped _ hname := absurd rfl hname
  unread _ _ := ⟨rfl, rfl⟩

theorem exists_listed (h : Reachable file s) : ∃ l, Listed file s l := by
  obtain ⟨flagsV, flagsVmodule, hrun⟩ := h
  induction hrun with
  | refl => exact ⟨[], listed_start flagsV flagsVmodule⟩
  | tail _ hstep ih =>
    obtain ⟨l, hl⟩ := ih
    exact hl.step hstep

/-- The list of the cached sites: the chain of pointers ends, and so has no cycle; the sites are those on the
    default, each once, and an uncached lookup leaves them there too. -/
def SiteList (file : Site → Text) (s : State Site) : Prop :=
  ∃ l, Chain s.next s.cachedSiteList l ∧ l.Nodup ∧ (∀ x, x ∈ l ↔ (s.site x).level = some .flagsV) ∧
    ∀ x ∈ l, (∀ info ∈ s.vmoduleList, safeFNMatch info.modulePattern (baseName (file x)) = false) ∧
      siteFlagValue .flagsV (baseName (file x)) s.vmoduleList = .flagsV

/-- In every state reached the list is as it should be, and the next `SetVLOGLevel` gets to its end. -/
theorem siteList_of_reachable (h : Reachable file s) :
    SiteList file s ∧ ∀ modulePattern logLevel, ∃ fuel r, setLevelLocked fuel modulePattern logLevel s = some r := by
  obtain ⟨l, hl⟩ := exists_listed h
  refine ⟨⟨l, hl.chain, hl.chain.nodup, hl.onDefault, fun x hx => ⟨fun info hinfo => ?_, ?_⟩⟩,
    fun modulePattern logLevel => ?_⟩
  · exact Bool.eq_false_iff.mpr (List.find?_eq_none.mp (hl.unmatched x hx) info hinfo)
  · rw [siteFlagValue, hl.unmatched x hx]
  · exact ⟨l.length, hl.setLevel_ends modulePattern logLevel⟩

/-- A site that is evaluated twice is cached. -/
theorem siteList_of_reachable_twice : ∃ s : State Unit, s.cachedSiteList = some () ∧
    SiteList (fun _ => "a.cc".toList) s := by
  have hrun : Reachable (fun _ => "a.cc".toList)
      (initVLOG3 () .flagsV "a.cc".toList 1 (initVLOG3 () .flagsV "a.cc".toList 1 (start Unit 0 [])).1).1 :=
    ⟨0, [], (Relation.ReflTransGen.single (.initVLOG3 () 1)).tail (.initVLOG3 () 1)⟩
  refine ⟨_, ?_, (siteList_of_reachable hrun).1⟩
  simp [initVLOG3, vlog2Initializer, start, vmoduleEntries_nil, cacheSite, siteFlagValue, firstMatch]

end

end Glog.Vlog
