import Glog.Vlog.Decisions

/-! # Setting the level of a module

The first entry that matches a module decides for it. `SetVLOGLevel` gives its level to the entries with the same
pattern; an entry that matches the name only counts as found as well, so that nothing is inserted. -/

namespace Glog.Vlog
open LogFile Run

section
variable {Site : Type} [DecidableEq Site]

/-- The entries of a flag that has not been read. -/
def State.pending (s : State Site) : List (Text × Int) := if s.initedVmodule then [] else vmoduleEntries s.flagsVmodule

/-- As long as no level is set again, a site is on if its level is at most this one. -/
def Governed (file : Site → Text) (x : Site) (logLevel : Int) (s : State Site) : Prop :=
  ∀ t, Relation.ReflTransGen (Evaluates file) s t →
    ∀ verboseLevel, (vlogIsOn x (file x) verboseLevel t).2 = decide (verboseLevel ≤ logLevel)

/-- A call sets the level of a module: of the first entry that matches it, and of its sites that had no level yet or
    were on the default. -/
structure TakesEffect (file : Site → Text) (moduleName : Text) (logLevel : Int) (s s' : State Site) : Prop where
  first : ∃ info, firstMatch moduleName s'.vmoduleList = some info ∧ info.vlogLevel = logLevel
  governed : ∀ x, IsBaseName (file x) moduleName → (s.site x).level = none ∨ (s.site x).level = some .flagsV →
    Governed file x logLevel s'

/-- Nothing that matches the module only stands before what the call writes: neither an entry of the unread flag nor
    one of the list, unless it has that level anyway. -/
def Unshadowed (moduleName : Text) (logLevel : Int) (s : State Site) : Prop :=
  match s.pending.find? fun entry => safeFNMatch entry.1 moduleName with
  | some entry => entry.2 = logLevel
  | none =>
    ∀ info, firstMatch moduleName s.vmoduleList = some info → info.modulePattern = moduleName ∨ info.vlogLevel = logLevel

variable {file : Site → Text} {s s' : State Site} {l : List Site} {x : Site} {moduleName : Text}
    {logLevel result : Int} {fuel : Nat}

/-! ### Addresses -/

omit [DecidableEq Site] in
theorem addressed_updated (h : Addressed s.vmoduleList s.nextAddress) :
    Addressed (s.vmoduleList.map (setLevelOf moduleName logLevel)) s.nextAddress where
  distinct := by
    have heq : VModuleInfo.address ∘ setLevelOf moduleName logLevel = VModuleInfo.address :=
      funext fun info => setLevelOf_address
    rw [List.map_map, heq]
    exact h.distinct
  bounded info hinfo := by
    obtain ⟨info', hinfo', rfl⟩ := List.mem_map.mp hinfo
    rw [setLevelOf_address]
    exact h.bounded info' hinfo'

omit [DecidableEq Site] in
theorem addressed_inserted (h : Addressed s.vmoduleList s.nextAddress) :
    Addressed (inserted moduleName logLevel s).vmoduleList (inserted moduleName logLevel s).nextAddress where
  distinct := by
    refine List.nodup_cons.mpr ⟨fun hmem => ?_, h.distinct⟩
    obtain ⟨info, hinfo, heq⟩ := List.mem_map.mp hmem
    exact Nat.ne_of_lt (h.bounded info hinfo) heq
  bounded info hinfo := by
    rcases List.mem_cons.mp hinfo with rfl | hold
    · exact Nat.lt_succ_self _
    · exact Nat.lt_succ_of_lt (h.bounded info hold)

theorem addressed_setLevelLocked (hl : Listed file s l) (h : Addressed s.vmoduleList s.nextAddress)
    (hset : setLevelLocked fuel moduleName logLevel s = some (s', result)) : Addressed s'.vmoduleList s'.nextAddress := by
  rcases setLevelLocked_cases hset with ⟨-, rfl⟩ | ⟨-, hredirect⟩
  · exact addressed_updated h
  · have hmodules := (hl.redirect hredirect).modules
    rw [hmodules.vmoduleList, hmodules.nextAddress]
    exact addressed_inserted h

theorem addressed_initVLOG3 (fname : Text) (verboseLevel : Int) (h : Addressed s.vmoduleList s.nextAddress) :
    Addressed (initVLOG3 x .flagsV fname verboseLevel s).1.vmoduleList
      (initVLOG3 x .flagsV fname verboseLevel s).1.nextAddress := by
  rcases initVLOG3_cases x fname verboseLevel s with ⟨-, cachedSiteList, site, heq, -⟩ | ⟨-, heq⟩
  · rw [heq]
    exact h
  · rw [heq]
    exact addressed_vlog2Initializer h

/-- The entries have addresses of their own in every state reached. -/
theorem addressed_of_reachable (h : Reachable file s) : Addressed s.vmoduleList s.nextAddress := by
  obtain ⟨flagsV, flagsVmodule, hrun⟩ := h
  induction hrun with
  | refl => exact ⟨List.nodup_nil, fun info hinfo => nomatch hinfo⟩
  | tail hrun hstep ih =>
    cases hstep with
    | initVLOG3 y verboseLevel => exact addressed_initVLOG3 (file y) verboseLevel ih
    | setLevel hset =>
      obtain ⟨l, hl⟩ := exists_listed ⟨flagsV, flagsVmodule, hrun⟩
      exact addressed_setLevelLocked hl ih hset
    | assignV v => exact ih
    | assignVmodule vmodule => exact ih

/-! ### What is done under the lock -/

theorem setLevelLocked_flags (hl : Listed file s l) (hset : setLevelLocked fuel moduleName logLevel s = some (s', result)) :
    s'.flagsVmodule = s.flagsVmodule ∧ s'.initedVmodule = s.initedVmodule := by
  rcases setLevelLocked_cases hset with ⟨-, rfl⟩ | ⟨-, hredirect⟩
  · exact ⟨rfl, rfl⟩
  · have hmodules := (hl.redirect hredirect).modules
    exact ⟨hmodules.flagsVmodule, hmodules.initedVmodule⟩

/-- The level of the first entry of the list that matches. -/
theorem setLevelLocked_first (hl : Listed file s l) (hset : setLevelLocked fuel moduleName logLevel s = some (s', result)) :
    (firstMatch moduleName s'.vmoduleList).map VModuleInfo.vlogLevel = some logLevel ↔
      ∀ info, firstMatch moduleName s.vmoduleList = some info → info.modulePattern = moduleName ∨
        info.vlogLevel = logLevel := by
  rcases setLevelLocked_cases hset with ⟨hsome, rfl⟩ | ⟨hnone, hredirect⟩
  · obtain ⟨info, hinfo⟩ := Option.ne_none_iff_exists'.mp hsome
    dsimp only
    rw [firstMatch_map, hinfo, Option.map_some, Option.map_some, Option.some_inj, setLevelOf]
    by_cases hequal : info.modulePattern = moduleName
    · rw [if_pos hequal]
      refine ⟨fun _ info' hinfo' => Or.inl ?_, fun _ => rfl⟩
      cases hinfo'
      exact hequal
    · rw [if_neg hequal]
      refine ⟨fun hlevel info' hinfo' => Or.inr ?_, fun h => (h info rfl).resolve_left hequal⟩
      cases hinfo'
      exact hlevel
  · have hmodules := (hl.redirect hredirect).modules
    rw [hmodules.vmoduleList, inserted, firstMatch_cons, if_pos (safeFNMatch_self moduleName), hnone]
    exact ⟨fun _ info hinfo => absurd hinfo (Option.some_ne_none info).symm, fun _ => rfl⟩

/-- A site of the module that had no level, or the default, has nothing else cached than what a lookup finds. -/
theorem setLevelLocked_settled (hl : Listed file s l) (hset : setLevelLocked fuel moduleName logLevel s = some (s', result))
    (hbase : baseName (file x) = moduleName) (hlevel : (s.site x).level = none ∨ (s.site x).level = some .flagsV) :
    Settled x (baseName (file x)) s' := by
  rcases setLevelLocked_cases hset with ⟨hsome, rfl⟩ | ⟨hnone, hredirect⟩
  · rcases hlevel with hlevel | hlevel
    · exact .of_none hlevel
    · -- on the default no entry matches
      refine absurd (hl.unmatched x ((hl.onDefault x).mpr hlevel)) ?_
      rw [hbase]
      exact hsome
  · have hredirected := hl.redirect hredirect
    rcases hlevel with hlevel | hlevel
    · refine .of_none ?_
      rw [hredirected.level, if_neg]
      · exact hlevel
      · rintro ⟨hx, -⟩
        rw [(hl.onDefault x).mp hx] at hlevel
        cases hlevel
    · intro value hvalue
      have hx : x ∈ l := (hl.onDefault x).mpr hlevel
      have hmatched : matched moduleName (inserted moduleName logLevel s) x = safeFNMatch moduleName (baseName (file x)) :=
        hl.matched_eq hx moduleName
      rw [hredirected.level, if_pos ⟨hx, by rw [hmatched, hbase]; exact safeFNMatch_self moduleName⟩] at hvalue
      cases hvalue
      refine ⟨?_, ?_⟩
      · rw [hredirected.modules.initedVmodule]
        refine Bool.not_eq_false _ |>.mp fun hunread => ?_
        rw [(hl.unread hunread x).1] at hlevel
        cases hlevel
      · rw [hredirected.modules.vmoduleList, siteFlagValue, inserted, firstMatch_cons, hbase,
          if_pos (safeFNMatch_self moduleName)]

/-! ### The whole call -/

omit [DecidableEq Site] in
theorem vmoduleList_parsed : s.parsed.vmoduleList = entriesFrom s.nextAddress s.pending ++ s.vmoduleList := by
  unfold State.pending
  rcases Bool.eq_false_or_eq_true s.initedVmodule with hread | hread
  · rw [parsed_of_read hread, hread]
    rfl
  · rw [parsed_of_unread hread, hread]
    rfl

omit [DecidableEq Site] in
/-- The entries of the unread flag come first. -/
theorem firstMatch_parsed (name : Text) : (firstMatch name s.parsed.vmoduleList).map VModuleInfo.vlogLevel =
    match s.pending.find? fun entry => safeFNMatch entry.1 name with
    | some entry => some entry.2
    | none => (firstMatch name s.vmoduleList).map VModuleInfo.vlogLevel := by
  have hfirst := @firstMatch_entriesFrom s.nextAddress s.pending name
  rw [vmoduleList_parsed, firstMatch, List.find?_append, Option.map_or]
  rw [firstMatch] at hfirst
  rw [hfirst]
  cases s.pending.find? fun entry => safeFNMatch entry.1 name with
  | some entry => rfl
  | none => rfl

/-- After an evaluation the flag has been read. -/
theorem initedVmodule_vlogIsOn {fname : Text} {verboseLevel : Int}
    (hunread : s.initedVmodule = false → (s.site x).level = none) :
    (vlogIsOn x fname verboseLevel s).1.initedVmodule = true := by
  rcases vlogIsOn_cases x fname verboseLevel s with ⟨level, hlevel, heq⟩ | heq
  · rw [heq]
    refine Bool.not_eq_false _ |>.mp fun hread => ?_
    rw [hunread hread] at hlevel
    cases hlevel
  · rw [heq]
    rcases initVLOG3_cases x fname verboseLevel s with ⟨hread, cachedSiteList, site, heq, -⟩ | ⟨-, heq⟩
    · rw [heq]
      exact hread
    · rw [heq]
      rfl

/-- The call sets the level of the first entry that matches the module exactly if none is in the way, and then its sites
    follow; that it gets to its end is part of the statement. -/
theorem takesEffect_iff (hs : Reachable file s) (own : Site) (moduleName : Text) (logLevel : Int) :
    (∃ fuel r, setVLOGLevel fuel own (file own) moduleName logLevel s = some r) ∧
    ∀ fuel s' result, setVLOGLevel fuel own (file own) moduleName logLevel s = some (s', result) →
      (TakesEffect file moduleName logLevel s s' ↔ Unshadowed moduleName logLevel s) := by
  obtain ⟨l, hl⟩ := exists_listed hs
  refine ⟨?_, fun fuel s' result hcall => ?_⟩
  · obtain ⟨r, hr⟩ := hl.setLevel_ends moduleName logLevel
    exact ⟨l.length, _, congrArg (Option.map _) hr⟩
  obtain ⟨⟨s₁, result₁⟩, hset, heq⟩ := Option.map_eq_some_iff.mp hcall
  obtain ⟨l₁, hl₁⟩ := hl.step (.setLevel hset)
  have haddressed : Addressed s₁.parsed.vmoduleList s₁.parsed.nextAddress :=
    addressed_parsed (addressed_setLevelLocked hl (addressed_of_reachable hs) hset)
  have hevaluates : Evaluates file s₁ s' := by
    cases heq
    exact .vlogIsOn own 1
  have hinited : s'.initedVmodule = true := by
    cases heq
    exact initedVmodule_vlogIsOn fun hunread => (hl₁.unread hunread own).1
  have hlist : s'.vmoduleList = s₁.parsed.vmoduleList := by
    rw [← hevaluates.keeps.list, parsed_of_read hinited]
  have hpending : s₁.pending = s.pending := by
    obtain ⟨hflag, hread⟩ := setLevelLocked_flags hl hset
    rw [State.pending, hflag, hread]
    rfl
  have hfirst : (firstMatch moduleName s'.vmoduleList).map VModuleInfo.vlogLevel = some logLevel ↔
      Unshadowed moduleName logLevel s := by
    rw [hlist, firstMatch_parsed, hpending, Unshadowed]
    cases s.pending.find? fun entry => safeFNMatch entry.1 moduleName with
    | some entry => exact Option.some_inj
    | none => exact setLevelLocked_first hl hset
  rw [← hfirst]
  refine ⟨fun h => Option.map_eq_some_iff.mpr h.first, fun hlevel => ⟨Option.map_eq_some_iff.mp hlevel, ?_⟩⟩
  intro x hbase hsite t hrun verboseLevel
  have hbase' := baseName_eq hbase
  have hsettled : Settled x (baseName (file x)) t :=
    settled_of_run hrun (hevaluates.settled (setLevelLocked_settled hl hset hbase' hsite))
  have hkeeps := hevaluates.keeps.trans (keeps_of_run hrun)
  rw [← hkeeps.list, ← hkeeps.address] at haddressed
  rw [vlogIsOn_of_settled haddressed hsettled, State.governing, hkeeps.list, ← hlist, hbase', hlevel, Option.getD_some]

/-- Behind `SetVLOGLevel("foo*", 1)`, when the flag has been read. -/
def starred : State Unit :=
  { start Unit 0 [] with vmoduleList := [⟨0, "foo*".toList, 1⟩], nextAddress := 1, initedVmodule := true }

theorem reachable_starred : Reachable (fun _ => "vlog_is_on.cc".toList) starred := by
  have hset : setLevelLocked 0 "foo*".toList 1 (start Unit 0 []) = some ({ starred with initedVmodule := false }, 0) := rfl
  have hread : (initVLOG3 () .flagsV "vlog_is_on.cc".toList 1 { starred with initedVmodule := false }).1 = starred := by
    simp [initVLOG3, vlog2Initializer, starred, start, vmoduleEntries_nil]
  refine ⟨0, [], ?_⟩
  rw [← hread]
  exact (Relation.ReflTransGen.single (.setLevel hset)).tail (.initVLOG3 () 1)

/-- The pattern does not match the module of the only site. -/
theorem takesEffect_iff_starred : ∃ fuel s' result,
    setVLOGLevel fuel () "vlog_is_on.cc".toList "vlog_is_on".toList 3 starred = some (s', result) ∧
      TakesEffect (fun _ => "vlog_is_on.cc".toList) "vlog_is_on".toList 3 starred s' := by
  obtain ⟨⟨fuel, ⟨s', result⟩, hcall⟩, hiff⟩ := takesEffect_iff reachable_starred () "vlog_is_on".toList 3
  have hpending : starred.pending = [] := rfl
  have hnone : firstMatch "vlog_is_on".toList starred.vmoduleList = none := rfl
  refine ⟨fuel, s', result, hcall, (hiff fuel s' result hcall).mpr ?_⟩
  rw [Unshadowed, hpending]
  intro info hinfo
  rw [hnone] at hinfo
  cases hinfo

/-- `SetVLOGLevel("foobar", 2)` behind it: the level of `foobar` stays 1. -/
theorem not_takesEffect : ∃ s : State Unit, Reachable (fun _ => "vlog_is_on.cc".toList) s ∧
    '*' ∉ "foobar".toList ∧ '?' ∉ "foobar".toList ∧
      ∃ fuel s' result, setVLOGLevel fuel () "vlog_is_on.cc".toList "foobar".toList 2 s = some (s', result) ∧
        ¬ TakesEffect (fun _ => "vlog_is_on.cc".toList) "foobar".toList 2 s s' := by
  refine ⟨starred, reachable_starred, by decide, by decide, 0, _, 1, rfl, fun h => ?_⟩
  obtain ⟨info, hinfo, hlevel⟩ := h.first
  have hfirst : some info = some ⟨0, "foo*".toList, 1⟩ := hinfo.symm.trans rfl
  cases hfirst
  exact absurd hlevel (by decide)

end

end Glog.Vlog
