import Mathlib.Logic.Relation
import Glog.Run.Linked
import Glog.Vlog.State

/-! # The sites on the default

The sites that `FLAGS_v` controls are linked from `cached_site_list`, each once, and no pattern of `vmodule_list`
matches any of them. `InitVLOG3__` adds a site, `SetVLOGLevel` takes out those that its new pattern matches. -/

namespace Glog.Vlog
open LogFile Run

section
variable {Site : Type} [DecidableEq Site] {s s' t : State Site} {x y : Site}

def State.next (s : State Site) (x : Site) : Option Site := (s.site x).next

/-- Whether a pattern matches the base name that a site has stored. -/
def matched (modulePattern : Text) (s : State Site) (x : Site) : Bool :=
  safeFNMatch modulePattern ((s.site x).baseName.getD [])

theorem setSite_self {flag : SiteFlag Site} : (s.setSite x flag).site x = flag := by simp [State.setSite]

theorem setSite_ne {flag : SiteFlag Site} (h : y ≠ x) : (s.setSite x flag).site y = s.site y := by
  simp [State.setSite, h]

section
variable {level : Option LevelPointer}

theorem setSite_level_next : (s.setSite x { s.site x with level := level }).next = s.next := funext fun y => by
  by_cases heq : y = x
  · subst heq
    rw [State.next, setSite_self, State.next]
  · rw [State.next, setSite_ne heq, State.next]

theorem setSite_level_baseName : ((s.setSite x { s.site x with level := level }).site y).baseName =
    (s.site y).baseName := by
  by_cases heq : y = x
  · subst heq
    rw [setSite_self]
  · rw [setSite_ne heq]

theorem setSite_level : ((s.setSite x { s.site x with level := level }).site y).level = if y = x then level
    else (s.site y).level := by
  by_cases heq : y = x
  · subst heq
    rw [setSite_self, if_pos rfl]
  · rw [setSite_ne heq, if_neg heq]

end

/-! ### Links -/

section
variable {link : Link Site} {item : Option Site}

theorem load_store : link.load (link.store item s) = item := by
  cases link with
  | head => rfl
  | next z => exact congrArg SiteFlag.next setSite_self

theorem store_site_ne (h : link ≠ .next y) : (link.store item s).site y = s.site y := by
  cases link with
  | head => rfl
  | next z => exact setSite_ne fun heq => h (heq ▸ rfl)

theorem store_level : ((link.store item s).site y).level = (s.site y).level := by
  by_cases h : link = .next y
  · subst h
    rw [Link.store, setSite_self]
  · rw [store_site_ne h]

theorem store_baseName : ((link.store item s).site y).baseName = (s.site y).baseName := by
  by_cases h : link = .next y
  · subst h
    rw [Link.store, setSite_self]
  · rw [store_site_ne h]

theorem store_head (h : link ≠ .head) : (link.store item s).cachedSiteList = s.cachedSiteList := by
  cases link with
  | head => exact absurd rfl h
  | next z => rfl

end

/-! ### Taking sites out -/

/-- What is not about sites. -/
structure SameModules (s s' : State Site) : Prop where
  flagsV : s'.flagsV = s.flagsV
  flagsVmodule : s'.flagsVmodule = s.flagsVmodule
  vmoduleList : s'.vmoduleList = s.vmoduleList
  nextAddress : s'.nextAddress = s.nextAddress
  initedVmodule : s'.initedVmodule = s.initedVmodule

omit [DecidableEq Site] in
theorem SameModules.trans (h : SameModules s s') (h' : SameModules s' t) : SameModules s t where
  flagsV := h'.flagsV.trans h.flagsV
  flagsVmodule := h'.flagsVmodule.trans h.flagsVmodule
  vmoduleList := h'.vmoduleList.trans h.vmoduleList
  nextAddress := h'.nextAddress.trans h.nextAddress
  initedVmodule := h'.initedVmodule.trans h.initedVmodule

theorem sameModules_setSite {flag : SiteFlag Site} : SameModules s (s.setSite x flag) := ⟨rfl, rfl, rfl, rfl, rfl⟩

theorem sameModules_store {link : Link Site} {item : Option Site} : SameModules s (link.store item s) := by
  cases link with
  | head => exact ⟨rfl, rfl, rfl, rfl, rfl⟩
  | next z => exact sameModules_setSite

/-- The sites behind a link that the pattern matches have been taken out, and follow the new level. -/
structure Redirected (modulePattern : Text) (address : Nat) (link : Link Site) (l : List Site) (s s' : State Site) :
    Prop where
  chain : Chain s'.next (link.load s') (l.filter fun x => !matched modulePattern s x)
  level : ∀ x, (s'.site x).level =
    if x ∈ l ∧ matched modulePattern s x = true then some (.vlogLevel address) else (s.site x).level
  baseName : ∀ x, (s'.site x).baseName = (s.site x).baseName
  next : ∀ x, x ∉ l → link ≠ .next x → s'.next x = s.next x
  head : link ≠ .head → s'.cachedSiteList = s.cachedSiteList
  modules : SameModules s s'

theorem redirect_none (modulePattern : Text) (address fuel : Nat) (link : Link Site) (s : State Site) :
    redirect modulePattern address fuel link none s = some s := by
  cases fuel <;> rfl

/-- A site follows the new level, and the link leads to what follows the site. -/
def takeOut (address : Nat) (link : Link Site) (x : Site) (s : State Site) : State Site :=
  link.store (s.next x) (s.setSite x { s.site x with level := some (.vlogLevel address) })

section
variable {modulePattern : Text} {address : Nat} {link : Link Site}

theorem takeOut_next (h : link ≠ .next y) : (takeOut address link x s).next y = s.next y := by
  rw [State.next, takeOut, store_site_ne h]
  exact congrFun setSite_level_next y

theorem takeOut_baseName : ((takeOut address link x s).site y).baseName = (s.site y).baseName := by
  rw [takeOut, store_baseName, setSite_level_baseName]

theorem takeOut_level : ((takeOut address link x s).site y).level = if y = x then some (.vlogLevel address)
    else (s.site y).level := by
  rw [takeOut, store_level, setSite_level]

theorem matched_takeOut : matched modulePattern (takeOut address link x s) = matched modulePattern s :=
  funext fun y => by rw [matched, takeOut_baseName, matched]

theorem redirect_of_matched {fuel : Nat} (h : matched modulePattern s x = true) :
    redirect modulePattern address (fuel + 1) link (some x) s =
      redirect modulePattern address fuel link (s.next x) (takeOut address link x s) := by
  rw [matched] at h
  rw [redirect, if_pos h]
  dsimp only
  rw [setSite_self, load_store]
  rfl

theorem redirect_of_unmatched {fuel : Nat} (h : matched modulePattern s x = false) :
    redirect modulePattern address (fuel + 1) link (some x) s =
      redirect modulePattern address fuel (.next x) (s.next x) s := by
  rw [matched] at h
  rw [redirect, h, if_neg Bool.false_ne_true]
  rfl

/-- More fuel changes nothing. -/
theorem redirect_mono {fuel fuel' : Nat} {item : Option Site} (hfuel : fuel ≤ fuel')
    (h : redirect modulePattern address fuel link item s = some s') :
    redirect modulePattern address fuel' link item s = some s' := by
  induction fuel generalizing fuel' link item s with
  | zero =>
    cases item with
    | none => rwa [redirect_none] at h ⊢
    | some x => cases h
  | succ fuel ih =>
    obtain ⟨fuel', rfl⟩ : ∃ n, fuel' = n + 1 :=
      Nat.exists_eq_succ_of_ne_zero (Nat.ne_of_gt (Nat.lt_of_lt_of_le (Nat.succ_pos _) hfuel))
    have hfuel' := Nat.le_of_succ_le_succ hfuel
    cases item with
    | none => rwa [redirect_none] at h ⊢
    | some x =>
      cases hmatched : matched modulePattern s x with
      | true =>
        rw [redirect_of_matched hmatched] at h ⊢
        exact ih hfuel' h
      | false =>
        rw [redirect_of_unmatched hmatched] at h ⊢
        exact ih hfuel' h

/-- The first site is taken out, and then the rest is traversed. -/
theorem Redirected.takeOut {l : List Site} {x : Site} (hmatched : matched modulePattern s x = true) (hx : x ∉ l)
    (h : Redirected modulePattern address link l (takeOut address link x s) s') :
    Redirected modulePattern address link (x :: l) s s' where
  chain := by
    rw [List.filter_cons_of_neg (by simp [hmatched]), ← @matched_takeOut _ _ s x _ address link]
    exact h.chain
  level y := by
    rw [h.level, matched_takeOut, takeOut_level]
    by_cases heq : y = x
    · subst heq
      rw [if_neg fun hc => hx hc.1, if_pos rfl, if_pos ⟨List.mem_cons_self, hmatched⟩]
    · simp only [List.mem_cons, heq, false_or, if_false]
  baseName y := (h.baseName y).trans takeOut_baseName
  next y hy hlinky := by
    rw [List.mem_cons, not_or] at hy
    rw [h.next y hy.2 hlinky, takeOut_next hlinky]
  head hhead := by
    rw [h.head hhead, Vlog.takeOut, store_head hhead]
    rfl
  modules := (sameModules_setSite.trans sameModules_store).trans h.modules

/-- The first site stays, and its link is the next one. -/
theorem Redirected.keep {l : List Site} {x : Site} (hmatched : matched modulePattern s x = false) (hx : x ∉ l)
    (hload : link.load s = some x) (hlink : ∀ y, link = .next y → y ∉ x :: l)
    (h : Redirected modulePattern address (.next x) l s s') : Redirected modulePattern address link (x :: l) s s' where
  chain := by
    -- The link still leads to the site.
    have hload' : link.load s' = some x := by
      rw [← hload]
      cases link with
      | head => exact h.head nofun
      | next z =>
        have hz := hlink z rfl
        rw [List.mem_cons, not_or] at hz
        exact h.next z hz.2 fun hc => hz.1 (by cases hc; rfl)
    rw [List.filter_cons_of_pos (by simp [hmatched]), hload']
    exact .cons h.chain
  level y := by
    rw [h.level]
    by_cases heq : y = x
    · subst heq
      rw [if_neg fun hc => hx hc.1, if_neg fun hc => by rw [hmatched] at hc; exact Bool.false_ne_true hc.2]
    · simp only [List.mem_cons, heq, false_or]
  baseName := h.baseName
  next y hy _ := by
    rw [List.mem_cons, not_or] at hy
    exact h.next y hy.2 fun hc => hy.1 (by cases hc; rfl)
  head _ := h.head nofun
  modules := h.modules

/-- The traversal ends, and takes the sites out that the pattern matches. -/
theorem redirect_spec {l : List Site} {fuel : Nat} {item : Option Site} (hchain : Chain s.next item l)
    (hload : link.load s = item) (hlink : ∀ x, link = .next x → x ∉ l) (hfuel : l.length ≤ fuel) :
    ∃ s', redirect modulePattern address fuel link item s = some s' ∧ Redirected modulePattern address link l s s' := by
  induction l generalizing s fuel link item with
  | nil =>
    cases hchain
    refine ⟨s, redirect_none modulePattern address fuel link s, ?_⟩
    exact {
      chain := by rw [hload]; exact .nil
      level := fun x => by simp
      baseName := fun x => rfl
      next := fun x _ _ => rfl
      head := fun _ => rfl
      modules := ⟨rfl, rfl, rfl, rfl, rfl⟩ }
  | cons x l ih =>
    have hx : x ∉ l := (List.nodup_cons.mp hchain.nodup).1
    cases hchain with
    | cons hrest =>
    obtain ⟨fuel, rfl⟩ : ∃ n, fuel = n + 1 :=
      Nat.exists_eq_succ_of_ne_zero (Nat.ne_of_gt (Nat.lt_of_lt_of_le (Nat.succ_pos _) hfuel))
    have hfuel' : l.length ≤ fuel := Nat.le_of_succ_le_succ hfuel
    cases hmatched : matched modulePattern s x with
    | true =>
      have hchain' : Chain (takeOut address link x s).next (s.next x) l :=
        hrest.congr fun y hy => takeOut_next fun h => hlink y h (List.mem_cons_of_mem x hy)
      have hlink' : ∀ y, link = .next y → y ∉ l := fun y hy hmem => hlink y hy (List.mem_cons_of_mem x hmem)
      obtain ⟨s', heq, h⟩ := ih hchain' load_store hlink' hfuel'
      exact ⟨s', (redirect_of_matched hmatched).trans heq, h.takeOut hmatched hx⟩
    | false =>
      have hlink' : ∀ y, Link.next x = .next y → y ∉ l := fun y hy hmem => by
        cases hy
        exact hx hmem
      obtain ⟨s', heq, h⟩ := ih hrest rfl hlink' hfuel'
      exact ⟨s', (redirect_of_unmatched hmatched).trans heq, h.keep hmatched hx hload hlink⟩

/-- Whatever the fuel, a traversal that ends has taken those sites out. -/
theorem redirected_of_redirect {l : List Site} {fuel : Nat} {item : Option Site} (hchain : Chain s.next item l)
    (hload : link.load s = item) (hlink : ∀ x, link = .next x → x ∉ l)
    (h : redirect modulePattern address fuel link item s = some s') : Redirected modulePattern address link l s s' := by
  obtain ⟨t, heq, ht⟩ := @redirect_spec _ _ s modulePattern address link l (max fuel l.length) item hchain hload hlink
    (Nat.le_max_right _ _)
  rw [redirect_mono (Nat.le_max_left _ _) h] at heq
  cases heq
  exact ht

end

end

end Glog.Vlog
