import Mathlib.Logic.Function.Basic
import Glog.LogFile.Object
import Glog.Vlog.Match

/-! # Verbose logging: its state

`vmodule_list` holds the patterns with their levels, and `cached_site_list` the sites that `FLAGS_v` controls. The
second list goes through the sites themselves: each has a pointer `next`. A `VModuleInfo` is never deleted, so its
address stands for it. `vmodule_lock` guards both lists; what is under it is one step here. -/

namespace Glog.Vlog
open LogFile

structure VModuleInfo where
  address : Nat
  modulePattern : Text
  vlogLevel : Int
  deriving DecidableEq

/-- A pointer to a level: `&FLAGS_v` or `&info->vlog_level`. -/
inductive LevelPointer
  | flagsV
  | vlogLevel (address : Nat)
  deriving DecidableEq

/-- `none` is the null pointer; `base_name` stands for its first `base_len` characters. -/
structure SiteFlag (Site : Type) where
  level : Option LevelPointer
  baseName : Option Text
  next : Option Site

structure State (Site : Type) where
  flagsV : Int
  flagsVmodule : Text
  vmoduleList : List VModuleInfo
  /-- The next address that `new` returns. -/
  nextAddress : Nat
  cachedSiteList : Option Site
  initedVmodule : Bool
  site : Site → SiteFlag Site

/-- The program has just been started. -/
def start (Site : Type) (flagsV : Int) (flagsVmodule : Text) : State Site where
  flagsV := flagsV
  flagsVmodule := flagsVmodule
  vmoduleList := []
  nextAddress := 0
  cachedSiteList := none
  initedVmodule := false
  site _ := ⟨none, none, none⟩

/-! ### The flag -/

/-- The text from the first `c`, before a zero byte. -/
def strchr (c : Char) : Text → Option Text
  | [] => none
  | a :: l => if a = c then some (a :: l) else if a = '\x00' then none else strchr c l

def isSpace (c : Char) : Bool := c == ' ' || (c.toNat ≥ 9 && c.toNat ≤ 13)

def toInt32 (v : Int) : Int := Int.bmod (max (-9223372036854775808) (min v 9223372036854775807)) 4294967296

/-- `%d` of `sscanf`: a number that is not a `long` counts as the nearest one, and the low half of it is stored. -/
def scanInt (text : Text) : Option Int :=
  let signed := text.dropWhile isSpace
  let negative := signed.head? == some '-'
  let digits := (if negative || signed.head? == some '+' then signed.tail else signed).takeWhile Char.isDigit
  let value : Nat := digits.foldl (fun n c => n * 10 + (c.toNat - 48)) 0
  if digits = [] then none else some (toInt32 (if negative then -value else value))

theorem length_le_of_strchr {c : Char} {l rest : Text} (h : strchr c l = some rest) :
    rest.length ≤ l.length ∧ rest ≠ [] := by
  induction l with
  | nil => cases h
  | cons a l ih =>
    rw [strchr] at h
    split at h
    · cases h
      exact ⟨Nat.le_refl _, List.cons_ne_nil a l⟩
    · split at h
      · cases h
      · exact ⟨Nat.le_succ_of_le (ih h).1, (ih h).2⟩

/-- The patterns and levels of a value of `--vmodule`. -/
def vmoduleEntries (vmodule : Text) : List (Text × Int) :=
  match _hsep : strchr '=' vmodule with
  | none => []
  | some sep =>
    let entry := ((scanInt sep.tail).map fun level => (vmodule.takeWhile (· != '='), level)).toList
    -- Skip past this entry
    match _hrest : strchr ',' sep with
    | none => entry
    | some rest => entry ++ vmoduleEntries rest.tail
termination_by vmodule.length
decreasing_by
  have hsep := length_le_of_strchr _hsep
  have hrest := length_le_of_strchr _hrest
  have hpos := List.length_pos_iff.mpr hrest.2
  rw [List.length_tail]
  omega

theorem vmoduleEntries_nil : vmoduleEntries [] = [] := by
  rw [vmoduleEntries]
  rfl

/-! ### Functions -/

section
variable {Site : Type} [DecidableEq Site]

/-- The first entry whose pattern matches. -/
def firstMatch (name : Text) (l : List VModuleInfo) : Option VModuleInfo :=
  l.find? fun info => safeFNMatch info.modulePattern name

/-- The level that a pointer points to. -/
def State.read (s : State Site) : LevelPointer → Int
  | .flagsV => s.flagsV
  | .vlogLevel address => ((s.vmoduleList.find? fun info => info.address == address).map VModuleInfo.vlogLevel).getD 0

def State.setSite (x : Site) (flag : SiteFlag Site) (s : State Site) : State Site :=
  { s with site := Function.update s.site x flag }

/-- The entries of the flag are put into the list at the head. -/
def vlog2Initializer (s : State Site) : State Site :=
  let entries := vmoduleEntries s.flagsVmodule
  { s with
    vmoduleList := entries.mapIdx (fun i entry => ⟨s.nextAddress + i, entry.1, entry.2⟩) ++ s.vmoduleList
    nextAddress := s.nextAddress + entries.length
    initedVmodule := true }

/-- The text behind the last `c`. -/
def afterLast (c : Char) (text : Text) : Text := (text.reverse.takeWhile (· != c)).reverse

/-- The base name of a file, without a trailing `-inl`. -/
def baseName (fname : Text) : Text :=
  let base := (afterLast '/' fname).takeWhile (· != '.')
  if "-inl".toList.isSuffixOf base then base.take (base.length - 4) else base

/-- The level that controls a site. -/
def siteFlagValue (levelDefault : LevelPointer) (base : Text) (l : List VModuleInfo) : LevelPointer :=
  match firstMatch base l with
  | some info => .vlogLevel info.address
  | none => levelDefault

/-- The pointer is cached, and a site that is left on the default is added to the list. -/
def cacheSite (x : Site) (levelDefault : LevelPointer) (base : Text) (value : LevelPointer) (s : State Site) : State Site :=
  let flag := { s.site x with level := some value }
  if value = levelDefault ∧ flag.baseName = none then
    { s.setSite x { flag with baseName := some base, next := s.cachedSiteList } with cachedSiteList := some x }
  else s.setSite x flag

def initVLOG3 (x : Site) (levelDefault : LevelPointer) (fname : Text) (verboseLevel : Int) (s : State Site) :
    State Site × Bool :=
  let readVmoduleFlag := s.initedVmodule
  let s := if readVmoduleFlag then s else vlog2Initializer s
  let value := siteFlagValue levelDefault (baseName fname) s.vmoduleList
  -- Cache the vlog value pointer if --vmodule flag has been parsed.
  let s := if readVmoduleFlag then cacheSite x levelDefault (baseName fname) value s else s
  (s, decide (s.read value ≥ verboseLevel))

/-- `VLOG_IS_ON` at a site of the file. -/
def vlogIsOn (x : Site) (file : Text) (verboseLevel : Int) (s : State Site) : State Site × Bool :=
  match (s.site x).level with
  | none => initVLOG3 x .flagsV file verboseLevel s
  | some level => (s, decide (s.read level ≥ verboseLevel))

structure LevelUpdate where
  list : List VModuleInfo
  result : Int
  found : Bool

/-- The loop of `SetVLOGLevel` over `vmodule_list`. -/
def updateLevels (modulePattern : Text) (logLevel : Int) : List VModuleInfo → Int → Bool → LevelUpdate
  | [], result, found => ⟨[], result, found⟩
  | info :: rest, result, found =>
    if info.modulePattern = modulePattern then
      let update := updateLevels modulePattern logLevel rest (if found then result else info.vlogLevel) true
      { update with list := { info with vlogLevel := logLevel } :: update.list }
    else if ¬ found ∧ safeFNMatch info.modulePattern modulePattern then
      let update := updateLevels modulePattern logLevel rest info.vlogLevel true
      { update with list := info :: update.list }
    else
      let update := updateLevels modulePattern logLevel rest result found
      { update with list := info :: update.list }

/-- What `item_ptr` can point to. -/
inductive Link (Site : Type)
  | head
  | next (x : Site)
  deriving DecidableEq

def Link.load (s : State Site) : Link Site → Option Site
  | head => s.cachedSiteList
  | next x => (s.site x).next

def Link.store (item : Option Site) (s : State Site) : Link Site → State Site
  | head => { s with cachedSiteList := item }
  | next x => s.setSite x { s.site x with next := item }

/-- The loop of `SetVLOGLevel` over `cached_site_list`, for at most `fuel` items. -/
def redirect (modulePattern : Text) (address : Nat) : Nat → Link Site → Option Site → State Site → Option (State Site)
  | _, _, none, s => some s
  | 0, _, some _, _ => none
  | fuel + 1, itemPtr, some item, s =>
    if safeFNMatch modulePattern ((s.site item).baseName.getD []) then
      -- Redirect the cached value to its module override.
      let s := s.setSite item { s.site item with level := some (.vlogLevel address) }
      -- Remove the item from the list.
      let s := itemPtr.store (s.site item).next s
      redirect modulePattern address fuel itemPtr (itemPtr.load s) s
    else redirect modulePattern address fuel (.next item) ((Link.next item).load s) s

/-- What `SetVLOGLevel` does under the lock, and its result. -/
def setLevelLocked (fuel : Nat) (modulePattern : Text) (logLevel : Int) (s : State Site) : Option (State Site × Int) :=
  let update := updateLevels modulePattern logLevel s.vmoduleList s.flagsV false
  if update.found then some ({ s with vmoduleList := update.list }, update.result)
  else
    let info : VModuleInfo := ⟨s.nextAddress, modulePattern, logLevel⟩
    let s := { s with vmoduleList := info :: update.list, nextAddress := s.nextAddress + 1 }
    (redirect modulePattern info.address fuel .head s.cachedSiteList s).map fun s => (s, update.result)

/-- `SetVLOGLevel` ends with a `RAW_VLOG(1, ..)`, which is a site of its own. -/
def setVLOGLevel (fuel : Nat) (own : Site) (ownFile modulePattern : Text) (logLevel : Int) (s : State Site) :
    Option (State Site × Int) :=
  (setLevelLocked fuel modulePattern logLevel s).map fun r => ((vlogIsOn own ownFile 1 r.1).1, r.2)

end

end Glog.Vlog
