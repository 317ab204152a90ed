import Glog.Message.Delivery
import Glog.Message.Mutex
import Glog.Run.Guarded

/-! # Where messages are kept

The data of a message is in the storage of its thread, if that is available, or on the heap; that of a message that is
meant to end the program is in one of two static storages. Those of the thread and of the heap are constructed for each
message, the static ones are not. The messages are those of one thread.

What comes of a `log_mutex` that has been released twice is not defined. On Linux, where it is an rwlock, the next `Flush`
waits for it forever; elsewhere it may go on.

`own` is a ghost: the prefix of a message and what has been streamed into it. -/

namespace Glog.LogMessage
open LogFile Run

inductive Place
  | thread
  | heap (i : Nat)
  | exclusive
  | shared
  deriving DecidableEq

structure Message where
  id : Nat
  place : Place
  own : Text

/-- Bytes that are given to a file or to a terminal, and the text of the message at that time. -/
structure Delivery where
  own : Text
  bytes : Text
  deriving DecidableEq

structure Storage where
  threadDataAvailable : Bool
  fatalMsgExclusive : Bool
  allocated : Nat
  data : Place → LogMessageData
  created : Nat
  live : List Message
  delivered : List Delivery

namespace Storage

def setData (place : Place) (d : LogMessageData) (s : Storage) : Storage :=
  { s with data := fun q => if q = place then d else s.data q }

def find (id : Nat) (s : Storage) : Option Message := s.live.find? fun m => m.id == id

/-- `data_` of a new message. -/
def selectPlace (isStatic : Bool) (s : Storage) : Place :=
  if isStatic then if s.fatalMsgExclusive then .exclusive else .shared
  else if s.threadDataAvailable then .thread else .heap s.allocated

end Storage

/-- The last place is that of the byte before the array. -/
def placeBefore : Nat := 18446744073709551615

/-- That byte is the last one of `preserved_errno_`, which is set by `Init`: it is the same for all messages, since no
    error has a number that reaches it. -/
def setBefore (c : Char) (b : LogStreamBuf) : LogStreamBuf := ⟨setPlace placeBefore c b.text, b.pcount, b.room⟩

section
variable (before : Char)

/-- The constructor of a message: `text` is what a storage that is constructed contains. -/
def create (prefixFlags : PrefixFlags) (info : LogMessageInfo) (sendMethod : SendMethod) (pointer exitOnDfatal : Bool)
    (text : Nat → Char) (s : Storage) : Storage :=
  let isStatic := info.severity == .fatal && exitOnDfatal
  let place := s.selectPlace isStatic
  let buf := if isStatic then (s.data place).buf else .new text
  let d := init prefixFlags info sendMethod pointer (place == .exclusive) (setBefore before buf)
  { s.setData place d with
    threadDataAvailable := s.threadDataAvailable && place != .thread
    fatalMsgExclusive := s.fatalMsgExclusive && place != .exclusive
    allocated := if place = .heap s.allocated then s.allocated + 1 else s.allocated
    created := s.created + 1
    live := ⟨s.created, place, messagePrefix prefixFlags info ++ backtrace prefixFlags info⟩ :: s.live }

/-- The text of one message goes on. -/
def extendOwn (id : Nat) (l : Text) (m : Message) : Message := if m.id = id then { m with own := m.own ++ l } else m

def insertInto (id : Nat) (l : Text) (s : Storage) : Storage :=
  match s.find id with
  | none => s
  | some m =>
    { s.setData m.place (stream l (s.data m.place)) with
      live := s.live.map (extendOwn id l) }

/-- What a flush gives to the files and the terminal. -/
def deliveries (own : Text) (d : LogMessageData) (events : List Event) : List Delivery :=
  events.filterMap fun
    | .send r start length =>
      if r.takesLine && r != .email then some ⟨own, slice (edited d).buf.text start length⟩ else none
    | _ => none

def flushMessage (id : Nat) (flags : Flags) (throws : Event → Bool) (s : Storage) : Storage :=
  match s.find id with
  | none => s
  | some m =>
    let flushed := flush flags throws (s.data m.place)
    { s.setData m.place flushed.data with delivered := s.delivered ++ deliveries m.own (s.data m.place) flushed.events }

/-- Whether an exception leaves the flush of a message. -/
def throwsIn (id : Nat) (flags : Flags) (throws : Event → Bool) (s : Storage) : Bool :=
  match s.find id with
  | none => false
  | some m => (flush flags throws (s.data m.place)).thrown

/-- The object is gone; its storage is released. -/
def remove (id : Nat) (releases : Bool) (s : Storage) : Storage :=
  { s with
    threadDataAvailable := s.threadDataAvailable || releases && (s.find id).any fun m => m.place == .thread
    live := s.live.filter fun m => m.id != id }

/-- `~LogMessage`: what `Flush` throws is swallowed, but the storage is not released then. -/
def destroy (id : Nat) (flags : Flags) (throws : Event → Bool) (s : Storage) : Storage :=
  remove id (!throwsIn id flags throws s) (flushMessage id flags throws s)

inductive Op
  | create (prefixFlags : PrefixFlags) (info : LogMessageInfo) (sendMethod : SendMethod) (pointer exitOnDfatal : Bool)
      (text : Nat → Char)
  | insert (id : Nat) (l : Text)
  /-- `Flush`, which is also the first thing that `~LogMessageFatal` does. -/
  | flush (id : Nat) (flags : Flags) (throws : Event → Bool)
  /-- `~LogMessage`; in the derived classes it comes behind an insertion, or a flush and an exception. -/
  | destroy (id : Nat) (flags : Flags) (throws : Event → Bool)

/-- What an operation does that is not kept waiting. -/
def step (s : Storage) : Op → Storage
  | .create prefixFlags info sendMethod pointer exitOnDfatal text =>
    create before prefixFlags info sendMethod pointer exitOnDfatal text s
  | .insert id l => insertInto id l s
  | .flush id flags throws => flushMessage id flags throws s
  | .destroy id flags throws => destroy id flags throws s

end

/-! ### What a flush delivers -/

/-- The bytes that are delivered for a text; an empty one depends on the byte before the array. -/
def payload (before : Char) (l : Text) : Text := if l = [] ∧ before = '\n' then [] else withNewline l

section
variable {flags : Flags} {throws : Event → Bool} {d : LogMessageData} {before : Char}

theorem slice_edited_eq (h : d.buf.text placeBefore = before) :
    slice (edited d).buf.text 0 (edited d).numCharsToLog = payload before d.buf.stored := by
  by_cases hpos : 0 < d.buf.pcount
  · have hne : d.buf.stored ≠ [] := fun hempty => by rw [pcount_eq, hempty] at hpos; exact absurd hpos (Nat.lt_irrefl 0)
    rw [slice_edited_of_pos hpos, payload, if_neg fun h => hne h.1]
  · have hzero : d.buf.pcount = 0 := Nat.eq_zero_of_not_pos hpos
    have hempty : d.buf.stored = [] := List.length_eq_zero_iff.mp ((pcount_eq d.buf).symm.trans hzero)
    have hplace : lastPlace d = placeBefore := by
      rw [lastPlace, hzero]
      rfl
    rw [slice_edited, hempty, payload]
    by_cases hnewline : before = '\n'
    · rw [if_neg (by rw [appendNewline, hplace, h, hnewline]; decide), if_pos ⟨rfl, hnewline⟩]
    · rw [if_pos (by rw [appendNewline, hplace, h]; exact bne_iff_ne.mpr hnewline), if_neg fun h => hnewline h.2]
      rfl

theorem bytes_deliveries {own : Text} (h : d.buf.text placeBefore = before) {x : Delivery}
    (hx : x ∈ deliveries own d (flush flags throws d).events) : x.own = own ∧ x.bytes = payload before d.buf.stored := by
  obtain ⟨e, he, hsome⟩ := List.mem_filterMap.mp hx
  cases e with
  | send r start length =>
    dsimp only at hsome
    split at hsome
    · rename_i hr
      cases hsome
      refine ⟨rfl, ?_⟩
      cases part_of_send he with
      | line => exact slice_edited_eq h
      | body h' => cases r <;> cases hr <;> cases h'
      | syslog => cases hr
    · cases hsome
  | _ => cases hsome

theorem pcount_flush : (flush flags throws d).data.buf.pcount = d.buf.pcount := by
  unfold flush
  split
  · dsimp only
    split
    · rfl
    · unfold restored
      split <;> rfl
  · rfl

theorem stored_flush : (flush flags throws d).data.buf.stored = d.buf.stored := by
  rw [LogStreamBuf.stored, pcount_flush]
  exact slice_congr fun i _ hi => text_flush (by omega)

/-- Far behind the text nothing is written. -/
theorem before_flush : (flush flags throws d).data.buf.text placeBefore = d.buf.text placeBefore := by
  have hroom := d.buf.room
  rw [capacity_eq] at hroom
  have hend := @numCharsToLog_lt d
  rw [kMaxLogMessageLen] at hend
  have hplace : placeBefore = 18446744073709551615 := rfl
  have hedited : (edited d).buf.text placeBefore = d.buf.text placeBefore := by
    change setPlace (edited d).numCharsToLog '\x00' _ placeBefore = _
    rw [setPlace_ne (by omega)]
    split
    · exact setPlace_ne (by omega)
    · rfl
  unfold flush
  split
  · dsimp only
    split
    · exact hedited
    · unfold restored
      split
      · exact (setPlace_ne (by omega)).trans hedited
      · exact hedited
  · rfl

end

/-! ### Messages apart -/

/-- A storage holds a text, and nothing else. -/
structure Holds (before : Char) (own : Text) (d : LogMessageData) : Prop where
  stored : d.buf.stored = own.take capacity
  byteBefore : d.buf.text placeBefore = before

/-- A live message has its own storage, with its own text in it; a storage that is available is not in use. -/
structure Apart (before : Char) (s : Storage) : Prop where
  holds : ∀ m ∈ s.live, Holds before m.own (s.data m.place)
  places : ∀ m ∈ s.live, ∀ m' ∈ s.live, m.place = m'.place → m = m'
  ids : ∀ m ∈ s.live, ∀ m' ∈ s.live, m.id = m'.id → m = m'
  created : ∀ m ∈ s.live, m.id < s.created
  thread : s.threadDataAvailable = true → ∀ m ∈ s.live, m.place ≠ .thread
  exclusive : s.fatalMsgExclusive = true → (s.data .exclusive).buf.pcount = 0 ∧ ∀ m ∈ s.live, m.place ≠ .exclusive
  heap : ∀ m ∈ s.live, ∀ i, m.place = .heap i → i < s.allocated
  delivered : ∀ x ∈ s.delivered, x.bytes = payload before (x.own.take capacity)

/-- A message that gets the shared storage finds it empty, and not in use. -/
def FindsEmpty (s : Storage) : Op → Prop
  | .create _ info _ _ exitOnDfatal _ =>
    info.severity = .fatal → exitOnDfatal = true → s.fatalMsgExclusive = false →
      (s.data .shared).buf.pcount = 0 ∧ ∀ m ∈ s.live, m.place ≠ .shared
  | _ => True

instance (s : Storage) : ∀ op : Op, Decidable (FindsEmpty s op)
  | .create .. => inferInstanceAs (Decidable (_ → _ → _ → _))
  | .insert .. | .flush .. | .destroy .. => isTrue trivial

section
variable {before : Char} {own : Text} {d : LogMessageData} {s : Storage}

theorem Holds.stream (h : Holds before own d) (l : Text) : Holds before (own ++ l) (stream l d) where
  stored := by rw [LogMessage.stream, stored_insert, h.stored, take_append_take]
  byteBefore := (text_insert (by decide) l d.buf).trans h.byteBefore

theorem Holds.flush (h : Holds before own d) (flags : Flags) (throws : Event → Bool) :
    Holds before own (flush flags throws d).data where
  stored := stored_flush.trans h.stored
  byteBefore := before_flush.trans h.byteBefore

/-- In a stream that is empty the text of a new message is its prefix. -/
theorem holds_init {buf : LogStreamBuf} (hempty : buf.pcount = 0) (prefixFlags : PrefixFlags) (info : LogMessageInfo)
    (sendMethod : SendMethod) (pointer firstFatal : Bool) :
    Holds before (messagePrefix prefixFlags info ++ backtrace prefixFlags info)
      (init prefixFlags info sendMethod pointer firstFatal (setBefore before buf)) where
  stored := by
    have hnone : (setBefore before buf).stored = [] := List.length_eq_zero_iff.mp ((pcount_eq _).symm.trans hempty)
    rw [init, stored_insert, stored_insert, take_append_take, hnone, List.nil_append]
  byteBefore := by
    rw [init, text_insert (by decide), text_insert (by decide)]
    change setPlace placeBefore before buf.text placeBefore = before
    exact setPlace_self

namespace Storage

theorem data_setData {place : Place} : (s.setData place d).data place = d := if_pos rfl

theorem data_setData_ne {place q : Place} (h : q ≠ place) : (s.setData place d).data q = s.data q := if_neg h

theorem pcount_setData_ne {place q : Place} (h : q ≠ place) :
    ((s.setData place d).data q).buf.pcount = (s.data q).buf.pcount := by
  rw [data_setData_ne h]

theorem mem_of_find {id : Nat} {m : Message} (h : s.find id = some m) : m ∈ s.live ∧ m.id = id :=
  ⟨List.mem_of_find?_eq_some h, beq_iff_eq.mp (List.find?_some (p := fun m : Message => m.id == id) h)⟩

theorem allocated_of_selectPlace {isStatic : Bool} {i : Nat} (h : s.selectPlace isStatic = .heap i) : i = s.allocated := by
  unfold selectPlace at h
  split at h
  · split at h <;> cases h
  · split at h <;> cases h
    rfl

end Storage

theorem extendOwn_place (id : Nat) (l : Text) (m : Message) : (extendOwn id l m).place = m.place := by
  unfold extendOwn
  split <;> rfl

theorem extendOwn_id (id : Nat) (l : Text) (m : Message) : (extendOwn id l m).id = m.id := by
  unfold extendOwn
  split <;> rfl

end

namespace Apart
variable {before : Char} {s : Storage}

/-- The data of one message is changed. -/
theorem setData (h : Apart before s) {m : Message} (hm : m ∈ s.live) {d : LogMessageData} (hd : Holds before m.own d) :
    Apart before (s.setData m.place d) where
  holds m' hm' := by
    by_cases hplace : m'.place = m.place
    · obtain rfl := h.places m' hm' m hm hplace
      exact Storage.data_setData ▸ hd
    · rw [Storage.data_setData_ne hplace]
      exact h.holds m' hm'
  places := h.places
  ids := h.ids
  created := h.created
  thread := h.thread
  exclusive hfree := by
    obtain ⟨hempty, hunused⟩ := h.exclusive hfree
    exact ⟨(Storage.pcount_setData_ne (hunused m hm).symm).trans hempty, hunused⟩
  heap := h.heap
  delivered := h.delivered

theorem flushMessage (h : Apart before s) (id : Nat) (flags : Flags) (throws : Event → Bool) :
    Apart before (flushMessage id flags throws s) := by
  unfold LogMessage.flushMessage
  split
  · exact h
  · rename_i m hfind
    have hm := (Storage.mem_of_find hfind).1
    refine { h.setData hm ((h.holds m hm).flush flags throws) with delivered := fun x hx => ?_ }
    rcases List.mem_append.mp hx with hold | hnew
    · exact h.delivered x hold
    · obtain ⟨hown, hbytes⟩ := bytes_deliveries (h.holds m hm).byteBefore hnew
      rw [hbytes, hown, (h.holds m hm).stored]

theorem insertInto (h : Apart before s) (id : Nat) (l : Text) : Apart before (insertInto id l s) := by
  unfold LogMessage.insertInto
  split
  · exact h
  · rename_i m hfind
    obtain ⟨hm, hid⟩ := Storage.mem_of_find hfind
    have hback : ∀ {m₁}, m₁ ∈ s.live.map (extendOwn id l) →
        ∃ m₀ ∈ s.live, m₁ = extendOwn id l m₀ ∧ m₁.place = m₀.place ∧ m₁.id = m₀.id := by
      intro m₁ hm₁
      obtain ⟨m₀, hm₀, rfl⟩ := List.mem_map.mp hm₁
      exact ⟨m₀, hm₀, rfl, extendOwn_place id l m₀, extendOwn_id id l m₀⟩
    constructor
    · intro m₁ hm₁
      obtain ⟨m₀, hm₀, heq, hplace, -⟩ := hback hm₁
      change Holds before m₁.own ((s.setData m.place _).data m₁.place)
      rw [hplace, heq, extendOwn]
      by_cases hm₀id : m₀.id = id
      · obtain rfl := h.ids m₀ hm₀ m hm (hm₀id.trans hid.symm)
        rw [if_pos hm₀id, Storage.data_setData]
        exact (h.holds m₀ hm₀).stream l
      · have hother : m₀.place ≠ m.place := fun heq => hm₀id (h.places m₀ hm₀ m hm heq ▸ hid)
        rw [if_neg hm₀id, Storage.data_setData_ne hother]
        exact h.holds m₀ hm₀
    · intro m₁ hm₁ m₂ hm₂ hplaces
      obtain ⟨m₀, hm₀, rfl, hplace, -⟩ := hback hm₁
      obtain ⟨m₀', hm₀', rfl, hplace', -⟩ := hback hm₂
      rw [h.places m₀ hm₀ m₀' hm₀' (hplace.symm.trans (hplaces.trans hplace'))]
    · intro m₁ hm₁ m₂ hm₂ hids
      obtain ⟨m₀, hm₀, rfl, -, hid₁⟩ := hback hm₁
      obtain ⟨m₀', hm₀', rfl, -, hid₂⟩ := hback hm₂
      rw [h.ids m₀ hm₀ m₀' hm₀' (hid₁.symm.trans (hids.trans hid₂))]
    · intro m₁ hm₁
      obtain ⟨m₀, hm₀, -, -, hid₁⟩ := hback hm₁
      exact hid₁ ▸ h.created m₀ hm₀
    · intro hfree m₁ hm₁
      obtain ⟨m₀, hm₀, -, hplace, -⟩ := hback hm₁
      exact hplace ▸ h.thread hfree m₀ hm₀
    · intro hfree
      obtain ⟨hempty, hunused⟩ := h.exclusive hfree
      refine ⟨(Storage.pcount_setData_ne (hunused m hm).symm).trans hempty, fun m₁ hm₁ => ?_⟩
      obtain ⟨m₀, hm₀, -, hplace, -⟩ := hback hm₁
      exact hplace ▸ hunused m₀ hm₀
    · intro m₁ hm₁ i hheap
      obtain ⟨m₀, hm₀, -, hplace, -⟩ := hback hm₁
      exact h.heap m₀ hm₀ i (hplace.symm.trans hheap)
    · exact h.delivered

theorem remove (h : Apart before s) (id : Nat) (releases : Bool) : Apart before (remove id releases s) := by
  have hsub : ∀ {m}, m ∈ (LogMessage.remove id releases s).live → m ∈ s.live ∧ m.id ≠ id := fun hm => by
    obtain ⟨hmem, hne⟩ := List.mem_filter.mp hm
    exact ⟨hmem, bne_iff_ne.mp hne⟩
  exact {
    holds := fun m hm => h.holds m (hsub hm).1
    places := fun m hm m' hm' => h.places m (hsub hm).1 m' (hsub hm').1
    ids := fun m hm m' hm' => h.ids m (hsub hm).1 m' (hsub hm').1
    created := fun m hm => h.created m (hsub hm).1
    thread := fun hfree m hm hthread => by
      obtain ⟨hmem, hne⟩ := hsub hm
      rcases Bool.or_eq_true_iff.mp hfree with hfree | hreleased
      · exact h.thread hfree m hmem hthread
      · -- The storage of the thread was that of the message that is removed.
        obtain ⟨-, hgone⟩ := Bool.and_eq_true_iff.mp hreleased
        cases hfind : s.find id with
        | none =>
          rw [hfind] at hgone
          cases hgone
        | some gone =>
          rw [hfind] at hgone
          have hplace : gone.place = .thread := beq_iff_eq.mp hgone
          obtain ⟨hgoneLive, hgoneId⟩ := Storage.mem_of_find hfind
          exact hne (h.places m hmem gone hgoneLive (hthread.trans hplace.symm) ▸ hgoneId)
    exclusive := fun hfree => ⟨(h.exclusive hfree).1, fun m hm => (h.exclusive hfree).2 m (hsub hm).1⟩
    heap := fun m hm => h.heap m (hsub hm).1
    delivered := h.delivered }

/-- The storage that is selected is not in use, and if it is static its stream is empty. -/
theorem selected (h : Apart before s) {isStatic : Bool}
    (hempty : isStatic = true → s.fatalMsgExclusive = false → (s.data .shared).buf.pcount = 0 ∧ ∀ m ∈ s.live,
      m.place ≠ .shared) :
    (∀ m ∈ s.live, m.place ≠ s.selectPlace isStatic) ∧
      (isStatic = true → (s.data (s.selectPlace isStatic)).buf.pcount = 0) := by
  unfold Storage.selectPlace
  cases isStatic with
  | false =>
    refine ⟨fun m hm => ?_, nofun⟩
    rw [if_neg nofun]
    split
    · rename_i hfree
      exact h.thread hfree m hm
    · exact fun hplace => absurd (h.heap m hm _ hplace) (Nat.lt_irrefl _)
  | true =>
    rw [if_pos rfl]
    split
    · rename_i hfree
      obtain ⟨hpcount, hunused⟩ := h.exclusive hfree
      exact ⟨hunused, fun _ => hpcount⟩
    · rename_i htaken
      obtain ⟨hpcount, hunused⟩ := hempty rfl (Bool.eq_false_iff.mpr htaken)
      exact ⟨hunused, fun _ => hpcount⟩

/-- A new message in a storage that is not in use. -/
theorem add (h : Apart before s) {place : Place} {own : Text} {d : LogMessageData} (hd : Holds before own d)
    (hunused : ∀ m ∈ s.live, m.place ≠ place) (hheap : ∀ i, place = .heap i → i = s.allocated) :
    Apart before { s.setData place d with
      threadDataAvailable := s.threadDataAvailable && place != .thread
      fatalMsgExclusive := s.fatalMsgExclusive && place != .exclusive
      allocated := if place = .heap s.allocated then s.allocated + 1 else s.allocated
      created := s.created + 1
      live := ⟨s.created, place, own⟩ :: s.live } := by
  constructor
  · intro m hm
    change Holds before m.own ((s.setData place d).data m.place)
    rcases List.mem_cons.mp hm with rfl | hold
    · rw [Storage.data_setData]
      exact hd
    · rw [Storage.data_setData_ne (hunused m hold)]
      exact h.holds m hold
  · intro m hm m' hm' hplaces
    rcases List.mem_cons.mp hm with rfl | hold <;> rcases List.mem_cons.mp hm' with rfl | hold'
    · rfl
    · exact absurd hplaces.symm (hunused m' hold')
    · exact absurd hplaces (hunused m hold)
    · exact h.places m hold m' hold' hplaces
  · intro m hm m' hm' hids
    rcases List.mem_cons.mp hm with rfl | hold <;> rcases List.mem_cons.mp hm' with rfl | hold'
    · rfl
    · exact absurd hids.symm (Nat.ne_of_lt (h.created m' hold'))
    · exact absurd hids (Nat.ne_of_lt (h.created m hold))
    · exact h.ids m hold m' hold' hids
  · intro m hm
    rcases List.mem_cons.mp hm with rfl | hold
    · exact Nat.lt_succ_self _
    · exact Nat.lt_succ_of_lt (h.created m hold)
  · intro hfree m hm
    obtain ⟨hfree', hplace⟩ := Bool.and_eq_true_iff.mp hfree
    rcases List.mem_cons.mp hm with rfl | hold
    · exact bne_iff_ne.mp hplace
    · exact h.thread hfree' m hold
  · intro hfree
    obtain ⟨hfree', hplace⟩ := Bool.and_eq_true_iff.mp hfree
    obtain ⟨hpcount, hothers⟩ := h.exclusive hfree'
    refine ⟨(Storage.pcount_setData_ne (bne_iff_ne.mp hplace).symm).trans hpcount, fun m hm => ?_⟩
    rcases List.mem_cons.mp hm with rfl | hold
    · exact bne_iff_ne.mp hplace
    · exact hothers m hold
  · intro m hm i hplace
    dsimp only
    rcases List.mem_cons.mp hm with rfl | hold
    · have hi := hheap i hplace
      have hnew : place = .heap s.allocated := hi ▸ hplace
      rw [if_pos hnew, hi]
      exact Nat.lt_succ_self _
    · have hlt := h.heap m hold i hplace
      split
      · exact Nat.lt_succ_of_lt hlt
      · exact hlt
  · exact h.delivered

theorem create (h : Apart before s) {prefixFlags : PrefixFlags} {info : LogMessageInfo} {sendMethod : SendMethod}
    {pointer exitOnDfatal : Bool} {text : Nat → Char}
    (hempty : FindsEmpty s (.create prefixFlags info sendMethod pointer exitOnDfatal text)) :
    Apart before (create before prefixFlags info sendMethod pointer exitOnDfatal text s) := by
  unfold LogMessage.create
  dsimp only
  obtain ⟨hunused, hpcount⟩ := @Apart.selected before s h (info.severity == .fatal && exitOnDfatal) fun hstatic =>
    hempty (beq_iff_eq.mp (Bool.and_eq_true_iff.mp hstatic).1) (Bool.and_eq_true_iff.mp hstatic).2
  refine h.add (holds_init ?_ prefixFlags info sendMethod pointer _) hunused fun i => Storage.allocated_of_selectPlace
  split
  · rename_i hstatic
    exact hpcount hstatic
  · rfl

theorem step (h : Apart before s) (op : Op) (hempty : FindsEmpty s op) : Apart before (step before s op) := by
  cases op with
  | create => exact h.create hempty
  | insert id l => exact h.insertInto id l
  | flush id flags throws => exact h.flushMessage id flags throws
  | destroy id flags throws => exact (h.flushMessage id flags throws).remove id _

end Apart

/-! ### The mutex -/

/-- The static storages have been constructed. -/
def start : Storage where
  threadDataAvailable := true
  fatalMsgExclusive := true
  allocated := 0
  data _ := init plainPrefixFlags (plainInfo .info) .sendToLog false false (.new fun _ => '\x00')
  created := 0
  live := []
  delivered := []

/-- Whether an operation calls `Flush` for a message that `how` holds of. -/
def Storage.flushes (how : Flags → (Event → Bool) → LogMessageData → Bool) (s : Storage) : Op → Bool
  | .flush id flags throws | .destroy id flags throws => (s.find id).any fun m => how flags throws (s.data m.place)
  | .create .. | .insert .. => false

/-- The storages of a thread, and `log_mutex`. -/
structure Log where
  storage : Storage
  /-- The mutex has been released once too often. -/
  overReleased : Bool
  /-- A `Flush` waits for the mutex forever. -/
  waits : Bool

/-- An operation of the thread; `acquires` tells whether a mutex that has been released too often can still be had. -/
structure Step where
  op : Op
  acquires : Bool

namespace Log

def step (before : Char) (l : Log) (x : Step) : Log :=
  if l.waits then l
  else if l.overReleased ∧ l.storage.flushes (fun flags _ d => isDue flags d) x.op ∧ ¬ x.acquires then
    { l with waits := true }
  else
    { l with
      storage := LogMessage.step before l.storage x.op
      overReleased := l.overReleased || l.storage.flushes releasesTwice x.op }

def start : Log := ⟨LogMessage.start, false, false⟩

/-- An operation that is done finds the shared storage empty, if it gets that. -/
def FindsEmpty (l : Log) (x : Step) : Prop := l.waits = false → LogMessage.FindsEmpty l.storage x.op

instance (l : Log) (x : Step) : Decidable (l.FindsEmpty x) := inferInstanceAs (Decidable (_ → _))

end Log

/-! ### Runs -/

/-- What is delivered for a message is a function of its own text. -/
def Isolated (f : Text → Text) (s : Storage) : Prop := ∀ x ∈ s.delivered, x.bytes = f x.own

theorem apart_start {before : Char} : Apart before start where
  holds := nofun
  places := nofun
  ids := nofun
  created := nofun
  thread := nofun
  exclusive _ := ⟨rfl, nofun⟩
  heap := nofun
  delivered := nofun

theorem Apart.log_step {before : Char} {l : Log} (h : Apart before l.storage) {x : Step} (hempty : l.FindsEmpty x) :
    Apart before (l.step before x).storage := by
  unfold Log.step
  split
  · exact h
  · rename_i hwaits
    split
    · exact h
    · exact h.step x.op (hempty (Bool.eq_false_iff.mpr hwaits))

/-- In every run in which the shared storage is found empty, messages are isolated. -/
theorem isolated_of_findsEmpty {before : Char} {l : Log} (hrun : Reaches (Log.step before) Log.FindsEmpty .start l) :
    Isolated (fun own => payload before (own.take capacity)) l.storage := by
  have hapart : Apart before l.storage :=
    hrun.invariant (I := fun l => Apart before l.storage) apart_start fun t x h hok => h.log_step hok
  exact hapart.delivered

/-- A message is constructed, filled and destroyed, on a system where a `Flush` may wait forever. -/
def message (severity : Severity) (sendMethod : SendMethod) (pointer : Bool) (id : Nat) (text : Text) : List Step :=
  [⟨.create plainPrefixFlags (plainInfo severity) sendMethod pointer true fun _ => ' ', false⟩, ⟨.insert id text, false⟩,
    ⟨.destroy id plainFlags fun _ => false, false⟩]

/-- A message within another one, and two fatal ones: one that is kept in a vector, and then one that is logged. -/
def nested : List Step :=
  [⟨.create plainPrefixFlags (plainInfo .warning) .sendToLog false true fun _ => ' ', false⟩, ⟨.insert 0 ['w'], false⟩] ++
    message .info .sendToLog false 1 ['i'] ++ [⟨.destroy 0 plainFlags fun _ => false, false⟩] ++
    message .fatal .saveOrSendToLog true 2 ['b'] ++ message .fatal .sendToLog false 3 ['a']

theorem isolated_nested :
    Isolated (fun own => payload ' ' (own.take capacity)) (nested.foldl (Log.step ' ') .start).storage := by
  have hempty : Each (Log.step ' ') Log.FindsEmpty .start nested := by decide +kernel
  exact isolated_of_findsEmpty hempty.reaches

example : (nested.foldl (Log.step ' ') .start).storage.delivered.map Delivery.bytes =
    [['i', '\n'], ['w', '\n'], ['w', '\n']] ++ List.replicate 4 ['a', '\n'] := by decide +kernel

/-- What a fatal message that is kept in a vector leaves behind is delivered with the next one. -/
theorem not_isolated : ¬ ∃ f : Text → Text, ∀ xs : List Step, Isolated f (xs.foldl (Log.step ' ') .start).storage := by
  rintro ⟨f, hf⟩
  have halone := hf (message .fatal .sendToLog false 0 ['b']) ⟨['b'], ['b', '\n']⟩ (by decide)
  have hbehind := hf (message .fatal .saveOrSendToLog true 0 ['b'] ++ message .fatal .saveOrSendToLog true 1 ['a'] ++
    message .fatal .sendToLog false 2 ['b']) ⟨['b'], ['a', 'b', '\n']⟩ (by decide)
  exact absurd (halone.trans hbehind.symm) (by decide)

end Glog.LogMessage
