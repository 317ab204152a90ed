import Glog.Message.Storage

/-! # Who owns the storage of a thread

The calls of one thread, nested: while a message is constructed, filled, flushed or destroyed, code of the user may run
that logs itself. A message takes its storage when its constructor begins, and gives it back when its destructor ends.
A call that waits for `log_mutex` forever is one that does not end.

`deleted` is a ghost: the data on the heap that has been given back. -/

namespace Glog.LogMessage
open LogFile Run

structure Thread where
  storage : Storage
  deleted : List Nat
  /-- The calls that have not ended, the innermost one first. -/
  calls : List Op

inductive Input
  | enter (op : Op)
  /-- The innermost call ends. -/
  | leave

/-- Those that take effect when they begin. -/
def Op.atOnce : Op → Bool
  | .create .. | .insert .. => true
  | .flush .. | .destroy .. => false

namespace Storage

/-- What a destructor deletes: `allocated_`, which is null where the storage is not on the heap. -/
def deletes (s : Storage) : Op → List Nat
  | .destroy id flags throws =>
    match s.find id with
    | some ⟨_, .heap i, _⟩ => if throwsIn id flags throws s then [] else [i]
    | _ => []
  | _ => []

/-- How many live messages are in a storage. -/
def users (place : Place) (s : Storage) : Nat := s.live.countP fun m => m.place == place

end Storage

section
variable (before : Char)

def Thread.setCalls (calls : List Op) (t : Thread) : Thread := { t with calls := calls }

/-- A call takes effect. -/
def Thread.perform (op : Op) (t : Thread) : Thread :=
  { t with storage := step before t.storage op, deleted := t.deleted ++ t.storage.deletes op }

def Thread.step (t : Thread) : Input → Thread
  | .enter op => (if op.atOnce then t.perform before op else t).setCalls (op :: t.calls)
  | .leave =>
    match t.calls with
    | [] => t
    | op :: calls => (if op.atOnce then t else t.perform before op).setCalls calls

end

def Thread.start : Thread := ⟨LogMessage.start, [], []⟩

/-- The storage of the thread is available exactly if no live message is in it, there is at most one, and what is
    allocated is either that of one live message or has been deleted once. -/
structure Owned (t : Thread) : Prop where
  available : t.storage.threadDataAvailable = true ↔ t.storage.users .thread = 0
  alone : t.storage.users .thread ≤ 1
  deletedOnce : ∀ i < t.storage.allocated, t.deleted.count i + t.storage.users (.heap i) = 1

/-- A destructor gives the storage back: no sink throws while the destructor waits for it to have sent the message. -/
def Returns (s : Storage) : Op → Prop
  | .destroy id flags throws => ∀ m, s.find id = some m → m.place ≠ .exclusive → m.place ≠ .shared →
      isDue flags (s.data m.place) = true → ∀ e ∈ waitForSinks flags (s.data m.place) true, e.stops throws = false
  | _ => True

def Thread.Gives (t : Thread) : Input → Prop
  | .enter _ => True
  | .leave => ∀ op ∈ t.calls.head?, Returns t.storage op

/-! ### Messages and their places -/

namespace Storage

/-- The live messages by number, with their places. -/
def owners (s : Storage) : List (Nat × Place) := s.live.map fun m => (m.id, m.place)

end Storage

section
variable {before : Char} {s : Storage} {id : Nat} {flags : Flags} {throws : Event → Bool} {place : Place} {m : Message}

theorem users_eq (place : Place) (s : Storage) : s.users place = s.owners.countP fun x => x.2 == place := by
  rw [Storage.owners, List.countP_map]
  rfl

theorem mem_owners (h : s.find id = some m) : (id, m.place) ∈ s.owners := by
  obtain ⟨hm, rfl⟩ := Storage.mem_of_find h
  exact List.mem_map_of_mem hm

theorem not_mem_owners (h : s.find id = none) : ∀ x ∈ s.owners, x.1 ≠ id := by
  intro x hx heq
  obtain ⟨m, hm, rfl⟩ := List.mem_map.mp hx
  exact List.find?_eq_none.mp h m hm (beq_iff_eq.mpr heq)

/-- An insertion changes data and texts only. -/
theorem insertInto_eq (id : Nat) (l : Text) (s : Storage) :
    ∃ data live, insertInto id l s = { s with data := data, live := live } ∧
    live.map (fun m => (m.id, m.place)) = s.owners := by
  unfold insertInto
  split
  · exact ⟨s.data, s.live, rfl, rfl⟩
  · refine ⟨_, _, rfl, ?_⟩
    have hkept : ((fun m : Message => (m.id, m.place)) ∘ extendOwn id l) = fun m => (m.id, m.place) :=
      funext fun m => Prod.ext (extendOwn_id id l m) (extendOwn_place id l m)
    rw [List.map_map, hkept]
    rfl

/-- A flush changes data and what has been delivered only. -/
theorem flushMessage_eq (id : Nat) (flags : Flags) (throws : Event → Bool) (s : Storage) :
    ∃ data delivered, flushMessage id flags throws s = { s with data := data, delivered := delivered } := by
  unfold flushMessage
  split
  · exact ⟨s.data, s.delivered, rfl⟩
  · exact ⟨_, _, rfl⟩

theorem owners_remove (id : Nat) (releases : Bool) (s : Storage) :
    (remove id releases s).owners = s.owners.filter fun x => x.1 != id := by
  rw [Storage.owners, Storage.owners, List.filter_map]
  rfl

/-- One message less. -/
theorem countP_filter_ne {l : List (Nat × Place)} (hids : (l.map Prod.fst).Nodup) (hmem : (id, place) ∈ l)
    (p : Nat × Place → Bool) :
    (l.filter fun x => x.1 != id).countP p + (if p (id, place) then 1 else 0) = l.countP p := by
  induction l with
  | nil => cases hmem
  | cons x l ih =>
    obtain ⟨hfresh, hids⟩ := List.nodup_cons.mp hids
    rw [List.countP_cons]
    rcases List.mem_cons.mp hmem with rfl | hrest
    · have hothers : ∀ y ∈ l, (y.1 != id) = true := fun y hy =>
        bne_iff_ne.mpr fun heq => hfresh (List.mem_map.mpr ⟨y, hy, heq⟩)
      have hself : ¬ (id != id) = true := by rw [bne_self_eq_false]; exact Bool.false_ne_true
      rw [List.filter_cons, if_neg hself, List.filter_eq_self.mpr hothers]
    · have hne : (x.1 != id) = true := bne_iff_ne.mpr fun heq => hfresh (List.mem_map.mpr ⟨_, hrest, heq.symm⟩)
      rw [List.filter_cons, if_pos hne, List.countP_cons, Nat.add_right_comm, ih hids hrest]

/-- What does not depend on who owns the storage: the numbers of messages, and of what is on the heap, are new. -/
structure Numbered (t : Thread) : Prop where
  ids : (t.storage.owners.map Prod.fst).Nodup
  created : ∀ x ∈ t.storage.owners, x.1 < t.storage.created
  heap : ∀ x ∈ t.storage.owners, ∀ i, x.2 = .heap i → i < t.storage.allocated
  deleted : ∀ i ∈ t.deleted, i < t.storage.allocated

/-! ### What the calls do -/

/-- Two states in which the same messages have the same storage. -/
structure SameOwners (t t' : Thread) : Prop where
  owners : t'.storage.owners = t.storage.owners
  available : t'.storage.threadDataAvailable = t.storage.threadDataAvailable
  allocated : t'.storage.allocated = t.storage.allocated
  created : t'.storage.created = t.storage.created
  deleted : t'.deleted = t.deleted

variable {t t' : Thread}

theorem Numbered.congr (h : Numbered t) (hsame : SameOwners t t') : Numbered t' := by
  constructor
  · rw [hsame.owners]
    exact h.ids
  · rw [hsame.owners, hsame.created]
    exact h.created
  · rw [hsame.owners, hsame.allocated]
    exact h.heap
  · rw [hsame.deleted, hsame.allocated]
    exact h.deleted

theorem SameOwners.users (h : SameOwners t t') (place : Place) : t'.storage.users place = t.storage.users place := by
  rw [users_eq, users_eq, h.owners]

theorem owned_congr (h : SameOwners t t') : Owned t' ↔ Owned t := by
  have hfields : Owned t' ↔ (t'.storage.threadDataAvailable = true ↔ t'.storage.users .thread = 0) ∧
      t'.storage.users .thread ≤ 1 ∧
      ∀ i < t'.storage.allocated, t'.deleted.count i + t'.storage.users (.heap i) = 1 :=
    ⟨fun h => ⟨h.available, h.alone, h.deletedOnce⟩, fun h => ⟨h.1, h.2.1, h.2.2⟩⟩
  rw [hfields, h.available, h.users, h.allocated, h.deleted]
  simp only [h.users]
  exact ⟨fun h => ⟨h.1, h.2.1, h.2.2⟩, fun h => ⟨h.available, h.alone, h.deletedOnce⟩⟩

theorem sameOwners_insert (l : Text) : SameOwners t (t.perform before (.insert id l)) := by
  obtain ⟨data, live, heq, howners⟩ := insertInto_eq id l t.storage
  have hperform : t.perform before (.insert id l) =
      { t with storage := { t.storage with data := data, live := live }, deleted := t.deleted ++ [] } :=
    congrArg (fun s => { t with storage := s, deleted := t.deleted ++ [] }) heq
  rw [hperform, List.append_nil]
  exact ⟨howners, rfl, rfl, rfl, rfl⟩

theorem sameOwners_flush : SameOwners t (t.perform before (.flush id flags throws)) := by
  obtain ⟨data, delivered, heq⟩ := flushMessage_eq id flags throws t.storage
  have hperform : t.perform before (.flush id flags throws) =
      { t with storage := { t.storage with data := data, delivered := delivered }, deleted := t.deleted ++ [] } :=
    congrArg (fun s => { t with storage := s, deleted := t.deleted ++ [] }) heq
  rw [hperform, List.append_nil]
  exact ⟨rfl, rfl, rfl, rfl, rfl⟩

/-! ### Constructors -/

/-- A new message is in a place. -/
structure Adds (place : Place) (t t' : Thread) : Prop where
  owners : t'.storage.owners = (t.storage.created, place) :: t.storage.owners
  available : t'.storage.threadDataAvailable = (t.storage.threadDataAvailable && place != .thread)
  allocated : t'.storage.allocated = if place = .heap t.storage.allocated then t.storage.allocated + 1
    else t.storage.allocated
  created : t'.storage.created = t.storage.created + 1
  deleted : t'.deleted = t.deleted

theorem adds_create (prefixFlags : PrefixFlags) (info : LogMessageInfo) (sendMethod : SendMethod)
    (pointer exitOnDfatal : Bool)
    (text : Nat → Char) : Adds (t.storage.selectPlace (info.severity == .fatal && exitOnDfatal)) t
      (t.perform before (.create prefixFlags info sendMethod pointer exitOnDfatal text)) :=
  ⟨rfl, rfl, rfl, rfl, List.append_nil _⟩

theorem selectPlace_cases (s : Storage) (isStatic : Bool) :
    s.selectPlace isStatic = .thread ∧ s.threadDataAvailable = true ∨
      s.selectPlace isStatic = .heap s.allocated ∧ s.threadDataAvailable = false ∨
        s.selectPlace isStatic = .exclusive ∨ s.selectPlace isStatic = .shared := by
  unfold Storage.selectPlace
  cases isStatic with
  | false =>
    rw [if_neg Bool.false_ne_true]
    cases s.threadDataAvailable with
    | true => exact Or.inl ⟨rfl, rfl⟩
    | false => exact Or.inr (Or.inl ⟨rfl, rfl⟩)
  | true =>
    rw [if_pos rfl]
    cases s.fatalMsgExclusive with
    | true => exact Or.inr (Or.inr (Or.inl rfl))
    | false => exact Or.inr (Or.inr (Or.inr rfl))

theorem Numbered.adds (h : Numbered t) (hadds : Adds place t t') (hheap : ∀ i, place = .heap i → i = t.storage.allocated) :
    Numbered t' := by
  have hmore : t.storage.allocated ≤ t'.storage.allocated := by
    rw [hadds.allocated]
    split
    · exact Nat.le_succ _
    · exact Nat.le_refl _
  constructor
  · rw [hadds.owners, List.map_cons]
    refine List.nodup_cons.mpr ⟨fun hmem => ?_, h.ids⟩
    obtain ⟨x, hx, heq⟩ := List.mem_map.mp hmem
    exact Nat.lt_irrefl _ (heq ▸ h.created x hx)
  · rw [hadds.owners, hadds.created]
    intro x hx
    rcases List.mem_cons.mp hx with rfl | hold
    · exact Nat.lt_succ_self _
    · exact Nat.lt_succ_of_lt (h.created x hold)
  · rw [hadds.owners]
    intro x hx i hplace
    rcases List.mem_cons.mp hx with rfl | hold
    · obtain rfl : i = t.storage.allocated := hheap i hplace
      rw [hadds.allocated, if_pos hplace]
      exact Nat.lt_succ_self _
    · exact Nat.lt_of_lt_of_le (h.heap x hold i hplace) hmore
  · rw [hadds.deleted]
    exact fun i hi => Nat.lt_of_lt_of_le (h.deleted i hi) hmore

theorem Adds.users (h : Adds place t t') (q : Place) :
    t'.storage.users q = t.storage.users q + if place = q then 1 else 0 := by
  rw [users_eq, users_eq, h.owners, List.countP_cons]
  simp only [beq_iff_eq]

/-- What is not allocated is not in use, and has not been deleted. -/
theorem Numbered.fresh (h : Numbered t) :
    t.deleted.count t.storage.allocated = 0 ∧ t.storage.users (.heap t.storage.allocated) = 0 := by
  refine ⟨List.count_eq_zero.mpr fun hmem => Nat.lt_irrefl _ (h.deleted _ hmem), ?_⟩
  rw [users_eq]
  refine List.countP_eq_zero.mpr fun x hx heq => ?_
  exact Nat.lt_irrefl _ (h.heap x hx _ (beq_iff_eq.mp heq))

theorem Owned.adds (h : Owned t) (hn : Numbered t) (hadds : Adds place t t')
    (hplace : place = .thread ∧ t.storage.threadDataAvailable = true ∨
      place = .heap t.storage.allocated ∧ t.storage.threadDataAvailable = false ∨ place = .exclusive ∨ place = .shared) :
    Owned t' := by
  have hother (q : Place) (hne : place ≠ q) : t'.storage.users q = t.storage.users q := by
    rw [hadds.users, if_neg hne, Nat.add_zero]
  rcases hplace with ⟨rfl, hfree⟩ | ⟨rfl, htaken⟩ | hstatic
  · have hone : t'.storage.users .thread = 1 := by rw [hadds.users, if_pos rfl, h.available.mp hfree]
    have hgone : t'.storage.threadDataAvailable = false := by rw [hadds.available, hfree]; rfl
    have hallocated : t'.storage.allocated = t.storage.allocated := by rw [hadds.allocated, if_neg nofun]
    refine ⟨?_, Nat.le_of_eq hone, fun i hi => ?_⟩
    · rw [hgone, hone]
      exact ⟨nofun, nofun⟩
    · rw [hadds.deleted, hother (.heap i) nofun]
      exact h.deletedOnce i (hallocated ▸ hi)
  · have hallocated : t'.storage.allocated = t.storage.allocated + 1 := by rw [hadds.allocated, if_pos rfl]
    refine ⟨?_, ?_, fun i hi => ?_⟩
    · rw [hadds.available, hother .thread nofun, ← h.available, htaken, Bool.false_and]
    · rw [hother .thread nofun]
      exact h.alone
    · rw [hadds.deleted]
      rcases Nat.lt_succ_iff_lt_or_eq.mp (hallocated ▸ hi) with hlt | rfl
      · rw [hother (.heap i) fun heq => Nat.ne_of_gt hlt (Place.heap.inj heq)]
        exact h.deletedOnce i hlt
      · rw [hadds.users, if_pos rfl, hn.fresh.1, hn.fresh.2]
  · have hthread : place ≠ .thread := by rcases hstatic with rfl | rfl <;> exact nofun
    have hheap (i : Nat) : place ≠ .heap i := by rcases hstatic with rfl | rfl <;> exact nofun
    refine ⟨?_, ?_, fun i hi => ?_⟩
    · rw [hadds.available, hother .thread hthread, ← h.available, bne_iff_ne.mpr hthread, Bool.and_true]
    · rw [hother .thread hthread]
      exact h.alone
    · rw [hadds.deleted, hother (.heap i) (hheap i)]
      rw [hadds.allocated, if_neg (hheap _)] at hi
      exact h.deletedOnce i hi

/-! ### Destructors -/

/-- What is deleted with a message whose destructor gives the storage back. -/
def given (returned : Bool) : Place → List Nat
  | .heap i => if returned then [i] else []
  | .thread | .exclusive | .shared => []

/-- The message with a number is gone from its place. -/
structure Removes (id : Nat) (place : Place) (returned : Bool) (t t' : Thread) : Prop where
  owners : t'.storage.owners = t.storage.owners.filter fun x => x.1 != id
  available : t'.storage.threadDataAvailable = (t.storage.threadDataAvailable || returned && place == .thread)
  allocated : t'.storage.allocated = t.storage.allocated
  created : t'.storage.created = t.storage.created
  deleted : t'.deleted = t.deleted ++ given returned place

theorem destroy_eq (id : Nat) (flags : Flags) (throws : Event → Bool) (s : Storage) : ∃ data delivered,
    destroy id flags throws s =
      { s with
        data := data
        delivered := delivered
        threadDataAvailable := s.threadDataAvailable || !throwsIn id flags throws s && (s.find id).any fun m =>
          m.place == .thread
        live := s.live.filter fun m => m.id != id } := by
  obtain ⟨data, delivered, heq⟩ := flushMessage_eq id flags throws s
  refine ⟨data, delivered, ?_⟩
  rw [destroy, heq]
  rfl

theorem sameOwners_destroy (h : t.storage.find id = none) : SameOwners t (t.perform before (.destroy id flags throws)) := by
  obtain ⟨data, delivered, heq⟩ := destroy_eq id flags throws t.storage
  have hstorage : (t.perform before (.destroy id flags throws)).storage = _ := heq
  constructor
  · rw [hstorage]
    change Storage.owners (remove id true t.storage) = _
    rw [owners_remove]
    exact List.filter_eq_self.mpr fun x hx => bne_iff_ne.mpr (not_mem_owners h x hx)
  · rw [hstorage, h]
    change (_ || (_ && false)) = _
    rw [Bool.and_false, Bool.or_false]
  · rw [hstorage]
  · rw [hstorage]
  · change t.deleted ++ t.storage.deletes (.destroy id flags throws) = t.deleted
    rw [Storage.deletes, h]
    exact List.append_nil _

theorem removes_destroy (h : t.storage.find id = some m) :
    Removes id m.place (!throwsIn id flags throws t.storage) t (t.perform before (.destroy id flags throws)) := by
  obtain ⟨data, delivered, heq⟩ := destroy_eq id flags throws t.storage
  have hstorage : (t.perform before (.destroy id flags throws)).storage = _ := heq
  constructor
  · rw [hstorage]
    exact owners_remove id true t.storage
  · rw [hstorage, h]
    rfl
  · rw [hstorage]
  · rw [hstorage]
  · change t.deleted ++ t.storage.deletes (.destroy id flags throws) = _
    obtain ⟨number, place, own⟩ := m
    rw [Storage.deletes, h]
    cases place with
    | heap i => cases throwsIn id flags throws t.storage <;> rfl
    | _ => rfl

variable {returned : Bool}

theorem Removes.users (h : Removes id place returned t t') (hn : Numbered t)
    (hmem : (id, place) ∈ t.storage.owners) (q : Place) :
    t'.storage.users q + (if place = q then 1 else 0) = t.storage.users q := by
  have hcount := countP_filter_ne hn.ids hmem fun x => x.2 == q
  rw [users_eq, users_eq, h.owners, ← hcount]
  simp only [beq_iff_eq]

theorem Numbered.removes (h : Numbered t) (hremoves : Removes id place returned t t')
    (hmem : (id, place) ∈ t.storage.owners) :
    Numbered t' := by
  have hsub {x : Nat × Place} (hx : x ∈ t'.storage.owners) : x ∈ t.storage.owners := by
    rw [hremoves.owners] at hx
    exact (List.mem_filter.mp hx).1
  constructor
  · rw [hremoves.owners]
    exact h.ids.sublist (List.filter_sublist.map _)
  · rw [hremoves.created]
    exact fun x hx => h.created x (hsub hx)
  · rw [hremoves.allocated]
    exact fun x hx => h.heap x (hsub hx)
  · rw [hremoves.deleted, hremoves.allocated]
    intro i hi
    rcases List.mem_append.mp hi with hold | hnew
    · exact h.deleted i hold
    · cases place with
      | heap j =>
        cases returned with
        | true => exact List.mem_singleton.mp hnew ▸ h.heap _ hmem j rfl
        | false => cases hnew
      | _ => cases hnew

theorem Removes.users_ne (h : Removes id place returned t t') (hn : Numbered t)
    (hmem : (id, place) ∈ t.storage.owners) (q : Place)
    (hne : place ≠ q) : t'.storage.users q = t.storage.users q := by
  rw [← h.users hn hmem q, if_neg hne, Nat.add_zero]

theorem owned_removes_thread_iff (h : Owned t) (hn : Numbered t) (hremoves : Removes id .thread returned t t')
    (hmem : (id, .thread) ∈ t.storage.owners) :
    Owned t' ↔ returned = true := by
  have hleft : t'.storage.users .thread + 1 = t.storage.users .thread := hremoves.users hn hmem .thread
  have hzero : t'.storage.users .thread = 0 :=
    Nat.le_zero.mp (Nat.le_of_succ_le_succ (Nat.le_trans (Nat.le_of_eq hleft) h.alone))
  have htaken : t.storage.threadDataAvailable = false :=
    Bool.eq_false_iff.mpr fun hfree => absurd (hleft.trans (h.available.mp hfree)) (Nat.succ_ne_zero _)
  have havailable : t'.storage.threadDataAvailable = returned := by
    rw [hremoves.available, htaken]
    exact (Bool.false_or _).trans (Bool.and_true _)
  constructor
  · exact fun howned => havailable ▸ howned.available.mpr hzero
  · intro hreturned
    refine ⟨?_, hzero ▸ Nat.zero_le 1, fun i hi => ?_⟩
    · rw [havailable, hzero]
      exact ⟨fun _ => rfl, fun _ => hreturned⟩
    · have hdeleted : t'.deleted = t.deleted := hremoves.deleted.trans (List.append_nil _)
      rw [hdeleted, hremoves.users_ne hn hmem (.heap i) nofun]
      exact h.deletedOnce i (hremoves.allocated ▸ hi)

theorem owned_removes_heap_iff {j : Nat} (h : Owned t) (hn : Numbered t) (hremoves : Removes id (.heap j) returned t t')
    (hmem : (id, .heap j) ∈ t.storage.owners) :
    Owned t' ↔ returned = true := by
  have hj : j < t.storage.allocated := hn.heap _ hmem j rfl
  have hleft : t'.storage.users (.heap j) + 1 = t.storage.users (.heap j) := by
    rw [← hremoves.users hn hmem (.heap j), if_pos rfl]
  have honce := h.deletedOnce j hj
  constructor
  · intro howned
    have honce' := howned.deletedOnce j (hremoves.allocated.symm ▸ hj)
    cases returned with
    | true => rfl
    | false =>
      -- It is neither that of a live message nor has it been deleted.
      have hdeleted : t'.deleted = t.deleted := hremoves.deleted.trans (List.append_nil _)
      rw [hdeleted] at honce'
      omega
  · rintro rfl
    have hdeleted : t'.deleted = t.deleted ++ [j] := hremoves.deleted
    refine ⟨?_, ?_, fun i hi => ?_⟩
    · have havailable : t'.storage.threadDataAvailable = t.storage.threadDataAvailable :=
        hremoves.available.trans (Bool.or_false _)
      rw [havailable, hremoves.users_ne hn hmem .thread nofun]
      exact h.available
    · rw [hremoves.users_ne hn hmem .thread nofun]
      exact h.alone
    · rw [hdeleted, List.count_append]
      by_cases heq : j = i
      · subst heq
        have hnew : [j].count j = 1 := List.count_singleton_self
        omega
      · have hnew : [j].count i = 0 := List.count_eq_zero.mpr fun hmem => heq (List.mem_singleton.mp hmem).symm
        rw [hnew, Nat.add_zero, hremoves.users_ne hn hmem (.heap i) fun hplace => heq (Place.heap.inj hplace)]
        exact h.deletedOnce i (hremoves.allocated ▸ hi)

theorem Owned.removes_static (h : Owned t) (hn : Numbered t) (hremoves : Removes id place returned t t')
    (hmem : (id, place) ∈ t.storage.owners)
    (hstatic : place = .exclusive ∨ place = .shared) : Owned t' := by
  have hthread : place ≠ .thread := by rcases hstatic with rfl | rfl <;> exact nofun
  have hheap (i : Nat) : place ≠ .heap i := by rcases hstatic with rfl | rfl <;> exact nofun
  have havailable : t'.storage.threadDataAvailable = t.storage.threadDataAvailable := by
    rw [hremoves.available, beq_eq_false_iff_ne.mpr hthread, Bool.and_false, Bool.or_false]
  have hdeleted : t'.deleted = t.deleted := by
    rcases hstatic with rfl | rfl <;> exact hremoves.deleted.trans (List.append_nil _)
  refine ⟨?_, ?_, fun i hi => ?_⟩
  · rw [havailable, hremoves.users_ne hn hmem .thread hthread]
    exact h.available
  · rw [hremoves.users_ne hn hmem .thread hthread]
    exact h.alone
  · rw [hdeleted, hremoves.users_ne hn hmem (.heap i) (hheap i)]
    exact h.deletedOnce i (hremoves.allocated ▸ hi)

/-- The storage of the thread and that on the heap stay owned exactly if they are given back. -/
theorem owned_removes_iff (h : Owned t) (hn : Numbered t) (hremoves : Removes id place returned t t')
    (hmem : (id, place) ∈ t.storage.owners) :
    Owned t' ↔ (place ≠ .exclusive → place ≠ .shared → returned = true) := by
  cases place with
  | thread =>
    rw [owned_removes_thread_iff h hn hremoves hmem]
    exact ⟨fun hreturned _ _ => hreturned, fun hreturned => hreturned nofun nofun⟩
  | heap j =>
    rw [owned_removes_heap_iff h hn hremoves hmem]
    exact ⟨fun hreturned _ _ => hreturned, fun hreturned => hreturned nofun nofun⟩
  | exclusive => exact ⟨fun _ hne => absurd rfl hne, fun _ => h.removes_static hn hremoves hmem (Or.inl rfl)⟩
  | shared => exact ⟨fun _ _ hne => absurd rfl hne, fun _ => h.removes_static hn hremoves hmem (Or.inr rfl)⟩

/-! ### Calls -/

theorem throwsIn_eq_false (h : t.storage.find id = some m) : throwsIn id flags throws t.storage = false ↔
    (isDue flags (t.storage.data m.place) = true →
      ∀ e ∈ waitForSinks flags (t.storage.data m.place) true, e.stops throws = false) := by
  rw [throwsIn, h]
  dsimp only
  rw [← Bool.not_eq_true, flush_thrown]
  constructor
  · exact fun hnot hdue e he => Bool.eq_false_iff.mpr fun hstops => hnot ⟨hdue, e, he, hstops⟩
  · rintro hreturns ⟨hdue, e, he, hstops⟩
    exact absurd hstops (Bool.eq_false_iff.mp (hreturns hdue e he))

theorem returns_destroy_iff (h : t.storage.find id = some m) : Returns t.storage (.destroy id flags throws) ↔
    (m.place ≠ .exclusive → m.place ≠ .shared → (!throwsIn id flags throws t.storage) = true) := by
  rw [Bool.not_eq_true', throwsIn_eq_false h]
  constructor
  · exact fun hreturns => hreturns m h
  · intro hreturns m' h'
    obtain rfl : m = m' := Option.some.inj (h.symm.trans h')
    exact hreturns

theorem Numbered.perform (h : Numbered t) (op : Op) : Numbered (t.perform before op) := by
  cases op with
  | create => exact h.adds (adds_create ..) fun i => Storage.allocated_of_selectPlace
  | insert id l => exact h.congr (sameOwners_insert l)
  | flush id flags throws => exact h.congr sameOwners_flush
  | destroy id flags throws =>
    cases hfind : t.storage.find id with
    | none => exact h.congr (sameOwners_destroy hfind)
    | some m => exact h.removes (removes_destroy hfind) (mem_owners hfind)

/-- A call keeps the storages owned exactly if what it destroys is given back. -/
theorem owned_perform_iff (hn : Numbered t) (h : Owned t) (op : Op) :
    Owned (t.perform before op) ↔ Returns t.storage op := by
  cases op with
  | create => exact ⟨fun _ => trivial, fun _ => h.adds hn (adds_create ..) (selectPlace_cases ..)⟩
  | insert id l => exact ⟨fun _ => trivial, fun _ => (owned_congr (sameOwners_insert l)).mpr h⟩
  | flush id flags throws => exact ⟨fun _ => trivial, fun _ => (owned_congr sameOwners_flush).mpr h⟩
  | destroy id flags throws =>
    cases hfind : t.storage.find id with
    | none =>
      refine ⟨fun _ m hm => ?_, fun _ => (owned_congr (sameOwners_destroy hfind)).mpr h⟩
      cases hfind.symm.trans hm
    | some m =>
      exact (owned_removes_iff h hn (removes_destroy hfind) (mem_owners hfind)).trans (returns_destroy_iff hfind).symm

/-! ### Runs -/

theorem returns_atOnce {op : Op} (h : op.atOnce = true) : Returns s op := by
  cases op with
  | create | insert => trivial
  | flush | destroy => cases h

/-- A step changes the calls only, or one call takes effect. -/
theorem step_cases (t : Thread) (i : Input) : (∃ calls, t.step before i = t.setCalls calls ∧ t.Gives i) ∨
    ∃ op calls, t.step before i = (t.perform before op).setCalls calls ∧ (Returns t.storage op ↔ t.Gives i) := by
  cases i with
  | enter op =>
    rw [Thread.step]
    cases hop : op.atOnce with
    | true => exact Or.inr ⟨op, op :: t.calls, rfl, fun _ => trivial, fun _ => returns_atOnce hop⟩
    | false => exact Or.inl ⟨op :: t.calls, rfl, trivial⟩
  | leave =>
    obtain ⟨storage, deleted, calls⟩ := t
    cases calls with
    | nil =>
      refine Or.inl ⟨[], rfl, fun op hop => ?_⟩
      cases hop
    | cons op calls =>
      have hgives : Returns storage op ↔ Thread.Gives ⟨storage, deleted, op :: calls⟩ .leave :=
        ⟨fun hreturns op' hop' => Option.some.inj hop' ▸ hreturns, fun hgives => hgives op rfl⟩
      rw [Thread.step]
      dsimp only
      cases hop : op.atOnce with
      | true => exact Or.inl ⟨calls, rfl, hgives.mp (returns_atOnce hop)⟩
      | false => exact Or.inr ⟨op, calls, rfl, hgives⟩

theorem numbered_setCalls (h : Numbered t) (calls : List Op) : Numbered (t.setCalls calls) :=
  ⟨h.ids, h.created, h.heap, h.deleted⟩

theorem owned_setCalls (calls : List Op) : Owned (t.setCalls calls) ↔ Owned t :=
  ⟨fun h => ⟨h.available, h.alone, h.deletedOnce⟩, fun h => ⟨h.available, h.alone, h.deletedOnce⟩⟩

theorem Numbered.step (h : Numbered t) (i : Input) : Numbered (t.step before i) := by
  rcases @step_cases before t i with ⟨calls, heq, -⟩ | ⟨op, calls, heq, -⟩
  · rw [heq]
    exact numbered_setCalls h calls
  · rw [heq]
    exact numbered_setCalls (h.perform op) calls

theorem owned_step_iff (hn : Numbered t) (h : Owned t) (i : Input) : Owned (t.step before i) ↔ t.Gives i := by
  rcases @step_cases before t i with ⟨calls, heq, hgives⟩ | ⟨op, calls, heq, hgives⟩
  · rw [heq, owned_setCalls]
    exact ⟨fun _ => hgives, fun _ => h⟩
  · rw [heq, owned_setCalls, owned_perform_iff hn h, hgives]

/-- All along a run the storages are owned exactly if no sink throws while a destructor of a message that is not in a
    static storage waits for it. -/
theorem always_owned_iff {is : List Input} :
    Always (Thread.step before) Owned Thread.start is ↔ Each (Thread.step before) Thread.Gives Thread.start is := by
  have hnumbered : Numbered Thread.start := ⟨List.nodup_nil, nofun, nofun, nofun⟩
  have howned : Owned Thread.start := ⟨⟨fun _ => rfl, fun _ => rfl⟩, Nat.zero_le 1, nofun⟩
  exact always_iff_each (fun t i h => h.step i) (fun t i hn h => owned_step_iff hn h i) hnumbered howned

/-- A sink throws while the destructor of the only message waits for it: the storage is not available any more. -/
theorem not_always_owned : ¬ ∀ (before : Char) (is : List Input), Always (Thread.step before) Owned Thread.start is := by
  intro h
  have hrun := h ' ' [.enter (.create plainPrefixFlags (plainInfo .info) .sendToLog false true fun _ => ' '), .leave,
    .enter (.destroy 0 sinkFlags fun e => e == .wait true 0), .leave]
  obtain ⟨-, -, -, -, hlast⟩ := hrun
  exact absurd (hlast.available.mpr rfl) (by decide)

end

end Glog.LogMessage
