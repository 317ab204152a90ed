import Glog.Message.Delivery
import Glog.Message.Failure
import Glog.Message.Mutex

/-! # How often a message is sent

`has_been_flushed_` is set at the end of `Flush`. What a sink throws while it is waited for comes before that: the next
`Flush`, which may be that of the destructor, sends the message again. -/

namespace Glog.LogMessage
open LogFile Run

/-! ### Counting -/

def Occurrence.event? : Occurrence → Option Event
  | event e => some e
  | caught | fail => none

/-- How often something is done. -/
def times (e : Event) (l : List Occurrence) : Nat := (l.filterMap Occurrence.event?).count e

/-- The method of the message is executed once, under the mutex, and `num_messages_` of its severity rises by one. -/
structure DispatchedOnce (κ : Kind) (l : List Occurrence) : Prop where
  dispatched : Dispatched κ l
  locked : times .lock l = 1
  counted : times .count l = 1

/-- What is done once whenever a message is sent. -/
inductive Event.Dispatch : Event → Prop
  | lock : Event.Dispatch .lock
  | count : Event.Dispatch .count

section
variable {flags : Flags} {throws throwsAgain : Event → Bool} {d : LogMessageData} {e : Event}

theorem times_append (e : Event) (l l' : List Occurrence) : times e (l ++ l') = times e l + times e l' := by
  rw [times, List.filterMap_append, List.count_append]
  rfl

theorem times_map (e : Event) (l : List Event) : times e (l.map .event) = l.count e := by
  rw [times, List.filterMap_map]
  exact congrArg _ List.filterMap_some

theorem count_of_quiet {l : List Event} (he : e.Dispatch) (h : Quiet l) : l.count e = 0 := by
  refine List.count_eq_zero.mpr fun hmem => ?_
  have hnone := h e hmem
  cases he <;> cases hnone

theorem count_send (he : e.Dispatch) : (perform throws (send flags d)).1.count e = 0 := by
  refine List.count_eq_zero.mpr fun hmem => ?_
  rcases part_or_unlock e (mem_of_upTo hmem) with hpart | rfl
  · have hnone := hpart.quiet
    cases he <;> cases hnone
  · cases he

theorem count_locked (he : e.Dispatch) : (locked flags throws d).count e = 1 := by
  rw [locked, List.count_cons, List.count_append, count_send he]
  cases he <;> rfl

/-- A message that is due is sent by `Flush`, whatever throws. -/
theorem count_flush (he : e.Dispatch) : (flush flags throws d).events.count e = if isDue flags d then 1 else 0 := by
  unfold flush
  split
  · dsimp only
    rw [List.count_append, List.count_append, count_of_quiet he quiet_editAccesses, count_locked he,
      count_of_quiet he quiet_end]
  · rfl

theorem hasBeenFlushed_flush (hdue : isDue flags d = true) :
    (flush flags throws d).data.hasBeenFlushed = !(flush flags throws d).thrown := by
  have hfresh := (isDue_iff.mp hdue).1
  rw [flush, if_pos hdue]
  dsimp only
  split
  · rename_i hthrown
    rw [hthrown]
    exact hfresh
  · rename_i hreturns
    rw [Bool.not_eq_true] at hreturns
    rw [hreturns]
    rfl

end

/-! ### The life of a message -/

/-- `FLAGS_minloglevel` is not above the severity when the message is flushed. -/
def Use.AtLevel (severity : Severity) : Use → Prop
  | .insert _ => True
  | .flush flags _ => flags.minloglevel ≤ severity.toInt

/-- No sink throws while the first `Flush` before the destructor, if there is one, waits for it. -/
def FirstReturns (d : LogMessageData) : List Use → Prop
  | [] => True
  | .insert _ :: uses => FirstReturns d uses
  | .flush flags throws :: _ => ∀ e ∈ waitForSinks flags d true, e.stops throws = false

section
variable {flags : Flags} {throws throwsAgain : Event → Bool} {d : LogMessageData} {e : Event}
    {o : MessageObject} {life : Life} {uses : List Use}

theorem waitForSinks_of_kind {d' : LogMessageData} (h : d.kind = d'.kind) (last : Bool) :
    waitForSinks flags d last = waitForSinks flags d' last := by
  have hmethod : d.sendMethod = d'.sendMethod := congrArg (fun κ => κ.2.1) h
  have hpointer : d.pointer = d'.pointer := congrArg (fun κ => κ.2.2) h
  rw [waitForSinks, waitForSinks, hmethod, hpointer]

theorem times_destroyLogMessage (he : e.Dispatch) :
    times e (destroyLogMessage flags throws d) = if isDue flags d then 1 else 0 := by
  have hcaught : times e (if (flush flags throws d).thrown then [.caught] else []) = 0 := by split <;> rfl
  rw [destroyLogMessage, times_append, times_map, count_flush he, hcaught, Nat.add_zero]

theorem times_trace (he : e.Dispatch) (hbelow : o.constructor.severity ≠ .fatal) :
    times e (trace o flags throws throwsAgain life) = times e life.past + if isDue flags life.data then 1 else 0 := by
  rw [trace, times_append]
  cases o with
  | logMessage => rw [MessageObject.destroy, times_destroyLogMessage he]
  | errnoLogMessage => exact congrArg _ (times_destroyLogMessage he)
  | logMessageFatal result => cases result <;> exact absurd rfl hbelow

theorem dispatched_destroy (hbelow : o.constructor.severity ≠ .fatal) (hdue : isDue flags life.data = true) :
    Dispatched life.data.kind (trace o flags throws throwsAgain life) := by
  rw [trace]
  cases o with
  | logMessage => exact List.append_assoc _ _ _ ▸ (dispatched_flush hdue life.past).append _
  | errnoLogMessage =>
    exact List.append_assoc _ _ _ ▸ (@dispatched_flush flags throws (stream _ life.data) hdue life.past).append _
  | logMessageFatal result => cases result <;> exact absurd rfl hbelow

theorem times_flush (he : e.Dispatch) :
    times e (life.use (.flush flags throws)).past = times e life.past + if isDue flags life.data then 1 else 0 := by
  rw [Life.use, times_append, times_map, count_flush he]

/-- A message that has been flushed is not sent again. -/
theorem times_of_flushed (he : e.Dispatch) (hflushed : life.data.hasBeenFlushed = true) :
    (uses.foldl Life.use life).data.hasBeenFlushed = true ∧ times e (uses.foldl Life.use life).past =
      times e life.past := by
  induction uses generalizing life with
  | nil => exact ⟨hflushed, rfl⟩
  | cons u uses ih =>
    rw [List.foldl_cons]
    cases u with
    | insert l => exact @ih (life.use (.insert l)) hflushed
    | flush flags throws =>
      have hdue : isDue flags life.data = false := by
        rw [isDue, hflushed]
        rfl
      have hkept : (life.use (.flush flags throws)).data = life.data := by rw [Life.use, flush_of_not_due hdue]
      have hnone := @times_flush flags throws e life he
      rw [hdue] at hnone
      have hrest := @ih (life.use (.flush flags throws)) (hkept ▸ hflushed)
      exact ⟨hrest.1, hrest.2.trans hnone⟩

/-- A message that has not been flushed is sent, and is sent only once if the first `Flush` returns. -/
theorem times_of_fresh (he : e.Dispatch) (hbelow : o.constructor.severity ≠ .fatal) (hkind : life.data.kind = d.kind)
    (hlevel : flags.minloglevel ≤ d.severity.toInt) (hlevels : ∀ u ∈ uses, u.AtLevel d.severity)
    (hfresh : life.data.hasBeenFlushed = false) :
    times e life.past < times e (trace o flags throws throwsAgain (uses.foldl Life.use life)) ∧
      (times e (trace o flags throws throwsAgain (uses.foldl Life.use life)) = times e life.past + 1 ↔
        FirstReturns d uses) := by
  have hseverity {d' : LogMessageData} (h : d'.kind = d.kind) : d'.severity = d.severity := congrArg Prod.fst h
  induction uses generalizing life with
  | nil =>
    have hdue : isDue flags life.data = true := isDue_iff.mpr ⟨hfresh, hseverity hkind ▸ hlevel⟩
    rw [List.foldl_nil, times_trace he hbelow, if_pos hdue]
    exact ⟨Nat.lt_succ_self _, fun _ => trivial, fun _ => rfl⟩
  | cons u uses ih =>
    rw [List.forall_mem_cons] at hlevels
    rw [List.foldl_cons]
    cases u with
    | insert l => exact @ih (life.use (.insert l)) hkind hlevels.2 hfresh
    | flush f t =>
      have hdue : isDue f life.data = true := isDue_iff.mpr ⟨hfresh, hseverity hkind ▸ hlevels.1⟩
      have hone : times e (life.use (.flush f t)).past = times e life.past + 1 := by rw [times_flush he, if_pos hdue]
      have hset : (life.use (.flush f t)).data.hasBeenFlushed = !(flush f t life.data).thrown := hasBeenFlushed_flush hdue
      have hreturns : (flush f t life.data).thrown = false ↔ FirstReturns d (.flush f t :: uses) := by
        rw [flush_returns (hseverity hkind ▸ hlevels.1), hfresh, FirstReturns, ← waitForSinks_of_kind hkind]
        exact ⟨fun h => h.resolve_left Bool.false_ne_true, Or.inr⟩
      cases hthrown : (flush f t life.data).thrown with
      | false =>
        -- The flag is set: what follows does nothing.
        rw [hthrown] at hset
        obtain ⟨hflushed, htimes⟩ := @times_of_flushed e (life.use (.flush f t)) uses he hset
        have hnot : ¬ isDue flags (uses.foldl Life.use (life.use (.flush f t))).data = true := fun hdue =>
          absurd ((isDue_iff.mp hdue).1.symm.trans hflushed) Bool.false_ne_true
        rw [times_trace he hbelow, if_neg hnot, htimes, hone]
        exact ⟨Nat.lt_succ_self _, fun _ => hreturns.mp hthrown, fun _ => rfl⟩
      | true =>
        -- The flag is not set: the message is sent at least once more.
        rw [hthrown] at hset
        have hmore := (@ih (life.use (.flush f t)) (flush_kind.trans hkind) hlevels.2 hset).1
        rw [hone] at hmore
        refine ⟨Nat.lt_of_succ_lt hmore, fun heq => absurd hmore (heq ▸ Nat.lt_irrefl _), fun hfirst => ?_⟩
        exact absurd (hthrown.symm.trans (hreturns.mpr hfirst)) Bool.noConfusion

/-- Whatever is done with a message that is not fatal, it is dispatched once if no sink throws while the first `Flush`
    before the destructor waits for it; otherwise it is sent again. -/
theorem dispatchedOnce_iff {prefixFlags : PrefixFlags} {info : LogMessageInfo} {firstFatal : Bool} {buf : LogStreamBuf}
    (hbelow : o.constructor.severity ≠ .fatal) (hlevel : flags.minloglevel ≤ o.constructor.severity.toInt)
    (hlevels : ∀ u ∈ uses, u.AtLevel o.constructor.severity) :
    DispatchedOnce o.kind (trace o flags throws throwsAgain (o.live prefixFlags info firstFatal buf uses)) ↔
      FirstReturns (o.construct prefixFlags info firstFatal buf) uses := by
  have hcounts {e : Event} (he : e.Dispatch) :=
    (@times_of_fresh flags throws throwsAgain _ e o ⟨o.construct prefixFlags info firstFatal buf, []⟩ uses he
      hbelow rfl hlevel hlevels rfl).2
  refine ⟨fun h => (hcounts .lock).mp h.locked, fun h => ⟨?_, (hcounts .lock).mpr h, (hcounts .count).mpr h⟩⟩
  have halive := @alive_live o prefixFlags info firstFatal buf uses
  have hseverity : (o.live prefixFlags info firstFatal buf uses).data.severity = o.constructor.severity :=
    congrArg Prod.fst halive.ofKind
  cases hflushed : (o.live prefixFlags info firstFatal buf uses).data.hasBeenFlushed with
  | true => exact (halive.flushed hflushed).append _
  | false =>
    have hdue : isDue flags (o.live prefixFlags info firstFatal buf uses).data = true :=
      isDue_iff.mpr ⟨hflushed, hseverity ▸ hlevel⟩
    exact halive.ofKind ▸ dispatched_destroy hbelow hdue

end

/-- The sink throws when it is sent the message, and returns when it is waited for. -/
theorem dispatchedOnce_flushedByHand : DispatchedOnce (MessageObject.logMessage .plain).kind
    (trace (.logMessage .plain) sinkFlags (fun _ => true) (fun _ => false)
      (MessageObject.live (.logMessage .plain) plainPrefixFlags (plainInfo .info) false (.new fun _ => ' ')
        [.flush sinkFlags fun e => e != .wait true 0, .insert ['a']])) := by
  refine (dispatchedOnce_iff (by decide) (by decide) ?_).mpr ?_
  · intro u hu
    rcases List.mem_cons.mp hu with rfl | hu
    · exact Int.le_refl 0
    · obtain rfl := List.mem_singleton.mp hu
      trivial
  · intro e he
    obtain rfl : e = .wait true 0 := List.mem_singleton.mp he
    rfl

/-- The sink throws when it is waited for: the destructor sends the message again. -/
theorem not_dispatchedOnce : ¬ ∀ (o : MessageObject) (prefixFlags : PrefixFlags) (info : LogMessageInfo) (firstFatal : Bool)
    (buf : LogStreamBuf) (uses : List Use) (flags : Flags) (throws throwsAgain : Event → Bool),
      o.constructor.severity ≠ .fatal →
      flags.minloglevel ≤ o.constructor.severity.toInt → (∀ u ∈ uses, u.AtLevel o.constructor.severity) →
        DispatchedOnce o.kind (trace o flags throws throwsAgain (o.live prefixFlags info firstFatal buf uses)) := by
  intro h
  have honce := h (.logMessage .plain) plainPrefixFlags (plainInfo .info) false (.new fun _ => ' ')
    [.flush sinkFlags fun e => e == .wait true 0] sinkFlags (fun _ => false) (fun _ => false) (by decide) (by decide)
    fun u hu => List.mem_singleton.mp hu ▸ Int.le_refl 0
  exact absurd honce.counted (by decide)

end Glog.LogMessage
