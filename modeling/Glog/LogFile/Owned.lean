import Glog.LogFile.Loggers
import Glog.Run.Guarded

/-! # Who owns a logger

A destination writes to its own file object, or to a logger of the user in its place, which becomes the property of the
destination: it is deleted when another one takes its place, and at the latest when the destinations are. `trace` is a
ghost: what has been done to the loggers, the newest first. -/

namespace Glog.LogFile
open Run

/-! ### The destinations -/

/-- The file object of a destination, or a logger of the user. -/
inductive LoggerId
  | fileobject (destination : Nat)
  | user (n : Nat)
  deriving DecidableEq

/-- A destination, with the pointer to its logger. -/
structure Destination where
  id : Nat
  logger : Option LoggerId

inductive Access
  | use (logger : Option LoggerId)
  | delete (logger : LoggerId)
  /-- A destination ends, and its file object with it. -/
  | ends (destination : Nat)
  deriving DecidableEq

structure Destinations where
  destination : Severity → Option Destination
  created : Nat
  trace : List Access

namespace Destinations

def start : Destinations := ⟨fun _ => none, 0, []⟩

def put (i : Severity) (d : Option Destination) (s : Destinations) : Destinations :=
  { s with destination := fun j => if j = i then d else s.destination j }

def record (l : List Access) (s : Destinations) : Destinations := { s with trace := l ++ s.trace }

/-- `log_destination(severity)` -/
def logDestination (i : Severity) (s : Destinations) : Destinations :=
  match s.destination i with
  | some _ => s
  | none => { s.put i (some ⟨s.created, some (.fileobject s.created)⟩) with created := s.created + 1 }

/-- A call of the logger of a destination. -/
def callLogger (i : Severity) (s : Destinations) : Destinations :=
  match s.destination i with
  | some d => s.record [.use d.logger]
  | none => s

/-- The logger that a destination gives up is deleted if it is one of the user. -/
def released (d : Destination) : List Access :=
  match d.logger with
  | some logger => if logger = .fileobject d.id then [] else [.delete logger]
  | none => []

def setLoggerImpl (i : Severity) (logger : Option LoggerId) (s : Destinations) : Destinations :=
  match s.destination i with
  | some d => if d.logger = logger then s else (s.record (released d)).put i (some { d with logger := logger })
  | none => s

/-- `~LogDestination` -/
def destroy (i : Severity) (s : Destinations) : Destinations :=
  match s.destination i with
  | some d => ((s.setLoggerImpl i (some (.fileobject d.id))).record [.ends d.id]).put i none
  | none => s

end Destinations

/-! ### What is done with them -/

inductive LoggerEvent
  | setLogger (i : Severity) (logger : Option LoggerId)
  | getLogger (i : Severity)
  /-- The file object of a destination is configured. -/
  | configure (i : Severity)
  /-- A message is logged to the files. -/
  | logToAllLogfiles (i : Severity)
  /-- The files are flushed behind a fatal message. -/
  | flushFatal
  | flushLogFiles (minSeverity : Severity)
  | deleteLogDestinations

def loggerStep (s : Destinations) : LoggerEvent → Destinations
  | .setLogger i logger => (s.logDestination i).setLoggerImpl i logger
  | .getLogger i => s.logDestination i
  | .configure i => s.logDestination i
  | .logToAllLogfiles i => i.andLower.foldl (fun s j => (s.logDestination j).callLogger j) s
  | .flushFatal => Severity.all.foldl (fun s j => s.callLogger j) s
  | .flushLogFiles minSeverity =>
    (Severity.all.filter fun j => minSeverity.toInt ≤ j.toInt).foldl (fun s j => (s.logDestination j).callLogger j) s
  | .deleteLogDestinations => Severity.all.foldl (fun s j => s.destroy j) s

/-! ### Memory safety -/

/-- After what has been done, the access is one to a logger that is there; only those of the user are deleted. -/
def Allowed (past : List Access) : Access → Prop
  | .use none => False
  | .use (some (.fileobject d)) => .ends d ∉ past
  | .use (some (.user n)) => .delete (.user n) ∉ past
  | .delete (.fileobject _) => False
  | .delete (.user n) => .delete (.user n) ∉ past
  | .ends _ => True

def Safe : List Access → Prop
  | [] => True
  | a :: past => Allowed past a ∧ Safe past

/-- Whether a logger is handed over as it should be: it is the one that is there, the file object of the destination, or
one of the user that no destination has or has had. -/
def HandedOver (i : Severity) (logger : LoggerId) (s : Destinations) : Prop :=
  ∃ d, s.destination i = some d ∧ (d.logger = some logger ∨ logger = .fileobject d.id ∨
    ∃ n, logger = .user n ∧ .delete (.user n) ∉ s.trace ∧ ∀ j d, s.destination j = some d → d.logger ≠ some (.user n))

def Handed (s : Destinations) : LoggerEvent → Prop
  | .setLogger i (some logger) => HandedOver i logger (s.logDestination i)
  | _ => True

section
variable {s : Destinations} {i j : Severity} {d d' : Destination} {logger : LoggerId} {n : Nat}
    {past : List Access} {a : Access}

theorem destination_put (x : Option Destination) : (s.put i x).destination j = if j = i then x else s.destination j := rfl

/-! ### The destinations own their loggers -/

structure Owned (s : Destinations) : Prop where
  safe : Safe s.trace
  created : ∀ i d, s.destination i = some d → d.id < s.created
  ended : ∀ id, .ends id ∈ s.trace → id < s.created
  alive : ∀ i d, s.destination i = some d → .ends d.id ∉ s.trace
  logger : ∀ i d, s.destination i = some d →
    d.logger = some (.fileobject d.id) ∨ ∃ n, d.logger = some (.user n) ∧ .delete (.user n) ∉ s.trace
  apart : ∀ i j d d', s.destination i = some d → s.destination j = some d' → d.id = d'.id ∨
    (∃ n, d.logger = some (.user n) ∧ d'.logger = some (.user n)) → i = j

theorem owned_start : Owned .start := ⟨trivial, nofun, nofun, nofun, nofun, nofun⟩

theorem Owned.logDestination (h : Owned s) (i : Severity) : Owned (s.logDestination i) := by
  unfold Destinations.logDestination
  split
  · exact h
  · rename_i hnone
    have hnew : ∀ {j d}, (if j = i then some ⟨s.created, some (.fileobject s.created)⟩ else s.destination j) = some d →
        d = ⟨s.created, some (.fileobject s.created)⟩ ∧ j = i ∨ s.destination j = some d := by
      intro j d hd
      split at hd
      · rename_i heq
        exact .inl ⟨(Option.some.inj hd).symm, heq⟩
      · exact .inr hd
    refine ⟨h.safe, ?_, ?_, ?_, ?_, ?_⟩
    · intro j d hd
      rcases hnew hd with ⟨rfl, -⟩ | hd
      · exact Nat.lt_succ_self _
      · exact Nat.lt_succ_of_lt (h.created j d hd)
    · exact fun id hid => Nat.lt_succ_of_lt (h.ended id hid)
    · intro j d hd
      rcases hnew hd with ⟨rfl, -⟩ | hd
      · exact fun hmem => absurd (h.ended _ hmem) (Nat.lt_irrefl _)
      · exact h.alive j d hd
    · intro j d hd
      rcases hnew hd with ⟨rfl, -⟩ | hd
      · exact .inl rfl
      · exact h.logger j d hd
    · intro j k d d' hd hd' hsame
      rcases hnew hd with ⟨hdeq, hj⟩ | hold
      · rcases hnew hd' with ⟨-, hk⟩ | hold'
        · exact hj.trans hk.symm
        · subst hdeq
          rcases hsame with hid | ⟨n, huser, -⟩
          · have hlt := h.created k d' hold'
            rw [← hid] at hlt
            exact absurd hlt (Nat.lt_irrefl _)
          · cases huser
      · rcases hnew hd' with ⟨hdeq, -⟩ | hold'
        · subst hdeq
          rcases hsame with hid | ⟨n, -, huser⟩
          · have hlt := h.created j d hold
            rw [hid] at hlt
            exact absurd hlt (Nat.lt_irrefl _)
          · cases huser
        · exact h.apart j k d d' hold hold' hsame

/-- What is recorded, if it neither deletes a logger nor ends a destination. -/
theorem Owned.use (h : Owned s) {x : Option LoggerId} (hallowed : Allowed s.trace (.use x)) :
    Owned (s.record [.use x]) where
  safe := ⟨hallowed, h.safe⟩
  created := h.created
  ended id hid := h.ended id ((List.mem_cons.mp hid).resolve_left nofun)
  alive i d hd hid := h.alive i d hd ((List.mem_cons.mp hid).resolve_left nofun)
  logger i d hd := (h.logger i d hd).imp_right fun ⟨n, hn, hfree⟩ =>
    ⟨n, hn, fun hmem => hfree ((List.mem_cons.mp hmem).resolve_left nofun)⟩
  apart := h.apart

theorem Owned.callLogger (h : Owned s) (i : Severity) : Owned (s.callLogger i) := by
  unfold Destinations.callLogger
  split
  · rename_i d hd
    refine h.use ?_
    rcases h.logger i d hd with hown | ⟨n, huser, hfree⟩
    · rw [hown]
      exact h.alive i d hd
    · rw [huser]
      exact hfree
  · exact h

/-- What is given up: nothing of the destination's own, and otherwise a logger that has not been deleted. -/
theorem Owned.released_cases (h : Owned s) (hd : s.destination i = some d) :
    Destinations.released d = [] ∨ ∃ n, d.logger = some (.user n) ∧ .delete (.user n) ∉ s.trace ∧
      Destinations.released d = [.delete (.user n)] := by
  rcases h.logger i d hd with hown | ⟨n, huser, hfree⟩
  · refine .inl ?_
    rw [Destinations.released, hown]
    exact if_pos rfl
  · refine .inr ⟨n, huser, hfree, ?_⟩
    rw [Destinations.released, huser]
    exact if_neg nofun

/-- The logger that a destination has is recorded as deleted, and no other. -/
theorem Owned.delete_notMem (h : Owned s) (hd : s.destination i = some d) (hne : d.logger ≠ some (.user n))
    (hfree : .delete (.user n) ∉ s.trace) : .delete (.user n) ∉ Destinations.released d ++ s.trace := by
  rcases h.released_cases hd with hnothing | ⟨m, huser, -, hdelete⟩
  · rwa [hnothing]
  · rw [hdelete, List.cons_append, List.nil_append, List.mem_cons, not_or]
    refine ⟨fun heq => hne ?_, hfree⟩
    rw [huser]
    cases heq
    rfl

theorem Owned.ends_released (h : Owned s) (hd : s.destination i = some d) {id : Nat} :
    .ends id ∈ Destinations.released d ++ s.trace ↔ .ends id ∈ s.trace := by
  rcases h.released_cases hd with hnothing | ⟨m, -, -, hdelete⟩
  · rw [hnothing, List.nil_append]
  · rw [hdelete]
    simp

theorem Owned.setLoggerImpl (h : Owned s) (hhanded : HandedOver i logger s) : Owned (s.setLoggerImpl i (some logger)) := by
  obtain ⟨d, hd, hlogger⟩ := hhanded
  unfold Destinations.setLoggerImpl
  simp only [hd]
  split
  · exact h
  · rename_i hne
    have hchosen : ∀ {j d'}, (if j = i then some { d with logger := some logger } else s.destination j) = some d' →
        j = i ∧ d' = { d with logger := some logger } ∨ j ≠ i ∧ s.destination j = some d' := by
      intro j d' hd'
      split at hd'
      · rename_i heq
        exact .inl ⟨heq, (Option.some.inj hd').symm⟩
      · rename_i hji
        exact .inr ⟨hji, hd'⟩
    have hfresh : ∀ {n}, logger = .user n → .delete (.user n) ∉ s.trace ∧ ∀ j d, s.destination j = some d →
        d.logger ≠ some (.user n) := by
      rintro n rfl
      rcases hlogger with hsame | hown | ⟨m, heq, hfree, hothers⟩
      · exact absurd hsame hne
      · cases hown
      · cases heq
        exact ⟨hfree, hothers⟩
    refine ⟨?_, ?_, ?_, ?_, ?_, ?_⟩
    · change Safe (Destinations.released d ++ s.trace)
      rcases h.released_cases hd with hnothing | ⟨n, -, hfree, hdelete⟩
      · rw [hnothing]
        exact h.safe
      · rw [hdelete]
        exact ⟨hfree, h.safe⟩
    · intro j d' hd'
      rcases hchosen hd' with ⟨-, rfl⟩ | ⟨-, hold⟩
      · exact h.created i d hd
      · exact h.created j d' hold
    · exact fun id hid => h.ended id ((h.ends_released hd).mp hid)
    · intro j d' hd' hid
      rcases hchosen hd' with ⟨-, rfl⟩ | ⟨-, hold⟩
      · exact h.alive i d hd ((h.ends_released hd).mp hid)
      · exact h.alive j d' hold ((h.ends_released hd).mp hid)
    · intro j d' hd'
      rcases hchosen hd' with ⟨-, rfl⟩ | ⟨hji, hold⟩
      · rcases hlogger with hsame | rfl | ⟨n, rfl, hfree, hothers⟩
        · exact absurd hsame hne
        · exact .inl rfl
        · exact .inr ⟨n, rfl, h.delete_notMem hd (hothers i d hd) hfree⟩
      · refine (h.logger j d' hold).imp_right fun ⟨n, huser, hfree⟩ =>
          ⟨n, huser, h.delete_notMem hd (fun hsame => ?_) hfree⟩
        exact hji (h.apart j i d' d hold hd (.inr ⟨n, huser, hsame⟩))
    · intro j k d' d'' hd' hd'' hsame
      rcases hchosen hd' with ⟨rfl, rfl⟩ | ⟨hji, hold⟩
      · rcases hchosen hd'' with ⟨rfl, -⟩ | ⟨-, hold'⟩
        · rfl
        · rcases hsame with hid | ⟨n, huser, huser'⟩
          · exact h.apart j k d d'' hd hold' (.inl hid)
          · exact absurd huser' ((hfresh (Option.some.inj huser)).2 k d'' hold')
      · rcases hchosen hd'' with ⟨rfl, rfl⟩ | ⟨-, hold'⟩
        · rcases hsame with hid | ⟨n, huser, huser'⟩
          · exact h.apart j k d' d hold hd (.inl hid)
          · exact absurd huser ((hfresh (Option.some.inj huser')).2 j d' hold)
        · exact h.apart j k d' d'' hold hold' hsame

theorem destination_setLoggerImpl (hd : s.destination i = some d) {x : Option LoggerId} :
    (s.setLoggerImpl i x).destination j = if j = i then some { d with logger := x } else s.destination j := by
  unfold Destinations.setLoggerImpl
  simp only [hd]
  split
  · rename_i hsame
    subst hsame
    split
    · rename_i hji
      rw [hji, hd]
    · rfl
  · rfl

theorem Owned.ends (h : Owned s) (hd : s.destination i = some d) : Owned ((s.record [.ends d.id]).put i none) := by
  have hchosen : ∀ {j d'}, (if j = i then none else s.destination j) = some d' → j ≠ i ∧ s.destination j = some d' := by
    intro j d' hd'
    split at hd'
    · cases hd'
    · rename_i hji
      exact ⟨hji, hd'⟩
  have hdelete : ∀ {n}, .delete (.user n) ∉ s.trace → .delete (.user n) ∉ (.ends d.id : Access) :: s.trace :=
    fun hfree hmem => hfree ((List.mem_cons.mp hmem).resolve_left nofun)
  refine ⟨⟨trivial, h.safe⟩, ?_, ?_, ?_, ?_, ?_⟩
  · exact fun j d' hd' => h.created j d' (hchosen hd').2
  · intro id hid
    rcases List.mem_cons.mp hid with heq | hid
    · cases heq
      exact h.created i d hd
    · exact h.ended id hid
  · intro j d' hd' hid
    obtain ⟨hji, hold⟩ := hchosen hd'
    rcases List.mem_cons.mp hid with heq | hid
    · injection heq with heq
      exact hji (h.apart j i d' d hold hd (.inl heq))
    · exact h.alive j d' hold hid
  · exact fun j d' hd' => (h.logger j d' (hchosen hd').2).imp_right fun ⟨n, huser, hfree⟩ => ⟨n, huser, hdelete hfree⟩
  · exact fun j k d' d'' hd' hd'' hsame => h.apart j k d' d'' (hchosen hd').2 (hchosen hd'').2 hsame

theorem Owned.destroy (h : Owned s) (i : Severity) : Owned (s.destroy i) := by
  unfold Destinations.destroy
  split
  · rename_i d hd
    have hreset := h.setLoggerImpl ⟨d, hd, .inr (.inl rfl)⟩
    exact hreset.ends (d := { d with logger := some (.fileobject d.id) }) (by rw [destination_setLoggerImpl hd, if_pos rfl])
  · exact h

/-- What each part of a loop keeps the loop keeps. -/
theorem foldl_keeps {I : Destinations → Prop} {f : Destinations → Severity → Destinations}
    (hstep : ∀ s j, I s → I (f s j)) :
    ∀ (l : List Severity) {s}, I s → I (l.foldl f s)
  | [], _, h => h
  | j :: l, _, h => foldl_keeps hstep l (hstep _ j h)

theorem Owned.step (h : Owned s) (e : LoggerEvent) (hhanded : Handed s e) (hnull : ∀ i, e ≠ .setLogger i none) :
    Owned (loggerStep s e) := by
  cases e with
  | setLogger i logger =>
    cases logger with
    | none => exact absurd rfl (hnull i)
    | some logger => exact (h.logDestination i).setLoggerImpl hhanded
  | getLogger i | configure i => exact h.logDestination i
  | logToAllLogfiles i => exact foldl_keeps (fun s j h => (h.logDestination j).callLogger j) _ h
  | flushFatal => exact foldl_keeps (fun s j h => h.callLogger j) _ h
  | flushLogFiles minSeverity => exact foldl_keeps (fun s j h => (h.logDestination j).callLogger j) _ h
  | deleteLogDestinations => exact foldl_keeps (fun s j h => h.destroy j) _ h

/-! ### No logger is lost -/

/-- The logger has been deleted, or a destination has it. -/
def HeldOrDeleted (n : Nat) (s : Destinations) : Prop :=
  .delete (.user n) ∈ s.trace ∨ ∃ i d, s.destination i = some d ∧ d.logger = some (.user n)

theorem HeldOrDeleted.logDestination (h : HeldOrDeleted n s) (i : Severity) : HeldOrDeleted n (s.logDestination i) := by
  unfold Destinations.logDestination
  split
  · exact h
  · rename_i hnone
    refine h.imp_right fun ⟨j, d, hd, huser⟩ => ⟨j, d, ?_, huser⟩
    have hji : j ≠ i := fun heq => by
      rw [heq, hnone] at hd
      cases hd
    exact (if_neg hji).trans hd

theorem HeldOrDeleted.record (h : HeldOrDeleted n s) (l : List Access) : HeldOrDeleted n (s.record l) :=
  h.imp_left fun hmem => List.mem_append_right l hmem

theorem HeldOrDeleted.callLogger (h : HeldOrDeleted n s) (i : Severity) : HeldOrDeleted n (s.callLogger i) := by
  unfold Destinations.callLogger
  split
  · exact h.record _
  · exact h

theorem mem_released (huser : d.logger = some (.user n)) : .delete (.user n) ∈ Destinations.released d := by
  have hne : LoggerId.user n ≠ .fileobject d.id := nofun
  rw [Destinations.released, huser]
  dsimp only
  rw [if_neg hne]
  exact List.mem_singleton.mpr rfl

theorem HeldOrDeleted.setLoggerImpl (h : HeldOrDeleted n s) (i : Severity) (x : Option LoggerId) :
    HeldOrDeleted n (s.setLoggerImpl i x) := by
  unfold Destinations.setLoggerImpl
  split
  · rename_i d hd
    split
    · exact h
    · rcases h with hmem | ⟨j, d', hd', huser⟩
      · exact .inl (List.mem_append_right _ hmem)
      · by_cases hji : j = i
        · subst hji
          rw [hd] at hd'
          cases hd'
          exact .inl (List.mem_append_left _ (mem_released huser))
        · exact .inr ⟨j, d', (if_neg hji).trans hd', huser⟩
  · exact h

theorem HeldOrDeleted.destroy (h : HeldOrDeleted n s) (i : Severity) : HeldOrDeleted n (s.destroy i) := by
  unfold Destinations.destroy
  split
  · rename_i d hd
    rcases h.setLoggerImpl i (some (.fileobject d.id)) with hmem | ⟨j, d', hd', huser⟩
    · exact .inl (List.mem_cons_of_mem _ hmem)
    · rw [destination_setLoggerImpl hd] at hd'
      split at hd'
      · cases hd'
        cases huser
      · rename_i hji
        refine .inr ⟨j, d', ?_, huser⟩
        rw [destination_put, if_neg hji]
        exact (destination_setLoggerImpl hd).trans ((if_neg hji).trans hd')
  · exact h

theorem HeldOrDeleted.step (h : HeldOrDeleted n s) (e : LoggerEvent) : HeldOrDeleted n (loggerStep s e) := by
  cases e with
  | setLogger i logger => exact (h.logDestination i).setLoggerImpl i logger
  | getLogger i | configure i => exact h.logDestination i
  | logToAllLogfiles i => exact foldl_keeps (fun s j h => (h.logDestination j).callLogger j) _ h
  | flushFatal => exact foldl_keeps (fun s j h => h.callLogger j) _ h
  | flushLogFiles minSeverity => exact foldl_keeps (fun s j h => (h.logDestination j).callLogger j) _ h
  | deleteLogDestinations => exact foldl_keeps (fun s j h => h.destroy j) _ h

theorem exists_destination (s : Destinations) (i : Severity) : ∃ d, (s.logDestination i).destination i = some d := by
  unfold Destinations.logDestination
  split
  · rename_i d hd
    exact ⟨d, hd⟩
  · exact ⟨_, if_pos rfl⟩

theorem heldOrDeleted_setLogger (s : Destinations) (i : Severity) (n : Nat) :
    HeldOrDeleted n (loggerStep s (.setLogger i (some (.user n)))) := by
  obtain ⟨d, hd⟩ := exists_destination s i
  refine .inr ⟨i, { d with logger := some (.user n) }, ?_, rfl⟩
  exact (destination_setLoggerImpl hd).trans (if_pos rfl)

theorem heldOrDeleted_foldl {events : List LoggerEvent} {i : Severity} (hmem : .setLogger i (some (.user n)) ∈ events) :
    ∀ s, HeldOrDeleted n (events.foldl loggerStep s) := by
  have hkeeps : ∀ (events : List LoggerEvent) s, HeldOrDeleted n s → HeldOrDeleted n (events.foldl loggerStep s) := by
    intro events
    induction events with
    | nil => exact fun _ h => h
    | cons e events ih => exact fun s h => ih _ (h.step e)
  induction events with
  | nil => cases hmem
  | cons e events ih =>
    intro s
    rcases List.mem_cons.mp hmem with rfl | hmem
    · exact hkeeps events _ (heldOrDeleted_setLogger s i n)
    · exact ih hmem _

/-! ### The end -/

theorem destination_destroy : (s.destroy i).destination j = if j = i then none else s.destination j := by
  unfold Destinations.destroy
  split
  · rename_i d hd
    rw [destination_put]
    split
    · rfl
    · rename_i hji
      exact (destination_setLoggerImpl hd).trans (if_neg hji)
  · rename_i hnone
    split
    · rename_i hji
      rw [hji, hnone]
    · rfl

theorem destination_deleteLogDestinations (s : Destinations) (j : Severity) :
    (loggerStep s .deleteLogDestinations).destination j = none := by
  have hgone : ∀ (l : List Severity) (s : Destinations), (s.destination j = none ∨ j ∈ l) →
      (l.foldl (fun s k => s.destroy k) s).destination j = none := by
    intro l
    induction l with
    | nil => exact fun s h => h.resolve_right List.not_mem_nil
    | cons k l ih =>
      intro s h
      refine ih _ ?_
      rw [destination_destroy]
      by_cases hjk : j = k
      · exact .inl (if_pos hjk)
      · rw [if_neg hjk]
        exact h.imp_right fun hmem => (List.mem_cons.mp hmem).resolve_left hjk
  exact hgone Severity.all s (.inr (Severity.mem_all j))

theorem count_le_one : ∀ {l : List Access}, Safe l → l.count (.delete (.user n)) ≤ 1
  | [], _ => by simp
  | a :: past, h => by
    by_cases heq : a = .delete (.user n)
    · subst heq
      exact Nat.le_of_eq (by rw [List.count_cons_self, List.count_eq_zero.mpr h.1])
    · rw [List.count_cons_of_ne heq]
      exact count_le_one h.2

/-! ### A logger that is not handed over -/

/-- Something unsafe has been done, or will be when a destination gives up its logger. -/
def Doomed (s : Destinations) : Prop :=
  ¬ Safe s.trace ∨ ∃ i d logger, s.destination i = some d ∧ d.logger = some logger ∧ logger ≠ .fileobject d.id ∧
    ((∃ id, logger = .fileobject id) ∨ .delete logger ∈ s.trace ∨
      ∃ j d', j ≠ i ∧ s.destination j = some d' ∧ d'.logger = some logger ∧ logger ≠ .fileobject d'.id)

theorem Safe.of_append : ∀ {l : List Access}, Safe (l ++ past) → Safe past
  | [], h => h
  | _ :: _, h => of_append h.2

theorem Doomed.record (h : Doomed s) (l : List Access) : Doomed (s.record l) := by
  rcases h with hunsafe | ⟨i, d, logger, hd, hlogger, hne, hcase⟩
  · exact .inl fun hsafe => hunsafe hsafe.of_append
  · exact .inr ⟨i, d, logger, hd, hlogger, hne, hcase.imp_right (Or.imp_left (List.mem_append_right l))⟩

theorem Doomed.logDestination (h : Doomed s) (i : Severity) : Doomed (s.logDestination i) := by
  unfold Destinations.logDestination
  split
  · exact h
  · rename_i hnone
    have hkept : ∀ {j d}, s.destination j = some d →
        (if j = i then some ⟨s.created, some (.fileobject s.created)⟩ else s.destination j) = some d := by
      intro j d hd
      refine (if_neg fun heq => ?_).trans hd
      rw [heq, hnone] at hd
      cases hd
    refine h.imp_right fun ⟨j, d, logger, hd, hlogger, hne, hcase⟩ =>
      ⟨j, d, logger, hkept hd, hlogger, hne, hcase.imp_right ?_⟩
    exact Or.imp_right fun ⟨k, d', hkj, hd', hsame⟩ => ⟨k, d', hkj, hkept hd', hsame⟩

theorem Doomed.callLogger (h : Doomed s) (i : Severity) : Doomed (s.callLogger i) := by
  unfold Destinations.callLogger
  split
  · exact h.record _
  · exact h

theorem released_eq (hlogger : d.logger = some logger) (hne : logger ≠ .fileobject d.id) :
    Destinations.released d = [.delete logger] := by
  rw [Destinations.released, hlogger]
  exact if_neg hne

theorem Doomed.setLoggerImpl (h : Doomed s) (i : Severity) (x : Option LoggerId) : Doomed (s.setLoggerImpl i x) := by
  unfold Destinations.setLoggerImpl
  split
  · rename_i d hd
    split
    · exact h
    · rcases h with hunsafe | ⟨j, d', logger, hd', hlogger, hne, hcase⟩
      · exact .inl fun hsafe => hunsafe hsafe.of_append
      · by_cases hji : j = i
        · -- the doomed logger is deleted
          subst hji
          rw [hd] at hd'
          cases hd'
          have hreleased := released_eq hlogger hne
          rcases hcase with ⟨id, rfl⟩ | hdeleted | ⟨k, d'', hkj, hd'', hlogger', hne'⟩
          · refine .inl fun hsafe => ?_
            change Safe (Destinations.released d ++ s.trace) at hsafe
            rw [hreleased] at hsafe
            exact hsafe.1
          · refine .inl fun hsafe => ?_
            change Safe (Destinations.released d ++ s.trace) at hsafe
            rw [hreleased] at hsafe
            cases logger with
            | fileobject id => exact hsafe.1
            | user n => exact hsafe.1 hdeleted
          · refine .inr ⟨k, d'', logger, (if_neg hkj).trans hd'', hlogger', hne', .inr (.inl ?_)⟩
            change Access.delete logger ∈ Destinations.released d ++ s.trace
            rw [hreleased]
            exact List.mem_cons_self
        · refine .inr ⟨j, d', logger, (if_neg hji).trans hd', hlogger, hne, ?_⟩
          rcases hcase with hfile | hdeleted | ⟨k, d'', hkj, hd'', hlogger', hne'⟩
          · exact .inl hfile
          · exact .inr (.inl (List.mem_append_right _ hdeleted))
          · by_cases hki : k = i
            · subst hki
              rw [hd] at hd''
              cases hd''
              refine .inr (.inl ?_)
              change Access.delete logger ∈ Destinations.released d ++ s.trace
              rw [released_eq hlogger' hne']
              exact List.mem_cons_self
            · exact .inr (.inr ⟨k, d'', hkj, (if_neg hki).trans hd'', hlogger', hne'⟩)
  · exact h

theorem Doomed.destroy (h : Doomed s) (i : Severity) : Doomed (s.destroy i) := by
  unfold Destinations.destroy
  split
  · rename_i d hd
    have hown : ∀ {j d' logger}, (s.setLoggerImpl i (some (.fileobject d.id))).destination j = some d' →
        d'.logger = some logger →
        logger ≠ .fileobject d'.id → j ≠ i := by
      intro j d' logger hd' hlogger hne hji
      rw [destination_setLoggerImpl hd, if_pos hji] at hd'
      cases hd'
      cases hlogger
      exact hne rfl
    rcases h.setLoggerImpl i (some (.fileobject d.id)) with hunsafe | ⟨j, d', logger, hd', hlogger, hne, hcase⟩
    · exact .inl fun hsafe => hunsafe hsafe.2
    · refine .inr ⟨j, d', logger, (if_neg (hown hd' hlogger hne)).trans hd', hlogger, hne, ?_⟩
      rcases hcase with hfile | hdeleted | ⟨k, d'', hkj, hd'', hlogger', hne'⟩
      · exact .inl hfile
      · exact .inr (.inl (List.mem_cons_of_mem _ hdeleted))
      · exact .inr (.inr ⟨k, d'', hkj, (if_neg (hown hd'' hlogger' hne')).trans hd'', hlogger', hne'⟩)
  · exact h

theorem Doomed.step (h : Doomed s) (e : LoggerEvent) : Doomed (loggerStep s e) := by
  cases e with
  | setLogger i logger => exact (h.logDestination i).setLoggerImpl i logger
  | getLogger i | configure i => exact h.logDestination i
  | logToAllLogfiles i => exact foldl_keeps (fun s j h => (h.logDestination j).callLogger j) _ h
  | flushFatal => exact foldl_keeps (fun s j h => h.callLogger j) _ h
  | flushLogFiles minSeverity => exact foldl_keeps (fun s j h => (h.logDestination j).callLogger j) _ h
  | deleteLogDestinations => exact foldl_keeps (fun s j h => h.destroy j) _ h

theorem doomed_of_not_handed {e : LoggerEvent} (hnull : ∀ i, e ≠ .setLogger i none) (h : ¬ Handed s e) :
    Doomed (loggerStep s e) := by
  cases e with
  | setLogger i x =>
    cases x with
    | none => exact absurd rfl (hnull i)
    | some logger =>
      obtain ⟨d, hd⟩ := exists_destination s i
      change Doomed ((s.logDestination i).setLoggerImpl i (some logger))
      change ¬ HandedOver i logger (s.logDestination i) at h
      generalize s.logDestination i = t at hd h ⊢
      have hne : d.logger ≠ some logger := fun heq => h ⟨d, hd, .inl heq⟩
      have hown : logger ≠ .fileobject d.id := fun heq => h ⟨d, hd, .inr (.inl heq)⟩
      have hset := destination_setLoggerImpl hd (j := i) (x := some logger)
      rw [if_pos rfl] at hset
      refine .inr ⟨i, { d with logger := some logger }, logger, hset, rfl, hown, ?_⟩
      cases logger with
      | fileobject id => exact .inl ⟨id, rfl⟩
      | user n =>
        by_cases hdeleted : .delete (.user n) ∈ t.trace
        · refine .inr (.inl ?_)
          unfold Destinations.setLoggerImpl
          simp only [hd]
          rw [if_neg hne]
          exact List.mem_append_right _ hdeleted
        · have hheld : ∃ j d', t.destination j = some d' ∧ d'.logger = some (.user n) := by
            refine Classical.byContradiction fun hnobody =>
              h ⟨d, hd, .inr (.inr ⟨n, rfl, hdeleted, fun j d' hd' huser => ?_⟩)⟩
            exact hnobody ⟨j, d', hd', huser⟩
          obtain ⟨j, d', hd', huser⟩ := hheld
          have hji : j ≠ i := fun heq => by
            rw [heq, hd] at hd'
            cases hd'
            exact hne huser
          exact .inr (.inr ⟨j, d', hji, (destination_setLoggerImpl hd).trans ((if_neg hji).trans hd'), huser, nofun⟩)
  | getLogger i | configure i | logToAllLogfiles i | flushFatal | flushLogFiles minSeverity | deleteLogDestinations =>
    exact absurd trivial h

/-! ### Whole runs -/

theorem doomed_foldl : ∀ (events : List LoggerEvent) {s}, Doomed s →
    ¬ Safe (loggerStep (events.foldl loggerStep s) .deleteLogDestinations).trace
  | [], s, h => fun hsafe => by
    rcases h.step .deleteLogDestinations with hunsafe | ⟨i, d, -, hd, -⟩
    · exact hunsafe hsafe
    · rw [destination_deleteLogDestinations] at hd
      cases hd
  | e :: events, _, h => doomed_foldl events (h.step e)

theorem safe_iff_handed : ∀ (events : List LoggerEvent) {s}, Owned s → (∀ e ∈ events, ∀ i, e ≠ .setLogger i none) →
    (Safe (loggerStep (events.foldl loggerStep s) .deleteLogDestinations).trace ↔ Each loggerStep Handed s events)
  | [], s, h, _ => iff_of_true (h.step .deleteLogDestinations trivial nofun).safe trivial
  | e :: events, s, h, hnull => by
    have hrest := fun i hi => hnull i (List.mem_cons_of_mem e hi)
    by_cases hhanded : Handed s e
    · have hnext := h.step e hhanded (hnull e List.mem_cons_self)
      rw [List.foldl_cons, safe_iff_handed events hnext hrest]
      exact ⟨fun heach => ⟨hhanded, heach⟩, fun heach => heach.2⟩
    · exact iff_of_false (doomed_foldl events (doomed_of_not_handed (hnull e List.mem_cons_self) hhanded))
        fun heach => hhanded heach.1

/-- A run up to the end of the destinations accesses no logger that is gone and deletes none twice exactly if every
logger is handed over as it should be; then each logger of the user has been deleted once. -/
theorem loggers_owned (events : List LoggerEvent) (hnull : ∀ e ∈ events, ∀ i, e ≠ .setLogger i none) :
    (Safe (loggerStep (events.foldl loggerStep .start) .deleteLogDestinations).trace ↔
      Each loggerStep Handed .start events) ∧
      (Each loggerStep Handed .start events → ∀ i n, .setLogger i (some (.user n)) ∈ events →
        (loggerStep (events.foldl loggerStep .start) .deleteLogDestinations).trace.count (.delete (.user n)) = 1) := by
  have hiff := safe_iff_handed events owned_start hnull
  refine ⟨hiff, fun heach i n hmem => Nat.le_antisymm (count_le_one (hiff.mpr heach)) (List.count_pos_iff.mpr ?_)⟩
  rcases (heldOrDeleted_foldl hmem .start).step .deleteLogDestinations with hdeleted | ⟨j, d, hd, -⟩
  · exact hdeleted
  · rw [destination_deleteLogDestinations] at hd
    cases hd

end

/-- A logger of the user for the messages of a severity and those above. -/
theorem loggers_owned_one :
    (loggerStep ([LoggerEvent.setLogger .info (some (.user 0)), .logToAllLogfiles .error].foldl loggerStep .start)
    .deleteLogDestinations).trace.count (.delete (.user 0)) = 1 := by
  have hothers : ∀ j d, (Destinations.start.logDestination .info).destination j = some d → d.logger ≠ some (.user 0) := by
    intro j d hd huser
    cases j <;> cases hd
    cases huser
  exact (loggers_owned [.setLogger .info (some (.user 0)), .logToAllLogfiles .error] (by simp)).2
    ⟨⟨⟨0, some (.fileobject 0)⟩, rfl, .inr (.inr ⟨0, rfl, List.not_mem_nil, hothers⟩)⟩, trivial,
      trivial⟩ .info 0 List.mem_cons_self

end Glog.LogFile
