import Glog.Message.Shares

/-! # The journal of a process

The variables that messages leave behind are functions of what has been done. So is what every receiver has got: its shares
of the operations, in their order. -/

namespace Glog.LogMessage
open LogFile Run

/-! ### A run -/

def Operation.Fit : Operation → Prop
  | .log m => m.Fit
  | .reprint p => p.Fit

/-- The journal is what has been done. -/
structure Recorded (cfg : Config) (j₀ : Journal) (done : List Operation) (j : Journal) : Prop where
  can : AllCanWrite cfg j.loggers
  gives : ∀ r, Gives j₀ j (Operation.shares r [] done) r
  warned : j.alreadyWarnedBeforeInitgoogle = done.any Operation.isEarly
  exclusive : j.fatalMsgExclusive = !done.any Operation.isFatal
  fatalMessage : j.fatalMessage = Operation.fatalMessage done
  overReleased : j.overReleased = done.any Operation.releases

section
variable {cfg : Config} {j₀ j : Journal} {before done ops : List Operation} {op : Operation} {r : Receiver}

theorem shares_concat : Operation.shares r before (ops ++ [op]) = Operation.shares r before ops ++
    op.share (before ++ ops) r := by
  induction ops generalizing before with
  | nil => simp [Operation.shares]
  | cons op' ops ih => simp [Operation.shares, ih]

theorem fatalMessage_eq_nil (h : done.any Operation.isFatal = false) : Operation.fatalMessage done = [] := by
  have hnone : done.find? Operation.isFatal = none :=
    List.find?_eq_none.mpr fun op hmem hfatal => Bool.eq_false_iff.mp h (List.any_eq_true.mpr ⟨op, hmem, hfatal⟩)
  rw [Operation.fatalMessage, hnone]
  rfl

theorem fatalMessage_concat : Operation.fatalMessage (done ++ [op]) =
    if op.isFatal ∧ done.any Operation.isFatal = false then op.kept else Operation.fatalMessage done := by
  cases hany : done.any Operation.isFatal with
  | true =>
    obtain ⟨op', hmem, hfatal⟩ := List.any_eq_true.mp hany
    rw [if_neg (by simp), Operation.fatalMessage, Operation.fatalMessage, List.find?_append]
    cases hfind : done.find? Operation.isFatal with
    | none => exact absurd hfatal (List.find?_eq_none.mp hfind op' hmem)
    | some op'' => rfl
  | false =>
    have hnone : done.find? Operation.isFatal = none :=
      List.find?_eq_none.mpr fun op' hmem hfatal => Bool.eq_false_iff.mp hany (List.any_eq_true.mpr ⟨op', hmem, hfatal⟩)
    rw [Operation.fatalMessage, Operation.fatalMessage, List.find?_append, hnone, Option.none_or, List.find?_singleton]
    cases op.isFatal <;> rfl

theorem Recorded.perform (h : Recorded cfg j₀ done j) {m : Entry} (hfit : m.Fit) :
    Recorded cfg j₀ (done ++ [.log m]) (m.perform cfg j) := by
  obtain ⟨hcan, hgives⟩ := perform_gives hfit h.can
  refine ⟨hcan, fun r => ?_, ?_, ?_, ?_, ?_⟩
  · have hshare := (h.gives r).trans (hgives r)
    rw [h.warned] at hshare
    rw [shares_concat]
    exact hshare
  · rw [alreadyWarned_perform hfit, h.warned]
    simp [Operation.isEarly]
  · rw [Entry.perform, sameMutex_foldl.exclusive, h.exclusive]
    simp [Operation.isFatal]
  · rw [fatalMessage_perform hfit, h.exclusive, h.fatalMessage, fatalMessage_concat]
    cases hany : done.any Operation.isFatal with
    | true => simp
    | false =>
      rw [fatalMessage_eq_nil hany]
      simp only [Operation.isFatal, Operation.kept]
      cases m.isFatal <;> cases m.logs <;> rfl
  · rw [Entry.perform, sameMutex_foldl.overReleased, h.overReleased, releasesTwice_data hfit]
    simp [Operation.releases]

theorem Recorded.reprint (h : Recorded cfg j₀ done j) {p : Reprint} (hfit : p.Fit) :
    Recorded cfg j₀ (done ++ [.reprint p]) (p.execute cfg j) := by
  obtain ⟨hcan, hgives⟩ := reprint_gives hfit h.can
  obtain ⟨⟨hexclusive, hoverReleased, -⟩, hwarned, hfatalMessage⟩ := @keeps_reprint cfg p j
  refine ⟨hcan, fun r => ?_, ?_, ?_, ?_, ?_⟩
  · have hshare := (h.gives r).trans (hgives r)
    rw [h.fatalMessage] at hshare
    rw [shares_concat]
    exact hshare
  · rw [hwarned, h.warned]
    simp [Operation.isEarly]
  · rw [hexclusive, h.exclusive]
    simp [Operation.isFatal]
  · rw [hfatalMessage, h.fatalMessage, fatalMessage_concat]
    simp [Operation.isFatal]
  · rw [hoverReleased, h.overReleased]
    simp [Operation.releases]

/-- An operation that waits for the mutex leaves the journal as it is, and any other one is done. -/
theorem Recorded.execute (h : Recorded cfg j₀ done j) (hgoes : j.waits = false) (hfit : op.Fit) :
    (op.waits done = true ∧ Recorded cfg j₀ done (op.execute cfg j) ∧ (op.execute cfg j).waits = true) ∨
      (op.waits done = false ∧ Recorded cfg j₀ (done ++ [op]) (op.execute cfg j) ∧ (op.execute cfg j).waits = false) := by
  unfold Operation.execute
  rw [hgoes, if_neg Bool.false_ne_true]
  cases op with
  | log m =>
    have hwaits : (j.overReleased = true ∧ isDue (m.flagsIn j) (m.data j) = true ∧ ¬ m.acquires = true) ↔
        (Operation.log m).waits done = true := by
      rw [h.overReleased, isDue_data]
      simp [Operation.waits, and_assoc]
    dsimp only
    rw [Entry.execute]
    by_cases hwait : (Operation.log m).waits done = true
    · rw [if_pos (hwaits.mpr hwait)]
      exact Or.inl ⟨hwait, ⟨h.can, fun r => h.gives r, h.warned, h.exclusive, h.fatalMessage, h.overReleased⟩, rfl⟩
    · rw [if_neg (fun hboth => hwait (hwaits.mp hboth))]
      refine Or.inr ⟨Bool.eq_false_iff.mpr hwait, h.perform hfit, ?_⟩
      rw [Entry.perform, sameMutex_foldl.waits]
      exact hgoes
  | reprint p => exact Or.inr ⟨rfl, h.reprint hfit, keeps_reprint.waits.trans hgoes⟩

theorem foldl_of_waits (h : j.waits = true) : ops.foldl (Operation.execute cfg) j = j := by
  induction ops with
  | nil => rfl
  | cons op ops ih =>
    have hsame : op.execute cfg j = j := by
      unfold Operation.execute
      exact if_pos h
    rw [List.foldl_cons, hsame]
    exact ih

/-- What is done are the operations that are reached. -/
theorem recorded_foldl (hfit : ∀ op ∈ ops, op.Fit) (h : Recorded cfg j₀ done j) (hgoes : j.waits = false) :
    Recorded cfg j₀ (done ++ Operation.reached done ops) (ops.foldl (Operation.execute cfg) j) := by
  induction ops generalizing done j with
  | nil =>
    rw [Operation.reached, List.append_nil]
    exact h
  | cons op ops ih =>
    rw [List.foldl_cons, Operation.reached]
    rcases h.execute hgoes (hfit op List.mem_cons_self) with ⟨hwaits, hkept, hstops⟩ | ⟨hwaits, hdone, hgoes'⟩
    · rw [if_pos hwaits, List.append_nil, foldl_of_waits hstops]
      exact hkept
    · rw [hwaits, if_neg Bool.false_ne_true, List.append_cons]
      exact ih (fun op' hmem => hfit op' (List.mem_cons_of_mem op hmem)) hdone hgoes'

theorem recorded_start {s : Loggers} (h : AllCanWrite cfg s) : Recorded cfg (.start s) [] (.start s) where
  can := h
  gives _ := .refl
  warned := rfl
  exclusive := rfl
  fatalMessage := rfl
  overReleased := rfl

/-! ### Without colors -/

namespace Operation

/-- The same without colors. -/
def uncolored : Operation → Operation
  | .log m => .log { m with colorFlags := ⟨false, false, false⟩ }
  | .reprint p => .reprint { p with colorFlags := ⟨false, false, false⟩ }

/-- No escape sequence begins in the line. -/
def Clean : Operation → Prop
  | .log m => '\x1b' ∉ m.line
  | .reprint _ => True

theorem isEarly_uncolored : op.uncolored.isEarly = op.isEarly := by cases op <;> rfl

theorem isFatal_uncolored : op.uncolored.isFatal = op.isFatal := by cases op <;> rfl

theorem kept_uncolored : op.uncolored.kept = op.kept := by cases op <;> rfl

end Operation

theorem any_isEarly_uncolored : (before.map Operation.uncolored).any Operation.isEarly = before.any Operation.isEarly := by
  rw [List.any_map]
  exact congrArg before.any (funext fun _ => Operation.isEarly_uncolored)

theorem fatalMessage_uncolored : Operation.fatalMessage (before.map Operation.uncolored) =
    Operation.fatalMessage before := by
  have hfatal : Operation.isFatal ∘ Operation.uncolored = Operation.isFatal := funext fun _ => Operation.isFatal_uncolored
  rw [Operation.fatalMessage, Operation.fatalMessage, List.find?_map, hfatal]
  cases before.find? Operation.isFatal with
  | none => rfl
  | some op => exact Operation.kept_uncolored

/-- What is written of the first texts shows the second ones. -/
def Shows (l l' : List Text) : Prop := ∀ rest, shown false (l.flatten ++ rest) = l'.flatten ++ shown false rest

theorem Shows.nil : Shows [] [] := fun _ => rfl

theorem Shows.append {l₁ l₂ l₁' l₂' : List Text} (h₁ : Shows l₁ l₁') (h₂ : Shows l₂ l₂') :
    Shows (l₁ ++ l₂) (l₁' ++ l₂') := fun rest => by
  rw [List.flatten_append, List.append_assoc, h₁, h₂, List.flatten_append, List.append_assoc]

theorem Shows.text {text : Text} (h : '\x1b' ∉ text) : Shows [text] [text] := fun rest => by
  rw [List.flatten_singleton]
  exact shown_append h

theorem Shows.colored {flags : ColorFlags} {isStdout : Bool} {severity : Severity} {text : Text} (h : '\x1b' ∉ text) :
    Shows [coloredWriteToStderrOrStdout flags isStdout severity text] [text] := fun rest => by
  rw [List.flatten_singleton, List.flatten_singleton]
  exact shown_colored h

theorem Shows.ite {c : Prop} [Decidable c] {l l' : List Text} (h : Shows l l') :
    Shows (if c then l else []) (if c then l' else []) := by
  split
  · exact h
  · exact .nil

theorem escape_not_mem_texts : '\x1b' ∉ warningText ∧ '\x1b' ∉ emailsDisabledText ∧ '\x1b' ∉ stackTraceText := by
  refine ⟨?_, ?_, ?_⟩
  · exact fun hmem => absurd (List.all_eq_true.mp (rfl : warningText.all (· != '\x1b') = true) _ hmem) (by simp)
  · exact fun hmem => absurd (List.all_eq_true.mp (rfl : emailsDisabledText.all (· != '\x1b') = true) _ hmem) (by simp)
  · exact fun hmem => absurd (List.all_eq_true.mp (rfl : stackTraceText.all (· != '\x1b') = true) _ hmem) (by simp)

/-- The receivers on a terminal. -/
def Receiver.isConsole (r : Receiver) : Prop := r = .stdout ∨ r = .stderr

theorem shows_share_entry {m : Entry} {warned : Bool} (hconsole : r.isConsole) (hclean : '\x1b' ∉ m.line) :
    Shows (m.share warned r) (Entry.share { m with colorFlags := ⟨false, false, false⟩ } warned r) := by
  rcases hconsole with rfl | rfl
  · exact Shows.ite (Shows.colored hclean)
  · exact (((Shows.ite (Shows.text escape_not_mem_texts.1)).append (Shows.ite (Shows.colored hclean))).append
      (Shows.ite (Shows.text escape_not_mem_texts.2.1))).append (Shows.ite (Shows.text escape_not_mem_texts.2.2))

theorem shows_share_reprint {p : Reprint} {message : Text} (hconsole : r.isConsole) (hclean : '\x1b' ∉ message) :
    Shows (p.share message r) (Reprint.share { p with colorFlags := ⟨false, false, false⟩ } message r) := by
  rcases hconsole with rfl | rfl
  · exact Shows.ite (Shows.colored hclean)
  · refine Shows.append ?_ (Shows.ite (Shows.colored hclean))
    change Shows (if p.logtostderr then [] else [message]) (if p.logtostderr then [] else [message])
    split
    · exact .nil
    · exact Shows.text hclean

theorem escape_not_mem_fatalMessage (h : ∀ op ∈ before, op.Clean) :
    '\x1b' ∉ cString (Operation.fatalMessage before) := fun hmem => by
  have hkept := (List.takeWhile_sublist _).subset hmem
  rw [Operation.fatalMessage] at hkept
  cases hfind : before.find? Operation.isFatal with
  | none =>
    rw [hfind] at hkept
    cases hkept
  | some op =>
    have hclean := h op (List.mem_of_find?_eq_some hfind)
    rw [hfind] at hkept
    cases op with
    | log m =>
      simp only [Option.elim_some, Operation.kept] at hkept
      split at hkept
      · exact hclean (List.mem_of_mem_take hkept)
      · cases hkept
    | reprint p => cases hkept

theorem shows_share (hconsole : r.isConsole) (hbefore : ∀ op' ∈ before, op'.Clean) (hclean : op.Clean) :
    Shows (op.share before r) (op.uncolored.share (before.map Operation.uncolored) r) := by
  cases op with
  | log m =>
    change Shows (m.share (before.any Operation.isEarly) r)
      (Entry.share { m with colorFlags := ⟨false, false, false⟩ }
        ((before.map Operation.uncolored).any Operation.isEarly) r)
    rw [any_isEarly_uncolored]
    exact shows_share_entry hconsole hclean
  | reprint p =>
    change Shows (if cString (Operation.fatalMessage before) = [] then []
      else p.share (cString (Operation.fatalMessage before)) r)
      (if cString (Operation.fatalMessage (before.map Operation.uncolored)) = [] then []
        else Reprint.share { p with colorFlags := ⟨false, false, false⟩ }
          (cString (Operation.fatalMessage (before.map Operation.uncolored))) r)
    rw [fatalMessage_uncolored]
    split
    · exact .nil
    · exact shows_share_reprint hconsole (escape_not_mem_fatalMessage hbefore)

theorem shows_shares (hconsole : r.isConsole) (hbefore : ∀ op ∈ before, op.Clean) (hclean : ∀ op ∈ ops, op.Clean) :
    Shows (Operation.shares r before ops)
      (Operation.shares r (before.map Operation.uncolored) (ops.map Operation.uncolored)) := by
  induction ops generalizing before with
  | nil => exact .nil
  | cons op ops ih =>
    have hop : op.Clean := hclean op List.mem_cons_self
    have hrest := @ih (before ++ [op])
      (fun op' hmem => (List.mem_append.mp hmem).elim (hbefore op') fun hlast => List.mem_singleton.mp hlast ▸ hop)
      (fun op' hmem => hclean op' (List.mem_cons_of_mem op hmem))
    rw [List.map_append] at hrest
    exact (shows_share hconsole hbefore hop).append hrest

/-! ### The journal of a process -/

/-- What the receivers have got at the end of a run. -/
structure Kept (ops : List Operation) (j : Journal) : Prop where
  logfile : ∀ i, fileText i j.loggers = (Operation.shares (.logfile i) [] ops).flatten
  given : ∀ r, (∀ i, r ≠ .logfile i) → j.given r = Operation.shares r [] ops
  /-- A terminal shows the same whatever the colors. -/
  shown : (∀ op ∈ ops, op.Clean) → ∀ r, r.isConsole →
    shown false (j.given r).flatten = (Operation.shares r [] (ops.map Operation.uncolored)).flatten

end

/-! ### An example -/

/-- A message of `LOG` with the text, in the plain setting. -/
def plainEntry (severity : Severity) (text : Text) : Entry where
  prefixFlags := plainPrefixFlags
  info := plainInfo severity
  sendMethod := .sendToLog
  pointer := false
  buf := .new fun _ => ' '
  insertions := [text]
  flags := plainFlags
  colorFlags := ⟨false, false, false⟩
  throws _ := false
  timestamp := 0
  env _ := plainEnv
  flushEnv _ := plainEnv
  acquires := false

def plainReprint : Reprint where
  logtostderr := false
  logtostdout := false
  stderrthreshold := 2
  colorFlags := ⟨false, false, false⟩
  env _ := plainEnv

theorem plainEnv_succeeds : AllOpen plainEnv ∧ plainEnv.diskFull = false := ⟨fun _ _ => ⟨1, true, rfl⟩, rfl⟩

theorem plainEntry_fit (severity : Severity) (c : Char) (hc : c ≠ '\n') : (plainEntry severity [c]).Fit where
  env _ := plainEnv_succeeds
  flushEnv _ := plainEnv_succeeds
  returns _ := rfl
  regular := ⟨List.cons_ne_nil _ _, fun hlast => absurd (Option.some.inj hlast) hc, rfl, rfl⟩

/-- An information, a fatal message, and this again; the last message waits for the mutex. -/
def fatalRun : List Operation :=
  [.log (plainEntry .info ['a']), .log (plainEntry .fatal ['b']), .reprint plainReprint, .log (plainEntry .info ['c'])]

example : (Operation.shares (.logfile .info) [] (Operation.reached [] fatalRun)).flatten =
    ['a', '\n', 'b', '\n', 'b', '\n'] := by decide

end Glog.LogMessage
