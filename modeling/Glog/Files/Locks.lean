/-! # Record locks

A lock on a file belongs to a process, whichever of its descriptors has been used to get it. It is lost as soon as the
process closes any descriptor of the file, and it is not inherited by a child. -/

namespace Files
variable {File Process : Type} [DecidableEq File] [DecidableEq Process]

/-- Who has the lock on a file. -/
abbrev Locks (File Process : Type) := File → Option Process

namespace Locks

/-- The process closes descriptors of these files. -/
def close (p : Process) (files : List File) (locks : Locks File Process) : Locks File Process :=
  fun f => if f ∈ files ∧ locks f = some p then none else locks f

/-- The process gets the lock on a file that it has opened, if it has opened one. -/
def lock (p : Process) (opened : Option File) (locks : Locks File Process) : Locks File Process :=
  fun f => if opened = some f then some p else locks f

/-- The process ends. -/
def exit (p : Process) (locks : Locks File Process) : Locks File Process :=
  fun f => if locks f = some p then none else locks f

/-- No other process has the lock. -/
def Free (p : Process) (f : File) (locks : Locks File Process) : Prop := locks f = none ∨ locks f = some p

variable {locks : Locks File Process} {p q : Process} {f : File} {files : List File} {opened : Option File}

/-- What a process has locked stays locked unless it closes the file, and does not open it again. -/
theorem lock_close_iff (h : locks f = some p) :
    lock p opened (close p files locks) f = some p ↔ (f ∈ files → opened = some f) := by
  unfold lock close
  by_cases hopened : opened = some f
  · simp [hopened]
  · by_cases hmem : f ∈ files
    · simp [hopened, hmem, h]
    · simp [hopened, hmem, h]

theorem lock_close_opened : lock p (some f) (close p files locks) f = some p := if_pos rfl

/-- What another process has locked stays locked. -/
theorem lock_close_of_ne (h : locks f = some q) (hne : q ≠ p) (hfree : ∀ g, opened = some g → Free p g locks) :
    lock p opened (close p files locks) f = some q := by
  have hopened : opened ≠ some f := by
    intro heq
    rcases hfree f heq with hnone | hown
    · cases h.symm.trans hnone
    · exact hne (Option.some.inj (h.symm.trans hown))
  unfold lock close
  rw [if_neg hopened, if_neg fun hclosed => hne (Option.some.inj (h.symm.trans hclosed.2)), h]

omit [DecidableEq File] in
theorem exit_of_ne (h : locks f = some q) (hne : q ≠ p) : exit p locks f = some q := by
  unfold exit
  rw [if_neg fun hown => hne (Option.some.inj (h.symm.trans hown)), h]

end Locks

end Files
