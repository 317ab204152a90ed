import Mathlib.Data.List.Basic

/-! # Lines of a text

A line is followed by a separator, which is not in it. A text begins with lines of a limited length, and then there is
something else: the end, a line without its separator, or one that is too long. -/

namespace Lines
section
variable {α : Type} {sep : α} {limit : Nat} {text rest rest' line line' : List α} {lines : List (List α)}

/-- Lines, each with its separator. -/
def joined (sep : α) (lines : List (List α)) : List α := lines.flatMap fun line => line ++ [sep]

/-- The text begins with a line that has at most `limit` elements, its separator counted. -/
structure Starts (sep : α) (limit : Nat) (text line rest : List α) : Prop where
  eq : text = line ++ sep :: rest
  not_mem : sep ∉ line
  fits : line.length + 1 ≤ limit

/-- The longest beginning of the text that consists of such lines. -/
structure LongestPrefix (sep : α) (limit : Nat) (text : List α) (lines : List (List α)) (rest : List α) : Prop where
  eq : text = joined sep lines ++ rest
  fits : ∀ line ∈ lines, sep ∉ line ∧ line.length + 1 ≤ limit
  longest : ∀ line rest', ¬ Starts sep limit rest line rest'

@[simp] theorem joined_nil : joined sep [] = [] := rfl

theorem joined_cons : joined sep (line :: lines) = line ++ sep :: joined sep lines := by
  simp [joined]

/-- A search finds the end of the first line. -/
theorem idxOf?_line [BEq α] [LawfulBEq α] (h : sep ∉ line) (rest : List α) :
    (line ++ sep :: rest).idxOf? sep = some line.length := by
  induction line with
  | nil => simp [List.idxOf?_cons]
  | cons a line ih =>
    have ha : a ≠ sep := fun heq => h (heq ▸ List.mem_cons_self)
    have hline : sep ∉ line := fun hmem => h (List.mem_cons_of_mem a hmem)
    rw [List.cons_append, List.idxOf?_cons, ih hline]
    simp [ha]

theorem line_unique (h : line ++ sep :: rest = line' ++ sep :: rest') (hline : sep ∉ line) (hline' : sep ∉ line') :
    line = line' ∧ rest = rest' := by
  induction line generalizing line' with
  | nil =>
    cases line' with
    | nil => exact ⟨rfl, (List.cons.inj h).2⟩
    | cons a line' => exact absurd ((List.cons.inj h).1 ▸ List.mem_cons_self) hline'
  | cons a line ih =>
    cases line' with
    | nil => exact absurd ((List.cons.inj h).1 ▸ List.mem_cons_self) hline
    | cons b line' =>
      obtain ⟨rfl, htail⟩ := List.cons.inj h
      obtain ⟨rfl, hrest⟩ := ih htail (fun hmem => hline (List.mem_cons_of_mem a hmem))
        (fun hmem => hline' (List.mem_cons_of_mem a hmem))
      exact ⟨rfl, hrest⟩

namespace LongestPrefix

theorem of_not_starts (h : ∀ line rest, ¬ Starts sep limit text line rest) : LongestPrefix sep limit text [] text :=
  ⟨rfl, fun _ hline => absurd hline List.not_mem_nil, h⟩

theorem cons (hstarts : Starts sep limit text line rest') (h : LongestPrefix sep limit rest' lines rest) :
    LongestPrefix sep limit text (line :: lines) rest where
  eq := by rw [hstarts.eq, h.eq, joined_cons, List.append_assoc, List.cons_append]
  fits line' hline' := by
    rcases List.mem_cons.mp hline' with rfl | hline'
    · exact ⟨hstarts.not_mem, hstarts.fits⟩
    · exact h.fits line' hline'
  longest := h.longest

/-- The first line of a longest prefix. -/
theorem starts (h : LongestPrefix sep limit text (line :: lines) rest) :
    Starts sep limit text line (joined sep lines ++ rest) ∧
      LongestPrefix sep limit (joined sep lines ++ rest) lines rest := by
  obtain ⟨hline, hlimit⟩ := h.fits line List.mem_cons_self
  refine ⟨⟨?_, hline, hlimit⟩, rfl, fun line' hline' => h.fits line' (List.mem_cons_of_mem line hline'), h.longest⟩
  rw [h.eq, joined_cons, List.append_assoc, List.cons_append]

end LongestPrefix

theorem exists_longestPrefix (sep : α) (limit : Nat) (text : List α) :
    ∃ lines rest, LongestPrefix sep limit text lines rest := by
  induction hn : text.length using Nat.strongRecOn generalizing text with
  | ind n ih =>
    by_cases h : ∃ line rest, Starts sep limit text line rest
    · obtain ⟨line, rest', hstarts⟩ := h
      have hlength : text.length = line.length + (rest'.length + 1) := by
        rw [hstarts.eq, List.length_append, List.length_cons]
      obtain ⟨lines, rest, hmore⟩ := ih rest'.length (by omega) rest' rfl
      exact ⟨line :: lines, rest, hmore.cons hstarts⟩
    · exact ⟨[], text, .of_not_starts fun line rest hstarts => h ⟨line, rest, hstarts⟩⟩

end

end Lines
