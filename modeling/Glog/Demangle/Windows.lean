import Glog.Demangle.State
import Glog.Memory.Strings
import Glog.Text.Lines

/-! # The text in parentheses

On Windows `Demangle` cuts the symbol out of a name such as `@ILT+1105(?func@Foo@@SAXH@Z)`: it copies what is between
the first `(` and the next `)` to a local buffer, for `UnDecorateSymbolName`. The length that it copies is a difference
of two addresses. -/

namespace Glog.Demangle.Windows
open Memory

/-- `char buffer[1024]` -/
def bufferSize : Nat := 1024

/-- The mangled name lies in memory with its terminator, and not at the null pointer. -/
structure Mangled extends CString where
  address : Nat
  notNull : 0 < address
  fits : address + chars.length < 2 ^ 64

/-! ### The function -/

/-- `strchr(str + start, c)`, as an index into `str`. -/
def strchr (chars : List Char) (start : Nat) (c : Char) : Option Nat :=
  ((chars.drop start).idxOf? c).map (start + ·)

/-- The address that the index stands for; no index is the null pointer. -/
def Mangled.pointer (mangled : Mangled) : Option Nat → UInt64
  | none => 0
  | some i => UInt64.ofNat (mangled.address + i)

structure Outcome where
  buffer : Cells Char
  /-- What `UnDecorateSymbolName` gets. -/
  passed : List Char

/-- `Demangle` on Windows; the local buffer has any contents at first. -/
def demangle (mangled : Mangled) (contents : Nat → Char) : Outcome :=
  let buffer : Cells Char := ⟨contents, []⟩
  match strchr mangled.chars 0 '(' with
  | none => ⟨buffer, mangled.chars⟩
  | some lparen =>
    let rparen := strchr mangled.chars lparen ')'
    let length := (mangled.pointer rparen - mangled.pointer (some lparen) - 1).toNat
    let buffer := (buffer.strncpy '\x00' 0 (mangled.chars.drop (lparen + 1)) length).write length '\x00'
    ⟨buffer, buffer.string '\x00' 0 (length + 1)⟩

/-! ### The library functions -/

section
variable {chars l l' : List Char} {start : Nat} {c : Char}

theorem strchr_of_not_mem (h : c ∉ chars.drop start) : strchr chars start c = none := by
  rw [strchr, List.idxOf?_eq_none_iff.mpr h]
  rfl

theorem strchr_append (hdrop : chars.drop start = l ++ c :: l') (h : c ∉ l) :
    strchr chars start c = some (start + l.length) := by
  rw [strchr, hdrop, Lines.idxOf?_line h]
  rfl

end

/-! ### What is copied -/

section
variable {mangled : Mangled} {contents : Nat → Char} {l inner l' : List Char}

theorem parts (mangled : Mangled) : '(' ∉ mangled.chars ∨ ∃ l source, mangled.chars = l ++ '(' :: source ∧ '(' ∉ l ∧
    (')' ∉ source ∨ ∃ inner l', source = inner ++ ')' :: l' ∧ ')' ∉ inner) := by
  by_cases hlparen : '(' ∈ mangled.chars
  · obtain ⟨l, source, h, hl⟩ := List.eq_append_cons_of_mem hlparen
    refine Or.inr ⟨l, source, h, hl, ?_⟩
    by_cases hrparen : ')' ∈ source
    · obtain ⟨inner, l', hsource, hinner⟩ := List.eq_append_cons_of_mem hrparen
      exact Or.inr ⟨inner, l', hsource, hinner⟩
    · exact Or.inl hrparen
  · exact Or.inl hlparen

/-- The buffer after the copy. -/
def copied (contents : Nat → Char) (source : List Char) (length : Nat) : Cells Char :=
  (Cells.strncpy '\x00' 0 source length ⟨contents, []⟩).write length '\x00'

theorem demangle_plain (h : '(' ∉ mangled.chars) : demangle mangled contents = ⟨⟨contents, []⟩, mangled.chars⟩ := by
  rw [demangle, strchr_of_not_mem h]

theorem demangle_of_lparen {source : List Char} (h : mangled.chars = l ++ '(' :: source) (hl : '(' ∉ l) :
    demangle mangled contents =
      let length := (mangled.pointer (strchr mangled.chars l.length ')') - mangled.pointer (some l.length) - 1).toNat
      ⟨copied contents source length, (copied contents source length).string '\x00' 0 (length + 1)⟩ := by
  have hdrop : mangled.chars.drop (l.length + 1) = source := by
    rw [h, List.drop_append]
    simp
  have hlparen : strchr mangled.chars 0 '(' = some l.length := by
    have hstart : mangled.chars.drop 0 = l ++ '(' :: source := h
    rw [strchr_append hstart hl, Nat.zero_add]
  simp only [demangle, hlparen, hdrop, copied]

theorem toNat_pointer {i : Nat} (hi : i ≤ mangled.chars.length) :
    (mangled.pointer (some i)).toNat = mangled.address + i := by
  have hfits := mangled.fits
  exact UInt64.toNat_ofNat_of_lt' (Nat.lt_of_le_of_lt (Nat.add_le_add_left hi _) hfits)

theorem length_parens (h : mangled.chars = l ++ '(' :: (inner ++ ')' :: l')) (hinner : ')' ∉ inner) :
    (mangled.pointer (strchr mangled.chars l.length ')') - mangled.pointer (some l.length) - 1).toNat = inner.length := by
  have hlength : mangled.chars.length = l.length + (inner.length + (l'.length + 1) + 1) := by simp [h]
  have hrparen : strchr mangled.chars l.length ')' = some (l.length + (inner.length + 1)) :=
    @strchr_append mangled.chars ('(' :: inner) l' l.length ')' (by simp [h]) (by simp [hinner])
  have hfits := mangled.fits
  rw [hrparen, UInt64.toNat_sub, UInt64.toNat_sub, toNat_pointer (by omega), toNat_pointer (by omega), UInt64.toNat_one]
  omega

theorem length_unclosed (h : mangled.chars = l ++ '(' :: inner) (hinner : ')' ∉ inner) :
    (mangled.pointer (strchr mangled.chars l.length ')') - mangled.pointer (some l.length) - 1).toNat =
      2 ^ 64 - (mangled.address + l.length) - 1 := by
  have hlength : mangled.chars.length = l.length + (inner.length + 1) := by simp [h]
  have hrparen : strchr mangled.chars l.length ')' = none := strchr_of_not_mem (by simp [h, hinner])
  have hfits := mangled.fits
  have hnull := mangled.notNull
  rw [hrparen, UInt64.toNat_sub, UInt64.toNat_sub, toNat_pointer (by omega), UInt64.toNat_one, Mangled.pointer,
    UInt64.toNat_zero]
  omega

/-! ### The buffer -/

/-- All indexes up to the terminator's are written. -/
theorem copied_inside_iff (source : List Char) (length : Nat) :
    (∀ i ∈ (copied contents source length).written, i < bufferSize) ↔ length < bufferSize := by
  constructor
  · intro h
    exact h length List.mem_cons_self
  · intro h i hi
    rcases List.mem_cons.mp hi with rfl | hi
    · exact h
    · have hwrites : Writes 0 (0 + length) ⟨contents, []⟩ (Cells.strncpy '\x00' 0 source length ⟨contents, []⟩) :=
        strncpy_writes
      obtain ⟨written, hwritten, hin⟩ := hwrites.written
      rw [hwritten, List.append_nil] at hi
      exact Nat.lt_trans (Nat.zero_add length ▸ (hin i hi).2) h

theorem copied_text (hnul : '\x00' ∉ inner) (rest : List Char) :
    (copied contents (inner ++ rest) inner.length).string '\x00' 0 (inner.length + 1) = inner := by
  have hcopy : (Cells.strncpy '\x00' 0 (inner ++ rest) inner.length ⟨contents, []⟩).slice 0 inner.length = inner := by
    simp [slice_strncpy]
  have hslice : (copied contents (inner ++ rest) inner.length).slice 0 (inner.length + 1) = inner ++ ['\x00'] := by
    simpa [copied, Cells.store] using slice_store_append hcopy ['\x00']
  exact string_of_slice hnul hslice

theorem passed_parens (h : mangled.chars = l ++ '(' :: (inner ++ ')' :: l')) (hl : '(' ∉ l) (hinner : ')' ∉ inner) :
    (demangle mangled contents).passed = inner := by
  have hnul : '\x00' ∉ inner := fun hmem => mangled.nulFree (by simp [h, hmem])
  rw [demangle_of_lparen h hl, length_parens h hinner]
  exact copied_text hnul _

/-! ### Where the copy stays inside -/

/-- The buffer is accessed inside only, and the text in parentheses, or the whole name if there are none, is passed. -/
structure Extracts (mangled : Mangled) (contents : Nat → Char) : Prop where
  inside : ∀ i ∈ (demangle mangled contents).buffer.written, i < bufferSize
  parens : ∀ l inner l', mangled.chars = l ++ '(' :: (inner ++ ')' :: l') → '(' ∉ l → ')' ∉ inner →
    inner.length < bufferSize → (demangle mangled contents).passed = inner
  plain : '(' ∉ mangled.chars → (demangle mangled contents).passed = mangled.chars

/-- The copied length is below the size of the buffer. -/
inductive Short (mangled : Mangled) : Prop
  | plain (h : '(' ∉ mangled.chars)
  | parens (l inner l' : List Char) (h : mangled.chars = l ++ '(' :: (inner ++ ')' :: l')) (hl : '(' ∉ l)
      (hinner : ')' ∉ inner) (hlt : inner.length < bufferSize)
  | unclosed (l inner : List Char) (h : mangled.chars = l ++ '(' :: inner) (hl : '(' ∉ l) (hinner : ')' ∉ inner)
      (hlt : 2 ^ 64 - (mangled.address + l.length) - 1 < bufferSize)

section
variable {mangled : Mangled} {contents : Nat → Char} {l inner l' : List Char}

theorem inside_plain (h : '(' ∉ mangled.chars) : ∀ i ∈ (demangle mangled contents).buffer.written, i < bufferSize := by
  rw [demangle_plain h]
  intro i hi
  cases hi

theorem inside_parens_iff (h : mangled.chars = l ++ '(' :: (inner ++ ')' :: l')) (hl : '(' ∉ l) (hinner : ')' ∉ inner) :
    (∀ i ∈ (demangle mangled contents).buffer.written, i < bufferSize) ↔ inner.length < bufferSize := by
  rw [demangle_of_lparen h hl, length_parens h hinner]
  exact copied_inside_iff _ _

theorem inside_unclosed_iff (h : mangled.chars = l ++ '(' :: inner) (hl : '(' ∉ l) (hinner : ')' ∉ inner) :
    (∀ i ∈ (demangle mangled contents).buffer.written, i < bufferSize) ↔
      2 ^ 64 - (mangled.address + l.length) - 1 < bufferSize := by
  rw [demangle_of_lparen h hl, length_unclosed h hinner]
  exact copied_inside_iff _ _

end

/-- The symbol is extracted inside the buffer exactly if the copied length is below 1024: that of the text in parentheses,
or, where no `)` follows, the distance from the `(` to the end of the address space. -/
theorem extracts_iff (mangled : Mangled) (contents : Nat → Char) : Extracts mangled contents ↔ Short mangled := by
  constructor
  · intro h
    rcases parts mangled with hplain | ⟨l, source, hchars, hl, hunclosed | ⟨inner, l', rfl, hinner⟩⟩
    · exact .plain hplain
    · exact .unclosed l source hchars hl hunclosed ((inside_unclosed_iff hchars hl hunclosed).mp h.inside)
    · exact .parens l inner l' hchars hl hinner ((inside_parens_iff hchars hl hinner).mp h.inside)
  · intro h
    refine ⟨?_, fun l inner l' hchars hl hinner _ => passed_parens hchars hl hinner, fun hplain => ?_⟩
    · cases h with
      | plain hplain => exact inside_plain hplain
      | parens l inner l' hchars hl hinner hlt => exact (inside_parens_iff hchars hl hinner).mpr hlt
      | unclosed l inner hchars hl hinner hlt => exact (inside_unclosed_iff hchars hl hinner).mpr hlt
    · rw [demangle_plain hplain]

/-- The name `f(`, with no closing parenthesis. -/
def unclosedName : Mangled where
  chars := ['f', '(']
  nulFree := by decide
  address := 4096
  notNull := by decide
  fits := by decide

theorem not_extracts_unclosed : ¬ Extracts unclosedName fun _ => 'x' := by
  intro h
  have hlt := (@inside_unclosed_iff unclosedName (fun _ => 'x') ['f'] [] rfl (by decide) (by decide)).mp h.inside
  exact absurd hlt (by decide)

end

end Glog.Demangle.Windows
