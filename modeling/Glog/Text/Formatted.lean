/-! # Formatted output

What a stream makes of a sequence of insertions. The fill character stays until it is set again; the width is used up by
the next insertion, which is padded on the left. `write` is not formatted. -/

namespace Formatted

inductive Item
  | setfill (c : Char)
  | setw (n : Nat)
  | put (text : List Char)
  | write (text : List Char)

def pad (fill : Char) (width : Nat) (text : List Char) : List Char := List.replicate (width - text.length) fill ++ text

/-- The output, with the fill character and the width of the stream. -/
def output : Char → Nat → List Item → List Char
  | _, _, [] => []
  | _, width, .setfill c :: items => output c width items
  | fill, _, .setw n :: items => output fill n items
  | fill, width, .put text :: items => pad fill width text ++ output fill 0 items
  | fill, width, .write text :: items => text ++ output fill width items

section
variable {fill c : Char} {width n : Nat} {text : List Char} {items : List Item}

@[simp] theorem output_nil : output fill width [] = [] := rfl

@[simp] theorem output_setfill : output fill width (.setfill c :: items) = output c width items := rfl

@[simp] theorem output_setw : output fill width (.setw n :: items) = output fill n items := rfl

@[simp] theorem output_put : output fill width (.put text :: items) = pad fill width text ++ output fill 0 items := rfl

@[simp] theorem output_write : output fill width (.write text :: items) = text ++ output fill width items := rfl

/-- Without a width nothing is padded. -/
@[simp] theorem pad_zero : pad fill 0 text = text := by simp [pad]

theorem length_pad : (pad fill width text).length = max width text.length := by
  simp [pad]
  omega

/-- Only the fill character is added. -/
theorem count_pad (h : c ≠ fill) : (pad fill width text).count c = text.count c := by
  rw [pad, List.count_append, List.count_replicate, if_neg (by simpa using h.symm), Nat.zero_add]

end

end Formatted
