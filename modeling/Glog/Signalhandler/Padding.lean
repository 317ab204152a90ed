import Glog.Signalhandler.Formatter

/-! # What a padded number looks like

The text of the number is written first and then copied to the right, from left to right. Where the padding is shorter
than the text, the copy reads what it has written before, so the first characters are repeated. The text
survives that only if it is repeated anyway, by its last digit. It always does where `std::copy` moves it whole, as a
library may do for bytes. -/

namespace Glog.Signalhandler
open LogFile Memory

/-- A number in hexadecimal, without leading zeros. -/
def hexText (number : UInt64) : Text := '0' :: 'x' :: Nat.toDigits 16 number.toNat

/-- From `f` to `f'` spaces and the text of a number have been appended, and nothing before them has changed. -/
structure Padded (number : UInt64) (width : Int) (f f' : MinimalFormatter) : Prop where
  cursor : f'.cursor = f.cursor + ((width - (hexText number).length).toNat + (hexText number).length)
  appended : f'.memory.slice f.cursor (f'.cursor - f.cursor)
    = List.replicate (width - (hexText number).length).toNat ' ' ++ hexText number
  before : ∀ i < f.cursor, f'.memory.cell i = f.memory.cell i

/-- A text has been appended. -/
structure Appended (t : Text) (f f' : MinimalFormatter) : Prop where
  cursor : f'.cursor = f.cursor + t.length
  slice : f'.memory.slice f.cursor t.length = t

/-- Read modulo `d`, a text is the same. -/
def Repeats (d : Nat) (t : Text) : Prop := ∀ k < t.length, t[k % d]? = t[k]?

section
variable {f : MinimalFormatter} {str t : Text} {number : UInt64} {width : Int} {c : Char} {b d n : Nat}

/-! ### Digits -/

theorem digit_eq_digitChar (h : n < 16) : MinimalFormatter.digit n = Nat.digitChar n := by
  have hall : ∀ n < 16, MinimalFormatter.digit n = Nat.digitChar n := by decide
  exact hall n h

theorem mem_toDigits (hb : 1 < b) (h : c ∈ Nat.toDigits b n) : ∃ d < b, c = Nat.digitChar d := by
  induction n using Nat.strongRecOn with
  | ind n ih =>
    rw [Nat.toDigits_eq_if hb] at h
    split at h
    · rename_i hlt
      exact ⟨n, hlt, List.mem_singleton.mp h⟩
    · rename_i hge
      rcases List.mem_append.mp h with h | h
      · exact ih (n / b) (Nat.div_lt_self (by omega) hb) h
      · exact ⟨n % b, Nat.mod_lt n (by omega), List.mem_singleton.mp h⟩

theorem getLast?_toDigits (hb : 1 < b) : (Nat.toDigits b n).getLast? = some (Nat.digitChar (n % b)) := by
  rw [Nat.toDigits_eq_if hb]
  split
  · rename_i hlt
    rw [Nat.mod_eq_of_lt hlt, List.getLast?_singleton]
  · rw [List.getLast?_concat]

theorem ne_x_of_mem_toDigits (h : c ∈ Nat.toDigits 16 n) : c ≠ 'x' := by
  obtain ⟨d, -, rfl⟩ := mem_toDigits (by decide) h
  exact Nat.digitChar_ne 'x' (by decide)

theorem length_hexText : (hexText number).length = (Nat.toDigits 16 number.toNat).length + 2 := rfl

/-- The text of a number is repeated at its last digit at most. -/
theorem hexText_repeats_iff (number : UInt64) (hd : 0 < d) :
    Repeats d (hexText number) ↔ (hexText number).length ≤ d ∨ d + 1 = (hexText number).length ∧ number.toNat % 16 = 0 := by
  have hlast := getLast?_toDigits (b := 16) (n := number.toNat) (by decide)
  have hpos : 0 < (Nat.toDigits 16 number.toNat).length := Nat.length_toDigits_pos
  rw [List.getLast?_eq_getElem?] at hlast
  rw [length_hexText]
  constructor
  · intro h
    by_cases hlong : (Nat.toDigits 16 number.toNat).length + 2 ≤ d
    · exact Or.inl hlong
    · obtain rfl | htwo : d = 1 ∨ 2 ≤ d := by omega
      · -- the padding is one character: the text is all `0`
        have hx := h 1 (by rw [length_hexText]; omega)
        exact absurd hx (by simp [hexText])
      · obtain ⟨d, rfl⟩ := Nat.exists_eq_add_of_le' htwo
        by_cases hshort : d + 2 + 1 < (Nat.toDigits 16 number.toNat).length + 2
        · -- an `x` behind the first one
          have hx := h (d + 2 + 1) (by rw [length_hexText]; exact hshort)
          rw [Nat.add_mod_left, Nat.mod_eq_of_lt (by omega)] at hx
          have hmem : 'x' ∈ Nat.toDigits 16 number.toNat := List.mem_of_getElem? (i := d + 1) hx.symm
          exact absurd rfl (ne_x_of_mem_toDigits hmem)
        · have hlength : d + 1 = (Nat.toDigits 16 number.toNat).length := by omega
          have hzero := h (d + 2) (by rw [length_hexText]; omega)
          rw [Nat.mod_self] at hzero
          have hdigit : some '0' = some (Nat.digitChar (number.toNat % 16)) := by
            rw [← hlast, ← hlength]
            exact hzero
          have hmod := Nat.digitChar_eq_zero.mp (Option.some.inj hdigit).symm
          exact Or.inr ⟨by omega, hmod⟩
  · rintro (hle | ⟨hlength, hmod⟩) k hk
    · rw [length_hexText] at hk
      rw [Nat.mod_eq_of_lt (by omega)]
    · rw [length_hexText] at hk
      obtain hlt | rfl : k < d ∨ k = d := by omega
      · rw [Nat.mod_eq_of_lt hlt]
      · obtain ⟨d, rfl⟩ := Nat.exists_eq_add_of_le' (show 2 ≤ k by omega)
        have hindex : (Nat.toDigits 16 number.toNat).length - 1 = d := by omega
        rw [hindex, hmod] at hlast
        rw [Nat.mod_self]
        exact hlast.symm

/-! ### The text -/

theorem appendStringLoop_eq {cursor end_ : Nat} (hnul : '\x00' ∉ str) : ∀ {i : Nat} {m : Cells Char},
    cursor + i + str.length ≤ end_ →
      MinimalFormatter.appendStringLoop cursor end_ str i m = (i + str.length, m.store (cursor + i) str) := by
  induction str with
  | nil => exact fun _ => rfl
  | cons c str ih =>
    intro i m hroom
    rw [List.length_cons] at hroom
    have hc : c ≠ '\x00' := fun h => hnul (h ▸ List.mem_cons_self)
    rw [MinimalFormatter.appendStringLoop, if_pos ⟨hc, by omega⟩,
      ih (fun h => hnul (List.mem_cons_of_mem c h)) (by omega), List.length_cons, Cells.store]
    congr 1
    omega

theorem appendUint64Loop_eq (cursor : Nat) {radix : Nat} (hb : 1 < radix) (hb' : radix ≤ 16) (left : Nat) :
    ∀ {n i : Nat} {m : Cells Char}, (Nat.toDigits radix n).length ≤ left →
      MinimalFormatter.appendUint64Loop cursor radix left n i m
        = (i + (Nat.toDigits radix n).length, m.store (cursor + i) (Nat.toDigits radix n).reverse) := by
  induction left with
  | zero =>
    intro n i m h
    exact absurd Nat.length_toDigits_pos (Nat.not_lt.mpr h)
  | succ left ih =>
    intro n i m h
    have hdigit := digit_eq_digitChar (Nat.lt_of_lt_of_le (Nat.mod_lt n (by omega)) hb')
    rw [MinimalFormatter.appendUint64Loop, hdigit]
    by_cases hlt : n < radix
    · rw [Nat.toDigits_of_lt_base hlt, Nat.mod_eq_of_lt hlt, if_pos (Nat.div_eq_of_lt hlt)]
      rfl
    · have hle : radix ≤ n := Nat.not_lt.mp hlt
      have hne : n / radix ≠ 0 := Nat.pos_iff_ne_zero.mp (Nat.div_pos hle (by omega))
      rw [Nat.toDigits_of_base_le hb hle] at h ⊢
      rw [List.length_append, List.length_singleton] at h
      rw [if_neg hne, ih (by omega), List.length_append, List.length_singleton, List.reverse_append]
      congr 1
      omega

theorem Appended.trans {f' f'' : MinimalFormatter} {t' : Text} (h : Appended t f f') (h' : Appended t' f' f'')
    (hext : Extends f' f'') :
    Appended (t ++ t') f f'' := by
  have hcursor := h.cursor
  have hfirst : f''.memory.slice f.cursor t.length = t := by
    rw [slice_congr (m := f'.memory), h.slice]
    intro k hk
    exact hext.writes.frame _ (Or.inl (by omega))
  refine ⟨?_, ?_⟩
  · rw [h'.cursor, h.cursor, List.length_append, Nat.add_assoc]
  · rw [List.length_append, slice_add, hfirst, ← h.cursor, h'.slice]

theorem appendString_appended (hnul : '\x00' ∉ str) (hroom : f.cursor + str.length ≤ f.end_) :
    Appended str f (f.appendString str) := by
  have hloop := appendStringLoop_eq hnul (i := 0) (m := f.memory) hroom
  unfold MinimalFormatter.appendString
  rw [hloop, Nat.zero_add]
  exact ⟨rfl, slice_store f.cursor⟩

theorem appendUint64_appended {radix : Nat} (hb : 1 < radix) (hb' : radix ≤ 16)
    (hroom : f.cursor + (Nat.toDigits radix number.toNat).length ≤ f.end_) :
    Appended (Nat.toDigits radix number.toNat) f (f.appendUint64 number radix) := by
  have hloop := appendUint64Loop_eq f.cursor hb hb' (f.end_ - f.cursor) (i := 0) (m := f.memory)
    (show (Nat.toDigits radix number.toNat).length ≤ f.end_ - f.cursor by omega)
  have hstored := slice_store (l := (Nat.toDigits radix number.toNat).reverse) (m := f.memory) f.cursor
  rw [List.length_reverse] at hstored
  unfold MinimalFormatter.appendUint64
  rw [hloop, Nat.zero_add]
  refine ⟨rfl, ?_⟩
  dsimp only
  rw [slice_reverse, Nat.add_zero, hstored, List.reverse_reverse]

theorem appendHex_appended (f : MinimalFormatter) (number : UInt64) (hroom : f.cursor + (hexText number).length ≤ f.end_) :
    Appended (hexText number) f (f.appendHex number) := by
  rw [length_hexText] at hroom
  have hstring : Appended ['0', 'x'] f (f.appendString ['0', 'x']) :=
    appendString_appended (by decide) (by simp only [List.length_cons, List.length_nil]; omega)
  have hcursor : (f.appendString ['0', 'x']).cursor = f.cursor + 2 := hstring.cursor
  refine hstring.trans (appendUint64_appended (by decide) (Nat.le_refl 16) ?_) appendUint64_extends
  rw [hcursor, appendString_extends.end_]
  omega

/-! ### The padding -/

/-- What a padded number comes to: its text read modulo the padding. -/
theorem slice_appendHexWithPadding (f : MinimalFormatter) (number : UInt64) (width : Int)
    (hroom : f.cursor + (hexText number).length ≤ f.end_)
    (hpad : (hexText number).length < width) :
    let d := (width - (hexText number).length).toNat
    (f.appendHexWithPadding number width).memory.slice f.cursor (d + (hexText number).length)
      = List.replicate d ' ' ++ (List.range (hexText number).length).map fun k => (hexText number).getD (k % d) ' ' := by
  intro d
  obtain ⟨hcursor, hslice⟩ := appendHex_appended f number hroom
  have hlt : ((f.appendHex number).cursor : Int) < f.cursor + width := by omega
  have hdelta : (f.cursor + width - (f.appendHex number).cursor : Int).toNat = d := by omega
  have hcount : (f.appendHex number).cursor - f.cursor = (hexText number).length := by omega
  unfold MinimalFormatter.appendHexWithPadding
  dsimp only
  rw [if_pos hlt, hdelta, hcount]
  dsimp only
  rw [slice_shift (by omega)]
  congr 1
  refine List.map_congr_left fun k hk => ?_
  have hk := List.mem_range.mp hk
  have hkd : k % d < (hexText number).length := Nat.lt_of_le_of_lt (Nat.mod_le k d) hk
  rw [(slice_eq_iff rfl).mp hslice (k % d) hkd]
  exact List.getElem_eq_getD ' '

theorem map_getD_eq_iff : ((List.range t.length).map fun k => t.getD (k % d) ' ') = t ↔ Repeats d t := by
  constructor
  · intro h k hk
    have hkd : k % d < t.length := Nat.lt_of_le_of_lt (Nat.mod_le k d) hk
    have hget := congrArg (fun l => l[k]?) h
    simpa [hk, hkd] using hget
  · intro h
    refine List.ext_getElem (by simp) fun k hk hk' => ?_
    have hkd : k % d < t.length := Nat.lt_of_le_of_lt (Nat.mod_le k d) hk'
    have hrep := h k hk'
    rw [List.getElem?_eq_getElem hkd, List.getElem?_eq_getElem hk'] at hrep
    simpa [hkd] using Option.some.inj hrep

end

/-- With room for the text and the width, a padded number is the text behind its padding exactly if there is no padding, or
    it is as long as the text, or it is one shorter and the text ends with `0` as it begins. -/
theorem padded_iff (f : MinimalFormatter) (number : UInt64) (width : Int)
    (hroom : f.cursor + max ((hexText number).length : Int) width ≤ f.end_) :
    Padded number width f (f.appendHexWithPadding number width) ↔
      width ≤ (hexText number).length ∨ 2 * (hexText number).length ≤ width ∨
        width + 1 = 2 * (hexText number).length ∧ number.toNat % 16 = 0 := by
  have htext := appendHex_appended f number (by omega)
  have hcursor := cursor_appendHexWithPadding f number width
  have hbefore : ∀ i < f.cursor, (f.appendHexWithPadding number width).memory.cell i = f.memory.cell i :=
    fun i hi => appendHexWithPadding_extends.writes.frame i (Or.inl hi)
  rw [htext.cursor] at hcursor
  by_cases hpad : width ≤ (hexText number).length
  · have hnot : ¬((f.appendHex number).cursor : Int) < f.cursor + width := by rw [htext.cursor]; omega
    have hsame : f.appendHexWithPadding number width = f.appendHex number := if_neg hnot
    have hnone : (width - (hexText number).length).toNat = 0 := by omega
    refine ⟨fun _ => Or.inl hpad, fun _ => ⟨?_, ?_, hbefore⟩⟩
    · omega
    · rw [hsame, htext.cursor, hnone, Nat.add_sub_cancel_left]
      exact htext.slice
  · have hslice := slice_appendHexWithPadding f number width (by omega) (by omega)
    have hrepeats := hexText_repeats_iff number (d := (width - (hexText number).length).toNat) (by omega)
    dsimp only at hslice
    have hnew : (f.appendHexWithPadding number width).cursor
        = f.cursor + ((width - (hexText number).length).toNat + (hexText number).length) := by omega
    constructor
    · intro h
      have happended := h.appended
      rw [hnew, Nat.add_sub_cancel_left, hslice, List.append_cancel_left_eq, map_getD_eq_iff, hrepeats] at happended
      omega
    · intro h
      refine ⟨hnew, ?_, hbefore⟩
      rw [hnew, Nat.add_sub_cancel_left, hslice, List.append_cancel_left_eq, map_getD_eq_iff, hrepeats]
      omega

/-- A zero is shorter than its padding to the width of a pointer. -/
theorem padded_iff_zero : Padded 0 18 (.create (fun _ => ' ') 1024)
    (MinimalFormatter.appendHexWithPadding 0 18 (.create (fun _ => ' ') 1024)) :=
  (padded_iff (.create (fun _ => ' ') 1024) 0 18 (by decide)).mpr (Or.inr (Or.inl (by decide)))

/-- An address of twelve digits, padded by four spaces: its first four characters are repeated. -/
theorem not_padded : ¬ ∀ (f : MinimalFormatter) (number : UInt64) (width : Int), 0 ≤ width →
    f.cursor + max ((hexText number).length : Int) width ≤ f.end_ →
      Padded number width f (f.appendHexWithPadding number width) := by
  intro h
  have hpadded := h (.create (fun _ => ' ') 1024) 0x555555555139 18 (by decide) (by decide)
  exact absurd hpadded.appended (by decide)

/-! ### A text that is moved whole -/

/-- `AppendHexWithPadding` where `std::copy` does what `memmove` does. -/
def MinimalFormatter.appendHexMoved (number : UInt64) (width : Int) (f : MinimalFormatter) : MinimalFormatter :=
  let start := f.cursor
  let f := f.appendHex number
  if (f.cursor : Int) < start + width then
    let delta := (start + width - f.cursor).toNat
    { f with
      cursor := start + width.toNat
      memory := (f.memory.move start (start + delta) (f.cursor - start)).fill start ' ' delta }
  else f

theorem appendHexMoved_extends {f : MinimalFormatter} {number : UInt64} {width : Int} :
    Extends f (f.appendHexMoved number width) := by
  have htext := appendHex_extends f number
  have hle := htext.cursor
  unfold MinimalFormatter.appendHexMoved
  dsimp only
  split
  · refine ⟨htext.end_, Nat.le_add_right .., ?_⟩
    change Writes f.cursor (f.cursor + width.toNat) f.memory _
    refine (htext.writes.mono (Nat.le_refl _) ?_).trans
      ((move_writes.mono ?_ ?_).trans (fill_writes.mono (Nat.le_refl _) ?_))
    all_goals omega
  · exact htext

/-- With room for it, the text is always behind its padding. -/
theorem appendHexMoved_padded (f : MinimalFormatter) (number : UInt64) (width : Int)
    (hroom : f.cursor + (hexText number).length ≤ f.end_) : Padded number width f (f.appendHexMoved number width) := by
  obtain ⟨hcursor, hslice⟩ := appendHex_appended f number hroom
  have hbefore : ∀ i < f.cursor, (f.appendHexMoved number width).memory.cell i = f.memory.cell i :=
    fun i hi => appendHexMoved_extends.writes.frame i (Or.inl hi)
  by_cases hpad : ((f.appendHex number).cursor : Int) < f.cursor + width
  · have hdelta : (f.cursor + width - (f.appendHex number).cursor : Int).toNat =
        (width - (hexText number).length).toNat := by omega
    have hcount : (f.appendHex number).cursor - f.cursor = (hexText number).length := by omega
    have hmoved : f.appendHexMoved number width = { f.appendHex number with
        cursor := f.cursor + width.toNat
        memory := ((f.appendHex number).memory.move f.cursor (f.cursor + (width - (hexText number).length).toNat)
          (hexText number).length).fill f.cursor ' ' (width - (hexText number).length).toNat } := by
      unfold MinimalFormatter.appendHexMoved
      dsimp only
      rw [if_pos hpad, hdelta, hcount]
    have hnew : (f.appendHexMoved number width).cursor =
        f.cursor + ((width - (hexText number).length).toNat + (hexText number).length) := by
      rw [hmoved]
      dsimp only
      omega
    refine ⟨hnew, ?_, hbefore⟩
    rw [hnew, Nat.add_sub_cancel_left, hmoved]
    dsimp only
    rw [slice_move, hslice]
  · have hsame : f.appendHexMoved number width = f.appendHex number := if_neg hpad
    have hnone : (width - (hexText number).length).toNat = 0 := by omega
    refine ⟨?_, ?_, hbefore⟩
    · rw [hsame, hnone, Nat.zero_add]
      exact hcursor
    · rw [hsame, hcursor, hnone, Nat.add_sub_cancel_left]
      exact hslice

end Glog.Signalhandler
