import Glog.Memory.Strings
import Glog.Signalhandler.Padding

/-! # Numbers in the symbolizer

`itoa_r` writes the digits of a number from the last one to the first one, checks the room before each, and turns them
round at the end. Addresses are offsets from `buf`. -/

namespace Glog.Symbolize
open LogFile Memory

/-! ### The function -/

/-- The memory from `buf` to `buf + sz`, with the address behind it. -/
structure Buf (sz : Nat) where
  address : Nat
  notNull : 0 < address
  fits : address + sz < 2 ^ 64

def hexDigits : Text := "0123456789abcdef".toList

/-- The loop of `itoa_r`, with `i`, `n`, `padding` and `ptr`; no cursor if there is no room for the digits. -/
def itoaLoop (sz base : Nat) (hbase : 2 ≤ base) (i n padding ptr : Nat) (m : Cells Char) : Option Nat × Cells Char :=
  let n := (n + 1) % 2 ^ 64
  if sz < n then
    (none, m.write 0 '\x00')
  else
    let m := m.write ptr (hexDigits.getD (i % base) '\x00')
    -- a padding of zero stays
    if 0 < i / base ∨ 0 < padding - 1 then itoaLoop sz base hbase (i / base) n (padding - 1) (ptr + 1) m
    else (some (ptr + 1), m)
termination_by i + padding
decreasing_by
  have hdiv := Nat.div_le_self i base
  rcases Nat.eq_zero_or_pos i with rfl | hi
  · rename_i hmore
    rw [Nat.zero_div] at hmore ⊢
    omega
  · have hlt := Nat.div_lt_self hi hbase
    omega

/-- `itoa_r`: whether it returns `buf`. -/
def itoa {sz : Nat} (i : UInt64) (_ : Buf sz) (base padding : Nat) (m : Cells Char) : Bool × Cells Char :=
  if sz < 1 then
    (false, m)
  else if hbase : 2 ≤ base ∧ base ≤ 16 then
    match itoaLoop sz base hbase.1 i.toNat 1 padding 0 m with
    | (none, m) => (false, m)
    | (some ptr, m) => (true, (m.write ptr '\x00').reverse 0 ptr)
  else
    (false, m.write 0 '\x00')

/-! ### The text -/

/-- The digits of a number behind as many zeros as the padding asks for. -/
def padded (base number padding : Nat) : Text :=
  List.replicate (padding - (Nat.toDigits base number).length) '0' ++ Nat.toDigits base number

section
variable {base number padding : Nat}

theorem padded_zero : padded base number 0 = Nat.toDigits base number := by
  rw [padded, Nat.zero_sub, List.replicate_zero, List.nil_append]

theorem length_padded : (padded base number padding).length = max padding (Nat.toDigits base number).length := by
  rw [padded, List.length_append, List.length_replicate]
  omega

theorem hexDigits_getD (h : number < 16) : hexDigits.getD number '\x00' = Nat.digitChar number := by
  have hall : ∀ n < 16, hexDigits.getD n '\x00' = Nat.digitChar n := by decide
  exact hall number h

/-- The last digit, and what stands before it. -/
theorem padded_step (hbase : 2 ≤ base) : padded base number padding =
    (if 0 < number / base ∨ 0 < padding - 1 then padded base (number / base) (padding - 1) else []) ++
      [Nat.digitChar (number % base)] := by
  rcases Nat.lt_or_ge number base with hlt | hge
  · have hzero : Nat.toDigits base 0 = ['0'] := Nat.toDigits_of_lt_base (by omega)
    rw [Nat.div_eq_of_lt hlt, Nat.mod_eq_of_lt hlt, padded, Nat.toDigits_of_lt_base hlt, List.length_singleton]
    congr 1
    split
    · rename_i hmore
      rw [padded, hzero, List.length_singleton, ← List.replicate_succ']
      congr 1
      omega
    · have hnone : padding - 1 = 0 := by omega
      rw [hnone, List.replicate_zero]
  · have hpos : 0 < number / base := Nat.div_pos hge (by omega)
    rw [if_pos (Or.inl hpos), padded, padded, Nat.toDigits_of_base_le hbase hge, List.length_append,
      List.length_singleton, ← List.append_assoc]
    congr 3
    omega

theorem padded_ne_nil (hbase : 2 ≤ base) : padded base number padding ≠ [] := by
  rw [padded_step hbase]
  exact List.append_ne_nil_of_right_ne_nil _ (List.cons_ne_nil _ _)

/-! ### The loop -/

/-- The digits are stored from the last one to the first one, as long as there is room behind them for the terminator. -/
theorem itoaLoop_eq {sz : Nat} (hbase : 2 ≤ base) (hbase' : base ≤ 16) (hsz : sz + 1 < 2 ^ 64) (i n padding ptr : Nat)
    (m : Cells Char) (hptr : ptr + 1 = n) (hn : n ≤ sz) :
    itoaLoop sz base hbase i n padding ptr m =
      if ptr + (padded base i padding).length < sz then
        (some (ptr + (padded base i padding).length), m.store ptr (padded base i padding).reverse)
      else (none, (m.store ptr ((padded base i padding).reverse.take (sz - n))).write 0 '\x00') := by
  fun_induction itoaLoop sz base hbase i n padding ptr m with
  | case1 i n padding ptr m n' hfull =>
    have hlast : n = sz := by omega
    have hpos : 0 < (padded base i padding).length := List.length_pos_iff.mpr (padded_ne_nil hbase)
    rw [if_neg (by omega), hlast, Nat.sub_self, List.take_zero]
    rfl
  | case2 i n padding ptr m n' hroom m' hmore ih =>
    have hn' : n' = n + 1 := Nat.mod_eq_of_lt (by omega)
    have hdigit := hexDigits_getD (Nat.lt_of_lt_of_le (Nat.mod_lt i (show 0 < base by omega)) hbase')
    have hstep : padded base i padding = padded base (i / base) (padding - 1) ++ [Nat.digitChar (i % base)] := by
      rw [padded_step hbase, if_pos hmore]
    have hlength : (padded base i padding).length = (padded base (i / base) (padding - 1)).length + 1 := by
      rw [hstep, List.length_append, List.length_singleton]
    have hreverse : (padded base i padding).reverse =
        Nat.digitChar (i % base) :: (padded base (i / base) (padding - 1)).reverse := by
      rw [hstep, List.reverse_append]
      rfl
    have hroom' : sz - n = sz - n' + 1 := by omega
    rw [ih (by omega) (by omega), hlength, hreverse, hroom', List.take_succ_cons, Cells.store, Cells.store, ← hdigit,
      ← Nat.add_assoc, Nat.add_right_comm]
  | case3 i n padding ptr m n' hroom m' hmore =>
    have hn' : n' = n + 1 := Nat.mod_eq_of_lt (by omega)
    have hdigit := hexDigits_getD (Nat.lt_of_lt_of_le (Nat.mod_lt i (show 0 < base by omega)) hbase')
    have hstep : padded base i padding = [Nat.digitChar (i % base)] := by
      rw [padded_step hbase, if_neg hmore, List.nil_append]
    rw [hstep, List.length_singleton, if_pos (by omega), ← hdigit]
    rfl

/-! ### The buffer -/

section
variable {i : UInt64} {sz : Nat} {buf : Buf sz} {m : Cells Char}

theorem itoa_of_room (hbase : 2 ≤ base) (hbase' : base ≤ 16) (hroom : (padded base i.toNat padding).length < sz) :
    itoa i buf base padding m = (true, ((m.store 0 (padded base i.toNat padding).reverse).write
      (padded base i.toNat padding).length '\x00').reverse 0 (padded base i.toNat padding).length) := by
  have hfits := buf.fits
  have hnull := buf.notNull
  have hloop := itoaLoop_eq hbase hbase' (show sz + 1 < 2 ^ 64 by omega) i.toNat 1 padding 0 m rfl (by omega)
  rw [Nat.zero_add, if_pos hroom] at hloop
  rw [itoa, if_neg (by omega), dif_pos ⟨hbase, hbase'⟩, hloop]

theorem itoa_of_no_room (hbase : 2 ≤ base) (hbase' : base ≤ 16) (hsz : 1 ≤ sz)
    (hroom : sz ≤ (padded base i.toNat padding).length) :
    itoa i buf base padding m =
      (false, (m.store 0 ((padded base i.toNat padding).reverse.take (sz - 1))).write 0 '\x00') := by
  have hfits := buf.fits
  have hnull := buf.notNull
  have hloop := itoaLoop_eq hbase hbase' (show sz + 1 < 2 ^ 64 by omega) i.toNat 1 padding 0 m rfl hsz
  rw [Nat.zero_add, if_neg (Nat.not_lt.mpr hroom)] at hloop
  rw [itoa, if_neg (by omega), dif_pos ⟨hbase, hbase'⟩, hloop]

theorem itoa_of_empty (buf : Buf sz) (hsz : sz = 0) : itoa i buf base padding m = (false, m) := by
  rw [itoa, if_pos (by omega)]

theorem itoa_fst_iff (hbase : 2 ≤ base) (hbase' : base ≤ 16) :
    (itoa i buf base padding m).1 = true ↔ (padded base i.toNat padding).length < sz := by
  rcases Nat.lt_or_ge (padded base i.toNat padding).length sz with hroom | hroom
  · rw [itoa_of_room hbase hbase' hroom]
    exact ⟨fun _ => hroom, fun _ => rfl⟩
  · refine ⟨fun h => ?_, fun h => absurd h (Nat.not_lt.mpr hroom)⟩
    rcases Nat.eq_zero_or_pos sz with hsz | hsz
    · rw [itoa_of_empty buf hsz] at h
      cases h
    · rw [itoa_of_no_room hbase hbase' hsz hroom] at h
      cases h

/-- Nothing is written outside the buffer. -/
theorem itoa_writes (hbase : 2 ≤ base) (hbase' : base ≤ 16) : Writes 0 sz m (itoa i buf base padding m).2 := by
  rcases Nat.lt_or_ge (padded base i.toNat padding).length sz with hroom | hroom
  · rw [itoa_of_room hbase hbase' hroom]
    have hstore : Writes 0 sz m (m.store 0 (padded base i.toNat padding).reverse) :=
      store_writes.mono (Nat.le_refl 0) (by rw [List.length_reverse]; omega)
    exact (hstore.trans (write_writes (Nat.zero_le _) hroom)).trans (reverse_writes.mono (Nat.le_refl 0) (by omega))
  · rcases Nat.eq_zero_or_pos sz with hsz | hsz
    · rw [itoa_of_empty buf hsz]
      exact Writes.refl ..
    · rw [itoa_of_no_room hbase hbase' hsz hroom]
      have hstore : Writes 0 sz m (m.store 0 ((padded base i.toNat padding).reverse.take (sz - 1))) :=
        store_writes.mono (Nat.le_refl 0) (by rw [List.length_take]; omega)
      exact hstore.trans (write_writes (Nat.le_refl 0) hsz)

/-- What is in the buffer, with the terminator. -/
theorem itoa_text (hbase : 2 ≤ base) (hbase' : base ≤ 16) (h : (itoa i buf base padding m).1 = true) :
    (itoa i buf base padding m).2.slice 0 ((padded base i.toNat padding).length + 1) =
      padded base i.toNat padding ++ ['\x00'] := by
  have hroom := (itoa_fst_iff hbase hbase').mp h
  generalize ht : padded base i.toNat padding = t at hroom ⊢
  have hstored : (m.store 0 t.reverse).slice 0 t.length = t.reverse := by
    have hstore := slice_store (m := m) (l := t.reverse) 0
    rwa [List.length_reverse] at hstore
  have hend : ((m.store 0 t.reverse).write t.length '\x00').slice 0 (t.length + 1) = t.reverse ++ ['\x00'] := by
    simpa [Cells.store] using slice_store_append hstored ['\x00']
  rw [slice_add] at hend
  obtain ⟨hdigits, hnul⟩ := List.append_inj hend (by simp)
  rw [itoa_of_room hbase hbase' (ht ▸ hroom), ht]
  dsimp only
  rw [slice_add, slice_reverse, hdigits, List.reverse_reverse,
    slice_congr (m := (m.store 0 t.reverse).write t.length '\x00'), hnul]
  exact fun k hk => reverse_writes.frame _ (Or.inr (by omega))

end

/-! ### A number in hexadecimal -/

inductive AppendFault
  | nullSource
  | safeAssert
  deriving DecidableEq

/-- `SafeAppendString` -/
def safeAppendString (source : Text) (destSize : Nat) (dest : Cells Char) : Except AppendFault (Cells Char) :=
  let destStringLength := (dest.string '\x00' 0 destSize).length
  if destStringLength < destSize then
    .ok ((dest.strncpy '\x00' destStringLength source (destSize - destStringLength)).write (destSize - 1) '\x00')
  else .error .safeAssert

/-- `SafeAppendHexNumber`, with `char buf[17]`. -/
def safeAppendHexNumber (value : UInt64) (buf : Buf 17) (destSize : Nat) (dest : Cells Char) :
    Except AppendFault (Cells Char) :=
  match itoa value buf 16 0 ⟨fun _ => '\x00', []⟩ with
  | (true, m) => safeAppendString (m.string '\x00' 0 17) destSize dest
  | (false, _) => .error .nullSource

theorem nul_not_mem_padded (hbase : 2 ≤ base) : '\x00' ∉ padded base number padding := by
  intro h
  rcases List.mem_append.mp h with h | h
  · exact absurd (List.eq_of_mem_replicate h) (by decide)
  · obtain ⟨d, -, hd⟩ := Signalhandler.mem_toDigits hbase h
    exact Nat.digitChar_ne '\x00' (by decide) hd.symm

theorem length_hex_le (value : UInt64) : (Nat.toDigits 16 value.toNat).length ≤ 16 :=
  (Nat.length_toDigits_le_iff (by decide) (by decide)).mpr value.toNat_lt

/-- The digits of a number of 64 bits fit into the buffer. -/
theorem itoa_hex_fst (value : UInt64) (buf : Buf 17) (m : Cells Char) : (itoa value buf 16 0 m).1 = true := by
  have hle := length_hex_le value
  rw [itoa_fst_iff (by decide) (by decide), padded_zero]
  omega

theorem safeAppendHexNumber_eq (value : UInt64) (buf : Buf 17) (destSize : Nat) (dest : Cells Char) :
    safeAppendHexNumber value buf destSize dest = safeAppendString (Nat.toDigits 16 value.toNat) destSize dest := by
  have hfst := itoa_hex_fst value buf ⟨fun _ => '\x00', []⟩
  have htext := itoa_text (by decide) (by decide) hfst
  have hle := length_hex_le value
  rw [padded_zero] at htext
  rw [safeAppendHexNumber]
  generalize itoa value buf 16 0 ⟨fun _ => '\x00', []⟩ = r at hfst htext
  obtain ⟨ok, m⟩ := r
  obtain rfl : ok = true := hfst
  have hslice : m.slice 0 17 = Nat.toDigits 16 value.toNat ++ '\x00' :: m.slice ((Nat.toDigits 16 value.toNat).length + 1)
      (16 - (Nat.toDigits 16 value.toNat).length) := by
    have hsplit : 17 = (Nat.toDigits 16 value.toNat).length + 1 + (16 - (Nat.toDigits 16 value.toNat).length) := by omega
    conv_lhs => rw [hsplit]
    rw [slice_add, htext, List.append_assoc, Nat.zero_add]
    rfl
  have hnul : '\x00' ∉ Nat.toDigits 16 value.toNat := by
    rw [← padded_zero]
    exact nul_not_mem_padded (by decide)
  exact congrArg (safeAppendString · destSize dest) (string_of_slice hnul hslice)

end

end Glog.Symbolize
