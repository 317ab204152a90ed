import Glog.Symbolize.Itoa
import Glog.Symbolize.Object

/-! # Reading a number in hexadecimal

`GetHex` shifts the digits into a number of 64 bits and stops at the first character that is not one. -/

namespace Glog.Symbolize
open LogFile Memory

/-- The characters as bytes. -/
def ascii (text : Text) : Bytes := text.map Char.toUInt8

def isHex (ch : UInt8) : Bool :=
  ('0'.toUInt8 ≤ ch && ch ≤ '9'.toUInt8) || ('A'.toUInt8 ≤ ch && ch ≤ 'F'.toUInt8) || ('a'.toUInt8 ≤ ch && ch ≤ 'f'.toUInt8)

/-- The loop of `GetHex`: the number, and what is left from `p` on. -/
def getHexLoop : Bytes → UInt64 → UInt64 × Bytes
  | [], hex => (hex, [])
  | ch :: p, hex =>
    if isHex ch then
      getHexLoop p (hex <<< 4 ||| if ch < 'A'.toUInt8 then (ch - '0'.toUInt8).toUInt64 else (ch &&& 0xF).toUInt64 + 9)
    else (hex, ch :: p)

/-- `GetHex` -/
def getHex (start : Bytes) : UInt64 × Bytes := getHexLoop start 0

/-! ### One digit -/

def hexDigit (ch : UInt8) : UInt64 :=
  if ch < 'A'.toUInt8 then (ch - '0'.toUInt8).toUInt64 else (ch &&& 0xF).toUInt64 + 9

theorem isHex_digitChar {d : Nat} (h : d < 16) : isHex (Nat.digitChar d).toUInt8 = true := by
  have hall : ∀ d < 16, isHex (Nat.digitChar d).toUInt8 = true := by decide
  exact hall d h

theorem hexDigit_digitChar {d : Nat} (h : d < 16) : hexDigit (Nat.digitChar d).toUInt8 = UInt64.ofNat d := by
  have hall : ∀ d < 16, hexDigit (Nat.digitChar d).toUInt8 = UInt64.ofNat d := by decide
  exact hall d h

theorem shift_or {q d : Nat} (hd : d < 16) (hlt : 16 * q + d < 2 ^ 64) :
    UInt64.ofNat q <<< 4 ||| UInt64.ofNat d = UInt64.ofNat (16 * q + d) := by
  have hq : (UInt64.ofNat q).toNat = q := UInt64.toNat_ofNat_of_lt' (show q < 2 ^ 64 by omega)
  have hdn : (UInt64.ofNat d).toNat = d := UInt64.toNat_ofNat_of_lt' (show d < 2 ^ 64 by omega)
  have hn : (UInt64.ofNat (16 * q + d)).toNat = 16 * q + d := UInt64.toNat_ofNat_of_lt' hlt
  have hshift : q <<< 4 = 16 * q := by
    rw [Nat.shiftLeft_eq]
    omega
  have hmod : 16 * q % 2 ^ 64 = 16 * q := Nat.mod_eq_of_lt (by omega)
  rw [← UInt64.toNat_inj, UInt64.toNat_or, UInt64.toNat_shiftLeft, hq, hdn, hn]
  change q <<< 4 % 2 ^ 64 ||| d = _
  rw [hshift, hmod, ← hshift, Nat.shiftLeft_add_eq_or_of_lt (i := 4) hd]

theorem getHexLoop_digit {d : Nat} (hd : d < 16) (p : Bytes) (hex : UInt64) :
    getHexLoop ((Nat.digitChar d).toUInt8 :: p) hex = getHexLoop p (hex <<< 4 ||| UInt64.ofNat d) := by
  rw [getHexLoop, if_pos (isHex_digitChar hd), ← hexDigit_digitChar hd]
  rfl

/-! ### The digits of a number -/

theorem getHexLoop_toDigits (n : Nat) (h : n < 2 ^ 64) (p : Bytes) :
    getHexLoop (ascii (Nat.toDigits 16 n) ++ p) 0 = getHexLoop p (UInt64.ofNat n) := by
  induction n using Nat.strongRecOn generalizing p with
  | ind n ih =>
    rcases Nat.lt_or_ge n 16 with hlt | hge
    · rw [Nat.toDigits_of_lt_base hlt]
      have hdigit := getHexLoop_digit hlt p 0
      simpa [ascii] using hdigit
    · have hmod := Nat.mod_lt n (show 0 < 16 by decide)
      have hn : 16 * (n / 16) + n % 16 = n := Nat.div_add_mod n 16
      rw [Nat.toDigits_of_base_le (by decide) hge, ascii, List.map_append, List.append_assoc]
      rw [← ascii, ih (n / 16) (Nat.div_lt_self (by omega) (by decide)) (by omega)]
      rw [List.map_singleton, List.singleton_append, getHexLoop_digit hmod, shift_or hmod (by omega), hn]

theorem getHexLoop_zeros (k : Nat) (p : Bytes) :
    getHexLoop (ascii (List.replicate k '0') ++ p) 0 = getHexLoop p 0 := by
  induction k with
  | zero => rfl
  | succ k ih =>
    rw [List.replicate_succ]
    exact (getHexLoop_digit (d := 0) (by decide) _ 0).trans ih

theorem getHexLoop_stop {p : Bytes} (h : ∀ ch ∈ p.head?, isHex ch = false) (hex : UInt64) :
    getHexLoop p hex = (hex, p) := by
  cases p with
  | nil => rfl
  | cons ch p =>
    have hch := h ch rfl
    rw [getHexLoop, hch]
    rfl

/-- The text of a number is read back as the number, up to its end. -/
theorem getHex_padded (v : UInt64) (padding : Nat) {p : Bytes} (h : ∀ ch ∈ p.head?, isHex ch = false) :
    getHex (ascii (padded 16 v.toNat padding) ++ p) = (v, p) := by
  rw [getHex, padded, ascii, List.map_append, List.append_assoc, ← ascii, ← ascii, getHexLoop_zeros,
    getHexLoop_toDigits _ v.toNat_lt, UInt64.ofNat_toNat, getHexLoop_stop h]

/-! ### The formatters and the reader -/

/-- `itoa_r` stays in its buffer and succeeds exactly if the text and its terminator fit; `AppendUint64` appends the same
digits, `GetHex` reads them back, and an address always fits into the buffer of `SafeAppendHexNumber`. -/
theorem formatters_agree (v : UInt64) {base : Nat} (hbase : 2 ≤ base) (hbase' : base ≤ 16) :
    (∀ (padding sz : Nat) (buf : Buf sz) (m : Cells Char),
      Writes 0 sz m (itoa v buf base padding m).2 ∧
      ((itoa v buf base padding m).1 = true ↔ max padding (max (Nat.toDigits base v.toNat).length 1) + 1 ≤ sz) ∧
      ((itoa v buf base padding m).1 = true →
        (itoa v buf base padding m).2.slice 0 ((padded base v.toNat padding).length + 1)
        = padded base v.toNat padding ++ ['\x00'])) ∧
    (∀ f : Signalhandler.MinimalFormatter, f.cursor + (Nat.toDigits base v.toNat).length ≤ f.end_ →
      Signalhandler.Appended (padded base v.toNat 0) f (f.appendUint64 v base)) ∧
    (∀ (padding : Nat) (p : Bytes), (∀ ch ∈ p.head?, isHex ch = false) →
      getHex (ascii (padded 16 v.toNat padding) ++ p) = (v, p)) ∧
    ∀ (buf : Buf 17) (m : Cells Char), (itoa v buf 16 0 m).1 = true := by
  have hpos : 0 < (Nat.toDigits base v.toNat).length := Nat.length_toDigits_pos
  refine ⟨fun padding sz buf m => ⟨itoa_writes hbase hbase', ?_, itoa_text hbase hbase'⟩, fun f hroom => ?_,
    fun padding p hp => getHex_padded v padding hp, fun buf m => itoa_hex_fst v buf m⟩
  · rw [itoa_fst_iff hbase hbase', length_padded]
    omega
  · rw [padded_zero]
    exact Signalhandler.appendUint64_appended hbase hbase' hroom

/-- Ten fits exactly into three bytes. -/
theorem formatters_agree_ten : (itoa 10 (⟨4096, by decide, by decide⟩ : Buf 3) 10 0 ⟨fun _ => ' ', []⟩).1 = true ∧
    getHex (ascii (padded 16 (UInt64.toNat 10) 0) ++ [0]) = (10, [0]) := by
  obtain ⟨hitoa, -, hget, -⟩ := @formatters_agree 10 10 (by decide) (by decide)
  obtain ⟨-, hfits, -⟩ := hitoa 0 3 ⟨4096, by decide, by decide⟩ ⟨fun _ => ' ', []⟩
  have hstop : isHex 0 = false := by decide
  exact ⟨hfits.mpr (by decide), hget 0 [0] fun ch hch => Option.some.inj hch ▸ hstop⟩

end Glog.Symbolize
