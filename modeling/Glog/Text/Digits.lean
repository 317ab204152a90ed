import Glog.Text.Lines

/-! # Numbers in a text

A number is read back from its digits, and from a text in which something else stands behind them. -/

namespace Digits
open Lines
variable {b m n : Nat} {c : Char} {rest rest' : List Char}

theorem digitChar_inj (hm : m < 16) (hn : n < 16) (h : Nat.digitChar m = Nat.digitChar n) : m = n := by
  have hall : ∀ m < 16, ∀ n < 16, Nat.digitChar m = Nat.digitChar n → m = n := by decide
  exact hall m hm n hn h

theorem toDigits_inj (hb : 1 < b) (hb' : b ≤ 16) (h : Nat.toDigits b m = Nat.toDigits b n) : m = n := by
  induction m using Nat.strongRecOn generalizing n with
  | ind m ih =>
    have hlast := congrArg List.getLast? h
    have hinit := congrArg List.dropLast h
    rw [Nat.toDigits_eq_if hb, Nat.toDigits_eq_if (n := n) hb] at hlast hinit
    have hmod : ∀ k, k % b < 16 := fun k => Nat.lt_of_lt_of_le (Nat.mod_lt k (by omega)) hb'
    split at hlast <;> split at hlast
    · rename_i hm hn
      simp only [List.getLast?_singleton, Option.some.injEq] at hlast
      exact digitChar_inj (by omega) (by omega) hlast
    · rename_i hm hn
      simp [hm, hn] at hinit
    · rename_i hm hn
      simp [hm, hn] at hinit
    · rename_i hm hn
      simp only [List.getLast?_concat, Option.some.injEq] at hlast
      simp only [hm, hn, if_false, List.dropLast_concat] at hinit
      have hquot := ih (m / b) (Nat.div_lt_self (by omega) hb) hinit
      have hdigit := digitChar_inj (hmod m) (hmod n) hlast
      calc
        m = b * (m / b) + m % b := (Nat.div_add_mod m b).symm
        _ = b * (n / b) + n % b := by rw [hquot, hdigit]
        _ = n := Nat.div_add_mod n b

/-- A number ends where a character stands that is no digit. -/
theorem number_unique (hb : 1 < b) (hb' : b ≤ 16) (hc : ∀ k, c ∉ Nat.toDigits b k)
    (h : Nat.toDigits b m ++ c :: rest = Nat.toDigits b n ++ c :: rest') : m = n ∧ rest = rest' := by
  obtain ⟨hdigits, hrest⟩ := line_unique h (hc m) (hc n)
  exact ⟨toDigits_inj hb hb' hdigits, hrest⟩

end Digits
