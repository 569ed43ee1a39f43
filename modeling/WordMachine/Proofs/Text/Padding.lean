import Mathlib.Data.Nat.Digits.Defs
import WordMachine.Text.Radix

namespace WordMachine.Text

-- The last digits of a number, the least significant one at the end.
def lastDigits (base : Nat) : Nat → Nat → List Char
  | 0, _ => []
  | k + 1, n => lastDigits base k (n / base) ++ [Nat.digitChar (n % base)]

theorem lastDigits_zero (base k : Nat) : lastDigits base k 0 = List.replicate k '0' := by
  induction k with
  | zero => rfl
  | succ k ih =>
      rw [lastDigits, Nat.zero_div, Nat.zero_mod, ih, List.replicate_succ']
      rfl

theorem padZeros_append (k : Nat) (digits : List Char) (c : Char) :
    padZeros (k + 1) (digits ++ [c]) = padZeros k digits ++ [c] := by
  simp [padZeros]

-- The induction goes along the digits of the number, from the last one to the first.
theorem padZeros_toDigits {base : Nat} (hb : 1 < base) {k n : Nat} (hk : 0 < k) (hn : n < Nat.pow base k) :
    padZeros k (Nat.toDigits base n) = lastDigits base k n := by
  induction k generalizing n with
  | zero => omega
  | succ k ih =>
      by_cases hlast : n < base
      · have hpad := padZeros_append k [] (Nat.digitChar n)
        rw [List.nil_append] at hpad
        rw [Nat.toDigits_of_lt_base hlast, hpad, lastDigits, Nat.div_eq_of_lt hlast, Nat.mod_eq_of_lt hlast,
          lastDigits_zero]
        simp [padZeros]
      · have hpow : n < Nat.pow base k * base := by simpa [Nat.pow_succ] using hn
        have hquotient : n / base < Nat.pow base k := Nat.div_lt_of_lt_mul (by rwa [Nat.mul_comm])
        have hpos : 0 < k := by
          rcases Nat.eq_zero_or_pos k with rfl | hpos
          · simp only [Nat.pow_eq, Nat.pow_zero] at hpow
            omega
          · exact hpos
        rw [Nat.toDigits_of_base_le hb (by omega), padZeros_append, ih hpos hquotient, lastDigits]

-- A number that is too long for the width is not cut down to it.
theorem paddedDecimal_eq_lastDigits (width n : Nat) :
    paddedDecimal width n = String.ofList (lastDigits 10 (max width (Nat.toDigits 10 n).length) n) := by
  have hpos : 0 < (Nat.toDigits 10 n).length := List.length_pos_iff.mpr Nat.toDigits_ne_nil
  have hfits : n < Nat.pow 10 (Nat.toDigits 10 n).length :=
    (Nat.length_toDigits_le_iff (by omega) hpos).mp (Nat.le_refl _)
  have hwide : n < Nat.pow 10 (max width (Nat.toDigits 10 n).length) :=
    Nat.lt_of_lt_of_le hfits (Nat.pow_le_pow_right (by omega) (Nat.le_max_right _ _))
  have hpad : padZeros width (Nat.toDigits 10 n) =
      padZeros (max width (Nat.toDigits 10 n).length) (Nat.toDigits 10 n) := by
    rw [padZeros, padZeros]
    congr 2
    omega
  rw [paddedDecimal, hpad, padZeros_toDigits (by omega) (by omega) hwide]

theorem upperHex_eq_lastDigits {k n : Nat} (hk : 0 < k) (hn : n < Nat.pow 16 k) :
    upperHex k n = String.ofList ((lastDigits 16 k n).map Char.toUpper) := by
  have hzero : '0'.toUpper = '0' := by decide
  have hpad : padZeros k ((Nat.toDigits 16 n).map Char.toUpper) =
      (padZeros k (Nat.toDigits 16 n)).map Char.toUpper := by
    rw [padZeros, padZeros, List.map_append, List.map_replicate, hzero, List.length_map]
  rw [upperHex, hpad, padZeros_toDigits (by omega) hk hn]

theorem hexadecimal_eq_lastDigits {k : Nat} (hk : 0 < k) {n : Int} (h0 : 0 ≤ n)
    (hn : n.toNat < Nat.pow 16 k) :
    hexadecimal (k + 2) n = "0x" ++ String.ofList (lastDigits 16 k n.toNat) := by
  have habs : n.natAbs = n.toNat := by omega
  have hmark : k + 2 - "0x".length = k := rfl
  simp only [hexadecimal, if_neg (Int.not_lt.mpr h0)]
  rw [hmark, habs, padZeros_toDigits (by omega) hk hn]

end WordMachine.Text
