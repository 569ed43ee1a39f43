import Mathlib.Data.List.Forall2
import WordMachine.Proofs.Text.Grouping

namespace WordMachine.Text

-- A character that writes a digit.
def Writes (base : Nat) (c : Char) (d : Nat) : Prop :=
  d < base ∧ (c = Nat.digitChar d ∨ c = (Nat.digitChar d).toUpper)

instance (base : Nat) (c : Char) (d : Nat) : Decidable (Writes base c d) :=
  inferInstanceAs (Decidable (_ ∧ _))

-- What is true of the sixteen digits in both cases is true of all that writes a digit.
theorem Writes.forall (P : Char → Nat → Prop) (hlower : ∀ d < 16, P (Nat.digitChar d) d)
    (hupper : ∀ d < 16, P (Nat.digitChar d).toUpper d) {base : Nat} (hb : base ≤ 16) {c : Char}
    {d : Nat} (h : Writes base c d) : P c d := by
  obtain ⟨hd, rfl | rfl⟩ := h
  · exact hlower d (by omega)
  · exact hupper d (by omega)

theorem writes_digitChar {base d : Nat} (hd : d < base) : Writes base (Nat.digitChar d) d :=
  ⟨hd, Or.inl rfl⟩

theorem Writes.figure {base : Nat} (hb : base ≤ 16) {c : Char} {d : Nat} (h : Writes base c d) :
    Figure c d := by
  have hdigit : (decimalDigit? c).or (letterDigit? c) = some d :=
    Writes.forall (fun c d => (decimalDigit? c).or (letterDigit? c) = some d) (by decide) (by decide)
      hb h
  exact figure_iff.mp hdigit

theorem exists_writes {base : Nat} {cs : List Char} {ds : List Nat}
    (h : List.Forall₂ (Writes base) cs ds) : ∀ c ∈ cs, ∃ d, Writes base c d := by
  induction h with
  | nil => simp
  | cons hc _ ih => exact List.forall_mem_cons.mpr ⟨⟨_, hc⟩, ih⟩

section Written

variable {base : Nat} (hb : base ≤ 16) {cs : List Char} {ds : List Nat}
  (h : List.Forall₂ (Writes base) cs ds)

include hb h

theorem grouped_of_writes (hne : cs ≠ []) : Grouped base cs ds := by
  induction h with
  | nil => exact absurd rfl hne
  | cons hc hcs ih =>
      cases hcs with
      | nil => exact .last (hc.figure hb) hc.1
      | cons => exact .next (hc.figure hb) hc.1 (ih (by simp))

theorem markedDigits?_of_writes (hne : cs ≠ []) : markedDigits? base cs = some (ofDigits base ds) :=
  markedDigits?_eq_some_iff.mpr
    ⟨[], cs, ds, .inl rfl, rfl, grouped_of_writes hb h hne, (ofDigits_eq base ds).symm⟩

end Written

theorem decimalInt?_of_writes {sign cs : List Char} {unit : Int} {ds : List Nat}
    (hsign : (sign, unit) ∈ signs) (h : List.Forall₂ (Writes 10) cs ds) (hne : cs ≠ [])
    (hlen : cs.length ≤ decimalLimit) : decimalInt? (sign ++ cs) = some (unit * (ofDigits 10 ds : Nat)) := by
  have hgrouped := grouped_of_writes (by omega) h hne
  have hlen' : ds.length ≤ decimalLimit := h.length_eq ▸ hlen
  rw [ofDigits_eq]
  exact decimalInt?_eq_some_iff.mpr ⟨(sign, unit), hsign, cs, ds, rfl, hgrouped, hlen', rfl⟩

theorem lt_of_writes {base : Nat} {cs : List Char} {ds : List Nat}
    (h : List.Forall₂ (Writes base) cs ds) : ∀ d ∈ ds, d < base := by
  induction h with
  | nil => simp
  | cons hc _ ih => exact List.forall_mem_cons.mpr ⟨hc.1, ih⟩

theorem ofDigits_lt_of_writes {base : Nat} (hb : 1 < base) {cs : List Char} {ds : List Nat}
    (h : List.Forall₂ (Writes base) cs ds) {n : Nat} (hlen : cs.length ≤ n) :
    Nat.ofDigits base ds.reverse < base ^ n := by
  have hlt : Nat.ofDigits base ds.reverse < base ^ ds.reverse.length :=
    Nat.ofDigits_lt_base_pow_length hb (by simpa using lt_of_writes h)
  rw [List.length_reverse, ← h.length_eq] at hlt
  exact Nat.lt_of_lt_of_le hlt (Nat.pow_le_pow_right (by omega) hlen)

-- Five hexadecimal digits come to no more than seven decimal ones.
theorem pow_sixteen_le (n : Nat) : 16 ^ (5 * n) ≤ 10 ^ (7 * n) := by
  rw [Nat.pow_mul, Nat.pow_mul]
  exact Nat.pow_le_pow_left (by decide) n

theorem lt_pow_decimalLimit {n k : Nat} (hn : n < 10 ^ k) (hk : k ≤ decimalLimit) :
    n < Nat.pow 10 decimalLimit := by
  have hle : ∀ m, k ≤ m → 10 ^ k ≤ Nat.pow 10 m := fun m hm => Nat.pow_le_pow_right (by omega) hm
  exact Nat.lt_of_lt_of_le hn (hle decimalLimit hk)

theorem decimal_eq_toString (n : Int) : decimal n = toString n := by
  cases n with
  | ofNat m =>
      have hsign : ¬Int.ofNat m < 0 := Int.not_lt.mpr (Int.natCast_nonneg m)
      rw [decimal, if_neg hsign, String.empty_append]
      rfl
  | negSucc m =>
      rw [decimal, if_pos (Int.negSucc_lt_zero m)]
      rfl

theorem decimal?_of_le {n : Int} (h : (Nat.toDigits 10 n.natAbs).length ≤ decimalLimit) :
    decimal? n = some (decimal n) := by
  rw [decimal?, if_pos h]

theorem decimal?_eq_none_iff {n : Int} :
    decimal? n = none ↔ decimalLimit < (Nat.toDigits 10 n.natAbs).length := by
  rw [decimal?]
  split <;> simp <;> omega

theorem isSome_decimal?_of_lt {n k : Nat} (hn : n < 10 ^ k) (hk : k ≤ decimalLimit) :
    (decimal? (n : Nat)).isSome = true := by
  have hlength : ∀ m, 0 < m → k ≤ m → (Nat.toDigits 10 n).length ≤ m := fun m hm hle =>
    (Nat.length_toDigits_le_iff (by omega) hm).mpr
      (Nat.lt_of_lt_of_le hn (Nat.pow_le_pow_right (by omega) hle))
  have hwritten : decimal? (n : Nat) = some (decimal n) :=
    decimal?_of_le (hlength decimalLimit (by decide) hk)
  rw [hwritten]
  rfl

end WordMachine.Text
