import WordMachine.Assembly.Operand
import WordMachine.Proofs.Text.Grouping

namespace WordMachine.Assembly

open WordMachine.Text (apostrophe decimalDigit? letterDigit? digit?_eq_none Grouped signs)

-- The numerals and the numbers they stand for. Zeros in front are digits like any others.
inductive Numeral : List Char → Int → Prop where
  | hexadecimal {mark : Char} {gap s : List Char} {ds : List Nat} (hmark : mark = 'x' ∨ mark = 'X')
      (hgap : gap = [] ∨ gap = ['_']) (h : Grouped 16 s ds) :
      Numeral ('0' :: mark :: (gap ++ s)) (Nat.ofDigits 16 ds.reverse : Nat)
  | decimal {sign s : List Char} {unit : Int} {ds : List Nat} (hsign : (sign, unit) ∈ signs)
      (h : Grouped 10 s ds) (hlen : ds.length ≤ 4300) :
      Numeral (sign ++ s) (unit * (Nat.ofDigits 10 ds.reverse : Nat))

theorem numeral?_marked {mark : Char} (hmark : mark = 'x' ∨ mark = 'X') {s : List Char} {v : Int} :
    numeral? ('0' :: mark :: s) = some v ↔ ∃ n, Text.markedDigits? 16 s = some n ∧ (n : Int) = v := by
  rcases hmark with rfl | rfl
  · rw [numeral?]
    cases Text.markedDigits? 16 s <;> simp
  · rw [numeral?]
    cases Text.markedDigits? 16 s <;> simp

theorem numeral?_unmarked {s : List Char} (h : ∀ c t, s = '0' :: c :: t → c ≠ 'x' ∧ c ≠ 'X') :
    numeral? s = Text.decimalInt? s := by
  rw [numeral?]
  · exact fun t ht => (h 'x' t ht).1 rfl
  · exact fun t ht => (h 'X' t ht).2 rfl

-- A decimal numeral does not begin like a hexadecimal one, since no letter is a decimal digit.
theorem unmarked_of_grouped {sign s : List Char} {unit : Int} {ds : List Nat}
    (hsign : (sign, unit) ∈ signs) (h : Grouped 10 s ds) (c : Char) (t : List Char)
    (heq : sign ++ s = '0' :: c :: t) : c ≠ 'x' ∧ c ≠ 'X' := by
  have hs : s = '0' :: c :: t := by
    simp only [signs, List.mem_cons, Prod.mk.injEq, List.not_mem_nil, or_false] at hsign
    rcases hsign with ⟨rfl, -⟩ | ⟨rfl, -⟩ | ⟨rfl, -⟩
    · exact heq
    · simp at heq
    · simp at heq
  have hmem : c ∈ s := by simp [hs]
  constructor
  · rintro rfl
    exact h.not_mem (by decide) (by decide) hmem
  · rintro rfl
    exact h.not_mem (by decide) (by decide) hmem

namespace Numeral

variable {s : List Char} {v : Int}

theorem of_markedDigits? {mark : Char} (hmark : mark = 'x' ∨ mark = 'X') {n : Nat}
    (h : Text.markedDigits? 16 s = some n) : Numeral ('0' :: mark :: s) n := by
  obtain ⟨gap, t, ds, hgap, rfl, hds, rfl⟩ := Text.markedDigits?_eq_some_iff.mp h
  exact .hexadecimal hmark hgap hds

theorem of_decimalInt? (h : Text.decimalInt? s = some v) : Numeral s v := by
  obtain ⟨⟨sign, unit⟩, hsign, t, ds, rfl, hds, hlen, rfl⟩ := Text.decimalInt?_eq_some_iff.mp h
  exact .decimal hsign hds hlen

theorem numeral?_eq (h : Numeral s v) : numeral? s = some v := by
  cases h with
  | hexadecimal hmark hgap h =>
      have hread := Text.markedDigits?_eq_some_iff.mpr ⟨_, _, _, hgap, rfl, h, rfl⟩
      exact (numeral?_marked hmark).mpr ⟨_, hread, rfl⟩
  | decimal hsign h hlen =>
      rw [numeral?_unmarked (unmarked_of_grouped hsign h)]
      exact Text.decimalInt?_eq_some_iff.mpr ⟨_, hsign, _, _, rfl, h, hlen, rfl⟩

-- A character that is no letter, no digit, no sign and no underscore occurs in no numeral.
theorem not_mem {b : Char} (h : Numeral s v) (hb : (decimalDigit? b).or (letterDigit? b) = none)
    (hsigns : b ∉ ['_', '+', '-']) : b ∉ s := by
  simp only [List.mem_cons, List.not_mem_nil, or_false, not_or] at hsigns
  obtain ⟨hgap', hplus, hminus⟩ := hsigns
  cases h with
  | @hexadecimal mark gap s ds hmark hgap h =>
      have hzero : b ≠ '0' := by
        rintro rfl
        exact absurd hb (by decide)
      have hmark' : b ≠ mark := by
        rintro rfl
        rcases hmark with rfl | rfl <;> exact absurd hb (by decide)
      have hdigits := h.not_mem (digit?_eq_none hb 16) hgap'
      rcases hgap with rfl | rfl <;> simp [hzero, hmark', hgap', hdigits]
  | decimal hsign h hlen =>
      have hdigits := h.not_mem (digit?_eq_none hb 10) hgap'
      simp only [signs, List.mem_cons, Prod.mk.injEq, List.not_mem_nil, or_false] at hsign
      rcases hsign with ⟨rfl, -⟩ | ⟨rfl, -⟩ | ⟨rfl, -⟩ <;> simp [hplus, hminus, hdigits]

end Numeral

theorem numeral?_eq_some_iff {s : List Char} {v : Int} : numeral? s = some v ↔ Numeral s v := by
  constructor
  · intro h
    by_cases hmarked : ∃ mark t, (mark = 'x' ∨ mark = 'X') ∧ s = '0' :: mark :: t
    · obtain ⟨mark, t, hmark, rfl⟩ := hmarked
      obtain ⟨n, hn, rfl⟩ := (numeral?_marked hmark).mp h
      exact .of_markedDigits? hmark hn
    · have hunmarked : ∀ c t, s = '0' :: c :: t → c ≠ 'x' ∧ c ≠ 'X' := fun c t hs =>
        ⟨fun hc => hmarked ⟨c, t, .inl hc, hs⟩, fun hc => hmarked ⟨c, t, .inr hc, hs⟩⟩
      rw [numeral?_unmarked hunmarked] at h
      exact .of_decimalInt? h
  · exact Numeral.numeral?_eq

theorem isQuoted_iff {t : List Char} :
    isQuoted t = true ↔ 3 ≤ t.length ∧ t.head? = some apostrophe ∧ t.getLast? = some apostrophe := by
  simp [isQuoted, and_assoc]

theorem Numeral.value_eq {t : List Char} {v : Int} (h : Numeral t v) : value t = .ok v := by
  have hquoted : isQuoted t = false := by
    rw [Bool.eq_false_iff, ne_eq, isQuoted_iff]
    rintro ⟨-, hhead, -⟩
    exact h.not_mem (by decide) (by decide) (List.mem_of_head? hhead)
  simp only [value, hquoted, Bool.false_eq_true, if_false, h.numeral?_eq]

end WordMachine.Assembly
