import WordMachine.Proofs.Assembly.Comment
import WordMachine.Proofs.Assembly.Notation

namespace WordMachine.Assembly

open WordMachine.Text (apostrophe isBlank Writes)

-- What stands behind a backslash between marks, and the code it stands for.
def escapes : List (Char × Int) :=
  [('n', 10), ('r', 13), ('t', 9), ('0', 0), ('\\', 92), (apostrophe, 39)]

-- Numerals are no longer here than allows every value to be named in decimal.
inductive Spells : List Char → Int → Prop where
  | decimal {cs : List Char} {ds : List Nat} (h : List.Forall₂ (Writes 10) cs ds) (hne : cs ≠ [])
      (hlen : cs.length ≤ 3000) : Spells cs (Nat.ofDigits 10 ds.reverse : Nat)
  | hexadecimal {mark : Char} {cs : List Char} {ds : List Nat} (hmark : mark = 'x' ∨ mark = 'X')
      (h : List.Forall₂ (Writes 16) cs ds) (hne : cs ≠ []) (hlen : cs.length ≤ 3000) :
      Spells ('0' :: mark :: cs) (Nat.ofDigits 16 ds.reverse : Nat)
  | literal {c : Char} (hmark : c ≠ apostrophe) (hescape : c ≠ '\\') (hline : c ≠ '\n') :
      Spells [apostrophe, c, apostrophe] (c.toNat % 256 : Nat)
  | escape {c : Char} {v : Int} (h : (c, v) ∈ escapes) : Spells [apostrophe, '\\', c, apostrophe] v

theorem isBare_marked {mark : Char} (hmark : mark = 'x' ∨ mark = 'X') {cs : List Char} (h : IsBare cs) :
    IsBare ('0' :: mark :: cs) := by
  have hhead : IsBare ['0', mark] := by
    rcases hmark with rfl | rfl <;> exact .of_all (by decide) (by decide)
  exact hhead.append h.bare

theorem IsBare.passes {t : List Char} (h : IsBare t) : Passes t :=
  .of_unquoted fun c hc => (h.bare c hc).2

theorem IsBare.newline_not_mem {t : List Char} (h : IsBare t) : '\n' ∉ t :=
  fun hmem => absurd (h.bare '\n' hmem).1 (by decide)

theorem value_of_writes_decimal {cs : List Char} {ds : List Nat} (h : List.Forall₂ (Writes 10) cs ds)
    (hne : cs ≠ []) (hlen : cs.length ≤ Text.decimalLimit) :
    value cs = .ok ((Text.ofDigits 10 ds : Nat) : Int) := by
  have hsign : (([] : List Char), (1 : Int)) ∈ Text.signs := by simp [Text.signs]
  have hread := Text.decimalInt?_of_writes hsign h hne hlen
  rw [List.nil_append, Int.one_mul] at hread
  exact (Numeral.of_decimalInt? hread).value_eq

theorem value_of_writes_hexadecimal {mark : Char} (hmark : mark = 'x' ∨ mark = 'X') {cs : List Char}
    {ds : List Nat} (h : List.Forall₂ (Writes 16) cs ds) (hne : cs ≠ []) :
    value ('0' :: mark :: cs) = .ok ((Text.ofDigits 16 ds : Nat) : Int) := by
  have hread := Text.markedDigits?_of_writes (by omega) h hne
  exact (Numeral.of_markedDigits? hmark hread).value_eq

theorem value_literal (c : Char) : value [apostrophe, c, apostrophe] = .ok ((c.toNat % 256 : Nat) : Int) := by
  simp [value, isQuoted, literalCode?]

theorem value_escape {c : Char} {v : Int} (h : escapeCode? c = some v) :
    value [apostrophe, '\\', c, apostrophe] = .ok v := by
  simp [value, isQuoted, literalCode?, h]

theorem of_mem_escapes {c : Char} {v : Int} (h : (c, v) ∈ escapes) :
    escapeCode? c = some v ∧ c ≠ '\n' ∧ 0 ≤ v ∧ v < 256 := by
  have hall : ∀ p ∈ escapes, escapeCode? p.1 = some p.2 ∧ p.1 ≠ '\n' ∧ 0 ≤ p.2 ∧ p.2 < 256 := by decide
  exact hall (c, v) h

namespace Spells

variable {t : List Char} {v : Int}

theorem value_eq (h : Spells t v) : value t = .ok v := by
  cases h with
  | decimal h hne hlen =>
      rw [← Text.ofDigits_eq]
      exact value_of_writes_decimal h hne (Nat.le_trans hlen (by decide))
  | hexadecimal hmark h hne hlen =>
      rw [← Text.ofDigits_eq]
      exact value_of_writes_hexadecimal hmark h hne
  | literal hmark hescape hline => exact value_literal _
  | escape h => exact value_escape (of_mem_escapes h).1

theorem isToken (h : Spells t v) : IsToken t := by
  cases h with
  | decimal h hne hlen => exact .plain (isBare_of_writes (by omega) h hne).isPlain
  | hexadecimal hmark h hne hlen =>
      exact .plain (isBare_marked hmark (isBare_of_writes (by omega) h hne)).isPlain
  | literal hmark hescape hline => exact .literal hmark hescape
  | escape h => exact .escape (of_mem_escapes h).2.1

theorem passes (h : Spells t v) : Passes t := by
  cases h with
  | decimal h hne hlen => exact (isBare_of_writes (by omega) h hne).passes
  | hexadecimal hmark h hne hlen =>
      exact (isBare_marked hmark (isBare_of_writes (by omega) h hne)).passes
  | literal hmark hescape hline => exact .literal hmark hescape
  | escape h => exact .escape _

theorem newline_not_mem (h : Spells t v) : '\n' ∉ t := by
  cases h with
  | decimal h hne hlen => exact (isBare_of_writes (by omega) h hne).newline_not_mem
  | hexadecimal hmark h hne hlen =>
      exact (isBare_marked hmark (isBare_of_writes (by omega) h hne)).newline_not_mem
  | literal hmark hescape hline => simp [Ne.symm hline, apostrophe_ne.2.2.symm]
  | escape h => simp [Ne.symm (of_mem_escapes h).2.1, apostrophe_ne.2.2.symm]

theorem nonneg (h : Spells t v) : 0 ≤ v := by
  cases h with
  | decimal | hexadecimal | literal => exact Int.natCast_nonneg _
  | escape h => exact (of_mem_escapes h).2.2.1

-- Every spelled value is short enough to be named in decimal, so a message can be made of it.
theorem isSome_decimal? (h : Spells t v) : (Text.decimal? v).isSome = true := by
  have hsmall : ∀ n < 256, (Text.decimal? (n : Nat)).isSome = true := by
    intro n hn
    exact Text.isSome_decimal?_of_lt (show n < 10 ^ 3 by omega) (by decide)
  cases h with
  | decimal h hne hlen =>
      exact Text.isSome_decimal?_of_lt (Text.ofDigits_lt_of_writes (by omega) h hlen) (by decide)
  | hexadecimal hmark h hne hlen =>
      have hlt := Text.ofDigits_lt_of_writes (by omega) h (show _ ≤ 5 * 600 from hlen)
      exact Text.isSome_decimal?_of_lt (Nat.lt_of_lt_of_le hlt (Text.pow_sixteen_le 600)) (by decide)
  | literal hmark hescape hline => exact hsmall _ (Nat.mod_lt _ (by omega))
  | escape h =>
      obtain ⟨-, -, hnonneg, hlt⟩ := of_mem_escapes h
      obtain ⟨n, rfl⟩ := Int.eq_ofNat_of_zero_le hnonneg
      exact hsmall n (by omega)

end Spells

end WordMachine.Assembly
