import WordMachine.Proofs.Assembly.Notation
import WordMachine.Proofs.Assembly.Single

namespace WordMachine.Assembly

open WordMachine.Text (apostrophe)

-- A line put together from tokens, each of them behind a gap. Only the first one needs none.
structure Spacing where
  rows : List (List Char × List Char)
  tail : List Char
  isToken : ∀ p ∈ rows, IsToken p.2
  separates : ∀ p ∈ rows, ∀ c ∈ p.1, isSeparator c = true
  apart : ∀ p ∈ rows.tail, p.1 ≠ []
  tail_separates : ∀ c ∈ tail, isSeparator c = true

namespace Spacing

def text (x : Spacing) : List Char :=
  (x.rows.flatMap fun p => p.1 ++ p.2) ++ x.tail

def words (x : Spacing) : List (List Char) :=
  x.rows.map Prod.snd

theorem tokens_text (x : Spacing) : tokens x.text = x.words := by
  obtain ⟨rows, tail, htoken, hgap, hapart, htail⟩ := x
  cases rows with
  | nil => exact tokens_of_separators htail
  | cons p rest =>
      have hrest : ∀ q ∈ rest, q.1 ≠ [] ∧ (∀ c ∈ q.1, isSeparator c = true) ∧ IsToken q.2 := fun q hq =>
        ⟨hapart q hq, hgap q (List.mem_cons_of_mem p hq), htoken q (List.mem_cons_of_mem p hq)⟩
      have hsplit : ((p :: rest).flatMap fun q => q.1 ++ q.2) ++ tail = p.1 ++ (gapped p.2 rest ++ tail) := by
        simp [gapped]
      rw [text, hsplit, tokens_append_of_separators (hgap p List.mem_cons_self),
        tokens_gapped (htoken p List.mem_cons_self) hrest htail]
      rfl

end Spacing

theorem separators_are_interchangeable {x y : Spacing} (h : x.words = y.words) :
    tokens x.text = x.words ∧ tokens y.text = x.words ∧
      ∀ number, assembleLine number x.text = assembleLine number y.text := by
  have hy : tokens y.text = x.words := y.tokens_text.trans h.symm
  exact ⟨x.tokens_text, hy, fun number => assembleLine_congr number (x.tokens_text.trans hy.symm)⟩

-- A line that stores a comma, which is as well what may stand between its tokens.
def storingComma (lead gap gap' tail : List Char)
    (hgaps : (lead ++ gap ++ gap' ++ tail).all isSeparator = true) (hgap : gap ≠ []) (hgap' : gap' ≠ []) :
    Spacing where
  rows := [(lead, "str".toList), (gap, "1".toList), (gap', "','".toList)]
  tail := tail
  isToken := by
    have hmnemonic : IsToken "str".toList := .plain (isBare_mnemonic .str).isPlain
    have haddress : IsToken "1".toList := .plain (IsBare.of_all (by decide) (by decide)).isPlain
    have hcomma : IsToken "','".toList := .literal (c := ',') (by decide) (by decide)
    exact List.forall_mem_cons.mpr ⟨hmnemonic, List.forall_mem_cons.mpr ⟨haddress,
      List.forall_mem_singleton.mpr hcomma⟩⟩
  separates := by
    simp only [List.all_eq_true, List.forall_mem_append] at hgaps
    obtain ⟨⟨⟨hlead, hgap⟩, hgap'⟩, -⟩ := hgaps
    exact List.forall_mem_cons.mpr ⟨hlead, List.forall_mem_cons.mpr ⟨hgap,
      List.forall_mem_singleton.mpr hgap'⟩⟩
  apart := List.forall_mem_cons.mpr ⟨hgap, List.forall_mem_singleton.mpr hgap'⟩
  tail_separates := fun c hc => List.all_eq_true.mp hgaps c (List.mem_append_right _ hc)

theorem separators_are_interchangeable_around_comma :
    let x := storingComma [] [' '] [','] [] (by decide) (by decide) (by decide)
    let y := storingComma [',', ' '] [',', ' '] ['\t', ','] [' ', ','] (by decide) (by decide) (by decide)
    x.words = y.words ∧ x.text = "str 1,','".toList ∧ y.text = ", str, 1\t,',' ,".toList ∧
      tokens y.text = ["str".toList, "1".toList, "','".toList] ∧
      assembleLine 1 x.text = assembleLine 1 y.text := by
  intro x y
  have hwords : x.words = y.words := rfl
  obtain ⟨-, htokens, hline⟩ := separators_are_interchangeable hwords
  exact ⟨hwords, by decide, by decide, htokens, hline 1⟩

end WordMachine.Assembly
