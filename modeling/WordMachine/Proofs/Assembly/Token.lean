import WordMachine.Assembly.Token
import WordMachine.Proofs.Text.Line

namespace WordMachine.Assembly

open WordMachine.Text (isBlank apostrophe trim trimLeft trimRight)

-- A token that is no literal: a run without separators that does not begin with a quotation mark.
structure IsPlain (t : List Char) : Prop where
  ne_nil : t ≠ []
  head_ne : t.head? ≠ some apostrophe
  unseparated : ∀ c ∈ t, isSeparator c = false

-- Where a token may end: at the end of the text or at a separator.
def Bounded (s : List Char) : Prop :=
  ∀ c, s.head? = some c → isSeparator c = true

theorem tokens_nil : tokens [] = [] := by
  rw [tokens.eq_def]

theorem tokens_separator {c : Char} (hc : isSeparator c = true) (s : List Char) :
    tokens (c :: s) = tokens s := by
  rw [tokens.eq_def]
  simp only [hc, if_true]

theorem tokens_append_of_separators {gap : List Char} (hgap : ∀ c ∈ gap, isSeparator c = true)
    (s : List Char) : tokens (gap ++ s) = tokens s := by
  induction gap with
  | nil => rfl
  | cons c gap ih =>
      rw [List.cons_append, tokens_separator (hgap c (by simp))]
      exact ih (fun d hd => hgap d (List.mem_cons_of_mem c hd))

theorem tokens_of_separators {gap : List Char} (hgap : ∀ c ∈ gap, isSeparator c = true) : tokens gap = [] := by
  rw [← List.append_nil gap, tokens_append_of_separators hgap, tokens_nil]

-- One token of a known width, and the scan goes on behind it.
theorem tokens_cons {c : Char} {s : List Char} (hc : isSeparator c = false) :
    tokens (c :: s) =
      (c :: s).take (tokenWidth (c :: s)) :: tokens ((c :: s).drop (tokenWidth (c :: s))) := by
  have hpos : 0 < tokenWidth (c :: s) := tokenWidth_pos hc
  have hdrop : (c :: s).drop (tokenWidth (c :: s)) = s.drop (tokenWidth (c :: s) - 1) := by
    rw [show tokenWidth (c :: s) = (tokenWidth (c :: s) - 1) + 1 by omega, List.drop_succ_cons]
    rfl
  rw [tokens.eq_def, hdrop]
  simp only [hc, Bool.false_eq_true, if_false]

-- What is true of the empty text, and stays true with a separator or a token before the text, is true of
-- every text.
theorem scan_induction {P : List Char → Prop} (nil : P [])
    (separator : ∀ c s, isSeparator c = true → P s → P (c :: s))
    (token : ∀ c s, isSeparator c = false → P ((c :: s).drop (tokenWidth (c :: s))) → P (c :: s))
    (s : List Char) : P s := by
  induction hlen : s.length using Nat.strongRecOn generalizing s with
  | ind n ih =>
      cases s with
      | nil => exact nil
      | cons c s =>
          cases hc : isSeparator c with
          | true => exact separator c s hc (ih s.length (by simp [← hlen]) s rfl)
          | false =>
              have hpos : 0 < tokenWidth (c :: s) := tokenWidth_pos hc
              refine token c s hc (ih _ ?_ _ rfl)
              rw [List.length_drop, hlen]
              have : (c :: s).length = s.length + 1 := rfl
              omega

theorem literalWidth_of_ne {c : Char} (hc : c ≠ apostrophe) (s : List Char) :
    literalWidth (c :: s) = 0 := by
  unfold literalWidth
  split
  · rename_i heq
    rw [List.cons.injEq] at heq
    rw [if_neg (fun h => hc (heq.1.trans h.1))]
  · rename_i heq
    rw [List.cons.injEq] at heq
    rw [if_neg (fun h => hc (heq.1.trans h.1))]
  · rfl

theorem wordWidth_append_of_bounded (s : List Char) {t : List Char} (ht : Bounded t) :
    wordWidth (s ++ t) = wordWidth s := by
  have hstop : t.takeWhile (fun c => !isSeparator c) = [] := by
    cases t with
    | nil => rfl
    | cons c t => simp [ht c rfl]
  rw [wordWidth, wordWidth, List.takeWhile_append, hstop]
  split <;> simp_all

theorem wordWidth_append {t s : List Char} (ht : ∀ c ∈ t, isSeparator c = false) (hs : Bounded s) :
    wordWidth (t ++ s) = t.length := by
  have hall : t.takeWhile (fun c => !isSeparator c) = t :=
    List.takeWhile_eq_self_iff.mpr (by simpa using ht)
  rw [wordWidth_append_of_bounded t hs, wordWidth, hall]

theorem tokenWidth_le (s : List Char) : tokenWidth s ≤ s.length := by
  have hword : wordWidth s ≤ s.length := (List.takeWhile_sublist _).length_le
  have hliteral : literalWidth s ≤ s.length := by
    fun_cases literalWidth s <;> simp
  rw [tokenWidth]
  split <;> assumption

theorem literalWidth_of_length_lt {s : List Char} (h : s.length < 3) : literalWidth s = 0 := by
  fun_cases literalWidth s with
  | case1 | case2 | case3 | case4 =>
      simp only [List.length_cons] at h
      omega
  | case5 => rfl

theorem literalWidth_of_ne_backslash {b : Char} (hb : b ≠ '\\') (a c : Char) (s : List Char) :
    literalWidth (a :: b :: c :: s) = if a = apostrophe ∧ b ≠ apostrophe ∧ c = apostrophe then 3 else 0 := by
  rw [literalWidth]
  · simp [hb]
  · exact fun _ _ h _ => hb h

theorem literalWidth_of_backslash (a c : Char) (s : List Char) :
    literalWidth (a :: '\\' :: c :: s) =
      if a = apostrophe ∧ c ≠ '\n' ∧ s.head? = some apostrophe then 4 else 0 := by
  cases s with
  | nil => simp [literalWidth]
  | cons d s => simp [literalWidth]

-- No literal reaches over the end of a text to a separator behind it, unless a mark comes next.
theorem literalWidth_append {s t : List Char} (hne : s ≠ []) (hbound : Bounded t)
    (hmark : t[1]? ≠ some apostrophe) : literalWidth (s ++ t) = literalWidth s := by
  have hfirst : t.head? ≠ some apostrophe ∧ t.head? ≠ some '\\' := by
    constructor <;> intro h <;> exact absurd (hbound _ h) (by decide)
  rcases s with _ | ⟨a, _ | ⟨b, _ | ⟨c, s⟩⟩⟩
  · exact absurd rfl hne
  · rcases t with _ | ⟨c, _ | ⟨d, t⟩⟩
    · rfl
    · rw [literalWidth_of_length_lt (by simp), literalWidth_of_length_lt (by simp)]
    · have hc : c ≠ '\\' := by simpa using hfirst.2
      have hd : d ≠ apostrophe := by simpa using hmark
      simp only [List.singleton_append]
      rw [literalWidth_of_ne_backslash hc, literalWidth_of_length_lt (by simp), if_neg (by simp [hd])]
  · rcases t with _ | ⟨c, t⟩
    · rfl
    · have hc : c ≠ apostrophe := by simpa using hfirst.1
      have ht : t.head? ≠ some apostrophe := by simpa [List.head?_eq_getElem?] using hmark
      simp only [List.cons_append, List.nil_append]
      rw [literalWidth_of_length_lt (s := [a, b]) (by simp)]
      by_cases hb : b = '\\'
      · rw [hb, literalWidth_of_backslash, if_neg (by simp [ht])]
      · rw [literalWidth_of_ne_backslash hb, if_neg (by simp [hc])]
  · simp only [List.cons_append]
    by_cases hb : b = '\\'
    · have hhead : (s ++ t).head? = some apostrophe ↔ s.head? = some apostrophe := by
        cases s with
        | nil => simp [hfirst.1]
        | cons d s => rfl
      simp only [hb, literalWidth_of_backslash, hhead]
    · simp only [literalWidth_of_ne_backslash hb]

theorem tokenWidth_append {s t : List Char} (hne : s ≠ []) (hbound : Bounded t)
    (hmark : t[1]? ≠ some apostrophe) : tokenWidth (s ++ t) = tokenWidth s := by
  rw [tokenWidth, tokenWidth, literalWidth_append hne hbound hmark, wordWidth_append_of_bounded s hbound]

theorem tokens_append_of_bounded {s t : List Char} (hbound : Bounded t) (hmark : t[1]? ≠ some apostrophe) :
    tokens (s ++ t) = tokens s ++ tokens t := by
  induction s using scan_induction with
  | nil => simp [tokens_nil]
  | separator c s hc ih => rw [List.cons_append, tokens_separator hc, tokens_separator hc, ih]
  | token c s hc ih =>
      have hwidth := tokenWidth_append (s := c :: s) (by simp) hbound hmark
      have hle := tokenWidth_le (c :: s)
      rw [List.cons_append] at hwidth
      rw [List.cons_append, tokens_cons hc, tokens_cons hc, hwidth, ← List.cons_append,
        List.take_append_of_le_length hle, List.drop_append_of_le_length hle, ih, List.cons_append]

theorem tokens_plain_append {t s : List Char} (ht : IsPlain t) (hs : Bounded s) :
    tokens (t ++ s) = t :: tokens s := by
  obtain ⟨hne, hhead, hsep⟩ := ht
  have hwidth := wordWidth_append hsep hs
  cases t with
  | nil => exact absurd rfl hne
  | cons c t =>
      have hc : c ≠ apostrophe := by simpa using hhead
      have htoken : tokenWidth (c :: (t ++ s)) = (c :: t).length := by
        rw [tokenWidth, if_pos (literalWidth_of_ne hc _)]
        exact hwidth
      rw [List.cons_append, tokens_cons (hsep c (by simp)), htoken, ← List.cons_append,
        List.take_left, List.drop_left]

theorem tokens_plain {t : List Char} (ht : IsPlain t) : tokens t = [t] := by
  have h := tokens_plain_append ht (s := []) (by simp [Bounded])
  simpa [tokens_nil] using h

-- Plain tokens set apart by one and the same gap.
theorem tokens_intercalate {gap : List Char} (hne : gap ≠ [])
    (hgap : ∀ c ∈ gap, isSeparator c = true) {ts : List (List Char)} (hts : ∀ t ∈ ts, IsPlain t) :
    tokens (gap.intercalate ts) = ts := by
  induction ts with
  | nil => simp [List.intercalate, tokens_nil]
  | cons t ts ih =>
      have ht := hts t (by simp)
      cases ts with
      | nil => simpa [List.intercalate] using tokens_plain ht
      | cons u us =>
          have hbound : Bounded (gap ++ gap.intercalate (u :: us)) := by
            intro c hc
            cases gap with
            | nil => exact absurd rfl hne
            | cons g gap =>
                simp only [List.cons_append, List.head?_cons, Option.some.injEq] at hc
                exact hgap c (by simp [← hc])
          rw [List.intercalate_cons_cons, List.append_assoc, tokens_plain_append ht hbound,
            tokens_append_of_separators hgap, ih (fun v hv => hts v (List.mem_cons_of_mem t hv))]

-- A token: a run that is no literal, or one character between marks, or one behind a backslash there.
inductive IsToken : List Char → Prop where
  | plain {t : List Char} (h : IsPlain t) : IsToken t
  | literal {c : Char} (hmark : c ≠ apostrophe) (hescape : c ≠ '\\') : IsToken [apostrophe, c, apostrophe]
  | escape {c : Char} (hline : c ≠ '\n') : IsToken [apostrophe, '\\', c, apostrophe]

theorem tokens_literal_append {c : Char} (hmark : c ≠ apostrophe) (hescape : c ≠ '\\') (s : List Char) :
    tokens ([apostrophe, c, apostrophe] ++ s) = [apostrophe, c, apostrophe] :: tokens s := by
  have hwidth : literalWidth (apostrophe :: c :: apostrophe :: s) = 3 := by
    rw [literalWidth]
    · exact if_pos ⟨rfl, hmark, hescape, rfl⟩
    · exact fun _ _ h _ => hescape h
  have htoken : tokenWidth (apostrophe :: c :: apostrophe :: s) = 3 := by
    rw [tokenWidth, hwidth, if_neg (by omega)]
  simp only [List.cons_append, List.nil_append]
  rw [tokens_cons (by decide), htoken]
  rfl

theorem tokens_escape_append {c : Char} (hline : c ≠ '\n') (s : List Char) :
    tokens ([apostrophe, '\\', c, apostrophe] ++ s) = [apostrophe, '\\', c, apostrophe] :: tokens s := by
  have hwidth : literalWidth (apostrophe :: '\\' :: c :: apostrophe :: s) = 4 := by
    rw [literalWidth]
    exact if_pos ⟨rfl, hline, rfl⟩
  have htoken : tokenWidth (apostrophe :: '\\' :: c :: apostrophe :: s) = 4 := by
    rw [tokenWidth, hwidth, if_neg (by omega)]
  simp only [List.cons_append, List.nil_append]
  rw [tokens_cons (by decide), htoken]
  rfl

theorem IsToken.tokens_append {t s : List Char} (ht : IsToken t) (hs : Bounded s) :
    tokens (t ++ s) = t :: tokens s := by
  cases ht with
  | plain h => exact tokens_plain_append h hs
  | literal hmark hescape => exact tokens_literal_append hmark hescape s
  | escape hline => exact tokens_escape_append hline s

theorem bounded_of_separators {gap : List Char} (hgap : ∀ c ∈ gap, isSeparator c = true) : Bounded gap :=
  fun c hc => hgap c (List.mem_of_head? hc)

theorem Bounded.append {gap : List Char} (hne : gap ≠ []) (hgap : Bounded gap) (s : List Char) :
    Bounded (gap ++ s) := by
  intro c hc
  rw [List.head?_append_of_ne_nil _ hne] at hc
  exact hgap c hc

-- A token and more of them, each behind a gap of its own.
def gapped (head : List Char) (rest : List (List Char × List Char)) : List Char :=
  head ++ rest.flatMap fun p => p.1 ++ p.2

theorem gapped_cons (head : List Char) (p : List Char × List Char) (rest : List (List Char × List Char)) :
    gapped head (p :: rest) = head ++ (p.1 ++ gapped p.2 rest) := by
  simp [gapped]

theorem tokens_gapped {head tail : List Char} {rest : List (List Char × List Char)} (hh : IsToken head)
    (hrest : ∀ p ∈ rest, p.1 ≠ [] ∧ (∀ c ∈ p.1, isSeparator c = true) ∧ IsToken p.2)
    (htail : ∀ c ∈ tail, isSeparator c = true) :
    tokens (gapped head rest ++ tail) = head :: rest.map Prod.snd := by
  induction rest generalizing head with
  | nil =>
      simp [gapped, hh.tokens_append (bounded_of_separators htail), tokens_of_separators htail]
  | cons p rest ih =>
      obtain ⟨hne, hgap, htoken⟩ := hrest p (by simp)
      have hbound := (bounded_of_separators hgap).append hne (gapped p.2 rest ++ tail)
      rw [gapped_cons, List.append_assoc, List.append_assoc, hh.tokens_append hbound,
        tokens_append_of_separators hgap, ih htoken (fun q hq => hrest q (List.mem_cons_of_mem p hq)),
        List.map_cons]

theorem IsToken.ne_nil {t : List Char} (h : IsToken t) : t ≠ [] := by
  cases h with
  | plain h => exact h.ne_nil
  | literal _ _ | escape _ => simp

-- No token begins or ends with a separator, whatever a literal holds between its marks.
theorem IsToken.separates_ends {t : List Char} (h : IsToken t) {c : Char}
    (hc : t.head? = some c ∨ t.getLast? = some c) : isSeparator c = false := by
  cases h with
  | plain h => exact h.unseparated c (hc.elim List.mem_of_head? List.mem_of_getLast?)
  | literal _ _ | escape _ =>
      have hmark : c = apostrophe := by simpa [eq_comm] using hc
      rw [hmark]
      decide

theorem head?_gapped {head : List Char} (hh : IsToken head) (rest : List (List Char × List Char)) :
    (gapped head rest).head? = head.head? :=
  List.head?_append_of_ne_nil _ hh.ne_nil

theorem gapped_ne_nil {head : List Char} (hh : IsToken head) (rest : List (List Char × List Char)) :
    gapped head rest ≠ [] := by
  simp [gapped, hh.ne_nil]

theorem isSeparator_of_getLast?_gapped {head : List Char} {rest : List (List Char × List Char)}
    (hh : IsToken head) (hrest : ∀ p ∈ rest, IsToken p.2) {c : Char}
    (hc : (gapped head rest).getLast? = some c) : isSeparator c = false := by
  induction rest generalizing head with
  | nil => exact hh.separates_ends (.inr (by simpa [gapped] using hc))
  | cons p rest ih =>
      have hp := hrest p (by simp)
      rw [gapped_cons, ← List.append_assoc, List.getLast?_append_of_ne_nil _ (gapped_ne_nil hp rest)] at hc
      exact ih hp (fun q hq => hrest q (List.mem_cons_of_mem p hq)) hc

theorem isBlank_of_isSeparator_eq_false {c : Char} (h : isSeparator c = false) : isBlank c = false := by
  simp only [isSeparator, Bool.or_eq_false_iff] at h
  exact h.1

theorem tokens_append_separators {gap : List Char} (hgap : ∀ c ∈ gap, isSeparator c = true) (s : List Char) :
    tokens (s ++ gap) = tokens s := by
  have hmark : gap[1]? ≠ some apostrophe := by
    intro h
    exact absurd (hgap apostrophe (List.mem_of_getElem? h)) (by decide)
  rw [tokens_append_of_bounded (bounded_of_separators hgap) hmark, tokens_of_separators hgap,
    List.append_nil]

-- The blanks that trimming takes away are separators.
theorem tokens_trim (s : List Char) : tokens (trim s) = tokens s := by
  have hseparator : ∀ c, isBlank c = true → isSeparator c = true := by
    intro c hc
    rw [isSeparator, hc, Bool.true_or]
  obtain ⟨lead, tail, hs, hlead, htail⟩ := Text.exists_trim s
  calc
    tokens (trim s) = tokens (trim s ++ tail) := by
      rw [tokens_append_separators fun c hc => hseparator c (htail c hc)]
    _ = tokens (lead ++ (trim s ++ tail)) := by
      rw [tokens_append_of_separators fun c hc => hseparator c (hlead c hc)]
    _ = tokens s := by rw [← hs]

end WordMachine.Assembly
