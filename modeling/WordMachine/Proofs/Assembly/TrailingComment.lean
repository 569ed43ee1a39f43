import WordMachine.Proofs.Assembly.Layout

namespace WordMachine.Assembly

open WordMachine.Text (apostrophe)

-- A text without the two characters that quotations are made with.
def Unmarked (t : List Char) : Prop :=
  ∀ c ∈ t, c ≠ apostrophe ∧ c ≠ '\\'

instance (t : List Char) : Decidable (Unmarked t) :=
  decidable_of_iff (t.all (fun c => c != apostrophe && c != '\\') = true) (by simp [Unmarked])

theorem unmarked_of_numeral {t : List Char} {v : Int} (h : Numeral t v) : Unmarked t := by
  intro c hc
  constructor <;> rintro rfl <;> exact h.not_mem (by decide) (by decide) hc

-- The shapes that the tokens of an assembled line have. The one character between two marks may be any, a
-- third mark and a backslash among them.
inductive Shaped : List Char → Prop where
  | unmarked {t : List Char} (h : Unmarked t) : Shaped t
  | literal (c : Char) : Shaped [apostrophe, c, apostrophe]
  | escape (c : Char) : Shaped [apostrophe, '\\', c, apostrophe]

theorem exists_of_isQuoted {t : List Char} (h : isQuoted t = true) :
    t = apostrophe :: (t.drop 1).dropLast ++ [apostrophe] := by
  simp only [isQuoted, Bool.and_eq_true, decide_eq_true_eq, beq_iff_eq] at h
  obtain ⟨⟨hlen, hhead⟩, hlast⟩ := h
  rcases t with _ | ⟨a, _ | ⟨b, t⟩⟩
  · simp at hlen
  · simp at hlen
  · rw [List.head?_cons, Option.some.injEq] at hhead
    rw [List.getLast?_cons_cons] at hlast
    have htail := List.dropLast_append_getLast? apostrophe hlast
    rw [hhead, List.drop_one, List.tail_cons, List.cons_append, htail]

theorem shaped_of_value {t : List Char} {v : Int} (h : value t = .ok v) : Shaped t := by
  rw [value] at h
  split at h
  · rename_i hquoted
    rw [exists_of_isQuoted hquoted]
    generalize (t.drop 1).dropLast = body at h ⊢
    split at h
    · rename_i code hcode
      rw [literalCode?.eq_def] at hcode
      split at hcode
      · exact .literal _
      · exact .escape _
      · simp at hcode
    · simp at h
  · split at h
    · rename_i n hn
      exact .unmarked (unmarked_of_numeral (numeral?_eq_some_iff.mp hn))
    · simp at h

-- A name in lower case that has no mark and no backslash is not written with one in upper case.
theorem unmarked_of_toLower {head : List Char} {name : String} (h : head.map Char.toLower = name.toList)
    (hname : Unmarked name.toList) : Unmarked head := by
  intro c hc
  have hlower := hname c.toLower (h ▸ List.mem_map_of_mem hc)
  constructor <;> rintro rfl
  · exact hlower.1 rfl
  · exact hlower.2 rfl

theorem unmarked_mnemonic (op : Opcode) : Unmarked op.mnemonic.toList := by
  cases op <;> decide

theorem shaped_of_values {ts : List (List Char)} {vs : List Int}
    (h : List.Forall₂ (fun t v => value t = .ok v) ts vs) : ∀ t ∈ ts, Shaped t := by
  induction h with
  | nil => simp
  | cons hv _ ih => exact List.forall_mem_cons.mpr ⟨shaped_of_value hv, ih⟩

theorem shaped_of_denotes {text : List Char} {w : Word} (h : Denotes text w) :
    ∀ t ∈ tokens text, Shaped t := by
  cases h with
  | @directive head token v htokens hhead hvalue hword =>
      have hname : Unmarked ".word".toList := by decide
      rw [htokens, List.forall_mem_cons, List.forall_mem_singleton]
      exact ⟨.unmarked (unmarked_of_toLower hhead hname), shaped_of_value hvalue⟩
  | @operation head operands op vs htokens hhead hvalues hbuild hencode hcode =>
      rw [htokens, List.forall_mem_cons]
      exact ⟨.unmarked (unmarked_of_toLower hhead (unmarked_mnemonic op)), shaped_of_values hvalues⟩

namespace Quoting

-- Where a reader outside or inside marks stands.
def of (inside : Bool) : Quoting :=
  if inside then .inside else .outside

-- Where a reader stands after a text.
def after (q : Quoting) (s : List Char) : Quoting :=
  s.foldl next q

theorem after_append (q : Quoting) (s t : List Char) : q.after (s ++ t) = (q.after s).after t :=
  List.foldl_append

theorem uncommented_append {s : List Char} (hs : ';' ∉ s) (q : Quoting) (rest : List Char) :
    q.uncommented (s ++ rest) = s ++ (q.after s).uncommented rest := by
  induction s generalizing q with
  | nil => rfl
  | cons c s ih =>
      have hc : ¬(q = .outside ∧ c = ';') := fun h => hs (by simp [h.2])
      rw [List.cons_append, uncommented, if_neg hc, ih (fun h => hs (List.mem_cons_of_mem c h))]
      rfl

theorem next_of {c : Char} (hmark : c ≠ apostrophe) (hescape : c ≠ '\\') (inside : Bool) :
    (of inside).next c = of inside := by
  cases inside <;> simp [of, next, hmark, hescape]

theorem after_unmarked {t : List Char} (h : Unmarked t) (inside : Bool) : (of inside).after t = of inside := by
  induction t with
  | nil => rfl
  | cons c t ih =>
      obtain ⟨hc, ht⟩ := List.forall_mem_cons.mp h
      rw [after, List.foldl_cons, next_of hc.1 hc.2]
      exact ih ht

end Quoting

-- The literals of a mark and of a backslash that are written without an escape.
def markLiteral : List Char :=
  [apostrophe, apostrophe, apostrophe]

def backslashLiteral : List Char :=
  [apostrophe, '\\', apostrophe]

-- The tokens that take the reader looking for the comment across one mark too many: that of a mark, that of a
-- backslash where they begin outside of a quotation, and an escaped mark where it begins inside of one.
def crosses (inside : Bool) (t : List Char) : Bool :=
  t = markLiteral || t = if inside then [apostrophe, '\\', apostrophe, apostrophe] else backslashLiteral

-- Whether that reader is left inside a quotation by the tokens of a line.
def leftOpen (ts : List (List Char)) : Bool :=
  ts.foldl (fun inside t => inside ^^ crosses inside t) false

-- As long as no token crosses a mark from outside, the reader stays there.
theorem leftOpen_of_not_mem {ts : List (List Char)} (hmark : markLiteral ∉ ts)
    (hbackslash : backslashLiteral ∉ ts) : leftOpen ts = false := by
  induction ts with
  | nil => rfl
  | cons t ts ih =>
      simp only [List.mem_cons, not_or] at hmark hbackslash
      have ht : crosses false t = false := by
        simp [crosses, Ne.symm hmark.1, Ne.symm hbackslash.1]
      rw [leftOpen, List.foldl_cons, ht]
      exact ih hmark.2 hbackslash.2

theorem mem_of_leftOpen {ts : List (List Char)} (h : leftOpen ts = true) :
    markLiteral ∈ ts ∨ backslashLiteral ∈ ts := by
  by_contra hnone
  rw [not_or] at hnone
  rw [leftOpen_of_not_mem hnone.1 hnone.2] at h
  exact absurd h (by decide)

theorem crosses_unmarked {t : List Char} (h : Unmarked t) (inside : Bool) : crosses inside t = false := by
  have hne : ∀ u : List Char, apostrophe ∈ u → t ≠ u := by
    rintro u hu rfl
    exact (h apostrophe hu).1 rfl
  cases inside <;> simp [crosses, markLiteral, backslashLiteral, hne]

theorem Shaped.after_eq {t : List Char} (h : Shaped t) (inside : Bool) :
    (Quoting.of inside).after t = Quoting.of (inside ^^ crosses inside t) := by
  cases h with
  | unmarked h => rw [Quoting.after_unmarked h, crosses_unmarked h, Bool.xor_false]
  | literal c =>
      by_cases hmark : c = apostrophe
      · rw [hmark]
        cases inside <;> rfl
      · by_cases hescape : c = '\\'
        · rw [hescape]
          cases inside <;> rfl
        · cases inside <;>
            simp [crosses, markLiteral, backslashLiteral, hmark, hescape, apostrophe_ne, Quoting.of,
              Quoting.after, Quoting.next]
  | escape c =>
      by_cases hmark : c = apostrophe
      · rw [hmark]
        cases inside <;> rfl
      · cases inside <;>
          simp [crosses, markLiteral, backslashLiteral, hmark, apostrophe_ne, apostrophe_ne.2.1.symm,
            Quoting.of, Quoting.after, Quoting.next]

theorem after_eq_of_shaped {s : List Char} (h : ∀ t ∈ tokens s, Shaped t) (inside : Bool) :
    (Quoting.of inside).after s =
      Quoting.of ((tokens s).foldl (fun inside t => inside ^^ crosses inside t) inside) := by
  induction s using scan_induction generalizing inside with
  | nil =>
      rw [tokens_nil]
      rfl
  | separator c s hc ih =>
      rw [tokens_separator hc] at h ⊢
      have hnext : (Quoting.of inside).next c = Quoting.of inside := by
        apply Quoting.next_of <;> rintro rfl <;> exact absurd hc (by decide)
      rw [Quoting.after, List.foldl_cons, hnext]
      exact ih h inside
  | token c s hc ih =>
      rw [tokens_cons hc, List.forall_mem_cons] at h
      rw [tokens_cons hc, List.foldl_cons, ← ih h.2, ← h.1.after_eq, ← Quoting.after_append,
        List.take_append_drop]

-- The complaint about a line that has more operands than it takes.
inductive TooMany : LineError → Prop where
  | directive : TooMany .rawArity
  | operation {op : Opcode} {given : Nat} (h : op.arity < given) : TooMany (.arity op given)

theorem assembleLine_of_more {number : Int} {s t : List Char} {w : Word} {more : List (List Char)}
    (h : assembleLine number s = .ok w) (htokens : tokens t = tokens s ++ more) (hmore : more ≠ []) :
    ∃ cause, TooMany cause ∧ assembleLine number t = .error (.line number cause) := by
  have hlen : 0 < more.length := List.length_pos_iff.mpr hmore
  cases denotes_of_assembleLine h with
  | @directive head token v hs hhead hvalue hword =>
      rw [hs] at htokens
      have hlength : (token :: more).length ≠ 1 := by simpa using hmore
      refine ⟨.rawArity, .directive, ?_⟩
      rw [assembleLine_of_word number htokens hhead]
      exact rawWord_of_length_ne number hlength
  | @operation head operands op vs hs hhead hvalues hbuild hencode hcode =>
      rw [hs] at htokens
      obtain ⟨hop, hoperands, -⟩ := (Instruction.build_eq_ok_iff (Opcode.ofMnemonic?_mnemonic op)).mp hbuild
      have harity : operands.length = op.arity := by
        rw [hvalues.length_eq, ← hoperands, Instruction.length_operands hop]
      have hgiven : op.arity < (operands ++ more).length := by
        rw [List.length_append]
        omega
      refine ⟨.arity op (operands ++ more).length, .operation hgiven, ?_⟩
      rw [assembleLine_of_mnemonic number htokens hhead]
      exact if_neg (Nat.ne_of_gt hgiven)

-- The comment, and the space before it.
def commented (l c : List Char) : List Char :=
  l ++ ' ' :: ';' :: c

section Trailing

variable {l : List Char} (hs : ';' ∉ l) (c : List Char)

include hs

theorem tokens_commented_of_outside (h : Quoting.outside.after l = .outside) :
    tokens (effective (commented l c)) = tokens l := by
  have hrest : Quoting.outside.uncommented (' ' :: ';' :: c) = [' '] := by
    simp [Quoting.uncommented, Quoting.next, apostrophe]
  rw [effective, tokens_trim, commented, Quoting.uncommented_append hs, h, hrest]
  exact tokens_append_separators (List.forall_mem_singleton.mpr (by decide)) l

-- The comment is at least one token more.
theorem tokens_commented_of_inside (h : Quoting.outside.after l = .inside) :
    ∃ more, more ≠ [] ∧ tokens (effective (commented l c)) = tokens l ++ more := by
  have hrest : Quoting.inside.uncommented (' ' :: ';' :: c) =
      ' ' :: ';' :: Quoting.inside.uncommented c := by
    simp [Quoting.uncommented, Quoting.next, apostrophe]
  have hbound : Bounded (' ' :: ';' :: Quoting.inside.uncommented c) := by
    intro d hd
    rw [List.head?_cons, Option.some.injEq] at hd
    rw [← hd]
    decide
  refine ⟨tokens (';' :: Quoting.inside.uncommented c), ?_, ?_⟩
  · rw [tokens_cons (by decide)]
    simp
  · rw [effective, tokens_trim, commented, Quoting.uncommented_append hs, h, hrest,
      tokens_append_of_bounded hbound (by simp [apostrophe]), tokens_separator (by decide)]

end Trailing

theorem trailing_comment_dropped_or_reported {l c : List Char} {w : Word} (hl : '\n' ∉ l) (hs : ';' ∉ l)
    (hc : '\n' ∉ c) (h : assembleWords l = .ok [w]) :
    (leftOpen (tokens l) = false → assembleWords (commented l c) = .ok [w]) ∧
      (leftOpen (tokens l) = true →
        (markLiteral ∈ tokens l ∨ backslashLiteral ∈ tokens l) ∧
          ∃ cause, TooMany cause ∧ assembleWords (commented l c) = .error (.line 1 cause)) := by
  have hline : '\n' ∉ commented l c := by
    simp [commented, hl, hc]
  have htokens : tokens (effective l) = tokens l := by
    rw [effective, uncommented_of_not_mem hs, tokens_trim]
  have hword : assembleLine 1 l = .ok w := by
    rw [← assembleLine_congr 1 htokens]
    exact assembleLine_of_assembleWords hl h
  have hafter : Quoting.outside.after l = Quoting.of (leftOpen (tokens l)) :=
    after_eq_of_shaped (shaped_of_denotes (denotes_of_assembleLine hword)) false
  constructor
  · intro hopen
    rw [hopen] at hafter
    have hsame := assembleLine_congr 1 (tokens_commented_of_outside hs c hafter)
    rw [hword] at hsame
    rw [assembleWords_of_assembleLine hline (by simp [hsame]), hsame]
  · intro hopen
    rw [hopen] at hafter
    obtain ⟨more, hmore, hcommented⟩ := tokens_commented_of_inside hs c hafter
    obtain ⟨cause, hcause, herror⟩ := assembleLine_of_more hword hcommented hmore
    refine ⟨mem_of_leftOpen hopen, cause, hcause, ?_⟩
    rw [assembleWords_of_assembleLine hline (by simp [herror]), herror]

-- An escaped mark brings the reader out again that a mark took in; a backslash leaves it there.
theorem trailing_comment_dropped_or_reported_by_marks :
    assembleWords "mov ''' '\\'' ;'".toList = .ok [0x01270027] ∧
      ∃ cause, TooMany cause ∧ assembleWords "adi 7 '\\' ;'; x".toList = .error (.line 1 cause) := by
  have hmarks : assembleWords "mov ''' '\\''".toList = .ok [0x01270027] := by decide +kernel
  have hclosed : leftOpen (tokens "mov ''' '\\''".toList) = false := by decide +kernel
  have hbackslash : assembleWords "adi 7 '\\'".toList = .ok [0x0307005C] := by decide +kernel
  have hopen : leftOpen (tokens "adi 7 '\\'".toList) = true := by decide +kernel
  constructor
  · exact (trailing_comment_dropped_or_reported (c := [apostrophe]) (by decide) (by decide) (by decide)
      hmarks).1 hclosed
  · exact ((trailing_comment_dropped_or_reported (c := [apostrophe, ';', ' ', 'x']) (by decide) (by decide)
      (by decide) hbackslash).2 hopen).2

theorem not_forall_trailing_comment_dropped :
    ¬∀ (l c : List Char) (w : Word), '\n' ∉ l → ';' ∉ l → '\n' ∉ c → assembleWords l = .ok [w] →
      assembleWords (l ++ ' ' :: ';' :: c) = .ok [w] := by
  intro h
  have hkept : assembleWords "str 0 ''' ;".toList = .error (.line 1 (.arity .str 3)) := by
    decide +kernel
  have hdropped := h "str 0 '''".toList [] 0x02000027 (by decide) (by decide) (by decide) (by decide +kernel)
  exact absurd (hkept.symm.trans hdropped) (by simp)

end WordMachine.Assembly
