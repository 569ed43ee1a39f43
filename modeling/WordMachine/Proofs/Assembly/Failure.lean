import WordMachine.Proofs.Assembly.Joining
import WordMachine.Proofs.Assembly.Line

namespace WordMachine

namespace Assembly

-- A line that can be assembled, as a source of its own.
def Assembles (line : List Char) : Prop :=
  ∃ ws, assembleWords line = .ok ws

-- Something is left of the line, but nothing except separators.
def Hollow (line : List Char) : Prop :=
  effective line ≠ [] ∧ ∀ c ∈ effective line, isSeparator c = true

-- A word is given by a value of more digits than are ever written.
def Overlong (line : List Char) : Prop :=
  ∃ head token v, tokens (effective line) = [head, token] ∧ head.map Char.toLower = ".word".toList ∧
    value token = .ok v ∧ Text.decimal? v = none

-- The first line of a source that cannot be assembled, by its number from one.
def FirstFailing (source : List Char) (number : Nat) (line : List Char) : Prop :=
  ∃ before after, Text.lines source = before ++ line :: after ∧ number = before.length + 1 ∧
    (∀ l ∈ before, Assembles l) ∧ ¬Assembles line

-- A source that gives bytes, or the number of its first line that cannot be assembled.
def WellReported (source : List Char) : Prop :=
  (∃ bytes, assemble source = .ok bytes) ∨
    ∃ number line cause, FirstFailing source number line ∧
      assemble source = .error (.line number cause)

theorem tokens_eq_nil_iff (s : List Char) : tokens s = [] ↔ ∀ c ∈ s, isSeparator c = true := by
  constructor
  · intro h
    induction s with
    | nil => simp
    | cons c s ih =>
        cases hc : isSeparator c with
        | false => simp [tokens_cons hc] at h
        | true =>
            rw [tokens_separator hc] at h
            simpa [hc] using ih h
  · exact tokens_of_separators

section Line

variable {number : Int} {text : List Char} {e : Error}

-- A value that can be written down is either a word or named in the error.
theorem rawWord_error {ts : List (List Char)} (h : rawWord number ts = .error e) :
    (∃ cause, e = .line number cause) ∨
      (e = .unwritableValue ∧ ∃ token v, ts = [token] ∧ value token = .ok v ∧ Text.decimal? v = none) := by
  rcases ts with _ | ⟨token, _ | ⟨other, rest⟩⟩
  · exact Or.inl ⟨_, (Except.error.inj h).symm⟩
  · cases hvalue : value token with
    | error cause =>
        simp only [rawWord, hvalue, Except.error.injEq] at h
        exact Or.inl ⟨cause, h.symm⟩
    | ok v =>
        simp only [rawWord, hvalue] at h
        split at h
        · simp at h
        · split at h
          · exact Or.inl ⟨_, (Except.error.inj h).symm⟩
          · rename_i hlong
            exact Or.inr ⟨(Except.error.inj h).symm, token, v, rfl, hvalue, by simpa using hlong⟩
  · exact Or.inl ⟨_, (Except.error.inj h).symm⟩

theorem instructionWord_error {op : Opcode} {ts : List (List Char)}
    (h : instructionWord number op ts = .error e) : ∃ cause, e = .line number cause := by
  rw [instructionWord] at h
  split at h
  · split at h
    · exact ⟨_, (Except.error.inj h).symm⟩
    · split at h
      · simp at h
      · exact ⟨_, (Except.error.inj h).symm⟩
  · exact ⟨_, (Except.error.inj h).symm⟩

-- A value that cannot be written down is far beyond a word.
theorem rawWord_of_decimal?_eq_none {token : List Char} {v : Int} (hvalue : value token = .ok v)
    (hv : Text.decimal? v = none) : rawWord number [token] = .error .unwritableValue := by
  have hrange : ¬(0 ≤ v ∧ v < 0x100000000) := by
    rintro ⟨hle, hlt⟩
    obtain ⟨n, rfl⟩ := Int.eq_ofNat_of_zero_le hle
    have hsome := Text.isSome_decimal?_of_lt (show n < 10 ^ 10 by omega) (by decide)
    simp [hv] at hsome
  simp only [rawWord, hvalue, if_neg hrange, hv, Option.isSome_none, Bool.false_eq_true, if_false]

theorem assembleLine_error (h : assembleLine number text = .error e) :
    (e = .noMnemonic ∧ tokens text = []) ∨
      (e = .unwritableValue ∧ ∃ head token v, tokens text = [head, token] ∧
        head.map Char.toLower = ".word".toList ∧ value token = .ok v ∧ Text.decimal? v = none) ∨
      ∃ cause, e = .line number cause := by
  cases hts : tokens text with
  | nil =>
      simp only [assembleLine, hts, Except.error.injEq] at h
      exact Or.inl ⟨h.symm, rfl⟩
  | cons head operands =>
      simp only [assembleLine, hts] at h
      split at h
      · rename_i hraw
        rcases rawWord_error h with hcause | ⟨he, token, v, rfl, hvalue, hv⟩
        · exact Or.inr (Or.inr hcause)
        · exact Or.inr (Or.inl ⟨he, head, token, v, rfl, hraw, hvalue, hv⟩)
      · split at h
        · exact Or.inr (Or.inr ⟨_, (Except.error.inj h).symm⟩)
        · exact Or.inr (Or.inr (instructionWord_error h))

end Line

section OneLine

variable {line : List Char} (hline : '\n' ∉ line)

include hline

theorem assembleWords_of_hollow (h : Hollow line) : assembleWords line = .error .noMnemonic := by
  obtain ⟨hne, hseparators⟩ := h
  rw [assembleWords_of_line hline hne]
  simp only [assembleLine, (tokens_eq_nil_iff _).mpr hseparators]

theorem assembleWords_of_overlong (h : Overlong line) : assembleWords line = .error .unwritableValue := by
  obtain ⟨head, token, v, htokens, hraw, hvalue, hv⟩ := h
  have hne : effective line ≠ [] := by
    intro hnil
    rw [hnil, tokens_nil] at htokens
    simp at htokens
  rw [assembleWords_of_line hline hne, assembleLine_of_word 1 htokens hraw,
    rawWord_of_decimal?_eq_none hvalue hv]

-- No other line keeps its number out of its error.
theorem assembleWords_of_failing (hfails : ¬Assembles line) (hhollow : ¬Hollow line)
    (hoverlong : ¬Overlong line) : ∃ cause, assembleWords line = .error (.line 1 cause) := by
  have hne : effective line ≠ [] :=
    fun hnil => hfails ⟨[], assembleWords_of_effective_eq_nil hline hnil⟩
  have hwords := assembleWords_of_line hline hne
  cases hword : assembleLine 1 (effective line) with
  | ok w => exact absurd ⟨[w], by rw [hwords, hword]⟩ hfails
  | error e =>
      rcases assembleLine_error hword with ⟨-, htokens⟩ | ⟨-, hvalue⟩ | ⟨cause, rfl⟩
      · exact absurd ⟨hne, (tokens_eq_nil_iff _).mp htokens⟩ hhollow
      · exact absurd hvalue hoverlong
      · exact ⟨cause, by rw [hwords, hword]⟩

end OneLine

theorem assembles_iff (source : List Char) :
    Assembles source ↔ ∀ line ∈ Text.lines source, Assembles line := by
  rcases Text.exists_line source with ⟨-, hlines⟩ | ⟨line, rest, -, hsource, hlines⟩
  · rw [hlines, List.forall_mem_singleton]
  · have hless : rest.length < source.length := by
      rw [hsource, List.length_append, List.length_cons]
      omega
    rw [hlines, List.forall_mem_cons, ← assembles_iff rest, hsource]
    simp only [Assembles, assembleWords_append_newline]
    cases assembleWords line <;> cases assembleWords rest <;> simp
termination_by source.length

theorem Error.later_later (e : Error) (m n : Int) : (e.later m).later n = e.later (m + n) := by
  cases e with
  | line number cause => simp only [later, Int.add_assoc]
  | noMnemonic | unwritableValue => rfl

-- The error of the first line that has one is the error of the source, by the lines before it.
theorem assembleWords_of_lines_eq {before after : List (List Char)} {line : List Char} {e : Error}
    (hbefore : ∀ l ∈ before, Assembles l) (he : assembleWords line = .error e) {source : List Char}
    (hlines : Text.lines source = before ++ line :: after) :
    assembleWords source = .error (e.later before.length) := by
  induction before generalizing source with
  | nil =>
      have hlater : e.later (([] : List (List Char)).length : Int) = e := by cases e <;> simp [Error.later]
      rcases Text.exists_line source with ⟨-, hone⟩ | ⟨first, rest, -, rfl, hmore⟩
      · rw [hone, List.nil_append, List.cons.injEq] at hlines
        rw [hlines.1, he, hlater]
      · rw [hmore, List.nil_append, List.cons.injEq] at hlines
        rw [hlines.1, assembleWords_append_newline, he, hlater]
  | cons l before ih =>
      obtain ⟨⟨us, hus⟩, hrests⟩ := List.forall_mem_cons.mp hbefore
      rcases Text.exists_line source with ⟨-, hone⟩ | ⟨first, rest, hfirst, rfl, hmore⟩
      · rw [hone] at hlines
        simp at hlines
      · rw [hmore, List.cons_append, List.cons.injEq] at hlines
        obtain ⟨rfl, hrest⟩ := hlines
        rw [assembleWords_append_newline, hus, ih hrests hrest, List.count_eq_zero.mpr hfirst]
        simp only [Error.later_later, List.length_cons]
        congr 2

theorem exists_firstFailing {source : List Char} (h : ¬Assembles source) :
    ∃ number line, FirstFailing source number line := by
  classical
  rw [assembles_iff] at h
  have hfound : ((Text.lines source).find? fun l => ¬Assembles l).isSome := by
    rw [List.find?_isSome]
    simpa using h
  obtain ⟨line, hline⟩ := Option.isSome_iff_exists.mp hfound
  obtain ⟨hfails, before, after, hlines, hbefore⟩ := List.find?_eq_some_iff_append.mp hline
  exact ⟨_, line, before, after, hlines, rfl, by simpa using hbefore, by simpa using hfails⟩

theorem exists_assemble_iff (source : List Char) :
    (∃ bytes, assemble source = .ok bytes) ↔ Assembles source := by
  simp only [assemble, Assembles]
  cases assembleWords source <;> simp

theorem assemble_of_firstFailing {source line : List Char} {number : Nat}
    (h : FirstFailing source number line) {e : Error} (he : assembleWords line = .error e) :
    assemble source = .error (e.later (number - 1)) := by
  obtain ⟨before, after, hlines, rfl, hbefore, -⟩ := h
  rw [assemble, assembleWords_of_lines_eq hbefore he hlines]
  simp

section FirstFailing

variable {source line : List Char} {number : Nat} (h : FirstFailing source number line)

include h

theorem FirstFailing.newline_not_mem : '\n' ∉ line := by
  obtain ⟨before, after, hlines, -⟩ := h
  exact Text.newline_not_mem_of_mem_lines (s := source) (by simp [hlines])

theorem FirstFailing.assemble_of_hollow (hhollow : Hollow line) : assemble source = .error .noMnemonic :=
  assemble_of_firstFailing h (assembleWords_of_hollow h.newline_not_mem hhollow)

theorem FirstFailing.assemble_of_overlong (hoverlong : Overlong line) :
    assemble source = .error .unwritableValue :=
  assemble_of_firstFailing h (assembleWords_of_overlong h.newline_not_mem hoverlong)

theorem FirstFailing.exists_cause (hhollow : ¬Hollow line) (hoverlong : ¬Overlong line) :
    ∃ cause, assemble source = .error (.line number cause) := by
  have hfails : ¬Assembles line := by
    obtain ⟨_, _, _, _, _, hfails⟩ := h
    exact hfails
  obtain ⟨cause, hcause⟩ := assembleWords_of_failing h.newline_not_mem hfails hhollow hoverlong
  refine ⟨cause, ?_⟩
  rw [assemble_of_firstFailing h hcause, Error.later, add_sub_cancel]

end FirstFailing

theorem well_reported_iff (source : List Char) :
    ((∃ bytes, assemble source = .ok bytes) ↔ ∀ line ∈ Text.lines source, Assembles line) ∧
    (WellReported source ↔
      ∀ number line, FirstFailing source number line → ¬Hollow line ∧ ¬Overlong line) ∧
    ∀ number line, FirstFailing source number line →
      (Hollow line → assemble source = .error .noMnemonic) ∧
      (Overlong line → assemble source = .error .unwritableValue) := by
  refine ⟨by rw [exists_assemble_iff, assembles_iff], ⟨fun hreported number line hfirst => ?_, ?_⟩, ?_⟩
  · have hnamed : ∀ e, assemble source = .error e → ∃ n cause, e = .line n cause := by
      intro e he
      rcases hreported with ⟨bytes, hbytes⟩ | ⟨n, -, cause, -, hcause⟩
      · rw [he] at hbytes
        simp at hbytes
      · exact ⟨n, cause, Except.error.inj (he.symm.trans hcause)⟩
    constructor
    · intro hhollow
      simpa using hnamed _ (hfirst.assemble_of_hollow hhollow)
    · intro hoverlong
      simpa using hnamed _ (hfirst.assemble_of_overlong hoverlong)
  · intro hkinds
    by_cases hsource : Assembles source
    · exact Or.inl ((exists_assemble_iff source).mpr hsource)
    · obtain ⟨number, line, hfirst⟩ := exists_firstFailing hsource
      obtain ⟨hhollow, hoverlong⟩ := hkinds number line hfirst
      obtain ⟨cause, hcause⟩ := hfirst.exists_cause hhollow hoverlong
      exact Or.inr ⟨number, line, cause, hfirst, hcause⟩
  · exact fun number line hfirst => ⟨hfirst.assemble_of_hollow, hfirst.assemble_of_overlong⟩

-- A comma is something to assemble, but no token.
theorem not_wellReported_comma : ¬WellReported [','] := by
  have hcomma : assemble [','] = .error .noMnemonic := by decide +kernel
  rintro (⟨bytes, hbytes⟩ | ⟨number, line, cause, -, hcause⟩)
  · simp [hcomma] at hbytes
  · simp [hcomma] at hcause

end Assembly

end WordMachine
