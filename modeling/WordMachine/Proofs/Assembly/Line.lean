import WordMachine.Proofs.Assembly.Single
import WordMachine.Proofs.Assembly.Spelling

namespace WordMachine.Assembly

open WordMachine.Text (apostrophe isBlank trimLeft trimRight)

-- What a line can begin with: a mnemonic, or the directive for a word given by its value.
inductive Head where
  | operation (op : Opcode)
  | directive
  deriving DecidableEq, Repr

def Head.name : Head → String
  | .operation op => op.mnemonic
  | .directive => ".word"

-- Commas and the blanks of one line.
def IsGap (s : List Char) : Prop :=
  ∀ c ∈ s, isSeparator c = true ∧ c ≠ '\n'

instance (s : List Char) : Decidable (IsGap s) :=
  decidable_of_iff (s.all (fun c => isSeparator c && c != '\n') = true) (by simp [IsGap])

-- An operand with the gap before it.
structure Operand where
  gap : List Char
  token : List Char
  value : Int
  gap_ne_nil : gap ≠ []
  isGap_gap : IsGap gap
  spells : Spells token value

structure Line where
  lead : List Char
  head : Head
  spelling : List Char
  operands : List Operand
  tail : List Char
  comment : Option (List Char)
  isGap_lead : IsGap lead
  isGap_tail : IsGap tail
  toLower_spelling : spelling.map Char.toLower = head.name.toList
  newline_not_mem_comment : ∀ text, comment = some text → '\n' ∉ text

namespace Line

variable (l : Line)

def values : List Int :=
  l.operands.map Operand.value

def body : List Char :=
  gapped l.spelling (l.operands.map fun o => (o.gap, o.token))

def text : List Char :=
  l.lead ++ l.body ++ l.tail ++
    match l.comment with
    | none => []
    | some text => ';' :: text

end Line

theorem IsGap.passes {s : List Char} (h : IsGap s) : Passes s := by
  apply Passes.of_unquoted
  intro c hc
  have hsep := (h c hc).1
  constructor <;> rintro rfl <;> exact absurd hsep (by decide)

theorem IsGap.newline_not_mem {s : List Char} (h : IsGap s) : '\n' ∉ s :=
  fun hmem => (h '\n' hmem).2 rfl

theorem toLower_of_not_upper {c : Char} (hc : ¬(65 ≤ c.toNat ∧ c.toNat < 91)) : c.toLower = c := by
  unfold Char.toLower
  split
  · rename_i h
    have hlow : 65 ≤ c.toNat := UInt32.le_iff_toNat_le.mp h.1
    have hhigh : c.toNat ≤ 90 := UInt32.le_iff_toNat_le.mp h.2
    omega
  · rfl

-- Letters in upper case are as bare as those in lower case.
theorem isBareChar_of_toLower {c : Char} (h : isBareChar c.toLower = true) : isBareChar c = true := by
  have hupper : ∀ n < 91, 65 ≤ n → isBareChar (Char.ofNat n) = true := by decide
  by_cases hc : 65 ≤ c.toNat ∧ c.toNat < 91
  · rw [← Char.ofNat_toNat c]
    exact hupper _ hc.2 hc.1
  · rwa [toLower_of_not_upper hc] at h

theorem Head.isBare_name (head : Head) : IsBare head.name.toList := by
  cases head with
  | operation op => exact isBare_mnemonic op
  | directive => exact isBare_directive

namespace Line

variable (l : Line)

theorem isBare_spelling : IsBare l.spelling := by
  have hname := l.head.isBare_name
  rw [← l.toLower_spelling] at hname
  refine .of_all (by simpa using hname.ne_nil) ?_
  rw [List.all_eq_true]
  intro c hc
  apply isBareChar_of_toLower
  have hbare := hname.bare c.toLower (List.mem_map_of_mem hc)
  simp [isBareChar, hbare]

theorem passes_body : Passes l.body := by
  rw [body, gapped]
  refine l.isBare_spelling.passes.append (.flatMap ?_)
  intro p hp
  obtain ⟨o, -, rfl⟩ := List.mem_map.mp hp
  exact o.isGap_gap.passes.append o.spells.passes

theorem uncommented_text : Quoting.outside.uncommented l.text = l.lead ++ l.body ++ l.tail := by
  have hpasses : Passes (l.lead ++ l.body ++ l.tail) :=
    (l.isGap_lead.passes.append l.passes_body).append l.isGap_tail.passes
  rw [text]
  cases l.comment with
  | none => rw [List.append_nil, hpasses.uncommented]
  | some text => exact hpasses.uncommented_comment text

theorem newline_not_mem_text : '\n' ∉ l.text := by
  have hbody : '\n' ∉ l.body := by
    rw [body, gapped, List.mem_append, List.mem_flatMap]
    rintro (h | ⟨p, hp, h⟩)
    · exact l.isBare_spelling.newline_not_mem h
    · obtain ⟨o, -, rfl⟩ := List.mem_map.mp hp
      rcases List.mem_append.mp h with h | h
      · exact o.isGap_gap.newline_not_mem h
      · exact o.spells.newline_not_mem h
  have hcomment := l.newline_not_mem_comment
  rw [text, List.mem_append, List.mem_append, List.mem_append]
  rintro (((h | h) | h) | h)
  · exact l.isGap_lead.newline_not_mem h
  · exact hbody h
  · exact l.isGap_tail.newline_not_mem h
  · cases hc : l.comment with
    | none => simp [hc] at h
    | some text =>
        simp only [hc, List.mem_cons] at h
        rcases h with h | h
        · exact absurd h (by decide)
        · exact hcomment text hc h

theorem isToken_spelling : IsToken l.spelling :=
  .plain l.isBare_spelling.isPlain

-- Trimming takes away nothing but separators around the tokens.
theorem effective_text : effective l.text = trimLeft l.lead ++ l.body ++ trimRight l.tail := by
  rw [effective, l.uncommented_text]
  apply Text.trim_append (gapped_ne_nil l.isToken_spelling _)
  · intro c hc
    rw [head?_gapped l.isToken_spelling] at hc
    exact isBlank_of_isSeparator_eq_false (l.isToken_spelling.separates_ends (.inl hc))
  · intro c hc
    refine isBlank_of_isSeparator_eq_false (isSeparator_of_getLast?_gapped l.isToken_spelling ?_ hc)
    intro p hp
    obtain ⟨o, -, rfl⟩ := List.mem_map.mp hp
    exact o.spells.isToken

theorem tokens_effective_text :
    tokens (effective l.text) = l.spelling :: l.operands.map Operand.token := by
  have hlead : ∀ c ∈ trimLeft l.lead, isSeparator c = true :=
    fun c hc => (l.isGap_lead c (Text.mem_of_mem_trimLeft hc)).1
  have htail : ∀ c ∈ trimRight l.tail, isSeparator c = true :=
    fun c hc => (l.isGap_tail c (Text.mem_of_mem_trimRight hc)).1
  rw [effective_text, List.append_assoc, tokens_append_of_separators hlead, body,
    tokens_gapped l.isToken_spelling _ htail]
  · rw [List.map_map]
    rfl
  · intro p hp
    obtain ⟨o, -, rfl⟩ := List.mem_map.mp hp
    exact ⟨o.gap_ne_nil, fun c hc => (o.isGap_gap c hc).1, o.spells.isToken⟩

theorem assembleWords_text_eq :
    assembleWords l.text =
      match assembleLine 1 (effective l.text) with
      | .ok w => .ok [w]
      | .error e => .error e := by
  apply assembleWords_of_line l.newline_not_mem_text
  rw [effective_text]
  simp [body, gapped_ne_nil l.isToken_spelling]

theorem values_of_tokens :
    List.Forall₂ (fun t v => value t = .ok v) (l.operands.map Operand.token) l.values := by
  rw [values, List.forall₂_map_left_iff, List.forall₂_map_right_iff, List.forall₂_same]
  exact fun o _ => o.spells.value_eq

end Line

section Operands

variable {kinds : List OperandKind} {ts : List (List Char)} {vs : List Int}
  (h : List.Forall₂ (fun t v => value t = .ok v) ts vs)

include h

theorem operandValues_of_admits (hlen : kinds.length = vs.length)
    (hfits : ∀ f ∈ kinds.zip vs, f.1.admits f.2 = true) : operandValues (kinds.zip ts) = .ok vs := by
  induction h generalizing kinds with
  | nil => simp [operandValues]
  | @cons t v ts vs hv _ ih =>
      cases kinds with
      | nil => simp at hlen
      | cons kind kinds =>
          have hkind : kind.admits v = true := hfits (kind, v) (by simp)
          have hrest := ih (by simpa using hlen) (fun f hf => hfits f (List.mem_cons_of_mem _ hf))
          simp only [List.zip_cons_cons, operandValues, hv, hkind, if_true, hrest]

theorem operandValues_of_not_admits (hmisfit : ∃ f ∈ kinds.zip vs, f.1.admits f.2 = false) :
    ∃ cause, operandValues (kinds.zip ts) = .error cause := by
  induction h generalizing kinds with
  | nil => simp at hmisfit
  | @cons t v ts vs hv _ ih =>
      cases kinds with
      | nil => simp at hmisfit
      | cons kind kinds =>
          simp only [List.zip_cons_cons, operandValues, hv]
          by_cases hkind : kind.admits v = true
          · obtain ⟨f, hf, hadmits⟩ := hmisfit
            rw [List.zip_cons_cons, List.mem_cons] at hf
            have hrest : f ∈ kinds.zip vs := by
              refine hf.resolve_left ?_
              rintro rfl
              rw [hkind] at hadmits
              simp at hadmits
            obtain ⟨cause, hcause⟩ := ih ⟨f, hrest, hadmits⟩
            exact ⟨cause, by simp only [hkind, if_true, hcause]⟩
          · exact ⟨_, if_neg hkind⟩

-- A line is assembled as its instruction is built, which has a word then.
theorem instructionWord_of_build (number : Int) {op : Opcode} {i : Instruction}
    (hbuild : Instruction.build op.mnemonic vs = .ok i) :
    i.encode = .ok i.toWord.toNat ∧ instructionWord number op ts = .ok i.toWord := by
  obtain ⟨hop, rfl, hfits⟩ := (Instruction.build_eq_ok_iff (Opcode.ofMnemonic?_mnemonic op)).mp hbuild
  refine ⟨Instruction.encode_of_fits hop hfits, ?_⟩
  have hlen := Instruction.length_operands hop
  rw [Instruction.fits_iff, Instruction.fields_eq_zip hop] at hfits
  rw [instructionWord, if_pos (h.length_eq.trans hlen), operandValues_of_admits h hlen.symm hfits]
  simp only [Instruction.ofOperands?_operands hop]

theorem instructionWord_of_build_error (number : Int) {op : Opcode} {e : BuildError}
    (hbuild : Instruction.build op.mnemonic vs = .error e) :
    ∃ cause, instructionWord number op ts = .error (.line number cause) := by
  by_cases hlen : ts.length = op.arity
  · obtain ⟨i, hi⟩ := Option.isSome_iff_exists.mp
      ((Instruction.ofOperands?_isSome_iff op vs).mpr (h.length_eq.symm.trans hlen))
    obtain ⟨hop, hvs⟩ := Instruction.ofOperands?_eq_some_iff.mp hi
    have hmisfit : ¬i.Fits := by
      intro hfits
      rw [(Instruction.build_eq_ok_iff (Opcode.ofMnemonic?_mnemonic op)).mpr ⟨hop, hvs, hfits⟩] at hbuild
      simp at hbuild
    rw [Instruction.fits_iff, Instruction.fields_eq_zip hop, hvs] at hmisfit
    simp only [not_forall, Bool.not_eq_true, exists_prop] at hmisfit
    obtain ⟨cause, hcause⟩ := operandValues_of_not_admits h hmisfit
    exact ⟨cause, by rw [instructionWord, if_pos hlen, hcause]⟩
  · exact ⟨_, if_neg hlen⟩

end Operands

theorem rawWord_of_value (number : Int) {t : List Char} {v : Int} (h : Spells t v) :
    (v < 0x100000000 → rawWord number [t] = .ok (.ofInt v)) ∧
      (0x100000000 ≤ v → rawWord number [t] = .error (.line number (.rawRange v))) := by
  have hnonneg := h.nonneg
  constructor
  · intro hv
    simp only [rawWord, h.value_eq, if_pos (And.intro hnonneg hv)]
  · intro hv
    have hrange : ¬(0 ≤ v ∧ v < 0x100000000) := by omega
    simp only [rawWord, h.value_eq, if_neg hrange, h.isSome_decimal?, if_true]

theorem rawWord_of_length_ne (number : Int) {ts : List (List Char)} (h : ts.length ≠ 1) :
    rawWord number ts = .error (.line number .rawArity) := by
  rw [rawWord]
  rintro t rfl
  exact h rfl

namespace Line

variable {l : Line}

theorem assembleLine_of_operation {op : Opcode} (h : l.head = .operation op) (number : Int) :
    assembleLine number (effective l.text) =
      instructionWord number op (l.operands.map Operand.token) :=
  assembleLine_of_mnemonic number l.tokens_effective_text (by rw [l.toLower_spelling, h, Head.name])

theorem assembleLine_of_directive (h : l.head = .directive) (number : Int) :
    assembleLine number (effective l.text) = rawWord number (l.operands.map Operand.token) :=
  assembleLine_of_word number l.tokens_effective_text (by rw [l.toLower_spelling, h, Head.name])

theorem assembleWords_of_build {op : Opcode} (h : l.head = .operation op) {i : Instruction}
    (hbuild : Instruction.build op.mnemonic l.values = .ok i) :
    ∃ w : Word, i.encode = .ok w.toNat ∧ assembleWords l.text = .ok [w] := by
  obtain ⟨hencode, hword⟩ := instructionWord_of_build l.values_of_tokens 1 hbuild
  exact ⟨i.toWord, hencode, by rw [assembleWords_text_eq, assembleLine_of_operation h, hword]⟩

theorem assembleWords_of_build_error {op : Opcode} (h : l.head = .operation op) {e : BuildError}
    (hbuild : Instruction.build op.mnemonic l.values = .error e) :
    ∃ cause, assembleWords l.text = .error (.line 1 cause) := by
  obtain ⟨cause, hcause⟩ := instructionWord_of_build_error l.values_of_tokens 1 hbuild
  exact ⟨cause, by rw [assembleWords_text_eq, assembleLine_of_operation h, hcause]⟩

theorem exists_operand {v : Int} (h : l.values = [v]) :
    ∃ o, l.operands = [o] ∧ o.value = v := by
  rw [values, List.map_eq_singleton_iff] at h
  obtain ⟨o, ho, hv⟩ := h
  exact ⟨o, ho, hv⟩

theorem assembleWords_of_value (h : l.head = .directive) {v : Int} (hv : l.values = [v])
    (hlt : v < 0x100000000) : ∃ w : Word, (w.toNat : Int) = v ∧ assembleWords l.text = .ok [w] := by
  obtain ⟨o, ho, rfl⟩ := exists_operand hv
  have hnonneg := o.spells.nonneg
  refine ⟨.ofInt o.value, ?_, ?_⟩
  · rw [Word.toNat_ofInt]
    omega
  · rw [assembleWords_text_eq, assembleLine_of_directive h, ho]
    simp only [List.map_cons, List.map_nil, (rawWord_of_value 1 o.spells).1 hlt]

theorem assembleWords_of_bad_value (h : l.head = .directive)
    (hbad : ∀ v, l.values = [v] → 0x100000000 ≤ v) :
    ∃ cause, assembleWords l.text = .error (.line 1 cause) := by
  rw [assembleWords_text_eq, assembleLine_of_directive h]
  by_cases hlen : (l.operands.map Operand.token).length = 1
  · obtain ⟨o, ho⟩ := List.length_eq_one_iff.mp (by simpa using hlen)
    have hrange := hbad o.value (by rw [values, ho]; rfl)
    refine ⟨.rawRange o.value, ?_⟩
    simp only [ho, List.map_cons, List.map_nil, (rawWord_of_value 1 o.spells).2 hrange]
  · exact ⟨_, by rw [rawWord_of_length_ne 1 hlen]⟩

end Line

theorem assembleWords_text (l : Line) :
    (∀ op i, l.head = .operation op → Instruction.build op.mnemonic l.values = .ok i →
      ∃ w : Word, i.encode = .ok w.toNat ∧ assembleWords l.text = .ok [w]) ∧
    (∀ op e, l.head = .operation op → Instruction.build op.mnemonic l.values = .error e →
      ∃ cause, assembleWords l.text = .error (.line 1 cause)) ∧
    (∀ v, l.head = .directive → l.values = [v] → v < 0x100000000 →
      ∃ w : Word, (w.toNat : Int) = v ∧ assembleWords l.text = .ok [w]) ∧
    (l.head = .directive → (∀ v, l.values = [v] → 0x100000000 ≤ v) →
      ∃ cause, assembleWords l.text = .error (.line 1 cause)) := by
  refine ⟨?_, ?_, ?_, Line.assembleWords_of_bad_value⟩
  · intro op i hop hbuild
    exact Line.assembleWords_of_build hop hbuild
  · intro op e hop hbuild
    exact Line.assembleWords_of_build_error hop hbuild
  · intro v hdirective hvalues hlt
    exact Line.assembleWords_of_value hdirective hvalues hlt

-- An immediate that is a semicolon between marks, in front of a comment that opens a quotation.
def semicolonLine : Line where
  lead := [',']
  head := .operation .str
  spelling := ['S', 't', 'R']
  operands :=
    [⟨['\t'], ['0', 'X', '0', 'f'], (Nat.ofDigits 16 [15, 0] : Nat), by decide, by decide,
        .hexadecimal (.inr rfl) (.cons (by decide) (.cons (by decide) .nil)) (by decide) (by decide)⟩,
      ⟨[',', ' '], [apostrophe, ';', apostrophe], (';'.toNat % 256 : Nat), by decide, by decide,
        .literal (by decide) (by decide) (by decide)⟩]
  tail := []
  comment := some [apostrophe]
  isGap_lead := by decide
  isGap_tail := by decide
  toLower_spelling := by decide
  newline_not_mem_comment := by
    rintro text ⟨⟩
    decide

theorem assembleWords_text_semicolonLine :
    String.ofList semicolonLine.text = ",StR\t0X0f, ';';'" ∧
      ∃ w : Word, (Instruction.str 15 59).encode = .ok w.toNat ∧
        assembleWords semicolonLine.text = .ok [w] :=
  ⟨by decide, (assembleWords_text semicolonLine).1 .str (.str 15 59) rfl rfl⟩

end WordMachine.Assembly
