import WordMachine.Assembly.Operand
import WordMachine.Instruction.Disassembly
import WordMachine.Proofs.Assembly.Comment
import WordMachine.Proofs.Assembly.Numeral
import WordMachine.Proofs.Assembly.Token
import WordMachine.Proofs.Instruction.Operand
import WordMachine.Proofs.Text.Line
import WordMachine.Proofs.Text.Numeral

namespace WordMachine.Assembly

open WordMachine.Text (isBlank apostrophe hexadecimal padZeros decimal lines Writes)

-- A token that no part of the assembler takes for anything but a run of characters.
structure IsBare (t : List Char) : Prop where
  ne_nil : t ≠ []
  bare : ∀ c ∈ t, isSeparator c = false ∧ c ≠ ';' ∧ c ≠ apostrophe

-- The same as a test of the characters.
def isBareChar (c : Char) : Bool :=
  !isSeparator c && c != ';' && c != apostrophe

namespace IsBare

theorem of_all {t : List Char} (hne : t ≠ []) (h : t.all isBareChar = true) : IsBare t where
  ne_nil := hne
  bare c hc := by
    have hchar := List.all_eq_true.mp h c hc
    simpa [isBareChar, and_assoc] using hchar

theorem isPlain {t : List Char} (ht : IsBare t) : IsPlain t where
  ne_nil := ht.ne_nil
  head_ne h := (ht.bare apostrophe (List.mem_of_head? h)).2.2 rfl
  unseparated c hc := (ht.bare c hc).1

theorem isBlank_eq_false {t : List Char} (ht : IsBare t) {c : Char} (hc : c ∈ t) :
    isBlank c = false :=
  isBlank_of_isSeparator_eq_false (ht.bare c hc).1

theorem append {s t : List Char} (hs : IsBare s)
    (ht : ∀ c ∈ t, isSeparator c = false ∧ c ≠ ';' ∧ c ≠ apostrophe) : IsBare (s ++ t) where
  ne_nil := by simp [hs.ne_nil]
  bare c hc := by
    rcases List.mem_append.mp hc with h | h
    · exact hs.bare c h
    · exact ht c h

end IsBare

theorem isBareChar_of_writes {base : Nat} (hb : base ≤ 16) {c : Char} {d : Nat} (h : Writes base c d) :
    isBareChar c = true :=
  h.forall (fun c _ => isBareChar c = true) (by decide) (by decide) hb

theorem isBare_of_writes {base : Nat} (hb : base ≤ 16) {cs : List Char} {ds : List Nat}
    (h : List.Forall₂ (Writes base) cs ds) (hne : cs ≠ []) : IsBare cs := by
  refine .of_all hne ?_
  rw [List.all_eq_true]
  intro c hc
  obtain ⟨d, hd⟩ := Text.exists_writes h c hc
  exact isBareChar_of_writes hb hd

-- Digits of every base in use are bare, and so are the zeros they are padded with.
theorem isBare_padZeros {base : Nat} (hb : 1 < base) (hb' : base ≤ 16) (width n : Nat) :
    IsBare (padZeros width (Nat.toDigits base n)) := by
  obtain ⟨ds, hds, -⟩ := Text.exists_padZeros hb width n
  exact isBare_of_writes hb' hds (Text.padZeros_toDigits_ne_nil base width n)

theorem isBare_mnemonic (op : Opcode) : IsBare op.mnemonic.toList := by
  cases op <;> exact .of_all (by decide) (by decide)

theorem isBare_directive : IsBare ".word".toList :=
  .of_all (by decide) (by decide)

theorem toList_hexadecimal_natCast (width n : Nat) :
    (hexadecimal width n).toList = '0' :: 'x' :: padZeros (width - 2) (Nat.toDigits 16 n) := by
  have hn : ¬ (n : Int) < 0 := by omega
  have hmark : "0x".length = 2 := rfl
  simp [hexadecimal, hn, hmark]

theorem isBare_decimal (n : Int) : IsBare (decimal n).toList where
  ne_nil := by
    rw [Text.toList_decimal]
    simp [Nat.toDigits_ne_nil]
  bare := Text.forall_mem_decimal (p := fun c => isSeparator c = false ∧ c ≠ ';' ∧ c ≠ apostrophe)
    (by decide) (by decide) n

theorem isBare_hexadecimal (width n : Nat) : IsBare (hexadecimal width n).toList := by
  rw [toList_hexadecimal_natCast]
  have hmark : IsBare ['0', 'x'] := .of_all (by decide) (by decide)
  exact hmark.append (isBare_padZeros (by omega : 1 < 16) (by omega) (width - 2) n).bare

-- Numbers are read back from both of their notations.
theorem value_decimal {n : Int} (hn : n.natAbs < Nat.pow 10 Text.decimalLimit) :
    value (decimal n).toList = .ok n := by
  have hnumeral : Numeral (decimal n).toList n := .of_decimalInt? (Text.decimalInt?_decimal hn)
  exact hnumeral.value_eq

theorem value_hexadecimal (width n : Nat) :
    value (hexadecimal width n).toList = .ok (n : Int) := by
  have hread := Text.markedDigits?_padZeros (by omega : 1 < 16) (by omega) (width - 2) n
  rw [toList_hexadecimal_natCast]
  exact (Numeral.of_markedDigits? (.inl rfl) hread).value_eq

theorem isBare_show {kind : OperandKind} {v : Int} (h : kind.admits v = true) :
    IsBare (kind.show v).toList := by
  obtain ⟨n, rfl⟩ := Int.eq_ofNat_of_zero_le ((kind.admits_iff v).mp h).1
  cases kind with
  | address => exact isBare_decimal n
  | immediate => exact isBare_hexadecimal 6 n

theorem value_show {kind : OperandKind} {v : Int} (h : kind.admits v = true) :
    value (kind.show v).toList = .ok v := by
  obtain ⟨hnonneg, hlimit⟩ := (kind.admits_iff v).mp h
  obtain ⟨n, rfl⟩ := Int.eq_ofNat_of_zero_le hnonneg
  cases kind with
  | address =>
      have hsmall : n < 10 ^ 3 := by
        simp only [OperandKind.limit] at hlimit
        omega
      exact value_decimal (by simpa using Text.lt_pow_decimalLimit hsmall (by decide))
  | immediate => exact value_hexadecimal 6 n

theorem operandValues_show {fields : List (OperandKind × Int)}
    (h : ∀ f ∈ fields, f.1.admits f.2 = true) :
    operandValues ((fields.map Prod.fst).zip (fields.map fun f => (f.1.show f.2).toList)) =
      .ok (fields.map Prod.snd) := by
  induction fields with
  | nil => rfl
  | cons f fields ih =>
      have hf := h f (by simp)
      have hrest := ih (fun g hg => h g (List.mem_cons_of_mem f hg))
      simp only [List.map_cons, List.zip_cons_cons, operandValues, value_show hf, hf, if_true, hrest]

-- A line in the notation of the disassembler: a bare head, and bare operands set apart by commas.
def spelled (head : List Char) (operands : List (List Char)) : List Char :=
  match operands with
  | [] => head
  | _ => head ++ ' ' :: [',', ' '].intercalate operands

theorem tokens_spelled {head : List Char} {operands : List (List Char)} (hh : IsBare head)
    (ho : ∀ t ∈ operands, IsBare t) : tokens (spelled head operands) = head :: operands := by
  cases operands with
  | nil => exact tokens_plain hh.isPlain
  | cons t ts =>
      have hbound : Bounded (' ' :: [',', ' '].intercalate (t :: ts)) := by
        intro c hc
        simp only [List.head?_cons, Option.some.injEq] at hc
        subst hc
        rfl
      rw [spelled, tokens_plain_append hh.isPlain hbound, tokens_separator (by decide),
        tokens_intercalate (by simp) (List.all_eq_true.mp (by decide)) (fun u hu => (ho u hu).isPlain)]
      simp

theorem mem_intercalate {gap : List Char} {ts : List (List Char)} {c : Char}
    (hc : c ∈ gap.intercalate ts) : c ∈ gap ∨ ∃ t ∈ ts, c ∈ t := by
  induction ts with
  | nil => simp at hc
  | cons t ts ih =>
      cases ts with
      | nil => exact .inr ⟨t, by simp, by simpa using hc⟩
      | cons u us =>
          rw [List.intercalate_cons_cons, List.append_assoc, List.mem_append, List.mem_append] at hc
          rcases hc with h | h | h
          · exact .inr ⟨t, by simp, h⟩
          · exact .inl h
          · rcases ih h with h | ⟨v, hv, h⟩
            · exact .inl h
            · exact .inr ⟨v, List.mem_cons_of_mem t hv, h⟩

theorem getLast?_intercalate {gap : List Char} {ts : List (List Char)} (hts : ∀ t ∈ ts, t ≠ [])
    {c : Char} (hc : (gap.intercalate ts).getLast? = some c) : ∃ t ∈ ts, c ∈ t := by
  induction ts with
  | nil => simp at hc
  | cons t ts ih =>
      cases ts with
      | nil => exact ⟨t, by simp, List.mem_of_getLast? (by simpa using hc)⟩
      | cons u us =>
          have hrest := ih (fun v hv => hts v (List.mem_cons_of_mem t hv))
          have hne : gap.intercalate (u :: us) ≠ [] := by
            have hu := hts u (by simp)
            cases us <;> simp [hu]
          rw [List.intercalate_cons_cons, List.getLast?_append_of_ne_nil _ hne] at hc
          obtain ⟨v, hv, h⟩ := hrest hc
          exact ⟨v, List.mem_cons_of_mem t hv, h⟩

theorem mem_spelled {head : List Char} {operands : List (List Char)} {c : Char}
    (hc : c ∈ spelled head operands) :
    c = ' ' ∨ c = ',' ∨ ∃ t ∈ head :: operands, c ∈ t := by
  cases operands with
  | nil => exact .inr (.inr ⟨head, by simp, hc⟩)
  | cons t ts =>
      rw [spelled, List.mem_append, List.mem_cons] at hc
      · rcases hc with h | h | h
        · exact .inr (.inr ⟨head, by simp, h⟩)
        · exact .inl h
        · rcases mem_intercalate h with h | ⟨u, hu, h⟩
          · simp only [List.mem_cons, List.not_mem_nil, or_false] at h
            exact h.symm.imp_right .inl
          · exact .inr (.inr ⟨u, List.mem_cons_of_mem head hu, h⟩)
      · simp

theorem getLast?_spelled {head : List Char} {operands : List (List Char)}
    (ho : ∀ t ∈ operands, t ≠ []) {c : Char} (hc : (spelled head operands).getLast? = some c) :
    ∃ t ∈ head :: operands, c ∈ t := by
  cases operands with
  | nil => exact ⟨head, by simp, List.mem_of_getLast? hc⟩
  | cons t ts =>
      have hne : [',', ' '].intercalate (t :: ts) ≠ [] := by
        have ht := ho t (by simp)
        cases ts <;> simp [ht]
      rw [spelled, List.getLast?_append_of_ne_nil _ (by simp), List.getLast?_cons_of_ne_nil hne] at hc
      · obtain ⟨u, hu, h⟩ := getLast?_intercalate ho hc
        exact ⟨u, List.mem_cons_of_mem head hu, h⟩
      · simp

section Spelled

variable {head : List Char} {operands : List (List Char)}
  (hh : IsBare head) (ho : ∀ t ∈ operands, IsBare t)

include hh ho

theorem bare_of_mem_spelled {c : Char} (hc : c ∈ spelled head operands) :
    c = ' ' ∨ c = ',' ∨ (isSeparator c = false ∧ c ≠ ';' ∧ c ≠ apostrophe) := by
  rcases mem_spelled hc with h | h | ⟨t, ht, h⟩
  · exact .inl h
  · exact .inr (.inl h)
  · rcases List.mem_cons.mp ht with rfl | ht
    · exact .inr (.inr (hh.bare c h))
    · exact .inr (.inr ((ho t ht).bare c h))

theorem spelled_ne_nil : spelled head operands ≠ [] := by
  have hne := hh.ne_nil
  cases operands <;> simp [spelled, hne]

-- There is nothing to cut off such a line.
theorem effective_spelled : effective (spelled head operands) = spelled head operands := by
  have hcomment : ';' ∉ spelled head operands := by
    intro hmem
    rcases bare_of_mem_spelled hh ho hmem with h | h | h
    · exact absurd h (by decide)
    · exact absurd h (by decide)
    · exact h.2.1 rfl
  rw [effective, uncommented_of_not_mem hcomment]
  apply Text.trim_of_ends
  · intro c hc
    have hmem : c ∈ head := by
      have hne := hh.ne_nil
      cases head with
      | nil => exact absurd rfl hne
      | cons a head => cases operands <;> simp_all [spelled]
    exact hh.isBlank_eq_false hmem
  · intro c hc
    obtain ⟨t, ht, hmem⟩ := getLast?_spelled (fun u hu => (ho u hu).ne_nil) hc
    rcases List.mem_cons.mp ht with rfl | ht
    · exact hh.isBlank_eq_false hmem
    · exact (ho t ht).isBlank_eq_false hmem

theorem newline_not_mem_spelled : '\n' ∉ spelled head operands := by
  intro hmem
  rcases bare_of_mem_spelled hh ho hmem with h | h | h
  · exact absurd h (by decide)
  · exact absurd h (by decide)
  · exact absurd h.1 (by decide)

end Spelled

end WordMachine.Assembly
