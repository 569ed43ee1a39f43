import WordMachine.Proofs.Assembly.Notation
import WordMachine.Proofs.Assembly.Single

namespace WordMachine.Assembly

open WordMachine.Text (apostrophe isBlank decimal hexadecimal Grouped signs)

-- A token that is read as a number: blanks are only found in literals, and it is no literal.
structure IsNumberToken (token : List Char) : Prop where
  unbroken : ∀ c ∈ token, isBlank c = false
  unquoted : ¬(3 ≤ token.length ∧ token.head? = some apostrophe ∧ token.getLast? = some apostrophe)

namespace IsNumberToken

variable {token : List Char}

theorem of_tests (hblank : token.any isBlank = false) (hquoted : isQuoted token = false) :
    IsNumberToken token where
  unbroken := by simpa using hblank
  unquoted := by rwa [← isQuoted_iff, ← ne_eq, ← Bool.eq_false_iff]

theorem isQuoted_eq_false (h : IsNumberToken token) : isQuoted token = false := by
  rw [Bool.eq_false_iff, ne_eq, isQuoted_iff]
  exact h.unquoted

theorem value_eq_ok_iff (h : IsNumberToken token) {v : Int} : value token = .ok v ↔ Numeral token v := by
  rw [← numeral?_eq_some_iff]
  simp only [value, h.isQuoted_eq_false, Bool.false_eq_true, if_false]
  cases numeral? token <;> simp

theorem value_of_not_numeral (h : IsNumberToken token) (hnot : ∀ v, ¬Numeral token v) :
    value token = .error (.badNumber (String.ofList token)) := by
  simp only [value, h.isQuoted_eq_false, Bool.false_eq_true, if_false]
  cases hread : numeral? token with
  | none => rfl
  | some v => exact absurd (numeral?_eq_some_iff.mp hread) (hnot v)

end IsNumberToken

-- A line that a token is read for: it is the value of a raw word, or an operand with nothing wrong before it.
inductive Reads (token text : List Char) : Prop where
  | directive {head : List Char} (htokens : tokens text = [head, token])
      (hhead : head.map Char.toLower = ".word".toList) : Reads token text
  | operand {head : List Char} {before after : List (List Char)} {op : Opcode} {vs : List Int}
      (htokens : tokens text = head :: (before ++ token :: after))
      (hhead : head.map Char.toLower = op.mnemonic.toList)
      (harity : (before ++ token :: after).length = op.arity)
      (hvalues : List.Forall₂ (fun t v => value t = .ok v) before vs)
      (hadmits : ∀ f ∈ op.operandKinds.zip vs, f.1.admits f.2 = true) : Reads token text

-- Operands are read from the first to the last, so those behind a token that cannot be read do not matter.
theorem operandValues_of_unread {kinds : List OperandKind} {before after : List (List Char)}
    {token : List Char} {vs : List Int} {cause : LineError}
    (hvalues : List.Forall₂ (fun t v => value t = .ok v) before vs)
    (hadmits : ∀ f ∈ kinds.zip vs, f.1.admits f.2 = true) (htoken : value token = .error cause)
    (hlen : (before ++ token :: after).length = kinds.length) :
    operandValues (kinds.zip (before ++ token :: after)) = .error cause := by
  induction hvalues generalizing kinds with
  | nil =>
      obtain ⟨kind, kinds, rfl⟩ := List.exists_cons_of_length_eq_add_one hlen.symm
      simp only [List.nil_append, List.zip_cons_cons, operandValues, htoken]
  | @cons t v before vs hv _ ih =>
      obtain ⟨kind, kinds, rfl⟩ := List.exists_cons_of_length_eq_add_one hlen.symm
      have hkind : kind.admits v = true := hadmits (kind, v) (by simp)
      have hrest := ih (fun f hf => hadmits f (List.mem_cons_of_mem _ hf)) (by simpa using hlen)
      simp only [List.cons_append, List.zip_cons_cons, operandValues, hv, hkind, if_true, hrest]

theorem Reads.assembleLine_eq {token text : List Char} {cause : LineError} (h : Reads token text)
    (htoken : value token = .error cause) (number : Int) :
    assembleLine number text = .error (.line number cause) := by
  cases h with
  | directive htokens hhead =>
      rw [assembleLine_of_word number htokens hhead]
      simp only [rawWord, htoken]
  | operand htokens hhead harity hvalues hadmits =>
      have hoperands := operandValues_of_unread hvalues hadmits htoken harity
      rw [assembleLine_of_mnemonic number htokens hhead]
      simp only [instructionWord, if_pos harity, hoperands]

-- What reading makes of a token, and what becomes of a line it is read for.
structure ReadExactly (token : List Char) : Prop where
  value_iff : ∀ v, value token = .ok v ↔ Numeral token v
  value_of_not : (∀ v, ¬Numeral token v) → value token = .error (.badNumber (String.ofList token))
  reported : (∀ v, ¬Numeral token v) → ∀ number text, Reads token text →
    ∃ cause, assembleLine number text = .error (.line number cause) ∧
      (Error.line number cause).message =
        s!"Line {decimal number}: " ++ s!"Bad number: {Text.quoted (String.ofList token)}"

theorem IsNumberToken.readExactly {token : List Char} (h : IsNumberToken token) : ReadExactly token where
  value_iff _ := h.value_eq_ok_iff
  value_of_not := h.value_of_not_numeral
  reported hnot number _ hreads := ⟨_, hreads.assembleLine_eq (h.value_of_not_numeral hnot) number, rfl⟩

theorem numbers_are_read_exactly :
    (∀ token, IsNumberToken token → ReadExactly token) ∧
      (∀ n : Int, (Nat.toDigits 10 n.natAbs).length ≤ 4300 → value (decimal n).toList = .ok n) ∧
        ∀ width n : Nat, value (hexadecimal width n).toList = .ok (n : Int) := by
  refine ⟨fun token h => h.readExactly, fun n hlen => ?_, value_hexadecimal⟩
  have hlimit : (Nat.toDigits 10 n.natAbs).length ≤ Text.decimalLimit := hlen
  exact value_decimal ((Text.length_toDigits_le_iff (by decide)).mp hlimit)

-- A number in digits of two scripts, and a line that a doubled underscore spoils.
theorem numbers_are_read_exactly_of_mixed_digits :
    value ['-', '0', '_', '\u0663', '7'] = .ok (-37) ∧ value (decimal (-37)).toList = .ok (-37) ∧
      ∃ cause, assembleLine 4 "str 5, 0x__1".toList = .error (.line 4 cause) ∧
        (Error.line 4 cause).message = "Line 4: " ++ "Bad number: '0x__1'" := by
  have hmixed : IsNumberToken ['-', '0', '_', '\u0663', '7'] := .of_tests (by decide) (by decide)
  have hspoiled : IsNumberToken "0x__1".toList := .of_tests (by decide) (by decide)
  obtain ⟨hread, hdecimal, -⟩ := numbers_are_read_exactly
  refine ⟨?_, hdecimal (-37) (by decide), ?_⟩
  · have hdigits : Grouped 10 ['0', '_', '\u0663', '7'] [0, 3, 7] :=
      Text.digits?_eq_some_iff.mp (by decide)
    have hnumeral : Numeral (['-'] ++ ['0', '_', '\u0663', '7']) (-1 * (Nat.ofDigits 10 [7, 3, 0] : Nat)) :=
      .decimal (by decide) hdigits (by decide)
    exact ((hread _ hmixed).value_iff (-37)).mpr hnumeral
  · have hnot : ∀ v, ¬Numeral "0x__1".toList v := by
      intro v h
      have hnone : numeral? "0x__1".toList = none := by decide
      rw [← numeral?_eq_some_iff, hnone] at h
      simp at h
    have htokens : tokens "str 5, 0x__1".toList = "str".toList :: (["5".toList] ++ "0x__1".toList :: []) := by
      decide +kernel
    have hbefore : List.Forall₂ (fun t v => value t = .ok v) ["5".toList] [5] := .cons (by decide) .nil
    have hhead : "str".toList.map Char.toLower = Opcode.str.mnemonic.toList := by decide
    have hreads : Reads "0x__1".toList "str 5, 0x__1".toList :=
      .operand htokens hhead (by decide) hbefore (by decide)
    exact (hread _ hspoiled).reported hnot 4 _ hreads

end WordMachine.Assembly
