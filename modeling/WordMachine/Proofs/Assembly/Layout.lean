import WordMachine.Proofs.Assembly.Line
import WordMachine.Proofs.Engine.History

namespace WordMachine

namespace Assembly

-- What is left of the lines of a source without comments and the blanks around them, where anything is.
def effectiveTexts (source : List Char) : List (List Char) :=
  ((Text.lines source).map effective).filter (· ≠ [])

-- The number that a line stands for, read off its tokens.
inductive Yields (text : List Char) : Int → Prop where
  | directive {head token : List Char} {v : Int} (htokens : tokens text = [head, token])
      (hhead : head.map Char.toLower = ".word".toList) (hvalue : value token = .ok v) : Yields text v
  | operation {head : List Char} {operands : List (List Char)} {op : Opcode} {vs : List Int}
      {i : Instruction} {v : Int} (htokens : tokens text = head :: operands)
      (hhead : head.map Char.toLower = op.mnemonic.toList)
      (hvalues : List.Forall₂ (fun t v => value t = .ok v) operands vs)
      (hbuild : Instruction.build op.mnemonic vs = .ok i) (hencode : i.encode = .ok v) : Yields text v

-- A word that says what a line says: the value itself, or the operation with the operands it is given.
inductive Denotes (text : List Char) (w : Word) : Prop where
  | directive {head token : List Char} {v : Int} (htokens : tokens text = [head, token])
      (hhead : head.map Char.toLower = ".word".toList) (hvalue : value token = .ok v)
      (hword : (w.toNat : Int) = v)
  | operation {head : List Char} {operands : List (List Char)} {op : Opcode} {vs : List Int}
      (htokens : tokens text = head :: operands) (hhead : head.map Char.toLower = op.mnemonic.toList)
      (hvalues : List.Forall₂ (fun t v => value t = .ok v) operands vs)
      (hbuild : Instruction.build op.mnemonic vs = .ok (Instruction.decode w))
      (hencode : (Instruction.decode w).encode = .ok w.toNat) (hcode : w.toQuad.first = op.code)

theorem Denotes.yields {text : List Char} {w : Word} (h : Denotes text w) : Yields text w.toNat := by
  cases h with
  | directive htokens hhead hvalue hword => exact .directive htokens hhead (hword ▸ hvalue)
  | operation htokens hhead hvalues hbuild hencode hcode =>
      exact .operation htokens hhead hvalues hbuild hencode

theorem exists_value_of_rawWord {number : Int} {ts : List (List Char)} {w : Word}
    (h : rawWord number ts = .ok w) :
    ∃ token v, ts = [token] ∧ value token = .ok v ∧ (w.toNat : Int) = v := by
  rcases ts with _ | ⟨token, _ | ⟨other, rest⟩⟩
  · simp [rawWord] at h
  · cases hvalue : value token with
    | error cause => simp [rawWord, hvalue] at h
    | ok v =>
        simp only [rawWord, hvalue] at h
        split at h
        · rename_i hfits
          rw [Except.ok.injEq] at h
          refine ⟨token, v, rfl, hvalue, ?_⟩
          rw [← h, Word.toNat_ofInt]
          omega
        · split at h <;> simp at h
  · simp [rawWord] at h

theorem values_of_operandValues {kinds : List OperandKind} {ts : List (List Char)} {vs : List Int}
    (hlen : ts.length = kinds.length) (h : operandValues (kinds.zip ts) = .ok vs) :
    List.Forall₂ (fun t v => value t = .ok v) ts vs ∧ ∀ f ∈ kinds.zip vs, f.1.admits f.2 = true := by
  induction kinds generalizing ts vs with
  | nil =>
      obtain rfl := List.length_eq_zero_iff.mp hlen
      rw [List.zip_nil_left, operandValues, Except.ok.injEq] at h
      subst h
      exact ⟨.nil, by simp⟩
  | cons kind kinds ih =>
      obtain ⟨token, ts, rfl⟩ := List.exists_cons_of_length_eq_add_one hlen
      rw [List.zip_cons_cons, operandValues] at h
      cases hvalue : value token with
      | error cause => simp [hvalue] at h
      | ok v =>
          simp only [hvalue] at h
          split at h
          · rename_i hkind
            cases hrest : operandValues (kinds.zip ts) with
            | error cause => simp [hrest] at h
            | ok rest =>
                simp only [hrest, Except.ok.injEq] at h
                subst h
                obtain ⟨hvalues, hfits⟩ := ih (by simpa using hlen) hrest
                exact ⟨.cons hvalue hvalues, by simpa [hkind] using hfits⟩
          · simp at h

-- A line is only assembled where its instruction can be built.
theorem exists_build_of_instructionWord {number : Int} {op : Opcode} {ts : List (List Char)} {w : Word}
    (h : instructionWord number op ts = .ok w) :
    ∃ vs i, List.Forall₂ (fun t v => value t = .ok v) ts vs ∧ i.opcode? = some op ∧ i.Fits ∧
      Instruction.build op.mnemonic vs = .ok i ∧ w = i.toWord := by
  rw [instructionWord] at h
  split at h
  · rename_i hlen
    cases hread : operandValues (op.operandKinds.zip ts) with
    | error cause => simp [hread] at h
    | ok vs =>
        obtain ⟨hvalues, hadmits⟩ := values_of_operandValues hlen hread
        cases hi : Instruction.ofOperands? op vs with
        | none => simp [hread, hi] at h
        | some i =>
            simp only [hread, hi, Except.ok.injEq] at h
            obtain ⟨hop, rfl⟩ := Instruction.ofOperands?_eq_some_iff.mp hi
            have hfits : i.Fits := by
              rw [Instruction.fits_iff, Instruction.fields_eq_zip hop]
              exact hadmits
            exact ⟨_, i, hvalues, hop, hfits,
              (Instruction.build_eq_ok_iff (Opcode.ofMnemonic?_mnemonic op)).mpr ⟨hop, rfl, hfits⟩, h.symm⟩
  · simp at h

theorem denotes_of_assembleLine {number : Int} {text : List Char} {w : Word}
    (h : assembleLine number text = .ok w) : Denotes text w := by
  rw [assembleLine] at h
  split at h
  · simp at h
  · rename_i head operands htokens
    split at h
    · rename_i hhead
      obtain ⟨token, v, rfl, hvalue, hword⟩ := exists_value_of_rawWord h
      exact .directive htokens hhead hvalue hword
    · split at h
      · simp at h
      · rename_i op hop
        obtain ⟨vs, i, hvalues, hi, hfits, hbuild, rfl⟩ := exists_build_of_instructionWord h
        have hdecode := Instruction.decode_toWord hi hfits
        exact .operation htokens (Opcode.toLower_of_ofMnemonic? hop) hvalues (by rw [hdecode, hbuild])
          (by rw [hdecode, Instruction.encode_of_fits hi hfits]) (Instruction.code_toWord hi)

-- By induction on the lines: as long as none of them fails, each has given its word.
theorem denotes_of_transcribe {lines : List (Int × List Char)} {ws : List Word}
    (h : (transcribe lines).words = .ok ws) : List.Forall₂ Denotes (lines.map Prod.snd) ws := by
  induction lines generalizing ws with
  | nil =>
      rw [transcribe, Transcript.words, Except.ok.injEq] at h
      subst h
      exact .nil
  | cons line rest ih =>
      obtain ⟨number, text⟩ := line
      rw [transcribe] at h
      cases hline : assembleLine number text with
      | error e => simp [hline, Transcript.words] at h
      | ok w =>
          simp only [hline, Transcript.words] at h
          split at h
          · simp at h
          · rename_i hfailure
            simp only [List.map_cons, Except.ok.injEq] at h
            subst h
            exact .cons (denotes_of_assembleLine hline) (ih (by simp only [Transcript.words, hfailure]))

theorem map_snd_effectiveLines (source : List Char) :
    (effectiveLines source).map Prod.snd = effectiveTexts source := by
  rw [effectiveLines, effectiveTexts]
  generalize 1 = first
  induction Text.lines source generalizing first with
  | nil => rfl
  | cons line rest ih =>
      rw [List.zipIdx_cons, List.map_cons]
      cases heffective : effective line with
      | nil => simpa [heffective] using ih (first + 1)
      | cons c text => simpa [heffective] using ih (first + 1)

theorem exists_words_of_assemble {source : List Char} {bytes : Bytes} (h : assemble source = .ok bytes) :
    ∃ ws, bytes = Word.stream ws ∧ List.Forall₂ Denotes (effectiveTexts source) ws := by
  rw [assemble] at h
  cases hwords : assembleWords source with
  | error e => simp [hwords] at h
  | ok ws =>
      simp only [hwords, Except.ok.injEq] at h
      rw [assembleWords, transcript] at hwords
      exact ⟨ws, h.symm, map_snd_effectiveLines source ▸ denotes_of_transcribe hwords⟩

-- What the stream of a source is, and what an engine holds that has loaded it.
structure Layout (source : List Char) (bytes : Bytes) : Prop where
  length_eq : bytes.length = 4 * (effectiveTexts source).length
  packed : ∃ vs, List.Forall₂ Yields (effectiveTexts source) vs ∧ Word.streamOfInts? vs = some bytes
  loaded (n : Nat) (hn : (effectiveTexts source).length ≤ n) (output status : Channel Item) :
    ∃ e, (Engine.fresh n output status).load bytes = .ok e ∧
      (∀ (i : Nat) (hi : i < (effectiveTexts source).length),
        ∃ w, e.processor.memory.read i = .ok w ∧ Denotes (effectiveTexts source)[i] w) ∧
      ∀ a : Nat, (effectiveTexts source).length ≤ a → a < n → e.processor.memory.read a = .ok 0

theorem layout_of_assemble {source : List Char} {bytes : Bytes} (h : assemble source = .ok bytes) :
    Layout source bytes := by
  obtain ⟨ws, rfl, hdenotes⟩ := exists_words_of_assemble h
  have hlength := hdenotes.length_eq
  refine ⟨by rw [Word.length_stream, hlength], ⟨ws.map fun w => (w.toNat : Int), ?_,
    Word.streamOfInts?_toNat ws⟩, ?_⟩
  · rw [List.forall₂_map_right_iff]
    exact hdenotes.imp fun _ _ => Denotes.yields
  · intro n hn output status
    obtain ⟨e, hload, -, -, hword⟩ := Engine.exists_load_fresh (hlength ▸ hn) output status
    have hsize : e.processor.memory.size = n := by
      rw [Engine.size_of_load hload]
      simp [Engine.fresh, Memory.size]
    have hread : ∀ a : Nat, a < n → e.processor.memory.read a = .ok (ws.getD a 0) := by
      intro a ha
      rw [Memory.read_eq_ok_iff]
      exact ⟨⟨by omega, by omega⟩, hword a⟩
    refine ⟨e, hload, fun i hi => ⟨ws.getD i 0, hread i (by omega), ?_⟩, fun a ha hn => ?_⟩
    · have hi' : i < ws.length := by omega
      rw [List.getD_eq_getElem?_getD, List.getElem?_eq_getElem hi', Option.getD_some]
      exact (List.forall₂_iff_get.mp hdenotes).2 i hi hi'
    · rw [hread a hn, List.getD_eq_getElem?_getD, List.getElem?_eq_none (by omega), Option.getD_none]

theorem layout_of_assemble_two_lines :
    Layout " .WORD 0x10 ; first\n\n\tStR 1, 'A'\n".toList [0, 0, 0, 0x10, 2, 1, 0, 0x41] :=
  layout_of_assemble (by decide +kernel)

end Assembly

end WordMachine
