import Mathlib.Data.List.Forall2
import WordMachine.Proofs.Assembly.Notation
import WordMachine.Proofs.Assembly.Single

namespace WordMachine.Assembly

theorem toList_notate (op : Opcode) (fields : List (OperandKind × Int)) :
    (Instruction.notate op fields).toList =
      spelled op.mnemonic.toList (fields.map fun f => (f.1.show f.2).toList) := by
  cases fields with
  | nil => rfl
  | cons f fields =>
      simp [Instruction.notate, spelled, toString, Function.comp_def]

theorem assembleLine_mnemonic (number : Int) (op : Opcode) {operands : List (List Char)}
    (ho : ∀ t ∈ operands, IsBare t) :
    assembleLine number (spelled op.mnemonic.toList operands) = instructionWord number op operands :=
  assembleLine_of_mnemonic number (tokens_spelled (isBare_mnemonic op) ho) (by cases op <;> rfl)

theorem instructionWord_show (number : Int) {i : Instruction} {op : Opcode}
    (hop : i.opcode? = some op) (hadmits : ∀ f ∈ i.fields, f.1.admits f.2 = true) :
    instructionWord number op (i.fields.map fun f => (f.1.show f.2).toList) = .ok i.toWord := by
  have hlength : (i.fields.map fun f => (f.1.show f.2).toList).length = op.arity := by
    rw [List.length_map, ← Instruction.length_operands hop, ← Instruction.map_snd_fields hop,
      List.length_map]
  have hvalues := operandValues_show hadmits
  rw [Instruction.map_fst_fields hop, Instruction.map_snd_fields hop] at hvalues
  rw [instructionWord, if_pos hlength, hvalues]
  simp only [Instruction.ofOperands?_operands hop]

theorem assembleLine_raw (number : Int) (w : Word) :
    assembleLine number (spelled ".word".toList [w.hex.toList]) = .ok w := by
  have hbare : IsBare w.hex.toList := isBare_hexadecimal 10 w.toNat
  have hlt := w.toNat_lt
  have htokens := @tokens_spelled _ [w.hex.toList] isBare_directive (by simpa using hbare)
  have hvalue : value w.hex.toList = .ok (w.toNat : Int) := value_hexadecimal 10 w.toNat
  have hrange : (0 : Int) ≤ w.toNat ∧ (w.toNat : Int) < 0x100000000 := by omega
  rw [assembleLine_of_word number htokens (by decide)]
  simp only [rawWord, hvalue, if_pos hrange, Word.ofInt_toNat]

-- Every word is shown in a line that is assembled to it, wherever the line stands.
theorem exists_spelled_disassemble (w : Word) :
    ∃ head operands, IsBare head ∧ (∀ t ∈ operands, IsBare t) ∧
      (Instruction.disassemble w).toList = spelled head operands ∧
      ∀ number, assembleLine number (spelled head operands) = .ok w := by
  have hadmits := Instruction.admits_fields_decode w
  have hbare : IsBare w.hex.toList := isBare_hexadecimal 10 w.toNat
  have hraw : ∃ head operands, IsBare head ∧ (∀ t ∈ operands, IsBare t) ∧
      (".word " ++ w.hex).toList = spelled head operands ∧
      ∀ number, assembleLine number (spelled head operands) = .ok w :=
    ⟨".word".toList, [w.hex.toList], isBare_directive, by simpa using hbare, by simp [spelled],
      fun number => assembleLine_raw number w⟩
  simp only [Instruction.disassemble]
  split
  · rename_i op hop
    split
    · rename_i hw
      have hbare : ∀ t ∈ (Instruction.decode w).fields.map (fun f => (f.1.show f.2).toList), IsBare t := by
        intro t ht
        obtain ⟨f, hf, rfl⟩ := List.mem_map.mp ht
        exact isBare_show (hadmits f hf)
      refine ⟨_, _, isBare_mnemonic op, hbare, toList_notate op _, ?_⟩
      intro number
      rw [assembleLine_mnemonic number op hbare, instructionWord_show number hop hadmits, hw]
    · exact hraw
  · exact hraw

theorem words_transcribe_cons {number : Int} {text : List Char} {w : Word}
    {rest : List (Int × List Char)} {ws : List Word} (hline : assembleLine number text = .ok w)
    (hrest : (transcribe rest).words = .ok ws) :
    (transcribe ((number, text) :: rest)).words = .ok (w :: ws) := by
  rw [transcribe]
  simp only [hline]
  simp only [Transcript.words] at hrest ⊢
  split at hrest
  · simp at hrest
  · simp only [Except.ok.injEq] at hrest
    simp only [List.map_cons, hrest]

-- A source whose lines all carry an assembled word is the words of its lines, whatever their numbers.
theorem assembleWords_of_lines {source : List Char} {texts : List (List Char)} {ws : List Word}
    (hsource : Text.lines source = texts)
    (hlines : List.Forall₂ (fun text w => effective text = text ∧ text ≠ [] ∧
      ∀ number, assembleLine number text = .ok w) texts ws) :
    assembleWords source = .ok ws := by
  rw [assembleWords, transcript, effectiveLines, hsource]
  generalize 1 = first
  clear hsource
  induction hlines generalizing first with
  | nil => rfl
  | @cons text w texts ws hline _ ih =>
      obtain ⟨heffective, hne, hword⟩ := hline
      rw [List.zipIdx_cons, List.filterMap_cons_some]
      · exact words_transcribe_cons (hword first) (ih (first + 1))
      · simp only [heffective]

theorem lines_disassemble {ws : List Word} (hne : ws ≠ []) :
    Text.lines ("\n".intercalate (ws.map Instruction.disassemble)).toList =
      ws.map fun w => (Instruction.disassemble w).toList := by
  rw [String.toList_intercalate, List.map_map]
  apply Text.lines_intercalate
  · simpa using hne
  · intro line hline
    obtain ⟨w, -, rfl⟩ := List.mem_map.mp hline
    obtain ⟨head, operands, hh, ho, htext, -⟩ := exists_spelled_disassemble w
    rw [Function.comp_apply, htext]
    exact newline_not_mem_spelled hh ho

theorem assembleWords_disassemble (ws : List Word) :
    assembleWords ("\n".intercalate (ws.map Instruction.disassemble)).toList = .ok ws := by
  by_cases hne : ws = []
  · subst hne
    rfl
  · apply assembleWords_of_lines (lines_disassemble hne)
    rw [List.forall₂_map_left_iff, List.forall₂_same]
    intro w _
    obtain ⟨head, operands, hh, ho, htext, hword⟩ := exists_spelled_disassemble w
    rw [htext]
    exact ⟨effective_spelled hh ho, spelled_ne_nil hh ho, hword⟩

-- A stream disassembles exactly when it holds whole words, and then its text assembles to the stream
-- again, ignored bytes and unknown operations included.
theorem assemble_disassembleStream (bytes : Bytes) :
    bytes.length % 4 = 0 ↔
      ∃ text, Instruction.disassembleStream bytes = .ok text ∧ assemble text.toList = .ok bytes := by
  constructor
  · intro hlength
    obtain ⟨ws, hws⟩ := Option.isSome_iff_exists.mp ((Word.ofStream?_isSome_iff bytes).mpr hlength)
    refine ⟨"\n".intercalate (ws.map Instruction.disassemble), ?_, ?_⟩
    · simp only [Instruction.disassembleStream, Word.ofStream, hws]
    · rw [assemble, assembleWords_disassemble, ← Word.stream_of_ofStream? hws]
  · rintro ⟨text, htext, -⟩
    apply (Word.ofStream?_isSome_iff bytes).mp
    simp only [Instruction.disassembleStream, Word.ofStream] at htext
    split at htext
    · rename_i hstream
      split at hstream
      · rename_i hws
        simp [hws]
      · simp at hstream
    · simp at htext

end WordMachine.Assembly
