import WordMachine.Assembly.Program
import WordMachine.Proofs.Assembly.Token
import WordMachine.Proofs.Instruction.Builder

namespace WordMachine.Assembly

theorem assembleLine_congr (number : Int) {s t : List Char} (h : tokens s = tokens t) :
    assembleLine number s = assembleLine number t := by
  rw [assembleLine, assembleLine, h]

section Tokens

variable (number : Int) {text head : List Char} {operands : List (List Char)}
  (htokens : tokens text = head :: operands)

include htokens

theorem assembleLine_of_mnemonic {op : Opcode} (hhead : head.map Char.toLower = op.mnemonic.toList) :
    assembleLine number text = instructionWord number op operands := by
  have hraw : head.map Char.toLower ≠ ['.', 'w', 'o', 'r', 'd'] := by
    rw [hhead]
    cases op <;> decide
  simp only [assembleLine, htokens, if_neg hraw, Opcode.ofMnemonic?_of_toLower hhead]

theorem assembleLine_of_word (hhead : head.map Char.toLower = ".word".toList) :
    assembleLine number text = rawWord number operands := by
  have hraw : head.map Char.toLower = ['.', 'w', 'o', 'r', 'd'] := hhead
  simp only [assembleLine, htokens, if_pos hraw]

end Tokens

section OneLine

variable {line : List Char} (hline : '\n' ∉ line)

include hline

theorem assembleWords_of_line (hne : effective line ≠ []) :
    assembleWords line =
      match assembleLine 1 (effective line) with
      | .ok w => .ok [w]
      | .error e => .error e := by
  have hlines : effectiveLines line = [(1, effective line)] := by
    rw [effectiveLines, Text.lines_of_not_mem hline]
    cases he : effective line with
    | nil => exact absurd he hne
    | cons c rest => simp [he]
  rw [assembleWords, transcript, hlines, transcribe]
  cases assembleLine 1 (effective line) with
  | ok w => rfl
  | error e => rfl

theorem assembleWords_of_effective_eq_nil (h : effective line = []) : assembleWords line = .ok [] := by
  rw [assembleWords, transcript, effectiveLines, Text.lines_of_not_mem hline]
  simp [h, transcribe, Transcript.words]

-- Something is left of a line that comes to anything but the complaint that there is nothing.
theorem assembleWords_of_assembleLine (h : assembleLine 1 (effective line) ≠ .error .noMnemonic) :
    assembleWords line =
      match assembleLine 1 (effective line) with
      | .ok w => .ok [w]
      | .error e => .error e := by
  apply assembleWords_of_line hline
  intro hnil
  rw [hnil, assembleLine, tokens_nil] at h
  exact h rfl

theorem assembleLine_of_assembleWords {w : Word} (h : assembleWords line = .ok [w]) :
    assembleLine 1 (effective line) = .ok w := by
  have hne : effective line ≠ [] := by
    intro hnil
    rw [assembleWords_of_effective_eq_nil hline hnil] at h
    simp at h
  rw [assembleWords_of_line hline hne] at h
  cases hword : assembleLine 1 (effective line) with
  | ok u =>
      simp only [hword, Except.ok.injEq, List.cons.injEq, and_true] at h
      rw [h]
  | error e => simp [hword] at h

end OneLine

end WordMachine.Assembly
