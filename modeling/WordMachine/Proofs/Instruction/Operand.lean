import Mathlib.Data.List.Basic
import WordMachine.Instruction.Codec

namespace WordMachine

theorem OperandKind.admits_iff (kind : OperandKind) (v : Int) :
    kind.admits v = true ↔ 0 ≤ v ∧ v ≤ kind.limit := by
  simp only [OperandKind.admits, Bool.and_eq_true, decide_eq_true_eq]

namespace Instruction

theorem ofOperands?_operands {i : Instruction} {op : Opcode} (h : i.opcode? = some op) :
    ofOperands? op i.operands = some i := by
  cases i <;> simp only [opcode?, Option.some.injEq, reduceCtorEq] at h <;> subst h <;> rfl

theorem length_operands {i : Instruction} {op : Opcode} (h : i.opcode? = some op) :
    i.operands.length = op.arity := by
  cases i <;> simp only [opcode?, Option.some.injEq, reduceCtorEq] at h <;> subst h <;> rfl

theorem fields_eq_zip {i : Instruction} {op : Opcode} (h : i.opcode? = some op) :
    i.fields = op.operandKinds.zip i.operands := by
  simp only [fields, h]

theorem map_snd_fields {i : Instruction} {op : Opcode} (h : i.opcode? = some op) :
    i.fields.map Prod.snd = i.operands := by
  rw [fields_eq_zip h]
  exact List.map_snd_zip (Nat.le_of_eq (length_operands h))

theorem map_fst_fields {i : Instruction} {op : Opcode} (h : i.opcode? = some op) :
    i.fields.map Prod.fst = op.operandKinds := by
  rw [fields_eq_zip h]
  exact List.map_fst_zip (Nat.le_of_eq (length_operands h).symm)

theorem admits_byte (b : UInt8) : OperandKind.address.admits b.toNat = true := by
  have h := b.toNat_lt
  rw [OperandKind.admits_iff]
  simp only [OperandKind.limit]
  omega

theorem admits_bytes (high low : UInt8) :
    OperandKind.immediate.admits (high.toNat * 256 + low.toNat) = true := by
  have hh := high.toNat_lt
  have hl := low.toNat_lt
  rw [OperandKind.admits_iff]
  simp only [OperandKind.limit]
  omega

-- Every operand taken from a word fits its kind.
theorem admits_fields_decode (w : Word) : ∀ f ∈ (decode w).fields, f.1.admits f.2 = true := by
  simp only [decode]
  split <;> simp [fields, opcode?, Opcode.operandKinds, operands, admits_byte, admits_bytes]

end Instruction

end WordMachine
