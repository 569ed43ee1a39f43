import WordMachine.Instruction.Builder
import WordMachine.Proofs.Instruction.Codec

namespace WordMachine

-- A mnemonic is recognised by its letters in whatever case they are.
theorem Opcode.ofMnemonic?_of_toLower {op : Opcode} {name : List Char}
    (h : name.map Char.toLower = op.mnemonic.toList) : ofMnemonic? name = some op := by
  rw [ofMnemonic?, h, String.ofList_toList]
  cases op <;> rfl

theorem Opcode.ofMnemonic?_mnemonic (op : Opcode) : ofMnemonic? op.mnemonic.toList = some op :=
  ofMnemonic?_of_toLower (by cases op <;> rfl)

theorem Opcode.toLower_of_ofMnemonic? {op : Opcode} {name : List Char} (h : ofMnemonic? name = some op) :
    name.map Char.toLower = op.mnemonic.toList := by
  have hname := List.find?_some h
  rw [beq_iff_eq] at hname
  rw [hname, String.toList_ofList]

namespace Instruction

theorem ofOperands?_isSome_iff (op : Opcode) (vs : List Int) :
    (ofOperands? op vs).isSome ↔ vs.length = op.arity := by
  rcases vs with _ | ⟨a, _ | ⟨b, _ | ⟨c, rest⟩⟩⟩ <;> cases op <;>
    simp [ofOperands?, Opcode.arity, Opcode.operandKinds]

theorem ofOperands?_eq_some_iff {op : Opcode} {vs : List Int} {i : Instruction} :
    ofOperands? op vs = some i ↔ i.opcode? = some op ∧ i.operands = vs := by
  constructor
  · intro h
    fun_cases ofOperands? op vs <;> simp only [ofOperands?, Option.some.injEq, reduceCtorEq] at h <;>
      subst h <;> exact ⟨rfl, rfl⟩
  · rintro ⟨hop, rfl⟩
    exact ofOperands?_operands hop

section Build

variable {name : String} {op : Opcode} (hname : Opcode.ofMnemonic? name.toList = some op)
  {vs : List Int}

include hname

-- What is built is the operation of the mnemonic, with the operands it was given, which fit.
theorem build_eq_ok_iff {i : Instruction} :
    build name vs = .ok i ↔ i.opcode? = some op ∧ i.operands = vs ∧ i.Fits := by
  rw [← and_assoc, ← ofOperands?_eq_some_iff]
  cases hj : ofOperands? op vs with
  | none => simp [build, hname, hj]
  | some j =>
      have hfits : j.fields.find? (fun f => !f.1.admits f.2) = none ↔ j.Fits := by
        rw [fits_iff, List.find?_eq_none]
        simp
      simp only [build, hname, hj, Option.some.injEq]
      cases hf : j.fields.find? (fun f => !f.1.admits f.2) with
      | none =>
          simp only [Except.ok.injEq]
          exact ⟨fun h => ⟨h, h ▸ hfits.mp hf⟩, And.left⟩
      | some f =>
          simp only [reduceCtorEq, false_iff]
          rintro ⟨rfl, h⟩
          rw [hfits.mpr h] at hf
          simp at hf

end Build

end Instruction

end WordMachine
