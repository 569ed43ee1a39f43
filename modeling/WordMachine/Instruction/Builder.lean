import WordMachine.Instruction.Basic
import WordMachine.Text.Quoted

namespace WordMachine

inductive BuildError where
  | unknownMnemonic (name : String)
  | arity (op : Opcode) (given : Nat)
  | range (op : Opcode) (kind : OperandKind) (value : Int)
  deriving DecidableEq, Repr

def BuildError.message : BuildError → String
  | .unknownMnemonic name => s!"Unknown mnemonic: {Text.quoted name}"
  | .arity op given =>
      s!"{op.mnemonic} takes {Text.decimal op.arity} operand(s), got {Text.decimal given}"
  | .range op kind value =>
      s!"{op.mnemonic}: {kind.label} operand {Text.decimal value} out of range [0, {Text.decimal kind.limit}]"

-- The first operand that does not fit its kind is the one reported.
def Instruction.build (name : String) (values : List Int) : Except BuildError Instruction :=
  match Opcode.ofMnemonic? name.toList with
  | none => .error (.unknownMnemonic name)
  | some op =>
      match Instruction.ofOperands? op values with
      | none => .error (.arity op values.length)
      | some i =>
          match i.fields.find? (fun f => !f.1.admits f.2) with
          | some f => .error (.range op f.1 f.2)
          | none => .ok i

end WordMachine
