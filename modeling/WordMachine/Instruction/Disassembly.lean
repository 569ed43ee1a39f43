import WordMachine.Instruction.Codec

namespace WordMachine

def OperandKind.show : OperandKind → Int → String
  | .address, v => Text.decimal v
  | .immediate, v => Text.hexadecimal 6 v

namespace Instruction

-- The mnemonic, then the operands set apart by commas.
def notate (op : Opcode) (fields : List (OperandKind × Int)) : String :=
  match fields with
  | [] => op.mnemonic
  | _ => s!"{op.mnemonic} " ++ ", ".intercalate (fields.map (fun f => f.1.show f.2))

def disassemble (w : Word) : String :=
  let i := decode w
  match i.opcode? with
  | some op => if i.toWord = w then notate op i.fields else ".word " ++ w.hex
  | none => ".word " ++ w.hex

-- One line for each word of a stream.
def disassembleStream (bytes : Bytes) : Except RaggedStream String :=
  match Word.ofStream bytes with
  | .ok ws => .ok ("\n".intercalate (ws.map disassemble))
  | .error e => .error e

end Instruction

end WordMachine
