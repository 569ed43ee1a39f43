import WordMachine.Instruction.Basic

namespace WordMachine

inductive EncodeError where
  | immediateRange (imm : Int)
  | byteRange
  deriving DecidableEq, Repr

def EncodeError.message : EncodeError → String
  | .immediateRange imm =>
      s!"Immediate {Text.decimal imm} out of range [0, {Text.decimal OperandKind.immediate.limit}]"
  | .byteRange => "bytes must be in range(0, 256)"

namespace Instruction

-- Words whose operation ignores some byte decode too.
def decode (w : Word) : Instruction :=
  let q := w.toQuad
  let a : Int := q.second.toNat
  let high : Int := q.third.toNat
  let low : Int := q.fourth.toNat
  let imm := high * 256 + low
  match Opcode.ofCode? q.first with
  | some .eof => .eof
  | some .mov => .mov a low
  | some .mop => .mop a low
  | some .str => .str a imm
  | some .adi => .adi a imm
  | some .sui => .sui a imm
  | some .jmp => .jmp a
  | some .jz => .jz a
  | some .cmp => .cmp a high
  | some .prn => .prn a
  | some .mul => .mul a low
  | some .div => .div a low
  | none => .unknown q.first.toNat w.toNat

-- A word from its code and three numbers, each of them cut down to a byte.
def layout (op : Opcode) (a high low : Int) : Word :=
  Word.ofQuad
    ⟨op.code, UInt8.ofNat (a % 256).toNat, UInt8.ofNat (high % 256).toNat,
      UInt8.ofNat (low % 256).toNat⟩

-- The word of an instruction, its operands cut down to the bytes they have.
def toWord : Instruction → Word
  | .eof => layout .eof 0 0 0
  | .mov a b => layout .mov a 0 b
  | .mop a b => layout .mop a 0 b
  | .str a v => layout .str a (v / 256) v
  | .adi a v => layout .adi a (v / 256) v
  | .sui a v => layout .sui a (v / 256) v
  | .jmp a => layout .jmp a 0 0
  | .jz a => layout .jz a 0 0
  | .cmp a b => layout .cmp a b 0
  | .prn a => layout .prn a 0 0
  | .mul a b => layout .mul a 0 b
  | .div a b => layout .div a 0 b
  | .unknown _ w => Word.ofInt w

-- Why the operands do not fit. An immediate is looked at before the addresses.
def misfit? (i : Instruction) : Option EncodeError :=
  match i.fields.find? (fun f => f.1 == .immediate && !f.1.admits f.2) with
  | some f => some (.immediateRange f.2)
  | none => if i.fields.all (fun f => f.1.admits f.2) then none else some .byteRange

-- The word of an instruction whose operands fit. The word kept by an unknown instruction is given
-- back whatever integer it is.
def encode (i : Instruction) : Except EncodeError Int :=
  match i with
  | .unknown _ w => .ok w
  | _ =>
      match i.misfit? with
      | some e => .error e
      | none => .ok i.toWord.toNat

end Instruction

end WordMachine
