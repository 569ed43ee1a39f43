import WordMachine.Word

namespace WordMachine

-- What an operand stands for. Addresses are single bytes, immediates two.
inductive OperandKind where
  | address
  | immediate
  deriving DecidableEq, Repr

namespace OperandKind

-- The greatest value an operand of the kind can have.
def limit : OperandKind → Int
  | .address => 0xFF
  | .immediate => 0xFFFF

def label : OperandKind → String
  | .address => "addr"
  | .immediate => "imm"

def admits (kind : OperandKind) (v : Int) : Bool :=
  0 ≤ v && v ≤ kind.limit

end OperandKind

inductive Opcode where
  | eof
  | mov
  | mop
  | str
  | adi
  | sui
  | jmp
  | jz
  | cmp
  | prn
  | mul
  | div
  deriving DecidableEq, Repr

namespace Opcode

def all : List Opcode :=
  [.eof, .mov, .mop, .str, .adi, .sui, .jmp, .jz, .cmp, .prn, .mul, .div]

def code : Opcode → UInt8
  | .mov => 0x01
  | .str => 0x02
  | .adi => 0x03
  | .sui => 0x04
  | .jmp => 0x05
  | .jz => 0x06
  | .cmp => 0x07
  | .prn => 0x08
  | .mul => 0x09
  | .div => 0x0A
  | .mop => 0x0B
  | .eof => 0xFF

def mnemonic : Opcode → String
  | .eof => "eof"
  | .mov => "mov"
  | .mop => "mop"
  | .str => "str"
  | .adi => "adi"
  | .sui => "sui"
  | .jmp => "jmp"
  | .jz => "jz"
  | .cmp => "cmp"
  | .prn => "prn"
  | .mul => "mul"
  | .div => "div"

def operandKinds : Opcode → List OperandKind
  | .eof => []
  | .jmp | .jz | .prn => [.address]
  | .mov | .mop | .mul | .div | .cmp => [.address, .address]
  | .str | .adi | .sui => [.address, .immediate]

def arity (op : Opcode) : Nat :=
  op.operandKinds.length

def ofCode? (b : UInt8) : Option Opcode :=
  all.find? (fun op => op.code == b)

-- Mnemonics are recognised in any mixture of upper and lower case.
def ofMnemonic? (name : List Char) : Option Opcode :=
  all.find? (fun op => op.mnemonic == String.ofList (name.map Char.toLower))

theorem ofCode?_code (op : Opcode) : ofCode? op.code = some op := by
  cases op <;> rfl

theorem code_of_ofCode? {b : UInt8} {op : Opcode} (h : ofCode? b = some op) : op.code = b := by
  have := List.find?_some h
  simpa using this

end Opcode

-- An instruction whose operands may be any integers; only those that fit their kinds have a word.
-- A word whose first byte is no operation code is an instruction of its own, kept as it is.
inductive Instruction where
  | eof
  | mov (dst src : Int)
  | mop (dst src : Int)
  | str (dst imm : Int)
  | adi (dst imm : Int)
  | sui (dst imm : Int)
  | jmp (target : Int)
  | jz (target : Int)
  | cmp (left right : Int)
  | prn (addr : Int)
  | mul (dst src : Int)
  | div (dst src : Int)
  | unknown (opcode word : Int)
  deriving DecidableEq, Repr

namespace Instruction

def opcode? : Instruction → Option Opcode
  | .eof => some .eof
  | .mov .. => some .mov
  | .mop .. => some .mop
  | .str .. => some .str
  | .adi .. => some .adi
  | .sui .. => some .sui
  | .jmp .. => some .jmp
  | .jz .. => some .jz
  | .cmp .. => some .cmp
  | .prn .. => some .prn
  | .mul .. => some .mul
  | .div .. => some .div
  | .unknown .. => none

def operands : Instruction → List Int
  | .eof => []
  | .jmp a | .jz a | .prn a => [a]
  | .mov a b | .mop a b | .mul a b | .div a b | .cmp a b => [a, b]
  | .str a v | .adi a v | .sui a v => [a, v]
  | .unknown .. => []

-- The operation applied to as many operands as it takes.
def ofOperands? : Opcode → List Int → Option Instruction
  | .eof, [] => some .eof
  | .mov, [a, b] => some (.mov a b)
  | .mop, [a, b] => some (.mop a b)
  | .str, [a, v] => some (.str a v)
  | .adi, [a, v] => some (.adi a v)
  | .sui, [a, v] => some (.sui a v)
  | .jmp, [a] => some (.jmp a)
  | .jz, [a] => some (.jz a)
  | .cmp, [a, b] => some (.cmp a b)
  | .prn, [a] => some (.prn a)
  | .mul, [a, b] => some (.mul a b)
  | .div, [a, b] => some (.div a b)
  | _, _ => none

def mnemonic (i : Instruction) : String :=
  match i.opcode? with
  | some op => op.mnemonic
  | none => "???"

-- The operands together with their kinds.
def fields (i : Instruction) : List (OperandKind × Int) :=
  match i.opcode? with
  | some op => op.operandKinds.zip i.operands
  | none => []

end Instruction

end WordMachine
