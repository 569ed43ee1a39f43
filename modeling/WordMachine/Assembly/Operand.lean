import WordMachine.Assembly.Token
import WordMachine.Instruction.Basic
import WordMachine.Text.Numeral

namespace WordMachine.Assembly

open WordMachine.Text (apostrophe)

-- What is wrong with a line. Tokens are quoted as they stand in the source.
inductive LineError where
  | badLiteral (token : String)
  | badNumber (token : String)
  | rawArity
  | rawRange (value : Int)
  | unknownMnemonic (token : String)
  | arity (op : Opcode) (given : Nat)
  | range (kind : OperandKind) (token : String)
  deriving DecidableEq, Repr

def LineError.message : LineError → String
  | .badLiteral token => s!"Bad character literal: {token}"
  | .badNumber token => s!"Bad number: {Text.quoted token}"
  | .rawArity => ".word takes exactly one value"
  | .rawRange value => s!".word value {Text.decimal value} out of range"
  | .unknownMnemonic token => s!"Unknown mnemonic: {token}"
  | .arity op given =>
      s!"{op.mnemonic} takes {Text.decimal op.arity} operand(s), got {Text.decimal given}"
  | .range kind token =>
      s!"{kind.label} operand {token} out of range [0, {Text.decimal kind.limit}]"

-- The character codes that a backslash can stand before.
def escapeCode? (c : Char) : Option Int :=
  if c = 'n' then some 0x0A
  else if c = 'r' then some 0x0D
  else if c = 't' then some 0x09
  else if c = '0' then some 0x00
  else if c = '\\' then some 0x5C
  else if c = apostrophe then some 0x27
  else none

-- What stands between the marks of a literal: one character, cut down to its low byte, or an escape.
def literalCode? : List Char → Option Int
  | [c] => some (c.toNat % 256 : Nat)
  | ['\\', c] => escapeCode? c
  | _ => none

def isQuoted (token : List Char) : Bool :=
  3 ≤ token.length && token.head? == some apostrophe && token.getLast? == some apostrophe

-- A number behind `0x` has no sign; without the mark it is decimal.
def numeral? : List Char → Option Int
  | '0' :: 'x' :: s => (Text.markedDigits? 16 s).map (fun n => (n : Int))
  | '0' :: 'X' :: s => (Text.markedDigits? 16 s).map (fun n => (n : Int))
  | s => Text.decimalInt? s

def value (token : List Char) : Except LineError Int :=
  if isQuoted token then
    match literalCode? (token.drop 1).dropLast with
    | some v => .ok v
    | none => .error (.badLiteral (String.ofList token))
  else
    match numeral? token with
    | some v => .ok v
    | none => .error (.badNumber (String.ofList token))

-- Each token is read and held against its kind before the next one is looked at.
def operandValues : List (OperandKind × List Char) → Except LineError (List Int)
  | [] => .ok []
  | (kind, token) :: rest =>
      match value token with
      | .error e => .error e
      | .ok v =>
          if kind.admits v then
            match operandValues rest with
            | .ok vs => .ok (v :: vs)
            | .error e => .error e
          else .error (.range kind (String.ofList token))

end WordMachine.Assembly
