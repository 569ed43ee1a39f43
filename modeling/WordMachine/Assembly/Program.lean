import WordMachine.Assembly.Operand
import WordMachine.Instruction.Codec

namespace WordMachine.Assembly

-- Why a source does not assemble. A line of nothing but separators has no mnemonic to look at, and a
-- value of too many digits cannot be named in a message; neither of the two knows its line.
inductive Error where
  | line (number : Int) (cause : LineError)
  | noMnemonic
  | unwritableValue
  deriving DecidableEq, Repr

def Error.message : Error → String
  | .line number cause => s!"Line {Text.decimal number}: {cause.message}"
  | .noMnemonic => "list index out of range"
  | .unwritableValue => Text.tooLong

-- A word given by its value.
def rawWord (number : Int) : List (List Char) → Except Error Word
  | [token] =>
      match value token with
      | .error cause => .error (.line number cause)
      | .ok v =>
          if 0 ≤ v ∧ v < 0x100000000 then .ok (Word.ofInt v)
          else if (Text.decimal? v).isSome then .error (.line number (.rawRange v))
          else .error .unwritableValue
  | _ => .error (.line number .rawArity)

def instructionWord (number : Int) (op : Opcode) (operands : List (List Char)) : Except Error Word :=
  if operands.length = op.arity then
    match operandValues (op.operandKinds.zip operands) with
    | .error cause => .error (.line number cause)
    | .ok vs =>
        match Instruction.ofOperands? op vs with
        | some i => .ok i.toWord
        | none => .error (.line number (.arity op operands.length))
  else .error (.line number (.arity op operands.length))

-- The word of one line that has its comment and outer blanks removed.
def assembleLine (number : Int) (text : List Char) : Except Error Word :=
  match tokens text with
  | [] => .error .noMnemonic
  | head :: operands =>
      if head.map Char.toLower = ['.', 'w', 'o', 'r', 'd'] then rawWord number operands
      else
        match Opcode.ofMnemonic? head with
        | none => .error (.line number (.unknownMnemonic (String.ofList head)))
        | some op => instructionWord number op operands

-- An assembled line: its word and the text it came from.
structure Entry where
  word : Word
  text : List Char
  deriving DecidableEq, Repr

-- The lines assembled before the first failure, and that failure.
structure Transcript where
  entries : List Entry
  failure : Option Error
  deriving DecidableEq, Repr

def transcribe : List (Int × List Char) → Transcript
  | [] => ⟨[], none⟩
  | (number, text) :: rest =>
      match assembleLine number text with
      | .error e => ⟨[], some e⟩
      | .ok word =>
          let later := transcribe rest
          ⟨⟨word, text⟩ :: later.entries, later.failure⟩

-- The lines of a source that carry something to assemble, with their numbers from one.
def effectiveLines (source : List Char) : List (Int × List Char) :=
  ((Text.lines source).zipIdx 1).filterMap (fun line =>
    match effective line.1 with
    | [] => none
    | text => some ((line.2 : Int), text))

def transcript (source : List Char) : Transcript :=
  transcribe (effectiveLines source)

def Transcript.words (t : Transcript) : Except Error (List Word) :=
  match t.failure with
  | some e => .error e
  | none => .ok (t.entries.map Entry.word)

def assembleWords (source : List Char) : Except Error (List Word) :=
  (transcript source).words

-- The byte stream that the loader reads.
def assemble (source : List Char) : Except Error Bytes :=
  match assembleWords source with
  | .ok ws => .ok (Word.stream ws)
  | .error e => .error e

-- A line of the listing: place, word and source text.
def Entry.listed (index : Nat) (e : Entry) : String :=
  s!"{Text.paddedDecimal 4 index}  {Text.upperHex 8 e.word.toNat}  {String.ofList e.text}"

def Transcript.listing (t : Transcript) : List String :=
  t.entries.mapIdx Entry.listed

end WordMachine.Assembly
