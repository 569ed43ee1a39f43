import WordMachine.Text.Blank
import WordMachine.Text.Digit
import WordMachine.Text.Radix

namespace WordMachine.Text

-- The digits of a numeral in order. An underscore has a digit on either side.
def digits? (base : Nat) : List Char → Option (List Nat)
  | [] => none
  | [c] => (digit? base c).map ([·])
  | c :: d :: s =>
      match digit? base c with
      | none => none
      | some v =>
          match if d = '_' then digits? base s else digits? base (d :: s) with
          | none => none
          | some vs => some (v :: vs)

def ofDigits (base : Nat) (digits : List Nat) : Nat :=
  digits.foldl (fun acc d => acc * base + d) 0

def unsignedDecimal? (s : List Char) : Option Nat :=
  match digits? 10 s with
  | some ds => if ds.length ≤ decimalLimit then some (ofDigits 10 ds) else none
  | none => none

-- The digits behind a base mark such as `0x`, where one underscore may lead.
def markedDigits? (base : Nat) : List Char → Option Nat
  | '_' :: s => (digits? base s).map (ofDigits base)
  | s => (digits? base s).map (ofDigits base)

-- An optional sign before an unsigned numeral.
def signed? (read : List Char → Option Nat) : List Char → Option Int
  | '-' :: s => (read s).map (fun n => -(n : Int))
  | '+' :: s => (read s).map (fun n => (n : Int))
  | s => (read s).map (fun n => (n : Int))

def decimalInt? (s : List Char) : Option Int :=
  signed? unsignedDecimal? s

-- A decimal numeral that is not zero must not begin with a zero where the other bases carry marks.
def plainOrMarked? (s : List Char) : Option Nat :=
  match s with
  | '0' :: c :: rest =>
      if c = 'x' ∨ c = 'X' then markedDigits? 16 rest
      else if c = 'o' ∨ c = 'O' then markedDigits? 8 rest
      else if c = 'b' ∨ c = 'B' then markedDigits? 2 rest
      else
        match unsignedDecimal? s with
        | some 0 => some 0
        | _ => none
  | _ => unsignedDecimal? s

-- Digits of other scripts are taken for the plain ones also where they are part of a base mark.
def plainDigit (c : Char) : Char :=
  match decimalDigit? c with
  | some d => Nat.digitChar d
  | none => c

-- An integer whose base is read off its mark: `0x`, `0o`, `0b`, or decimal without one.
def markedInt? (s : List Char) : Option Int :=
  signed? plainOrMarked? (s.map plainDigit)

-- The blanks allowed around a number given on the command line. The information separators
-- U+001C to U+001F, blank elsewhere, are not among them.
def isNumberBlank (c : Char) : Bool :=
  isBlank c && !(28 ≤ c.toNat && c.toNat ≤ 31)

def trimNumber (s : List Char) : List Char :=
  ((s.dropWhile isNumberBlank).reverse.dropWhile isNumberBlank).reverse

end WordMachine.Text
