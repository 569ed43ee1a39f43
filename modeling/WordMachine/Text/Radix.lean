namespace WordMachine.Text

def padZeros (width : Nat) (digits : List Char) : List Char :=
  List.replicate (width - digits.length) '0' ++ digits

def decimal (n : Int) : String :=
  (if n < 0 then "-" else "") ++ String.ofList (Nat.toDigits 10 n.natAbs)

-- Numbers of more digits than this are neither written nor read in decimal.
def decimalLimit : Nat := 4300

-- Decimal text, for a number that may be too long to be written.
def decimal? (n : Int) : Option String :=
  if (Nat.toDigits 10 n.natAbs).length ≤ decimalLimit then some (decimal n) else none

-- What is said of a number that is too long.
def tooLong : String :=
  s!"Exceeds the limit ({decimal decimalLimit} digits) for integer string conversion; " ++
    "use sys.set_int_max_str_digits() to increase the limit"

-- Hexadecimal text behind `0x`. The width counts the sign and the mark as well as the digits, so a
-- negative number has one digit less than a positive one of the same width.
def hexadecimal (width : Nat) (n : Int) : String :=
  let mark := if n < 0 then "-0x" else "0x"
  mark ++ String.ofList (padZeros (width - mark.length) (Nat.toDigits 16 n.natAbs))

-- Bare hexadecimal digits in upper case.
def upperHex (width n : Nat) : String :=
  String.ofList (padZeros width ((Nat.toDigits 16 n).map Char.toUpper))

def paddedDecimal (width n : Nat) : String :=
  String.ofList (padZeros width (Nat.toDigits 10 n))

end WordMachine.Text
