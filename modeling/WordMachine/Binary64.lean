import WordMachine.Text.Radix

namespace WordMachine

-- A floating-point number by its bits.
structure Binary64 where
  bits : UInt64
  deriving DecidableEq, Repr

namespace Binary64

def negative (x : Binary64) : Bool :=
  0x8000000000000000 ≤ x.bits.toNat

def fraction (x : Binary64) : Nat :=
  x.bits.toNat % 0x10000000000000

def exponent (x : Binary64) : Nat :=
  x.bits.toNat / 0x10000000000000 % 0x800

-- The size of a finite number is `significand * 2 ^ scale`.
def significand (x : Binary64) : Nat :=
  if x.exponent = 0 then x.fraction else 0x10000000000000 + x.fraction

def scale (x : Binary64) : Int :=
  (max x.exponent 1 : Nat) - 1075

-- A positive rational number.
structure Ratio where
  num : Nat
  den : Nat
  deriving DecidableEq, Repr

namespace Ratio

def le (a b : Ratio) : Bool :=
  a.num * b.den ≤ b.num * a.den

def lt (a b : Ratio) : Bool :=
  a.num * b.den < b.num * a.den

-- A whole number times a power of a base.
def scaled (base n : Nat) (k : Int) : Ratio :=
  ⟨n * Nat.pow base k.toNat, Nat.pow base (-k).toNat⟩

-- The quotient by a power of ten, rounded down.
def floorAt (a : Ratio) (k : Int) : Nat :=
  a.num * Nat.pow 10 (-k).toNat / (a.den * Nat.pow 10 k.toNat)

-- The greatest `k` with `10 ^ k` at most the number, off the lengths of both its parts.
def magnitude (a : Ratio) : Int :=
  let k : Int := (Nat.toDigits 10 a.num).length - (Nat.toDigits 10 a.den).length
  if (scaled 10 1 k).le a then k else k - 1

end Ratio

def size (x : Binary64) : Ratio :=
  .scaled 2 x.significand x.scale

-- The midpoints to the neighbours of a number, in quarters of its last place. The neighbour below a power
-- of two is only half as far away.
def lowerEnd (x : Binary64) : Ratio :=
  .scaled 2 (4 * x.significand - if x.fraction = 0 ∧ 1 < x.exponent then 1 else 2) (x.scale - 2)

def upperEnd (x : Binary64) : Ratio :=
  .scaled 2 (4 * x.significand + 2) (x.scale - 2)

-- Whether a decimal reads back as the number. The midpoints go to the number with the even significand.
def readsBack (x : Binary64) (d : Ratio) : Bool :=
  if x.significand % 2 = 0 then x.lowerEnd.le d && d.le x.upperEnd
  else x.lowerEnd.lt d && d.lt x.upperEnd

-- A decimal `digits * 10 ^ place`.
structure Decimal where
  digits : Nat
  place : Int
  deriving DecidableEq, Repr

def Decimal.ratio (d : Decimal) : Ratio :=
  .scaled 10 d.digits d.place

-- Of two neighbours on a decimal grid the one nearer to a number between them, in a tie the even one.
def nearer (a : Ratio) (low high : Decimal) : Decimal :=
  let middle := Ratio.scaled 10 (low.digits + high.digits) low.place
  let twice : Ratio := ⟨2 * a.num, a.den⟩
  if twice.lt middle then low
  else if middle.lt twice then high
  else if low.digits % 2 = 0 then low else high

-- The decimal with a given last place that reads back as the number, if there is one.
def onGrid? (x : Binary64) (place : Int) : Option Decimal :=
  let n := x.size.floorAt place
  let low : Decimal := ⟨n, place⟩
  let high : Decimal := ⟨n + 1, place⟩
  match x.readsBack low.ratio, x.readsBack high.ratio with
  | true, true => some (nearer x.size low high)
  | true, false => some low
  | false, true => some high
  | false, false => none

-- Seventeen digits are always enough.
def shortest (x : Binary64) : Decimal :=
  let top := x.size.magnitude
  let grids := (List.range 17).map fun (n : Nat) => top - n
  (grids.findSome? x.onGrid?).getD ⟨x.size.floorAt (top - 16), top - 16⟩

-- A decimal without the zeros that end it, as its digits and the place of its point behind them.
def normal (d : Decimal) : List Char × Int :=
  let all := Nat.toDigits 10 d.digits
  let kept := (all.reverse.dropWhile (· == '0')).reverse
  (kept, all.length + d.place)

def zeros (n : Int) : List Char :=
  List.replicate n.toNat '0'

-- Digits with a point after the first `point` of them, and a zero where a side of it would be empty.
def positional (digits : List Char) (point : Int) : List Char :=
  if point ≤ 0 then '0' :: '.' :: zeros (-point) ++ digits
  else if digits.length ≤ point then digits ++ zeros (point - digits.length) ++ ['.', '0']
  else digits.take point.toNat ++ '.' :: digits.drop point.toNat

-- One digit before the point, and the power of ten with at least two digits.
def scientific (digits : List Char) (point : Int) : List Char :=
  let power := point - 1
  let mantissa := match digits with
    | first :: c :: rest => first :: '.' :: c :: rest
    | short => short
  mantissa ++ 'e' :: (if power < 0 then '-' else '+') ::
    Text.padZeros 2 (Nat.toDigits 10 power.natAbs)

-- Numbers from 0.0001 up to 16 digits before the point are written without a power of ten.
def sizeText (x : Binary64) : List Char :=
  if x.exponent = 2047 then (if x.fraction = 0 then ['i', 'n', 'f'] else ['n', 'a', 'n'])
  else if x.significand = 0 then ['0', '.', '0']
  else
    let (digits, point) := normal x.shortest
    if -4 < point ∧ point ≤ 16 then positional digits point else scientific digits point

def text (x : Binary64) : String :=
  String.ofList (if x.negative then '-' :: x.sizeText else x.sizeText)

end Binary64

end WordMachine
