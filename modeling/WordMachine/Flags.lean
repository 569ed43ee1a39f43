import WordMachine.Text.Radix

namespace WordMachine

-- The machine sets the zero and overflow flags to 0 or 1; from outside they can be given any integer. The halt flag
-- is never cleared.
structure Flags where
  halt : Bool := false
  zero : Int := 0
  overflow : Int := 0
  deriving DecidableEq, Repr

namespace Flags

def haltBit (f : Flags) : Int :=
  if f.halt then 1 else 0

def setHalt (f : Flags) : Flags :=
  { f with halt := true }

-- Bitwise disjunction of integers in two's complement of unbounded width.
def orBits : Int → Int → Int
  | .ofNat a, .ofNat b => .ofNat (a ||| b)
  | .ofNat a, .negSucc b => .negSucc (b - (b &&& a))
  | .negSucc a, .ofNat b => .negSucc (a - (a &&& b))
  | .negSucc a, .negSucc b => .negSucc (a &&& b)

-- Halt in bit 0, zero from bit 1 on, overflow from bit 2 on.
def pack (f : Flags) : Int :=
  orBits (orBits f.haltBit (f.zero * 2)) (f.overflow * 4)

-- The three flags as the state report shows them.
def shown (f : Flags) : String :=
  s!"H={Text.decimal f.haltBit} Z={Text.decimal f.zero} O={Text.decimal f.overflow}"

def describe (f : Flags) : String :=
  s!"Flags({f.shown})"

end Flags

end WordMachine
