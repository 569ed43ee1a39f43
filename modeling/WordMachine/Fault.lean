import WordMachine.Text.Radix

namespace WordMachine

inductive FaultCause where
  | address (addr : Int)
  | arithmetic (text : String)
  | stepLimit (text : String)
  | engine (text : String)
  deriving DecidableEq, Repr

def FaultCause.text : FaultCause → String
  | .address addr => s!"Address fault @ {Text.hexadecimal 0 addr}"
  | .arithmetic text => text
  | .stepLimit text => text
  | .engine text => text

-- A fault may know the address of the instruction it belongs to.
structure Fault where
  cause : FaultCause
  ip : Option Int
  deriving DecidableEq, Repr

namespace Fault

-- An access outside the memory, wherever it comes from.
def outside (addr : Int) : Fault :=
  ⟨.address addr, none⟩

def divisionByZero (dst src : Int) : Fault :=
  ⟨.arithmetic s!"Division by zero: [{Text.hexadecimal 0 dst}] / [{Text.hexadecimal 0 src}]", none⟩

-- A fault names the limit it stands for, and there is none for a limit too long to be written.
def stepLimit? (limit ip : Int) : Option Fault :=
  (Text.decimal? limit).map fun digits => ⟨.stepLimit s!"Step limit of {digits} reached", some ip⟩

-- A fault learns where it happened once; an address it already has stays.
def placedAt (f : Fault) (ip : Int) : Fault :=
  { f with ip := f.ip.or (some ip) }

def message (f : Fault) : String :=
  match f.ip with
  | none => f.cause.text
  | some ip => s!"{f.cause.text} (ip={Text.hexadecimal 6 ip})"

end Fault

end WordMachine
