import WordMachine.Flags
import WordMachine.Instruction.Codec
import WordMachine.Memory

namespace WordMachine

structure Processor where
  memory : Memory
  flags : Flags := {}
  ip : Int := 0
  cycles : Nat := 0
  anomalies : Nat := 0
  deriving DecidableEq, Repr

-- A computation on the processor that may fault and then leaves the processor as it was at the fault.
abbrev Effect := EStateM Fault Processor

namespace Processor

def fetch (addr : Int) : Effect Word := do
  match (← get).memory.read addr with
  | .ok w => return w
  | .error f => throw f

def load (addr : Int) : Effect Int := do
  return (← fetch addr).toNat

def store (addr value : Int) : Effect Unit := do
  match (← get).memory.write addr value with
  | .ok m => modify fun p => { p with memory := m }
  | .error f => throw f

def setZero (v : Int) : Effect Unit :=
  modify fun p => { p with flags := { p.flags with zero := v } }

def setOverflow (v : Int) : Effect Unit :=
  modify fun p => { p with flags := { p.flags with overflow := v } }

-- A result that fits into a word is stored, any other only raises the overflow flag. The answer tells
-- whether it was stored.
def storeChecked (dst result : Int) : Effect Bool := do
  if 0 ≤ result ∧ result < 0x100000000 then
    setOverflow 0
    store dst result
    return true
  else
    setOverflow 1
    return false

-- The pointer is left one before the target because every cycle that does not halt advances it.
def jump (target : Int) : Effect Unit :=
  modify fun p => { p with ip := (target - 1) % 0x100000000 }

-- The character a word stands for.
def character (v : Int) : Char :=
  Char.ofNat (v % 256).toNat

-- The effect of an instruction, with the character it sends out if it is one that does.
def execute : Instruction → Effect (Option Char)
  | .eof => do
      modify fun p => { p with flags := p.flags.setHalt }
      return none
  | .mov dst src => do
      store dst (← load src)
      return none
  | .mop dst src => do
      store dst (← load (← load src))
      return none
  | .str dst imm => do
      store dst imm
      return none
  | .adi dst imm => do
      let _ ← storeChecked dst ((← load dst) + imm)
      return none
  | .sui dst imm => do
      let result := (← load dst) - imm
      if ← storeChecked dst result then
        if (← load dst) = 0 then setZero 1
      return none
  | .jmp target => do
      jump target
      return none
  | .jz target => do
      if (← get).flags.zero ≠ 0 then jump target
      return none
  | .cmp left right => do
      let a ← load left
      let b ← load right
      setZero (if a = b then 1 else 0)
      return none
  | .prn addr => do
      return some (character (← load addr))
  | .mul dst src => do
      let a ← load dst
      let b ← load src
      let _ ← storeChecked dst (a * b)
      return none
  | .div dst src => do
      let divisor ← load src
      if divisor = 0 then throw (.divisionByZero dst src)
      setOverflow 0
      store dst ((← load dst) / divisor)
      return none
  | .unknown _ _ => do
      modify fun p => { p with anomalies := p.anomalies + 1 }
      return none

-- What a cycle did: the instruction it executed and the character it sent out.
structure Cycle where
  instruction : Instruction
  sent : Option Char
  deriving DecidableEq, Repr

-- Counts the cycle and moves on, unless the machine has halted.
def advance : Effect Unit :=
  modify fun p =>
    { p with
      cycles := p.cycles + 1
      ip := if p.flags.halt then p.ip else (p.ip + 1) % 0x100000000 }

def fetchAndExecute : Effect Cycle := do
  let i := Instruction.decode (← fetch (← get).ip)
  return ⟨i, ← execute i⟩

-- One instruction from fetching it to counting it. A fault carries the address of the instruction.
def cycle : Effect Cycle := do
  let ip := (← get).ip
  let c ← EStateM.adaptExcept (fun f => f.placedAt ip) fetchAndExecute
  advance
  return c

theorem run_fetch (addr : Int) (p : Processor) :
    (fetch addr).run p =
      match p.memory.read addr with
      | .ok w => .ok w p
      | .error f => .error f p := by
  simp only [fetch, EStateM.run_bind, EStateM.run_get]
  cases p.memory.read addr <;> rfl

theorem run_load (addr : Int) (p : Processor) :
    (load addr).run p =
      if p.memory.Holds addr then .ok ((p.memory.word addr).toNat : Int) p
      else .error (.outside addr) p := by
  simp only [load, EStateM.run_bind, run_fetch, Memory.read]
  by_cases h : p.memory.Holds addr
  · simp only [h, if_pos]
    rfl
  · simp only [h, if_neg, not_false_eq_true]

theorem run_store (addr value : Int) (p : Processor) :
    (store addr value).run p =
      match p.memory.write addr value with
      | .ok m => .ok () { p with memory := m }
      | .error f => .error f p := by
  simp only [store, EStateM.run_bind, EStateM.run_get]
  cases p.memory.write addr value <;> rfl

theorem run_jump (target : Int) (p : Processor) :
    (jump target).run p = .ok () { p with ip := (target - 1) % 0x100000000 } :=
  rfl

end Processor

end WordMachine
