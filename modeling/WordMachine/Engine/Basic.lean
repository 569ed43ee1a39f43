import WordMachine.Message
import WordMachine.Processor

namespace WordMachine

-- A processor that takes one program, sends its characters on the output channel and, when it halts, one signal on the
-- status channel.
structure Engine where
  processor : Processor
  output : Channel Item
  status : Channel Item
  fault : Option Fault := none
  loaded : Bool := false
  signalled : Bool := false
  deriving DecidableEq, Repr

-- Why a step gives no instruction.
inductive StepError where
  | halted
  | fault (f : Fault)
  | channel (e : ChannelError)
  deriving DecidableEq, Repr

def StepError.message : StepError → String
  | .halted => "CPU is halted"
  | .fault f => f.message
  | .channel e => e.message

namespace Engine

def ofMemory (m : Memory) : Engine where
  processor := { memory := m }
  output := { name := "output" }
  status := { name := "status" }

def create (room : Nat) (size : Int) : Except BadSize Engine :=
  match Memory.create room size with
  | .ok m => .ok (ofMemory m)
  | .error e => .error e

def halted (e : Engine) : Bool :=
  e.processor.flags.halt

def withMemory (e : Engine) (m : Memory) : Engine :=
  { e with processor := { e.processor with memory := m } }

-- A program is loaded once, and only before anything was executed.
def load (e : Engine) (bytes : Bytes) : Except LoadError Engine :=
  if e.loaded then .error .alreadyLoaded
  else if e.processor.cycles ≠ 0 ∨ e.halted then .error .alreadyStarted
  else
    match Word.ofStream bytes with
    | .error r => .error (.ragged r)
    | .ok ws =>
        match e.processor.memory.loadWords ws with
        | .error x => .error x
        | .ok m => .ok { e.withMemory m with loaded := true }

def haltSignal (e : Engine) : HaltSignal :=
  ⟨e.processor.cycles, e.fault⟩

-- The halt signal is tried once, whether or not the status channel takes it.
def signalHalt (e : Engine) : Engine × Except ChannelError Unit :=
  if e.signalled then (e, .ok ())
  else
    match e.status.put (.halt e.haltSignal) with
    | .ok status => ({ e with signalled := true, status := status }, .ok ())
    | .error x => ({ e with signalled := true }, .error x)

def setHalt (e : Engine) : Engine :=
  { e with processor := { e.processor with flags := e.processor.flags.setHalt } }

-- Records the fault, halts and sends the signal.
def haltOn (e : Engine) (f : Fault) : Engine × Except ChannelError Unit :=
  { e with fault := some f }.setHalt.signalHalt

-- The fault that stands for a failure from outside the instruction set.
def abortFault (e : Engine) (x : Failure) : Fault :=
  ⟨.engine s!"Engine error: {x.describe}", some e.processor.ip⟩

-- Halts after a failure. A fault recorded earlier is kept in place of the new one.
def abort (e : Engine) (x : Failure) : Engine × Except ChannelError Unit :=
  { e with fault := e.fault.or (some (e.abortFault x)) }.setHalt.signalHalt

-- The output channel after a cycle that may have sent a character.
def outputAfter (e : Engine) : Option Char → Except ChannelError (Channel Item)
  | none => .ok e.output
  | some c => e.output.put (.text (String.singleton c))

-- One instruction. A character that the output channel does not take leaves the engine as it was; a
-- fault is not recorded here.
def step (e : Engine) : Engine × Except StepError Instruction :=
  if e.halted then (e, .error .halted)
  else
    match Processor.cycle.run e.processor with
    | .error f p => ({ e with processor := p }, .error (.fault f))
    | .ok c p =>
        match e.outputAfter c.sent with
        | .error x => (e, .error (.channel x))
        | .ok output =>
            let moved := { e with processor := p, output := output }
            if moved.halted then
              match moved.signalHalt with
              | (e', .ok ()) => (e', .ok c.instruction)
              | (e', .error x) => (e', .error (.channel x))
            else (moved, .ok c.instruction)

end Engine

end WordMachine
