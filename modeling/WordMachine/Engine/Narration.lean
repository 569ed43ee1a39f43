import WordMachine.Engine.Run
import WordMachine.Instruction.Disassembly
import WordMachine.Log

namespace WordMachine.Engine

open WordMachine.Text (decimal hexadecimal)

def debug (text : String) : LogRecord :=
  ⟨.debug, "rvm", text⟩

def creationRecords (size : Int) : List LogRecord :=
  [debug s!"Creating new Virtmachine with size {decimal size}"]

def openingRecord (path : String) : LogRecord :=
  debug s!"Attempting to load file {path}"

-- Only a load that succeeds is spoken of.
def loadRecords (e : Engine) (bytes : Bytes) : List LogRecord :=
  match e.load bytes with
  | .ok _ => [debug s!"Loaded {decimal (bytes.length / 4 : Nat)} words"]
  | .error _ => []

def storeRecord (addr value : Int) : LogRecord :=
  debug s!"Memset: [{hexadecimal 6 addr}]:{(Word.ofInt value).hex}"

def jumpRecord (target : Int) : LogRecord :=
  debug s!"Jumping to {hexadecimal 6 target}"

-- A store that faults is silent.
def storeRecords (m : Memory) (addr value : Int) : List LogRecord :=
  if m.Holds addr then [storeRecord addr value] else []

-- The outcome of a checked store at an address that can be read.
def checkedRecords (m : Memory) (verb : String) (operand dst result : Int) : List LogRecord :=
  if 0 ≤ result ∧ result < 0x100000000 then [storeRecord dst result]
  else
    [debug
      (s!"Overflow when {verb} {hexadecimal 10 operand} at [{hexadecimal 6 dst}]" ++
        s!"({(m.word dst).hex})")]

def executionRecords (p : Processor) (i : Instruction) : List LogRecord :=
  let m := p.memory
  let value (addr : Int) : Int := (m.word addr).toNat
  match i with
  | .eof => [debug "EOF reached."]
  | .mov dst src => if m.Holds src then storeRecords m dst (value src) else []
  | .mop dst src =>
      if m.Holds src ∧ m.Holds (value src) then storeRecords m dst (value (value src)) else []
  | .str dst imm => storeRecords m dst imm
  | .adi dst imm =>
      if m.Holds dst then checkedRecords m "adding" imm dst (value dst + imm) else []
  | .sui dst imm =>
      if m.Holds dst then checkedRecords m "subtracting" imm dst (value dst - imm) else []
  | .jmp target => [jumpRecord target]
  | .jz target => if p.flags.zero ≠ 0 then [jumpRecord target] else []
  | .cmp _ _ => []
  | .prn _ => []
  | .mul dst src =>
      if m.Holds dst ∧ m.Holds src then
        checkedRecords m "multiplying by" (value src) dst (value dst * value src)
      else []
  | .div dst src =>
      if m.Holds src ∧ value src ≠ 0 then storeRecords m dst (value dst / value src) else []
  | .unknown op w =>
      [⟨.warning, "rvm",
        s!"Unrecognized operation {hexadecimal 4 op} in word {hexadecimal 10 w} at " ++
          s!"ip={hexadecimal 6 p.ip}, skipping"⟩]

-- A step that finds no instruction at its address says nothing.
def stepRecords (e : Engine) : List LogRecord :=
  let p := e.processor
  if e.halted ∨ ¬ p.memory.Holds p.ip then []
  else
    let w := p.memory.word p.ip
    debug s!"Exec: [{hexadecimal 6 p.ip}]:{w.hex}  {Instruction.disassemble w}" ::
      executionRecords p (.decode w)

def faultRecord (f : Fault) : LogRecord :=
  ⟨.error, "rvm", s!"Fatal fault: {f.message}"⟩

def turnRecords (limit : Option Int) (start : Nat) (e : Engine) : List LogRecord :=
  if e.halted then []
  else
    match limitReached limit start e with
    | some n => ((Fault.stepLimit? n e.processor.ip).map faultRecord).toList
    | none =>
        match e.step.2 with
        | .error (.fault f) => e.stepRecords ++ [faultRecord f]
        | _ => e.stepRecords

def turnsRecords (limit : Option Int) (start : Nat) : Nat → Engine → List LogRecord
  | 0, _ => []
  | k + 1, e =>
      e.turnRecords limit start ++
        match e.turn limit start with
        | (e', .more) => turnsRecords limit start k e'
        | _ => []

def startRecord (e : Engine) : LogRecord :=
  debug s!"Starting virtual machine with size {decimal e.processor.memory.size}"

def runRecords (limit : Option Int) (granted : Nat) (e : Engine) : List LogRecord :=
  e.startRecord :: turnsRecords limit e.processor.cycles granted e

def abortRecord (e : Engine) (x : Failure) : LogRecord :=
  ⟨.error, "rvm", s!"Engine aborted: {(e.abortFault x).message}"⟩

-- The records of the engine task: its run, and the abort that ends it if the run fails.
def taskRecords (limit : Option Int) (granted : Nat) (e : Engine) : List LogRecord :=
  e.runRecords limit granted ++
    match e.run? limit granted with
    | some (e', .error x) => [e'.abortRecord x]
    | _ => []

end WordMachine.Engine
