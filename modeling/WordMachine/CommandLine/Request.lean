import WordMachine.Assembly.File
import WordMachine.CommandLine.Usage
import WordMachine.Memory
import WordMachine.Text.Numeral

namespace WordMachine.CommandLine

structure AsmRequest where
  source : String
  output : String := Assembly.defaultOutput
  listing : Bool := false
  deriving DecidableEq, Repr

-- What has been said about an option with a value: nothing, a value, or that it has none.
inductive Setting (α : Type) where
  | absent
  | given (value : α)
  | empty
  deriving DecidableEq, Repr

structure VmRequest where
  binary : String
  memory : Setting Int := .absent
  limit : Setting Int := .absent
  dump : Setting (Int × Int) := .absent
  deriving DecidableEq, Repr

inductive Request where
  | asm (r : AsmRequest)
  | vm (r : VmRequest)
  deriving DecidableEq, Repr

-- The file that a request reads.
def Request.input : Request → String
  | .asm r => r.source
  | .vm r => r.binary

-- The file that it writes, if it writes one.
def Request.output? : Request → Option String
  | .asm r => some (Assembly.outputPath (some r.output))
  | .vm _ => none

-- Why a command line asks for nothing to be done.
inductive Stop where
  | help (screen : Screen)
  | misuse (screen : Screen) (e : UsageError)
  | noMode
  deriving DecidableEq, Repr

def helpOption : OptionSpec := ⟨["-h", "--help"], false⟩

def verboseOption : OptionSpec := ⟨["-v", "--verbose"], false⟩

def outputOption : OptionSpec := ⟨["-o", "--output"], true⟩

def listingOption : OptionSpec := ⟨["--listing", "-l"], false⟩

def memoryOption : OptionSpec := ⟨["--mem"], true⟩

def limitOption : OptionSpec := ⟨["--max-steps"], true⟩

def dumpOption : OptionSpec := ⟨["--dump"], true⟩

def grammar : Screen → Grammar
  | .program => ⟨[helpOption, verboseOption], .remainder⟩
  | .asm => ⟨[helpOption, outputOption, listingOption], .single⟩
  | .vm => ⟨[helpOption, memoryOption, limitOption, dumpOption], .single⟩

-- An option value that has to be a number.
def integer (o : OptionSpec) (value : String) : Except UsageError Int :=
  match Text.decimalInt? (Text.trimNumber value.toList) with
  | some n => .ok n
  | none => .error (.argument o.label (.notInteger value))

-- Two addresses with a colon between them.
def range (o : OptionSpec) (value : String) : Except UsageError (Int × Int) :=
  let cs := value.toList
  let first := cs.takeWhile (· != ':')
  let bound? : Option (Int × Int) :=
    match cs.dropWhile (· != ':') with
    | _ :: last =>
        match Text.markedInt? (Text.trimNumber first), Text.markedInt? (Text.trimNumber last) with
        | some a, some b => some (a, b)
        | _, _ => none
    | [] => none
  match bound? with
  | some r => .ok r
  | none => .error (.argument o.label (.notRange value))

-- What has been read of a mode's arguments so far.
structure AsmDraft where
  source : Option String := none
  output : String := Assembly.defaultOutput
  listing : Bool := false

structure VmDraft where
  binary : Option String := none
  memory : Setting Int := .absent
  limit : Setting Int := .absent
  dump : Setting (Int × Int) := .absent

def AsmDraft.apply (d : AsmDraft) : Occurrence → Except Stop AsmDraft
  | .operands args => .ok { d with source := args.head? }
  | .emptied _ => .ok { d with output := Assembly.defaultOutput }
  | .option o value =>
      if o = helpOption then .error (.help .asm)
      else if o = outputOption then .ok { d with output := value }
      else .ok { d with listing := true }

def VmDraft.apply (d : VmDraft) : Occurrence → Except Stop VmDraft
  | .operands args => .ok { d with binary := args.head? }
  | .emptied o =>
      if o = memoryOption then .ok { d with memory := .empty }
      else if o = limitOption then .ok { d with limit := .empty }
      else .ok { d with dump := .empty }
  | .option o value =>
      if o = helpOption then .error (.help .vm)
      else if o = memoryOption then
        match integer o value with
        | .ok n => .ok { d with memory := .given n }
        | .error e => .error (.misuse .vm e)
      else if o = limitOption then
        match integer o value with
        | .ok n => .ok { d with limit := .given n }
        | .error e => .error (.misuse .vm e)
      else
        match range o value with
        | .ok r => .ok { d with dump := .given r }
        | .error e => .error (.misuse .vm e)

-- The arguments of the assembler mode, with those nobody takes.
def readAsm (args : List String) : Except Stop (AsmRequest × List String) :=
  let r := (grammar .asm).read args
  match r.seen.foldlM AsmDraft.apply {} with
  | .error s => .error s
  | .ok d =>
      match r.outcome, d.source with
      | .error e, _ => .error (.misuse .asm e)
      | .ok _, none => .error (.misuse .asm (.required "source"))
      | .ok extra, some source => .ok (⟨source, d.output, d.listing⟩, extra)

-- The arguments of the machine mode, with those nobody takes.
def readVm (args : List String) : Except Stop (VmRequest × List String) :=
  let r := (grammar .vm).read args
  match r.seen.foldlM VmDraft.apply {} with
  | .error s => .error s
  | .ok d =>
      match r.outcome, d.binary with
      | .error e, _ => .error (.misuse .vm e)
      | .ok _, none => .error (.misuse .vm (.required "binary"))
      | .ok extra, some binary => .ok (⟨binary, d.memory, d.limit, d.dump⟩, extra)

def modes : List String :=
  ["asm", "vm"]

-- The first operand names the mode; the rest is that mode's command line.
def readMode : List String → Except Stop (Option Request × List String)
  | [] => .ok (none, [])
  | mode :: args =>
      if mode = "asm" then
        match readAsm args with
        | .ok (r, extra) => .ok (some (.asm r), extra)
        | .error s => .error s
      else if mode = "vm" then
        match readVm args with
        | .ok (r, extra) => .ok (some (.vm r), extra)
        | .error s => .error s
      else
        .error (.misuse .program (.argument "\x7basm,vm\x7d" (.noSuchChoice mode modes)))

structure ProgramDraft where
  verbosity : Nat := 0
  request : Option Request := none
  extra : List String := []

def ProgramDraft.apply (d : ProgramDraft) : Occurrence → Except Stop ProgramDraft
  | .operands args =>
      match readMode args with
      | .ok (request, extra) => .ok { d with request := request, extra := extra }
      | .error s => .error s
  | .emptied _ => .ok d
  | .option o _ =>
      if o = helpOption then .error (.help .program)
      else .ok { d with verbosity := d.verbosity + 1 }

-- The request of a command line and how much is to be logged. Effects come in the order of the arguments, so help that
-- is asked for early is given although something behind it is wrong.
def readArguments (args : List String) : Except Stop (Nat × Request) :=
  let r := (grammar .program).read args
  match r.seen.foldlM ProgramDraft.apply {} with
  | .error s => .error s
  | .ok d =>
      match r.outcome with
      | .error e => .error (.misuse .program e)
      | .ok extra =>
          if extra ++ d.extra = [] then
            match d.request with
            | some request => .ok (d.verbosity, request)
            | none => .error .noMode
          else .error (.misuse .program (.unrecognized (extra ++ d.extra)))

end WordMachine.CommandLine
