import WordMachine.CommandLine.Request
import WordMachine.Computer.Report

namespace WordMachine.CommandLine

-- Where a command runs: its files, and the words that a memory has room for. Standard output may be broken, and
-- then everything written to it fails.
structure Host where
  files : FileStore
  room : Nat
  outputWorks : Bool := true
  deriving DecidableEq, Repr

-- A failure that no command turns into an exit code. A size without a value cannot be compared, and a
-- range without one has no two ends.
inductive Escape where
  | assembly (e : Assembly.FileFailure)
  | brokenPipe
  | memory (e : BadSize)
  | emptySize
  | emptyRange
  deriving DecidableEq, Repr

def Escape.message : Escape → String
  | .assembly e => e.message
  | .brokenPipe => Failure.brokenPipe.message
  | .memory e => e.message
  | .emptySize => "'<=' not supported between instances of 'list' and 'int'"
  | .emptyRange => "not enough values to unpack (expected 2, got 0)"

structure Outcome where
  files : FileStore
  stdout : String := ""
  stderr : String := ""
  exit : Except Escape Nat

def linesText (lines : List String) : String :=
  String.join (lines.map (· ++ "\n"))

-- A text on standard output and an exit code.
def shown (host : Host) (text : String) (code : Nat) : Outcome :=
  if host.outputWorks then { files := host.files, stdout := text, exit := .ok code }
  else { files := host.files, exit := .error .brokenPipe }

def stopped (host : Host) : Stop → Outcome
  | .help screen => shown host screen.help 0
  | .misuse screen e => { files := host.files, stderr := screen.complaint e, exit := .ok 2 }
  | .noMode => shown host Screen.program.usage 2

def listingMode (host : Host) (r : AsmRequest) : Assembly.ListingMode :=
  if !r.listing then .off else if host.outputWorks then .taken else .refused

-- How a failure to assemble ends the command: with a message, or by leaving it.
def assemblyFailure : Assembly.FileFailure → Except Escape String
  | .file path .nullInName => .error (.assembly (.file path .nullInName))
  | .file path e => .ok s!"Error: {e.message path}"
  | .writing e => .ok s!"Error: {e.unnamed}"
  | .listingRefused => .ok s!"Error: {Failure.brokenPipe.message}"
  | .assembly (.line number cause) =>
      .ok s!"Assembly error: {(Assembly.Error.line number cause).message}"
  | e => .error (.assembly e)

def assemble (host : Host) (r : AsmRequest) : Outcome :=
  let done := Assembly.assembleFile host.files r.source (some r.output) (listingMode host r)
  let listing := linesText done.listing
  match done.result with
  | .error e =>
      match assemblyFailure e with
      | .ok message =>
          { files := done.files, stdout := listing, stderr := message ++ "\n", exit := .ok 1 }
      | .error e => { files := done.files, stdout := listing, exit := .error e }
  | .ok (path, words) =>
      if host.outputWorks then
        { files := done.files
          stdout := listing ++ s!"Wrote binary to {path} ({Text.decimal words} words)\n"
          exit := .ok 0 }
      else { files := done.files, stdout := listing, exit := .error .brokenPipe }

def threshold (verbosity : Nat) : LogLevel :=
  if verbosity = 0 then .warning else if verbosity = 1 then .info else .debug

def logText (level : LogLevel) (records : List LogRecord) : String :=
  linesText ((records.filter (LogRecord.shownAt level)).map LogRecord.line)

-- Why a machine does not come to run: with a message, or by leaving the command.
inductive Refusal where
  | load (message : String)
  | escape (e : Escape)
  deriving DecidableEq, Repr

def memorySize (r : VmRequest) : Except Escape Int :=
  match r.memory with
  | .absent => .ok Memory.defaultSize
  | .given size => .ok size
  | .empty => .error .emptySize

def stepLimit (r : VmRequest) : Option Int :=
  match r.limit with
  | .given n => some n
  | _ => none

-- A limit without a value is found out when the engine looks at it, before its first step.
def limitFailure (r : VmRequest) : Option Failure :=
  if r.limit = .empty then some .emptyLimit else none

-- Only a size that is no size at all is told as an error of loading.
def refusedSize (e : BadSize) : Refusal :=
  match e with
  | .notPositive _ => .load e.message
  | _ => .escape (.memory e)

-- The computer of a request with its program loaded, and the records of the loading.
def prepare (host : Host) (r : VmRequest) : Except Refusal (Computer × List LogRecord) := do
  let sink : Sink :=
    { encoding := .utf8, failWrite := if host.outputWorks then none else some 1 }
  let size ← (memorySize r).mapError .escape
  let c ← (Computer.create host.room size (stepLimit r) sink).mapError refusedSize
  let opened := Engine.creationRecords size ++ [Engine.openingRecord r.binary]
  match host.files.read r.binary with
  | .error .nullInName => .error (.load FileError.nullInName.reason)
  | .error e => .error (.load (LoadError.unreadable r.binary e.reason).message)
  | .ok bytes =>
      match c.engine.load bytes with
      | .error e => .error (.load e.message)
      | .ok engine => .ok (c.withEngine engine, opened ++ c.engine.loadRecords bytes)

-- The dump that was asked for, as it is printed: on standard output and standard error.
def dumpText (m : Memory) (range : Int × Int) : String × String :=
  match m.dump range.1 (some range.2) with
  | .ok text => ("\n" ++ text ++ "\n", "")
  | .error f => ("\n", s!"Dump error: {f.message}\n")

-- What a run comes to: a text on standard error and the exit code.
def verdict (level : LogLevel) (r : Computer.Result) : String × Nat :=
  match r.fault, r.consoleError with
  | some f, _ => (s!"\nFault: {f.message}\n", 1)
  | none, some x => (s!"\nOutput error: {x.message}\n", 1)
  | none, none =>
      (logText level [⟨.info, "cli", s!"Halted after {Text.decimal r.cycles} cycles"⟩], 0)

-- What is printed after a run, and the exit code it comes to.
def conclude (host : Host) (level : LogLevel) (r : VmRequest) (c : Computer) : Outcome :=
  let (text, code) := verdict level c.result
  match r.dump with
  | .absent => { files := host.files, stderr := text, exit := .ok code }
  | .empty => { files := host.files, exit := .error .emptyRange }
  | .given range =>
      if host.outputWorks then
        let (printed, complaint) := dumpText c.engine.processor.memory range
        { files := host.files, stdout := printed, stderr := complaint ++ text, exit := .ok code }
      else { files := host.files, exit := .error .brokenPipe }

-- A request to run a program; no answer if the run takes more actions than are granted.
def run? (host : Host) (level : LogLevel) (granted : Nat) (r : VmRequest) : Option Outcome :=
  match prepare host r with
  | .error (.load message) =>
      some { files := host.files, stderr := s!"Load error: {message}\n", exit := .ok 1 }
  | .error (.escape e) => some { files := host.files, exit := .error e }
  | .ok (before, loading) =>
      match before.start? granted (limitFailure r) with
      | none => none
      | some (.error e) => some { files := host.files, stderr := e.message, exit := .ok 1 }
      | some (.ok after) =>
          let log := logText level (loading ++ before.runRecords granted (limitFailure r) after)
          let rest := conclude host level r after
          some
            { rest with
              stdout := after.console.sink.text ++ rest.stdout
              stderr := log ++ rest.stderr }

def execute? (host : Host) (granted : Nat) (args : List String) : Option Outcome :=
  match readArguments args with
  | .error stop => some (stopped host stop)
  | .ok (_, .asm r) => some (assemble host r)
  | .ok (verbosity, .vm r) => run? host (threshold verbosity) granted r

end WordMachine.CommandLine
