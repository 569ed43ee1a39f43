import WordMachine.Engine.Narration
import WordMachine.Engine.Report
import WordMachine.Computer.Basic

namespace WordMachine.Computer

open WordMachine.Text (decimal)

variable {τ : Type} [TextSink τ]

def channelLine (c : Channel Item) : String :=
  s!"  {c.name}: {decimal c.length} queued" ++ (if c.closed then " (closed)" else "")

def report (s : Computer τ) : String :=
  let lines :=
    ["=== CPU ===", s.engine.report, "", "=== Channels ==="] ++
      [ChannelRole.output, .status, .control].map (fun p => channelLine (s.wiring.channel p)) ++
      [s!"  console: {decimal s.console.transcript.length} chars written"] ++
      (match s.console.error with
        | none => []
        | some x => [s!"  console error: {x.describe}"])
  "\n".intercalate lines

-- The record that sums a run up.
def resultRecord (r : Result) : LogRecord :=
  match r.fault with
  | some f =>
      ⟨.info, "system", s!"Run ended with fault after {decimal r.cycles} cycles: {f.message}"⟩
  | none => ⟨.info, "system", s!"Run halted cleanly after {decimal r.cycles} cycles"⟩

-- What the engine task says in a run, or when it fails before its first turn.
def engineRecords (before : Computer τ) (granted : Nat) (failure : Option Failure) : List LogRecord :=
  match failure with
  | none => before.engine.taskRecords before.limit granted
  | some x => [before.engine.startRecord, before.engine.abortRecord x]

-- The records of a whole run, given the computer before it and after it, task by task.
def runRecords (before : Computer τ) (granted : Nat) (failure : Option Failure) (after : Computer τ) :
    List LogRecord :=
  before.engineRecords granted failure ++ after.monitor.records ++ after.console.records ++
    [resultRecord after.result]

end WordMachine.Computer
