import WordMachine.Device.Select
import WordMachine.Log
import WordMachine.Message

namespace WordMachine

-- A task that has ended with a failure.
def failureRecord (task : String) (x : Failure) : LogRecord :=
  ⟨.error, "devices", s!"{task} task failed: {x.describe}"⟩

def deviceDebug (text : String) : LogRecord :=
  ⟨.debug, "devices", text⟩

inductive MonitorPhase where
  | listening
  | stopping
  | ended
  deriving DecidableEq, Repr

-- Whoever waits for the halt signal and then asks the console to stop.
structure Monitor (ι : Type) where
  status : ι
  control : ι
  phase : MonitorPhase := .listening
  signal : Option HaltSignal := none
  ignored : List Item := []
  error : Option Failure := none
  finished : Bool := false
  deriving DecidableEq, Repr

namespace Monitor

variable {σ ι : Type} [ChannelStore σ ι Item]

-- A monitor that begins to run. What earlier runs left in its signal and error stays until it is
-- overwritten.
def begin (m : Monitor ι) : Monitor ι :=
  { m with phase := .listening, ignored := [] }

-- The next action; none while the status channel is open and empty, and none once the task has ended.
def step (s : σ) (m : Monitor ι) : Option (σ × Monitor ι) :=
  match m.phase with
  | .listening =>
      match (ChannelStore.channel s m.status).take? with
      | none => none
      | some (.error _) => some (s, { m with phase := .stopping })
      | some (.ok (item, c)) =>
          let s' := ChannelStore.update s m.status fun _ => c
          match item with
          | .halt signal => some (s', { m with phase := .stopping, signal := some signal })
          | other => some (s', { m with ignored := m.ignored ++ [other] })
  | .stopping =>
      match ChannelStore.put s m.control .stop with
      | .ok s' => some (s', { m with phase := .ended, finished := true })
      | .error x =>
          some (s, { m with phase := .ended, finished := true, error := some (.channel x) })
  | .ended => none

def proceed : Nat → σ → Monitor ι → σ × Monitor ι
  | 0, s, m => (s, m)
  | k + 1, s, m =>
      match step s m with
      | some (s', m') => proceed k s' m'
      | none => (s, m)

-- Goes on until it ends or has to wait: at most one action for each item on the status channel and two
-- more.
def resume (s : σ) (m : Monitor ι) : σ × Monitor ι :=
  proceed ((ChannelStore.channel s m.status).length + 2) s m

-- A run from its beginning.
def run (s : σ) (m : Monitor ι) : σ × Monitor ι :=
  resume s m.begin

def ended (m : Monitor ι) : Bool :=
  m.phase == .ended

-- The records of a run that has ended: what was passed over, and why it stopped listening.
def records (m : Monitor ι) : List LogRecord :=
  m.ignored.map (fun item => deviceDebug s!"Monitor ignoring {item.describe}") ++
    (match m.signal with
      | some signal =>
          [deviceDebug s!"Halt observed after {Text.decimal signal.cycles} cycles, stopping console"]
      | none => [deviceDebug "Status channel closed without a halt signal"]) ++
    (match m.error with
      | some x => [failureRecord "monitor" x]
      | none => [])

end Monitor

end WordMachine
