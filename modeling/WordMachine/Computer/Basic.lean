import WordMachine.Device.Console
import WordMachine.Engine.Run

namespace WordMachine

-- What a channel of the computer is for.
inductive ChannelRole where
  | output
  | status
  | control
  deriving DecidableEq, Repr

-- The engine with the channels around it, and the events that have been set.
structure Wiring where
  engine : Engine
  control : Channel Item
  events : List EventId := []
  deriving DecidableEq, Repr

namespace Wiring

def channel (w : Wiring) : ChannelRole → Channel Item
  | .output => w.engine.output
  | .status => w.engine.status
  | .control => w.control

def update (w : Wiring) (p : ChannelRole) (f : Channel Item → Channel Item) : Wiring :=
  match p with
  | .output => { w with engine := { w.engine with output := f w.engine.output } }
  | .status => { w with engine := { w.engine with status := f w.engine.status } }
  | .control => { w with control := f w.control }

instance : ChannelStore Wiring ChannelRole Item where
  channel := channel
  update := update
  isSet w e := w.events.contains e
  setAll w es := { w with events := es ++ w.events }

-- The events that a change of a channel sets: those left with it, if an item came in.
def woken (before after : Channel Item) : List EventId :=
  if before.received < after.received then before.watchers else []

-- Takes over what the engine did, and wakes those who wait for what it sent.
def engineMoved (w : Wiring) (e : Engine) : Wiring :=
  { w with
    engine := e
    events := woken w.engine.output e.output ++ woken w.engine.status e.status ++ w.events }

end Wiring

inductive EnginePhase where
  | idle
  | running (start : Nat)
  | aborting (x : Failure)
  | ended (left : Option ChannelError)
  deriving DecidableEq, Repr

-- Three tasks, joined by the output, status and control channels. They act in any order, each through single channel
-- operations.
structure Computer (τ : Type := Sink) where
  wiring : Wiring
  monitor : Monitor ChannelRole
  console : Console ChannelRole τ
  enginePhase : EnginePhase := .idle
  limit : Option Int := none
  started : Bool := false
  deriving DecidableEq, Repr

inductive Actor where
  | engine
  | monitor
  | console
  deriving DecidableEq, Repr

namespace Computer

variable {τ : Type} [TextSink τ]

def create (room : Nat) (size : Int) (limit : Option Int) (sink : τ) : Except BadSize (Computer τ) :=
  match Engine.create room size with
  | .error e => .error e
  | .ok e =>
      .ok
        { wiring := { engine := e, control := { name := "control" } }
          monitor := { status := .status, control := .control, phase := .ended }
          console := .create .output .control sink
          limit := limit }

def engine (s : Computer τ) : Engine :=
  s.wiring.engine

def withEngine (s : Computer τ) (e : Engine) : Computer τ :=
  { s with wiring := { s.wiring with engine := e } }

-- The engine task begins a run, or fails before the first turn of it.
def beginEngine (s : Computer τ) (failure : Option Failure) : Computer τ :=
  { s with
    enginePhase := match failure with
      | some x => .aborting x
      | none => .running s.engine.processor.cycles }

-- The next action of the engine task: a turn of its run, or the abort after a failed one.
def engineStep (s : Computer τ) : Option (Computer τ) :=
  match s.enginePhase with
  | .idle => none
  | .running start =>
      let (e, t) := s.engine.turn s.limit start
      let phase := match t with
        | .more => .running start
        | .ended => .ended none
        | .failed x => .aborting x
      some { s with wiring := s.wiring.engineMoved e, enginePhase := phase }
  | .aborting x =>
      let (e, r) := s.engine.abort x
      let left := match r with
        | .ok () => none
        | .error y => some y
      some { s with wiring := s.wiring.engineMoved e, enginePhase := .ended left }
  | .ended _ => none

-- The next action of a task; none while it waits and none once it has ended.
def act (s : Computer τ) : Actor → Option (Computer τ)
  | .engine => s.engineStep
  | .monitor => (s.monitor.step s.wiring).map fun r => { s with wiring := r.1, monitor := r.2 }
  | .console => (s.console.step s.wiring).map fun r => { s with wiring := r.1, console := r.2 }

-- All three tasks begin.
def begin (s : Computer τ) (failure : Option Failure) : Computer τ :=
  { s.beginEngine failure with
    started := true
    monitor := s.monitor.begin
    console := s.console.begin }

def engineEnded (s : Computer τ) : Bool :=
  match s.enginePhase with
  | .ended _ => true
  | _ => false

-- The engine task to its end; no answer if it takes more actions than are granted.
def finishEngine? : Nat → Computer τ → Option (Computer τ)
  | 0, _ => none
  | k + 1, s =>
      match s.engineStep with
      | some s' => finishEngine? k s'
      | none => some s

-- The engine task on its own, with the error that left it.
def runEngine? (granted : Nat) (s : Computer τ) : Option (Computer τ × Option ChannelError) :=
  match finishEngine? granted (s.beginEngine none) with
  | none => none
  | some s' =>
      match s'.enginePhase with
      | .ended left => some (s', left)
      | _ => some (s', none)

def runMonitor (s : Computer τ) : Computer τ :=
  let (w, m) := s.monitor.run s.wiring
  { s with wiring := w, monitor := m }

def runConsole (s : Computer τ) : Computer τ :=
  let (w, c) := s.console.run s.wiring
  { s with wiring := w, console := c }

-- As many actions of the engine as a limited run can take: its turns, an abort, and finding it ended.
def actionsFor (limit : Int) : Nat :=
  Engine.turnsFor limit + 2

-- A computer runs once.
inductive StartError where
  | alreadyStarted
  deriving DecidableEq, Repr

def StartError.message : StartError → String
  | .alreadyStarted => "System already started"

-- The monitor and the console go on until they have ended or wait for something.
def settle (s : Computer τ) : Computer τ :=
  let (w, m) := s.monitor.resume s.wiring
  let (w, c) := s.console.resume w
  { s with wiring := w, monitor := m, console := c }

-- All three tasks as far as they come. Nothing the engine does depends on the others, and nothing the
-- monitor does on the console.
def start? (granted : Nat) (failure : Option Failure) (s : Computer τ) :
    Option (Except StartError (Computer τ)) :=
  if s.started then some (.error .alreadyStarted)
  else
    match finishEngine? granted (s.begin failure) with
    | none => none
    | some s' => some (.ok s'.settle)

-- Whether nothing that was started is still at work or waiting.
def joined (s : Computer τ) : Bool :=
  !s.started || (s.engineEnded && s.monitor.ended && s.console.ended)

def finished (s : Computer τ) : Bool :=
  s.engine.halted && s.console.finished

-- What a run amounts to.
structure Result where
  cycles : Nat
  fault : Option Fault
  output : String
  consoleError : Option Failure
  deriving DecidableEq, Repr

def Result.ok (r : Result) : Bool :=
  r.fault.isNone && r.consoleError.isNone

def result (s : Computer τ) : Result :=
  ⟨s.engine.processor.cycles, s.engine.fault, s.console.text, s.console.error⟩

def closeChannel (s : Computer τ) (p : ChannelRole) : Computer τ :=
  { s with wiring := ChannelStore.close s.wiring p }

def putItem (s : Computer τ) (p : ChannelRole) (x : Item) : Except ChannelError (Computer τ) :=
  match ChannelStore.put s.wiring p x with
  | .ok w => .ok { s with wiring := w }
  | .error e => .error e

end Computer

end WordMachine
