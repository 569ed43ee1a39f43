import WordMachine.Device.Monitor
import WordMachine.Device.Sink

namespace WordMachine

inductive ConsolePhase (ι : Type) where
  | selecting (call : Select ι)
  | taking (controlReady : Bool)
  | emitting (item : Item) (controlReady : Bool)
  | obeying
  | draining
  | writing (rest : List Item) (drained : Nat)
  | ended
  deriving DecidableEq, Repr

-- What it has written is kept newest first.
structure Console (ι : Type) (τ : Type := Sink) where
  output : ι
  control : ι
  sink : τ
  phase : ConsolePhase ι
  nextEvent : EventId := 0
  written : List String := []
  drained : Option Nat := none
  error : Option Failure := none
  finished : Bool := false
  deriving DecidableEq, Repr

namespace Console

variable {σ ι τ : Type} [ChannelStore σ ι Item] [BEq ι] [TextSink τ]

def channels (output control : ι) : List ι :=
  [output, control]

def create (output control : ι) (sink : τ) : Console ι τ where
  output := output
  control := control
  sink := sink
  phase := .ended

def move (c : Console ι τ) (phase : ConsolePhase ι) : Console ι τ :=
  { c with phase := phase }

-- Starts a new wait for something to write or a request to stop. Each wait has an event of its own.
def listen (c : Console ι τ) : Console ι τ :=
  { c with
    phase := .selecting (.start (channels c.output c.control) c.nextEvent)
    nextEvent := c.nextEvent + 1 }

-- A console that begins to run, on the sink and transcript it has.
def begin (c : Console ι τ) : Console ι τ :=
  { c with drained := none }.listen

def fail (c : Console ι τ) (x : Failure) : Console ι τ :=
  { c with phase := .ended, error := some x, finished := true }

-- Where a finished wait leads. Output comes before the request to stop.
def afterWait (c : Console ι τ) (ready : List ι) : Console ι τ :=
  if ready.contains c.output then c.move (.taking (ready.contains c.control))
  else if ready.contains c.control then c.move .obeying
  else c.listen

-- A failure met while the console still waits for more. One that says a queue is empty is taken for the
-- end of the output, so the item it was met on is lost and the console goes on.
def failOrDrain (c : Console ι τ) (x : Failure) : Console ι τ :=
  if x = .channel .empty then c.move .draining else c.fail x

-- Writes an item, and goes on in one way if the sink took it and in another if it failed.
def emit (c : Console ι τ) (item : Item) (next : Console ι τ → Console ι τ)
    (failed : Console ι τ → Failure → Console ι τ) : Console ι τ :=
  match TextSink.emitItem c.sink item with
  | (sink, .ok text) =>
      next { c with sink := sink, written := text :: c.written }
  | (sink, .error x) => failed { c with sink := sink } x

-- The next action; none while the console waits, and none once it has ended.
def step (s : σ) (c : Console ι τ) : Option (σ × Console ι τ) :=
  match c.phase with
  | .selecting call =>
      match call.phase with
      | .finished ready => some (s, c.afterWait ready)
      | _ =>
          match Select.step s call with
          | some (s', call') => some (s', c.move (.selecting call'))
          | none => none
  | .taking controlReady =>
      match (ChannelStore.channel s c.output).pop? with
      | some (item, ch) =>
          some (ChannelStore.update s c.output fun _ => ch, c.move (.emitting item controlReady))
      | none => some (s, c.move .draining)
  | .emitting item controlReady =>
      some (s, c.emit item (fun c => if controlReady then c.move .obeying else c.listen) failOrDrain)
  | .obeying =>
      match (ChannelStore.channel s c.control).pop? with
      | some (_, ch) => some (ChannelStore.update s c.control fun _ => ch, c.move .draining)
      | none => some (s, c.move .draining)
  | .draining =>
      let (items, ch) := (ChannelStore.channel s c.output).drain
      some (ChannelStore.update s c.output fun _ => ch, c.move (.writing items items.length))
  | .writing (item :: rest) n => some (s, c.emit item (fun c => c.move (.writing rest n)) fail)
  | .writing [] n => some (s, { c with phase := .ended, drained := some n, finished := true })
  | .ended => none

def proceed : Nat → σ → Console ι τ → σ × Console ι τ
  | 0, s, c => (s, c)
  | k + 1, s, c =>
      match step s c with
      | some (s', c') => proceed k s' c'
      | none => (s, c)

-- Goes on until it ends or has to wait. An item costs at most one wait, its removal and its writing.
def resume (s : σ) (c : Console ι τ) : σ × Console ι τ :=
  let items := (ChannelStore.channel s c.output).length
  proceed ((items + 2) * (Select.actions (channels c.output c.control) + 3) + 4) s c

-- A run from its beginning.
def run (s : σ) (c : Console ι τ) : σ × Console ι τ :=
  resume s c.begin

def ended (c : Console ι τ) : Bool :=
  match c.phase with
  | .ended => true
  | _ => false

-- What has been written, in the order of its writing.
def transcript (c : Console ι τ) : List String :=
  c.written.reverse

def text (c : Console ι τ) : String :=
  String.join c.transcript

-- The records of a run that has ended.
def records (c : Console ι τ) : List LogRecord :=
  (match c.drained with
    | some n => [deviceDebug s!"Console stopped, drained {Text.decimal n} trailing character(s)"]
    | none => []) ++
    (match c.error with
      | some x => [failureRecord "console" x]
      | none => [])

end Console

end WordMachine
