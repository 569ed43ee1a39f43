import WordMachine.Channel

namespace WordMachine

-- A place that holds channels under names of a type and knows which events have been set.
class ChannelStore (σ : Type) (ι α : outParam Type) where
  channel : σ → ι → Channel α
  update : σ → ι → (Channel α → Channel α) → σ
  isSet : σ → EventId → Bool
  setAll : σ → List EventId → σ

namespace ChannelStore

variable {σ ι α : Type} [ChannelStore σ ι α]

-- An item is queued first; the events found on the channel at that moment are set after it.
def put (s : σ) (i : ι) (x : α) : Except ChannelError σ :=
  match (channel s i).put x with
  | .error e => .error e
  | .ok c => .ok (setAll (update s i fun _ => c) c.watchers)

def close (s : σ) (i : ι) : σ :=
  setAll (update s i Channel.close) (channel s i).watchers

end ChannelStore

-- Which of its three looks at the channels a call is taking.
inductive SelectRound where
  | first
  | second
  | last
  deriving DecidableEq, Repr

-- Where a call stands: the channels it has yet to act on and those it has found ready.
inductive SelectPhase (ι : Type) where
  | look (round : SelectRound) (todo ready : List ι)
  | register (todo : List ι)
  | wait
  | unregister (todo ready : List ι)
  | finished (ready : List ι)
  deriving DecidableEq, Repr

-- One wait on several channels. It looks at every channel and, if none is ready, leaves an event with each, looks again,
-- waits for the event and looks a last time; then it takes the events back. Anything may happen in between.
structure Select (ι : Type) where
  channels : List ι
  event : EventId
  phase : SelectPhase ι
  deriving DecidableEq, Repr

namespace Select

variable {σ ι α : Type} [ChannelStore σ ι α]

def start (channels : List ι) (event : EventId) : Select ι :=
  ⟨channels, event, .look .first channels []⟩

def move (c : Select ι) (phase : SelectPhase ι) : Select ι :=
  { c with phase := phase }

-- Where a look leads that found some channels ready.
def afterLook (c : Select ι) (round : SelectRound) (ready : List ι) : SelectPhase ι :=
  match round, ready with
  | .first, [] => .register c.channels
  | .first, ready => .finished ready
  | .second, [] => .wait
  | .second, ready => .unregister c.channels ready
  | .last, ready => .unregister c.channels ready

-- The next action; none while the call waits for its event, and none once it has returned.
def step (s : σ) (c : Select ι) : Option (σ × Select ι) :=
  match c.phase with
  | .look round (i :: todo) ready =>
      let ready := if (ChannelStore.channel s i).ready then ready ++ [i] else ready
      some (s, c.move (.look round todo ready))
  | .look round [] ready => some (s, c.move (c.afterLook round ready))
  | .register (i :: todo) =>
      some (ChannelStore.update s i (fun ch => ch.watch c.event), c.move (.register todo))
  | .register [] => some (s, c.move (.look .second c.channels []))
  | .wait =>
      if ChannelStore.isSet s c.event then some (s, c.move (.look .last c.channels [])) else none
  | .unregister (i :: todo) ready =>
      some (ChannelStore.update s i (fun ch => ch.unwatch c.event), c.move (.unregister todo ready))
  | .unregister [] ready => some (s, c.move (.finished ready))
  | .finished _ => none

-- A wait that is given up finds nothing ready.
def timeOut (c : Select ι) : Select ι :=
  match c.phase with
  | .wait => c.move (.unregister c.channels [])
  | _ => c

-- As many actions as can be taken without waiting, at most a given number.
def proceed : Nat → σ → Select ι → σ × Select ι
  | 0, s, c => (s, c)
  | k + 1, s, c =>
      match step s c with
      | some (s', c') => proceed k s' c'
      | none => (s, c)

-- The number of actions of the longest call.
def actions (channels : List ι) : Nat :=
  5 * channels.length + 8

def result (c : Select ι) : List ι :=
  match c.phase with
  | .finished ready => ready
  | _ => []

end Select

end WordMachine
