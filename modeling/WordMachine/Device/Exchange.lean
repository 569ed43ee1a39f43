import WordMachine.Device.Select
import WordMachine.Message

namespace WordMachine

-- Channels under their names, each there from the moment it is first named.
structure Exchange where
  channels : List (Channel Item) := []
  events : List EventId := []
  nextEvent : EventId := 0
  deriving DecidableEq, Repr

-- What somebody else does to a channel while a call waits.
inductive Intervention where
  | put (name : String) (item : Item)
  | close (name : String)
  deriving DecidableEq, Repr

namespace Exchange

def find? (x : Exchange) (name : String) : Option (Channel Item) :=
  x.channels.find? (fun c => c.name == name)

def channel (x : Exchange) (name : String) : Channel Item :=
  (x.find? name).getD { name := name }

-- Naming a channel creates it.
def mention (x : Exchange) (name : String) : Exchange :=
  match x.find? name with
  | some _ => x
  | none => { x with channels := x.channels ++ [{ name := name }] }

def update (x : Exchange) (name : String) (f : Channel Item → Channel Item) : Exchange :=
  let x := x.mention name
  { x with channels := x.channels.map fun c => if c.name == name then f c else c }

instance : ChannelStore Exchange String Item where
  channel := channel
  update := update
  isSet x e := x.events.contains e
  setAll x es := { x with events := es ++ x.events }

-- An intervention that its channel refuses changes nothing.
def intervene (x : Exchange) : Intervention → Exchange
  | .put name item =>
      match ChannelStore.put x name item with
      | .ok x' => x'
      | .error _ => x
  | .close name => ChannelStore.close x name

def interveneAll (x : Exchange) (later : Option Intervention) : Exchange :=
  match later with
  | some i => x.intervene i
  | none => x

def replace (x : Exchange) (name : String) (c : Channel Item) : Exchange :=
  x.update name fun _ => c

-- A read that is answered at once, or else after the intervention if it is willing to wait for it.
def take (x : Exchange) (name : String) (patient : Bool) (later : Option Intervention) :
    Exchange × Except ChannelError Item :=
  let finish (x : Exchange) : Exchange × Except ChannelError Item :=
    match (x.channel name).take with
    | .ok (item, c) => (x.replace name c, .ok item)
    | .error e => (x, .error e)
  if patient && (x.channel name).take?.isNone then finish (x.interveneAll later)
  else
    let (x', r) := finish x
    (x'.interveneAll later, r)

-- A selection by its single actions. If it comes to wait, the intervention falls into its waiting
-- time when it is patient; a wait that is not ended so is given up.
def select (x : Exchange) (names : List String) (patient : Bool) (later : Option Intervention) :
    Exchange × List String :=
  let event := x.nextEvent
  let budget := Select.actions names
  let (x, call) := Select.proceed budget { x with nextEvent := event + 1 } (.start names event)
  match call.phase with
  | .wait =>
      let x := if patient then x.interveneAll later else x
      let (x, call) := Select.proceed budget x call
      let (x, call) := Select.proceed budget x call.timeOut
      (if patient then x else x.interveneAll later, call.result)
  | _ => (x.interveneAll later, call.result)

end Exchange

end WordMachine
