import WordMachine.Message

namespace WordMachine

-- Whatever the console can write to. A call leaves the sink in any state, whether or not it fails, and
-- what is no text is always refused.
class TextSink (τ : Type) where
  write : τ → String → τ × Except Failure Unit
  flush : τ → τ × Except Failure Unit
  refuse : τ → Item → τ × Failure

namespace TextSink

variable {τ : Type} [TextSink τ]

-- A write, once more in escapes if the sink has no bytes for the text. The second try counts as a write
-- of its own, and whatever it fails with is final.
def writeRendered (s : τ) (text : String) : τ × Except Failure String :=
  match write s text with
  | (s', .ok ()) => (s', .ok text)
  | (s', .error .unencodable) =>
      match write s' (Text.asciiEscaped text) with
      | (s'', .ok ()) => (s'', .ok (Text.asciiEscaped text))
      | (s'', .error x) => (s'', .error x)
  | (s', .error x) => (s', .error x)

-- A text written and flushed. The answer is the text as it was written.
def emit (s : τ) (text : String) : τ × Except Failure String :=
  match writeRendered s text with
  | (s', .error x) => (s', .error x)
  | (s', .ok written) =>
      match flush s' with
      | (s'', .ok ()) => (s'', .ok written)
      | (s'', .error x) => (s'', .error x)

-- Only texts can be written.
def emitItem (s : τ) (item : Item) : τ × Except Failure String :=
  match item with
  | .text t => emit s t
  | item =>
      let (s', x) := refuse s item
      (s', .error x)

end TextSink

-- What a sink can take. A plain sink keeps text, the others the bytes of their encoding.
inductive Encoding where
  | plain
  | ascii
  | latin1
  | utf8
  deriving DecidableEq, Repr

def Encoding.accepts : Encoding → Char → Bool
  | .plain, _ => true
  | .ascii, c => c.toNat < 128
  | .latin1, c => c.toNat < 256
  | .utf8, _ => true

-- A sink may be set to break at one of its writes and at one of its flushes, and with what.
structure Sink where
  encoding : Encoding := .plain
  failWrite : Option Int := none
  failFlush : Option Int := none
  writeFailure : Failure := .brokenPipe
  flushFailure : Failure := .transfer
  text : String := ""
  writes : Nat := 0
  flushes : Nat := 0
  deriving DecidableEq, Repr

namespace Sink

def encodes (s : Sink) (text : String) : Bool :=
  text.toList.all s.encoding.accepts

-- Every call counts, also one that fails, and a write that fails writes nothing.
def write (s : Sink) (text : String) : Sink × Except Failure Unit :=
  let counted := { s with writes := s.writes + 1 }
  if s.failWrite = some (counted.writes : Int) then (counted, .error s.writeFailure)
  else if s.encodes text then ({ counted with text := s.text ++ text }, .ok ())
  else (counted, .error .unencodable)

def flush (s : Sink) : Sink × Except Failure Unit :=
  let counted := { s with flushes := s.flushes + 1 }
  if s.failFlush = some (counted.flushes : Int) then (counted, .error s.flushFailure)
  else (counted, .ok ())

-- The text as the sink accepts it: as it is, or in plain ASCII with escapes.
def rendered (s : Sink) (text : String) : String :=
  if s.encodes text then text else Text.asciiEscaped text

-- What a sink says to an item that is no text.
def refusal (s : Sink) (item : Item) : Failure :=
  match s.encoding with
  | .plain => .notText item.kind
  | _ => .notEncodable item.kindInBytes

-- The attempt to write what is no text counts as a write too.
def refuse (s : Sink) (item : Item) : Sink × Failure :=
  let counted := { s with writes := s.writes + 1 }
  (counted, if s.failWrite = some (counted.writes : Int) then s.writeFailure else s.refusal item)

instance : TextSink Sink where
  write := write
  flush := flush
  refuse := refuse

-- The bytes a sink with an encoding holds.
def bytes (s : Sink) : List UInt8 :=
  match s.encoding with
  | .latin1 => s.text.toList.map (fun c => UInt8.ofNat c.toNat)
  | _ => s.text.toUTF8.toList

end Sink

end WordMachine
