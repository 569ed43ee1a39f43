import WordMachine.Binary64
import WordMachine.Channel
import WordMachine.Fault
import WordMachine.Text.Quoted
import WordMachine.Text.Radix

namespace WordMachine

-- Sent once when the machine stops, with the count of its cycles and the fault that stopped it.
structure HaltSignal where
  cycles : Int
  fault : Option Fault
  deriving DecidableEq, Repr

-- Texts for the console, the signals that end a run, and values that no task has a use for.
inductive Item where
  | null
  | bool (b : Bool)
  | int (n : Int)
  | real (x : Binary64)
  | text (s : String)
  | halt (s : HaltSignal)
  | stop
  deriving DecidableEq, Repr

namespace Item

-- What kind of thing an item is.
def kind : Item → String
  | .null => "NoneType"
  | .bool _ => "bool"
  | .int _ => "int"
  | .real _ => "float"
  | .text _ => "str"
  | .halt _ => "HaltSignal"
  | .stop => "StopSignal"

-- The kind as a sink of bytes tells it.
def kindInBytes : Item → String
  | .null => "None"
  | item => item.kind

end Item

-- The failures that can end a task or reach the engine from outside.
inductive Failure where
  | runtime (text : String)
  | value (text : String)
  | channel (e : ChannelError)
  | brokenPipe
  | transfer
  | unencodable
  | notText (kind : String)
  | notEncodable (kind : String)
  | emptyLimit
  | unimplemented
  deriving DecidableEq, Repr

namespace Failure

def label : Failure → String
  | .runtime _ => "RuntimeError"
  | .value _ => "ValueError"
  | .channel .empty => "Empty"
  | .channel _ => "ChannelClosed"
  | .brokenPipe => "BrokenPipeError"
  | .transfer => "OSError"
  | .unencodable => "UnicodeEncodeError"
  | .notText _ => "TypeError"
  | .notEncodable _ => "TypeError"
  | .emptyLimit => "TypeError"
  | .unimplemented => "NotImplementedError"

def message : Failure → String
  | .runtime text => text
  | .value text => text
  | .channel e => e.message
  | .brokenPipe => "[Errno 32] Broken pipe"
  | .transfer => "[Errno 5] Input/output error"
  | .unencodable => ""
  | .notText kind => s!"string argument expected, got '{kind}'"
  | .notEncodable kind => s!"write() argument must be str, not {kind}"
  | .emptyLimit => "'>=' not supported between instances of 'int' and 'list'"
  | .unimplemented => ""

-- The failure as log lines and reports show it: its label and what it was raised with.
def describe (f : Failure) : String :=
  let content := match f with
    | .brokenPipe => "32, 'Broken pipe'"
    | .transfer => "5, 'Input/output error'"
    | .unimplemented => ""
    | .unencodable => ""
    | .channel .empty => ""
    | _ => Text.quoted f.message
  s!"{f.label}({content})"

end Failure

-- An item as the monitor names it when it passes it over.
def Item.describe : Item → String
  | .null => "None"
  | .bool true => "True"
  | .bool false => "False"
  | .int n => Text.decimal n
  | .real x => x.text
  | .text s => Text.quoted s
  | .halt s => s!"HaltSignal(cycles={Text.decimal s.cycles})"
  | .stop => "StopSignal()"

end WordMachine
