import WordMachine.Engine.Basic

namespace WordMachine.Engine

open WordMachine.Text (decimal hexadecimal)

def stateName (e : Engine) : String :=
  if e.halted then "halted" else "running"

-- Unknown operations and the fault are reported only where there are any.
def reportLines (e : Engine) : List String :=
  let p := e.processor
  [s!"  IP     = {hexadecimal 6 p.ip}", s!"  FLAGS  = {p.flags.shown}",
    s!"  CYCLES = {decimal p.cycles}", s!"  STATE  = {e.stateName}"] ++
    (if p.anomalies = 0 then [] else [s!"  UNKNOWN OPS = {decimal p.anomalies}"]) ++
    (match e.fault with
      | none => []
      | some f => [s!"  FAULT  = {f.message}"])

def report (e : Engine) : String :=
  "\n".intercalate e.reportLines

end WordMachine.Engine
