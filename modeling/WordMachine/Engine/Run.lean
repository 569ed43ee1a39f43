import WordMachine.Engine.Basic

namespace WordMachine

-- How a turn leaves a run.
inductive Turn where
  | more
  | ended
  | failed (x : Failure)
  deriving DecidableEq, Repr

namespace Engine

def turnOf : Engine × Except ChannelError Unit → Engine × Turn
  | (e, .ok ()) => (e, .ended)
  | (e, .error x) => (e, .failed (.channel x))

-- Whether a run that began at a cycle count has used up its limit.
def limitReached (limit : Option Int) (start : Nat) (e : Engine) : Option Int :=
  match limit with
  | none => none
  | some n => if n ≤ (e.processor.cycles : Int) - start then some n else none

-- The turn that finds the limit used up. It halts on the fault that says so, and fails where there is none.
def limitTurn (e : Engine) (n : Int) : Engine × Turn :=
  match Fault.stepLimit? n e.processor.ip with
  | some f => turnOf (e.haltOn f)
  | none => (e, .failed (.value Text.tooLong))

-- One guarded step. Its fault is recorded and ends the run.
def turn (limit : Option Int) (start : Nat) (e : Engine) : Engine × Turn :=
  if e.halted then (e, .ended)
  else
    match limitReached limit start e with
    | some n => e.limitTurn n
    | none =>
        match e.step with
        | (e', .ok _) => (e', .more)
        | (e', .error (.fault f)) => turnOf (e'.haltOn f)
        | (e', .error (.channel x)) => (e', .failed (.channel x))
        | (e', .error .halted) => (e', .ended)

-- Turns until one of them ends the run; no answer if that takes more turns than are granted.
def turns (limit : Option Int) (start : Nat) : Nat → Engine → Option (Engine × Except Failure Unit)
  | 0, _ => none
  | k + 1, e =>
      match e.turn limit start with
      | (e', .more) => turns limit start k e'
      | (e', .ended) => some (e', .ok ())
      | (e', .failed x) => some (e', .error x)

-- A run with the number of cycles it took.
def run? (limit : Option Int) (granted : Nat) (e : Engine) :
    Option (Engine × Except Failure Nat) :=
  match turns limit e.processor.cycles granted e with
  | none => none
  | some (e', .ok ()) => some (e', .ok (e'.processor.cycles - e.processor.cycles))
  | some (e', .error x) => some (e', .error x)

-- As many turns as a limited run can take: its steps and the turn that finds it at its end.
def turnsFor (limit : Int) : Nat :=
  limit.toNat + 2

-- The whole work of the engine task: a run, and an abort if the run fails.
def task? (limit : Option Int) (granted : Nat) (e : Engine) :
    Option (Engine × Except ChannelError Unit) :=
  match run? limit granted e with
  | none => none
  | some (e', .ok _) => some (e', .ok ())
  | some (e', .error x) => some (e'.abort x)

end Engine

end WordMachine
