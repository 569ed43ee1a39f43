import WordMachine.Engine.Run
import WordMachine.Proofs.Channel
import WordMachine.Proofs.Processor.Cycle
import WordMachine.Proofs.Text.Digit

namespace WordMachine

namespace Fault

-- What is said of a limit: its decimal text, if that is not too long.
theorem stepLimit?_eq_some_iff {limit ip : Int} {f : Fault} :
    stepLimit? limit ip = some f ↔
      (Nat.toDigits 10 limit.natAbs).length ≤ Text.decimalLimit ∧
        f = ⟨.stepLimit ("Step limit of " ++ toString limit ++ " reached"), some ip⟩ := by
  have htext : s!"Step limit of {Text.decimal limit} reached" = "Step limit of " ++ toString limit ++ " reached" := by
    rw [Text.decimal_eq_toString]
    rfl
  rw [stepLimit?, Text.decimal?]
  split
  · rename_i hle
    simp only [Option.map_some, Option.some.injEq, htext, hle, true_and]
    exact eq_comm
  · rename_i hlt
    simp [hlt]

theorem stepLimit?_eq_none_iff {limit ip : Int} :
    stepLimit? limit ip = none ↔ Text.decimalLimit < (Nat.toDigits 10 limit.natAbs).length := by
  rw [stepLimit?, Option.map_eq_none_iff, Text.decimal?_eq_none_iff]

end Fault

namespace Engine

-- The output channel after the next cycle.
def outputNext (e : Engine) : Channel Item :=
  match e.processor.change.sent with
  | none => e.output
  | some c => e.output.pushed (.text (String.singleton c))

-- The engine after its halt signal, which it sends once.
def announced (e : Engine) : Engine :=
  if e.signalled then e
  else { e with signalled := true, status := e.status.pushed (.halt e.haltSignal) }

def moved (e : Engine) : Engine :=
  { e with processor := e.processor.next, output := e.outputNext }

-- The engine after a step that is not stopped.
def next (e : Engine) : Engine :=
  if e.moved.halted then e.moved.announced else e.moved

-- The engine after a step that is stopped.
def stopped (e : Engine) : Engine :=
  { e with processor := e.processor.stopped }

-- The engine that halts on a fault and says so.
def halting (e : Engine) (f : Fault) : Engine :=
  { e with fault := some f }.setHalt.announced

theorem signalHalt_of_open {e : Engine} (h : e.status.closed = false) :
    e.signalHalt = (e.announced, .ok ()) := by
  rw [signalHalt, announced]
  split
  · rfl
  · rw [Channel.put_of_open h]

theorem haltOn_of_open {e : Engine} (h : e.status.closed = false) (f : Fault) :
    e.haltOn f = (e.halting f, .ok ()) :=
  signalHalt_of_open h

theorem outputAfter_of_open {e : Engine} (h : e.output.closed = false) :
    e.outputAfter e.processor.change.sent = .ok e.outputNext := by
  rw [outputNext]
  cases hs : e.processor.change.sent with
  | none => rfl
  | some c => exact Channel.put_of_open h _

theorem step_of_halted {e : Engine} (h : e.halted = true) : e.step = (e, .error .halted) := by
  rw [step, if_pos h]

theorem step_of_stop {e : Engine} (hh : e.halted = false) {f : Fault}
    (hf : e.processor.stop? = some f) : e.step = (e.stopped, .error (.fault f)) := by
  rw [step, hh, Processor.run_cycle, hf]
  rfl

theorem step_of_go {e : Engine} (hh : e.halted = false) (ho : e.output.closed = false)
    (hs : e.status.closed = false) (hf : e.processor.stop? = none) :
    e.step = (e.next, .ok e.processor.current) := by
  rw [step, hh, Processor.run_cycle, hf]
  simp only [Bool.false_eq_true, if_false, outputAfter_of_open ho]
  change (if e.moved.halted then _ else (e.moved, _)) = _
  rw [next]
  split
  · have hsignal : e.moved.signalHalt = (e.moved.announced, .ok ()) := signalHalt_of_open hs
    simp only [moved] at hsignal
    rw [hsignal]
    rfl
  · rfl

-- What a step can come to, whichever of the channels are closed. A character that is not taken leaves the
-- engine as it was; a signal that is not taken is spent all the same.
inductive Stepped (e : Engine) : Engine × Except StepError Instruction → Prop where
  | halted (hh : e.halted = true) : Stepped e (e, .error .halted)
  | stopped {f : Fault} (hh : e.halted = false) (hf : e.processor.stop? = some f) :
      Stepped e (e.stopped, .error (.fault f))
  | refused {c : Char} (hh : e.halted = false) (hf : e.processor.stop? = none)
      (hsent : e.processor.change.sent = some c) (ho : e.output.closed = true) :
      Stepped e (e, .error (.channel (.putOnClosed e.output.name)))
  | unheard (hh : e.halted = false) (hf : e.processor.stop? = none)
      (hhalts : e.processor.change.halts = true) (hsignalled : e.signalled = false)
      (hs : e.status.closed = true) :
      Stepped e ({ e.moved with signalled := true }, .error (.channel (.putOnClosed e.status.name)))
  | went (hh : e.halted = false) (hf : e.processor.stop? = none)
      (ho : e.processor.change.sent = none ∨ e.output.closed = false)
      (hs : e.processor.change.halts = false ∨ e.signalled = true ∨ e.status.closed = false) :
      Stepped e (e.next, .ok e.processor.current)

theorem halted_moved {e : Engine} (hh : e.halted = false) :
    e.moved.halted = e.processor.change.halts := by
  have hflag : e.processor.flags.halt = false := hh
  simp [moved, halted, hflag]

theorem outputAfter_cases (e : Engine) :
    (∃ c, e.processor.change.sent = some c ∧ e.output.closed = true ∧
      e.outputAfter e.processor.change.sent = .error (.putOnClosed e.output.name)) ∨
    ((e.processor.change.sent = none ∨ e.output.closed = false) ∧
      e.outputAfter e.processor.change.sent = .ok e.outputNext) := by
  cases ho : e.output.closed with
  | false => exact Or.inr ⟨Or.inr rfl, outputAfter_of_open ho⟩
  | true =>
      cases hsent : e.processor.change.sent with
      | none =>
          refine Or.inr ⟨Or.inl rfl, ?_⟩
          rw [outputNext, hsent]
          rfl
      | some c => exact Or.inl ⟨c, rfl, rfl, by simp [outputAfter, Channel.put, ho]⟩

theorem signalHalt_cases (e : Engine) :
    (e.signalled = false ∧ e.status.closed = true ∧
      e.signalHalt = ({ e with signalled := true }, .error (.putOnClosed e.status.name))) ∨
    ((e.signalled = true ∨ e.status.closed = false) ∧ e.signalHalt = (e.announced, .ok ())) := by
  cases hs : e.status.closed with
  | false => exact Or.inr ⟨Or.inr rfl, signalHalt_of_open hs⟩
  | true =>
      cases hsignalled : e.signalled with
      | false => exact Or.inl ⟨rfl, rfl, by simp [signalHalt, hsignalled, Channel.put, hs]⟩
      | true => exact Or.inr ⟨Or.inl rfl, by simp [signalHalt, announced, hsignalled]⟩

theorem stepped (e : Engine) : e.Stepped e.step := by
  cases hh : e.halted with
  | true =>
      rw [step_of_halted hh]
      exact .halted hh
  | false =>
      cases hf : e.processor.stop? with
      | some f =>
          rw [step_of_stop hh hf]
          exact .stopped hh hf
      | none =>
          rw [step, hh, Processor.run_cycle, hf]
          simp only [Bool.false_eq_true, if_false]
          rcases e.outputAfter_cases with ⟨c, hsent, ho, houtput⟩ | ⟨ho, houtput⟩ <;> rw [houtput]
          · exact .refused hh hf hsent ho
          · change e.Stepped (if e.moved.halted then _ else (e.moved, .ok e.processor.current))
            rw [halted_moved hh]
            cases hhalts : e.processor.change.halts with
            | false =>
                have hwent := Stepped.went hh hf ho (Or.inl hhalts)
                rwa [next, if_neg (by simp [halted_moved hh, hhalts])] at hwent
            | true =>
                have hsignal := e.moved.signalHalt_cases
                simp only [moved] at hsignal
                rcases hsignal with ⟨hsignalled, hs, hsignal⟩ | ⟨hs, hsignal⟩ <;> rw [hsignal]
                · exact .unheard hh hf hhalts hsignalled hs
                · have hwent := Stepped.went hh hf ho (Or.inr hs)
                  rwa [next, if_pos (by simp [halted_moved hh, hhalts])] at hwent

-- A step that a fault stops has come no further than the fault.
theorem eq_stopped_of_fault {e e' : Engine} {f : Fault} (h : e.step = (e', .error (.fault f))) :
    e.halted = false ∧ e.processor.stop? = some f ∧ e' = e.stopped := by
  have hstepped := e.stepped
  rw [h] at hstepped
  cases hstepped with
  | stopped hh hf => exact ⟨hh, hf, rfl⟩

-- The step as a whole.
theorem step_of_open {e : Engine} (hh : e.halted = false) (ho : e.output.closed = false)
    (hs : e.status.closed = false) :
    e.step =
      match e.processor.stop? with
      | some f => (e.stopped, .error (.fault f))
      | none => (e.next, .ok e.processor.current) := by
  cases hf : e.processor.stop? with
  | some f => exact step_of_stop hh hf
  | none => exact step_of_go hh ho hs hf

theorem turn_of_halted {e : Engine} (h : e.halted = true) (limit : Option Int) (start : Nat) :
    e.turn limit start = (e, .ended) := by
  rw [turn, if_pos h]

-- What a turn can come to, whichever of the channels are closed.
inductive Turned (limit : Option Int) (start : Nat) (e : Engine) : Engine × Turn → Prop where
  | halted (hh : e.halted = true) : Turned limit start e (e, .ended)
  | limit {n : Int} {f : Fault} (hh : e.halted = false) (hl : limitReached limit start e = some n)
      (hf : Fault.stepLimit? n e.processor.ip = some f) : Turned limit start e (turnOf (e.haltOn f))
  | unnamed {n : Int} (hh : e.halted = false) (hl : limitReached limit start e = some n)
      (hf : Fault.stepLimit? n e.processor.ip = none) :
      Turned limit start e (e, .failed (.value Text.tooLong))
  | stopped {f : Fault} (hh : e.halted = false) (hl : limitReached limit start e = none)
      (hf : e.processor.stop? = some f) : Turned limit start e (turnOf (e.stopped.haltOn f))
  | failed {e' : Engine} {x : ChannelError} (hh : e.halted = false)
      (hl : limitReached limit start e = none) (hs : e.step = (e', .error (.channel x))) :
      Turned limit start e (e', .failed (.channel x))
  | went {e' : Engine} {i : Instruction} (hh : e.halted = false)
      (hl : limitReached limit start e = none) (hs : e.step = (e', .ok i)) :
      Turned limit start e (e', .more)

theorem turned (e : Engine) (limit : Option Int) (start : Nat) :
    e.Turned limit start (e.turn limit start) := by
  cases hh : e.halted with
  | true =>
      rw [turn_of_halted hh]
      exact .halted hh
  | false =>
      rw [turn, hh, if_neg (by simp)]
      cases hl : limitReached limit start e with
      | some n =>
          simp only [limitTurn]
          cases hf : Fault.stepLimit? n e.processor.ip with
          | some f => exact .limit hh hl hf
          | none => exact .unnamed hh hl hf
      | none =>
          have hstepped := e.stepped
          generalize hs : e.step = r at hstepped ⊢
          cases hstepped with
          | halted hh' => simp [hh] at hh'
          | stopped _ hf => exact .stopped hh hl hf
          | refused _ _ _ _ | unheard _ _ _ _ _ => exact .failed hh hl hs
          | went _ _ _ _ => exact .went hh hl hs

@[simp]
theorem fst_turnOf (r : Engine × Except ChannelError Unit) : (turnOf r).1 = r.1 := by
  obtain ⟨e, result⟩ := r
  cases result <;> rfl

theorem turn_eq_of_limit {e : Engine} (hh : e.halted = false) {limit : Option Int} {start : Nat} {n : Int}
    (hl : limitReached limit start e = some n) : e.turn limit start = e.limitTurn n := by
  simp only [turn, hh, Bool.false_eq_true, if_false, hl]

theorem turn_of_limit {e : Engine} (hh : e.halted = false) (hs : e.status.closed = false)
    {limit : Option Int} {start : Nat} {n : Int} (hl : limitReached limit start e = some n) {f : Fault}
    (hf : Fault.stepLimit? n e.processor.ip = some f) :
    e.turn limit start = (e.halting f, .ended) := by
  rw [turn_eq_of_limit hh hl]
  simp only [limitTurn, hf, haltOn_of_open hs, turnOf]

theorem turn_of_unnamed {e : Engine} (hh : e.halted = false) {limit : Option Int} {start : Nat} {n : Int}
    (hl : limitReached limit start e = some n) (hf : Fault.stepLimit? n e.processor.ip = none) :
    e.turn limit start = (e, .failed (.value Text.tooLong)) := by
  rw [turn_eq_of_limit hh hl]
  simp only [limitTurn, hf]

theorem turn_eq_of_stop {e : Engine} (hh : e.halted = false) {limit : Option Int} {start : Nat}
    (hl : limitReached limit start e = none) {f : Fault} (hf : e.processor.stop? = some f) :
    e.turn limit start = turnOf (e.stopped.haltOn f) := by
  simp only [turn, hh, Bool.false_eq_true, if_false, hl, step_of_stop hh hf]

theorem turn_of_stop {e : Engine} (hh : e.halted = false) (hs : e.status.closed = false)
    {limit : Option Int} {start : Nat} (hl : limitReached limit start e = none) {f : Fault}
    (hf : e.processor.stop? = some f) :
    e.turn limit start = (e.stopped.halting f, .ended) := by
  have hstopped : e.stopped.status.closed = false := hs
  rw [turn_eq_of_stop hh hl hf, haltOn_of_open hstopped, turnOf]

theorem turn_of_go {e : Engine} (hh : e.halted = false) (ho : e.output.closed = false)
    (hs : e.status.closed = false) {limit : Option Int} {start : Nat}
    (hl : limitReached limit start e = none) (hf : e.processor.stop? = none) :
    e.turn limit start = (e.next, .more) := by
  simp only [turn, hh, Bool.false_eq_true, if_false, hl, step_of_go hh ho hs hf]

@[simp]
theorem fault_setHalt (e : Engine) : e.setHalt.fault = e.fault := rfl

@[simp]
theorem memory_setHalt (e : Engine) : e.setHalt.processor.memory = e.processor.memory := rfl

@[simp]
theorem ip_setHalt (e : Engine) : e.setHalt.processor.ip = e.processor.ip := rfl

@[simp]
theorem cycles_setHalt (e : Engine) : e.setHalt.processor.cycles = e.processor.cycles := rfl

@[simp]
theorem processor_announced (e : Engine) : e.announced.processor = e.processor := by
  rw [announced]
  split <;> rfl

@[simp]
theorem halted_announced (e : Engine) : e.announced.halted = e.halted := by
  simp [halted]

@[simp]
theorem output_announced (e : Engine) : e.announced.output = e.output := by
  rw [announced]
  split <;> rfl

@[simp]
theorem fault_announced (e : Engine) : e.announced.fault = e.fault := by
  rw [announced]
  split <;> rfl

@[simp]
theorem signalled_announced (e : Engine) : e.announced.signalled = true := by
  rw [announced]
  split
  · assumption
  · rfl

@[simp]
theorem closed_announced (e : Engine) : e.announced.status.closed = e.status.closed := by
  rw [announced]
  split <;> rfl

@[simp]
theorem processor_next (e : Engine) : e.next.processor = e.processor.next := by
  rw [next]
  split
  · exact processor_announced _
  · rfl

theorem halted_next {e : Engine} (hh : e.halted = false) :
    e.next.halted = e.processor.change.halts := by
  rw [halted, processor_next]
  exact halted_moved hh

@[simp]
theorem output_next (e : Engine) : e.next.output = e.outputNext := by
  rw [next]
  split
  · exact output_announced _
  · rfl

@[simp]
theorem fault_next (e : Engine) : e.next.fault = e.fault := by
  rw [next]
  split
  · exact fault_announced _
  · rfl

@[simp]
theorem closed_outputNext (e : Engine) : e.outputNext.closed = e.output.closed := by
  rw [outputNext]
  split <;> rfl

@[simp]
theorem closed_next (e : Engine) : e.next.status.closed = e.status.closed := by
  rw [next]
  split
  · exact closed_announced _
  · rfl

end Engine

end WordMachine
