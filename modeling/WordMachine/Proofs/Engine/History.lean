import WordMachine.Proofs.Engine.Run
import WordMachine.Proofs.Engine.Twin

namespace WordMachine

-- An item on its way to a channel of an engine.
inductive Put where
  | output (x : Item)
  | status (x : Item)
  deriving DecidableEq, Repr

namespace Engine

inductive Call where
  | load (bytes : Bytes)
  | step
  | run (limit : Option Int)
  | abort (x : Failure)
  deriving DecidableEq, Repr

-- The engine after a load, also after one that fails.
def afterLoad (e : Engine) (bytes : Bytes) : Engine :=
  match e.load bytes with
  | .ok e' => e'
  | .error _ => e

-- What an engine put on its channels on the way to another. A signal is listed first, so that a text
-- listed before a signal was put before it in any case.
def puts (e e' : Engine) : List Put :=
  (e'.status.items.drop e.status.items.length).map .status ++
    (e'.output.items.drop e.output.items.length).map .output

-- The same for a run, turn by turn.
def turnsPuts (limit : Option Int) (start : Nat) : Nat → Engine → List Put
  | 0, _ => []
  | k + 1, e =>
      e.puts (e.turn limit start).1 ++
        match e.turn limit start with
        | (e', .more) => turnsPuts limit start k e'
        | _ => []

-- A call, what it puts, and the engine it leaves. A run that does not end leaves none.
inductive Called (e : Engine) : Call → List Put → Engine → Prop where
  | load (bytes : Bytes) : Called e (.load bytes) (e.puts (e.afterLoad bytes)) (e.afterLoad bytes)
  | step : Called e .step (e.puts e.step.1) e.step.1
  | run {limit : Option Int} {granted : Nat} {e' : Engine} {r : Except Failure Nat}
      (h : run? limit granted e = some (e', r)) :
      Called e (.run limit) (turnsPuts limit e.processor.cycles granted e) e'
  | abort (x : Failure) : Called e (.abort x) (e.puts (e.abort x).1) (e.abort x).1

inductive History (e : Engine) : List Put → Engine → Prop where
  | start : History e [] e
  | call {ps qs : List Put} {e' e'' : Engine} {c : Call} (h : History e ps e') (hc : e'.Called c qs e'') :
      History e (ps ++ qs) e''

-- An engine as it is made, with a blank memory and channels that were there before it.
def fresh (size : Nat) (output status : Channel Item) : Engine where
  processor := { memory := ⟨Array.replicate size 0⟩ }
  output := output
  status := status

theorem eq_fresh_of_create {room : Nat} {size : Int} {e : Engine} (h : create room size = .ok e) :
    0 < size ∧ e = fresh size.toNat { name := "output" } { name := "status" } := by
  rw [create, Memory.create] at h
  split at h
  · rename_i hcreate
    repeat' split at hcreate
    all_goals simp only [Except.ok.injEq, reduceCtorEq] at hcreate h
    subst hcreate h
    exact ⟨by omega, rfl⟩
  · simp at h

-- A new engine takes every program that fits, and is then blank but for the program.
theorem exists_load_fresh {n : Nat} {ws : List Word} (h : ws.length ≤ n) (output status : Channel Item) :
    ∃ e, (fresh n output status).load (Word.stream ws) = .ok e ∧ e.output = output ∧
      e.status = status ∧ ∀ a : Nat, e.processor.memory.word a = ws.getD a 0 := by
  have hfits : ws.length ≤ (fresh n output status).processor.memory.size := by
    simpa [fresh, Memory.size] using h
  have hwords := Memory.loadWords_eq_ok_iff.mpr ⟨hfits, rfl⟩
  refine ⟨_, load_eq_ok_iff.mpr ⟨rfl, rfl, rfl, ws, _, Word.ofStream_stream ws, hwords, rfl⟩, rfl, rfl, ?_⟩
  intro a
  have hblank : (fresh n output status).processor.memory.word a = 0 := by
    simp only [fresh, Memory.word, Array.getD_eq_getD_getElem?, Array.getElem?_replicate]
    split <;> rfl
  rw [← hblank]
  exact Memory.word_of_loadWords hwords a

theorem settled_fresh (size : Nat) (output status : Channel Item) :
    (fresh size output status).Settled :=
  ⟨rfl, fun _ => rfl⟩

-- What becomes of an engine that runs: texts are put, and behind them a signal if it halts.
inductive Passage (e : Engine) : List Put → Engine → Prop where
  | running {e' : Engine} {texts : List Item} (ho : e'.Open) (hh : e'.halted = false)
      (houtput : e'.output.items = e.output.items ++ texts)
      (hstatus : e'.status.items = e.status.items) : Passage e (texts.map .output) e'
  | halted {e' : Engine} {texts : List Item} (ho : e'.Open) (hh : e'.halted = true)
      (houtput : e'.output.items = e.output.items ++ texts)
      (hstatus : e'.status.items = e.status.items ++ [.halt e'.haltSignal]) :
      Passage e (texts.map .output ++ [.status (.halt e'.haltSignal)]) e'

theorem Passage.refl {e : Engine} (ho : e.Open) (hh : e.halted = false) : Passage e [] e := by
  have htexts : e.output.items = e.output.items ++ [] := (List.append_nil _).symm
  exact .running ho hh htexts rfl

theorem passage_of_running {e e' : Engine} (ho : e'.Open) (hh : e'.halted = false) {texts : List Item}
    (houtput : e'.output.items = e.output.items ++ texts) (hstatus : e'.status.items = e.status.items) :
    Passage e (e.puts e') e' := by
  have hputs : e.puts e' = texts.map .output := by simp [puts, houtput, hstatus]
  rw [hputs]
  exact .running ho hh houtput hstatus

theorem passage_of_halted {e e' : Engine} (ho : e'.Open) (hh : e'.halted = true)
    (houtput : e'.output.items = e.output.items)
    (hstatus : e'.status.items = e.status.items ++ [.halt e'.haltSignal]) :
    Passage e (e.puts e') e' := by
  have hputs : e.puts e' = ([] : List Item).map .output ++ [.status (.halt e'.haltSignal)] := by
    simp [puts, houtput, hstatus]
  rw [hputs]
  exact .halted ho hh (by simpa using houtput) hstatus

theorem Passage.append {e e' e'' : Engine} {ps qs : List Put} (h : Passage e ps e')
    (hh : e'.halted = false) (h' : Passage e' qs e'') : Passage e (ps ++ qs) e'' := by
  cases h with
  | halted _ hhalted => simp [hh] at hhalted
  | running _ _ houtput hstatus =>
      cases h' with
      | running ho' hh' houtput' hstatus' =>
          rw [← List.map_append]
          exact .running ho' hh' (by rw [houtput', houtput, List.append_assoc]) (hstatus'.trans hstatus)
      | halted ho' hh' houtput' hstatus' =>
          rw [← List.append_assoc, ← List.map_append]
          exact .halted ho' hh' (by rw [houtput', houtput, List.append_assoc]) (by rw [hstatus', hstatus])

@[simp]
theorem haltSignal_announced (e : Engine) : e.announced.haltSignal = e.haltSignal := by
  simp [haltSignal]

theorem Open.announced {e : Engine} (h : e.Open) : e.announced.Open :=
  ⟨by simpa using h.1, by simpa using h.2⟩

theorem said_of_not_signalled {e : Engine} (h : e.signalled = false) : e.said = [.halt e.haltSignal] := by
  rw [said, h]
  rfl

-- An engine that has just been halted, with nothing put since, puts its signal.
theorem passage_announced {e m : Engine} (ho : m.Open) (hh : m.halted = true)
    (hsignalled : m.signalled = false) (houtput : m.output = e.output) (hstatus : m.status = e.status) :
    Passage e (e.puts m.announced) m.announced := by
  refine passage_of_halted ho.announced ?_ ?_ ?_
  · simpa using hh
  · simp [houtput]
  · simp [said_of_not_signalled hsignalled, hstatus]

theorem passage_refl {e : Engine} (ho : e.Open) (hh : e.halted = false) : Passage e (e.puts e) e :=
  passage_of_running ho hh (List.append_nil _).symm rfl

theorem passage_stopped {e : Engine} (ho : e.Open) (hh : e.halted = false) :
    Passage e (e.puts e.stopped) e.stopped :=
  passage_of_running ho (e.processor.halt_stopped.trans hh) (List.append_nil _).symm rfl

theorem passage_load {e : Engine} (ho : e.Open) (hh : e.halted = false) (bytes : Bytes) :
    Passage e (e.puts (e.afterLoad bytes)) (e.afterLoad bytes) := by
  rw [afterLoad]
  split
  · rename_i hload
    obtain ⟨m, rfl⟩ := eq_withMemory_of_load hload
    exact passage_of_running ho hh (List.append_nil _).symm rfl
  · exact passage_refl ho hh

section Running

variable {e : Engine} (ho : e.Open) (hh : e.halted = false) (hsignalled : e.signalled = false)

include ho hh hsignalled

-- The end of the program puts no text.
theorem passage_next : Passage e (e.puts e.next) e.next := by
  have hmoved := halted_moved hh
  have houtput : e.moved.output.items = e.output.items ++ e.uttered := items_outputNext e
  have hopen : e.moved.Open := ⟨(closed_outputNext e).trans ho.1, ho.2⟩
  rw [next]
  split
  · rename_i hhalts
    have heof := Change.eq_eof_of_halts (hmoved.symm.trans hhalts)
    have hsilent : e.outputNext = e.output := by
      rw [outputNext, Processor.change, heof]
      rfl
    exact passage_announced hopen hhalts hsignalled hsilent rfl
  · rename_i hruns
    exact passage_of_running hopen (Bool.not_eq_true _ ▸ hruns) houtput rfl

theorem passage_step : Passage e (e.puts e.step.1) e.step.1 := by
  cases hf : e.processor.stop? with
  | some f =>
      rw [step_of_stop hh hf]
      exact passage_stopped ho hh
  | none =>
      rw [step_of_go hh ho.1 ho.2 hf]
      exact passage_next ho hh hsignalled

theorem passage_turn (limit : Option Int) (start : Nat) :
    Passage e (e.puts (e.turn limit start).1) (e.turn limit start).1 := by
  cases hl : limitReached limit start e with
  | some n =>
      cases hf : Fault.stepLimit? n e.processor.ip with
      | some f =>
          rw [turn_of_limit hh ho.2 hl hf]
          exact passage_announced ho rfl hsignalled rfl rfl
      | none =>
          rw [turn_of_unnamed hh hl hf]
          exact passage_refl ho hh
  | none =>
      cases hf : e.processor.stop? with
      | some f =>
          rw [turn_of_stop hh ho.2 hl hf]
          exact passage_announced ho rfl hsignalled rfl rfl
      | none =>
          rw [turn_of_go hh ho.1 ho.2 hl hf]
          exact passage_next ho hh hsignalled

omit hh in
theorem passage_abort (x : Failure) : Passage e (e.puts (e.abort x).1) (e.abort x).1 := by
  have hsignal : (e.abort x).1 = { e with fault := e.fault.or (some (e.abortFault x)) }.setHalt.announced := by
    rw [abort, signalHalt_of_open]
    exact ho.2
  rw [hsignal]
  exact passage_announced ho rfl hsignalled rfl rfl

end Running

-- What an engine that has halted keeps. Only a fault can still be added, and only where there is none.
structure Rests (e e' : Engine) : Prop where
  processor : e'.processor = e.processor
  output : e'.output = e.output
  status : e'.status = e.status
  signalled : e'.signalled = e.signalled
  fault : ∀ f, e.fault = some f → e'.fault = some f

theorem Rests.refl (e : Engine) : e.Rests e :=
  ⟨rfl, rfl, rfl, rfl, fun _ => id⟩

theorem Rests.trans {e e' e'' : Engine} (h : e.Rests e') (h' : e'.Rests e'') : e.Rests e'' where
  processor := h'.processor.trans h.processor
  output := h'.output.trans h.output
  status := h'.status.trans h.status
  signalled := h'.signalled.trans h.signalled
  fault f hf := h'.fault f (h.fault f hf)

theorem Rests.puts_eq {e e' : Engine} (h : e.Rests e') : e.puts e' = [] := by
  simp [puts, h.output, h.status]

theorem Rests.halted_eq {e e' : Engine} (h : e.Rests e') : e'.halted = e.halted := by
  rw [halted, halted, h.processor]

theorem Rests.settled {e e' : Engine} (h : e.Rests e') (hsettled : e.Settled) (hh : e.halted = true) :
    e'.Settled :=
  .of_halted (by rw [h.signalled, hsettled.signalled, hh]) (h.halted_eq.trans hh)

theorem exists_turns_of_run? {limit : Option Int} {granted : Nat} {e e' : Engine}
    {r : Except Failure Nat} (h : run? limit granted e = some (e', r)) :
    ∃ s, turns limit e.processor.cycles granted e = some (e', s) := by
  rw [run?] at h
  split at h
  · simp at h
  · rename_i hturns
    simp only [Option.some.injEq, Prod.mk.injEq] at h
    exact ⟨_, h.1 ▸ hturns⟩
  · rename_i hturns
    simp only [Option.some.injEq, Prod.mk.injEq] at h
    exact ⟨_, h.1 ▸ hturns⟩

section Halted

variable {e : Engine} (hh : e.halted = true)

include hh

theorem exists_error_of_load (bytes : Bytes) : ∃ x, e.load bytes = .error x := by
  rw [load, hh]
  split
  · exact ⟨_, rfl⟩
  · exact ⟨.alreadyStarted, by simp⟩

theorem rests_load (bytes : Bytes) : e.Rests (e.afterLoad bytes) := by
  obtain ⟨x, hx⟩ := exists_error_of_load hh bytes
  rw [afterLoad, hx]
  exact .refl e

theorem rests_abort (hsignalled : e.signalled = true) (x : Failure) : e.Rests (e.abort x).1 := by
  have hflags : e.processor.flags.setHalt = e.processor.flags := by
    have hflag : e.processor.flags.halt = true := hh
    rw [Flags.setHalt, ← hflag]
  have hsignal : (e.abort x).1 = { e with fault := e.fault.or (some (e.abortFault x)) }.setHalt := by
    rw [abort, signalHalt, if_pos]
    exact hsignalled
  rw [hsignal]
  refine ⟨?_, rfl, rfl, rfl, ?_⟩
  · simp only [setHalt, hflags]
  · intro f hf
    simp only [setHalt, hf, Option.some_or]

theorem turns_of_halted {limit : Option Int} {start granted : Nat} {e' : Engine}
    {r : Except Failure Unit} (h : turns limit start granted e = some (e', r)) :
    e' = e ∧ r = .ok () ∧ turnsPuts limit start granted e = [] := by
  cases granted with
  | zero => simp [turns] at h
  | succ k =>
      simp only [turns, turn_of_halted hh, Option.some.injEq, Prod.mk.injEq] at h
      refine ⟨h.1.symm, h.2.symm, ?_⟩
      simp only [turnsPuts, turn_of_halted hh, (Rests.refl e).puts_eq, List.append_nil]

theorem runs_of_halted (limit : Option Int) (r : Engine × Except Failure Nat) :
    e.Runs limit r ↔ r = (e, .ok 0) := by
  have hrun : e.Runs limit (e, .ok 0) :=
    ⟨1, by simp only [run?, turns, turn_of_halted hh, Nat.sub_self]⟩
  constructor
  · intro h
    exact h.unique hrun
  · rintro rfl
    exact hrun

theorem rests_of_called (hsettled : e.Settled) {c : Call} {ps : List Put} {e' : Engine}
    (h : e.Called c ps e') : ps = [] ∧ e.Rests e' := by
  cases h with
  | load bytes => exact ⟨(rests_load hh bytes).puts_eq, rests_load hh bytes⟩
  | step =>
      rw [step_of_halted hh]
      exact ⟨(Rests.refl e).puts_eq, .refl e⟩
  | @run limit granted e' r hrun =>
      obtain ⟨s, hturns⟩ := exists_turns_of_run? hrun
      obtain ⟨rfl, -, hputs⟩ := turns_of_halted hh hturns
      exact ⟨hputs, .refl e'⟩
  | abort x =>
      have hrests := rests_abort hh (hsettled.signalled.trans hh) x
      exact ⟨hrests.puts_eq, hrests⟩

theorem rests_of_history (hsettled : e.Settled) {ps : List Put} {e' : Engine} (h : e.History ps e') :
    ps = [] ∧ e.Rests e' := by
  induction h with
  | start => exact ⟨rfl, .refl e⟩
  | call _ hc ih =>
      obtain ⟨rfl, hrests⟩ := ih
      obtain ⟨rfl, hlast⟩ :=
        rests_of_called (hrests.halted_eq.trans hh) (hrests.settled hsettled hh) hc
      exact ⟨rfl, hrests.trans hlast⟩

end Halted

-- What every turn keeps, a run keeps.
theorem preserved_turns {P : Engine → Prop} {limit : Option Int} {start granted : Nat} {e e' : Engine}
    {r : Except Failure Unit} (hturn : ∀ e, P e → P (e.turn limit start).1)
    (h : turns limit start granted e = some (e', r)) (he : P e) : P e' := by
  induction granted generalizing e with
  | zero => simp [turns] at h
  | succ k ih =>
      have hnext := hturn e he
      simp only [turns] at h
      split at h <;> rename_i ht <;> rw [ht] at hnext
      · exact ih h hnext
      · simp only [Option.some.injEq, Prod.mk.injEq] at h
        exact h.1 ▸ hnext
      · simp only [Option.some.injEq, Prod.mk.injEq] at h
        exact h.1 ▸ hnext

-- What loads, steps, turns and aborts keep, calls keep.
theorem Called.preserved {P : Engine → Prop} (hload : ∀ e bytes, P e → P (e.afterLoad bytes))
    (hstep : ∀ e, P e → P e.step.1) (hturn : ∀ e limit start, P e → P (e.turn limit start).1)
    (habort : ∀ e x, P e → P (e.abort x).1) {e e' : Engine} {c : Call} {ps : List Put}
    (h : e.Called c ps e') (he : P e) : P e' := by
  cases h with
  | load bytes => exact hload e bytes he
  | step => exact hstep e he
  | run hrun =>
      obtain ⟨s, hturns⟩ := exists_turns_of_run? hrun
      exact preserved_turns (fun e => hturn e _ _) hturns he
  | abort x => exact habort e x he

theorem Settled.afterLoad {e : Engine} (he : e.Settled) (bytes : Bytes) : (e.afterLoad bytes).Settled := by
  rw [Engine.afterLoad]
  split
  · rename_i hload
    exact he.load hload
  · exact he

theorem Settled.called {e e' : Engine} (he : e.Settled) {c : Call} {ps : List Put}
    (h : e.Called c ps e') : e'.Settled :=
  h.preserved (fun _ bytes he => he.afterLoad bytes) (fun _ he => he.step)
    (fun _ limit start he => he.turn limit start) (fun e x _ => settled_abort e x) he

theorem Passage.isOpen {e e' : Engine} {ps : List Put} (h : Passage e ps e') : e'.Open := by
  cases h <;> assumption

-- A run goes on from turn to turn until one of them halts the engine, and nothing is put behind that.
theorem passage_turns {limit : Option Int} {start granted : Nat} {e e' : Engine}
    {r : Except Failure Unit} (ho : e.Open) (hsettled : e.Settled) (hh : e.halted = false)
    (h : turns limit start granted e = some (e', r)) :
    Passage e (turnsPuts limit start granted e) e' := by
  induction granted generalizing e with
  | zero => simp [turns] at h
  | succ k ih =>
      have hturn := passage_turn ho hh (hsettled.signalled.trans hh) limit start
      have hnext := hsettled.turn limit start
      simp only [turns] at h
      simp only [turnsPuts]
      split at h <;> rename_i e₁ ht <;> rw [ht] at hturn hnext ⊢
      · cases hh₁ : e₁.halted with
        | false => exact hturn.append hh₁ (ih hturn.isOpen hnext hh₁ h)
        | true =>
            obtain ⟨rfl, -, hputs⟩ := turns_of_halted hh₁ h
            simp only [hputs, List.append_nil]
            exact hturn
      · simp only [Option.some.injEq, Prod.mk.injEq] at h
        simp only [List.append_nil, ← h.1]
        exact hturn
      · simp only [Option.some.injEq, Prod.mk.injEq] at h
        simp only [List.append_nil, ← h.1]
        exact hturn

theorem passage_called {e e' : Engine} (ho : e.Open) (hsettled : e.Settled) (hh : e.halted = false)
    {c : Call} {ps : List Put} (h : e.Called c ps e') : Passage e ps e' := by
  have hsignalled : e.signalled = false := hsettled.signalled.trans hh
  cases h with
  | load bytes => exact passage_load ho hh bytes
  | step => exact passage_step ho hh hsignalled
  | run hrun =>
      obtain ⟨s, hturns⟩ := exists_turns_of_run? hrun
      exact passage_turns ho hsettled hh hturns
  | abort x => exact passage_abort ho hsignalled x

end Engine

end WordMachine
