import WordMachine.Proofs.Engine.Reachable

namespace WordMachine.Engine

structure Tells (e e' : Engine) : Prop where
  output : e'.output = e.output ∨ ∃ x, e'.output = e.output.pushed x
  status : e'.status = e.status ∨ ∃ signal, e'.status = e.status.pushed (.halt signal)
  heard : e.signalled = false → e'.signalled = true → e'.status.ready = true

variable {e e' : Engine}

theorem tells_of_same (houtput : e'.output = e.output) (hstatus : e'.status = e.status)
    (hsignalled : e'.signalled = e.signalled) : e.Tells e' where
  output := .inl houtput
  status := .inl hstatus
  heard h h' := by
    rw [hsignalled, h] at h'
    simp at h'

-- The signal is on the channel, or the channel is closed.
theorem tells_signalHalt (e : Engine) : e.Tells e.signalHalt.1 := by
  cases hs : e.signalled with
  | true =>
      rw [signalHalt, if_pos hs]
      exact tells_of_same rfl rfl rfl
  | false =>
      rw [signalHalt, if_neg (by rw [hs]; simp)]
      cases hc : e.status.closed with
      | true =>
          simp only [Channel.put, hc, if_true]
          exact ⟨.inl rfl, .inl rfl, fun _ _ => Channel.ready_of_closed hc⟩
      | false =>
          simp only [Channel.put_of_open hc]
          exact ⟨.inl rfl, .inr ⟨_, rfl⟩, fun _ _ => Channel.ready_pushed _ _⟩

theorem tells_haltOn (e : Engine) (f : Fault) : e.Tells (e.haltOn f).1 := by
  have htells := tells_signalHalt { e with fault := some f }.setHalt
  exact ⟨htells.output, htells.status, htells.heard⟩

theorem tells_abort (e : Engine) (x : Failure) : e.Tells (e.abort x).1 := by
  have htells := tells_signalHalt { e with fault := e.fault.or (some (e.abortFault x)) }.setHalt
  exact ⟨htells.output, htells.status, htells.heard⟩

theorem pushed_outputNext (e : Engine) : e.outputNext = e.output ∨ ∃ x, e.outputNext = e.output.pushed x := by
  rw [outputNext]
  split
  · exact .inl rfl
  · exact .inr ⟨_, rfl⟩

theorem tells_announced (e : Engine) (h : e.signalled = true ∨ e.status.closed = false) :
    e.Tells e.announced := by
  have htells := e.tells_signalHalt
  rcases e.signalHalt_cases with ⟨hsignalled, hs, -⟩ | ⟨-, hsignal⟩
  · simp [hsignalled, hs] at h
  · rwa [hsignal] at htells

theorem tells_step (e : Engine) : e.Tells e.step.1 := by
  have hstepped := e.stepped
  generalize e.step = r at hstepped ⊢
  cases hstepped with
  | halted _ => exact tells_of_same rfl rfl rfl
  | stopped _ _ => exact tells_of_same rfl rfl rfl
  | refused _ _ _ _ => exact tells_of_same rfl rfl rfl
  | unheard _ _ _ _ hs => exact ⟨e.pushed_outputNext, .inl rfl, fun _ _ => Channel.ready_of_closed hs⟩
  | went hh _ _ hs =>
      rw [next]
      split
      · rename_i hmoved
        have hheard : e.moved.signalled = true ∨ e.moved.status.closed = false := by
          refine hs.resolve_left ?_
          simp [← halted_moved hh, hmoved]
        have htells := e.moved.tells_announced hheard
        exact ⟨(output_announced e.moved).symm ▸ e.pushed_outputNext, htells.status, htells.heard⟩
      · exact ⟨e.pushed_outputNext, .inl rfl, fun h h' => by simp [moved, h] at h'⟩

theorem tells_turn (e : Engine) (limit : Option Int) (start : Nat) : e.Tells (e.turn limit start).1 := by
  have hstep := e.tells_step
  have hturned := e.turned limit start
  generalize e.turn limit start = r at hturned ⊢
  cases hturned with
  | halted _ => exact tells_of_same rfl rfl rfl
  | unnamed _ _ _ => exact tells_of_same rfl rfl rfl
  | limit _ _ _ =>
      simpa using tells_haltOn e _
  | @stopped f _ _ _ =>
      -- A step that a fault stops has sent nothing, so there is one signal at most.
      have htells := tells_haltOn e.stopped f
      rw [fst_turnOf]
      exact ⟨htells.output, htells.status, htells.heard⟩
  | failed _ _ hs | went _ _ hs =>
      rw [hs] at hstep
      exact hstep

theorem halted_signalHalt (h : e.halted = true) : e.signalHalt.1.halted = true := by
  simpa [halted] using h

theorem halted_abort (e : Engine) (x : Failure) : (e.abort x).1.halted = true :=
  halted_signalHalt rfl

-- A run ends on an engine that has halted.
theorem halted_of_turn {limit : Option Int} {start : Nat} (h : (e.turn limit start).2 = .ended) :
    (e.turn limit start).1.halted = true := by
  have hhaltOn : ∀ (e : Engine) (f : Fault), (turnOf (e.haltOn f)).1.halted = true := by
    intro e f
    rw [fst_turnOf]
    exact halted_signalHalt rfl
  have hturned := e.turned limit start
  generalize e.turn limit start = r at hturned h ⊢
  cases hturned with
  | halted hh => exact hh
  | limit _ _ _ | stopped _ _ _ => exact hhaltOn _ _
  | unnamed _ _ _ | failed _ _ _ | went _ _ _ => simp at h

end WordMachine.Engine
