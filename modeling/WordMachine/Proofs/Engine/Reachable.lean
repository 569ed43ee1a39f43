import WordMachine.Proofs.Engine.Loading
import WordMachine.Proofs.Engine.Step

namespace WordMachine.Engine

-- The registers anyone may set. The halt flag is not one of them.
structure Registers where
  ip : Int
  zero : Int
  overflow : Int

def assign (e : Engine) (m : Memory) (r : Registers) : Engine :=
  { e with
    processor :=
      { e.processor with
        memory := m
        flags := { e.processor.flags with zero := r.zero, overflow := r.overflow }
        ip := r.ip } }

-- Its channels are shared with others, who may have put, taken or closed anything.
inductive Reachable : Engine → Prop where
  | created {room : Nat} {size : Int} {e : Engine} (h : create room size = .ok e) : Reachable e
  | loaded {e e' : Engine} {bytes : Bytes} (he : Reachable e) (h : e.load bytes = .ok e') : Reachable e'
  | stepped {e : Engine} (he : Reachable e) : Reachable e.step.1
  | turned {e : Engine} (he : Reachable e) (limit : Option Int) (start : Nat) :
      Reachable (e.turn limit start).1
  | aborted {e : Engine} (he : Reachable e) (x : Failure) : Reachable (e.abort x).1
  | assigned {e : Engine} (he : Reachable e) (m : Memory) (r : Registers)
      (h : m.size = e.processor.memory.size) : Reachable (e.assign m r)
  | exchanged {e : Engine} (he : Reachable e) (output status : Channel Item) :
      Reachable { e with output := output, status := status }

-- The halt signal belongs to halting, and a fault to having halted.
structure Settled (e : Engine) : Prop where
  signalled : e.signalled = e.halted
  fault : e.halted = false → e.fault = none

theorem Settled.of_halted {e : Engine} (hs : e.signalled = true) (hh : e.halted = true) :
    e.Settled where
  signalled := by rw [hs, hh]
  fault := by simp [hh]

theorem Settled.halted_of_fault {e : Engine} (h : e.Settled) {f : Fault} (hf : e.fault = some f) :
    e.halted = true := by
  by_contra hh
  rw [Bool.not_eq_true] at hh
  rw [h.fault hh] at hf
  simp at hf

@[simp]
theorem signalled_signalHalt (e : Engine) : e.signalHalt.1.signalled = true := by
  rw [signalHalt]
  split
  · assumption
  · split <;> rfl

@[simp]
theorem processor_signalHalt (e : Engine) : e.signalHalt.1.processor = e.processor := by
  rw [signalHalt]
  split
  · rfl
  · split <;> rfl

theorem settled_signalHalt {e : Engine} (h : e.halted = true) : e.signalHalt.1.Settled :=
  .of_halted (signalled_signalHalt e) (by simpa [halted] using h)

theorem settled_haltOn (e : Engine) (f : Fault) : (e.haltOn f).1.Settled :=
  settled_signalHalt rfl

theorem settled_abort (e : Engine) (x : Failure) : (e.abort x).1.Settled :=
  settled_signalHalt rfl

theorem eq_ofMemory_of_create {room : Nat} {size : Int} {e : Engine} (h : create room size = .ok e) :
    ∃ m, e = ofMemory m := by
  rw [create] at h
  split at h
  · simp only [Except.ok.injEq] at h
    exact ⟨_, h.symm⟩
  · simp at h

-- Loading changes nothing but the memory.
theorem eq_withMemory_of_load {e e' : Engine} {bytes : Bytes} (h : e.load bytes = .ok e') :
    ∃ m, e' = { e.withMemory m with loaded := true } := by
  obtain ⟨-, -, -, -, m, -, -, he'⟩ := load_eq_ok_iff.mp h
  exact ⟨m, he'⟩

theorem settled_create {room : Nat} {size : Int} {e : Engine} (h : create room size = .ok e) : e.Settled := by
  obtain ⟨m, rfl⟩ := eq_ofMemory_of_create h
  exact ⟨rfl, fun _ => rfl⟩

theorem Settled.load {e e' : Engine} (he : e.Settled) {bytes : Bytes} (h : e.load bytes = .ok e') :
    e'.Settled := by
  obtain ⟨m, rfl⟩ := eq_withMemory_of_load h
  exact ⟨he.signalled, he.fault⟩

theorem Settled.step {e : Engine} (he : e.Settled) : e.step.1.Settled := by
  have hstepped := e.stepped
  generalize e.step = r at hstepped ⊢
  cases hstepped with
  | halted _ => exact he
  | refused _ _ _ _ => exact he
  | stopped hh _ =>
      have hkept : e.stopped.halted = e.halted := e.processor.halt_stopped
      exact ⟨he.signalled.trans hkept.symm, fun _ => he.fault hh⟩
  | unheard hh _ hhalts _ _ => exact .of_halted rfl ((halted_moved hh).trans hhalts)
  | went hh _ _ _ =>
      rw [next]
      split
      · rename_i hmoved
        exact .of_halted (signalled_announced _) (by simpa using hmoved)
      · rename_i hmoved
        simp only [Bool.not_eq_true] at hmoved
        exact ⟨(he.signalled.trans hh).trans hmoved.symm, fun _ => he.fault hh⟩

theorem Settled.turn {e : Engine} (he : e.Settled) (limit : Option Int) (start : Nat) :
    (e.turn limit start).1.Settled := by
  have hstep := he.step
  have hturned := e.turned limit start
  generalize e.turn limit start = r at hturned ⊢
  cases hturned with
  | halted _ => exact he
  | unnamed _ _ _ => exact he
  | limit _ _ _ | stopped _ _ _ =>
      simpa using settled_haltOn _ _
  | failed _ _ hs | went _ _ hs =>
      rw [hs] at hstep
      exact hstep

theorem Reachable.settled {e : Engine} (h : e.Reachable) : e.Settled := by
  induction h with
  | created h => exact settled_create h
  | loaded _ h ih => exact ih.load h
  | stepped _ ih => exact ih.step
  | turned _ limit start ih => exact ih.turn limit start
  | aborted _ x _ => exact settled_abort _ x
  | assigned _ _ _ _ ih => exact ⟨ih.signalled, ih.fault⟩
  | exchanged _ _ _ ih => exact ⟨ih.signalled, ih.fault⟩

theorem Reachable.fault_eq_none {e : Engine} (h : e.Reachable) (hh : e.halted = false) :
    e.fault = none :=
  h.settled.fault hh

theorem Reachable.signalled_eq_false {e : Engine} (h : e.Reachable) (hh : e.halted = false) :
    e.signalled = false :=
  h.settled.signalled.trans hh

end WordMachine.Engine
