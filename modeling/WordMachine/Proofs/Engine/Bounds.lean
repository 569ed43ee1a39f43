import WordMachine.Proofs.Engine.History

namespace WordMachine

def Flags.IsBit (v : Int) : Prop :=
  v = 0 ∨ v = 1

theorem Flags.isBit_haltBit (f : Flags) : IsBit f.haltBit := by
  rw [haltBit]
  split
  · exact Or.inr rfl
  · exact Or.inl rfl

namespace Change

open Flags (IsBit)

theorem zero_checked (flags : Flags) (dst result : Int) :
    (checked flags dst result).zero = flags.zero := by
  rw [checked]
  split <;> rfl

theorem isBit_overflow_checked (flags : Flags) (dst result : Int) :
    IsBit (checked flags dst result).overflow := by
  rw [checked]
  split
  · exact Or.inl rfl
  · exact Or.inr rfl

theorem isBit_zero {flags : Flags} (h : IsBit flags.zero) (m : Memory) (i : Instruction) :
    IsBit (of m flags i).zero := by
  cases i with
  | eof | mov _ _ | mop _ _ | str _ _ | jmp _ | jz _ | prn _ | div _ _ | unknown _ _ => exact h
  | adi _ _ | mul _ _ =>
      rw [of, zero_checked]
      exact h
  | sui _ _ =>
      simp only [of]
      split
      · exact Or.inr rfl
      · rw [zero_checked]
        exact h
  | cmp left right =>
      simp only [of]
      split
      · exact Or.inr rfl
      · exact Or.inl rfl

theorem isBit_overflow {flags : Flags} (h : IsBit flags.overflow) (m : Memory) (i : Instruction) :
    IsBit (of m flags i).overflow := by
  cases i with
  | eof | mov _ _ | mop _ _ | str _ _ | jmp _ | jz _ | cmp _ _ | prn _ | unknown _ _ => exact h
  | adi _ _ | mul _ _ => exact isBit_overflow_checked _ _ _
  | sui _ _ =>
      simp only [of]
      split <;> exact isBit_overflow_checked _ _ _
  | div _ _ => exact Or.inl rfl

end Change

-- A processor of a memory of so many words.
structure Processor.Bounded (n : Nat) (p : Processor) : Prop where
  size : p.memory.size = n
  zero : Flags.IsBit p.flags.zero
  overflow : Flags.IsBit p.flags.overflow
  ip : 0 ≤ p.ip ∧ p.ip ≤ max (n : Int) 255

theorem Processor.Bounded.stopped {n : Nat} {p : Processor} (h : p.Bounded n) : p.stopped.Bounded n := by
  obtain ⟨v, hv, hstopped⟩ := p.stopped_eq
  rw [hstopped]
  refine ⟨h.size, h.zero, ?_, h.ip⟩
  rcases hv with rfl | rfl
  · exact Or.inl rfl
  · exact h.overflow

namespace Engine

-- Where there is an instruction to execute, the pointer is inside the memory, so that it goes at most
-- one behind it.
theorem bounded_next {n : Nat} {e : Engine} (h : e.processor.Bounded n) (hh : e.halted = false)
    (hf : e.processor.stop? = none) : e.processor.next.Bounded n where
  size := by simp [h.size]
  zero := Change.isBit_zero h.zero _ _
  overflow := Change.isBit_overflow h.overflow _ _
  ip := by
    have hip := ip_next hh
    have hholds := ((Processor.stop?_eq_none_iff e.processor).mp hf).1
    have hsize := h.size
    obtain ⟨hlow, hhigh⟩ := hholds
    rw [processor_next] at hip
    rw [hip]
    split
    · exact h.ip
    · split
      · rename_i target hj
        have hjump := Change.jump_bounds hj
        omega
      · omega

-- An engine as it may be after a call: with a memory of so many words, halted as signalled, and where a
-- fault was recorded, still at its address.
structure Invariant (n : Nat) (e : Engine) : Prop where
  bounded : e.processor.Bounded n
  settled : e.Settled
  placed : ∀ f, e.fault = some f → f.ip = some e.processor.ip

theorem invariant_of_running {n : Nat} {e : Engine} (hbounded : e.processor.Bounded n)
    (hsettled : e.Settled) (hfault : e.fault = none) : e.Invariant n :=
  ⟨hbounded, hsettled, fun f hf => by simp [hfault] at hf⟩

@[simp]
theorem fault_signalHalt (e : Engine) : e.signalHalt.1.fault = e.fault := by
  rw [signalHalt]
  split
  · rfl
  · split <;> rfl

-- Halting moves nothing.
theorem invariant_signalHalt {n : Nat} {e : Engine} (hbounded : e.processor.Bounded n)
    (hplaced : ∀ f, e.fault = some f → f.ip = some e.processor.ip) :
    e.setHalt.signalHalt.1.Invariant n where
  bounded := by
    rw [processor_signalHalt]
    exact ⟨hbounded.size, hbounded.zero, hbounded.overflow, hbounded.ip⟩
  settled := settled_signalHalt rfl
  placed := by simpa using hplaced

theorem invariant_haltOn {n : Nat} {e : Engine} (h : e.processor.Bounded n) {f : Fault}
    (hf : f.ip = some e.processor.ip) : (e.haltOn f).1.Invariant n := by
  refine invariant_signalHalt h ?_
  intro g hg
  cases hg
  exact hf

theorem Invariant.abort {n : Nat} {e : Engine} (h : e.Invariant n) (x : Failure) :
    (e.abort x).1.Invariant n := by
  refine invariant_signalHalt h.bounded ?_
  intro g hg
  rcases Option.or_eq_some_iff.mp hg with hold | ⟨-, hnew⟩
  · exact h.placed g hold
  · cases hnew
    rfl

theorem Invariant.afterLoad {n : Nat} {e : Engine} (h : e.Invariant n) (bytes : Bytes) :
    (e.afterLoad bytes).Invariant n := by
  rw [Engine.afterLoad]
  split
  · rename_i e' hload
    obtain ⟨m, rfl⟩ := eq_withMemory_of_load hload
    refine ⟨⟨?_, h.bounded.zero, h.bounded.overflow, h.bounded.ip⟩, h.settled.load hload, h.placed⟩
    exact (size_of_load hload).trans h.bounded.size
  · exact h

-- A step that no fault stops goes on or, where the output channel takes no character, changes nothing.
theorem step_of_unstopped {e : Engine} (hh : e.halted = false) (hf : e.processor.stop? = none) :
    e.step.1.fault = e.fault ∧
      (e.step.1.processor = e.processor ∨ e.step.1.processor = e.processor.next) := by
  have hstepped := e.stepped
  generalize e.step = r at hstepped ⊢
  cases hstepped with
  | halted hh' => simp [hh] at hh'
  | stopped _ hf' => simp [hf] at hf'
  | refused _ _ _ _ => exact ⟨rfl, Or.inl rfl⟩
  | unheard _ _ _ _ _ => exact ⟨rfl, Or.inr rfl⟩
  | went _ _ _ _ => exact ⟨fault_next e, Or.inr (processor_next e)⟩

theorem Invariant.step {n : Nat} {e : Engine} (h : e.Invariant n) : e.step.1.Invariant n := by
  cases hh : e.halted with
  | true =>
      rw [step_of_halted hh]
      exact h
  | false =>
      have hfault := h.settled.fault hh
      cases hf : e.processor.stop? with
      | some f =>
          have hsettled := h.settled.step
          rw [step_of_stop hh hf] at hsettled ⊢
          exact invariant_of_running h.bounded.stopped hsettled hfault
      | none =>
          obtain ⟨hkept, hprocessor⟩ := step_of_unstopped hh hf
          refine invariant_of_running ?_ h.settled.step (hkept.trans hfault)
          rcases hprocessor with hsame | hnext
          · rw [hsame]
            exact h.bounded
          · rw [hnext]
            exact bounded_next h.bounded hh hf

theorem Invariant.turn {n : Nat} {e : Engine} (h : e.Invariant n) (limit : Option Int) (start : Nat) :
    (e.turn limit start).1.Invariant n := by
  have hstep := h.step
  have hturned := e.turned limit start
  generalize e.turn limit start = r at hturned ⊢
  cases hturned with
  | halted _ | unnamed _ _ _ => exact h
  | limit _ _ hf =>
      simpa using invariant_haltOn h.bounded (by rw [(Fault.stepLimit?_eq_some_iff.mp hf).2])
  | stopped _ _ hf =>
      rw [fst_turnOf]
      refine invariant_haltOn h.bounded.stopped ?_
      rw [Processor.ip_of_stop? hf, stopped, Processor.ip_stopped]
  | failed _ _ hs | went _ _ hs =>
      rw [hs] at hstep
      exact hstep

theorem Invariant.called {n : Nat} {e e' : Engine} (h : e.Invariant n) {c : Call} {ps : List Put}
    (hc : e.Called c ps e') : e'.Invariant n :=
  hc.preserved (fun _ bytes he => he.afterLoad bytes) (fun _ he => he.step)
    (fun _ limit start he => he.turn limit start) (fun _ x he => he.abort x) h

-- The engines that calls lead to from a new one with so many words. Its channels may be closed when it is
-- made, between two calls, and between two turns of a run.
inductive Operated (n : Nat) : Engine → Prop where
  | fresh (hn : 0 < n) (output status : Channel Item) : Operated n (fresh n output status)
  | called {e e' : Engine} {c : Call} {ps : List Put} (he : Operated n e) (h : e.Called c ps e') :
      Operated n e'
  | turned {e : Engine} (he : Operated n e) (limit : Option Int) (start : Nat) :
      Operated n (e.turn limit start).1
  | outputClosed {e : Engine} (he : Operated n e) : Operated n { e with output := e.output.close }
  | statusClosed {e : Engine} (he : Operated n e) : Operated n { e with status := e.status.close }

theorem invariant_fresh (n : Nat) (output status : Channel Item) :
    (fresh n output status).Invariant n := by
  refine invariant_of_running ⟨?_, Or.inl rfl, Or.inl rfl, ?_⟩ (settled_fresh n output status) rfl
  · exact Array.size_replicate
  · exact ⟨Int.le_refl 0, by simp only [fresh]; omega⟩

theorem Operated.invariant {n : Nat} {e : Engine} (h : Operated n e) : e.Invariant n := by
  induction h with
  | fresh _ output status => exact invariant_fresh n output status
  | called _ hc ih => exact ih.called hc
  | turned _ limit start ih => exact ih.turn limit start
  | outputClosed _ ih => exact ⟨ih.bounded, ⟨ih.settled.signalled, ih.settled.fault⟩, ih.placed⟩
  | statusClosed _ ih => exact ⟨ih.bounded, ⟨ih.settled.signalled, ih.settled.fault⟩, ih.placed⟩

-- All that holds of an engine with so many words.
structure Sound (n : Nat) (e : Engine) : Prop where
  size : e.processor.memory.size = n
  words : ∀ w ∈ e.processor.memory.words, w.toNat < 0x100000000
  halt : Flags.IsBit e.processor.flags.haltBit
  zero : Flags.IsBit e.processor.flags.zero
  overflow : Flags.IsBit e.processor.flags.overflow
  ip : 0 ≤ e.processor.ip ∧ e.processor.ip ≤ max (n : Int) 255
  signalled : e.halted = true ↔ e.signalled = true
  fault : ∀ f, e.fault = some f → e.halted = true ∧ f.ip = some e.processor.ip

theorem sound_of_operated {n : Nat} {e : Engine} (h : Operated n e) : Sound n e := by
  obtain ⟨hbounded, hsettled, hplaced⟩ := h.invariant
  refine ⟨hbounded.size, ?words, Flags.isBit_haltBit _, hbounded.zero, hbounded.overflow, hbounded.ip,
    ?signalled, ?fault⟩
  case words =>
    intro w _
    exact w.toNat_lt
  case signalled => rw [hsettled.signalled]
  case fault =>
    intro f hf
    exact ⟨hsettled.halted_of_fault hf, hplaced f hf⟩

-- A machine of one word that jumps behind it, and halts there although its signal is not taken.
def straying : Engine :=
  (fresh 1 { name := "output" } { name := "status" }).afterLoad [0x05, 200, 0, 0]

def unheard : Engine :=
  { straying with status := straying.status.close }

theorem sound_of_operated_on_unheard :
    ∃ e, unheard.Runs none (e, .error (.channel (.putOnClosed "status"))) ∧ Operated 1 e ∧ e.processor.ip = 200 ∧
      e.fault.isSome = true ∧ Sound 1 e := by
  have hstraying : Operated 1 straying := .called (.fresh Nat.one_pos _ _) (.load _)
  have hrun : unheard.run? none 2 =
      some (((unheard.turn none 0).1.turn none 0).1, .error (.channel (.putOnClosed "status"))) := by rfl
  have hend : Operated 1 ((unheard.turn none 0).1.turn none 0).1 :=
    .called hstraying.statusClosed (.run hrun)
  exact ⟨_, ⟨2, hrun⟩, hend, rfl, rfl, sound_of_operated hend⟩

end Engine

end WordMachine
