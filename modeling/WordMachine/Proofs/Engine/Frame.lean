import WordMachine.Proofs.Engine.History

namespace WordMachine

-- The operations that store something.
def Opcode.stores : Opcode → Bool
  | .mov | .mop | .str | .adi | .sui | .mul | .div => true
  | .eof | .jmp | .jz | .cmp | .prn => false

theorem Memory.word_stored_of_ne {m : Memory} {dst v : Int} (hdst : 0 ≤ dst) {a : Nat} (ha : (a : Int) ≠ dst) :
    (m.stored (some (dst, v))).word a = m.word a := by
  have hne : dst.toNat ≠ a := by omega
  simp [word, stored, hne]

theorem Change.dst_of_stored_checked {flags : Flags} {d result dst v : Int}
    (h : (checked flags d result).stored = some (dst, v)) : d = dst := by
  rw [checked] at h
  split at h
  · exact congrArg Prod.fst (Option.some.inj h)
  · simp at h

-- What is stored goes to the first operand, also where that is read as well.
theorem Change.head?_operands_of_stored {m : Memory} {flags : Flags} {i : Instruction} {dst v : Int}
    (h : (of m flags i).stored = some (dst, v)) :
    (∃ op, i.opcode? = some op ∧ op.stores = true) ∧ i.operands.head? = some dst := by
  have hfirst : ∀ d w : Int, some (d, w) = some (dst, v) → some d = some dst :=
    fun d w heq => congrArg (Option.map Prod.fst) heq
  cases i with
  | eof | jmp _ | jz _ | cmp _ _ | prn _ | unknown _ _ => simp [of] at h
  | mov d _ | mop d _ | str d _ | div d _ => exact ⟨⟨_, rfl, rfl⟩, hfirst d _ h⟩
  | adi d _ | mul d _ => exact ⟨⟨_, rfl, rfl⟩, congrArg some (dst_of_stored_checked h)⟩
  | sui d _ =>
      refine ⟨⟨_, rfl, rfl⟩, congrArg some ?_⟩
      simp only [of] at h
      split at h <;> exact dst_of_stored_checked h

-- The first operand of every operation is the second byte of its word.
theorem Instruction.head?_operands_decode {w : Word} {a : Int} (h : (decode w).operands.head? = some a) :
    a = w.toQuad.second.toNat := by
  rw [decode] at h
  split at h <;> simp only [operands, List.head?_cons, List.head?_nil, Option.some.injEq, reduceCtorEq] at h <;>
    exact h.symm

namespace Processor

-- The word that the next cycle may change.
structure Writes (p : Processor) (a : Nat) : Prop where
  fetched : p.memory.Holds p.ip
  stores : ∃ op, p.current.opcode? = some op ∧ op.stores = true
  destination : a = (p.memory.word p.ip).toQuad.second.toNat

theorem Writes.lt {p : Processor} {a : Nat} (h : p.Writes a) : a < 256 := by
  rw [h.destination]
  exact UInt8.toNat_lt _

@[simp]
theorem memory_stopped (p : Processor) : p.stopped.memory = p.memory := by
  obtain ⟨v, -, hv⟩ := p.stopped_eq
  rw [hv]

theorem writes_of_next {p : Processor} (hf : p.stop? = none) {a : Nat}
    (ha : p.next.memory.word a ≠ p.memory.word a) : p.Writes a := by
  obtain ⟨hip, hfault⟩ := (stop?_eq_none_iff p).mp hf
  rw [memory_next] at ha
  cases hstored : p.change.stored with
  | none => simp [hstored, Memory.stored] at ha
  | some write =>
      obtain ⟨dst, v⟩ := write
      obtain ⟨hstores, hoperand⟩ := Change.head?_operands_of_stored hstored
      have hdst := Instruction.head?_operands_decode hoperand
      have hholds : p.memory.Holds dst := Instruction.holds_of_stored hfault hstored
      refine ⟨hip, hstores, ?_⟩
      by_contra hne
      rw [hstored] at ha
      exact ha (Memory.word_stored_of_ne hholds.1 (by omega))

end Processor

-- Two memories with the same words behind the last address of one byte.
structure Memory.AgreeBehind (m m' : Memory) : Prop where
  size : m'.size = m.size
  word : ∀ a : Nat, 256 ≤ a → m'.word a = m.word a

namespace Engine

-- Where the processor is after a step, whatever the step comes to.
theorem processor_step (e : Engine) :
    e.step.1.processor = e.processor ∨ e.step.1.processor = e.processor.stopped ∨
      (e.processor.stop? = none ∧ e.step.1.processor = e.processor.next) := by
  have hstepped := e.stepped
  generalize e.step = r at hstepped ⊢
  cases hstepped with
  | halted _ | refused _ _ _ _ => exact .inl rfl
  | stopped _ _ => exact .inr (.inl rfl)
  | unheard _ hf _ _ _ => exact .inr (.inr ⟨hf, rfl⟩)
  | went _ hf _ _ => exact .inr (.inr ⟨hf, processor_next e⟩)

@[simp]
theorem size_step (e : Engine) : e.step.1.processor.memory.size = e.processor.memory.size := by
  rcases e.processor_step with h | h | ⟨-, h⟩ <;> simp [h]

theorem writes_of_step {e : Engine} {a : Nat}
    (ha : e.step.1.processor.memory.word a ≠ e.processor.memory.word a) : e.processor.Writes a := by
  rcases e.processor_step with h | h | ⟨hf, h⟩ <;> rw [h] at ha
  · exact absurd rfl ha
  · simp at ha
  · exact Processor.writes_of_next hf ha

-- A turn that takes no step writes nothing, whether or not it halts the engine.
theorem memory_turn (e : Engine) (limit : Option Int) (start : Nat) :
    (e.turn limit start).1.processor.memory = e.processor.memory ∨
      (e.turn limit start).1.processor.memory = e.step.1.processor.memory := by
  have hhaltOn : ∀ (d : Engine) (f : Fault),
      (turnOf (d.haltOn f)).1.processor.memory = d.processor.memory := by
    intro d f
    simp [haltOn]
  have hturned := e.turned limit start
  generalize e.turn limit start = r at hturned ⊢
  cases hturned with
  | halted _ | unnamed _ _ _ => exact .inl rfl
  | limit _ _ _ => exact .inl (hhaltOn _ _)
  | stopped _ _ _ =>
      rw [hhaltOn]
      exact .inl e.processor.memory_stopped
  | failed _ _ hs | went _ _ hs => exact .inr (by rw [hs])

-- The engines that steps and runs lead to; of a run that has not ended, the turns so far. In between,
-- others may have put, taken or closed anything on its channels.
inductive Driven (e : Engine) : Engine → Prop where
  | start : Driven e e
  | stepped {e' : Engine} (h : Driven e e') : Driven e e'.step.1
  | ran {e' e'' : Engine} {limit : Option Int} {granted : Nat} {r : Except Failure Nat}
      (h : Driven e e') (hrun : run? limit granted e' = some (e'', r)) : Driven e e''
  | turned {e' : Engine} (h : Driven e e') (limit : Option Int) (start : Nat) :
      Driven e (e'.turn limit start).1
  | exchanged {e' : Engine} (h : Driven e e') (output status : Channel Item) :
      Driven e { e' with output := output, status := status }

section Behind

variable {m : Memory} {e : Engine} (h : m.AgreeBehind e.processor.memory)

include h

theorem agreeBehind_step : m.AgreeBehind e.step.1.processor.memory where
  size := e.size_step.trans h.size
  word a ha := by
    have hkept : e.step.1.processor.memory.word a = e.processor.memory.word a := by
      by_contra hchanged
      have hlt := (writes_of_step hchanged).lt
      omega
    rw [hkept, h.word a ha]

theorem agreeBehind_turn (limit : Option Int) (start : Nat) :
    m.AgreeBehind (e.turn limit start).1.processor.memory := by
  rcases e.memory_turn limit start with hkept | hstep
  · rwa [hkept]
  · rw [hstep]
    exact agreeBehind_step h

end Behind

theorem Driven.agreeBehind {e e' : Engine} (h : e.Driven e') :
    e.processor.memory.AgreeBehind e'.processor.memory := by
  induction h with
  | start => exact ⟨rfl, fun _ _ => rfl⟩
  | stepped _ ih => exact agreeBehind_step ih
  | ran _ hrun ih =>
      obtain ⟨s, hturns⟩ := exists_turns_of_run? hrun
      exact preserved_turns (P := fun d => e.processor.memory.AgreeBehind d.processor.memory)
        (fun _ hd => agreeBehind_turn hd _ _) hturns ih
  | turned _ limit start ih => exact agreeBehind_turn ih limit start
  | exchanged _ _ _ ih => exact ih

theorem writes_only_destinations :
    (∀ e : Engine, e.step.1.processor.memory.size = e.processor.memory.size ∧
      ∀ a : Nat, e.step.1.processor.memory.word a ≠ e.processor.memory.word a →
        e.processor.Writes a) ∧
    ∀ e e' : Engine, e.Driven e' →
      e'.processor.memory.size = e.processor.memory.size ∧
      ∀ a : Nat, 256 ≤ a → e'.processor.memory.word a = e.processor.memory.word a := by
  refine ⟨fun e => ⟨e.size_step, fun a ha => writes_of_step ha⟩, fun e e' h => ?_⟩
  exact ⟨h.agreeBehind.size, h.agreeBehind.word⟩

-- A machine whose first instruction adds to itself, with a word behind those that can be named.
def selfAdding : Engine :=
  (fresh 257 { name := "output" } { name := "status" }).afterLoad
    (Word.stream ((0x03000001 : Word) :: List.replicate 256 9))

theorem writes_only_destinations_on_selfAdding :
    selfAdding.step.1.processor.memory.word 0 ≠ selfAdding.processor.memory.word 0 ∧
      selfAdding.processor.Writes 0 ∧ selfAdding.processor.memory.word 256 = 9 ∧
      selfAdding.Driven (selfAdding.step.1.turn none 0).1 ∧
      (selfAdding.step.1.turn none 0).1.processor.memory.word 256 = 9 := by
  have hchanged : selfAdding.step.1.processor.memory.word 0 ≠ selfAdding.processor.memory.word 0 := by
    decide +kernel
  have hbehind : selfAdding.processor.memory.word 256 = 9 := by decide +kernel
  have hdriven : selfAdding.Driven (selfAdding.step.1.turn none 0).1 := .turned (.stepped .start) none 0
  have hkept := (writes_only_destinations.2 _ _ hdriven).2 256 (Nat.le_refl 256)
  exact ⟨hchanged, (writes_only_destinations.1 selfAdding).2 0 hchanged, hbehind, hdriven,
    hkept.trans hbehind⟩

end Engine

end WordMachine
