import WordMachine.Proofs.Engine.Reachable
import WordMachine.Proofs.Instruction.Operand

namespace WordMachine

namespace Instruction

theorem operand_bounds (w : Word) : ∀ v ∈ (decode w).operands, 0 ≤ v ∧ v < 0x10000 := by
  intro v hv
  cases hop : (decode w).opcode? with
  | none =>
      cases hd : decode w <;> simp [hd, opcode?] at hop
      simp [hd, operands] at hv
  | some op =>
      rw [← map_snd_fields hop] at hv
      obtain ⟨f, hf, rfl⟩ := List.mem_map.mp hv
      have hadmits := (OperandKind.admits_iff f.1 f.2).mp (admits_fields_decode w f hf)
      have hlimit : f.1.limit < 0x10000 := by
        cases f.1 <;> simp [OperandKind.limit]
      omega

end Instruction

namespace Change

theorem stored_checked {flags : Flags} {dst result d v : Int}
    (h : (checked flags dst result).stored = some (d, v)) : 0 ≤ v ∧ v < 0x100000000 := by
  simp only [checked] at h
  split at h
  · rename_i hr
    simp only [Option.some.injEq, Prod.mk.injEq] at h
    rw [← h.2]
    exact hr
  · simp at h

theorem jump_checked (flags : Flags) (dst result : Int) : (checked flags dst result).jump = none := by
  simp only [checked]
  split <;> rfl

-- What a decoded instruction stores is a word already and is not cut down.
theorem stored_bounds {m : Memory} {flags : Flags} {w : Word} {dst v : Int}
    (h : (of m flags (Instruction.decode w)).stored = some (dst, v)) : 0 ≤ v ∧ v < 0x100000000 := by
  have hoperands := Instruction.operand_bounds w
  generalize Instruction.decode w = i at h hoperands
  cases i with
  | eof | jmp _ | jz _ | cmp _ _ | prn _ | unknown _ _ => simp [of] at h
  | mov _ src =>
      simp only [of, Option.some.injEq, Prod.mk.injEq] at h
      rw [← h.2]
      exact ⟨m.value_nonneg src, m.value_lt src⟩
  | mop _ src =>
      simp only [of, Option.some.injEq, Prod.mk.injEq] at h
      rw [← h.2]
      exact ⟨m.value_nonneg _, m.value_lt _⟩
  | str _ imm =>
      simp only [of, Option.some.injEq, Prod.mk.injEq] at h
      have himm := hoperands imm (by simp [Instruction.operands])
      omega
  | adi _ _ | mul _ _ => exact stored_checked h
  | sui _ _ =>
      simp only [of] at h
      split at h <;> exact stored_checked h
  | div d src =>
      simp only [of, Option.some.injEq, Prod.mk.injEq] at h
      have hnonneg := m.value_nonneg d
      have hlt := m.value_lt d
      have hle := Int.ediv_le_self (m.value src) hnonneg
      have hquotient := Int.ediv_nonneg hnonneg (m.value_nonneg src)
      omega

-- A jump goes to an address that fits into a byte.
theorem jump_bounds {m : Memory} {flags : Flags} {w : Word} {target : Int}
    (h : (of m flags (Instruction.decode w)).jump = some target) : 0 ≤ target ∧ target ≤ 0xFF := by
  have hfields := Instruction.admits_fields_decode w
  generalize Instruction.decode w = i at h hfields
  have haddress : (OperandKind.address, target) ∈ i.fields → 0 ≤ target ∧ target ≤ 0xFF := fun hmem =>
    (OperandKind.admits_iff .address target).mp (hfields _ hmem)
  cases i with
  | eof | mov _ _ | mop _ _ | str _ _ | cmp _ _ | prn _ | div _ _ | unknown _ _ => simp [of] at h
  | adi _ _ | mul _ _ => simp [of, jump_checked] at h
  | sui _ _ =>
      simp only [of] at h
      split at h <;> simp [jump_checked] at h
  | jmp t =>
      simp only [of, Option.some.injEq] at h
      subst h
      exact haddress (List.mem_singleton.mpr rfl)
  | jz t =>
      simp only [of, Option.ite_none_right_eq_some, Option.some.injEq] at h
      obtain ⟨-, rfl⟩ := h
      exact haddress (List.mem_singleton.mpr rfl)

end Change

namespace Engine

-- How an engine differs from the one before it when a change was all that happened. The halt signal
-- has the cycle counted that halts, and goes with no fault.
structure After (e : Engine) (c : Change) (e' : Engine) : Prop where
  size : e'.processor.memory.size = e.processor.memory.size
  value : ∀ a : Nat, e'.processor.memory.value a =
    match c.stored with
    | some (dst, v) => if (a : Int) = dst then v else e.processor.memory.value a
    | none => e.processor.memory.value a
  held : ∀ dst v, c.stored = some (dst, v) → e.processor.memory.Holds dst
  zero : e'.processor.flags.zero = c.zero
  overflow : e'.processor.flags.overflow = c.overflow
  halted : e'.halted = c.halts
  cycles : e'.processor.cycles = e.processor.cycles + 1
  anomalies : e'.processor.anomalies = e.processor.anomalies + if c.unknown then 1 else 0
  ip : e'.processor.ip =
    if c.halts then e.processor.ip
    else
      match c.jump with
      | some target => target
      | none => (e.processor.ip + 1) % 0x100000000
  output : e'.output =
    match c.sent with
    | some ch => e.output.pushed (.text (String.singleton ch))
    | none => e.output
  status : e'.status =
    if c.halts then e.status.pushed (.halt ⟨e.processor.cycles + 1, none⟩) else e.status
  fault : e'.fault = none
  signalled : e'.signalled = c.halts
  loaded : e'.loaded = e.loaded

-- A jump leaves the pointer one before its target, and the cycle moves it on.
theorem ip_next {e : Engine} (hh : e.halted = false) :
    e.next.processor.ip =
      if e.processor.change.halts then e.processor.ip
      else
        match e.processor.change.jump with
        | some target => target
        | none => (e.processor.ip + 1) % 0x100000000 := by
  have hhalt : (e.processor.changed e.processor.change).flags.halt = e.processor.change.halts :=
    halted_moved hh
  rw [processor_next, Processor.next]
  simp only [hhalt]
  simp only [Processor.changed]
  split
  · rename_i heof
    have hjump : e.processor.change.jump = none := by
      rw [Processor.change, Change.eq_eof_of_halts heof]
      rfl
    rw [hjump]
  · cases hj : e.processor.change.jump with
    | none => rfl
    | some target =>
        have hbounds := Change.jump_bounds hj
        simp only []
        omega

theorem value_next {e : Engine} (hf : e.processor.stop? = none) (a : Nat) :
    e.next.processor.memory.value a =
      match e.processor.change.stored with
      | some (dst, v) => if (a : Int) = dst then v else e.processor.memory.value a
      | none => e.processor.memory.value a := by
  rw [processor_next, Processor.memory_next]
  cases hstored : e.processor.change.stored with
  | none => rfl
  | some write =>
      obtain ⟨dst, v⟩ := write
      have hfault := ((Processor.stop?_eq_none_iff e.processor).mp hf).2
      have hbounds := Change.stored_bounds hstored
      exact Memory.value_stored (Instruction.holds_of_stored hfault hstored) hbounds.1 hbounds.2 a

theorem status_next {e : Engine} (hh : e.halted = false) (hs : e.signalled = false)
    (hfault : e.fault = none) :
    e.next.status =
      if e.processor.change.halts then e.status.pushed (.halt ⟨e.processor.cycles + 1, none⟩)
      else e.status := by
  rw [next, halted_moved hh]
  split
  · rw [announced, if_neg (by simpa [moved] using hs)]
    simp [moved, haltSignal, hfault]
  · rfl

theorem signalled_next {e : Engine} (hh : e.halted = false) (hs : e.signalled = false) :
    e.next.signalled = e.processor.change.halts := by
  rw [next, halted_moved hh]
  split
  · rename_i h
    rw [signalled_announced, h]
  · rename_i h
    simp only [Bool.not_eq_true] at h
    exact hs.trans h.symm

@[simp]
theorem loaded_next (e : Engine) : e.next.loaded = e.loaded := by
  rw [next]
  split
  · rw [announced]
    split <;> rfl
  · rfl

theorem after_next {e : Engine} (hreach : e.Reachable) (hh : e.halted = false)
    (hf : e.processor.stop? = none) : e.After e.processor.change e.next where
  size := by simp
  value := value_next hf
  held := fun _ _ hstored =>
    Instruction.holds_of_stored ((Processor.stop?_eq_none_iff e.processor).mp hf).2 hstored
  zero := by rw [processor_next]; rfl
  overflow := by rw [processor_next]; rfl
  halted := halted_next hh
  cycles := by simp
  anomalies := by rw [processor_next]; rfl
  ip := ip_next hh
  output := by
    rw [output_next, outputNext]
    cases e.processor.change.sent <;> rfl
  status := status_next hh (hreach.signalled_eq_false hh) (hreach.fault_eq_none hh)
  fault := (fault_next e).trans (hreach.fault_eq_none hh)
  signalled := signalled_next hh (hreach.signalled_eq_false hh)
  loaded := loaded_next e

theorem step_carries_out_table {e e' : Engine} {i : Instruction} (hreach : e.Reachable)
    (hh : e.halted = false) (ho : e.output.closed = false) (hs : e.status.closed = false)
    (hstep : e.step = (e', .ok i)) :
    e.processor.memory.Holds e.processor.ip ∧
      i = Instruction.decode (e.processor.memory.word e.processor.ip) ∧
      e.After (Change.of e.processor.memory e.processor.flags i) e' := by
  rw [step_of_open hh ho hs] at hstep
  cases hf : e.processor.stop? with
  | some f => simp [hf] at hstep
  | none =>
      simp only [hf, Prod.mk.injEq, Except.ok.injEq] at hstep
      obtain ⟨rfl, rfl⟩ := hstep
      exact ⟨((Processor.stop?_eq_none_iff e.processor).mp hf).1, rfl, after_next hreach hh hf⟩

-- A machine whose first instruction overwrites itself.
def selfOverwriting : Engine :=
  (ofMemory ⟨#[0, 0]⟩).assign ⟨#[.ofInt 0x01000001, .ofInt 9]⟩ ⟨0, 0, 0⟩

theorem reachable_selfOverwriting : selfOverwriting.Reachable :=
  .assigned (.created (show create 2 2 = .ok (ofMemory ⟨#[0, 0]⟩) from rfl)) _ _ rfl

theorem step_carries_out_table_on_itself :
    selfOverwriting.Reachable ∧ selfOverwriting.step.2 = .ok (.mov 0 1) ∧
      selfOverwriting.After
        (Change.of selfOverwriting.processor.memory selfOverwriting.processor.flags (.mov 0 1))
        selfOverwriting.step.1 := by
  have hstep : selfOverwriting.step.2 = .ok (.mov 0 1) := by decide
  exact ⟨reachable_selfOverwriting, hstep,
    (step_carries_out_table reachable_selfOverwriting rfl rfl rfl (Prod.ext rfl hstep)).2.2⟩

end Engine

end WordMachine
