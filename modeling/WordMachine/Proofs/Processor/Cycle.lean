import WordMachine.Proofs.Processor.Table

namespace WordMachine

namespace Fault

-- A fault of the instruction set, as opposed to a limit that was reached or a failure from outside.
def OfInstruction (f : Fault) : Prop :=
  (∃ addr, f.cause = .address addr) ∨ ∃ text, f.cause = .arithmetic text

theorem ofInstruction_outside (addr : Int) : (outside addr).OfInstruction :=
  Or.inl ⟨addr, rfl⟩

theorem ofInstruction_divisionByZero (dst src : Int) : (divisionByZero dst src).OfInstruction :=
  Or.inr ⟨_, rfl⟩

theorem OfInstruction.placedAt {f : Fault} (h : f.OfInstruction) (ip : Int) :
    (f.placedAt ip).OfInstruction :=
  h

theorem cause_of_stepLimit? {limit ip : Int} {f : Fault} (h : stepLimit? limit ip = some f) :
    ∃ text, f.cause = .stepLimit text := by
  obtain ⟨digits, _, rfl⟩ := Option.map_eq_some_iff.mp h
  exact ⟨_, rfl⟩

theorem OfInstruction.ne_stepLimit {f : Fault} (h : f.OfInstruction) (limit ip : Int) :
    stepLimit? limit ip ≠ some f := by
  intro hlimit
  obtain ⟨text, hcause⟩ := cause_of_stepLimit? hlimit
  rcases h with ⟨addr, ha⟩ | ⟨_, ht⟩
  · simp [hcause] at ha
  · simp [hcause] at ht

end Fault

namespace Memory

theorem exists_outside_of_firstOutside? {m : Memory} {addrs : List Int} {f : Fault}
    (h : m.firstOutside? addrs = some f) : ∃ addr, f = .outside addr := by
  obtain ⟨addr, _, rfl⟩ := Option.map_eq_some_iff.mp h
  exact ⟨addr, rfl⟩

theorem holds_of_firstOutside? {m : Memory} {addrs : List Int} (h : m.firstOutside? addrs = none)
    {addr : Int} (ha : addr ∈ addrs) : m.Holds addr := by
  have hall := List.find?_eq_none.mp (Option.map_eq_none_iff.mp h) addr ha
  simpa using hall

end Memory

namespace Instruction

theorem fault?_cases {m : Memory} {i : Instruction} {f : Fault} (h : i.fault? m = some f) :
    (∃ addr, f = .outside addr) ∨ ∃ dst src, f = .divisionByZero dst src := by
  cases i with
  | eof | jmp _ | jz _ | unknown _ _ => simp [fault?] at h
  | mov _ _ | mop _ _ | str _ _ | adi _ _ | sui _ _ | cmp _ _ | prn _ | mul _ _ =>
      exact Or.inl (Memory.exists_outside_of_firstOutside? h)
  | div dst src =>
      simp only [fault?] at h
      split at h
      · rename_i g hg
        simp only [Option.some.injEq] at h
        subst h
        exact Or.inl (Memory.exists_outside_of_firstOutside? hg)
      · split at h
        · simp only [Option.some.injEq] at h
          exact Or.inr ⟨dst, src, h.symm⟩
        · exact Or.inl (Memory.exists_outside_of_firstOutside? h)

theorem ofInstruction_of_fault? {m : Memory} {i : Instruction} {f : Fault}
    (h : i.fault? m = some f) : f.OfInstruction := by
  rcases fault?_cases h with ⟨addr, rfl⟩ | ⟨dst, src, rfl⟩
  · exact Fault.ofInstruction_outside addr
  · exact Fault.ofInstruction_divisionByZero dst src

-- The instruction set does not know where it faults.
theorem ip_of_fault? {m : Memory} {i : Instruction} {f : Fault} (h : i.fault? m = some f) :
    f.ip = none := by
  rcases fault?_cases h with ⟨addr, rfl⟩ | ⟨dst, src, rfl⟩ <;> rfl

-- What an instruction without a fault stores goes into the memory.
theorem holds_of_stored {m : Memory} {flags : Flags} {i : Instruction} {dst v : Int}
    (hfault : i.fault? m = none) (hstored : (Change.of m flags i).stored = some (dst, v)) :
    m.Holds dst := by
  have hchecked : ∀ d r, (Change.checked flags d r).stored = some (dst, v) → d = dst := by
    intro d r hr
    simp only [Change.checked] at hr
    split at hr
    · simp only [Option.some.injEq, Prod.mk.injEq] at hr
      exact hr.1
    · simp at hr
  cases i with
  | eof | jmp _ | jz _ | cmp _ _ | prn _ | unknown _ _ => simp [Change.of] at hstored
  | mov d _ | mop d _ | str d _ =>
      simp only [Change.of, Option.some.injEq, Prod.mk.injEq] at hstored
      exact Memory.holds_of_firstOutside? hfault (by simp [hstored.1])
  | adi d _ | mul d _ =>
      have hd := hchecked _ _ hstored
      exact Memory.holds_of_firstOutside? hfault (by simp [hd])
  | sui d _ =>
      have hd : d = dst := by
        simp only [Change.of] at hstored
        split at hstored <;> exact hchecked _ _ hstored
      exact Memory.holds_of_firstOutside? hfault (by simp [hd])
  | div d src =>
      simp only [Change.of, Option.some.injEq, Prod.mk.injEq] at hstored
      simp only [fault?] at hfault
      split at hfault
      · simp at hfault
      · split at hfault
        · simp at hfault
        · exact Memory.holds_of_firstOutside? hfault (by simp [hstored.1])

end Instruction

namespace Processor

-- The instruction the processor is at.
def current (p : Processor) : Instruction :=
  .decode (p.memory.word p.ip)

def change (p : Processor) : Change :=
  .of p.memory p.flags p.current

-- The fault that stops the next cycle.
def stop? (p : Processor) : Option Fault :=
  if p.memory.Holds p.ip then (p.current.fault? p.memory).map fun f => f.placedAt p.ip
  else some ((Fault.outside p.ip).placedAt p.ip)

-- The processor a stopped cycle leaves.
def stopped (p : Processor) : Processor :=
  if p.memory.Holds p.ip then p.interrupted p.current else p

-- The processor after a cycle that is not stopped.
def next (p : Processor) : Processor :=
  let q := p.changed p.change
  { q with
    cycles := q.cycles + 1
    ip := if q.flags.halt then q.ip else (q.ip + 1) % 0x100000000 }

theorem run_fetchAndExecute {p : Processor} (h : p.memory.Holds p.ip) :
    fetchAndExecute.run p =
      match p.current.fault? p.memory with
      | some f => .error f (p.interrupted p.current)
      | none => .ok ⟨p.current, p.change.sent⟩ (p.changed p.change) := by
  have hfetch : (fetch p.ip).run p = .ok (p.memory.word p.ip) p := by
    rw [run_fetch, Memory.read, if_pos h]
  have hexecute := tabulated p.current p
  rw [Tabulated, current] at hexecute
  simp only [fetchAndExecute, EStateM.run_bind, EStateM.run_get, hfetch, hexecute, current]
  cases (Instruction.decode (p.memory.word p.ip)).fault? p.memory with
  | some f => rfl
  | none => rfl

theorem run_fetchAndExecute_outside {p : Processor} (h : ¬p.memory.Holds p.ip) :
    fetchAndExecute.run p = .error (.outside p.ip) p := by
  have hfetch : (fetch p.ip).run p = .error (.outside p.ip) p := by
    rw [run_fetch, Memory.read, if_neg h]
  rw [fetchAndExecute, EStateM.run_bind, EStateM.run_get]
  simp only [EStateM.run_bind, hfetch]

theorem run_adaptExcept (place : Fault → Fault) (x : Effect Cycle) (p : Processor) :
    (EStateM.adaptExcept place x).run p =
      match x.run p with
      | .ok c q => (.ok c q : EStateM.Result Fault Processor Cycle)
      | .error f q => .error (place f) q := by
  simp only [EStateM.adaptExcept, EStateM.run]
  cases x p <;> rfl

theorem run_cycle (p : Processor) :
    cycle.run p =
      match p.stop? with
      | some f => .error f p.stopped
      | none => .ok ⟨p.current, p.change.sent⟩ p.next := by
  rw [cycle, EStateM.run_bind, EStateM.run_get]
  simp only [EStateM.run_bind, run_adaptExcept]
  by_cases h : p.memory.Holds p.ip
  · rw [run_fetchAndExecute h, stop?, if_pos h, stopped, if_pos h]
    cases p.current.fault? p.memory with
    | some f => rfl
    | none => rfl
  · rw [run_fetchAndExecute_outside h, stop?, if_neg h, stopped, if_neg h]

theorem ofInstruction_of_stop? {p : Processor} {f : Fault} (h : p.stop? = some f) :
    f.OfInstruction := by
  rw [stop?] at h
  split at h
  · obtain ⟨g, hg, rfl⟩ := Option.map_eq_some_iff.mp h
    exact (Instruction.ofInstruction_of_fault? hg).placedAt p.ip
  · simp only [Option.some.injEq] at h
    subst h
    exact (Fault.ofInstruction_outside p.ip).placedAt p.ip

-- A fault that stops a cycle has the address of its instruction.
theorem ip_of_stop? {p : Processor} {f : Fault} (h : p.stop? = some f) : f.ip = some p.ip := by
  rw [stop?] at h
  split at h
  · obtain ⟨g, hg, rfl⟩ := Option.map_eq_some_iff.mp h
    rw [Fault.placedAt, Instruction.ip_of_fault? hg, Option.none_or]
  · simp only [Option.some.injEq] at h
    subst h
    rfl

theorem stop?_eq_none_iff (p : Processor) :
    p.stop? = none ↔ p.memory.Holds p.ip ∧ p.current.fault? p.memory = none := by
  rw [stop?]
  split <;> simp_all

-- A stopped cycle touches nothing but the overflow flag, and can only clear it.
theorem stopped_eq (p : Processor) :
    ∃ v, (v = 0 ∨ v = p.flags.overflow) ∧
      p.stopped = { p with flags := { p.flags with overflow := v } } := by
  rw [stopped]
  split
  · rw [interrupted]
    split
    · exact ⟨0, Or.inl rfl, rfl⟩
    · exact ⟨p.flags.overflow, Or.inr rfl, rfl⟩
  · exact ⟨p.flags.overflow, Or.inr rfl, rfl⟩

@[simp]
theorem halt_stopped (p : Processor) : p.stopped.flags.halt = p.flags.halt := by
  obtain ⟨v, -, hv⟩ := p.stopped_eq
  rw [hv]

@[simp]
theorem cycles_stopped (p : Processor) : p.stopped.cycles = p.cycles := by
  obtain ⟨v, -, hv⟩ := p.stopped_eq
  rw [hv]

@[simp]
theorem ip_stopped (p : Processor) : p.stopped.ip = p.ip := by
  obtain ⟨v, -, hv⟩ := p.stopped_eq
  rw [hv]

@[simp]
theorem cycles_next (p : Processor) : p.next.cycles = p.cycles + 1 :=
  rfl

@[simp]
theorem memory_next (p : Processor) : p.next.memory = p.memory.stored p.change.stored :=
  rfl

@[simp]
theorem halt_next (p : Processor) : p.next.flags.halt = (p.flags.halt || p.change.halts) :=
  rfl

end Processor

end WordMachine
