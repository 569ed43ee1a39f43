import WordMachine.Proofs.Instruction.Operand
import WordMachine.Proofs.Processor.Cycle

namespace WordMachine

namespace Memory

-- The address is the first of them that is outside the memory.
def Misses (m : Memory) (addrs : List Int) (addr : Int) : Prop :=
  ∃ before after, addrs = before ++ addr :: after ∧ (∀ a ∈ before, m.Holds a) ∧ ¬m.Holds addr

theorem Misses.mem {m : Memory} {addrs : List Int} {addr : Int} (h : m.Misses addrs addr) :
    addr ∈ addrs := by
  obtain ⟨before, after, rfl, -, -⟩ := h
  simp

theorem Misses.not_holds {m : Memory} {addrs : List Int} {addr : Int} (h : m.Misses addrs addr) :
    ¬m.Holds addr := by
  obtain ⟨_, _, _, _, hmiss⟩ := h
  exact hmiss

theorem firstOutside?_eq_some_iff (m : Memory) (addrs : List Int) (addr : Int) :
    m.firstOutside? addrs = some (.outside addr) ↔ m.Misses addrs addr := by
  have hinj : ∀ a : Int, Fault.outside a = Fault.outside addr ↔ a = addr := by simp [Fault.outside]
  simp only [firstOutside?, Option.map_eq_some_iff, hinj, exists_eq_right,
    List.find?_eq_some_iff_append, Misses, Bool.not_eq_true', decide_eq_false_iff_not,
    Bool.not_not, decide_eq_true_eq]
  constructor
  · rintro ⟨hmiss, before, after, hsplit, hbefore⟩
    exact ⟨before, after, hsplit, hbefore, hmiss⟩
  · rintro ⟨before, after, hsplit, hbefore, hmiss⟩
    exact ⟨hmiss, before, after, hsplit, hbefore⟩

end Memory

namespace Instruction

-- The data addresses in the order of the accesses. Dividing by zero, nobody looks for the dividend.
def accesses (m : Memory) : Instruction → List Int
  | .eof | .jmp _ | .jz _ | .unknown _ _ => []
  | .mov dst src => [src, dst]
  | .mop dst src => [src, m.value src, dst]
  | .str dst _ | .adi dst _ | .sui dst _ => [dst]
  | .cmp left right => [left, right]
  | .prn addr => [addr]
  | .mul dst src => [dst, src]
  | .div dst src => if m.value src = 0 then [src] else [src, dst]

-- A division with a divisor that is there and is zero.
def DividesByZero (m : Memory) (i : Instruction) (dst src : Int) : Prop :=
  i = .div dst src ∧ m.Holds src ∧ m.value src = 0

theorem fault?_of_dividesByZero {m : Memory} {i : Instruction} {dst src : Int}
    (h : i.DividesByZero m dst src) :
    i.fault? m = some (.divisionByZero dst src) ∧ m.firstOutside? (i.accesses m) = none := by
  obtain ⟨rfl, hsrc, hzero⟩ := h
  simp [fault?, accesses, Memory.firstOutside?_cons, Memory.firstOutside?_nil, hsrc, hzero]

theorem fault?_of_not_dividesByZero {m : Memory} {i : Instruction}
    (h : ∀ dst src, ¬i.DividesByZero m dst src) : i.fault? m = m.firstOutside? (i.accesses m) := by
  cases i with
  | eof | mov _ _ | mop _ _ | str _ _ | adi _ _ | sui _ _ | jmp _ | jz _ | cmp _ _ | prn _ | mul _ _
  | unknown _ _ => rfl
  | div dst src =>
      simp only [fault?, accesses, Memory.firstOutside?_cons, Memory.firstOutside?_nil]
      by_cases hsrc : m.Holds src
      · have hnonzero : m.value src ≠ 0 := fun hzero => h dst src ⟨rfl, hsrc, hzero⟩
        simp [hsrc, hnonzero, Memory.firstOutside?_cons, Memory.firstOutside?_nil]
      · by_cases hzero : m.value src = 0 <;>
          simp [hsrc, hzero, Memory.firstOutside?_cons]

theorem fault?_eq_outside_iff (m : Memory) (i : Instruction) (addr : Int) :
    i.fault? m = some (.outside addr) ↔ m.Misses (i.accesses m) addr := by
  rw [← Memory.firstOutside?_eq_some_iff]
  by_cases h : ∃ dst src, i.DividesByZero m dst src
  · obtain ⟨dst, src, hzero⟩ := h
    obtain ⟨hfault, hnone⟩ := fault?_of_dividesByZero hzero
    rw [hfault, hnone]
    simp [Fault.divisionByZero, Fault.outside]
  · simp only [not_exists] at h
    rw [fault?_of_not_dividesByZero h]

theorem fault?_eq_arithmetic_iff (m : Memory) (i : Instruction) (text : String) :
    i.fault? m = some ⟨.arithmetic text, none⟩ ↔
      ∃ dst src, i.DividesByZero m dst src ∧ (Fault.divisionByZero dst src).cause = .arithmetic text := by
  by_cases h : ∃ dst src, i.DividesByZero m dst src
  · obtain ⟨dst, src, hzero⟩ := h
    rw [(fault?_of_dividesByZero hzero).1]
    obtain ⟨rfl, hsrc, hvalue⟩ := hzero
    simp [DividesByZero, Fault.divisionByZero, hsrc, hvalue]
  · simp only [not_exists] at h
    rw [fault?_of_not_dividesByZero h]
    constructor
    · intro hfault
      obtain ⟨addr, haddr⟩ := Memory.exists_outside_of_firstOutside? hfault
      simp [Fault.outside] at haddr
    · rintro ⟨dst, src, hzero, -⟩
      exact absurd hzero (h dst src)

-- An access is to an address the instruction names, or to where a pointer leads.
theorem mem_accesses {m : Memory} {i : Instruction} {addr : Int} (h : addr ∈ i.accesses m) :
    (.address, addr) ∈ i.fields ∨ ∃ dst src, i = .mop dst src ∧ addr = m.value src := by
  cases i with
  | eof | jmp _ | jz _ | unknown _ _ => simp [accesses] at h
  | mov _ _ | str _ _ | adi _ _ | sui _ _ | cmp _ _ | prn _ | mul _ _ =>
      simp only [accesses, List.mem_cons, List.not_mem_nil, or_false] at h
      exact Or.inl (by simp [fields, opcode?, Opcode.operandKinds, operands]; tauto)
  | mop dst src =>
      simp only [accesses, List.mem_cons, List.not_mem_nil, or_false] at h
      rcases h with rfl | rfl | rfl
      · exact Or.inl (by simp [fields, opcode?, Opcode.operandKinds, operands])
      · exact Or.inr ⟨dst, src, rfl, rfl⟩
      · exact Or.inl (by simp [fields, opcode?, Opcode.operandKinds, operands])
  | div dst src =>
      have hnamed : addr = src ∨ addr = dst := by
        simp only [accesses] at h
        split at h <;> simp at h <;> tauto
      exact Or.inl (by simp [fields, opcode?, Opcode.operandKinds, operands]; tauto)

-- Only a pointer leads out of a memory that has a word for every byte.
theorem eq_mop_of_misses {m : Memory} (hsize : 256 ≤ m.size) {w : Word} {addr : Int}
    (h : m.Misses ((decode w).accesses m) addr) :
    ∃ dst src, decode w = .mop dst src ∧ addr = m.value src ∧ m.size ≤ addr := by
  rcases mem_accesses h.mem with hfield | ⟨dst, src, hmop, rfl⟩
  · have hbyte := (OperandKind.admits_iff .address addr).mp (admits_fields_decode w _ hfield)
    simp only [OperandKind.limit] at hbyte
    exact absurd ⟨hbyte.1, by omega⟩ h.not_holds
  · refine ⟨dst, src, hmop, rfl, ?_⟩
    by_contra hlt
    exact h.not_holds ⟨m.value_nonneg src, by omega⟩

end Instruction

namespace Processor

-- The address the next cycle misses: where its instruction should be, or the first of the data addresses.
def Misses (p : Processor) (addr : Int) : Prop :=
  (¬p.memory.Holds p.ip ∧ addr = p.ip) ∨
    (p.memory.Holds p.ip ∧ p.memory.Misses (p.current.accesses p.memory) addr)

-- The next cycle comes to a division by zero.
def DividesByZero (p : Processor) (dst src : Int) : Prop :=
  p.memory.Holds p.ip ∧ p.current.DividesByZero p.memory dst src

-- A fault of the fetch or of the instruction, which then learns its place.
theorem stop?_eq_some_iff (p : Processor) (cause : FaultCause) (place : Option Int) :
    p.stop? = some ⟨cause, place⟩ ↔
      ((¬p.memory.Holds p.ip ∧ cause = .address p.ip) ∨
        (p.memory.Holds p.ip ∧ p.current.fault? p.memory = some ⟨cause, none⟩)) ∧
      place = some p.ip := by
  by_cases hip : p.memory.Holds p.ip
  · rw [stop?, if_pos hip]
    cases hf : p.current.fault? p.memory with
    | none => simp [hip]
    | some f =>
        obtain ⟨cause', none'⟩ := f
        obtain rfl : none' = none := Instruction.ip_of_fault? hf
        simp [hip, Fault.placedAt, eq_comm]
  · rw [stop?, if_neg hip]
    simp [hip, Fault.outside, Fault.placedAt, eq_comm]

theorem stop?_eq_address_iff (p : Processor) (addr : Int) (place : Option Int) :
    p.stop? = some ⟨.address addr, place⟩ ↔ p.Misses addr ∧ place = some p.ip := by
  rw [stop?_eq_some_iff, Misses, ← Instruction.fault?_eq_outside_iff, FaultCause.address.injEq]
  rfl

theorem stop?_eq_arithmetic_iff (p : Processor) (text : String) (place : Option Int) :
    p.stop? = some ⟨.arithmetic text, place⟩ ↔
      (∃ dst src, p.DividesByZero dst src ∧ (Fault.divisionByZero dst src).cause = .arithmetic text) ∧
      place = some p.ip := by
  rw [stop?_eq_some_iff, Instruction.fault?_eq_arithmetic_iff]
  simp only [reduceCtorEq, and_false, false_or, DividesByZero, and_assoc, exists_and_left]

-- Of a memory with a word for every byte a cycle misses where its instruction should be, or where a pointer
-- leads behind the end.
theorem Misses.fetch_or_pointer {p : Processor} (hsize : 256 ≤ p.memory.size) {addr : Int}
    (h : p.Misses addr) :
    (addr = p.ip ∧ (addr < 0 ∨ p.memory.size ≤ addr)) ∨
      (p.memory.Holds p.ip ∧ ∃ dst src, p.current = .mop dst src ∧ addr = p.memory.value src ∧
        p.memory.size ≤ addr) := by
  rcases h with ⟨hfetch, rfl⟩ | ⟨hip, hdata⟩
  · refine Or.inl ⟨rfl, ?_⟩
    simp only [Memory.Holds] at hfetch
    omega
  · exact Or.inr ⟨hip, Instruction.eq_mop_of_misses hsize hdata⟩

end Processor

end WordMachine
