import WordMachine.Proofs.Engine.Bounds
import WordMachine.Proofs.Processor.Access

namespace WordMachine

namespace Processor

-- A division that has its divisor, which is not zero, and misses its dividend.
def MissesDividend (p : Processor) : Prop :=
  p.memory.Holds p.ip ∧
    ∃ dst src, p.current = .div dst src ∧ p.memory.Holds src ∧ p.memory.value src ≠ 0 ∧
      ¬p.memory.Holds dst

def overflowCleared (p : Processor) : Processor :=
  { p with flags := { p.flags with overflow := 0 } }

theorem stopped_of_missesDividend {p : Processor} (h : p.MissesDividend) :
    p.stopped = p.overflowCleared := by
  obtain ⟨hip, dst, src, hdiv, hsrc, hnonzero, -⟩ := h
  rw [stopped, if_pos hip, interrupted, hdiv, Instruction.clearsOverflow, if_pos]
  · rfl
  · simp [hsrc, hnonzero]

-- An instruction clears the overflow flag on its way to a fault only as a division with a divisor, and the
-- fault is then the dividend's.
theorem stopped_of_not_missesDividend {p : Processor} {f : Fault} (hf : p.stop? = some f)
    (h : ¬p.MissesDividend) : p.stopped = p := by
  by_cases hip : p.memory.Holds p.ip
  · rw [stopped, if_pos hip, interrupted, if_neg]
    intro hclears
    cases hdiv : p.current with
    | div dst src =>
        simp only [hdiv, Instruction.clearsOverflow, Bool.and_eq_true, decide_eq_true_eq] at hclears
        obtain ⟨hsrc, hnonzero⟩ := hclears
        refine h ⟨hip, dst, src, hdiv, hsrc, hnonzero, fun hdst => ?_⟩
        simp [stop?, hip, hdiv, Instruction.fault?, Memory.firstOutside?_cons,
          Memory.firstOutside?_nil, hsrc, hnonzero, hdst] at hf
    | _ => simp [hdiv, Instruction.clearsOverflow] at hclears
  · rw [stopped, if_neg hip]

end Processor

namespace Engine

theorem faulting_step_keeps {e e' : Engine} {f : Fault} (h : e.step = (e', .error (.fault f))) :
    f.OfInstruction ∧ (¬e.processor.MissesDividend → e' = e) ∧
      (e.processor.MissesDividend → e' = { e with processor := e.processor.overflowCleared }) := by
  obtain ⟨-, hf, rfl⟩ := eq_stopped_of_fault h
  refine ⟨Processor.ofInstruction_of_stop? hf, fun hdividend => ?_, fun hdividend => ?_⟩
  · rw [stopped, Processor.stopped_of_not_missesDividend hf hdividend]
  · rw [stopped, Processor.stopped_of_missesDividend hdividend]

-- A machine of one word that multiplies it with a word that is not there.
def overreaching : Engine :=
  (fresh 1 { name := "output" } { name := "status" }).afterLoad [0x09, 0, 0, 200]

theorem faulting_step_keeps_on_overreaching :
    Operated 1 overreaching ∧
      overreaching.step.2 = .error (.fault ⟨.address 200, some 0⟩) ∧ overreaching.step.1 = overreaching := by
  have hoperated : Operated 1 overreaching := .called (.fresh Nat.one_pos _ _) (.load _)
  have hstep : overreaching.step.2 = .error (.fault ⟨.address 200, some 0⟩) := by decide
  have hmul : overreaching.processor.current = .mul 0 200 := by decide
  have hdividend : ¬overreaching.processor.MissesDividend := by
    rintro ⟨-, dst, src, hdiv, -⟩
    simp [hmul] at hdiv
  exact ⟨hoperated, hstep, (faulting_step_keeps (Prod.ext rfl hstep)).2.1 hdividend⟩

-- A machine whose first instruction overflows and whose second divides a word that is not there.
def undividing : Engine :=
  ((fresh 2 { name := "output" } { name := "status" }).afterLoad
    [0x09, 1, 0, 1, 0x0A, 200, 0, 0]).step.1

theorem faulting_step_clears_overflow :
    ¬∀ (n : Nat) (e e' : Engine) (f : Fault), Operated n e → e.step = (e', .error (.fault f)) →
      e'.processor.flags.overflow = e.processor.flags.overflow := by
  intro hkeeps
  have hload : Operated 2 ((fresh 2 { name := "output" } { name := "status" }).afterLoad
      [0x09, 1, 0, 1, 0x0A, 200, 0, 0]) := .called (.fresh Nat.two_pos _ _) (.load _)
  have hoperated : Operated 2 undividing := .called hload .step
  have hstep : undividing.step.2 = .error (.fault ⟨.address 200, some 1⟩) := by decide
  have hbefore : undividing.processor.flags.overflow = 1 := by decide
  have hafter : undividing.step.1.processor.flags.overflow = 0 := by decide
  have hsame := hkeeps 2 undividing undividing.step.1 _ hoperated (Prod.ext rfl hstep)
  rw [hbefore, hafter] at hsame
  simp at hsame

-- The faults of the next step, as the machine shows them.
structure FaultsAsAccessed (e : Engine) : Prop where
  address : ∀ addr place, e.step.2 = .error (.fault ⟨.address addr, place⟩) ↔
    e.processor.Misses addr ∧ place = some e.processor.ip
  arithmetic : ∀ text place, e.step.2 = .error (.fault ⟨.arithmetic text, place⟩) ↔
    (∃ dst src, e.processor.DividesByZero dst src ∧
      (Fault.divisionByZero dst src).cause = .arithmetic text) ∧ place = some e.processor.ip
  nothingElse : ∀ x, e.step.2 = .error x → ∃ f, x = .fault f ∧ f.OfInstruction
  -- With a word for every byte only a fetch misses, or a pointer that leads behind the end.
  large : 256 ≤ e.processor.memory.size →
    ∀ addr place, e.step.2 = .error (.fault ⟨.address addr, place⟩) →
      (addr = e.processor.ip ∧ (addr < 0 ∨ e.processor.memory.size ≤ addr)) ∨
        (e.processor.memory.Holds e.processor.ip ∧ ∃ dst src, e.processor.current = .mop dst src ∧
          addr = e.processor.memory.value src ∧ e.processor.memory.size ≤ addr)

theorem step_error_iff {e : Engine} (hh : e.halted = false) (ho : e.output.closed = false)
    (hs : e.status.closed = false) (x : StepError) :
    e.step.2 = .error x ↔ ∃ f, e.processor.stop? = some f ∧ x = .fault f := by
  rw [step_of_open hh ho hs]
  cases e.processor.stop? with
  | none => simp
  | some f => simp [eq_comm]

theorem step_address_iff {e : Engine} (hh : e.halted = false) (ho : e.output.closed = false)
    (hs : e.status.closed = false) (addr : Int) (place : Option Int) :
    e.step.2 = .error (.fault ⟨.address addr, place⟩) ↔
      e.processor.Misses addr ∧ place = some e.processor.ip := by
  rw [step_error_iff hh ho hs, ← Processor.stop?_eq_address_iff]
  simp

theorem step_faults_as_accessed {e : Engine} (hh : e.halted = false) (ho : e.output.closed = false)
    (hs : e.status.closed = false) : e.FaultsAsAccessed where
  address := step_address_iff hh ho hs
  arithmetic text place := by
    rw [step_error_iff hh ho hs, ← Processor.stop?_eq_arithmetic_iff]
    simp
  nothingElse x hx := by
    obtain ⟨f, hf, rfl⟩ := (step_error_iff hh ho hs x).mp hx
    exact ⟨f, rfl, Processor.ofInstruction_of_stop? hf⟩
  large hsize addr place hstep := by
    obtain ⟨hmiss, -⟩ := (step_address_iff hh ho hs addr place).mp hstep
    exact hmiss.fetch_or_pointer hsize

-- A machine that divides a word that is not there by zero.
def dividingNothing : Engine :=
  (fresh 2 { name := "output" } { name := "status" }).afterLoad [0x0A, 200, 0, 1]

theorem step_faults_as_accessed_on_dividingNothing :
    ¬dividingNothing.processor.memory.Holds 200 ∧ dividingNothing.FaultsAsAccessed ∧
      ∃ text, dividingNothing.step.2 = .error (.fault ⟨.arithmetic text, some 0⟩) := by
  have hfaults : dividingNothing.FaultsAsAccessed := step_faults_as_accessed rfl rfl rfl
  have hzero : dividingNothing.processor.DividesByZero 200 1 := by
    refine ⟨by decide, by decide, by decide, by decide⟩
  exact ⟨by decide, hfaults, _, (hfaults.arithmetic _ _).mpr ⟨⟨200, 1, hzero, rfl⟩, rfl⟩⟩

end Engine

end WordMachine
