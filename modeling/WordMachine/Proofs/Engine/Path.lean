import Mathlib.Data.ENat.Lattice
import WordMachine.Proofs.Engine.Reachable

namespace WordMachine

namespace Processor

theorem halts_change_iff (p : Processor) : p.change.halts = true ↔ p.current = .eof := by
  constructor
  · exact Change.eq_eof_of_halts
  · intro h
    rw [change, h]
    rfl

end Processor

namespace Engine

def Open (e : Engine) : Prop :=
  e.output.closed = false ∧ e.status.closed = false

def Succeeds (e : Engine) : Prop :=
  ∃ i, e.step.2 = .ok i

-- The engine after a number of calls, those that fail included.
def after (e : Engine) : Nat → Engine
  | 0 => e
  | j + 1 => (e.after j).step.1

-- So many calls succeed in a row.
def Goes (e : Engine) (j : Nat) : Prop :=
  ∀ i < j, (e.after i).Succeeds

open Classical in
-- The number of calls that succeed in a row, infinite where none ever fails.
noncomputable def stepCount (e : Engine) : ℕ∞ :=
  if h : ∃ j, ¬(e.after j).Succeeds then (Nat.find h : ℕ∞) else ⊤

theorem succeeds_iff {e : Engine} (ho : e.Open) :
    e.Succeeds ↔ e.halted = false ∧ e.processor.stop? = none := by
  cases hh : e.halted with
  | true => simp [Succeeds, step_of_halted hh]
  | false =>
      cases hf : e.processor.stop? with
      | some f => simp [Succeeds, step_of_stop hh hf]
      | none => simp [Succeeds, step_of_go hh ho.1 ho.2 hf]

theorem step_of_succeeds {e : Engine} (ho : e.Open) (h : e.Succeeds) :
    e.step = (e.next, .ok e.processor.current) := by
  obtain ⟨hh, hf⟩ := (succeeds_iff ho).mp h
  exact step_of_go hh ho.1 ho.2 hf

theorem stop?_of_step {e : Engine} (ho : e.Open) {f : Fault} (h : e.step.2 = .error (.fault f)) :
    e.processor.stop? = some f := by
  cases hh : e.halted with
  | true => simp [step_of_halted hh] at h
  | false =>
      cases hf : e.processor.stop? with
      | some g => simpa [step_of_stop hh hf] using h
      | none => simp [step_of_go hh ho.1 ho.2 hf] at h

theorem Open.next {e : Engine} (ho : e.Open) : e.next.Open :=
  ⟨by simpa using ho.1, by simpa using ho.2⟩

theorem goes_zero (e : Engine) : e.Goes 0 :=
  fun i hi => absurd hi (Nat.not_lt_zero i)

theorem Goes.mono {e : Engine} {i j : Nat} (h : e.Goes j) (hij : i ≤ j) : e.Goes i :=
  fun k hk => h k (Nat.lt_of_lt_of_le hk hij)

theorem goes_succ_iff (e : Engine) (j : Nat) : e.Goes (j + 1) ↔ e.Goes j ∧ (e.after j).Succeeds := by
  constructor
  · intro h
    exact ⟨h.mono (Nat.le_succ j), h j (Nat.lt_succ_self j)⟩
  · rintro ⟨hgo, hlast⟩ i hi
    rcases Nat.lt_succ_iff_lt_or_eq.mp hi with hlt | rfl
    · exact hgo i hlt
    · exact hlast

theorem Goes.open_after {e : Engine} (ho : e.Open) {j : Nat} (h : e.Goes j) : (e.after j).Open := by
  induction j with
  | zero => exact ho
  | succ j ih =>
      obtain ⟨hgo, hlast⟩ := (goes_succ_iff e j).mp h
      have hopen := ih hgo
      rw [after, step_of_succeeds hopen hlast]
      exact hopen.next

theorem Goes.after_succ {e : Engine} (ho : e.Open) {j : Nat} (h : e.Goes (j + 1)) :
    e.after (j + 1) = (e.after j).next := by
  obtain ⟨hgo, hlast⟩ := (goes_succ_iff e j).mp h
  rw [after, step_of_succeeds (hgo.open_after ho) hlast]

theorem Goes.cycles_after {e : Engine} (ho : e.Open) {j : Nat} (h : e.Goes j) :
    (e.after j).processor.cycles = e.processor.cycles + j := by
  induction j with
  | zero => rfl
  | succ j ih =>
      have hprevious := ih (h.mono (Nat.le_succ j))
      simp [h.after_succ ho, hprevious, Nat.add_assoc]

theorem Goes.fault_after {e : Engine} (ho : e.Open) {j : Nat} (h : e.Goes j) :
    (e.after j).fault = e.fault := by
  induction j with
  | zero => rfl
  | succ j ih =>
      simpa [h.after_succ ho] using ih (h.mono (Nat.le_succ j))

-- A machine that comes to halt in a row of steps has executed the end of the program in the last one.
theorem Goes.halted_after_iff {e : Engine} (ho : e.Open) {j : Nat} (h : e.Goes (j + 1)) :
    (e.after (j + 1)).halted = true ↔ (e.after j).step.2 = .ok .eof := by
  obtain ⟨hgo, hlast⟩ := (goes_succ_iff e j).mp h
  have hopen := hgo.open_after ho
  rw [h.after_succ ho, step_of_succeeds hopen hlast,
    halted_next ((succeeds_iff hopen).mp hlast).1, Processor.halts_change_iff]
  simp

theorem le_stepCount_iff (e : Engine) (j : Nat) : (j : ℕ∞) ≤ e.stepCount ↔ e.Goes j := by
  classical
  rw [stepCount]
  split
  · rename_i h
    rw [Nat.cast_le, Nat.le_find_iff]
    simp only [not_not]
    rfl
  · rename_i h
    simp only [not_exists, not_not] at h
    simp only [le_top, true_iff]
    exact fun i _ => h i

theorem stepCount_eq_iff (e : Engine) (j : Nat) :
    e.stepCount = j ↔ e.Goes j ∧ ¬(e.after j).Succeeds := by
  have hle := e.le_stepCount_iff j
  have hsucc := e.le_stepCount_iff (j + 1)
  rw [goes_succ_iff] at hsucc
  constructor
  · intro h
    rw [h] at hle hsucc
    have hgo := hle.mp le_rfl
    refine ⟨hgo, fun hlast => ?_⟩
    have hbad := hsucc.mpr ⟨hgo, hlast⟩
    rw [Nat.cast_le] at hbad
    omega
  · rintro ⟨hgo, hlast⟩
    refine le_antisymm ?_ (hle.mpr hgo)
    by_contra hlt
    rw [not_le] at hlt
    have hbad := hsucc.mp (by rw [Nat.cast_add, Nat.cast_one]; exact Order.add_one_le_of_lt hlt)
    exact hlast hbad.2

theorem stepCount_eq_top_iff (e : Engine) : e.stepCount = ⊤ ↔ ∀ j, e.Goes j := by
  rw [ENat.eq_top_iff_forall_ge]
  exact forall_congr' e.le_stepCount_iff

end Engine

end WordMachine
