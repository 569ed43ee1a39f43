import WordMachine.Proofs.Engine.History
import WordMachine.Proofs.Processor.Widening

namespace WordMachine.Engine

-- The engine with so many blank words behind its memory and no other difference.
def widened (e : Engine) (k : Nat) : Engine :=
  e.withMemory (e.processor.memory.widened k)

-- The engine stopped at an address outside its memory.
def Missed (e : Engine) : Prop :=
  ∃ f, e.fault = some f ∧ f.IsMiss

theorem widened_fresh (n k : Nat) (output status : Channel Item) :
    (fresh n output status).widened k = fresh (n + k) output status := by
  have hwords : (Array.replicate n 0 ++ Array.replicate k 0 : Array Word) = Array.replicate (n + k) 0 := by
    simp
  simp only [widened, fresh, withMemory, Memory.widened, hwords]

theorem load_widened {e e' : Engine} {bytes : Bytes} (h : e.load bytes = .ok e') (k : Nat) :
    (e.widened k).load bytes = .ok (e'.widened k) := by
  obtain ⟨hloaded, hcycles, hh, ws, m, hstream, hwords, rfl⟩ := load_eq_ok_iff.mp h
  have hwide : (e.widened k).processor.memory.loadWords ws = .ok (m.widened k) :=
    Memory.loadWords_widened hwords k
  exact load_eq_ok_iff.mpr ⟨hloaded, hcycles, hh, ws, _, hstream, hwide, rfl⟩

theorem announced_widened (e : Engine) (k : Nat) : (e.widened k).announced = e.announced.widened k := by
  have hsignalled : (e.widened k).signalled = e.signalled := rfl
  rw [announced, announced, hsignalled]
  split <;> rfl

theorem next_widened {e : Engine} (h : e.processor.stop? = none) (k : Nat) :
    (e.widened k).next = e.next.widened k := by
  have hprocessor : (e.widened k).processor.next = e.processor.next.widened k :=
    Processor.next_widened h k
  have houtput : (e.widened k).outputNext = e.outputNext := by
    have hchange : (e.widened k).processor.change = e.processor.change :=
      Processor.change_widened e.processor k
    rw [outputNext, outputNext, hchange]
    rfl
  have hmoved : (e.widened k).moved = e.moved.widened k := by
    rw [moved, moved, hprocessor, houtput]
    rfl
  have hhalted : (e.moved.widened k).halted = e.moved.halted := rfl
  rw [next, next, hmoved, hhalted, announced_widened]
  split <;> rfl

theorem halting_widened (e : Engine) (f : Fault) (k : Nat) :
    (e.widened k).halting f = (e.halting f).widened k := by
  rw [halting, halting, ← announced_widened]
  rfl

theorem stopped_widened {e : Engine} (h : e.processor.Fits) (k : Nat) :
    (e.widened k).stopped = e.stopped.widened k := by
  have hprocessor : (e.widened k).processor.stopped = e.processor.stopped.widened k := h.stopped_widened k
  rw [stopped, stopped, hprocessor]
  rfl

section Steps

variable {e e' : Engine} (ho : e.Open) {limit : Option Int} {c : Nat} {a : Except Failure Unit}

include ho

-- Step by step, as long as the steps succeed.
theorem Goes.widened (h : e.Goes c) (k : Nat) :
    (e.widened k).Goes c ∧ (e.widened k).after c = (e.after c).widened k := by
  have hopen : (e.widened k).Open := ho
  induction c with
  | zero => exact ⟨(e.widened k).goes_zero, rfl⟩
  | succ c ih =>
      obtain ⟨hgo, hlast⟩ := (goes_succ_iff e c).mp h
      obtain ⟨hgo', hafter⟩ := ih hgo
      obtain ⟨hh, hf⟩ := (succeeds_iff (hgo.open_after ho)).mp hlast
      have hstop : ((e.widened k).after c).processor.stop? = none := by
        rw [hafter]
        exact ((Processor.fits_of_go hf).stop?_widened k).trans hf
      have hhalted : ((e.widened k).after c).halted = false := by
        rw [hafter]
        exact hh
      have hlast' := (succeeds_iff (hgo'.open_after hopen)).mpr ⟨hhalted, hstop⟩
      have hall := (goes_succ_iff (e.widened k) c).mpr ⟨hgo', hlast'⟩
      refine ⟨hall, ?_⟩
      rw [hall.after_succ hopen, h.after_succ ho, hafter, next_widened hf]

theorem Ends.widened (hgo : e.Goes c) (hends : e.Ends limit c e' a) (hmissed : ¬e'.Missed) (k : Nat) :
    (e.widened k).Ends limit c (e'.widened k) a := by
  obtain ⟨-, hafter⟩ := hgo.widened ho k
  have hip : ((e.widened k).after c).processor.ip = (e.after c).processor.ip := by
    rw [hafter]
    rfl
  cases hends with
  | halted hh =>
      rw [← hafter]
      refine .halted ?_
      rw [hafter]
      exact hh
  | @fault f hh hf hlimit =>
      have hfits : (e.after c).processor.Fits := by
        intro g hg hmiss
        rw [hf, Option.some.injEq] at hg
        subst hg
        exact hmissed ⟨f, fault_halting _ f, hmiss⟩
      rw [← halting_widened, ← stopped_widened hfits, ← hafter]
      refine .fault ?_ ?_ hlimit
      · rw [hafter]
        exact hh
      · rw [hafter]
        exact (hfits.stop?_widened k).trans hf
  | limit hh hn hlimit hf =>
      rw [← halting_widened, ← hafter]
      refine .limit ?_ hn hlimit (hip ▸ hf)
      rw [hafter]
      exact hh
  | unnamed hh hn hlimit hf =>
      rw [← hafter]
      refine .unnamed ?_ hn hlimit (hip ▸ hf)
      rw [hafter]
      exact hh

-- Only a step that misses the memory ends a run in that way.
theorem Ends.missed (hfault : e.fault = none) (hgo : e.Goes c) (hends : e.Ends limit c e' a)
    (hmissed : e'.Missed) :
    a = .ok () ∧
      ∃ f, (e.after c).step.2 = .error (.fault f) ∧ e'.fault = some f ∧ (e.after c).halted = false := by
  obtain ⟨f, hf, addr, haddr⟩ := hmissed
  cases hends with
  | halted _ | unnamed _ _ _ _ => simp [hgo.fault_after ho, hfault] at hf
  | @fault g hh hstop hlimit => exact ⟨rfl, g, by rw [step_of_stop hh hstop], fault_halting _ g, hh⟩
  | limit _ _ _ hlimit =>
      rw [fault_halting, Option.some.injEq] at hf
      subst hf
      obtain ⟨text, hcause⟩ := Fault.cause_of_stepLimit? hlimit
      simp [hcause] at haddr

end Steps

-- The words a program does not need may be there or not. Where they are needed, the run that has them goes
-- on from the step that the run without them could not take.
theorem wider_run_agrees {n m : Nat} (hnm : n ≤ m) {ws : List Word} (hws : ws.length ≤ n)
    {output status : Channel Item} (ho : output.closed = false) (hs : status.closed = false) :
    ∃ small, (fresh n output status).load (Word.stream ws) = .ok small ∧
      (fresh m output status).load (Word.stream ws) = .ok (small.widened (m - n)) ∧
      ∀ limit r, small.Runs limit r → ∃ (e : Engine) (c : Nat),
        (r = (e, .ok c) ∨ (r = (e, .error (.value Text.tooLong)) ∧ e = small.after c)) ∧
        (¬e.Missed → (small.widened (m - n)).Runs limit (e.widened (m - n), r.2)) ∧
        (e.Missed →
          r = (e, .ok c) ∧ e.processor.cycles = c ∧
          (∃ f, (small.after c).step.2 = .error (.fault f) ∧ e.fault = some f) ∧
          (small.widened (m - n)).Goes c ∧
          (small.widened (m - n)).after c = (small.after c).widened (m - n) ∧
          ((small.widened (m - n)).after c).halted = false) := by
  obtain ⟨small, hload, houtput, hstatus, -⟩ := exists_load_fresh hws output status
  have hlarge := load_widened hload (m - n)
  rw [widened_fresh, Nat.add_sub_of_le hnm] at hlarge
  have hopen : small.Open := by
    rw [Open, houtput, hstatus]
    exact ⟨ho, hs⟩
  refine ⟨small, hload, hlarge, fun limit r hruns => ?_⟩
  obtain ⟨e, c, a, rfl, hgo, hwithin, hends⟩ := hruns.exists_ends hopen
  obtain ⟨hgo', hafter⟩ := hgo.widened hopen (m - n)
  refine ⟨e, c, ?answer, ?fits, ?misses⟩
  case answer =>
    cases hends with
    | halted _ | fault _ _ _ | limit _ _ _ _ => exact .inl rfl
    | unnamed _ _ _ _ => exact .inr ⟨rfl, rfl⟩
  case fits =>
    intro hmissed
    have hopen' : (small.widened (m - n)).Open := hopen
    exact (hends.widened hopen hgo hmissed (m - n)).runs hopen' hgo' hwithin
  case misses =>
    intro hmissed
    obtain ⟨-, -, -, _, _, -, -, hsmall⟩ := load_eq_ok_iff.mp hload
    have hfault : small.fault = none := by
      rw [hsmall]
      rfl
    have hcycles : small.processor.cycles = 0 := by
      rw [hsmall]
      rfl
    obtain ⟨rfl, f, hstep, hf, hh⟩ := hends.missed hopen hfault hgo hmissed
    refine ⟨rfl, ?_, ⟨f, hstep, hf⟩, hgo', hafter, ?_⟩
    · rw [hends.cycles_eq, hgo.cycles_after hopen, hcycles, Nat.zero_add]
    · rw [hafter]
      exact hh

-- A program that says a character and then copies the word behind it into its first word. Where there is no
-- such word it comes to one cycle.
def reachingBehind : List Word :=
  [.ofInt 0x08010000, .ofInt 0x01000002]

def reaching : Engine :=
  (fresh 2 { name := "output" } { name := "status" }).afterLoad (Word.stream reachingBehind)

theorem wider_run_agrees_on_reachingBehind :
    ∃ e : Engine, reaching.Runs none (e, .ok 1) ∧ e.fault = some ⟨.address 2, some 1⟩ ∧
      e.Missed ∧ (reaching.widened 1).after 1 = (reaching.after 1).widened 1 ∧
      ((reaching.widened 1).after 1).halted = false := by
  have hload : (fresh 2 { name := "output" } { name := "status" }).load (Word.stream reachingBehind) =
      .ok reaching := by rfl
  have hrun : reaching.run? none 2 = some ((reaching.step.1.turn none 0).1, .ok 1) := by rfl
  obtain ⟨small, hsmall, -, hruns⟩ := @wider_run_agrees 2 3 (by decide) reachingBehind (by decide)
    { name := "output" } { name := "status" } rfl rfl
  rw [hload, Except.ok.injEq] at hsmall
  subst hsmall
  obtain ⟨e, c, hr, -, hmisses⟩ := hruns none _ ⟨2, hrun⟩
  simp only [Prod.mk.injEq, Except.ok.injEq, reduceCtorEq, and_false, false_and, or_false] at hr
  obtain ⟨rfl, rfl⟩ := hr
  have hfault : (reaching.step.1.turn none 0).1.fault = some ⟨.address 2, some 1⟩ := by rfl
  have hmissed : (reaching.step.1.turn none 0).1.Missed := ⟨_, hfault, 2, rfl⟩
  obtain ⟨-, -, -, -, hafter, hgoes⟩ := hmisses hmissed
  exact ⟨_, ⟨2, hrun⟩, hfault, hmissed, hafter, hgoes⟩

end WordMachine.Engine
