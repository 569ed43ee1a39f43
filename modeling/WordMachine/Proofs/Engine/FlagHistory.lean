import WordMachine.Proofs.Engine.Bounds

namespace WordMachine

-- An instruction that was executed, with the memory it was executed on.
structure Execution where
  memory : Memory
  instruction : Instruction

namespace Execution

-- The operations that report on their result.
def reckons (x : Execution) : Bool :=
  match x.instruction with
  | .adi _ _ | .sui _ _ | .mul _ _ | .div _ _ => true
  | _ => false

-- The exact result of the operations whose result may be no word. A quotient always is one.
def result? (x : Execution) : Option Int :=
  match x.instruction with
  | .adi dst imm => some (x.memory.value dst + imm)
  | .sui dst imm => some (x.memory.value dst - imm)
  | .mul dst src => some (x.memory.value dst * x.memory.value src)
  | _ => none

def Overflows (x : Execution) : Prop :=
  ∃ r, x.result? = some r ∧ ¬(0 ≤ r ∧ r < 0x100000000)

def RaisesZero (x : Execution) : Prop :=
  (∃ left right, x.instruction = .cmp left right ∧ x.memory.value left = x.memory.value right) ∨
    ∃ dst imm, x.instruction = .sui dst imm ∧ x.memory.value dst - imm = 0

def LowersZero (x : Execution) : Prop :=
  ∃ left right, x.instruction = .cmp left right ∧ x.memory.value left ≠ x.memory.value right

-- Some execution raised the zero flag, and none behind it lowered it again.
def Raised (xs : List Execution) : Prop :=
  ∃ before x after, xs = before ++ x :: after ∧ x.RaisesZero ∧ ∀ y ∈ after, ¬y.LowersZero

-- The last execution that reckons, if there is one, did not fit its result into a word.
def Overflown (xs : List Execution) : Prop :=
  ∃ x, (xs.filter reckons).getLast? = some x ∧ x.Overflows

theorem overflown_append_of_not_reckons {x : Execution} (h : x.reckons = false) (xs : List Execution) :
    Overflown (xs ++ [x]) ↔ Overflown xs := by
  rw [Overflown, Overflown, List.filter_append, List.filter_singleton, h]
  simp

theorem overflown_append_of_reckons {x : Execution} (h : x.reckons = true) (xs : List Execution) :
    Overflown (xs ++ [x]) ↔ x.Overflows := by
  rw [Overflown, List.filter_append, List.filter_singleton, h]
  simp

theorem raised_append_iff (xs : List Execution) (x : Execution) :
    Raised (xs ++ [x]) ↔ x.RaisesZero ∨ (Raised xs ∧ ¬x.LowersZero) := by
  constructor
  · rintro ⟨before, y, after, hsplit, hy, hafter⟩
    -- The execution that raised the flag is the last one, or stands before it.
    rcases List.eq_nil_or_concat after with rfl | ⟨rest, z, rfl⟩
    · obtain ⟨-, hlast⟩ := List.append_inj' hsplit rfl
      exact .inl ((List.singleton_inj.mp hlast) ▸ hy)
    · rw [List.concat_eq_append, ← List.cons_append, ← List.append_assoc] at hsplit
      obtain ⟨rfl, hlast⟩ := List.append_inj' hsplit rfl
      obtain rfl := List.singleton_inj.mp hlast
      exact .inr ⟨⟨before, y, rest, rfl, hy, fun d hd => hafter d (by simp [hd])⟩, hafter x (by simp)⟩
  · rintro (hx | ⟨⟨before, y, after, rfl, hy, hafter⟩, hx⟩)
    · exact ⟨xs, x, [], rfl, hx, by simp⟩
    · refine ⟨before, y, after ++ [x], by simp, hy, ?_⟩
      intro d hd
      rcases List.mem_append.mp hd with hd | hd
      · exact hafter d hd
      · exact List.mem_singleton.mp hd ▸ hx

end Execution

namespace Change

variable {m : Memory} {flags : Flags} {i : Instruction}

theorem overflow_checked_iff (flags : Flags) (dst result : Int) :
    (checked flags dst result).overflow = 1 ↔ ¬(0 ≤ result ∧ result < 0x100000000) := by
  rw [checked]
  split <;> simp_all

theorem overflow_of_reckons (h : (Execution.mk m i).reckons = true) :
    (of m flags i).overflow = 1 ↔ (Execution.mk m i).Overflows := by
  cases i with
  | eof | mov _ _ | mop _ _ | str _ _ | jmp _ | jz _ | cmp _ _ | prn _ | unknown _ _ =>
      simp [Execution.reckons] at h
  | adi dst imm => simp [of, overflow_checked_iff, Execution.Overflows, Execution.result?]
  | mul dst src =>
      rw [of, overflow_checked_iff]
      simp [Execution.Overflows, Execution.result?]
  | sui dst imm =>
      have hkept : (of m flags (.sui dst imm)).overflow =
          (checked flags dst (m.value dst - imm)).overflow := by
        simp only [of]
        split <;> rfl
      rw [hkept, overflow_checked_iff]
      simp [Execution.Overflows, Execution.result?]
  | div _ _ => simp [of, Execution.Overflows, Execution.result?]

theorem overflow_of_not_reckons (h : (Execution.mk m i).reckons = false) :
    (of m flags i).overflow = flags.overflow := by
  cases i with
  | adi _ _ | sui _ _ | mul _ _ | div _ _ => simp [Execution.reckons] at h
  | _ => rfl

theorem zero_of_raisesZero (h : (Execution.mk m i).RaisesZero) : (of m flags i).zero = 1 := by
  rcases h with ⟨left, right, rfl, heq⟩ | ⟨dst, imm, rfl, hresult⟩
  · exact if_pos heq
  · simp only [of]
    rw [if_pos hresult]

theorem zero_of_lowersZero (h : (Execution.mk m i).LowersZero) : (of m flags i).zero = 0 := by
  obtain ⟨left, right, rfl, hne⟩ := h
  exact if_neg hne

-- A difference below zero does not fit and is not zero, and leaves the flag as all others do.
theorem zero_of_neither (hraises : ¬(Execution.mk m i).RaisesZero)
    (hlowers : ¬(Execution.mk m i).LowersZero) : (of m flags i).zero = flags.zero := by
  cases i with
  | eof | mov _ _ | mop _ _ | str _ _ | jmp _ | jz _ | prn _ | div _ _ | unknown _ _ => rfl
  | adi _ _ | mul _ _ => exact zero_checked _ _ _
  | sui dst imm =>
      have hresult : m.value dst - imm ≠ 0 := fun hzero => hraises (.inr ⟨dst, imm, rfl, hzero⟩)
      simp only [of]
      rw [if_neg hresult, zero_checked]
  | cmp left right =>
      by_cases heq : m.value left = m.value right
      · exact absurd (.inl ⟨left, right, rfl, heq⟩) hraises
      · exact absurd ⟨left, right, rfl, heq⟩ hlowers

end Change

-- What the flags are after these executions, if they were both lowered before.
structure Flags.Follow (xs : List Execution) (flags : Flags) : Prop where
  isBit_overflow : IsBit flags.overflow
  isBit_zero : IsBit flags.zero
  overflow : flags.overflow = 1 ↔ Execution.Overflown xs
  zero : flags.zero = 1 ↔ Execution.Raised xs

theorem Flags.follow_nil {flags : Flags} (hoverflow : flags.overflow = 0) (hzero : flags.zero = 0) :
    flags.Follow [] where
  isBit_overflow := .inl hoverflow
  isBit_zero := .inl hzero
  overflow := by simp [hoverflow, Execution.Overflown]
  zero := by simp [hzero, Execution.Raised]

-- One more execution, and the flags it leaves.
theorem Flags.Follow.append {xs : List Execution} {flags flags' : Flags} (h : flags.Follow xs) {m : Memory}
    {i : Instruction} (hoverflow : flags'.overflow = (Change.of m flags i).overflow)
    (hzero : flags'.zero = (Change.of m flags i).zero) : flags'.Follow (xs ++ [⟨m, i⟩]) where
  isBit_overflow := hoverflow ▸ Change.isBit_overflow h.isBit_overflow m i
  isBit_zero := hzero ▸ Change.isBit_zero h.isBit_zero m i
  overflow := by
    rw [hoverflow]
    cases hreckons : (Execution.mk m i).reckons with
    | true => rw [Execution.overflown_append_of_reckons hreckons, Change.overflow_of_reckons hreckons]
    | false =>
        rw [Execution.overflown_append_of_not_reckons hreckons, Change.overflow_of_not_reckons hreckons,
          h.overflow]
  zero := by
    rw [hzero, Execution.raised_append_iff]
    by_cases hraises : (Execution.mk m i).RaisesZero
    · simp [Change.zero_of_raisesZero hraises, hraises]
    · by_cases hlowers : (Execution.mk m i).LowersZero
      · simp [Change.zero_of_lowersZero hlowers, hraises, hlowers]
      · simp [Change.zero_of_neither hraises hlowers, hraises, hlowers, h.zero]

namespace Engine

-- Steps one after another, all of which succeed, with what they executed. In between, others may have done
-- anything to the memory, the instruction pointer and the channels, but nobody has set a flag.
inductive Steps (e : Engine) : List Execution → Engine → Prop where
  | start : Steps e [] e
  | step {xs : List Execution} {e' e'' : Engine} {i : Instruction} (h : Steps e xs e')
      (hstep : e'.step = (e'', .ok i)) : Steps e (xs ++ [⟨e'.processor.memory, i⟩]) e''
  | assigned {xs : List Execution} {e' : Engine} (h : Steps e xs e') (m : Memory) (ip : Int) :
      Steps e xs (e'.assign m ⟨ip, e'.processor.flags.zero, e'.processor.flags.overflow⟩)
  | exchanged {xs : List Execution} {e' : Engine} (h : Steps e xs e') (output status : Channel Item) :
      Steps e xs { e' with output := output, status := status }

theorem flags_of_step {e e' : Engine} {i : Instruction} (h : e.step = (e', .ok i)) :
    e'.processor.flags.overflow = (Change.of e.processor.memory e.processor.flags i).overflow ∧
      e'.processor.flags.zero = (Change.of e.processor.memory e.processor.flags i).zero := by
  have hstepped := e.stepped
  rw [h] at hstepped
  cases hstepped with
  | went _ _ _ _ =>
      rw [processor_next]
      exact ⟨rfl, rfl⟩

theorem Steps.follow {e e' : Engine} {xs : List Execution} (hstart : e.processor.flags.Follow [])
    (h : e.Steps xs e') : e'.processor.flags.Follow xs := by
  induction h with
  | start => exact hstart
  | step _ hstep ih =>
      obtain ⟨hoverflow, hzero⟩ := flags_of_step hstep
      exact ih.append hoverflow hzero
  | assigned _ _ _ ih => exact ⟨ih.isBit_overflow, ih.isBit_zero, ih.overflow, ih.zero⟩
  | exchanged _ _ _ ih => exact ih

theorem flags_follow_history {size : Nat} {output status : Channel Item} {bytes : Bytes} {e e' : Engine}
    {xs : List Execution} (hload : (fresh size output status).load bytes = .ok e) (h : e.Steps xs e') :
    e'.processor.flags.Follow xs ∧
      ∀ e'' i, e'.step = (e'', .ok i) →
        ¬(Execution.mk e'.processor.memory i).RaisesZero →
        ¬(Execution.mk e'.processor.memory i).LowersZero →
        e''.processor.flags.zero = e'.processor.flags.zero := by
  have hflags : e.processor.flags = {} := by
    obtain ⟨m, rfl⟩ := eq_withMemory_of_load hload
    rfl
  refine ⟨h.follow (Flags.follow_nil (by rw [hflags]) (by rw [hflags])), ?_⟩
  intro e'' i hstep hraises hlowers
  rw [(flags_of_step hstep).2, Change.zero_of_neither hraises hlowers]

-- A machine that multiplies its first word with itself, which is too much, and compares it with itself.
def squaring : Engine :=
  (fresh 2 { name := "output" } { name := "status" }).afterLoad [0x09, 0, 0, 0, 0x07, 0, 0, 0]

theorem flags_follow_history_of_squaring :
    squaring.step.1.step.1.processor.flags.overflow = 1 ∧
      squaring.step.1.step.1.processor.flags.zero = 1 := by
  have hload : (fresh 2 { name := "output" } { name := "status" }).load
      [0x09, 0, 0, 0, 0x07, 0, 0, 0] = .ok squaring := by rfl
  have hmul : squaring.step.2 = .ok (.mul 0 0) := by decide
  have hcmp : squaring.step.1.step.2 = .ok (.cmp 0 0) := by decide
  have hsteps : squaring.Steps
      [⟨squaring.processor.memory, .mul 0 0⟩, ⟨squaring.step.1.processor.memory, .cmp 0 0⟩]
      squaring.step.1.step.1 := .step (.step .start (Prod.ext rfl hmul)) (Prod.ext rfl hcmp)
  obtain ⟨hfollow, -⟩ := flags_follow_history hload hsteps
  refine ⟨hfollow.overflow.mpr ⟨_, rfl, 0x09000000 * 0x09000000, by decide, by decide⟩, ?_⟩
  exact hfollow.zero.mpr ⟨[_], _, [], rfl, .inl ⟨0, 0, rfl, rfl⟩, by simp⟩

end Engine

end WordMachine
