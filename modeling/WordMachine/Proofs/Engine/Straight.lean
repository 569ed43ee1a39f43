import WordMachine.Proofs.Engine.Bounds
import WordMachine.Proofs.Engine.Frame
import WordMachine.Proofs.Engine.Task

namespace WordMachine

namespace Processor

-- The next instruction is a jump, and one that is taken.
def takesJump (p : Processor) : Bool :=
  match p.current with
  | .jmp _ => true
  | .jz _ => p.flags.zero != 0
  | _ => false

theorem jump_change_of_not_takesJump {p : Processor} (h : p.takesJump = false) : p.change.jump = none := by
  rw [takesJump] at h
  rw [change]
  cases hi : p.current with
  | jmp _ => simp [hi] at h
  | jz _ =>
      have hzero : p.flags.zero = 0 := by simpa [hi] using h
      simp [Change.of, hzero]
  | eof | mov _ _ | mop _ _ | str _ _ | cmp _ _ | prn _ | div _ _ | unknown _ _ => rfl
  | adi _ _ | mul _ _ => exact Change.jump_checked _ _ _
  | sui _ _ =>
      simp only [Change.of]
      split <;> exact Change.jump_checked _ _ _

end Processor

namespace Engine

theorem holds_of_succeeds {e : Engine} (h : e.Succeeds) : e.processor.memory.Holds e.processor.ip :=
  ((Processor.stop?_eq_none_iff _).mp (went_of_succeeds h).2.1).1

@[simp]
theorem size_after (e : Engine) (j : Nat) :
    (e.after j).processor.memory.size = e.processor.memory.size := by
  induction j with
  | zero => rfl
  | succ j ih => exact (e.after j).size_step.trans ih

-- A pointer that holds a word of a memory this small does not wrap around.
theorem ip_step_of_unjumped {e : Engine} (hsize : e.processor.memory.size < 0x100000000) (h : e.Succeeds)
    (hjump : e.processor.takesJump = false) (hrunning : e.step.1.halted = false) :
    e.step.1.processor.ip = e.processor.ip + 1 := by
  obtain ⟨hh, -, -, -, hstep⟩ := went_of_succeeds h
  obtain ⟨hnonneg, hlt⟩ := holds_of_succeeds h
  have hhalts : e.processor.change.halts = false := by
    rwa [hstep, halted_next hh] at hrunning
  rw [hstep, ip_next hh, hhalts, Processor.jump_change_of_not_takesJump hjump]
  exact Int.emod_eq_of_lt (by omega) (by omega)

-- So many steps that succeed, and none of them jumps.
structure GoesStraight (e : Engine) (m : Nat) : Prop where
  goes : e.Goes m
  unjumped : ∀ i < m, (e.after i).processor.takesJump = false

section Straight

variable {e : Engine} (hsize : e.processor.memory.size < 0x100000000) {m : Nat} (h : e.GoesStraight m)

include hsize h

theorem GoesStraight.ip_after {j : Nat} (hj : j ≤ m) (hrunning : (e.after j).halted = false) :
    (e.after j).processor.ip = e.processor.ip + j := by
  induction j with
  | zero => simp [after]
  | succ j ih =>
      have hsucceeds := h.goes j hj
      have hip := ih (by omega) (went_of_succeeds hsucceeds).1
      have hsize' : (e.after j).processor.memory.size < 0x100000000 := by rwa [size_after]
      rw [after, ip_step_of_unjumped hsize' hsucceeds (h.unjumped j hj) hrunning, hip]
      omega

-- The next instruction is there to be executed, so there was room for all of them and for it.
theorem GoesStraight.lt_size {j : Nat} (hj : j ≤ m) (hrunning : (e.after j).halted = false)
    (hholds : (e.after j).processor.memory.Holds (e.after j).processor.ip) :
    e.processor.ip + j < e.processor.memory.size := by
  obtain ⟨-, hlt⟩ := hholds
  rwa [h.ip_after hsize hj hrunning, size_after] at hlt

theorem GoesStraight.le_size (hm : 1 ≤ m) : e.processor.ip + m ≤ e.processor.memory.size := by
  obtain ⟨j, rfl⟩ : ∃ j, m = j + 1 := ⟨m - 1, by omega⟩
  have hsucceeds := h.goes j (Nat.lt_succ_self j)
  have hlt := h.lt_size hsize (Nat.le_succ j) (went_of_succeeds hsucceeds).1 (holds_of_succeeds hsucceeds)
  omega

theorem GoesStraight.length_le : m ≤ e.processor.memory.size := by
  rcases Nat.eq_zero_or_pos m with rfl | hm
  · exact Nat.zero_le _
  · have hle := h.le_size hsize hm
    have hnonneg : 0 ≤ e.processor.ip := (holds_of_succeeds (h.goes 0 hm)).1
    omega

theorem GoesStraight.length_lt (hrunning : (e.after m).halted = false)
    (hholds : (e.after m).processor.memory.Holds (e.after m).processor.ip) : m < e.processor.memory.size := by
  have hlt := h.lt_size hsize (Nat.le_refl m) hrunning hholds
  have hnonneg : 0 ≤ e.processor.ip := by
    rcases Nat.eq_zero_or_pos m with rfl | hm
    · exact hholds.1
    · exact (holds_of_succeeds (h.goes 0 hm)).1
  omega

theorem GoesStraight.stop?_at_end (hm : e.processor.ip + m = e.processor.memory.size)
    (hrunning : (e.after m).halted = false) :
    (e.after m).processor.stop? = some ⟨.address e.processor.memory.size, some ↑e.processor.memory.size⟩ := by
  have hip : (e.after m).processor.ip = e.processor.memory.size :=
    (h.ip_after hsize (Nat.le_refl m) hrunning).trans hm
  have hout : ¬(e.after m).processor.memory.Holds (e.after m).processor.ip := fun hholds => by
    have hlt := hholds.2
    rw [hip, size_after] at hlt
    exact Int.lt_irrefl _ hlt
  rw [Processor.stop?, if_neg hout, hip]
  rfl

end Straight

theorem Goes.straight_or_jumps {e : Engine} {m : Nat} (h : e.Goes m) :
    e.GoesStraight m ∨ ∃ i < m, (e.after i).processor.takesJump = true := by
  by_cases hjumps : ∃ i < m, (e.after i).processor.takesJump = true
  · exact .inr hjumps
  · refine .inl ⟨h, fun i hi => ?_⟩
    rw [← Bool.not_eq_true]
    exact fun htakes => hjumps ⟨i, hi, htakes⟩

-- How a run ends, and after how many cycles. Only a channel that is closed makes it fail, or a limit that is
-- used up and too long to be named.
inductive RunEnds (e : Engine) (limit : Option Int) : Nat → Engine × Except Failure Nat → Prop where
  | already (hh : e.halted = true) : RunEnds e limit 0 (e, .ok 0)
  | eof {j : Nat} (hgo : e.Goes (j + 1)) (heof : (e.after j).step.2 = .ok .eof)
      (hfault : (e.after (j + 1)).fault = none) : RunEnds e limit (j + 1) (e.after (j + 1), .ok (j + 1))
  | fault {c : Nat} {e' : Engine} {f : Fault} (hcycles : e'.processor.cycles = e.processor.cycles + c)
      (hf : e'.fault = some f) : RunEnds e limit c (e', .ok c)
  | closed {c : Nat} {e' : Engine} {x : Failure} (hcycles : e'.processor.cycles = e.processor.cycles + c)
      (hclosed : e.output.closed = true ∨ e.status.closed = true) : RunEnds e limit c (e', .error x)
  | unnamed {c : Nat} {e' : Engine} {x : Failure} {n : Int}
      (hcycles : e'.processor.cycles = e.processor.cycles + c) (hn : limit = some n) (hused : n ≤ c)
      (hlong : 4300 < (Nat.toDigits 10 n.natAbs).length) : RunEnds e limit c (e', .error x)

-- Halting on a fault moves nothing, and fails only where nobody can be told.
structure HaltsOn (d : Engine) (f : Fault) (p : Engine × Except ChannelError Unit) : Prop where
  fault : p.1.fault = some f
  cycles : p.1.processor.cycles = d.processor.cycles
  result : p.2 = if d.status.closed then .error (.putOnClosed d.status.name) else .ok ()

theorem haltsOn_haltOn {d : Engine} (hsignalled : d.signalled = false) (f : Fault) :
    d.HaltsOn f (d.haltOn f) where
  fault := fault_signalHalt _
  cycles := by
    simp [haltOn]
  result := by
    rw [haltOn]
    rcases signalHalt_cases { d with fault := some f }.setHalt with ⟨-, hs, hsignal⟩ | ⟨hheard, hsignal⟩ <;>
      rw [hsignal]
    · have hclosed : d.status.closed = true := hs
      rw [hclosed]
      rfl
    · have hopen : d.status.closed = false := hheard.resolve_left (by simp [setHalt, hsignalled])
      rw [hopen]
      rfl

section Halting

variable {e d : Engine} {f : Fault} {p : Engine × Except ChannelError Unit} {c : Nat} (h : d.HaltsOn f p)
  (hcycles : d.processor.cycles = e.processor.cycles + c) (hstatus : d.status = e.status)

include h hcycles hstatus

theorem HaltsOn.counted_eq : e.counted (p.1, p.2.mapError .channel) =
    (p.1, if e.status.closed then .error (.channel (.putOnClosed e.status.name)) else .ok c) := by
  rw [counted, h.result, h.cycles, hcycles, hstatus, Nat.add_sub_cancel_left]
  split <;> rfl

theorem HaltsOn.runEnds (limit : Option Int) : e.RunEnds limit c (e.counted (p.1, p.2.mapError .channel)) := by
  have hc : p.1.processor.cycles = e.processor.cycles + c := h.cycles.trans hcycles
  rw [h.counted_eq hcycles hstatus]
  split
  · rename_i hclosed
    exact .closed hc (.inr hclosed)
  · exact .fault hc h.fault

end Halting

theorem runEnds_of_halted {e : Engine} (hsettled : e.Settled) (limit : Option Int) {c : Nat} (hgo : e.Goes c)
    (hh : (e.after c).halted = true) : e.RunEnds limit c (e.after c, .ok c) := by
  cases c with
  | zero => exact .already hh
  | succ j =>
      obtain ⟨-, hlast⟩ := (goes_succ_iff e j).mp hgo
      obtain ⟨hrunning, -, -, -, hstep⟩ := went_of_succeeds hlast
      have hhalts : (e.after j).processor.change.halts = true := by
        rwa [after, hstep, halted_next hrunning] at hh
      refine .eof hgo ?_ ?_
      · rw [ok_current_of_succeeds hlast, (Processor.halts_change_iff _).mp hhalts]
      · rw [after, hstep, fault_next]
        exact (hsettled.after j).fault hrunning

-- The turn that ends a run, and the cycle it may still have counted: the end of the program is counted that
-- nobody could be told of.
theorem Stops.runEnds {e : Engine} (hsettled : e.Settled) {limit : Option Int} {c : Nat} (h : e.Stops limit c)
    {d : Engine} {a : Except Failure Unit}
    (hturn : (e.after c).turn limit e.processor.cycles = (d, lastTurn a)) :
    ∃ m, e.RunEnds limit m (e.counted (d, a)) ∧
      (m = c ∨ m = c + 1 ∧ (e.after c).halted = false ∧ (e.after c).processor.stop? = none) := by
  obtain ⟨hcycles, houtput, hstatus⟩ := h.goes.advanced
  have hsignalled : (e.after c).halted = false → (e.after c).signalled = false :=
    fun hh => (hsettled.after c).signalled.trans hh
  have hturned := (e.after c).turned limit e.processor.cycles
  generalize (e.after c).turn limit e.processor.cycles = t at hturned hturn
  cases hturned with
  | halted hh =>
      obtain ⟨rfl, hended⟩ := Prod.mk.inj hturn
      obtain rfl : Except.ok () = a := lastTurn_injective hended
      have hok : e.counted (e.after c, .ok ()) = (e.after c, .ok c) := by
        rw [counted, Except.map, hcycles, Nat.add_sub_cancel_left]
      exact ⟨c, hok ▸ runEnds_of_halted hsettled limit h.goes hh, .inl rfl⟩
  | @limit n f hh _ _ =>
      rw [turnOf_eq, Prod.mk.injEq] at hturn
      obtain ⟨rfl, hended⟩ := hturn
      obtain rfl := lastTurn_injective hended
      exact ⟨c, (haltsOn_haltOn (hsignalled hh) f).runEnds hcycles (hstatus hh) limit, .inl rfl⟩
  | @unnamed n hh hl hf =>
      obtain ⟨rfl, hended⟩ := Prod.mk.inj hturn
      obtain rfl : Except.error _ = a := lastTurn_injective hended
      obtain ⟨hn, hused⟩ := (limitReached_eq_some_iff hcycles).mp hl
      exact ⟨c, .unnamed hcycles hn hused (Fault.stepLimit?_eq_none_iff.mp hf), .inl rfl⟩
  | @stopped f hh _ hf =>
      rw [turnOf_eq, Prod.mk.injEq] at hturn
      obtain ⟨rfl, hended⟩ := hturn
      obtain rfl := lastTurn_injective hended
      have hcycles' : (e.after c).stopped.processor.cycles = e.processor.cycles + c :=
        (Processor.cycles_stopped _).trans hcycles
      have hhalts := haltsOn_haltOn (d := (e.after c).stopped) (hsignalled hh) f
      exact ⟨c, hhalts.runEnds hcycles' (hstatus hh) limit, .inl rfl⟩
  | @failed e' x hh _ hs =>
      obtain ⟨rfl, hended⟩ := Prod.mk.inj hturn
      obtain rfl : Except.error _ = a := lastTurn_injective hended
      have hstepped := (e.after c).stepped
      rw [hs] at hstepped
      cases hstepped with
      | refused _ _ _ ho => exact ⟨c, .closed hcycles (.inl (houtput ▸ ho)), .inl rfl⟩
      | unheard _ hf _ _ hclosed =>
          refine ⟨c + 1, .closed ?_ (.inr (hstatus hh ▸ hclosed)), .inr ⟨rfl, hh, hf⟩⟩
          exact congrArg Nat.succ hcycles
  | went _ hl hs =>
      have hlimit := (limitReached_eq_none_iff hcycles).mp hl
      exact absurd ⟨_, congrArg Prod.snd hs⟩ (h.last hlimit)

theorem Runs.short_or_jumps {e : Engine} (hsettled : e.Settled)
    (hbound : e.processor.memory.size < 0x100000000) {limit : Option Int}
    {r : Engine × Except Failure Nat} (h : e.Runs limit r) :
    ∃ c, e.RunEnds limit c r ∧ (c ≤ e.processor.memory.size ∨
      ∃ i < c, e.Goes (i + 1) ∧ (e.after i).processor.takesJump = true) := by
  obtain ⟨c, ⟨d, a⟩, hstops, hturn, rfl⟩ := h.exists_stops
  obtain ⟨m, hends, hm⟩ := hstops.runEnds hsettled hturn
  refine ⟨m, hends, ?_⟩
  rcases hstops.goes.straight_or_jumps with hstraight | ⟨i, hi, htakes⟩
  · left
    rcases hm with rfl | ⟨rfl, hrunning, hstop⟩
    · exact hstraight.length_le hbound
    · exact hstraight.length_lt hbound hrunning ((Processor.stop?_eq_none_iff _).mp hstop).1
  · exact .inr ⟨i, by omega, hstops.goes.mono hi, htakes⟩

-- What becomes of execution in a memory of so many words. Steps are told by their number, whether or not the
-- program has changed meanwhile.
structure OnlyJumpsGoOn (e : Engine) (size : Nat) : Prop where
  straight : ∀ m, 1 ≤ m → e.GoesStraight m → (e.after m).halted = false →
    (e.after m).processor.ip = e.processor.ip + m ∧ e.processor.ip + m ≤ size
  longer : ∀ m, size < m → e.Goes m → ∃ i < m, (e.after i).processor.takesJump = true
  ends : ∀ limit r, e.Runs limit r → ∃ c, e.RunEnds limit c r ∧
    (c ≤ size ∨ ∃ i < c, e.Goes (i + 1) ∧ (e.after i).processor.takesJump = true)
  -- A run that takes no jump comes to an end.
  terminates : (∀ m, e.Goes m → e.GoesStraight m) → ∀ limit, ∃ r, e.Runs limit r ∧ ∃ c ≤ size, e.RunEnds limit c r
  -- One that goes straight up to the end of the memory faults there.
  runsOff : ∀ m : Nat, e.processor.ip + m = size → e.GoesStraight m → (e.after m).halted = false →
    ∀ limit, Within limit m → ∃ e', e'.fault = some ⟨.address size, some size⟩ ∧
      e'.processor.cycles = e.processor.cycles + m ∧
      e.Runs limit (e', if e.status.closed then .error (.channel (.putOnClosed e.status.name)) else .ok m)

theorem GoesStraight.runs_off {e : Engine} (hsettled : e.Settled)
    (hbound : e.processor.memory.size < 0x100000000) {m : Nat} (hm : e.processor.ip + m = e.processor.memory.size)
    (h : e.GoesStraight m) (hrunning : (e.after m).halted = false) {limit : Option Int} (hlimit : Within limit m) :
    ∃ e', e'.fault = some ⟨.address e.processor.memory.size, some ↑e.processor.memory.size⟩ ∧
      e'.processor.cycles = e.processor.cycles + m ∧
      e.Runs limit (e', if e.status.closed then .error (.channel (.putOnClosed e.status.name)) else .ok m) := by
  obtain ⟨hcycles, -, hstatus⟩ := h.goes.advanced
  have hstop := h.stop?_at_end hbound hm hrunning
  have hlast : ¬(e.after m).Succeeds := fun hsucceeds => by
    simp [(went_of_succeeds hsucceeds).2.1] at hstop
  have hstops : e.Stops limit m :=
    ⟨h.goes, fun i hi n hn => Int.lt_trans (Int.ofNat_lt.mpr hi) (hlimit n hn), fun _ => hlast⟩
  obtain ⟨r, hruns⟩ := runs_of_not_goes (fun hgo => hlast ((goes_succ_iff e m).mp hgo).2) limit
  obtain ⟨c, ⟨d, a⟩, hstops', hturn, rfl⟩ := hruns.exists_stops
  obtain rfl := hstops.unique hstops'
  have hreached := (limitReached_eq_none_iff hcycles).mpr hlimit
  rw [turn_eq_of_stop hrunning hreached hstop, turnOf_eq, Prod.mk.injEq] at hturn
  obtain ⟨rfl, hended⟩ := hturn
  obtain rfl := lastTurn_injective hended
  have hsignalled : (e.after m).stopped.signalled = false := (hsettled.after m).signalled.trans hrunning
  have hhalts := haltsOn_haltOn hsignalled ⟨.address e.processor.memory.size, some ↑e.processor.memory.size⟩
  have hcycles' : (e.after m).stopped.processor.cycles = e.processor.cycles + m :=
    (Processor.cycles_stopped _).trans hcycles
  rw [hhalts.counted_eq hcycles' (hstatus hrunning)] at hruns
  exact ⟨_, hhalts.fault, hhalts.cycles.trans hcycles', hruns⟩

theorem only_jumps_go_on {e : Engine} (hreach : e.Reachable) {size : Nat}
    (hsize : e.processor.memory.size = size) (hbound : size < 0x100000000) : e.OnlyJumpsGoOn size := by
  subst hsize
  have hsettled := hreach.settled
  refine ⟨?straight, ?longer, fun _ _ hruns => hruns.short_or_jumps hsettled hbound, ?terminates, ?runsOff⟩
  case straight =>
    intro m hm h hrunning
    exact ⟨h.ip_after hbound (Nat.le_refl m) hrunning, h.le_size hbound hm⟩
  case longer =>
    intro m hlong hgo
    refine hgo.straight_or_jumps.resolve_left fun h => ?_
    exact absurd (h.length_le hbound) (by omega)
  case terminates =>
    intro hstraight limit
    have htoolong : ¬e.Goes (e.processor.memory.size + 1) := fun hgo =>
      absurd ((hstraight _ hgo).length_le hbound) (by omega)
    obtain ⟨r, hruns⟩ := runs_of_not_goes htoolong limit
    obtain ⟨c, hends, hle | ⟨i, -, hgo, htakes⟩⟩ := hruns.short_or_jumps hsettled hbound
    · exact ⟨r, hruns, c, hle, hends⟩
    · simp [(hstraight _ hgo).unjumped i (Nat.lt_succ_self i)] at htakes
  case runsOff =>
    intro m hm h hrunning limit hlimit
    exact h.runs_off hsettled hbound hm hrunning hlimit

-- A machine that strikes out the end of its program, and skips what it then finds there.
def unending : Engine :=
  (ofMemory ⟨#[0, 0]⟩).afterLoad [0x02, 1, 0, 0, 0xFF, 0, 0, 0]

theorem only_jumps_go_on_past_struck_end :
    unending.Reachable ∧ unending.processor.memory.size = 2 ∧ unending.OnlyJumpsGoOn 2 ∧
      ∃ e', e'.fault = some ⟨.address 2, some 2⟩ ∧ e'.processor.cycles = 2 ∧
        unending.Runs none (e', .ok 2) := by
  have hreach : unending.Reachable :=
    .loaded (.created (show create 2 2 = .ok (ofMemory ⟨#[0, 0]⟩) from rfl))
      (show (ofMemory ⟨#[0, 0]⟩).load [0x02, 1, 0, 0, 0xFF, 0, 0, 0] = .ok unending from rfl)
  have hsize : unending.processor.memory.size = 2 := by decide
  have hgo : unending.OnlyJumpsGoOn 2 := only_jumps_go_on hreach hsize (by decide)
  have hstr : (unending.after 0).step.2 = .ok (.str 1 0) := by decide
  have hskip : (unending.after 1).step.2 = .ok (.unknown 0 0) := by decide
  have hstraight : unending.GoesStraight 2 := by
    refine ⟨fun i hi => ?_, by decide⟩
    obtain rfl | rfl : i = 0 ∨ i = 1 := by omega
    · exact ⟨_, hstr⟩
    · exact ⟨_, hskip⟩
  exact ⟨hreach, hsize, hgo, hgo.runsOff 2 (by decide) hstraight (by decide) none (within_none 2)⟩

end Engine

end WordMachine
