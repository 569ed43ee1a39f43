import WordMachine.Proofs.Engine.Path

namespace WordMachine.Engine

-- A run that ends, and how.
def Runs (e : Engine) (limit : Option Int) (r : Engine × Except Failure Nat) : Prop :=
  ∃ granted, run? limit granted e = some r

-- More turns than it takes change nothing.
theorem turns_add {limit : Option Int} {start granted : Nat} {e : Engine}
    {r : Engine × Except Failure Unit} (h : turns limit start granted e = some r) (more : Nat) :
    turns limit start (granted + more) e = some r := by
  induction granted generalizing e with
  | zero => simp [turns] at h
  | succ k ih =>
      rw [Nat.add_right_comm]
      simp only [turns] at h ⊢
      split at h
      · exact ih h
      · exact h
      · exact h

theorem run?_add {limit : Option Int} {granted : Nat} {e : Engine}
    {r : Engine × Except Failure Nat} (h : run? limit granted e = some r) (more : Nat) :
    run? limit (granted + more) e = some r := by
  rw [run?] at h ⊢
  cases hturns : turns limit e.processor.cycles granted e with
  | none => simp [hturns] at h
  | some s =>
      rw [turns_add hturns more]
      rw [hturns] at h
      exact h

theorem Runs.unique {e : Engine} {limit : Option Int} {r s : Engine × Except Failure Nat}
    (hr : e.Runs limit r) (hs : e.Runs limit s) : r = s := by
  obtain ⟨k, hk⟩ := hr
  obtain ⟨l, hl⟩ := hs
  have hleft := run?_add hk l
  have hright := run?_add hl k
  rw [Nat.add_comm l k, hleft] at hright
  exact Option.some.inj hright

-- The answer of a run whose turns came to an end.
def counted (e : Engine) (p : Engine × Except Failure Unit) : Engine × Except Failure Nat :=
  (p.1, p.2.map fun _ => p.1.processor.cycles - e.processor.cycles)

-- A run is its turns, and counts the cycles they took.
theorem runs_iff {e : Engine} {limit : Option Int} {r : Engine × Except Failure Nat} :
    e.Runs limit r ↔
      ∃ granted p, turns limit e.processor.cycles granted e = some p ∧ r = e.counted p := by
  have hrun : ∀ granted p, turns limit e.processor.cycles granted e = some p →
      run? limit granted e = some (e.counted p) := by
    rintro granted ⟨e', x | u⟩ hturns <;> rw [run?, hturns] <;> rfl
  constructor
  · rintro ⟨granted, h⟩
    cases hturns : turns limit e.processor.cycles granted e with
    | none => simp [run?, hturns] at h
    | some p =>
        rw [hrun granted p hturns] at h
        exact ⟨granted, p, hturns, (Option.some.inj h).symm⟩
  · rintro ⟨granted, p, hturns, rfl⟩
    exact ⟨granted, hrun granted p hturns⟩

theorem runs_ok_iff {e e' : Engine} {limit : Option Int} {n : Nat} :
    e.Runs limit (e', .ok n) ↔
      (∃ granted, turns limit e.processor.cycles granted e = some (e', .ok ())) ∧
        n = e'.processor.cycles - e.processor.cycles := by
  rw [runs_iff]
  constructor
  · rintro ⟨granted, ⟨d, x | u⟩, hturns, hr⟩
    · simp [counted, Except.map] at hr
    · simp only [counted, Except.map, Prod.mk.injEq, Except.ok.injEq] at hr
      obtain ⟨rfl, rfl⟩ := hr
      exact ⟨⟨granted, hturns⟩, rfl⟩
  · rintro ⟨⟨granted, hturns⟩, rfl⟩
    exact ⟨granted, _, hturns, rfl⟩

-- The limit is not yet used up after so many steps of a run.
def Within (limit : Option Int) (j : Nat) : Prop :=
  ∀ n, limit = some n → (j : Int) < n

theorem within_none (j : Nat) : Within none j := by
  intro n hn
  simp at hn

theorem limitReached_eq_none {limit : Option Int} {j : Nat} (h : Within limit j) {start : Nat}
    {e : Engine} (hc : e.processor.cycles = start + j) : limitReached limit start e = none := by
  cases limit with
  | none => rfl
  | some n =>
      have hlt := h n rfl
      rw [limitReached, if_neg (by omega)]

theorem limitReached_eq_some {n : Int} {j : Nat} (h : n ≤ j) {start : Nat} {e : Engine}
    (hc : e.processor.cycles = start + j) : limitReached (some n) start e = some n := by
  rw [limitReached, if_pos (by omega)]

-- As long as its steps succeed and its limit is not used up, a run goes the way of its steps.
theorem Goes.turns_eq {e : Engine} (ho : e.Open) {limit : Option Int} {j : Nat} (h : e.Goes j)
    (hlimit : ∀ i < j, Within limit i) (granted : Nat) :
    turns limit e.processor.cycles (j + granted) e =
      turns limit e.processor.cycles granted (e.after j) := by
  induction j generalizing granted with
  | zero => rw [Nat.zero_add]; rfl
  | succ j ih =>
      obtain ⟨hgo, hlast⟩ := (goes_succ_iff e j).mp h
      have hopen := hgo.open_after ho
      obtain ⟨hh, hf⟩ := (succeeds_iff hopen).mp hlast
      have hreached := limitReached_eq_none (hlimit j (Nat.lt_succ_self j)) (hgo.cycles_after ho)
      rw [Nat.succ_add_eq_add_succ j granted, ih hgo (fun i hi => hlimit i (Nat.lt_succ_of_lt hi)),
        turns, turn_of_go hh hopen.1 hopen.2 hreached hf, h.after_succ ho]

-- How a run ends behind so many steps.
inductive Ends (e : Engine) (limit : Option Int) (c : Nat) : Engine → Except Failure Unit → Prop where
  | halted (hh : (e.after c).halted = true) : Ends e limit c (e.after c) (.ok ())
  | fault {f : Fault} (hh : (e.after c).halted = false) (hf : (e.after c).processor.stop? = some f)
      (hlimit : Within limit c) : Ends e limit c ((e.after c).stopped.halting f) (.ok ())
  | limit {n : Int} {f : Fault} (hh : (e.after c).halted = false) (hn : limit = some n) (hlimit : n ≤ c)
      (hf : Fault.stepLimit? n (e.after c).processor.ip = some f) :
      Ends e limit c ((e.after c).halting f) (.ok ())
  -- The limit is used up, and too long for a fault that names it.
  | unnamed {n : Int} (hh : (e.after c).halted = false) (hn : limit = some n) (hlimit : n ≤ c)
      (hf : Fault.stepLimit? n (e.after c).processor.ip = none) :
      Ends e limit c (e.after c) (.error (.value Text.tooLong))

-- The turn that ends a run with such an answer.
def lastTurn : Except Failure Unit → Turn
  | .ok () => .ended
  | .error x => .failed x

@[simp]
theorem processor_halting (e : Engine) (f : Fault) :
    (e.halting f).processor = e.setHalt.processor := by
  rw [halting, processor_announced]
  rfl

@[simp]
theorem fault_halting (e : Engine) (f : Fault) : (e.halting f).fault = some f := by
  rw [halting, fault_announced]
  rfl

@[simp]
theorem output_halting (e : Engine) (f : Fault) : (e.halting f).output = e.output := by
  rw [halting, output_announced]
  rfl

section Ending

variable {e e' : Engine} {limit : Option Int} {c : Nat} {r : Except Failure Unit}

theorem Ends.turn_eq (ho : e.Open) (h : e.Goes c) (hends : e.Ends limit c e' r) :
    (e.after c).turn limit e.processor.cycles = (e', lastTurn r) := by
  have hopen := h.open_after ho
  have hcycles := h.cycles_after ho
  cases hends with
  | halted hh => exact turn_of_halted hh _ _
  | fault hh hf hlimit => exact turn_of_stop hh hopen.2 (limitReached_eq_none hlimit hcycles) hf
  | limit hh hn hlimit hf =>
      subst hn
      exact turn_of_limit hh hopen.2 (limitReached_eq_some hlimit hcycles) hf
  | unnamed hh hn hlimit hf =>
      subst hn
      exact turn_of_unnamed hh (limitReached_eq_some hlimit hcycles) hf

theorem Ends.cycles_eq (hends : e.Ends limit c e' r) :
    e'.processor.cycles = (e.after c).processor.cycles := by
  cases hends with
  | halted _ | unnamed _ _ _ _ => rfl
  | fault _ _ _ =>
      rw [processor_halting]
      exact Processor.cycles_stopped _
  | limit _ _ _ _ =>
      rw [processor_halting]
      rfl

theorem Ends.runs (ho : e.Open) (h : e.Goes c) (hlimit : ∀ i < c, Within limit i)
    (hends : e.Ends limit c e' r) : e.Runs limit (e', r.map fun _ => c) := by
  have hturns : turns limit e.processor.cycles (c + 1) e = some (e', r) := by
    rw [h.turns_eq ho hlimit 1, turns, hends.turn_eq ho h]
    cases r <;> rfl
  have hcount : e'.processor.cycles - e.processor.cycles = c := by
    rw [hends.cycles_eq, h.cycles_after ho]
    omega
  refine ⟨c + 1, ?_⟩
  rw [run?, hturns]
  cases r with
  | ok => simp only [hcount, Except.map]
  | error x => rfl

end Ending

-- A run that keeps succeeding uses up every number of turns it is granted.
theorem not_runs_of_goes {e : Engine} (ho : e.Open) (h : ∀ j, e.Goes j)
    (r : Engine × Except Failure Nat) : ¬e.Runs none r := by
  rintro ⟨granted, hrun⟩
  have hturns := (h granted).turns_eq ho (fun i _ => within_none i) 0
  rw [Nat.add_zero] at hturns
  rw [run?, hturns] at hrun
  simp [turns] at hrun

-- The steps of a limited run: as many as the limit allows, unless one of them fails before.
theorem exists_goes (e : Engine) (m : Nat) :
    ∃ c ≤ m, e.Goes c ∧ (c = m ∨ ¬(e.after c).Succeeds) := by
  induction m with
  | zero => exact ⟨0, Nat.le_refl 0, e.goes_zero, Or.inl rfl⟩
  | succ m ih =>
      obtain ⟨c, hc, hgo, hlast⟩ := ih
      by_cases hs : (e.after c).Succeeds
      · have hcm : c = m := hlast.resolve_right (not_not.mpr hs)
        subst hcm
        exact ⟨c + 1, Nat.le_refl _, (goes_succ_iff e c).mpr ⟨hgo, hs⟩, Or.inl rfl⟩
      · exact ⟨c, Nat.le_succ_of_le hc, hgo, Or.inr hs⟩

theorem exists_ends {e : Engine} (ho : e.Open) (n : Int) :
    ∃ c e' r, c ≤ n.toNat ∧ e.Goes c ∧ e.Ends (some n) c e' r := by
  obtain ⟨c, hc, hgo, hlast⟩ := e.exists_goes n.toNat
  cases hh : (e.after c).halted with
  | true => exact ⟨c, _, _, hc, hgo, .halted hh⟩
  | false =>
      by_cases hn : n ≤ c
      · cases hf : Fault.stepLimit? n (e.after c).processor.ip with
        | some f => exact ⟨c, _, _, hc, hgo, .limit hh rfl hn hf⟩
        | none => exact ⟨c, _, _, hc, hgo, .unnamed hh rfl hn hf⟩
      · have hfails : ¬(e.after c).Succeeds := hlast.resolve_left (by omega)
        rw [succeeds_iff (hgo.open_after ho)] at hfails
        cases hf : (e.after c).processor.stop? with
        | none => exact absurd ⟨hh, hf⟩ hfails
        | some f =>
            refine ⟨c, _, _, hc, hgo, .fault hh hf ?_⟩
            intro m hm
            cases hm
            omega

-- The end of the program is reached, and within the limit.
def HaltsWithin (e : Engine) (n : Int) : Prop :=
  ∃ j : Nat, e.stepCount = (j + 1 : Nat) ∧ (e.after j).step.2 = .ok .eof ∧ ((j + 1 : Nat) : Int) ≤ n

-- The steps come to one that fails without having halted, and the limit allows to try it.
def FaultsWithin (e : Engine) (n : Int) : Prop :=
  ∃ j : Nat, e.stepCount = j ∧ (e.after j).halted = false ∧ (j : Int) < n

-- What a run with a limit comes to. The call that faults is among the calls whose effects it leaves.
structure LimitedRun (e : Engine) (n : Int) (e' : Engine) (c : Nat) : Prop where
  count : (c : ℕ∞) = min (n.toNat : ℕ∞) e.stepCount
  state : ∃ d : Nat, (e.FaultsWithin n → d = c + 1) ∧ (¬e.FaultsWithin n → d = c) ∧
    e'.processor = { (e.after d).processor with flags := { (e.after d).processor.flags with halt := true } } ∧
    e'.output = (e.after d).output
  clean : e'.fault = none ↔ e.HaltsWithin n
  faulty : (∃ (j : Nat) (f : Fault), e.stepCount = j ∧ (e.after j).step.2 = .error (.fault f) ∧
    e'.fault = some f) ↔ e.FaultsWithin n
  limited : ¬e.HaltsWithin n → ¬e.FaultsWithin n → e'.fault =
    some ⟨.stepLimit ("Step limit of " ++ toString n ++ " reached"), some (e.after c).processor.ip⟩

theorem stepCount_of_halted {e : Engine} {c : Nat} (h : e.Goes c) (hh : (e.after c).halted = true) :
    e.stepCount = c := by
  refine (e.stepCount_eq_iff c).mpr ⟨h, ?_⟩
  rintro ⟨i, hi⟩
  simp [step_of_halted hh] at hi

theorem stepCount_of_stop {e : Engine} {c : Nat} (h : e.Goes c) (hh : (e.after c).halted = false)
    {f : Fault} (hf : (e.after c).processor.stop? = some f) : e.stepCount = c := by
  refine (e.stepCount_eq_iff c).mpr ⟨h, ?_⟩
  rintro ⟨i, hi⟩
  simp [step_of_stop hh hf] at hi

theorem LimitedRun.of_halted {e : Engine} (ho : e.Open) (hh : e.halted = false) (hfault : e.fault = none)
    {n : Int} {c : Nat} (hc : c ≤ n.toNat) (h : e.Goes c) (hc' : (e.after c).halted = true) :
    e.LimitedRun n (e.after c) c := by
  have hcount := stepCount_of_halted h hc'
  have hnofault : ¬e.FaultsWithin n := by
    rintro ⟨j, hj, hjh, _⟩
    rw [hcount, Nat.cast_inj] at hj
    subst hj
    simp [hc'] at hjh
  have hhalts : e.HaltsWithin n := by
    cases c with
    | zero => exact absurd (hh.symm.trans hc') (by simp)
    | succ j => exact ⟨j, hcount, (h.halted_after_iff ho).mp hc', by omega⟩
  have hclean : (e.after c).fault = none := (h.fault_after ho).trans hfault
  have hset : (e.after c).processor = (e.after c).setHalt.processor := by
    have hflag : (e.after c).processor.flags.halt = true := hc'
    simp only [setHalt, Flags.setHalt, ← hflag]
  refine ⟨?_, ⟨c, fun hf => absurd hf hnofault, fun _ => rfl, hset, rfl⟩, ?_, ?_, ?_⟩
  · rw [hcount]
    exact (min_eq_right (Nat.cast_le.mpr hc)).symm
  · exact ⟨fun _ => hhalts, fun _ => hclean⟩
  · refine ⟨?_, fun hf => absurd hf hnofault⟩
    rintro ⟨_, f, _, _, hf⟩
    simp [hclean] at hf
  · exact fun hn => absurd hhalts hn

theorem LimitedRun.of_stop {e : Engine} (ho : e.Open) {n : Int} {c : Nat} (hc : c ≤ n.toNat)
    (h : e.Goes c) (hh : (e.after c).halted = false) {f : Fault} (hf : (e.after c).processor.stop? = some f)
    (hlimit : (c : Int) < n) : e.LimitedRun n ((e.after c).stopped.halting f) c := by
  have hcount := stepCount_of_stop h hh hf
  have hstep := step_of_stop hh hf
  have hfaults : e.FaultsWithin n := ⟨c, hcount, hh, hlimit⟩
  have hfault := fault_halting (e.after c).stopped f
  have hnext : e.after (c + 1) = (e.after c).stopped := by rw [after, hstep]
  have hnohalt : ¬e.HaltsWithin n := by
    rintro ⟨j, hj, heof, _⟩
    rw [hcount, Nat.cast_inj] at hj
    subst hj
    rw [(h.halted_after_iff ho).mpr heof] at hh
    simp at hh
  refine ⟨?_, ⟨c + 1, fun _ => rfl, fun hn => absurd hfaults hn, ?_, ?_⟩, ?_, ?_, ?_⟩
  · rw [hcount]
    exact (min_eq_right (Nat.cast_le.mpr hc)).symm
  · rw [processor_halting, hnext]
    rfl
  · rw [output_halting, hnext]
  · rw [hfault]
    exact ⟨fun hn => by simp at hn, fun hn => absurd hn hnohalt⟩
  · exact ⟨fun _ => hfaults, fun _ => ⟨c, f, hcount, by rw [hstep], hfault⟩⟩
  · exact fun _ hn => absurd hfaults hn

-- A run that stops at its limit has come neither to the end of the program nor to a step that fails.
theorem not_within_of_limit {e : Engine} (ho : e.Open) {n : Int} {c : Nat} (h : e.Goes c)
    (hh : (e.after c).halted = false) (hlimit : n ≤ c) : ¬e.HaltsWithin n ∧ ¬e.FaultsWithin n := by
  have hle := (e.le_stepCount_iff c).mpr h
  constructor
  · rintro ⟨j, hj, heof, hjn⟩
    rw [hj, Nat.cast_le] at hle
    have hcj : c = j + 1 := by omega
    subst hcj
    rw [(h.halted_after_iff ho).mpr heof] at hh
    simp at hh
  · rintro ⟨j, hj, _, hjn⟩
    rw [hj, Nat.cast_le] at hle
    omega

theorem LimitedRun.of_limit {e : Engine} (ho : e.Open) {n : Int} {c : Nat} (hc : c ≤ n.toNat)
    (h : e.Goes c) (hh : (e.after c).halted = false) (hlimit : n ≤ c) {f : Fault}
    (hf : Fault.stepLimit? n (e.after c).processor.ip = some f) :
    e.LimitedRun n ((e.after c).halting f) c := by
  have hle := (e.le_stepCount_iff c).mpr h
  have hfault := fault_halting (e.after c) f
  obtain ⟨hnohalt, hnofault⟩ := not_within_of_limit ho h hh hlimit
  refine ⟨?_, ⟨c, fun hf => absurd hf hnofault, fun _ => rfl, ?_, ?_⟩, ?_, ?_, ?_⟩
  · have hcn : n.toNat = c := by omega
    rw [hcn]
    exact (min_eq_left hle).symm
  · rw [processor_halting]
    rfl
  · rw [output_halting]
  · rw [hfault]
    exact ⟨fun hn => by simp at hn, fun hn => absurd hn hnohalt⟩
  · refine ⟨?_, fun hf => absurd hf hnofault⟩
    rintro ⟨j, g, hj, hstep, hg⟩
    rw [hfault] at hg
    obtain rfl := Option.some.inj hg
    have hgo := ((e.stepCount_eq_iff j).mp hj).1
    have hstop := stop?_of_step (hgo.open_after ho) hstep
    exact absurd hf ((Processor.ofInstruction_of_stop? hstop).ne_stepLimit _ _)
  · intro _ _
    rw [hfault, (Fault.stepLimit?_eq_some_iff.mp hf).2]

theorem exists_ends_of_stepCount {e : Engine} (ho : e.Open) {j : Nat} (hj : e.stepCount = j) :
    e.Goes j ∧ ∃ e', e.Ends none j e' (.ok ()) := by
  obtain ⟨hgo, hlast⟩ := (e.stepCount_eq_iff j).mp hj
  rw [succeeds_iff (hgo.open_after ho)] at hlast
  refine ⟨hgo, ?_⟩
  cases hh : (e.after j).halted with
  | true => exact ⟨_, .halted hh⟩
  | false =>
      cases hf : (e.after j).processor.stop? with
      | none => exact absurd ⟨hh, hf⟩ hlast
      | some f => exact ⟨_, .fault hh hf (within_none j)⟩

theorem runs_of_stepCount {e : Engine} (ho : e.Open) {j : Nat} (hj : e.stepCount = j) :
    ∃ r, e.Runs none r := by
  obtain ⟨hgo, e', hends⟩ := exists_ends_of_stepCount ho hj
  exact ⟨_, hends.runs ho hgo (fun i _ => within_none i)⟩

theorem runs_none_iff {e : Engine} (ho : e.Open) : (∃ r, e.Runs none r) ↔ e.stepCount ≠ ⊤ := by
  constructor
  · rintro ⟨r, hr⟩ htop
    exact not_runs_of_goes ho ((stepCount_eq_top_iff e).mp htop) r hr
  · intro hne
    obtain ⟨j, hj⟩ := ENat.ne_top_iff_exists.mp hne
    exact runs_of_stepCount ho hj.symm

-- Every run is a row of steps that succeed within its limit, and an end behind them.
theorem Runs.exists_ends {e : Engine} (ho : e.Open) {limit : Option Int}
    {r : Engine × Except Failure Nat} (h : e.Runs limit r) :
    ∃ e' c a, r = (e', Except.map (fun _ => c) a) ∧ e.Goes c ∧ (∀ i < c, Within limit i) ∧
      e.Ends limit c e' a := by
  cases limit with
  | none =>
      obtain ⟨j, hj⟩ := ENat.ne_top_iff_exists.mp ((runs_none_iff ho).mp ⟨r, h⟩)
      obtain ⟨hgo, e', hends⟩ := exists_ends_of_stepCount ho hj.symm
      have hwithin : ∀ i < j, Within none i := fun i _ => within_none i
      exact ⟨e', j, _, h.unique (hends.runs ho hgo hwithin), hgo, hwithin, hends⟩
  | some n =>
      obtain ⟨c, e', a, hc, hgo, hends⟩ := Engine.exists_ends ho n
      have hwithin : ∀ i < c, Within (some n) i := by
        intro i hi m hm
        cases hm
        omega
      exact ⟨e', c, a, h.unique (hends.runs ho hgo hwithin), hgo, hwithin, hends⟩

-- A run fails for nothing but a limit that is too long to be named.
theorem Runs.exists_ok {e : Engine} (ho : e.Open) {limit : Option Int} {r : Engine × Except Failure Nat}
    (h : e.Runs limit r)
    (hlimit : ∀ n, limit = some n → (Nat.toDigits 10 n.natAbs).length ≤ Text.decimalLimit) :
    ∃ e' n, r = (e', .ok n) := by
  obtain ⟨e', c, a, rfl, -, -, hends⟩ := h.exists_ends ho
  cases hends with
  | halted _ | fault _ _ _ | limit _ _ _ _ => exact ⟨_, _, rfl⟩
  | unnamed _ hn _ hf =>
      have hlong := Fault.stepLimit?_eq_none_iff.mp hf
      have hshort := hlimit _ hn
      omega

-- A limit behind the last step is as good as none.
theorem Ends.unlimited {e e' : Engine} {n : Int} {c : Nat} {a : Except Failure Unit} (h : e.Goes c)
    (hends : e.Ends (some n) c e' a) {j : Nat} (hj : e.stepCount = j) (hjn : (j : Int) < n) :
    e.Ends none c e' a := by
  cases hends with
  | halted hh => exact .halted hh
  | fault hh hf _ => exact .fault hh hf (within_none c)
  | limit _ hn hlimit _ | unnamed _ hn hlimit _ =>
      have hle := (e.le_stepCount_iff c).mpr h
      rw [hj, Nat.cast_le] at hle
      cases hn
      omega

-- A limited run that can say why it ended, if need be by naming its limit.
def Reports (e : Engine) (n : Int) : Prop :=
  e.HaltsWithin n ∨ e.FaultsWithin n ∨ (Nat.toDigits 10 n.natAbs).length ≤ 4300

theorem Ends.reported {e e' : Engine} (ho : e.Open) (hh : e.halted = false) (hfault : e.fault = none)
    {n : Int} {c : Nat} (hc : c ≤ n.toNat) (hgo : e.Goes c) (hends : e.Ends (some n) c e' (.ok ())) :
    e.Reports n ∧ e.LimitedRun n e' c := by
  cases hends with
  | halted hc' =>
      have hrun := LimitedRun.of_halted ho hh hfault hc hgo hc'
      exact ⟨.inl (hrun.clean.mp ((hgo.fault_after ho).trans hfault)), hrun⟩
  | fault hc' hf hlimit =>
      have hrun := LimitedRun.of_stop ho hc hgo hc' hf (hlimit n rfl)
      exact ⟨.inr (.inl ⟨c, stepCount_of_stop hgo hc' hf, hc', hlimit n rfl⟩), hrun⟩
  | limit hc' hn hlimit hf =>
      cases hn
      exact ⟨.inr (.inr (Fault.stepLimit?_eq_some_iff.mp hf).1), .of_limit ho hc hgo hc' hlimit hf⟩

theorem Ends.unreported {e e' : Engine} (ho : e.Open) {n : Int} {c : Nat} (hc : c ≤ n.toNat) {x : Failure}
    (hgo : e.Goes c) (hends : e.Ends (some n) c e' (.error x)) :
    ¬e.Reports n ∧ c = n.toNat ∧ e' = e.after c ∧ x = .value Text.tooLong := by
  cases hends with
  | unnamed hc' hn hlimit hf =>
      cases hn
      have hlong : 4300 < (Nat.toDigits 10 n.natAbs).length := Fault.stepLimit?_eq_none_iff.mp hf
      obtain ⟨hnohalt, hnofault⟩ := not_within_of_limit ho hgo hc' hlimit
      refine ⟨?_, by omega, rfl, rfl⟩
      rintro (hhalts | hfaults | hshort)
      · exact hnohalt hhalts
      · exact hnofault hfaults
      · omega

end WordMachine.Engine
