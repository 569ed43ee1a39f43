import WordMachine.Proofs.Engine.History

namespace WordMachine

-- Only printing sends a character.
theorem Change.exists_prn_of_sent {m : Memory} {flags : Flags} {i : Instruction} {c : Char}
    (h : (of m flags i).sent = some c) : ∃ addr, i = .prn addr := by
  cases i with
  | prn addr => exact ⟨addr, rfl⟩
  | eof | mov _ _ | mop _ _ | str _ _ | jmp _ | jz _ | cmp _ _ | div _ _ | unknown _ _ => simp [of] at h
  | adi _ _ | mul _ _ => simp [of, sent_checked] at h
  | sui _ _ =>
      simp only [of] at h
      split at h <;> simp [sent_checked] at h

theorem Failure.describe_tooLong : (Failure.value Text.tooLong).describe =
    "ValueError('Exceeds the limit (4300 digits) for integer " ++
      "string conversion; use sys.set_int_max_str_digits() to increase the limit')" := by
  decide +kernel

namespace Engine

theorem went_of_succeeds {e : Engine} (h : e.Succeeds) :
    e.halted = false ∧ e.processor.stop? = none ∧
      (e.processor.change.sent = none ∨ e.output.closed = false) ∧
      (e.processor.change.halts = false ∨ e.signalled = true ∨ e.status.closed = false) ∧
      e.step.1 = e.next := by
  obtain ⟨i, hi⟩ := h
  have hstepped := e.stepped
  generalize e.step = r at hstepped hi ⊢
  cases hstepped with
  | halted _ | stopped _ _ | refused _ _ _ _ | unheard _ _ _ _ _ => simp at hi
  | went hh hf ho hs => exact ⟨hh, hf, ho, hs, rfl⟩

theorem ok_current_of_succeeds {e : Engine} (h : e.Succeeds) : e.step.2 = .ok e.processor.current := by
  obtain ⟨i, hi⟩ := h
  have hstepped := e.stepped
  generalize e.step = r at hstepped hi ⊢
  cases hstepped with
  | halted _ | stopped _ _ | refused _ _ _ _ | unheard _ _ _ _ _ => simp at hi
  | went _ _ _ _ => rfl

theorem status_next_of_running {e : Engine} (h : e.next.halted = false) : e.next.status = e.status := by
  rw [next] at h ⊢
  split
  · rename_i hmoved
    rw [if_pos hmoved, halted_announced] at h
    exact absurd (hmoved.symm.trans h) (by simp)
  · rfl

theorem Settled.after {e : Engine} (he : e.Settled) (j : Nat) : (e.after j).Settled := by
  induction j with
  | zero => exact he
  | succ j ih => exact ih.step

-- What steps that succeed leave of the channels, open or closed, and how many cycles they count.
structure Advanced (e : Engine) (j : Nat) (e' : Engine) : Prop where
  cycles : e'.processor.cycles = e.processor.cycles + j
  output : e'.output.closed = e.output.closed
  status : e'.halted = false → e'.status = e.status

theorem Goes.advanced {e : Engine} {j : Nat} (h : e.Goes j) : e.Advanced j (e.after j) := by
  induction j with
  | zero => exact ⟨rfl, rfl, fun _ => rfl⟩
  | succ j ih =>
      obtain ⟨hgo, hlast⟩ := (goes_succ_iff e j).mp h
      obtain ⟨hcycles, houtput, hstatus⟩ := ih hgo
      obtain ⟨hh, -, -, -, hstep⟩ := went_of_succeeds hlast
      rw [Engine.after, hstep]
      refine ⟨?_, ?_, fun hrunning => ?_⟩
      · simp [hcycles, Nat.add_assoc]
      · simp [houtput]
      · rw [status_next_of_running hrunning, hstatus hh]

-- The turn of an engine that runs, behind so many steps of a run that its limit allows.
structure RunsTo (e : Engine) (limit : Option Int) (j : Nat) : Prop where
  goes : e.Goes j
  within : ∀ i < j, Within limit i
  running : (e.after j).halted = false

-- The run executes an instruction behind so many steps.
structure Executes (e : Engine) (limit : Option Int) (j : Nat) (i : Instruction) : Prop where
  runsTo : e.RunsTo limit j
  within : Within limit j
  unstopped : (e.after j).processor.stop? = none
  current : (e.after j).processor.current = i

-- The run has used up its limit with so many steps, and would go on.
structure Exhausts (e : Engine) (limit : Option Int) (j : Nat) (n : Int) : Prop where
  runsTo : e.RunsTo limit j
  limit : limit = some n
  used : n ≤ j

-- The last turn of a run.
structure Stops (e : Engine) (limit : Option Int) (c : Nat) : Prop where
  goes : e.Goes c
  within : ∀ i < c, Within limit i
  last : Within limit c → ¬(e.after c).Succeeds

theorem Stops.le {e : Engine} {limit : Option Int} {c d : Nat} (hc : e.Stops limit c)
    (hgo : e.Goes d) (hwithin : ∀ i < d, Within limit i) : d ≤ c := by
  by_contra hlt
  have hlt : c < d := by omega
  exact hc.last (hwithin c hlt) (hgo c hlt)

theorem Stops.unique {e : Engine} {limit : Option Int} {c d : Nat} (hc : e.Stops limit c)
    (hd : e.Stops limit d) : c = d :=
  Nat.le_antisymm (hd.le hc.goes hc.within) (hc.le hd.goes hd.within)

theorem RunsTo.stops {e : Engine} {limit : Option Int} {j : Nat} (h : e.RunsTo limit j)
    (hlast : Within limit j → ¬(e.after j).Succeeds) : e.Stops limit j :=
  ⟨h.goes, h.within, hlast⟩

theorem Exhausts.not_within {e : Engine} {limit : Option Int} {j : Nat} {n : Int}
    (h : e.Exhausts limit j n) : ¬Within limit j := by
  intro hwithin
  have hlt := hwithin n h.limit
  have hused := h.used
  omega

theorem Exhausts.stops {e : Engine} {limit : Option Int} {j : Nat} {n : Int} (h : e.Exhausts limit j n) :
    e.Stops limit j :=
  h.runsTo.stops fun hwithin => absurd hwithin h.not_within

theorem limitReached_eq_none_iff {limit : Option Int} {start j : Nat} {e : Engine}
    (hc : e.processor.cycles = start + j) : limitReached limit start e = none ↔ Within limit j := by
  constructor
  · intro hnone n hn
    by_contra hle
    subst hn
    rw [limitReached_eq_some (by omega) hc] at hnone
    simp at hnone
  · intro hwithin
    exact limitReached_eq_none hwithin hc

theorem limitReached_eq_some_iff {limit : Option Int} {start j : Nat} {e : Engine} {n : Int}
    (hc : e.processor.cycles = start + j) :
    limitReached limit start e = some n ↔ limit = some n ∧ n ≤ j := by
  constructor
  · intro hsome
    cases limit with
    | none => simp [limitReached] at hsome
    | some l =>
        rw [limitReached] at hsome
        split at hsome
        · obtain rfl := Option.some.inj hsome
          exact ⟨rfl, by omega⟩
        · simp at hsome
  · rintro ⟨rfl, hle⟩
    exact limitReached_eq_some hle hc

-- A run goes on where its limit allows a step and the step succeeds, and nowhere else.
theorem turn_eq_more_iff {e e' : Engine} {limit : Option Int} {start : Nat} :
    e.turn limit start = (e', .more) ↔
      limitReached limit start e = none ∧ e.Succeeds ∧ e' = e.step.1 := by
  have hended : ∀ (d : Engine) (f : Fault), turnOf (d.haltOn f) ≠ (e', .more) := by
    intro d f
    rcases d.haltOn f with ⟨d', _ | _⟩ <;> simp [turnOf]
  have hturned := e.turned limit start
  generalize e.turn limit start = r at hturned ⊢
  cases hturned with
  | halted hh => simp [Succeeds, step_of_halted hh]
  | limit _ hl _ => simp [hl, hended]
  | unnamed _ hl _ => simp [hl]
  | stopped hh _ hf => simp [Succeeds, step_of_stop hh hf, hended]
  | failed _ _ hs => simp [Succeeds, hs]
  | went _ hl hs => simp [Succeeds, hl, hs, eq_comm]

theorem lastTurn_injective : Function.Injective lastTurn := by
  rintro (x | u) (x' | u') h <;> simp_all [lastTurn]

theorem turnOf_eq (r : Engine × Except ChannelError Unit) :
    turnOf r = (r.1, lastTurn (r.2.mapError .channel)) := by
  rcases r with ⟨e, x | u⟩ <;> rfl

-- The turns of a run that ends lead to its last turn, and that one ends it.
theorem exists_stops_of_turns {e : Engine} {limit : Option Int} {granted j : Nat}
    {p : Engine × Except Failure Unit} (hgo : e.Goes j) (hwithin : ∀ i < j, Within limit i)
    (h : turns limit e.processor.cycles granted (e.after j) = some p) :
    ∃ c, e.Stops limit c ∧ (e.after c).turn limit e.processor.cycles = (p.1, lastTurn p.2) := by
  induction granted generalizing j with
  | zero => simp [turns] at h
  | succ k ih =>
      have hreached : limitReached limit e.processor.cycles (e.after j) = none ↔ Within limit j :=
        limitReached_eq_none_iff hgo.advanced.cycles
      rw [turns] at h
      split at h
      · rename_i e' hturn
        obtain ⟨hl, hs, rfl⟩ := turn_eq_more_iff.mp hturn
        refine ih (j := j + 1) ((goes_succ_iff e j).mpr ⟨hgo, hs⟩) (fun i hi => ?_) h
        rcases Nat.lt_succ_iff_lt_or_eq.mp hi with hlt | rfl
        · exact hwithin i hlt
        · exact hreached.mp hl
      all_goals
        rename_i e' hturn
        obtain rfl := Option.some.inj h
        refine ⟨j, ⟨hgo, hwithin, fun hlimit hs => ?_⟩, hturn⟩
        have hmore := turn_eq_more_iff.mpr ⟨hreached.mpr hlimit, hs, rfl⟩
        rw [hturn] at hmore
        simp at hmore

-- Turns that are used up are steps that all went well.
theorem goes_of_turns_eq_none {e : Engine} {limit : Option Int} {start granted j : Nat} (hgo : e.Goes j)
    (h : turns limit start granted (e.after j) = none) : e.Goes (j + granted) := by
  induction granted generalizing j with
  | zero => exact hgo
  | succ granted ih =>
      rw [turns] at h
      split at h
      · rename_i e' hturn
        obtain ⟨-, hsucceeds, rfl⟩ := turn_eq_more_iff.mp hturn
        rw [← Nat.succ_add_eq_add_succ]
        exact ih ((goes_succ_iff e j).mpr ⟨hgo, hsucceeds⟩) h
      · simp at h
      · simp at h

theorem runs_of_not_goes {e : Engine} {m : Nat} (h : ¬e.Goes m) (limit : Option Int) :
    ∃ r, e.Runs limit r := by
  cases hrun : run? limit m e with
  | some r => exact ⟨r, m, hrun⟩
  | none =>
      rw [run?] at hrun
      split at hrun
      · rename_i hturns
        have hgo := goes_of_turns_eq_none e.goes_zero hturns
        rw [Nat.zero_add] at hgo
        exact absurd hgo h
      · simp at hrun
      · simp at hrun

theorem Runs.exists_stops {e : Engine} {limit : Option Int} {r : Engine × Except Failure Nat}
    (h : e.Runs limit r) :
    ∃ c p, e.Stops limit c ∧ (e.after c).turn limit e.processor.cycles = (p.1, lastTurn p.2) ∧
      r = e.counted p := by
  obtain ⟨granted, p, hturns, hr⟩ := runs_iff.mp h
  have hwithin : ∀ i < 0, Within limit i := fun i hi => absurd hi (Nat.not_lt_zero i)
  obtain ⟨c, hstops, hturn⟩ := exists_stops_of_turns e.goes_zero hwithin hturns
  exact ⟨c, p, hstops, hturn, hr⟩

-- The abort behind a run that failed.
def concluded : Engine × Except Failure Unit → Engine × Except ChannelError Unit
  | (e, .ok ()) => (e, .ok ())
  | (e, .error x) => e.abort x

theorem exists_stops_of_task? {e : Engine} {limit : Option Int} {granted : Nat}
    {r : Engine × Except ChannelError Unit} (h : task? limit granted e = some r) :
    ∃ c p, e.Stops limit c ∧ (e.after c).turn limit e.processor.cycles = (p.1, lastTurn p.2) ∧
      r = concluded p := by
  rw [task?] at h
  cases hrun : run? limit granted e with
  | none => simp [hrun] at h
  | some q =>
      obtain ⟨c, p, hstops, hturn, rfl⟩ := Runs.exists_stops ⟨granted, hrun⟩
      refine ⟨c, p, hstops, hturn, ?_⟩
      rcases p with ⟨d, x | u⟩ <;>
        simp only [hrun, counted, Except.map, Option.some.injEq] at h <;> exact h.symm

-- An engine that was halted for a reason, and said so if it could.
structure Closes (e : Engine) (f : Fault) (e' : Engine) : Prop where
  halted : e'.halted = true
  fault : e'.fault = some f
  status : e'.status = if e.status.closed then e.status else e.status.pushed (.halt e'.haltSignal)

-- A signal that has been tried is not tried again, so that the fault of the halt is the one that stays.
theorem abort_of_signalled {e : Engine} (h : e.signalled = true) (x : Failure) :
    e.abort x = ({ e with fault := e.fault.or (some (e.abortFault x)) }.setHalt, .ok ()) := by
  rw [abort, signalHalt, if_pos]
  exact h

theorem closes_announced {e m : Engine} {f : Fault} (hh : m.halted = true) (hfault : m.fault = some f)
    (hsignalled : m.signalled = false) (hstatus : m.status = e.status) (hs : e.status.closed = false) :
    e.Closes f m.announced where
  halted := by simpa using hh
  fault := by simpa using hfault
  status := by
    rw [hs, if_neg (by simp), haltSignal_announced, announced, hsignalled, if_neg (by simp), hstatus]

theorem closes_haltOn {e : Engine} (hsignalled : e.signalled = false) (f : Fault) :
    (concluded ((e.haltOn f).1, (e.haltOn f).2.mapError .channel)).2 = .ok () ∧
      e.Closes f (concluded ((e.haltOn f).1, (e.haltOn f).2.mapError .channel)).1 := by
  rw [haltOn]
  rcases signalHalt_cases { e with fault := some f }.setHalt with ⟨-, hs, hsignal⟩ | ⟨hheard, hsignal⟩ <;>
    rw [hsignal]
  · rw [Except.mapError, concluded, abort_of_signalled rfl]
    have hclosed : e.status.closed = true := hs
    exact ⟨rfl, rfl, rfl, by rw [hclosed]; rfl⟩
  · have hopen : e.status.closed = false := hheard.resolve_left (by simp [setHalt, hsignalled])
    exact ⟨rfl, closes_announced rfl rfl hsignalled rfl hopen⟩

theorem closes_abort {e : Engine} (hsignalled : e.signalled = false) (hfault : e.fault = none)
    (x : Failure) :
    (e.abort x).2 = (if e.status.closed then .error (.putOnClosed e.status.name) else .ok ()) ∧
      e.Closes (e.abortFault x) (e.abort x).1 := by
  rw [abort, hfault, Option.none_or]
  rcases signalHalt_cases { e with fault := some (e.abortFault x) }.setHalt with
    ⟨-, hs, hsignal⟩ | ⟨hheard, hsignal⟩ <;> rw [hsignal]
  · have hclosed : e.status.closed = true := hs
    rw [hclosed]
    exact ⟨rfl, rfl, rfl, by rw [hclosed]; rfl⟩
  · have hopen : e.status.closed = false := hheard.resolve_left (by simp [setHalt, hsignalled])
    rw [hopen]
    exact ⟨rfl, closes_announced rfl rfl hsignalled rfl hopen⟩

-- The end of the program could not be told, and that is then the fault.
theorem closes_abort_of_unheard {e m : Engine} (hsignalled : m.signalled = true) (hfault : m.fault = none)
    (hstatus : m.status = e.status) (hs : e.status.closed = true) (x : Failure) :
    (m.abort x).2 = .ok () ∧ e.Closes (m.abortFault x) (m.abort x).1 := by
  rw [abort_of_signalled hsignalled, hfault, Option.none_or]
  exact ⟨rfl, rfl, rfl, by rw [hs, if_pos rfl]; exact hstatus⟩

-- How the task ends behind so many steps.
inductive TaskEnds (e : Engine) (limit : Option Int) (c : Nat) :
    Engine × Except ChannelError Unit → Prop where
  | clean (hh : (e.after c).halted = true) : TaskEnds e limit c (e.after c, .ok ())
  | limit {e' : Engine} {n : Int} {f : Fault} (hexhausts : e.Exhausts limit c n)
      (hf : Fault.stepLimit? n (e.after c).processor.ip = some f) (h : (e.after c).Closes f e') :
      TaskEnds e limit c (e', .ok ())
  | unnamed {e' : Engine} {n : Int} (hexhausts : e.Exhausts limit c n)
      (hf : Fault.stepLimit? n (e.after c).processor.ip = none)
      (h : (e.after c).Closes ((e.after c).abortFault (.value Text.tooLong)) e') :
      TaskEnds e limit c (e', if e.status.closed then .error (.putOnClosed e.status.name) else .ok ())
  | fault {e' : Engine} {f : Fault} (hrunsTo : e.RunsTo limit c) (hlimit : Within limit c)
      (hf : (e.after c).processor.stop? = some f) (h : (e.after c).Closes f e') :
      TaskEnds e limit c (e', .ok ())
  | refused {e' : Engine} {f : Fault} {addr : Int} (hexecutes : e.Executes limit c (.prn addr))
      (ho : e.output.closed = true) (h : (e.after c).Closes f e') :
      TaskEnds e limit c (e', if e.status.closed then .error (.putOnClosed e.status.name) else .ok ())
  | unheard {e' : Engine} {f : Fault} (hexecutes : e.Executes limit c .eof) (hs : e.status.closed = true)
      (h : (e.after c).Closes f e') : TaskEnds e limit c (e', .ok ())

-- The abort behind a step that nobody took the output or the signal of.
theorem taskEnds_of_failed {e e' : Engine} (hsettled : e.Settled) {limit : Option Int} {c : Nat}
    (h : e.RunsTo limit c) (hlimit : Within limit c) {x : ChannelError}
    (hs : (e.after c).step = (e', .error (.channel x))) :
    e.TaskEnds limit c (e'.abort (.channel x)) := by
  have hstatus := h.goes.advanced.status h.running
  have hfault := (hsettled.after c).fault h.running
  have hsignalled : (e.after c).signalled = false := (hsettled.after c).signalled.trans h.running
  have hstepped := (e.after c).stepped
  rw [hs] at hstepped
  cases hstepped with
  | refused _ hf hsent ho =>
      obtain ⟨hr, hcloses⟩ := closes_abort hsignalled hfault
        (.channel (.putOnClosed (e.after c).output.name))
      obtain ⟨addr, haddr⟩ := Change.exists_prn_of_sent hsent
      have hrefused := TaskEnds.refused ⟨h, hlimit, hf, haddr⟩ (h.goes.advanced.output ▸ ho) hcloses
      rwa [← hstatus, ← hr] at hrefused
  | unheard _ hf hhalts _ hclosed =>
      obtain ⟨hok, hcloses⟩ := closes_abort_of_unheard (e := e.after c)
        (m := { (e.after c).moved with signalled := true }) rfl hfault rfl hclosed
        (.channel (.putOnClosed (e.after c).status.name))
      have heof := Change.eq_eof_of_halts hhalts
      have hunheard := TaskEnds.unheard ⟨h, hlimit, hf, heof⟩ (hstatus ▸ hclosed) hcloses
      rwa [← hok] at hunheard

-- The turn that ends the run, by what it came to.
theorem taskEnds_of_stops {e : Engine} (hsettled : e.Settled) {limit : Option Int} {c : Nat}
    (h : e.Stops limit c) {d : Engine} {a : Except Failure Unit}
    (hturn : (e.after c).turn limit e.processor.cycles = (d, lastTurn a)) :
    e.TaskEnds limit c (concluded (d, a)) := by
  have hcycles := h.goes.advanced.cycles
  have hrunsTo : (e.after c).halted = false → e.RunsTo limit c := fun hh => ⟨h.goes, h.within, hh⟩
  have hsignalled : (e.after c).halted = false → (e.after c).signalled = false :=
    fun hh => (hsettled.after c).signalled.trans hh
  have hturned := (e.after c).turned limit e.processor.cycles
  generalize (e.after c).turn limit e.processor.cycles = t at hturned hturn
  have hlast : ∀ {b}, lastTurn b = lastTurn a → b = a := fun h => lastTurn_injective h
  cases hturned with
  | halted hh =>
      obtain ⟨rfl, hended⟩ := Prod.mk.inj hturn
      obtain rfl := hlast (b := .ok ()) hended
      exact .clean hh
  | @limit n f hh hl hf =>
      rw [turnOf_eq, Prod.mk.injEq] at hturn
      obtain ⟨rfl, hended⟩ := hturn
      obtain rfl := hlast hended
      obtain ⟨hn, hle⟩ := (limitReached_eq_some_iff hcycles).mp hl
      obtain ⟨hok, hcloses⟩ := closes_haltOn (hsignalled hh) f
      have hlimit := TaskEnds.limit ⟨hrunsTo hh, hn, hle⟩ hf hcloses
      rwa [← hok] at hlimit
  | @unnamed n hh hl hf =>
      obtain ⟨rfl, hended⟩ := Prod.mk.inj hturn
      obtain rfl := hlast (b := .error _) hended
      obtain ⟨hn, hle⟩ := (limitReached_eq_some_iff hcycles).mp hl
      obtain ⟨hr, hcloses⟩ := closes_abort (hsignalled hh) ((hsettled.after c).fault hh) (.value Text.tooLong)
      have hunnamed := TaskEnds.unnamed ⟨hrunsTo hh, hn, hle⟩ hf hcloses
      rwa [← h.goes.advanced.status hh, ← hr] at hunnamed
  | @stopped f hh hl hf =>
      rw [turnOf_eq, Prod.mk.injEq] at hturn
      obtain ⟨rfl, hended⟩ := hturn
      obtain rfl := hlast hended
      have hlimit := (limitReached_eq_none_iff hcycles).mp hl
      obtain ⟨hok, hcloses⟩ := closes_haltOn (e := (e.after c).stopped) (hsignalled hh) f
      have hfault := TaskEnds.fault (hrunsTo hh) hlimit hf
        ⟨hcloses.halted, hcloses.fault, hcloses.status⟩
      rwa [← hok] at hfault
  | @failed e' x hh hl hs =>
      obtain ⟨rfl, hended⟩ := Prod.mk.inj hturn
      obtain rfl := hlast (b := .error _) hended
      have hlimit := (limitReached_eq_none_iff hcycles).mp hl
      exact taskEnds_of_failed hsettled (hrunsTo hh) hlimit hs
  | went hh hl hs =>
      have hlimit := (limitReached_eq_none_iff hcycles).mp hl
      exact absurd ⟨_, congrArg Prod.snd hs⟩ (h.last hlimit)

theorem exists_taskEnds {e : Engine} (hsettled : e.Settled) {limit : Option Int} {granted : Nat}
    {r : Engine × Except ChannelError Unit} (h : task? limit granted e = some r) :
    ∃ c, e.Stops limit c ∧ e.TaskEnds limit c r := by
  obtain ⟨c, p, hstops, hturn, rfl⟩ := exists_stops_of_task? h
  exact ⟨c, hstops, taskEnds_of_stops hsettled hstops hturn⟩

-- What the task owes whoever started it on an engine that ran.
structure Accounted (e : Engine) (limit : Option Int) (e' : Engine) (r : Except ChannelError Unit) :
    Prop where
  halted : e'.halted = true
  clean : e'.fault = none ↔
    (∃ j, e.Executes limit j .eof) ∧ ∃ signal, e'.status.items = e.status.items ++ [.halt signal]
  -- A fault of a step and the limit are recorded, whether or not anybody could be told.
  stepFault : ∀ j f, e.RunsTo limit j → Within limit j → (e.after j).step.2 = .error (.fault f) →
    e'.fault = some f
  limitFault : ∀ j n, e.Exhausts limit j n → (Nat.toDigits 10 n.natAbs).length ≤ 4300 →
    e'.fault = some ⟨.stepLimit ("Step limit of " ++ toString n ++ " reached"), some (e.after j).processor.ip⟩
  -- A limit too long to be named leaves an error of the engine in place of the fault.
  limitError : ∀ j n, e.Exhausts limit j n → 4300 < (Nat.toDigits 10 n.natAbs).length →
    e'.fault = some ⟨.engine ("Engine error: ValueError('Exceeds the limit (4300 digits) for integer " ++
      "string conversion; use sys.set_int_max_str_digits() to increase the limit')"),
      some (e.after j).processor.ip⟩
  told : e.status.closed = false →
    e'.status.items = e.status.items ++ [.halt ⟨e'.processor.cycles, e'.fault⟩]
  raised : ∀ x, r = .error x ↔
    x = .putOnClosed e.status.name ∧ e.status.closed = true ∧
      ((e.output.closed = true ∧ ∃ j addr, e.Executes limit j (.prn addr)) ∨
        ∃ j n, e.Exhausts limit j n ∧ 4300 < (Nat.toDigits 10 n.natAbs).length)

-- An engine that halts without a fault did so at the end of the program, and was heard.
theorem Stops.clean {e : Engine} (hsettled : e.Settled) (hh : e.halted = false) {limit : Option Int}
    {c : Nat} (h : e.Stops limit c) (hc : (e.after c).halted = true) :
    (∃ j, e.Executes limit j .eof) ∧ (e.after c).fault = none ∧ e.status.closed = false ∧
      (e.after c).status = e.status.pushed (.halt (e.after c).haltSignal) := by
  cases c with
  | zero => exact absurd (hh.symm.trans hc) (by simp)
  | succ j =>
      obtain ⟨hgo, hlast⟩ := (goes_succ_iff e j).mp h.goes
      obtain ⟨hrunning, hf, -, hheard, hstep⟩ := went_of_succeeds hlast
      have hsettled' := hsettled.after j
      have hsignalled := hsettled'.signalled.trans hrunning
      have hfault := hsettled'.fault hrunning
      have hstatus := hgo.advanced.status hrunning
      rw [Engine.after, hstep] at hc ⊢
      have hhalts : (e.after j).processor.change.halts = true := (halted_next hrunning).symm.trans hc
      have hnext := status_next hrunning hsignalled hfault
      rw [hhalts, if_pos rfl, hstatus] at hnext
      have hnofault : (e.after j).next.fault = none := (fault_next _).trans hfault
      have hopen : e.status.closed = false := by simpa [hhalts, hsignalled, hstatus] using hheard
      refine ⟨⟨j, ⟨hgo, fun i hi => h.within i (by omega), hrunning⟩, h.within j (by omega), hf,
        Change.eq_eof_of_halts hhalts⟩, hnofault, hopen, ?_⟩
      simp [hnext, haltSignal, hfault]

theorem Executes.stops_of_refused {e : Engine} {limit : Option Int} {j : Nat} {addr : Int}
    (h : e.Executes limit j (.prn addr)) (ho : e.output.closed = true) : e.Stops limit j := by
  refine h.runsTo.stops fun _ hsucceeds => ?_
  obtain ⟨-, -, hsent, -, -⟩ := went_of_succeeds hsucceeds
  rw [h.runsTo.goes.advanced.output, ho, Processor.change, h.current] at hsent
  simp [Change.of] at hsent

-- With somebody to tell, the end of the program is a step that succeeds, and the last.
theorem Executes.stops_of_heard {e : Engine} {limit : Option Int} {j : Nat}
    (h : e.Executes limit j .eof) (hs : e.status.closed = false) :
    e.Stops limit (j + 1) ∧ (e.after (j + 1)).halted = true := by
  have hchange : (e.after j).processor.change = .of (e.after j).processor.memory
      (e.after j).processor.flags .eof := by rw [Processor.change, h.current]
  have hsucceeds : (e.after j).Succeeds := by
    have hstepped := (e.after j).stepped
    rw [Succeeds]
    generalize (e.after j).step = r at hstepped ⊢
    cases hstepped with
    | halted hh => simp [h.runsTo.running] at hh
    | stopped _ hf => simp [h.unstopped] at hf
    | refused _ _ hsent _ => simp [hchange, Change.of] at hsent
    | unheard hh _ _ _ hclosed => simp [h.runsTo.goes.advanced.status hh, hs] at hclosed
    | went _ _ _ _ => exact ⟨_, rfl⟩
  have hgo := (goes_succ_iff e j).mpr ⟨h.runsTo.goes, hsucceeds⟩
  have hhalted : (e.after (j + 1)).halted = true := by
    obtain ⟨hh, -, -, -, hstep⟩ := went_of_succeeds hsucceeds
    rw [Engine.after, hstep, halted_next hh, hchange]
    rfl
  refine ⟨⟨hgo, fun i hi => ?_, fun _ hfurther => ?_⟩, hhalted⟩
  · rcases Nat.lt_succ_iff_lt_or_eq.mp hi with hlt | rfl
    · exact h.runsTo.within i hlt
    · exact h.within
  · obtain ⟨_, hi⟩ := hfurther
    simp [step_of_halted hhalted] at hi

theorem TaskEnds.clean_or_closes {e e' : Engine} {limit : Option Int} {c : Nat}
    {r : Except ChannelError Unit} (h : e.TaskEnds limit c (e', r)) :
    ((e.after c).halted = true ∧ e' = e.after c) ∨
      ∃ f, (e.after c).halted = false ∧ (e.after c).Closes f e' := by
  cases h with
  | clean hh => exact Or.inl ⟨hh, rfl⟩
  | limit hexhausts _ hcloses | unnamed hexhausts _ hcloses =>
      exact Or.inr ⟨_, hexhausts.runsTo.running, hcloses⟩
  | fault hrunsTo _ _ hcloses => exact Or.inr ⟨_, hrunsTo.running, hcloses⟩
  | refused hexecutes _ hcloses => exact Or.inr ⟨_, hexecutes.runsTo.running, hcloses⟩
  | unheard hexecutes _ hcloses => exact Or.inr ⟨_, hexecutes.runsTo.running, hcloses⟩

theorem Closes.items {e d e' : Engine} {f : Fault} (h : d.Closes f e') (hstatus : d.status = e.status) :
    e'.status.items = e.status.items ++ if e.status.closed then [] else [.halt e'.haltSignal] := by
  rw [h.status, hstatus]
  split
  · exact (List.append_nil _).symm
  · exact Channel.items_pushed _ _

section Ended

variable {e e' : Engine} {limit : Option Int} {c : Nat} {r : Except ChannelError Unit}
  (hstops : e.Stops limit c) (hends : e.TaskEnds limit c (e', r))

include hstops hends

theorem TaskEnds.clean_iff (hsettled : e.Settled) (hh : e.halted = false) :
    e'.fault = none ↔
      (∃ j, e.Executes limit j .eof) ∧ ∃ signal, e'.status.items = e.status.items ++ [.halt signal] := by
  rcases hends.clean_or_closes with ⟨hc, rfl⟩ | ⟨f, hrunning, hcloses⟩
  · obtain ⟨heof, hfault, -, hstatus⟩ := hstops.clean hsettled hh hc
    exact ⟨fun _ => ⟨heof, _, by rw [hstatus, Channel.items_pushed]⟩, fun _ => hfault⟩
  · have hitems := hcloses.items (hstops.goes.advanced.status hrunning)
    refine ⟨fun hnone => by simp [hcloses.fault] at hnone, ?_⟩
    rintro ⟨⟨j, heof⟩, signal, hpushed⟩
    cases hs : e.status.closed with
    | true => simp [hitems, hs] at hpushed
    | false =>
        obtain ⟨hstops', hhalted⟩ := heof.stops_of_heard hs
        rw [hstops'.unique hstops, hrunning] at hhalted
        simp at hhalted

theorem TaskEnds.fault_of_step {j : Nat} {f : Fault} (hrunsTo : e.RunsTo limit j)
    (hlimit : Within limit j) (hstep : (e.after j).step.2 = .error (.fault f)) : e'.fault = some f := by
  have hlast : ¬(e.after j).Succeeds := by
    rintro ⟨i, hi⟩
    simp [hstep] at hi
  have hstops' := hrunsTo.stops fun _ => hlast
  obtain rfl := hstops'.unique hstops
  obtain ⟨-, hf, -⟩ := eq_stopped_of_fault (Prod.ext rfl hstep)
  cases hends with
  | clean hc => simp [hrunsTo.running] at hc
  | limit hexhausts _ _ | unnamed hexhausts _ _ => exact absurd hlimit hexhausts.not_within
  | fault _ _ hf' hcloses =>
      rw [hcloses.fault]
      exact hf'.symm.trans hf
  | refused hexecutes _ _ => simp [hexecutes.unstopped] at hf
  | unheard hexecutes _ _ => simp [hexecutes.unstopped] at hf

-- The fault of a run that has used up its limit is the one that names the limit, where there is one.
theorem TaskEnds.fault_of_limit {j : Nat} {n : Int} (hexhausts : e.Exhausts limit j n) :
    e'.fault = some ((Fault.stepLimit? n (e.after j).processor.ip).getD
      ((e.after j).abortFault (.value Text.tooLong))) := by
  obtain rfl := hexhausts.stops.unique hstops
  cases hends with
  | clean hc => simp [hexhausts.runsTo.running] at hc
  | limit hexhausts' hf hcloses =>
      obtain rfl := Option.some.inj (hexhausts.limit.symm.trans hexhausts'.limit)
      rw [hcloses.fault, hf, Option.getD_some]
  | unnamed hexhausts' hf hcloses =>
      obtain rfl := Option.some.inj (hexhausts.limit.symm.trans hexhausts'.limit)
      rw [hcloses.fault, hf, Option.getD_none]
  | fault _ hwithin _ _ => exact absurd hwithin hexhausts.not_within
  | refused hexecutes _ _ | unheard hexecutes _ _ => exact absurd hexecutes.within hexhausts.not_within

theorem TaskEnds.told (hsettled : e.Settled) (hh : e.halted = false) (hs : e.status.closed = false) :
    e'.status.items = e.status.items ++ [.halt e'.haltSignal] := by
  rcases hends.clean_or_closes with ⟨hc, rfl⟩ | ⟨f, hrunning, hcloses⟩
  · obtain ⟨-, -, -, hstatus⟩ := hstops.clean hsettled hh hc
    rw [hstatus, Channel.items_pushed]
  · rw [hcloses.items (hstops.goes.advanced.status hrunning), hs]
    rfl

theorem TaskEnds.raised_iff (x : ChannelError) :
    r = .error x ↔ x = .putOnClosed e.status.name ∧ e.status.closed = true ∧
      ((e.output.closed = true ∧ ∃ j addr, e.Executes limit j (.prn addr)) ∨
        ∃ j n, e.Exhausts limit j n ∧ 4300 < (Nat.toDigits 10 n.natAbs).length) := by
  constructor
  · intro hr
    have hclosed : ∀ {r' : Except ChannelError Unit},
        r' = (if e.status.closed then .error (.putOnClosed e.status.name) else .ok ()) →
        r' = .error x → x = .putOnClosed e.status.name ∧ e.status.closed = true := by
      intro r' hr' hx
      rw [hr'] at hx
      split at hx
      · exact ⟨(Except.error.inj hx).symm, by assumption⟩
      · simp at hx
    cases hends with
    | clean | limit | fault | unheard => simp at hr
    | refused hexecutes ho _ =>
        obtain ⟨hx, hs⟩ := hclosed rfl hr
        exact ⟨hx, hs, .inl ⟨ho, _, _, hexecutes⟩⟩
    | unnamed hexhausts hf _ =>
        obtain ⟨hx, hs⟩ := hclosed rfl hr
        exact ⟨hx, hs, .inr ⟨_, _, hexhausts, Fault.stepLimit?_eq_none_iff.mp hf⟩⟩
  · rintro ⟨rfl, hs, ⟨ho, j, addr, hexecutes⟩ | ⟨j, n, hexhausts, hlong⟩⟩
    · obtain rfl := (hexecutes.stops_of_refused ho).unique hstops
      cases hends with
      | clean hc => simp [hexecutes.runsTo.running] at hc
      | limit hexhausts _ _ => exact absurd hexecutes.within hexhausts.not_within
      | fault _ _ hf _ => simp [hexecutes.unstopped] at hf
      | refused _ _ _ | unnamed _ _ _ => rw [hs, if_pos rfl]
      | unheard heof _ _ => exact absurd (heof.current.symm.trans hexecutes.current) (by simp)
    · obtain rfl := hexhausts.stops.unique hstops
      cases hends with
      | clean hc => simp [hexhausts.runsTo.running] at hc
      | limit hexhausts' hf _ =>
          obtain rfl := Option.some.inj (hexhausts.limit.symm.trans hexhausts'.limit)
          exact absurd (Fault.stepLimit?_eq_some_iff.mp hf).1 (Nat.not_le.mpr hlong)
      | fault _ hwithin _ _ => exact absurd hwithin hexhausts.not_within
      | refused _ _ _ | unnamed _ _ _ => rw [hs, if_pos rfl]
      | unheard heof _ _ => exact absurd heof.within hexhausts.not_within

end Ended

-- A machine that prints its own first word to nobody, and has nobody to tell.
def unattended : Engine :=
  (fresh 1 { name := "output", closed := true } { name := "status", closed := true }).afterLoad
    [0x08, 0, 0, 0]

end Engine

end WordMachine
