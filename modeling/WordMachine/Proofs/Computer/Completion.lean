import WordMachine.Proofs.Computer.Interleaving
import WordMachine.Proofs.Computer.Shutdown

namespace WordMachine.Computer

variable {τ : Type} [TextSink τ] {s s' start : Computer τ}

-- A task that acts as often as it can, but no more than so many times.
def drive (a : Actor) : Nat → Computer τ → Computer τ
  | 0, s => s
  | k + 1, s =>
      match s.act a with
      | some s' => drive a k s'
      | none => s

theorem drive_of_act {a : Actor} (h : s.act a = some s') (k : Nat) : drive a (k + 1) s = drive a k s' := by
  rw [drive, h]

theorem drive_of_idle {a : Actor} (h : s.act a = none) (k : Nat) : drive a k s = s := by
  cases k with
  | zero => rfl
  | succ k => rw [drive, h]

-- What every action of a task keeps is kept by all of them.
theorem drive_induction {a : Actor} {P : Computer τ → Prop} (hstep : ∀ {t t'}, P t → t.act a = some t' → P t')
    (k : Nat) (h : P s) : P (drive a k s) := by
  induction k generalizing s with
  | zero => exact h
  | succ k ih =>
      cases hact : s.act a with
      | none => rwa [drive_of_idle hact]
      | some s' =>
          rw [drive_of_act hact]
          exact ih (hstep h hact)

theorem Reaches.drive {produced : List Item} (h : start.Reaches s produced) (a : Actor) (k : Nat) :
    ∃ more, start.Reaches (drive a k s) more :=
  drive_induction (P := fun t => ∃ more, start.Reaches t more)
    (fun ⟨_, ht⟩ hact => ⟨_, ht.act a hact⟩) k ⟨produced, h⟩

theorem Invariant.drive (h : s.Invariant) (a : Actor) (k : Nat) : (drive a k s).Invariant :=
  drive_induction (fun ht hact => ht.act hact) k h

theorem drive_monitor (k : Nat) (s : Computer τ) :
    drive .monitor k s =
      { s with
        wiring := (Monitor.proceed k s.wiring s.monitor).1
        monitor := (Monitor.proceed k s.wiring s.monitor).2 } := by
  induction k generalizing s with
  | zero => rfl
  | succ k ih =>
      simp only [drive, act, Monitor.proceed]
      cases s.monitor.step s.wiring with
      | none => rfl
      | some r =>
          simp only [Option.map_some]
          rw [ih]

theorem drive_console (k : Nat) (s : Computer τ) :
    drive .console k s =
      { s with
        wiring := (Console.proceed k s.wiring s.console).1
        console := (Console.proceed k s.wiring s.console).2 } := by
  induction k generalizing s with
  | zero => rfl
  | succ k ih =>
      simp only [drive, act, Console.proceed]
      cases s.console.step s.wiring with
      | none => rfl
      | some r =>
          simp only [Option.map_some]
          rw [ih]

-- A task that comes nearer to something with each action is driven until it cannot act.
theorem act_drive_eq_none {a : Actor} {P : Computer τ → Prop} (distance : Computer τ → Nat)
    (hstep : ∀ {t t'}, P t → t.act a = some t' → P t' ∧ distance t' < distance t) {k : Nat} (h : P s)
    (hk : distance s ≤ k) : (drive a k s).act a = none := by
  induction k generalizing s with
  | zero =>
      cases hact : s.act a with
      | none => exact hact
      | some s' => exact absurd (hstep h hact).2 (by omega)
  | succ k ih =>
      cases hact : s.act a with
      | none => rwa [drive_of_idle hact]
      | some s' =>
          obtain ⟨h', hless⟩ := hstep h hact
          rw [drive_of_act hact]
          exact ih h' (by omega)

-- A monitor that is resumed behind a machine that has ended goes on to its own end.
theorem ended_drive_monitor (h : s.Invariant) (hended : s.engineEnded = true) {k : Nat}
    (hk : s.monitor.phase.remaining s.wiring.engine.status.items.length ≤ k) :
    (drive .monitor k s).monitor.ended = true := by
  have hidle : (drive .monitor k s).act .monitor = none := by
    refine act_drive_eq_none (P := Invariant)
      (fun t => t.monitor.phase.remaining t.wiring.engine.status.items.length)
      (fun ht hact => ⟨ht.act hact, ?_⟩) h hk
    obtain ⟨⟨w, m⟩, hmonitor, rfl⟩ := Option.map_eq_some_iff.mp hact
    exact (Monitor.serves_of_step ht.informed ht.listens.1 ht.listens.2 hmonitor).remaining
  have hlast := h.drive .monitor k
  have hends : (drive .monitor k s).engineEnded = true := by
    rw [drive_monitor]
    exact hended
  by_contra hlive
  obtain ⟨r, hr⟩ := Monitor.exists_step hlast.informed hlast.listens.1
    (hlast.settled.signalled.trans (hlast.halted hends)) (by simpa using hlive)
  simp [act, hr] at hidle

theorem ended_drive_console (h : s.Invariant) (hm : s.monitor.ended = true) {k : Nat}
    (hk : s.console.phase.remaining s.wiring.engine.output.items.length ≤ k) :
    (drive .console k s).console.ended = true := by
  have hidle : (drive .console k s).act .console = none := by
    refine act_drive_eq_none (P := Invariant)
      (fun t => t.console.phase.remaining t.wiring.engine.output.items.length)
      (fun ht hact => ⟨ht.act hact, ?_⟩) h hk
    obtain ⟨⟨w, c⟩, hconsole, rfl⟩ := Option.map_eq_some_iff.mp hact
    exact (Console.serves_of_step ht.attentive ht.serves hconsole).remaining
  have hlast := h.drive .console k
  have hmonitor : (drive .console k s).monitor.ended = true := by
    rw [drive_console]
    exact hm
  by_contra hlive
  have hready := hlast.asked ((Monitor.ended_eq _).mp hmonitor)
  obtain ⟨r, hr⟩ := Console.exists_step hlast.attentive hready (by simpa using hlive)
  simp [act, hr] at hidle

-- The actions that a resumed monitor and a resumed console are granted.
def monitorActions (s : Computer τ) : Nat :=
  (ChannelStore.channel s.wiring s.monitor.status : Channel Item).length + 2

def consoleActions (s : Computer τ) : Nat :=
  ((ChannelStore.channel s.wiring s.console.output : Channel Item).length + 2) *
    (Select.actions (Console.channels s.console.output s.console.control) + 3) + 4

theorem settle_eq (s : Computer τ) :
    s.settle =
      drive .console (drive .monitor s.monitorActions s).consoleActions
        (drive .monitor s.monitorActions s) := by
  rw [drive_console, drive_monitor]
  rfl

-- Both devices come to their ends if nobody has resumed them before the machine ended.
theorem ended_settle (h : s.Invariant) (hended : s.engineEnded = true) (hlistening : s.monitor.phase = .listening)
    {event : EventId} (hwaiting : s.console.phase =
      .selecting (.start (Console.channels s.console.output s.console.control) event)) :
    s.settle.monitor.ended = true ∧ s.settle.console.ended = true := by
  obtain ⟨houtput, hcontrol⟩ := h.serves
  have hmonitor : (drive .monitor s.monitorActions s).monitor.ended = true := by
    apply ended_drive_monitor h hended
    rw [hlistening, monitorActions, h.listens.1, ← Channel.length_items]
    exact Nat.le_refl _
  have hconsole : (drive .monitor s.monitorActions s).console = s.console := by rw [drive_monitor]
  have hactions : (drive .monitor s.monitorActions s).consoleActions =
      ((drive .monitor s.monitorActions s).wiring.engine.output.items.length + 2) * 21 + 4 := by
    rw [consoleActions, hconsole, houtput, hcontrol, ← Channel.length_items]
    rfl
  rw [settle_eq]
  constructor
  · rw [drive_console]
    exact hmonitor
  · apply ended_drive_console (h.drive .monitor _) hmonitor
    rw [hactions, hconsole, hwaiting, houtput, hcontrol]
    simp only [ConsolePhase.remaining, Select.cost, Select.start, Console.channels, List.length_cons,
      List.length_nil]
    omega

theorem finishEngine?_eq_some {k : Nat} (h : finishEngine? k s = some s') :
    s' = drive .engine k s ∧ s'.engineStep = none := by
  induction k generalizing s with
  | zero => simp [finishEngine?] at h
  | succ k ih =>
      rw [finishEngine?] at h
      have hact : s.act .engine = s.engineStep := rfl
      cases hstep : s.engineStep with
      | none =>
          rw [hstep] at h hact
          obtain rfl := Option.some.inj h
          exact ⟨(drive_of_idle hact _).symm, hstep⟩
      | some t =>
          rw [hstep] at h hact
          rw [drive_of_act hact]
          exact ih h

omit [TextSink τ] in
-- The turns of the machine alone, and one more action that finds it ended.
theorem exists_finishEngine? {start k : Nat} (hphase : s.enginePhase = .running start) {e : Engine}
    (hturns : Engine.turns s.limit start k s.engine = some (e, .ok ())) :
    ∃ s', finishEngine? (k + 1) s = some s' := by
  induction k generalizing s with
  | zero => simp [Engine.turns] at hturns
  | succ k ih =>
      rw [Engine.turns] at hturns
      split at hturns
      · rename_i next hturn
        rw [finishEngine?, engineStep_of_turn hphase hturn]
        exact ih rfl hturns
      · rename_i next hturn
        rw [finishEngine?, engineStep_of_turn hphase hturn]
        exact ⟨_, rfl⟩
      · simp at hturns

omit [TextSink τ] in
-- The engine task does nothing to the devices, and is never sent back to where it has not begun.
theorem devices_of_engineStep (h : s.engineStep = some s') :
    s'.monitor = s.monitor ∧ s'.console = s.console ∧ s'.enginePhase ≠ .idle := by
  rw [engineStep] at h
  split at h <;> simp only [Option.some.injEq, reduceCtorEq] at h
  · subst h
    refine ⟨rfl, rfl, ?_⟩
    dsimp only
    split <;> simp
  · subst h
    exact ⟨rfl, rfl, by simp⟩

omit [TextSink τ] in
theorem engineEnded_of_idle (hstep : s.engineStep = none) (hbegun : s.enginePhase ≠ .idle) :
    s.engineEnded = true := by
  rw [engineStep] at hstep
  rw [engineEnded]
  split at hstep
  · rename_i hidle
    exact absurd hidle hbegun
  · simp at hstep
  · simp at hstep
  · rename_i left hended
    rw [hended]

-- A run that was started and has come to an answer.
theorem ended_of_start? {granted : Nat} {failure : Option Failure} (hs : Prepared s)
    (h : s.start? granted failure = some (.ok s')) :
    (∃ produced, (s.begin failure).Reaches s' produced) ∧ s'.engineEnded = true ∧
      s'.monitor.ended = true ∧ s'.console.ended = true := by
  rw [start?] at h
  split at h
  · simp at h
  · split at h
    · simp at h
    · rename_i last hfinish
      simp only [Option.some.injEq, Except.ok.injEq] at h
      subst h
      obtain ⟨rfl, hstep⟩ := finishEngine?_eq_some hfinish
      generalize hlast : drive .engine granted (s.begin failure) = last at hstep hfinish ⊢
      have hkept : last.monitor = (s.begin failure).monitor ∧ last.console = (s.begin failure).console ∧
          last.enginePhase ≠ .idle := by
        rw [← hlast]
        refine drive_induction (P := fun t => t.monitor = (s.begin failure).monitor ∧
          t.console = (s.begin failure).console ∧ t.enginePhase ≠ .idle)
          (fun ht hact => ?_) granted ⟨rfl, rfl, by cases failure <;> simp [begin, beginEngine]⟩
        obtain ⟨hmonitor, hconsole, hbegun⟩ := devices_of_engineStep hact
        exact ⟨hmonitor.trans ht.1, hconsole.trans ht.2.1, hbegun⟩
      have hinvariant : last.Invariant := hlast ▸ (hs.invariant failure).drive .engine granted
      have hended := engineEnded_of_idle hstep hkept.2.2
      have hbegins : (s.begin failure).Reaches (s.begin failure) [] := .start
      obtain ⟨_, hreaches⟩ := hbegins.drive .engine granted
      rw [hlast] at hreaches
      obtain ⟨_, hmonitors⟩ := hreaches.drive .monitor last.monitorActions
      have hends := ended_settle hinvariant hended (by rw [hkept.1]; rfl) (by rw [hkept.2.1]; rfl)
      refine ⟨?_, hended, hends⟩
      rw [settle_eq]
      exact hmonitors.drive .console _

theorem exists_start? {plain : Engine} {n : Nat} (hstarted : s.started = false)
    (hruns : s.engine.Runs s.limit (plain, .ok n)) :
    ∃ least, ∀ granted, least ≤ granted → ∃ s', s.start? granted none = some (.ok s') := by
  obtain ⟨⟨least, hturns⟩, -⟩ := Engine.runs_ok_iff.mp hruns
  refine ⟨least + 1, fun granted hgranted => ?_⟩
  have hmore := Engine.turns_add hturns (granted - (least + 1))
  have hbegun : (s.begin none).enginePhase = .running s.engine.processor.cycles := rfl
  obtain ⟨last, hlast⟩ := exists_finishEngine? hbegun hmore
  have hgrants : least + (granted - (least + 1)) + 1 = granted := by omega
  rw [hgrants] at hlast
  exact ⟨last.settle, by simp [start?, hstarted, hlast]⟩

-- What can be seen of a computer whose tasks have ended, by the run of the machine alone.
structure Displays (sink : Sink) (plain : Engine) (s : Computer Sink) : Prop where
  processor : s.engine.processor = plain.processor
  fault : s.engine.fault = plain.fault
  error : s.console.error = none
  text : ∃ texts : List String, plain.output.items = texts.map .text ∧
    s.console.sink.text = sink.text ++ String.join texts

section Loaded

variable {room : Nat} {size : Int} {limit : Option Int} {e plain : Engine} {bytes : Bytes} {produced : List Item}

-- At every moment of a run there is the machine alone to hold it against.
theorem exists_coordinated {sink : τ} {c : Computer τ} (hcreate : create room size limit sink = .ok c)
    (hload : c.engine.load bytes = .ok e)
    (hreaches : ((c.withEngine e).begin none).Reaches s produced) :
    ∃ q, s.Coordinated sink q ∧ s.Follows limit e q ∧ q.output.items = produced := by
  obtain ⟨hc, hlimit, hitems⟩ := loaded_of_create hcreate hload
  exact hreaches.coordinated hc
    ⟨hlimit, Or.inl ⟨rfl, 0, fun granted => by rw [Nat.zero_add]⟩⟩ hitems

theorem exists_runs {sink : τ} {c : Computer τ} (hcreate : create room size limit sink = .ok c)
    (hload : c.engine.load bytes = .ok e) (hreaches : ((c.withEngine e).begin none).Reaches s produced)
    (hended : s.engineEnded = true) : ∃ r, e.Runs limit r := by
  obtain ⟨_, _, hfollows, _⟩ := exists_coordinated hcreate hload hreaches
  obtain ⟨r, hruns, _⟩ := hfollows.runs hended
  exact ⟨r, hruns⟩

-- In whatever order the tasks came to their ends.
theorem displays_of_reaches {sink : Sink} {c s : Computer Sink} {n : Nat} (hsink : sink.Whole)
    (hcreate : create room size limit sink = .ok c) (hload : c.engine.load bytes = .ok e)
    (hreaches : ((c.withEngine e).begin none).Reaches s produced) (hplain : e.Runs limit (plain, .ok n))
    (hengine : s.engineEnded = true) (hmonitor : s.monitor.ended = true)
    (hconsole : s.console.ended = true) : s.Displays sink plain := by
  obtain ⟨q, hq, hfollows, rfl⟩ := exists_coordinated hcreate hload hreaches
  have htakes : TextSink.OnlyUnencodable sink := Sink.onlyUnencodable hsink.failWrite hsink.failFlush
  have hagrees := agrees_of_coordinated hq hfollows hplain
  obtain ⟨hprocessor, hfault, hproduced⟩ := hagrees.engine hengine
  obtain ⟨-, htext, hall⟩ := hsink.receives (hagrees.complete htakes hengine hmonitor hconsole).1 hq.told.texts
  exact ⟨hprocessor, hfault, hq.console_error htakes, _, hproduced ▸ hall, htext⟩

end Loaded

end WordMachine.Computer
