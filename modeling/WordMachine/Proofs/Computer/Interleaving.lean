import WordMachine.Proofs.Computer.Action
import WordMachine.Proofs.Engine.Run

namespace WordMachine.Computer

variable {τ : Type} {sink : τ} {s s' : Computer τ} {limit : Option Int} {e q plain : Engine}

-- What an action puts on the output channel; only the engine puts anything there.
def putOut (a : Actor) (s s' : Computer τ) : List Item :=
  match a with
  | .engine => s'.engine.output.items.drop s.engine.output.items.length
  | .monitor => []
  | .console => []

-- The machine as the engine task leaves it behind a run: a run that failed is aborted.
def machineBehind : Engine × Except Failure Nat → Engine
  | (e, .ok _) => e
  | (e, .error x) => (e.abort x).1

-- The engine task goes the way of a run that an engine makes alone: a run that is on its way, or one that has
-- failed, or one that has ended and been aborted if it failed.
def Follows (s : Computer τ) (limit : Option Int) (e q : Engine) : Prop :=
  s.limit = limit ∧
    ((s.enginePhase = .running e.processor.cycles ∧
        ∃ made, ∀ granted, Engine.turns limit e.processor.cycles (made + granted) e =
          Engine.turns limit e.processor.cycles granted q) ∨
      (∃ x, s.enginePhase = .aborting x ∧ q.halted = false ∧ e.Runs limit (q, .error x)) ∨
      (s.enginePhase = .ended none ∧ ∃ r, e.Runs limit r ∧ q = machineBehind r))

-- Where a turn leads the engine task.
def phaseAfter (start : Nat) : Turn → EnginePhase
  | .more => .running start
  | .ended => .ended none
  | .failed x => .aborting x

theorem engineStep_of_turn {start : Nat} (hphase : s.enginePhase = .running start) {e' : Engine} {t : Turn}
    (hturn : s.engine.turn s.limit start = (e', t)) :
    s.engineStep = some
      { s with wiring := s.wiring.engineMoved e', enginePhase := phaseAfter start t } := by
  simp only [engineStep, hphase, hturn]
  cases t <;> rfl

theorem Follows.runs (hf : s.Follows limit e q) (hended : s.engineEnded = true) :
    ∃ r, e.Runs limit r ∧ q = machineBehind r := by
  obtain ⟨_, ⟨hphase, _⟩ | ⟨_, hphase, _⟩ | ⟨_, hruns⟩⟩ := hf
  · simp [engineEnded, hphase] at hended
  · simp [engineEnded, hphase] at hended
  · exact hruns

variable [TextSink τ]

-- The states the tasks come to by acting one at a time in any order, with all that was put out on the way.
inductive Reaches (start : Computer τ) : Computer τ → List Item → Prop where
  | start : Reaches start start []
  | act {s s' : Computer τ} {produced : List Item} (h : Reaches start s produced) (a : Actor)
      (hact : s.act a = some s') : Reaches start s' (produced ++ putOut a s s')

-- The tasks acting in a given order; no answer if one of them could not act when it was its turn.
def interleave : List Actor → Computer τ → Option (Computer τ × List Item)
  | [], s => some (s, [])
  | a :: rest, s =>
      match s.act a with
      | none => none
      | some s' => (interleave rest s').map fun r => (r.1, putOut a s s' ++ r.2)

theorem Reaches.interleave {start : Computer τ} {produced : List Item} (h : start.Reaches s produced)
    {schedule : List Actor} {more : List Item} (hs : s.interleave schedule = some (s', more)) :
    start.Reaches s' (produced ++ more) := by
  induction schedule generalizing s produced more with
  | nil =>
      simp only [Computer.interleave, Option.some.injEq, Prod.mk.injEq] at hs
      obtain ⟨rfl, rfl⟩ := hs
      rw [List.append_nil]
      exact h
  | cons a rest ih =>
      simp only [Computer.interleave] at hs
      split at hs
      · simp at hs
      · rename_i next hact
        obtain ⟨⟨last, later⟩, hrest, heq⟩ := Option.map_eq_some_iff.mp hs
        simp only [Prod.mk.injEq] at heq
        obtain ⟨rfl, rfl⟩ := heq
        rw [← List.append_assoc]
        exact ih (h.act a hact) hrest

-- How a state of an interleaved run stands to the machine behind a run of the engine alone. What the console has
-- written is what its sink has taken, by the answers of the sink; a sink that says of itself that a queue is empty
-- may have lost one item.
structure Agrees (sink : τ) (plain : Engine) (s : Computer τ) (produced : List Item) : Prop where
  engine : s.engineEnded = true →
    s.engine.processor = plain.processor ∧ s.engine.fault = plain.fault ∧ produced = plain.output.items
  put_out : produced <+: plain.output.items
  written : ∃ (lost : Bool) (done rest : List Item) (used : τ), produced = done ++ rest ∧
    TextSink.Receives sink (fun _ => True) lost done s.console.transcript used ∧
    (TextSink.NeverEmpty sink → lost = false)
  complete : TextSink.OnlyUnencodable sink → s.engineEnded = true → s.monitor.ended = true →
    s.console.ended = true →
      TextSink.Receives sink (fun _ => True) false produced s.console.transcript s.console.sink ∧
      s.engine.output.items = [] ∧ s.engine.status.items = [] ∧ s.wiring.control.items = [] ∧
      s.monitor.signal = some ⟨s.engine.processor.cycles, s.engine.fault⟩

-- What a turn comes to is what the run comes to.
theorem Follows.engine_running (hlimit : s.limit = limit) (hphase : s.enginePhase = .running e.processor.cycles)
    {made : Nat} (hturns : ∀ granted, Engine.turns limit e.processor.cycles (made + granted) e =
      Engine.turns limit e.processor.cycles granted q) (hc : s.Coordinated sink q)
    (hact : s.act .engine = some s') :
    ∃ q', s'.Coordinated sink q' ∧ s'.Follows limit e q' ∧
      q'.output.items = q.output.items ++ putOut .engine s s' := by
  subst hlimit
  obtain ⟨e', q', t, texts, signals, he, hq, htogether, hquiet, hrunning⟩ :=
    hc.twins.turn s.limit e.processor.cycles
  rw [act, engineStep_of_turn hphase he, Option.some.injEq] at hact
  subst hact
  have htold : q'.Told := by
    have htold := hc.told.turn hc.twins.right s.limit e.processor.cycles
    rwa [hq] at htold
  have hput : (s.wiring.engineMoved e').engine.output.items.drop s.engine.output.items.length = texts := by
    change e'.output.items.drop s.wiring.engine.output.items.length = texts
    rw [htogether.output, List.drop_left]
  refine ⟨q', hc.engine htold htogether hquiet _, ⟨rfl, ?_⟩, ?_⟩
  · cases t with
    | more =>
        refine .inl ⟨rfl, made + 1, fun granted => ?_⟩
        rw [Nat.add_assoc, Nat.add_comm 1 granted, hturns, Engine.turns, hq]
    | ended =>
        refine .inr (.inr ⟨rfl, _, Engine.runs_iff.mpr ⟨made + 1, (q', .ok ()), ?_, rfl⟩, rfl⟩)
        rw [hturns, Engine.turns, hq]
    | failed x =>
        refine .inr (.inl ⟨x, rfl, hrunning x rfl, Engine.runs_iff.mpr ⟨made + 1, (q', .error x), ?_, rfl⟩⟩)
        rw [hturns, Engine.turns, hq]
  · rw [htogether.output_right]
    exact congrArg _ hput.symm

theorem Follows.engine_aborting (hlimit : s.limit = limit) {x : Failure} (hphase : s.enginePhase = .aborting x)
    (hh : q.halted = false) (hruns : e.Runs limit (q, .error x)) (hc : s.Coordinated sink q)
    (hact : s.act .engine = some s') :
    ∃ q', s'.Coordinated sink q' ∧ s'.Follows limit e q' ∧
      q'.output.items = q.output.items ++ putOut .engine s s' := by
  obtain ⟨e', q', signals, he, hq, htogether⟩ := hc.twins.abort x
  have hengine : s.engine.abort x = (e', .ok ()) := he
  simp only [act, engineStep, hphase, hengine, Option.some.injEq] at hact
  subst hact
  have htold : q'.Told := by
    have htold := hc.told.abort hc.twins.right hh x
    rwa [hq] at htold
  have hput : (s.wiring.engineMoved e').engine.output.items.drop s.engine.output.items.length = [] := by
    change e'.output.items.drop s.wiring.engine.output.items.length = []
    rw [htogether.output, List.drop_left]
  refine ⟨q', hc.engine htold htogether (by simp [hh]) _, ⟨hlimit, .inr (.inr ⟨rfl, _, hruns, ?_⟩)⟩, ?_⟩
  · rw [machineBehind, hq]
  · rw [htogether.output_right]
    exact congrArg _ hput.symm

theorem Follows.engine (hf : s.Follows limit e q) (hc : s.Coordinated sink q)
    (hact : s.act .engine = some s') :
    ∃ q', s'.Coordinated sink q' ∧ s'.Follows limit e q' ∧
      q'.output.items = q.output.items ++ putOut .engine s s' := by
  obtain ⟨hlimit, ⟨hphase, made, hturns⟩ | ⟨x, hphase, hh, hruns⟩ | ⟨hphase, _⟩⟩ := hf
  · exact Follows.engine_running hlimit hphase hturns hc hact
  · exact Follows.engine_aborting hlimit hphase hh hruns hc hact
  · simp [act, engineStep, hphase] at hact

-- One action of any task.
theorem Follows.act (hf : s.Follows limit e q) (hc : s.Coordinated sink q) {a : Actor}
    (hact : s.act a = some s') :
    ∃ q', s'.Coordinated sink q' ∧ s'.Follows limit e q' ∧
      q'.output.items = q.output.items ++ putOut a s s' := by
  cases a with
  | engine => exact hf.engine hc hact
  | monitor =>
      obtain ⟨⟨w, m⟩, hstep, rfl⟩ := Option.map_eq_some_iff.mp hact
      exact ⟨q, hc.monitor hstep, hf, (List.append_nil _).symm⟩
  | console =>
      obtain ⟨⟨w, c⟩, hstep, rfl⟩ := Option.map_eq_some_iff.mp hact
      exact ⟨q, hc.console hstep, hf, (List.append_nil _).symm⟩

theorem Reaches.coordinated {start : Computer τ} {produced : List Item}
    (hc : start.Coordinated sink e) (hf : start.Follows limit e e) (he : e.output.items = [])
    (h : start.Reaches s produced) :
    ∃ q, s.Coordinated sink q ∧ s.Follows limit e q ∧ q.output.items = produced := by
  induction h with
  | start => exact ⟨e, hc, hf, he⟩
  | act _ a hact ih =>
      obtain ⟨q, hq, hfq, hproduced⟩ := ih
      obtain ⟨q', hq', hfq', hitems⟩ := hfq.act hq hact
      exact ⟨q', hq', hfq', by rw [hitems, hproduced]⟩

-- A run puts out more, takes nothing back and closes nothing.
theorem output_prefix_of_turns {start granted : Nat} {r : Except Failure Unit} (hq : q.Open)
    (h : Engine.turns limit start granted q = some (plain, r)) :
    q.output.items <+: plain.output.items ∧ plain.Open := by
  induction granted generalizing q with
  | zero => simp [Engine.turns] at h
  | succ k ih =>
      have htwins : q.Twins q := ⟨rfl, rfl, rfl, hq, hq⟩
      obtain ⟨_, q', t, texts, _, _, hturn, htogether, _⟩ := htwins.turn limit start
      have hmore : q.output.items <+: q'.output.items := ⟨texts, htogether.output_right.symm⟩
      rw [Engine.turns, hturn] at h
      cases t with
      | more =>
          obtain ⟨hsent, hopen⟩ := ih htogether.twins.right h
          exact ⟨hmore.trans hsent, hopen⟩
      | ended | failed _ =>
          simp only [Option.some.injEq, Prod.mk.injEq] at h
          exact h.1 ▸ ⟨hmore, htogether.twins.right⟩

-- Neither does an abort put out anything.
theorem output_machineBehind (r : Engine × Except Failure Nat) (hr : r.1.Open) :
    (machineBehind r).output.items = r.1.output.items := by
  obtain ⟨d, x | n⟩ := r
  · have htwins : d.Twins d := ⟨rfl, rfl, rfl, hr, hr⟩
    obtain ⟨e', q', _, _, hq, htogether⟩ := htwins.abort x
    rw [machineBehind, hq, htogether.output_right, List.append_nil]
  · rfl

theorem Follows.output_prefix (hf : s.Follows limit e q) (hc : s.Coordinated sink q)
    {r : Engine × Except Failure Nat} (hplain : e.Runs limit r) :
    q.output.items <+: (machineBehind r).output.items := by
  obtain ⟨_, ⟨_, made, hturns⟩ | ⟨x, _, _, hruns⟩ | ⟨_, r', hruns, rfl⟩⟩ := hf
  · obtain ⟨granted, p, hrun, rfl⟩ := Engine.runs_iff.mp hplain
    have hmore := Engine.turns_add hrun made
    rw [Nat.add_comm granted made, hturns] at hmore
    obtain ⟨hsent, hopen⟩ := output_prefix_of_turns hc.twins.right hmore
    rwa [output_machineBehind (e.counted p) hopen]
  · obtain rfl := hruns.unique hplain
    rw [output_machineBehind _ hc.twins.right]
  · obtain rfl := hruns.unique hplain
    exact List.prefix_refl _

-- The texts of which it is made up are what the sink was given.
theorem Coordinated.not_fails (hc : s.Coordinated sink q) (hsink : TextSink.OnlyUnencodable sink) {lost : Bool}
    {done rest : List Item} {item : Item} {texts : List String} {used used' : τ} {x : Failure}
    (hreceives : TextSink.Receives sink (fun _ => True) lost done texts used)
    (hitems : q.output.items = done ++ item :: rest) : ¬TextSink.Fails used item x used' := by
  have htexts : ∀ i ∈ done, ∃ u, i = .text u := fun i hi => hc.told.texts i (by simp [hitems, hi])
  obtain ⟨u, rfl⟩ := hc.told.texts item (by simp [hitems])
  exact hsink.not_fails (hreceives.used htexts)

theorem Coordinated.written (hc : s.Coordinated sink q) :
    ∃ (lost : Bool) (done rest : List Item) (used : τ), q.output.items = done ++ rest ∧
      TextSink.Receives sink (fun _ => True) lost done s.console.transcript used ∧
      (TextSink.NeverEmpty sink → lost = false) := by
  have hlost : ∀ {lost done rest texts} {used : τ}, TextSink.Receives sink (fun _ => True) lost done texts used →
      q.output.items = done ++ rest → TextSink.NeverEmpty sink → lost = false :=
    fun hreceives hitems hsink => hreceives.lost_eq_false hsink fun i hi =>
      hc.told.texts i (by rw [hitems]; exact List.mem_append_left _ hi)
  cases hc.accounts with
  | whole hreceives _ hitems _ => exact ⟨_, _, _, _, hitems, hreceives, hlost hreceives hitems⟩
  | broken hreceives _ _ hitems _ => exact ⟨_, _, _, _, hitems, hreceives, hlost hreceives hitems⟩

theorem Coordinated.complete (hc : s.Coordinated sink q) (hsink : TextSink.OnlyUnencodable sink)
    (hm : s.monitor.ended = true) (hended : s.console.ended = true) :
    TextSink.Receives sink (fun _ => True) false q.output.items s.console.transcript s.console.sink ∧
      s.engine.output.items = [] ∧ s.engine.status.items = [] ∧ s.wiring.control.items = [] ∧
      s.monitor.signal = some q.haltSignal := by
  have hmonitor : s.monitor.phase = .ended := by simpa [Monitor.ended] using hm
  have hconsole := Console.phase_of_ended hended
  have hheard := hc.heard
  rw [Monitor.Heard, hmonitor] at hheard
  cases hc.accounts with
  | whole hreceives herror hitems _ =>
      have hobeys := hc.obeys hsink.neverEmpty
      rw [Console.Obeys, hconsole] at hobeys
      obtain ⟨_, hcontrol, houtput⟩ := hobeys herror
      have hdone := hitems
      rw [hconsole, houtput] at hdone
      simp only [ConsolePhase.inHand, List.append_nil] at hdone
      obtain rfl := hreceives.lost_eq_false hsink.neverEmpty (hdone ▸ hc.told.texts)
      rw [hdone]
      exact ⟨hreceives, houtput, hheard.2.1, hcontrol, hheard.2.2⟩
  | broken hreceives _ _ hitems hfails => exact absurd hfails (hc.not_fails hsink hreceives hitems)

-- Nothing else can have ended the console.
theorem Coordinated.console_error (hc : s.Coordinated sink q) (hsink : TextSink.OnlyUnencodable sink) :
    s.console.error = none := by
  cases hc.accounts with
  | whole _ herror _ _ => exact herror
  | broken hreceives _ _ hitems hfails => exact absurd hfails (hc.not_fails hsink hreceives hitems)

theorem agrees_of_coordinated (hc : s.Coordinated sink q) (hf : s.Follows limit e q)
    {r : Engine × Except Failure Nat} (hplain : e.Runs limit r) :
    s.Agrees sink (machineBehind r) q.output.items where
  engine := by
    intro hended
    obtain ⟨r', hruns, rfl⟩ := hf.runs hended
    obtain rfl := hruns.unique hplain
    exact ⟨hc.twins.processor, hc.twins.fault, rfl⟩
  put_out := hf.output_prefix hc hplain
  written := hc.written
  complete := by
    intro hsink _ hm hended
    obtain ⟨hreceives, houtput, hstatus, hcontrol, hsignal⟩ := hc.complete hsink hm hended
    refine ⟨hreceives, houtput, hstatus, hcontrol, ?_⟩
    rw [hsignal, Engine.haltSignal, ← hc.twins.processor, ← hc.twins.fault]
    rfl

-- A machine that was just loaded: nothing sent, nothing halted, channels open.
theorem loaded_of_create {room : Nat} {size : Int} {sink : τ} {s : Computer τ} {bytes : Bytes}
    (hcreate : create room size limit sink = .ok s) (hload : s.engine.load bytes = .ok e) :
    ((s.withEngine e).begin none).Coordinated sink e ∧ s.limit = limit ∧ e.output.items = [] := by
  rw [create] at hcreate
  split at hcreate
  · simp at hcreate
  · rename_i blank hblank
    simp only [Except.ok.injEq] at hcreate
    subst hcreate
    obtain ⟨m, rfl⟩ := Engine.eq_ofMemory_of_create hblank
    obtain ⟨m', rfl⟩ := Engine.eq_withMemory_of_load hload
    have htexts : ∀ x ∈ ([] : List Item), ∃ u, x = .text u := by simp
    refine ⟨?_, rfl, rfl⟩
    exact
      { twins := ⟨rfl, rfl, rfl, ⟨rfl, rfl⟩, ⟨rfl, rfl⟩⟩
        told := ⟨⟨rfl, fun _ => rfl⟩, rfl, htexts⟩
        control_open := rfl
        listens := ⟨rfl, rfl⟩
        serves := ⟨rfl, rfl⟩
        heard := rfl
        obeys := fun _ => ⟨rfl, Wiring.holding_nil _⟩
        accounts := .whole .nil rfl rfl fun _ => rfl }

-- A machine that prints one character beyond ASCII to a console that takes nothing else. The console looks
-- for work before there is any, and does the rest when everybody else has ended.
def escaping : Computer Sink where
  wiring :=
    { engine :=
        { Engine.ofMemory ⟨#[.ofInt 0x08020000, .ofInt 0xFF000000, .ofInt 0xE9]⟩ with loaded := true }
      control := { name := "control" } }
  monitor := { status := .status, control := .control, phase := .ended }
  console := .create .output .control { encoding := .ascii }

def escapingSchedule : List Actor :=
  [.console, .console] ++ List.replicate 3 .engine ++ List.replicate 2 .monitor ++
    List.replicate 16 .console

end WordMachine.Computer
