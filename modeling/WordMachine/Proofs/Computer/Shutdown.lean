import WordMachine.Proofs.Computer.Service

namespace WordMachine

-- What happens to a computer that has begun: a task acts and perhaps raises something, or somebody from
-- outside closes a channel.
inductive Occurrence where
  | acted (a : Actor) (raised : Option Failure)
  | closed (i : ChannelRole)
  deriving DecidableEq, Repr

namespace Occurrence

def isAction : Occurrence → Bool
  | .acted _ _ => true
  | .closed _ => false

def raisedBy (a : Actor) : Occurrence → Option Failure
  | .acted b raised => if a = b then raised else none
  | .closed _ => none

end Occurrence

namespace Computer

variable {τ : Type} [TextSink τ] {s s' : Computer τ}

-- A computer before its run: it may have been loaded, and channels of it may have been closed.
inductive Prepared : Computer τ → Prop where
  | created {room : Nat} {size : Int} {limit : Option Int} {sink : τ} {s : Computer τ}
      (h : create room size limit sink = .ok s) : Prepared s
  | loaded {s : Computer τ} {bytes : Bytes} {e : Engine} (hs : Prepared s)
      (h : s.engine.load bytes = .ok e) : Prepared (s.withEngine e)
  | closed {s : Computer τ} (hs : Prepared s) (i : ChannelRole) : Prepared (s.closeChannel i)

-- What the next action of a task raises. What the engine raises becomes its fault, and ends nothing else.
def raises? (s : Computer τ) : Actor → Option Failure
  | .engine => none
  | .monitor => s.monitor.raises? s.wiring
  | .console => s.console.raises?

inductive Unfolds (start : Computer τ) : List Occurrence → Computer τ → Prop where
  | start : Unfolds start [] start
  | act {trace : List Occurrence} {s s' : Computer τ} (h : Unfolds start trace s) (a : Actor)
      (hact : s.act a = some s') : Unfolds start (trace ++ [.acted a (s.raises? a)]) s'
  | close {trace : List Occurrence} {s : Computer τ} (h : Unfolds start trace s) (i : ChannelRole) :
      Unfolds start (trace ++ [.closed i]) (s.closeChannel i)

-- The halt of the engine reaches the monitor, and the end of the monitor reaches the console.
structure Invariant (s : Computer τ) : Prop where
  settled : s.wiring.engine.Settled
  halted : s.engineEnded = true → s.wiring.engine.halted = true
  listens : s.monitor.status = .status ∧ s.monitor.control = .control
  serves : s.console.output = .output ∧ s.console.control = .control
  informed : s.monitor.Informed s.wiring.engine
  asked : s.monitor.phase = .ended → s.console.phase.Expects → s.wiring.control.ready = true
  attentive : s.console.Attentive s.wiring

omit [TextSink τ] in
-- One action of the engine task.
theorem exists_of_engineStep (hsettled : s.wiring.engine.Settled) (h : s.engineStep = some s') :
    ∃ e phase, s' = { s with wiring := s.wiring.engineMoved e, enginePhase := phase } ∧
      s.wiring.engine.Tells e ∧ e.Settled ∧ (s'.engineEnded = true → e.halted = true) := by
  rw [engineStep] at h
  split at h
  · simp at h
  · rename_i start hphase
    simp only [Option.some.injEq] at h
    subst h
    refine ⟨_, _, rfl, Engine.tells_turn _ _ _, hsettled.turn _ _, fun hended => ?_⟩
    apply Engine.halted_of_turn
    cases ht : (s.engine.turn s.limit start).2 with
    | ended => rfl
    | more => simp [engineEnded, ht] at hended
    | failed x => simp [engineEnded, ht] at hended
  · rename_i x hphase
    simp only [Option.some.injEq] at h
    subst h
    exact ⟨_, _, rfl, Engine.tells_abort _ x, Engine.settled_abort _ x, fun _ => Engine.halted_abort _ x⟩
  · simp at h

omit [TextSink τ] in
theorem Invariant.engine (h : s.Invariant) (hstep : s.engineStep = some s') : s'.Invariant := by
  obtain ⟨e, phase, rfl, htells, hsettled, hhalted⟩ := exists_of_engineStep h.settled hstep
  exact
    { settled := hsettled
      halted := hhalted
      listens := h.listens
      serves := h.serves
      informed := h.informed.tells htells
      asked := h.asked
      attentive := h.attentive.stirs (Wiring.stirs_engineMoved htells) }

omit [TextSink τ] in
theorem Invariant.monitor {w : Wiring} {m : Monitor ChannelRole} (h : s.Invariant)
    (hstep : s.monitor.step s.wiring = some (w, m)) :
    ({ s with wiring := w, monitor := m } : Computer τ).Invariant := by
  have hserves := Monitor.serves_of_step h.informed h.listens.1 h.listens.2 hstep
  exact
    { settled := hserves.kept.settled h.settled
      halted := fun hended => hserves.kept.halted_eq.trans (h.halted hended)
      listens := ⟨hserves.roles.1.trans h.listens.1, hserves.roles.2.trans h.listens.2⟩
      serves := h.serves
      informed := hserves.informed
      asked := fun hended _ => hserves.asked hended
      attentive := h.attentive.stirs hserves.stirs }

theorem Invariant.console {w : Wiring} {c : Console ChannelRole τ} (h : s.Invariant)
    (hstep : s.console.step s.wiring = some (w, c)) :
    ({ s with wiring := w, console := c } : Computer τ).Invariant := by
  have hserves := Console.serves_of_step h.attentive h.serves hstep
  have hinformed : s.monitor.Informed w.engine := by
    refine ⟨?_, fun hphase hsignalled => ?_⟩
    · rw [hserves.status]
      exact h.informed.signals
    · rw [hserves.status]
      exact h.informed.heard hphase (hserves.kept.signalled ▸ hsignalled)
  exact
    { settled := hserves.kept.settled h.settled
      halted := fun hended => hserves.kept.halted_eq.trans (h.halted hended)
      listens := h.listens
      serves := ⟨hserves.roles.1.trans h.serves.1, hserves.roles.2.trans h.serves.2⟩
      informed := hinformed
      asked := fun hended hexpects =>
        (hserves.expects hexpects).2.trans (h.asked hended (hserves.expects hexpects).1)
      attentive := hserves.attentive }

omit [TextSink τ] in
-- A closed channel is one more reason not to wait.
theorem Invariant.close (h : s.Invariant) (i : ChannelRole) : (s.closeChannel i).Invariant where
  settled := by cases i <;> exact ⟨h.settled.signalled, h.settled.fault⟩
  halted hended := by cases i <;> exact h.halted hended
  listens := h.listens
  serves := h.serves
  informed := by
    cases i with
    | status => exact ⟨h.informed.signals, fun _ _ => Channel.ready_of_closed rfl⟩
    | output => exact ⟨h.informed.signals, h.informed.heard⟩
    | control => exact ⟨h.informed.signals, h.informed.heard⟩
  asked hended hexpects := by
    cases i with
    | control => exact Channel.ready_of_closed rfl
    | output => exact h.asked hended hexpects
    | status => exact h.asked hended hexpects
  attentive := h.attentive.stirs (Wiring.stirs_close _ i)

theorem Invariant.act (h : s.Invariant) {a : Actor} (hact : s.act a = some s') : s'.Invariant := by
  cases a with
  | engine => exact h.engine hact
  | monitor =>
      obtain ⟨⟨w, m⟩, hstep, rfl⟩ := Option.map_eq_some_iff.mp hact
      exact h.monitor hstep
  | console =>
      obtain ⟨⟨w, c⟩, hstep, rfl⟩ := Option.map_eq_some_iff.mp hact
      exact h.console hstep

theorem Unfolds.invariant {trace : List Occurrence} (h : s.Unfolds trace s') (hs : s.Invariant) :
    s'.Invariant := by
  induction h with
  | start => exact hs
  | act _ a hact ih => exact ih.act hact
  | close _ i ih => exact ih.close i

omit [TextSink τ] in
theorem engineEnded_begin (s : Computer τ) (failure : Option Failure) :
    (s.begin failure).engineEnded = false := by
  cases failure <;> rfl

omit [TextSink τ] in
theorem invariant_of_create {room : Nat} {size : Int} {limit : Option Int} {sink : τ}
    (h : create room size limit sink = .ok s) (failure : Option Failure) : (s.begin failure).Invariant := by
  rw [create] at h
  split at h
  · simp at h
  · rename_i e he
    obtain ⟨m, rfl⟩ := Engine.eq_ofMemory_of_create he
    rw [Except.ok.injEq] at h
    subst h
    have hlisten : ∀ c : Console ChannelRole τ, c.phase = .ended → c.Attentive
        { engine := .ofMemory m, control := { name := "control" } } := by
      intro c hphase
      refine ⟨rfl, by simp, fun i e he => ?_, fun call hcall => ?_⟩
      · cases i <;> simp [Wiring.channel, Engine.ofMemory] at he
      · rw [hphase] at hcall
        simp at hcall
    exact
      { settled := ⟨rfl, fun _ => rfl⟩
        halted := fun hended => by simp [engineEnded_begin] at hended
        listens := ⟨rfl, rfl⟩
        serves := ⟨rfl, rfl⟩
        informed := ⟨fun x hx => absurd hx (by simp [Channel.items, begin, beginEngine, Engine.ofMemory]),
          fun _ hsignalled => absurd hsignalled (by simp [begin, beginEngine, Engine.ofMemory])⟩
        asked := fun hended => absurd hended (by simp [begin, Monitor.begin])
        attentive := (hlisten _ rfl).listen ⟨rfl, rfl⟩ }

omit [TextSink τ] in
-- Loading a program makes no difference to the tasks.
theorem Invariant.load {bytes : Bytes} {e : Engine} {failure : Option Failure}
    (h : (s.begin failure).Invariant) (hload : s.engine.load bytes = .ok e) :
    ((s.withEngine e).begin failure).Invariant := by
  have hsettled : e.Settled := h.settled.load hload
  obtain ⟨m, rfl⟩ := Engine.eq_withMemory_of_load hload
  exact
    { settled := hsettled
      halted := fun hended => by simp [engineEnded_begin] at hended
      listens := h.listens
      serves := h.serves
      informed := ⟨h.informed.signals, h.informed.heard⟩
      asked := h.asked
      attentive := h.attentive.stirs (Wiring.stirs_of_same (fun i => by cases i <;> rfl) rfl) }

omit [TextSink τ] in
theorem begin_closeChannel (s : Computer τ) (i : ChannelRole) (failure : Option Failure) :
    (s.closeChannel i).begin failure = (s.begin failure).closeChannel i := by
  cases i <;> rfl

omit [TextSink τ] in
theorem Prepared.invariant (h : Prepared s) (failure : Option Failure) : (s.begin failure).Invariant := by
  induction h with
  | created h => exact invariant_of_create h failure
  | loaded _ h ih => exact ih.load h
  | closed _ i ih =>
      rw [begin_closeChannel]
      exact ih.close i

omit [TextSink τ] in
-- Nothing has ended before it began.
theorem Prepared.unfinished (h : Prepared s) :
    s.monitor.finished = false ∧ s.monitor.error = none ∧ s.console.finished = false ∧
      s.console.error = none := by
  induction h with
  | created h =>
      rw [create] at h
      split at h
      · simp at h
      · rw [Except.ok.injEq] at h
        subst h
        exact ⟨rfl, rfl, rfl, rfl⟩
  | loaded _ _ ih => exact ih
  | closed _ _ ih => exact ih

-- What a task has raised on the way.
def raisedOn (trace : List Occurrence) (a : Actor) : Option Failure :=
  trace.findSome? (Occurrence.raisedBy a)

theorem raisedOn_acted (trace : List Occurrence) (a b : Actor) (raised : Option Failure) :
    raisedOn (trace ++ [.acted b raised]) a =
      (raisedOn trace a).or (if a = b then raised else none) := by
  simp [raisedOn, List.findSome?_append, Occurrence.raisedBy]

theorem raisedOn_closed (trace : List Occurrence) (a : Actor) (i : ChannelRole) :
    raisedOn (trace ++ [.closed i]) a = raisedOn trace a := by
  simp [raisedOn, List.findSome?_append, Occurrence.raisedBy]

-- Both devices, each with what it has raised.
structure Concludes (trace : List Occurrence) (s : Computer τ) : Prop where
  monitor : Concluded s.monitor.ended s.monitor.finished s.monitor.error (raisedOn trace .monitor)
  console : Concluded s.console.ended s.console.finished s.console.error (raisedOn trace .console)

omit [TextSink τ] in
theorem Prepared.concludes (h : Prepared s) (failure : Option Failure) :
    Concludes [] (s.begin failure) := by
  obtain ⟨hmonitor, hmonitorError, hconsole, hconsoleError⟩ := h.unfinished
  exact
    { monitor := ⟨hmonitor, hmonitorError, fun h => by simp [begin, Monitor.begin, hmonitorError] at h⟩
      console := ⟨hconsole, hconsoleError,
        fun h => by simp [begin, Console.begin, Console.listen, hconsoleError] at h⟩ }

-- Only the task that acts can raise something, and its end is the end of it.
theorem Concludes.act {trace : List Occurrence} (h : Concludes trace s) {a : Actor}
    (hact : s.act a = some s') : Concludes (trace ++ [.acted a (s.raises? a)]) s' := by
  cases a with
  | engine =>
      have hsame : s'.monitor = s.monitor ∧ s'.console = s.console := by
        simp only [Computer.act, engineStep] at hact
        split at hact <;> simp only [Option.some.injEq, reduceCtorEq] at hact
        all_goals
          subst hact
          exact ⟨rfl, rfl⟩
      refine ⟨?_, ?_⟩
      · simpa [raisedOn_acted, hsame.1] using h.monitor
      · simpa [raisedOn_acted, hsame.2] using h.console
  | monitor =>
      obtain ⟨⟨w, m⟩, hstep, rfl⟩ := Option.map_eq_some_iff.mp hact
      refine ⟨?_, ?_⟩
      · simpa [raisedOn_acted, raises?] using Monitor.concluded_of_step hstep h.monitor
      · simpa [raisedOn_acted] using h.console
  | console =>
      obtain ⟨⟨w, c⟩, hstep, rfl⟩ := Option.map_eq_some_iff.mp hact
      refine ⟨?_, ?_⟩
      · simpa [raisedOn_acted] using h.monitor
      · simpa [raisedOn_acted, raises?] using Console.concluded_of_step hstep h.console

theorem Unfolds.concludes {trace : List Occurrence} {start : Computer τ} (h : start.Unfolds trace s)
    (hs : Concludes [] start) : Concludes trace s := by
  induction h with
  | start => exact hs
  | act _ a hact ih => exact ih.act hact
  | @close trace s _ i ih =>
      constructor
      · rw [raisedOn_closed]
        exact ih.monitor
      · rw [raisedOn_closed]
        exact ih.console

-- The most actions that can still be taken when the engine task has ended.
def remaining (s : Computer τ) : Nat :=
  s.monitor.phase.remaining s.wiring.engine.status.items.length +
    s.console.phase.remaining s.wiring.engine.output.items.length

omit [TextSink τ] in
theorem remaining_closeChannel (s : Computer τ) (i : ChannelRole) :
    (s.closeChannel i).remaining = s.remaining := by
  cases i <;> rfl

-- The engine task does nothing any more, and every other action counts.
theorem remaining_act (h : s.Invariant) (hended : s.engineEnded = true) {a : Actor}
    (hact : s.act a = some s') : s'.engineEnded = true ∧ s'.remaining < s.remaining := by
  cases a with
  | engine =>
      simp only [act, engineStep] at hact
      cases hphase : s.enginePhase <;> simp [engineEnded, hphase] at hended hact
  | monitor =>
      obtain ⟨⟨w, m⟩, hstep, rfl⟩ := Option.map_eq_some_iff.mp hact
      have hserves := Monitor.serves_of_step h.informed h.listens.1 h.listens.2 hstep
      have hless := hserves.remaining
      refine ⟨hended, ?_⟩
      simp only [remaining, hserves.output]
      omega
  | console =>
      obtain ⟨⟨w, c⟩, hstep, rfl⟩ := Option.map_eq_some_iff.mp hact
      have hserves := Console.serves_of_step h.attentive h.serves hstep
      have hless := hserves.remaining
      refine ⟨hended, ?_⟩
      simp only [remaining, hserves.status]
      omega

-- By induction on what happens: actions use up what remains, and closing a channel adds nothing to it.
theorem Unfolds.actions_le {later : List Occurrence} (h : s.Unfolds later s') (hs : s.Invariant)
    (hended : s.engineEnded = true) :
    s'.engineEnded = true ∧ later.countP Occurrence.isAction + s'.remaining ≤ s.remaining := by
  induction h with
  | start => exact ⟨hended, by simp⟩
  | @act later t t' ht a hact ih =>
      obtain ⟨hended', hcount⟩ := ih
      obtain ⟨hended'', hless⟩ := remaining_act (ht.invariant hs) hended' hact
      refine ⟨hended'', ?_⟩
      rw [List.countP_append, List.countP_singleton, Occurrence.isAction]
      simp only [if_true]
      omega
  | @close later t ht i ih =>
      obtain ⟨hended', hcount⟩ := ih
      refine ⟨hended', ?_⟩
      rw [List.countP_append, List.countP_singleton, Occurrence.isAction, remaining_closeChannel]
      simpa using hcount

-- The engine has told the monitor that it halts, and a monitor that has ended has told the console.
theorem Invariant.exists_act (h : s.Invariant) (hended : s.engineEnded = true)
    (hlive : (s.monitor.ended && s.console.ended) = false) :
    (∃ s', s.act .monitor = some s') ∨ ∃ s', s.act .console = some s' := by
  have hsignalled : s.wiring.engine.signalled = true := h.settled.signalled.trans (h.halted hended)
  cases hm : s.monitor.ended with
  | false =>
      obtain ⟨r, hr⟩ := Monitor.exists_step h.informed h.listens.1 hsignalled hm
      exact .inl ⟨_, Option.map_eq_some_iff.mpr ⟨r, hr, rfl⟩⟩
  | true =>
      rw [hm, Bool.true_and] at hlive
      have hready := h.asked (s.monitor.ended_eq.mp hm)
      obtain ⟨r, hr⟩ := Console.exists_step h.attentive hready hlive
      exact .inr ⟨_, Option.map_eq_some_iff.mpr ⟨r, hr, rfl⟩⟩

-- A computer as it is found at some moment of its run, after what has happened so far.
structure ShutsDown (trace : List Occurrence) (s : Computer τ) : Prop where
  halted : s.engineEnded = true → s.engine.halted = true
  moves : s.engineEnded = true → (s.monitor.ended && s.console.ended) = false →
    (∃ s', s.act .monitor = some s') ∨ ∃ s', s.act .console = some s'
  bounded : s.engineEnded = true → ∃ bound, ∀ later s', s.Unfolds later s' →
    later.countP Occurrence.isAction ≤ bound
  concludes : Concludes trace s

theorem run_shuts_down {failure : Option Failure} {trace : List Occurrence} (hs : Prepared s)
    (h : (s.begin failure).Unfolds trace s') : ShutsDown trace s' := by
  have hinvariant := h.invariant (hs.invariant failure)
  exact
    { halted := hinvariant.halted
      moves := hinvariant.exists_act
      bounded := fun hended => ⟨s'.remaining, fun later last hlater => by
        have hcount := (hlater.actions_le hinvariant hended).2
        omega⟩
      concludes := h.concludes (hs.concludes failure) }

-- A machine that prints one character on a sink that breaks at it, with a control channel closed beforehand:
-- each device ends with what was in its way.
def obstructed : Computer Sink where
  wiring :=
    { engine :=
        { Engine.ofMemory ⟨#[.ofInt 0x08000000, .ofInt 0xFF000000]⟩ with loaded := true }
      control := { name := "control", closed := true } }
  monitor := { status := .status, control := .control, phase := .ended }
  console := .create .output .control { failWrite := some 1 }

theorem prepared_obstructed : Prepared obstructed := by
  have hcreated : Prepared
      (⟨{ engine := .ofMemory ⟨#[0, 0]⟩, control := { name := "control" } },
        { status := .status, control := .control, phase := .ended },
        .create .output .control { failWrite := some 1 }, .idle, none, false⟩ : Computer Sink) :=
    @Prepared.created Sink 2 2 none { failWrite := some 1 } _ rfl
  have hloaded := @Prepared.loaded Sink _ [8, 0, 0, 0, 0xFF, 0, 0, 0]
    { Engine.ofMemory ⟨#[.ofInt 0x08000000, .ofInt 0xFF000000]⟩ with loaded := true } hcreated (by rfl)
  exact hloaded.closed .control

theorem run_shuts_down_obstructed :
    ∃ trace s, (obstructed.begin none).Unfolds trace s ∧ s.engineEnded = true ∧
      s.monitor.ended = true ∧ s.console.ended = true ∧
      s.monitor.error = some (.channel (.putOnClosed "control")) ∧ s.console.error = some .brokenPipe ∧
      ShutsDown trace s := by
  have hengine : (obstructed.begin none).Unfolds _ _ :=
    ((Unfolds.start.act .engine rfl).act .engine rfl).act .engine rfl
  have hmonitor := (hengine.act .monitor rfl).act .monitor rfl
  have hfound := ((hmonitor.act .console rfl).act .console rfl).act .console rfl
  have hconsole := ((hfound.act .console rfl).act .console rfl).act .console rfl
  exact ⟨_, _, hconsole, rfl, rfl, rfl, rfl, rfl, run_shuts_down prepared_obstructed hconsole⟩

end Computer

end WordMachine
