import WordMachine.Proofs.Computer.Coordination

namespace WordMachine.Computer

variable {τ : Type} [TextSink τ]

-- The computer with a twin of its engine that nobody reads. What the twin has sent is what the engine
-- has sent since the sink was handed over.
structure Coordinated (sink : τ) (s : Computer τ) (q : Engine) : Prop where
  twins : s.wiring.engine.Twins q
  told : q.Told
  control_open : s.wiring.control.closed = false
  listens : s.monitor.status = .status ∧ s.monitor.control = .control
  serves : s.console.output = .output ∧ s.console.control = .control
  heard : s.monitor.Heard s.wiring q
  obeys : TextSink.NeverEmpty sink → s.console.Obeys s.wiring s.monitor
  accounts : s.console.Accounts sink s.wiring.engine.output.items q.output.items

variable {sink : τ} {s s' : Computer τ} {q : Engine}

-- What the engine does its twin does too.
theorem Coordinated.engine {q' e' : Engine} {texts signals : List Item} (h : s.Coordinated sink q)
    (htold : q'.Told) (htogether : Engine.Together s.wiring.engine q e' q' texts signals)
    (hquiet : q.halted = true → q' = q ∧ texts = [] ∧ signals = []) (phase : EnginePhase) :
    ({ s with wiring := s.wiring.engineMoved e', enginePhase := phase } : Computer τ).Coordinated
      sink q' where
  twins := htogether.twins
  told := htold
  control_open := h.control_open
  listens := h.listens
  serves := h.serves
  heard := by
    have hheard := h.heard
    rw [Monitor.Heard] at hheard ⊢
    cases hphase : s.monitor.phase with
    | listening =>
        rw [hphase] at hheard
        have hstatus : e'.status.items = q'.status.items := by
          rw [htogether.status, htogether.status_right]
          exact congrArg (· ++ signals) hheard
        exact hstatus
    | stopping =>
        rw [hphase] at hheard
        obtain ⟨rfl, _, rfl⟩ := hquiet hheard.1
        exact ⟨hheard.1, htogether.status.trans (by rw [List.append_nil]; exact hheard.2.1), hheard.2.2⟩
    | ended =>
        rw [hphase] at hheard
        obtain ⟨rfl, _, rfl⟩ := hquiet hheard.1
        exact ⟨hheard.1, htogether.status.trans (by rw [List.append_nil]; exact hheard.2.1), hheard.2.2⟩
  obeys := by
    intro hsink
    refine (h.obeys hsink).mono htogether.output (List.append_nil _).symm (List.append_nil _).symm ?_
    intro hended
    exact ⟨hended, (hquiet (h.heard.halted hended)).2.1, rfl⟩
  accounts := by
    change s.console.Accounts sink e'.output.items q'.output.items
    rw [htogether.output, htogether.output_right]
    exact h.accounts.queue texts

-- The one thing there is to hear is the halt signal, and only a machine that has halted has sent it.
theorem halted_of_status {item : Item} {rest : List Item} (h : q.Told)
    (hitems : q.status.items = item :: rest) :
    q.halted = true ∧ item = .halt q.haltSignal ∧ rest = [] := by
  have hstatus := h.status
  rw [hitems] at hstatus
  split at hstatus
  · rename_i hh
    simp only [List.cons.injEq] at hstatus
    exact ⟨hh, hstatus.1, hstatus.2⟩
  · simp at hstatus

theorem Coordinated.monitor {w : Wiring} {m : Monitor ChannelRole} (h : s.Coordinated sink q)
    (hstep : s.monitor.step s.wiring = some (w, m)) :
    ({ s with wiring := w, monitor := m } : Computer τ).Coordinated sink q := by
  obtain ⟨hstatus, hcontrol⟩ := h.listens
  have hheard := h.heard
  rw [Monitor.step, hstatus, hcontrol] at hstep
  rw [Monitor.Heard] at hheard
  cases hphase : s.monitor.phase with
  | listening =>
      simp only [hphase] at hstep hheard
      have htake : (ChannelStore.channel s.wiring ChannelRole.status : Channel Item).take? =
          s.wiring.engine.status.pop?.map Except.ok := Channel.take?_of_open h.twins.left.2
      rw [htake] at hstep
      cases hpop : s.wiring.engine.status.pop? with
      | none => simp [hpop] at hstep
      | some r =>
          obtain ⟨item, d⟩ := r
          have hitems := Channel.items_pop hpop
          rw [hheard] at hitems
          obtain ⟨hhalted, rfl, hrest⟩ := halted_of_status h.told hitems
          simp only [hpop, Option.map_some, Option.some.injEq, Prod.mk.injEq] at hstep
          obtain ⟨rfl, rfl⟩ := hstep
          have hkept : s.wiring.Kept (s.wiring.update .status fun _ => d) :=
            Wiring.kept_update (Channel.closed_pop hpop)
          exact
            { twins := hkept.twins h.twins
              told := h.told
              control_open := h.control_open
              listens := ⟨rfl, rfl⟩
              serves := h.serves
              heard := ⟨hhalted, hrest, rfl⟩
              obeys := fun hsink => (h.obeys hsink).mono (List.append_nil _).symm (List.append_nil _).symm
                (by simp [Monitor.asked, hphase]) (by simp [hphase])
              accounts := h.accounts }
  | stopping =>
      simp only [hphase] at hstep hheard
      obtain ⟨w', hput, hkept, hitems⟩ :=
        Wiring.exists_put (w := s.wiring) (i := .control) h.control_open .stop
      simp only [hput, Option.some.injEq, Prod.mk.injEq] at hstep
      obtain ⟨rfl, rfl⟩ := hstep
      exact
        { twins := hkept.twins h.twins
          told := h.told
          control_open := (hkept.closed .control).trans h.control_open
          listens := ⟨rfl, rfl⟩
          serves := h.serves
          heard := ⟨hheard.1, (hitems .status).trans hheard.2.1, hheard.2.2⟩
          obeys := fun hsink => (h.obeys hsink).mono ((hitems .output).trans (List.append_nil _).symm)
            (hitems .control) (by simp [Monitor.asked, hphase]) (by simp [hphase])
          accounts := by
            have houtput : w'.engine.output.items = s.wiring.engine.output.items := hitems .output
            exact houtput ▸ h.accounts }
  | ended => simp [hphase] at hstep

-- The console does nothing to the machine or to the status channel.
theorem Coordinated.serve {w : Wiring} {c : Console ChannelRole τ} (h : s.Coordinated sink q)
    (hkept : s.wiring.Kept w) (hstatus : w.engine.status.items = s.wiring.engine.status.items)
    (hroles : c.output = s.console.output ∧ c.control = s.console.control)
    (hobeys : TextSink.NeverEmpty sink → c.Obeys w s.monitor)
    (haccounts : c.Accounts sink w.engine.output.items q.output.items) :
    ({ s with wiring := w, console := c } : Computer τ).Coordinated sink q where
  twins := hkept.twins h.twins
  told := h.told
  control_open := (hkept.closed .control).trans h.control_open
  listens := h.listens
  serves := ⟨hroles.1.trans h.serves.1, hroles.2.trans h.serves.2⟩
  heard := by
    have hheard := h.heard
    rw [Monitor.Heard] at hheard ⊢
    rw [hstatus]
    exact hheard
  obeys := hobeys
  accounts := haccounts

theorem Coordinated.serve_selecting {w : Wiring} {c : Console ChannelRole τ} (h : s.Coordinated sink q)
    {call : Select ChannelRole} (hphase : s.console.phase = .selecting call)
    (hstep : s.console.step s.wiring = some (w, c)) :
    ({ s with wiring := w, console := c } : Computer τ).Coordinated sink q := by
  obtain ⟨houtput, hcontrol⟩ := h.serves
  have hobeys := h.obeys
  have hlive : s.console.phase ≠ .ended := by simp [hphase]
  simp only [Console.Obeys, hphase] at hobeys
  simp only [Console.step, hphase] at hstep
  split at hstep
  · rename_i ready hready
    simp only [Option.some.injEq, Prod.mk.injEq] at hstep
    obtain ⟨rfl, rfl⟩ := hstep
    rw [hready] at hobeys
    have hheld : TextSink.NeverEmpty sink →
        ∀ i, ready.contains i = true → i ≠ .status → (s.wiring.channel i).items ≠ [] :=
      fun hsink i hi hs => (hobeys hsink).2 i (List.contains_iff_mem.mp hi) hs
    rw [Console.afterWait, houtput, hcontrol]
    split
    · rename_i hout
      exact h.serve s.wiring.kept_refl rfl ⟨rfl, rfl⟩
        (fun hsink => ⟨(hobeys hsink).1, hheld hsink .output hout (by simp),
          fun hc => hheld hsink .control hc (by simp)⟩)
        (h.accounts.move hlive (by exact ⟨rfl, rfl, rfl⟩) (by simp [hphase]) (by simp [hphase]))
    · split
      · rename_i hc
        exact h.serve s.wiring.kept_refl rfl ⟨rfl, rfl⟩
          (fun hsink => ⟨(hobeys hsink).1, hheld hsink .control hc (by simp)⟩)
          (h.accounts.move hlive (by exact ⟨rfl, rfl, rfl⟩) (by simp [hphase]) (by simp [hphase]))
      · exact h.serve s.wiring.kept_refl rfl ⟨rfl, rfl⟩ (fun hsink => Console.Obeys.listen (hobeys hsink).1 _)
          (h.accounts.move hlive (by exact ⟨rfl, rfl, rfl⟩) (by simp [hphase]) (by simp [hphase]))
  · split at hstep
    · rename_i w' call' hselect
      simp only [Option.some.injEq, Prod.mk.injEq] at hstep
      obtain ⟨rfl, rfl⟩ := hstep
      obtain ⟨hkept, hitems, hholding⟩ := Select.step_wiring hselect h.twins.left.1 h.control_open
      refine h.serve hkept (hitems .status) ⟨rfl, rfl⟩
        (fun hsink => ⟨(hitems .control).trans (hobeys hsink).1, hholding (hobeys hsink).2⟩) ?_
      have hqueued : w'.engine.output.items = s.wiring.engine.output.items := hitems .output
      rw [hqueued]
      exact h.accounts.move hlive (by exact ⟨rfl, rfl, rfl⟩) (by simp [hphase]) (by simp [hphase])
    · simp at hstep

theorem Coordinated.serve_taking {w : Wiring} {c : Console ChannelRole τ} (h : s.Coordinated sink q)
    {ready : Bool} (hphase : s.console.phase = .taking ready)
    (hstep : s.console.step s.wiring = some (w, c)) :
    ({ s with wiring := w, console := c } : Computer τ).Coordinated sink q := by
  have hobeys := h.obeys
  have hlive : s.console.phase ≠ .ended := by simp [hphase]
  simp only [Console.Obeys, hphase] at hobeys
  simp only [Console.step, hphase, h.serves.1] at hstep
  have hpop : (ChannelStore.channel s.wiring ChannelRole.output : Channel Item).pop? =
      s.wiring.engine.output.pop? := rfl
  rw [hpop] at hstep
  split at hstep
  · rename_i item d hitem
    simp only [Option.some.injEq, Prod.mk.injEq] at hstep
    obtain ⟨rfl, rfl⟩ := hstep
    have hitems := Channel.items_pop hitem
    refine h.serve (Wiring.kept_update (Channel.closed_pop hitem)) rfl ⟨rfl, rfl⟩
      (fun hsink => ⟨(hobeys hsink).1, (hobeys hsink).2.2⟩) ?_
    exact h.accounts.move hlive (by exact ⟨rfl, rfl, rfl⟩) (by simp [hphase, hitems]; rfl)
      (by simp [hphase])
  · rename_i hnone
    simp only [Option.some.injEq, Prod.mk.injEq] at hstep
    obtain ⟨rfl, rfl⟩ := hstep
    refine h.serve s.wiring.kept_refl rfl ⟨rfl, rfl⟩ ?_
      (h.accounts.move hlive (by exact ⟨rfl, rfl, rfl⟩) (by simp [hphase]) (by simp [hphase]))
    exact fun hsink => absurd ((Channel.pop?_eq_none_iff _).mp hnone) (hobeys hsink).2.1

-- The sink that a console writes to is the one it was given, as it has become since.
theorem Coordinated.used (h : s.Coordinated sink q) (hlive : s.console.phase ≠ .ended) :
    TextSink.Used sink s.console.sink := by
  obtain ⟨_, done, hreceives, _, hproduced, _⟩ := h.accounts.live hlive
  exact hreceives.used fun i hi => h.told.texts i (by rw [hproduced]; exact List.mem_append_left _ hi)

theorem Coordinated.serve_emitting {w : Wiring} {c : Console ChannelRole τ} (h : s.Coordinated sink q)
    {item : Item} {ready : Bool} (hphase : s.console.phase = .emitting item ready)
    (hstep : s.console.step s.wiring = some (w, c)) :
    ({ s with wiring := w, console := c } : Computer τ).Coordinated sink q := by
  have hobeys := h.obeys
  have hlive : s.console.phase ≠ .ended := by simp [hphase]
  have hhand : s.console.phase.inHand = [item] := by rw [hphase]; rfl
  have hwaits : s.console.phase.waits = true := by rw [hphase]; rfl
  simp only [Console.Obeys, hphase] at hobeys
  simp only [Console.step, hphase, Option.some.injEq, Prod.mk.injEq] at hstep
  obtain ⟨rfl, rfl⟩ := hstep
  refine h.serve s.wiring.kept_refl rfl (Console.roles_emit ?_ Console.roles_failOrDrain _ _)
    (fun hsink => Console.Obeys.emit ?_ ?_) (h.accounts.emit hlive hhand ?_ ?_)
  · intro d
    cases ready <;> exact ⟨rfl, rfl⟩
  · intro d
    cases ready with
    | true => exact ⟨(hobeys hsink).1, (hobeys hsink).2 rfl⟩
    | false => exact Console.Obeys.listen (hobeys hsink).1 d
  · intro used x hfails
    rw [Console.failOrDrain]
    split
    · rename_i hempty
      obtain ⟨u, rfl⟩ := h.told.texts item (by
        obtain ⟨_, done, _, _, hproduced, _⟩ := h.accounts.live hlive
        rw [hproduced, hhand]
        simp)
      exact absurd (hempty ▸ hfails) (hsink.not_fails (h.used hlive))
    · exact Console.obeys_fail _ _ _ _
  · intro d
    cases ready <;> exact ⟨rfl, rfl, rfl, rfl, fun _ => hwaits⟩
  · intro used x _
    rw [Console.failOrDrain]
    split
    · rename_i hempty
      exact .inr ⟨hempty, hwaits, rfl, rfl⟩
    · exact .inl rfl

theorem Coordinated.serve_obeying {w : Wiring} {c : Console ChannelRole τ} (h : s.Coordinated sink q)
    (hphase : s.console.phase = .obeying) (hstep : s.console.step s.wiring = some (w, c)) :
    ({ s with wiring := w, console := c } : Computer τ).Coordinated sink q := by
  have hobeys := h.obeys
  have hlive : s.console.phase ≠ .ended := by simp [hphase]
  simp only [Console.Obeys, hphase] at hobeys
  -- What is on the control channel is the one request to stop, so the monitor has ended.
  have hasked : TextSink.NeverEmpty sink → s.monitor.phase = .ended := by
    intro hsink
    by_contra hne
    exact (hobeys hsink).2 ((hobeys hsink).1.trans ((Monitor.asked_eq_nil_iff _).mpr hne))
  simp only [Console.step, hphase, h.serves.2] at hstep
  have hpop : (ChannelStore.channel s.wiring ChannelRole.control : Channel Item).pop? =
      s.wiring.control.pop? := rfl
  rw [hpop] at hstep
  split at hstep
  · rename_i item d hitem
    simp only [Option.some.injEq, Prod.mk.injEq] at hstep
    obtain ⟨rfl, rfl⟩ := hstep
    refine h.serve (Wiring.kept_update (Channel.closed_pop hitem)) rfl ⟨rfl, rfl⟩ (fun hsink => ?_)
      (h.accounts.move hlive (by exact ⟨rfl, rfl, rfl⟩) (by simp [hphase]; rfl) (by simp))
    have hitems := Channel.items_pop hitem
    rw [(hobeys hsink).1, Monitor.asked_of_ended (hasked hsink)] at hitems
    exact ⟨hasked hsink, (List.cons.inj hitems).2.symm⟩
  · rename_i hnone
    simp only [Option.some.injEq, Prod.mk.injEq] at hstep
    obtain ⟨rfl, rfl⟩ := hstep
    refine h.serve s.wiring.kept_refl rfl ⟨rfl, rfl⟩ ?_
      (h.accounts.move hlive (by exact ⟨rfl, rfl, rfl⟩) (by simp [hphase]) (by simp))
    exact fun hsink => absurd ((Channel.pop?_eq_none_iff _).mp hnone) (hobeys hsink).2

theorem Coordinated.serve_draining {w : Wiring} {c : Console ChannelRole τ} (h : s.Coordinated sink q)
    (hphase : s.console.phase = .draining) (hstep : s.console.step s.wiring = some (w, c)) :
    ({ s with wiring := w, console := c } : Computer τ).Coordinated sink q := by
  have hobeys := h.obeys
  have hlive : s.console.phase ≠ .ended := by simp [hphase]
  simp only [Console.Obeys, hphase] at hobeys
  simp only [Console.step, hphase, h.serves.1, Option.some.injEq, Prod.mk.injEq] at hstep
  obtain ⟨rfl, rfl⟩ := hstep
  obtain ⟨hdrained, hleft⟩ := Channel.items_drain s.wiring.engine.output
  refine h.serve (Wiring.kept_update rfl) rfl ⟨rfl, rfl⟩
    (fun hsink => ⟨(hobeys hsink).1, (hobeys hsink).2, hleft⟩) ?_
  refine h.accounts.move hlive (by exact ⟨rfl, rfl, rfl⟩) ?_ (by simp)
  simp only [hphase, ConsolePhase.inHand, List.nil_append]
  change s.wiring.engine.output.drain.1 ++ s.wiring.engine.output.drain.2.items = _
  rw [hdrained, hleft, List.append_nil]

theorem Coordinated.serve_writing {w : Wiring} {c : Console ChannelRole τ} (h : s.Coordinated sink q)
    {rest : List Item} {n : Nat} (hphase : s.console.phase = .writing rest n)
    (hstep : s.console.step s.wiring = some (w, c)) :
    ({ s with wiring := w, console := c } : Computer τ).Coordinated sink q := by
  have hobeys := h.obeys
  have hlive : s.console.phase ≠ .ended := by simp [hphase]
  simp only [Console.Obeys, hphase] at hobeys
  cases rest with
  | nil =>
      simp only [Console.step, hphase, Option.some.injEq, Prod.mk.injEq] at hstep
      obtain ⟨rfl, rfl⟩ := hstep
      exact h.serve s.wiring.kept_refl rfl ⟨rfl, rfl⟩ (fun hsink _ => hobeys hsink)
        (h.accounts.move hlive (by exact ⟨rfl, rfl, rfl⟩) (by simp [hphase]) (by simp))
  | cons item rest =>
      simp only [Console.step, hphase, Option.some.injEq, Prod.mk.injEq] at hstep
      obtain ⟨rfl, rfl⟩ := hstep
      have hhand : s.console.phase.inHand = item :: rest := by rw [hphase]; rfl
      refine h.serve s.wiring.kept_refl rfl (Console.roles_emit ?_ ?_ _ _)
        (fun hsink => Console.Obeys.emit (fun _ => hobeys hsink) fun _ _ _ => Console.obeys_fail _ _ _ _)
        (h.accounts.emit hlive hhand ?_ fun _ _ _ => .inl rfl)
      · exact fun _ => ⟨rfl, rfl⟩
      · exact fun _ _ => ⟨rfl, rfl⟩
      · exact fun _ => ⟨rfl, rfl, rfl, rfl, fun hw => by simp at hw⟩

theorem Coordinated.console {w : Wiring} {c : Console ChannelRole τ} (h : s.Coordinated sink q)
    (hstep : s.console.step s.wiring = some (w, c)) :
    ({ s with wiring := w, console := c } : Computer τ).Coordinated sink q := by
  cases hphase : s.console.phase with
  | selecting call => exact h.serve_selecting hphase hstep
  | taking ready => exact h.serve_taking hphase hstep
  | emitting item ready => exact h.serve_emitting hphase hstep
  | obeying => exact h.serve_obeying hphase hstep
  | draining => exact h.serve_draining hphase hstep
  | writing rest n => exact h.serve_writing hphase hstep
  | ended => simp [Console.step, hphase] at hstep

end WordMachine.Computer
