import WordMachine.Proofs.Computer.Coordination
import WordMachine.Proofs.Computer.Listening
import WordMachine.Proofs.Computer.Waiting

namespace WordMachine

-- Phases in which the request to stop is still on its way.
def ConsolePhase.Expects {ι : Type} : ConsolePhase ι → Prop
  | .selecting _ | .taking _ | .emitting _ _ | .obeying => True
  | .draining | .writing _ _ | .ended => False

namespace Console

variable {τ : Type} {c c' : Console ChannelRole τ} {w w' : Wiring}

-- Every wait has an event that nobody has heard of before it begins.
structure Attentive (c : Console ChannelRole τ) (w : Wiring) : Prop where
  unwatched : w.engine.status.watchers = []
  events_lt : ∀ e ∈ w.events, e < c.nextEvent
  watchers_lt : ∀ i, ∀ e ∈ (w.channel i).watchers, e < c.nextEvent
  waits : ∀ call, c.phase = .selecting call → call.event < c.nextEvent ∧ call.Sound w

theorem Attentive.stirs (h : c.Attentive w) (hstirs : w.Stirs w') : c.Attentive w' where
  unwatched := (hstirs.watchers .status).trans h.unwatched
  events_lt e he := by
    rcases hstirs.sets e he with hbefore | ⟨i, hwatch, -⟩
    · exact h.events_lt e hbefore
    · exact h.watchers_lt i e hwatch
  watchers_lt i := by
    rw [hstirs.watchers]
    exact h.watchers_lt i
  waits call hphase := ⟨(h.waits call hphase).1, (h.waits call hphase).2.stirs hstirs⟩

-- A console that does not wait only has to keep its events apart.
theorem Attentive.busy (h : c.Attentive w) (hwatchers : ∀ i, (w'.channel i).watchers = (w.channel i).watchers)
    (hevents : w'.events = w.events) (hnext : c'.nextEvent = c.nextEvent)
    (hphase : ∀ call, c'.phase ≠ .selecting call) : c'.Attentive w' where
  unwatched := (hwatchers .status).trans h.unwatched
  events_lt := by
    rw [hevents, hnext]
    exact h.events_lt
  watchers_lt i := by
    rw [hwatchers, hnext]
    exact h.watchers_lt i
  waits call hcall := absurd hcall (hphase call)

theorem Attentive.listen (h : c.Attentive w) (hroles : c.output = .output ∧ c.control = .control) :
    c.listen.Attentive w where
  unwatched := h.unwatched
  events_lt e he := Nat.lt_succ_of_lt (h.events_lt e he)
  watchers_lt i e he := Nat.lt_succ_of_lt (h.watchers_lt i e he)
  waits call hcall := by
    have hstart : call = .start (channels c.output c.control) c.nextEvent :=
      (ConsolePhase.selecting.inj hcall).symm
    rw [hstart, hroles.1, hroles.2]
    refine ⟨Nat.lt_succ_self _, Select.sound_start ?_ ?_⟩
    · exact fun he => Nat.lt_irrefl _ (h.events_lt _ he)
    · exact fun he => Nat.lt_irrefl _ (h.watchers_lt .status _ he)

-- What one action of a console does.
structure Serves (w : Wiring) (c : Console ChannelRole τ) (w' : Wiring) (c' : Console ChannelRole τ) :
    Prop where
  kept : w.Kept w'
  status : w'.engine.status = w.engine.status
  roles : c'.output = c.output ∧ c'.control = c.control
  expects : c'.phase.Expects → c.phase.Expects ∧ w'.control.ready = w.control.ready
  attentive : c'.Attentive w'
  remaining : c'.phase.remaining w'.engine.output.items.length <
    c.phase.remaining w.engine.output.items.length

theorem serves_wait {call call' : Select ChannelRole} (h : c.Attentive w)
    (hphase : c.phase = .selecting call) (hselect : Select.step w call = some (w', call')) :
    Serves w c w' (c.move (.selecting call')) := by
  obtain ⟨hlt, hsound⟩ := h.waits call hphase
  have hattends := Select.attends_of_step hselect fun i hi => hsound.roles i (List.mem_append_left _ hi)
  have hcost := Select.cost_step hselect
  have hevent : call'.event = call.event := by
    obtain ⟨phase, rfl⟩ := Select.move_of_step hselect
    rfl
  have hqueued : w'.engine.output.items = w.engine.output.items := hattends.items .output
  have hstatus : w'.engine.status = w.engine.status := hattends.status
  refine
    { kept := hattends.kept
      status := hstatus
      roles := ⟨rfl, rfl⟩
      expects := fun _ => ⟨by rw [hphase]; trivial, hattends.ready_eq .control⟩
      attentive := ⟨by rw [hstatus]; exact h.unwatched, ?_, fun i e he => ?_, fun call'' hcall => ?_⟩
      remaining := ?_ }
  · rw [hattends.events]
    exact h.events_lt
  · rcases hattends.watchers i e he with he | rfl
    · exact h.watchers_lt i e he
    · exact hlt
  · obtain rfl := ConsolePhase.selecting.inj hcall
    exact ⟨hevent ▸ hlt, hsound.step hselect⟩
  · rw [hphase, hqueued]
    simp only [move, ConsolePhase.remaining]
    omega

-- An action that only leads a console on, and not into another wait.
theorem serves_of_phase (h : c.Attentive w) (hroles : c'.output = c.output ∧ c'.control = c.control)
    (hnext : c'.nextEvent = c.nextEvent) (hphase : ∀ call, c'.phase ≠ .selecting call)
    (hexpects : c'.phase.Expects → c.phase.Expects)
    (hless : c'.phase.remaining w.engine.output.items.length <
      c.phase.remaining w.engine.output.items.length) : Serves w c w c' where
  kept := w.kept_refl
  status := rfl
  roles := hroles
  expects hexpecting := ⟨hexpects hexpecting, rfl⟩
  attentive := h.busy (fun _ => rfl) rfl hnext hphase
  remaining := hless

-- A wait that is over leads on, since it has found something.
theorem serves_found {call : Select ChannelRole} {ready : List ChannelRole} (h : c.Attentive w)
    (hroles : c.output = .output ∧ c.control = .control) (hphase : c.phase = .selecting call)
    (hready : call.phase = .finished ready) : Serves w c w (c.afterWait ready) := by
  have hcost : call.cost = 1 := by rw [Select.cost, hready]
  have hexpects : c.phase.Expects := by rw [hphase]; trivial
  have hfound := (h.waits call hphase).2.found hready
  rw [afterWait, hroles.1, hroles.2]
  split
  · refine serves_of_phase h ⟨rfl, rfl⟩ rfl (by simp [move]) (fun _ => hexpects) ?_
    simp only [hphase, move, ConsolePhase.remaining]
    omega
  · rename_i hout
    have hcontrol : ready.contains ChannelRole.control = true :=
      List.contains_iff_mem.mpr (hfound.resolve_left fun hmem => hout (List.contains_iff_mem.mpr hmem))
    rw [if_pos hcontrol]
    refine serves_of_phase h ⟨rfl, rfl⟩ rfl (by simp [move]) (fun _ => hexpects) ?_
    simp only [hphase, move, ConsolePhase.remaining]
    omega

-- What a console takes from a channel leaves those who wait for it where they are.
theorem serves_of_take {i : ChannelRole} {d : Channel Item} {phase : ConsolePhase ChannelRole}
    (h : c.Attentive w) (hi : i ≠ .status) (hclosed : d.closed = (w.channel i).closed)
    (hwatchers : d.watchers = (w.channel i).watchers) (hphase : ∀ call, phase ≠ .selecting call)
    (hexpects : phase.Expects → c.phase.Expects ∧ i ≠ .control)
    (hless : phase.remaining (w.update i fun _ => d).engine.output.items.length <
      c.phase.remaining w.engine.output.items.length) :
    Serves w c (w.update i fun _ => d) (c.move phase) where
  kept := Wiring.kept_update hclosed
  status := by
    cases i with
    | status => exact absurd rfl hi
    | output | control => rfl
  roles := ⟨rfl, rfl⟩
  expects hexpecting := by
    obtain ⟨hbefore, hc⟩ := hexpects hexpecting
    refine ⟨hbefore, ?_⟩
    cases i with
    | control => exact absurd rfl hc
    | output | status => rfl
  attentive := by
    refine h.busy (fun j => ?_) (Wiring.events_update w i _) rfl hphase
    rw [Wiring.channel_update]
    split
    · rename_i hji
      rw [hji, hwatchers]
    · rfl
  remaining := hless

theorem serves_fail (h : c.Attentive w) (hlive : 0 < c.phase.remaining w.engine.output.items.length) (sink : τ)
    (x : Failure) : Serves w c w (fail { c with sink := sink } x) :=
  serves_of_phase h ⟨rfl, rfl⟩ rfl (by simp [fail]) (fun hended => hended.elim) hlive

section Steps

variable [TextSink τ]

theorem serves_taking {controlReady : Bool} (h : c.Attentive w) (houtput : c.output = .output)
    (hphase : c.phase = .taking controlReady) (hstep : c.step w = some (w', c')) : Serves w c w' c' := by
  have hexpects : c.phase.Expects := by rw [hphase]; trivial
  simp only [step, hphase, houtput] at hstep
  have hchannel : (ChannelStore.channel w ChannelRole.output : Channel Item) = w.engine.output := rfl
  rw [hchannel] at hstep
  split at hstep <;> rename_i hpop <;> simp only [Option.some.injEq, Prod.mk.injEq] at hstep <;>
    obtain ⟨rfl, rfl⟩ := hstep
  · have hqueued := congrArg List.length (Channel.items_pop hpop)
    rw [List.length_cons] at hqueued
    refine serves_of_take h (by simp) (Channel.closed_pop hpop) (Channel.watchers_pop hpop) (by simp)
      (fun _ => ⟨hexpects, by simp⟩) ?_
    simp only [hphase, ConsolePhase.remaining, Wiring.update]
    omega
  · refine serves_of_phase h ⟨rfl, rfl⟩ rfl (by simp [move]) (fun hdraining => hdraining.elim) ?_
    simp only [hphase, move, ConsolePhase.remaining]
    omega

-- An item in hand is written, or the sink fails on it.
theorem Serves.emit {item : Item} {next : Console ChannelRole τ → Console ChannelRole τ}
    {failed : Console ChannelRole τ → Failure → Console ChannelRole τ}
    (hnext : ∀ (sink : τ) (written : List String),
      Serves w c w (next { c with sink := sink, written := written }))
    (hfailed : ∀ (sink : τ) (x : Failure), Serves w c w (failed { c with sink := sink } x)) :
    Serves w c w (c.emit item next failed) := by
  rw [Console.emit]
  split
  · exact hnext _ _
  · exact hfailed _ _

theorem serves_emitting {item : Item} {controlReady : Bool} (h : c.Attentive w)
    (hroles : c.output = .output ∧ c.control = .control) (hphase : c.phase = .emitting item controlReady)
    (hstep : c.step w = some (w', c')) : Serves w c w' c' := by
  have hexpects : c.phase.Expects := by rw [hphase]; trivial
  simp only [step, hphase, Option.some.injEq, Prod.mk.injEq] at hstep
  obtain ⟨rfl, rfl⟩ := hstep
  refine Serves.emit (fun sink written => ?next) fun sink x => ?failed
  case next =>
    split
    · refine serves_of_phase h ⟨rfl, rfl⟩ rfl (by simp) (fun _ => hexpects) ?_
      simp only [hphase, phase_move, ConsolePhase.remaining]
      omega
    · have hsame : ({ c with sink := sink, written := written } : Console ChannelRole τ).Attentive w :=
        ⟨h.unwatched, h.events_lt, h.watchers_lt, h.waits⟩
      refine
        { kept := w.kept_refl
          status := rfl
          roles := ⟨rfl, rfl⟩
          expects := fun _ => ⟨hexpects, rfl⟩
          attentive := hsame.listen hroles
          remaining := ?_ }
      simp only [hphase, listen, channels, ConsolePhase.remaining, Select.start, Select.cost,
        List.length_cons, List.length_nil]
      omega
  case failed =>
    rw [failOrDrain]
    split
    · refine serves_of_phase h ⟨rfl, rfl⟩ rfl (by simp) (fun hdraining => hdraining.elim) ?_
      simp only [hphase, phase_move, ConsolePhase.remaining]
      omega
    · exact serves_fail h (by simp [hphase, ConsolePhase.remaining]) sink x

theorem serves_obeying (h : c.Attentive w) (hcontrol : c.control = .control) (hphase : c.phase = .obeying)
    (hstep : c.step w = some (w', c')) : Serves w c w' c' := by
  simp only [step, hphase, hcontrol] at hstep
  have hchannel : (ChannelStore.channel w ChannelRole.control : Channel Item) = w.control := rfl
  rw [hchannel] at hstep
  split at hstep <;> rename_i hpop <;> simp only [Option.some.injEq, Prod.mk.injEq] at hstep <;>
    obtain ⟨rfl, rfl⟩ := hstep
  · refine serves_of_take h (by simp) (Channel.closed_pop hpop) (Channel.watchers_pop hpop) (by simp)
      (fun hdraining => hdraining.elim) ?_
    simp only [hphase, ConsolePhase.remaining, Wiring.update]
    omega
  · refine serves_of_phase h ⟨rfl, rfl⟩ rfl (by simp [move]) (fun hdraining => hdraining.elim) ?_
    simp only [hphase, move, ConsolePhase.remaining]
    omega

theorem serves_draining (h : c.Attentive w) (houtput : c.output = .output) (hphase : c.phase = .draining)
    (hstep : c.step w = some (w', c')) : Serves w c w' c' := by
  simp only [step, hphase, houtput, Option.some.injEq, Prod.mk.injEq] at hstep
  obtain ⟨rfl, rfl⟩ := hstep
  refine serves_of_take h (by simp) rfl rfl (by simp) (fun hwriting => hwriting.elim) ?_
  have hdrained : (ChannelStore.channel w ChannelRole.output : Channel Item).drain.1 =
      w.engine.output.items := rfl
  simp only [hphase, ConsolePhase.remaining, hdrained]
  omega

theorem serves_writing {rest : List Item} {n : Nat} (h : c.Attentive w)
    (hphase : c.phase = .writing rest n) (hstep : c.step w = some (w', c')) : Serves w c w' c' := by
  cases rest with
  | nil =>
      simp only [step, hphase, Option.some.injEq, Prod.mk.injEq] at hstep
      obtain ⟨rfl, rfl⟩ := hstep
      exact serves_of_phase h ⟨rfl, rfl⟩ rfl (by simp) (fun hended => hended.elim)
        (by simp [hphase, ConsolePhase.remaining])
  | cons item rest =>
      simp only [step, hphase, Option.some.injEq, Prod.mk.injEq] at hstep
      obtain ⟨rfl, rfl⟩ := hstep
      refine Serves.emit (fun sink written => ?_) (serves_fail h (by simp [hphase, ConsolePhase.remaining]))
      exact serves_of_phase h ⟨rfl, rfl⟩ rfl (by simp) (fun hwriting => hwriting.elim)
        (by simp [hphase, ConsolePhase.remaining])

theorem serves_of_step (h : c.Attentive w) (hroles : c.output = .output ∧ c.control = .control)
    (hstep : c.step w = some (w', c')) : Serves w c w' c' := by
  cases hphase : c.phase with
  | selecting call =>
      simp only [step, hphase] at hstep
      split at hstep
      · rename_i ready hready
        simp only [Option.some.injEq, Prod.mk.injEq] at hstep
        obtain ⟨rfl, rfl⟩ := hstep
        exact serves_found h hroles hphase hready
      · split at hstep
        · rename_i hselect
          simp only [Option.some.injEq, Prod.mk.injEq] at hstep
          obtain ⟨rfl, rfl⟩ := hstep
          exact serves_wait h hphase hselect
        · simp at hstep
  | taking controlReady => exact serves_taking h hroles.1 hphase hstep
  | emitting item controlReady => exact serves_emitting h hroles hphase hstep
  | obeying => exact serves_obeying h hroles.2 hphase hstep
  | draining => exact serves_draining h hroles.1 hphase hstep
  | writing rest n => exact serves_writing h hphase hstep
  | ended => simp [step, hphase] at hstep

-- The one thing that holds up a console is a wait, and a request to stop wakes it.
theorem exists_step (h : c.Attentive w) (hready : c.phase.Expects → w.control.ready = true)
    (hlive : c.ended = false) : ∃ r, c.step w = some r := by
  cases hphase : c.phase with
  | selecting call =>
      have hcontrol : (w.channel .control).ready = true := hready (by rw [hphase]; trivial)
      simp only [step, hphase]
      split
      · exact ⟨_, rfl⟩
      · rename_i hreturned
        obtain ⟨r, hr⟩ := (h.waits call hphase).2.exists_step
          (fun ready hfinished => hreturned ready hfinished) (by simp) hcontrol
        exact ⟨_, by rw [hr]⟩
  | taking controlReady =>
      simp only [step, hphase]
      split <;> exact ⟨_, rfl⟩
  | emitting item controlReady =>
      simp only [step, hphase]
      exact ⟨_, rfl⟩
  | obeying =>
      simp only [step, hphase]
      split <;> exact ⟨_, rfl⟩
  | draining =>
      simp only [step, hphase]
      exact ⟨_, rfl⟩
  | writing rest n =>
      cases rest <;> simp only [step, hphase] <;> exact ⟨_, rfl⟩
  | ended => simp [ended, hphase] at hlive

-- What ends the next action of a console, if anything does: its sink, on the item it is about to write. A sink that
-- says that a queue is empty ends no console that still waits.
def raises? (c : Console ChannelRole τ) : Option Failure :=
  match c.phase.inHand with
  | [] => none
  | item :: _ =>
      match (TextSink.emitItem c.sink item).2 with
      | .ok _ => none
      | .error x => if c.phase.waits = true ∧ x = .channel .empty then none else some x

-- Nothing but a sink that fails raises anything, and only an empty hand lets a console end in peace.
theorem concluded_of_quiet (hhand : c.phase.inHand = []) (hends : c'.ended = c'.finished) (herror : c'.error = none) :
    Concluded c'.ended c'.finished c'.error c.raises? := by
  rw [raises?, hhand]
  exact ⟨hends.symm, herror, by simp [herror]⟩

theorem concluded_emit {item : Item} {rest : List Item} {next : Console ChannelRole τ → Console ChannelRole τ}
    {failed : Console ChannelRole τ → Failure → Console ChannelRole τ}
    (hhand : c.phase.inHand = item :: rest) (hfinished : c.finished = false) (herror : c.error = none)
    (hnext : ∀ d : Console ChannelRole τ,
      (next d).ended = false ∧ (next d).finished = d.finished ∧ (next d).error = d.error)
    (hfailed : ∀ (d : Console ChannelRole τ) (x : Failure),
      failed d x = if c.phase.waits = true ∧ x = .channel .empty then d.move .draining else d.fail x) :
    Concluded (c.emit item next failed).ended (c.emit item next failed).finished (c.emit item next failed).error
      c.raises? := by
  rw [Console.emit, raises?, hhand]
  split <;> rename_i hemit <;> simp only [hemit]
  · rename_i sink text
    obtain ⟨hended, hsame, hkept⟩ := hnext { c with sink := sink, written := text :: c.written }
    rw [hended, hsame, hkept]
    exact ⟨hfinished, herror, by simp [herror]⟩
  · rw [hfailed]
    split
    · exact ⟨hfinished, herror, by simp [move, herror]⟩
    · exact ⟨rfl, rfl, fun _ => rfl⟩

theorem concluded_of_step {raised : Option Failure} (hstep : c.step w = some (w', c'))
    (h : Concluded c.ended c.finished c.error raised) :
    Concluded c'.ended c'.finished c'.error (raised.or c.raises?) := by
  have hlive : c.ended = false := by
    rw [ended]
    cases hphase : c.phase with
    | ended => simp [step, hphase] at hstep
    | _ => rfl
  obtain ⟨hfinished, herror, rfl⟩ := h.raised_eq_none hlive
  rw [Option.none_or]
  have hquiet : c.phase.inHand = [] → c'.ended = c'.finished → c'.error = c.error →
      Concluded c'.ended c'.finished c'.error c.raises? :=
    fun hhand hends hkept => concluded_of_quiet hhand hends (hkept.trans herror)
  cases hphase : c.phase with
  | selecting call =>
      simp only [step, hphase] at hstep
      split at hstep
      · simp only [Option.some.injEq, Prod.mk.injEq] at hstep
        obtain ⟨rfl, rfl⟩ := hstep
        apply hquiet (by rw [hphase]; rfl) <;> rw [afterWait] <;> repeat' split
        all_goals first | rfl | exact hfinished.symm
      · split at hstep
        · simp only [Option.some.injEq, Prod.mk.injEq] at hstep
          obtain ⟨rfl, rfl⟩ := hstep
          exact hquiet (by rw [hphase]; rfl) hfinished.symm rfl
        · simp at hstep
  | taking controlReady =>
      simp only [step, hphase] at hstep
      split at hstep <;> simp only [Option.some.injEq, Prod.mk.injEq] at hstep <;>
        obtain ⟨rfl, rfl⟩ := hstep <;> exact hquiet (by rw [hphase]; rfl) hfinished.symm rfl
  | emitting item controlReady =>
      simp only [step, hphase, Option.some.injEq, Prod.mk.injEq] at hstep
      obtain ⟨rfl, rfl⟩ := hstep
      refine concluded_emit (by rw [hphase]; rfl) hfinished herror (fun d => ?_) fun d x => ?_
      · split <;> exact ⟨rfl, rfl, rfl⟩
      · simp only [hphase, ConsolePhase.waits, true_and, failOrDrain]
  | obeying =>
      simp only [step, hphase] at hstep
      split at hstep <;> simp only [Option.some.injEq, Prod.mk.injEq] at hstep <;>
        obtain ⟨rfl, rfl⟩ := hstep <;> exact hquiet (by rw [hphase]; rfl) hfinished.symm rfl
  | draining =>
      simp only [step, hphase, Option.some.injEq, Prod.mk.injEq] at hstep
      obtain ⟨rfl, rfl⟩ := hstep
      exact hquiet (by rw [hphase]; rfl) hfinished.symm rfl
  | writing rest n =>
      cases rest with
      | nil =>
          simp only [step, hphase, Option.some.injEq, Prod.mk.injEq] at hstep
          obtain ⟨rfl, rfl⟩ := hstep
          exact hquiet (by rw [hphase]; rfl) rfl rfl
      | cons item rest =>
          simp only [step, hphase, Option.some.injEq, Prod.mk.injEq] at hstep
          obtain ⟨rfl, rfl⟩ := hstep
          refine concluded_emit (by rw [hphase]; rfl) hfinished herror (fun d => ⟨rfl, rfl, rfl⟩) fun d x => ?_
          simp only [hphase, ConsolePhase.waits, Bool.false_eq_true, false_and, if_false]
  | ended => simp [step, hphase] at hstep

end Steps

end Console

end WordMachine
