import WordMachine.Proofs.Computer.Stirring

namespace WordMachine

-- How a task stands to what it has raised: it has finished if it has ended, and it has ended if it has raised.
structure Concluded (ended finished : Bool) (error raised : Option Failure) : Prop where
  finishes : finished = ended
  keeps : error = raised
  ends : error.isSome = true → ended = true

theorem Concluded.raised_eq_none {ended finished : Bool} {error raised : Option Failure}
    (h : Concluded ended finished error raised) (hlive : ended = false) :
    finished = false ∧ error = none ∧ raised = none := by
  have herror : error = none := by
    rw [← Option.not_isSome_iff_eq_none]
    intro hsome
    rw [h.ends hsome] at hlive
    simp at hlive
  exact ⟨h.finishes.trans hlive, herror, h.keeps ▸ herror⟩

-- The most actions a monitor can still take, with so many items on the status channel.
def MonitorPhase.remaining (told : Nat) : MonitorPhase → Nat
  | .listening => told + 2
  | .stopping => 1
  | .ended => 0

namespace Monitor

variable {m m' : Monitor ChannelRole} {w w' : Wiring}

-- What ends the next action of a monitor, if anything does.
def raises? (m : Monitor ChannelRole) (w : Wiring) : Option Failure :=
  match m.phase with
  | .stopping =>
      match ChannelStore.put w m.control .stop with
      | .ok _ => none
      | .error x => some (.channel x)
  | _ => none

-- There are only halt signals to hear, and a monitor that has yet to hear one will do so, or will find the
-- channel closed.
structure Informed (m : Monitor ChannelRole) (e : Engine) : Prop where
  signals : ∀ x ∈ e.status.items, ∃ signal, x = .halt signal
  heard : m.phase = .listening → e.signalled = true → e.status.ready = true

theorem Informed.tells {e e' : Engine} (h : m.Informed e) (htells : e.Tells e') : m.Informed e' where
  signals := by
    rcases htells.status with hsame | ⟨signal, hpushed⟩
    · rw [hsame]
      exact h.signals
    · rw [hpushed, Channel.items_pushed]
      intro x hx
      rcases List.mem_append.mp hx with hx | hx
      · exact h.signals x hx
      · exact ⟨signal, List.mem_singleton.mp hx⟩
  heard hphase hsignalled := by
    cases hs : e.signalled with
    | false => exact htells.heard hs hsignalled
    | true =>
        rcases htells.status with hsame | ⟨signal, hpushed⟩
        · rw [hsame]
          exact h.heard hphase hs
        · rw [hpushed]
          exact Channel.ready_pushed _ _

-- What one action of a monitor does.
structure Serves (w : Wiring) (m : Monitor ChannelRole) (w' : Wiring) (m' : Monitor ChannelRole) : Prop where
  kept : w.Kept w'
  roles : m'.status = m.status ∧ m'.control = m.control
  stirs : w.Stirs w'
  output : w'.engine.output = w.engine.output
  informed : m'.Informed w'.engine
  asked : m'.phase = .ended → w'.control.ready = true
  remaining : m'.phase.remaining w'.engine.status.items.length <
    m.phase.remaining w.engine.status.items.length

theorem serves_of_listening (hphase : m.phase = .listening) (hinformed : m.Informed w.engine)
    (hstatus : m.status = .status) (hstep : m.step w = some (w', m')) : Serves w m w' m' := by
  simp only [step, hphase, hstatus] at hstep
  have hchannel : (ChannelStore.channel w ChannelRole.status : Channel Item) = w.engine.status := rfl
  rw [hchannel] at hstep
  split at hstep
  · simp at hstep
  · simp only [Option.some.injEq, Prod.mk.injEq] at hstep
    obtain ⟨rfl, rfl⟩ := hstep
    exact
      { kept := w.kept_refl
        roles := ⟨hstatus.symm, rfl⟩
        stirs := w.stirs_refl
        output := rfl
        informed := ⟨hinformed.signals, by simp⟩
        asked := by simp
        remaining := by simp [hphase, MonitorPhase.remaining] }
  · rename_i item c htake
    have hpop := Channel.pop_of_take htake
    have hitems := Channel.items_pop hpop
    obtain ⟨signal, rfl⟩ := hinformed.signals item (by rw [hitems]; exact List.mem_cons_self)
    simp only [Option.some.injEq, Prod.mk.injEq] at hstep
    obtain ⟨rfl, rfl⟩ := hstep
    refine
      { kept := Wiring.kept_update (Channel.closed_pop hpop)
        roles := ⟨hstatus.symm, rfl⟩
        stirs := Wiring.stirs_take_status (Channel.watchers_pop hpop)
        output := rfl
        informed := ⟨fun x hx => hinformed.signals x ?_, by simp⟩
        asked := by simp
        remaining := by simp [hphase, MonitorPhase.remaining] }
    rw [hitems]
    exact List.mem_cons_of_mem _ hx

theorem serves_of_stopping (hphase : m.phase = .stopping) (hinformed : m.Informed w.engine)
    (hcontrol : m.control = .control) (hstep : m.step w = some (w', m')) : Serves w m w' m' := by
  simp only [step, hphase, hcontrol] at hstep
  cases hput : ChannelStore.put w ChannelRole.control Item.stop with
  | ok w₁ =>
      simp only [hput, Option.some.injEq, Prod.mk.injEq] at hstep
      obtain ⟨rfl, rfl⟩ := hstep
      have hstirs := Wiring.stirs_put hput
      obtain rfl := Wiring.eq_of_put hput
      exact
        { kept := ⟨rfl, rfl, rfl, fun i => by cases i <;> rfl⟩
          roles := ⟨rfl, hcontrol.symm⟩
          stirs := hstirs
          output := rfl
          informed := ⟨hinformed.signals, by simp⟩
          asked := fun _ => Channel.ready_pushed _ _
          remaining := by simp [hphase, MonitorPhase.remaining] }
  | error x =>
      simp only [hput, Option.some.injEq, Prod.mk.injEq] at hstep
      obtain ⟨rfl, rfl⟩ := hstep
      exact
        { kept := w.kept_refl
          roles := ⟨rfl, hcontrol.symm⟩
          stirs := w.stirs_refl
          output := rfl
          informed := ⟨hinformed.signals, by simp⟩
          asked := fun _ => Channel.ready_of_closed (Wiring.closed_of_put_error hput)
          remaining := by simp [hphase, MonitorPhase.remaining] }

theorem serves_of_step (hinformed : m.Informed w.engine) (hstatus : m.status = .status)
    (hcontrol : m.control = .control) (hstep : m.step w = some (w', m')) : Serves w m w' m' := by
  cases hphase : m.phase with
  | listening => exact serves_of_listening hphase hinformed hstatus hstep
  | stopping => exact serves_of_stopping hphase hinformed hcontrol hstep
  | ended => simp [step, hphase] at hstep

theorem ended_eq (m : Monitor ChannelRole) : m.ended = true ↔ m.phase = .ended := by
  simp [ended]

theorem exists_step (hinformed : m.Informed w.engine) (hstatus : m.status = .status)
    (hsignalled : w.engine.signalled = true) (hlive : m.ended = false) : ∃ r, m.step w = some r := by
  cases hphase : m.phase with
  | listening =>
      obtain ⟨r, hr⟩ := Option.isSome_iff_exists.mp
        ((Channel.ready_iff _).mp (hinformed.heard hphase hsignalled))
      have hchannel : (ChannelStore.channel w ChannelRole.status : Channel Item) = w.engine.status := rfl
      simp only [step, hphase, hstatus, hchannel, hr]
      split
      · rename_i hnone
        simp at hnone
      · exact ⟨_, rfl⟩
      · split <;> exact ⟨_, rfl⟩
  | stopping =>
      simp only [step, hphase]
      split <;> exact ⟨_, rfl⟩
  | ended => simp [ended, hphase] at hlive

theorem concluded_of_step {raised : Option Failure} (hstep : m.step w = some (w', m'))
    (h : Concluded m.ended m.finished m.error raised) :
    Concluded m'.ended m'.finished m'.error (raised.or (m.raises? w)) := by
  have hlive : m.ended = false := by
    rw [ended]
    cases hphase : m.phase with
    | ended => simp [step, hphase] at hstep
    | _ => rfl
  obtain ⟨hfinished, herror, rfl⟩ := h.raised_eq_none hlive
  rw [Option.none_or]
  cases hphase : m.phase with
  | listening =>
      simp only [step, hphase] at hstep
      repeat' split at hstep
      all_goals simp only [Option.some.injEq, Prod.mk.injEq, reduceCtorEq] at hstep
      all_goals obtain ⟨rfl, rfl⟩ := hstep
      all_goals constructor <;> simp [raises?, hphase, hfinished, herror, ended]
  | stopping =>
      simp only [step, hphase] at hstep
      split at hstep <;> rename_i hput <;> simp only [Option.some.injEq, Prod.mk.injEq] at hstep <;>
        obtain ⟨rfl, rfl⟩ := hstep <;> constructor <;>
        simp [raises?, hphase, hput, herror, ended]
  | ended => simp [step, hphase] at hstep

end Monitor

end WordMachine
