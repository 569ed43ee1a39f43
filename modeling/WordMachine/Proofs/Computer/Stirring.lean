import WordMachine.Proofs.Computer.Wiring
import WordMachine.Proofs.Engine.Telling

namespace WordMachine

namespace Wiring

variable {w w' : Wiring}

-- What the others do as a wait sees it. Nobody but the console takes from its two channels, so a channel
-- that is ready stays so; one that becomes ready sets the events left with it, and nothing else sets any.
structure Stirs (w w' : Wiring) : Prop where
  watchers : ∀ i, (w'.channel i).watchers = (w.channel i).watchers
  ready : ∀ i, i ≠ .status → (w.channel i).ready = true → (w'.channel i).ready = true
  wakes : ∀ i, i ≠ .status → (w'.channel i).ready = true →
    (w.channel i).ready = true ∨ ∀ e ∈ (w.channel i).watchers, e ∈ w'.events
  events : ∀ e ∈ w.events, e ∈ w'.events
  sets : ∀ e ∈ w'.events,
    e ∈ w.events ∨ ∃ i, e ∈ (w.channel i).watchers ∧ (w'.channel i).ready = true

theorem stirs_of_same (hchannel : ∀ i, w'.channel i = w.channel i) (hevents : w'.events = w.events) :
    w.Stirs w' where
  watchers i := by rw [hchannel]
  ready i _ := by
    rw [hchannel]
    exact id
  wakes i _ := by
    rw [hchannel]
    exact .inl
  events e := by
    rw [hevents]
    exact id
  sets e := by
    rw [hevents]
    exact .inl

theorem stirs_refl (w : Wiring) : w.Stirs w :=
  stirs_of_same (fun _ => rfl) rfl

theorem events_update (w : Wiring) (i : ChannelRole) (f : Channel Item → Channel Item) :
    (w.update i f).events = w.events := by
  cases i <;> rfl

-- A channel becomes ready, and whoever waits for it is told.
theorem stirs_arrive {i : ChannelRole} {c : Channel Item} (hwatchers : c.watchers = (w.channel i).watchers)
    (hready : c.ready = true) : w.Stirs (ChannelStore.setAll (w.update i fun _ => c) c.watchers) := by
  have hchannel : ∀ j, (ChannelStore.setAll (w.update i fun _ => c) c.watchers : Wiring).channel j =
      if j = i then c else w.channel j := by
    intro j
    rw [channel_setAll, channel_update]
  have hevents : (ChannelStore.setAll (w.update i fun _ => c) c.watchers : Wiring).events =
      (w.channel i).watchers ++ w.events := by
    rw [← hwatchers, ← events_update w i fun _ => c]
    rfl
  constructor
  case watchers =>
    intro j
    rw [hchannel]
    split
    · rename_i hji
      rw [hji, hwatchers]
    · rfl
  case ready =>
    intro j _ hj
    rw [hchannel]
    split
    · exact hready
    · exact hj
  case wakes =>
    intro j _ hj
    rw [hchannel] at hj
    split at hj
    · rename_i hji
      right
      intro e he
      rw [hevents, ← hji]
      exact List.mem_append_left _ he
    · exact .inl hj
  case events =>
    intro e he
    rw [hevents]
    exact List.mem_append_right _ he
  case sets =>
    intro e he
    rw [hevents] at he
    rcases List.mem_append.mp he with he | he
    · refine .inr ⟨i, he, ?_⟩
      rw [hchannel, if_pos rfl]
      exact hready
    · exact .inl he

-- A put that is not refused adds its item, and one that is was made on a closed channel.
theorem eq_of_put {i : ChannelRole} {x : Item} (h : ChannelStore.put w i x = .ok w') :
    w' = ChannelStore.setAll (w.update i fun _ => (w.channel i).pushed x) (w.channel i).watchers := by
  cases hc : (w.channel i).closed with
  | true =>
      have hput : (ChannelStore.channel w i : Channel Item).put x =
          .error (.putOnClosed (w.channel i).name) := if_pos hc
      simp [ChannelStore.put, hput] at h
  | false =>
      have hput : (ChannelStore.channel w i : Channel Item).put x = .ok ((w.channel i).pushed x) :=
        Channel.put_of_open hc x
      simp only [ChannelStore.put, hput, Except.ok.injEq] at h
      exact h.symm

theorem closed_of_put_error {i : ChannelRole} {x : Item} {e : ChannelError}
    (h : ChannelStore.put w i x = .error e) : (w.channel i).closed = true := by
  cases hc : (w.channel i).closed with
  | true => rfl
  | false =>
      obtain ⟨w', hput, -, -⟩ := exists_put hc x
      simp [hput] at h

theorem stirs_put {i : ChannelRole} {x : Item} (h : ChannelStore.put w i x = .ok w') : w.Stirs w' := by
  rw [eq_of_put h]
  exact stirs_arrive rfl (Channel.ready_pushed _ x)

theorem stirs_close (w : Wiring) (i : ChannelRole) : w.Stirs (ChannelStore.close w i) := by
  have hclose : ChannelStore.close w i =
      ChannelStore.setAll (w.update i fun _ => (w.channel i).close) (w.channel i).close.watchers := by
    cases i <;> rfl
  rw [hclose]
  exact stirs_arrive rfl (Channel.ready_of_closed rfl)

-- What the monitor takes is nothing to the console.
theorem stirs_take_status {c : Channel Item} (h : c.watchers = w.engine.status.watchers) :
    w.Stirs (w.update .status fun _ => c) where
  watchers i := by cases i <;> first | exact h | rfl
  ready i hi hready := by cases i <;> first | exact hready | exact absurd rfl hi
  wakes i hi hready := by cases i <;> first | exact .inl hready | exact absurd rfl hi
  events _ := id
  sets _ := .inl

-- A channel that at most got an item, with the events this sets.
structure Grown (c d : Channel Item) : Prop where
  watchers : d.watchers = c.watchers
  ready : c.ready = true → d.ready = true
  wakes : d.ready = true → c.ready = true ∨ woken c d = c.watchers
  sets : ∀ e ∈ woken c d, e ∈ c.watchers ∧ d.ready = true

theorem grown_of_pushed {c d : Channel Item} (h : d = c ∨ ∃ x, d = c.pushed x) : Grown c d := by
  rcases h with rfl | ⟨x, rfl⟩
  · refine ⟨rfl, id, .inl, ?_⟩
    simp [woken]
  · have hwoken : woken c (c.pushed x) = c.watchers := if_pos (Nat.lt_succ_self _)
    have hready := Channel.ready_pushed c x
    refine ⟨rfl, fun _ => hready, fun _ => .inr hwoken, ?_⟩
    rw [hwoken]
    exact fun e he => ⟨he, hready⟩

theorem stirs_engineMoved {e : Engine} (h : w.engine.Tells e) : w.Stirs (w.engineMoved e) := by
  have houtput := grown_of_pushed h.output
  have hstatus : Grown w.engine.status e.status :=
    grown_of_pushed (h.status.imp_right fun ⟨signal, hsignal⟩ => ⟨_, hsignal⟩)
  have hevents : (w.engineMoved e).events =
      woken w.engine.output e.output ++ woken w.engine.status e.status ++ w.events := rfl
  constructor
  case watchers =>
    intro i
    cases i with
    | output => exact houtput.watchers
    | status => exact hstatus.watchers
    | control => rfl
  case ready =>
    intro i hi hready
    cases i with
    | output => exact houtput.ready hready
    | status => exact absurd rfl hi
    | control => exact hready
  case wakes =>
    intro i hi hready
    cases i with
    | output =>
        refine (houtput.wakes hready).imp_right fun hwoken x hx => ?_
        have hx : x ∈ woken w.engine.output e.output := hwoken ▸ hx
        rw [hevents]
        exact List.mem_append_left _ (List.mem_append_left _ hx)
    | status => exact absurd rfl hi
    | control => exact .inl hready
  case events =>
    intro x hx
    rw [hevents]
    exact List.mem_append_right _ hx
  case sets =>
    intro x hx
    rw [hevents] at hx
    rcases List.mem_append.mp hx with hx | hx
    · rcases List.mem_append.mp hx with hx | hx
      · exact .inr ⟨.output, houtput.sets x hx⟩
      · exact .inr ⟨.status, hstatus.sets x hx⟩
    · exact .inl hx

end Wiring

end WordMachine
