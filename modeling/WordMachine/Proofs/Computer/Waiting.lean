import WordMachine.Proofs.Computer.Stirring

namespace WordMachine

-- The channels a phase has yet to act on.
def SelectPhase.todo {ι : Type} : SelectPhase ι → List ι
  | .look _ todo _ => todo
  | .register todo => todo
  | .wait => []
  | .unregister todo _ => todo
  | .finished _ => []

namespace Select

variable {w w' : Wiring} {call call' : Select ChannelRole}

-- What keeps a call from missing anything: once its event is with both channels, one of them that is ready
-- has set it unless the call has seen that itself; and it does not go home without having found one.
def Awaits (call : Select ChannelRole) (w : Wiring) : Prop :=
  match call.phase with
  | .look .first _ _ => True
  | .register todo => ∀ i, i ≠ .status → i ∉ todo → call.event ∈ (w.channel i).watchers
  | .look .second todo ready => ∀ i, i ≠ .status → call.event ∈ (w.channel i).watchers ∧
      (i ∉ todo → i ∉ ready → (w.channel i).ready = true → call.event ∈ w.events)
  | .wait => ∀ i, i ≠ .status → call.event ∈ (w.channel i).watchers ∧
      ((w.channel i).ready = true → call.event ∈ w.events)
  | .look .last todo ready => ready ≠ [] ∨ ∃ i ∈ todo, (w.channel i).ready = true
  | .unregister _ ready => ready ≠ []
  | .finished ready => ready ≠ []

structure Sound (call : Select ChannelRole) (w : Wiring) : Prop where
  channels : ∀ i, i ∈ call.channels ↔ i ≠ .status
  roles : ∀ i ∈ call.phase.todo ++ call.phase.found, i ≠ .status
  unwatched : call.event ∉ (w.channel .status).watchers
  set : call.event ∈ w.events → ∃ i, i ≠ .status ∧ (w.channel i).ready = true
  awaits : call.Awaits w

theorem sound_start {e : EventId} (hevents : e ∉ w.events)
    (hwatchers : e ∉ (w.channel .status).watchers) :
    (start [ChannelRole.output, .control] e).Sound w where
  channels i := by cases i <;> simp [start]
  roles i := by cases i <;> simp [start, SelectPhase.todo, SelectPhase.found]
  unwatched := hwatchers
  set h := absurd h hevents
  awaits := trivial

theorem Awaits.stirs (h : call.Awaits w) (hroles : ∀ i ∈ call.phase.todo, i ≠ .status)
    (hstirs : w.Stirs w') : call.Awaits w' := by
  -- A channel that was not ready before sets the event, which was with it already.
  have hset : ∀ i, i ≠ .status → call.event ∈ (w.channel i).watchers → (w'.channel i).ready = true →
      (w.channel i).ready = true ∨ call.event ∈ w'.events := by
    intro i hi hwatch hready
    exact (hstirs.wakes i hi hready).imp_right fun hall => hall _ hwatch
  rw [Awaits] at h ⊢
  split <;> rename_i hphase <;> simp only [hphase] at h
  · trivial
  · intro i hi htodo
    rw [hstirs.watchers]
    exact h i hi htodo
  · intro i hi
    obtain ⟨hwatch, hseen⟩ := h i hi
    refine ⟨by rw [hstirs.watchers]; exact hwatch, fun htodo hfound hready => ?_⟩
    rcases hset i hi hwatch hready with hbefore | hnow
    · exact hstirs.events _ (hseen htodo hfound hbefore)
    · exact hnow
  · intro i hi
    obtain ⟨hwatch, hseen⟩ := h i hi
    refine ⟨by rw [hstirs.watchers]; exact hwatch, fun hready => ?_⟩
    rcases hset i hi hwatch hready with hbefore | hnow
    · exact hstirs.events _ (hseen hbefore)
    · exact hnow
  · refine h.imp_right fun ⟨i, hi, hready⟩ => ⟨i, hi, hstirs.ready i (hroles i ?_) hready⟩
    rw [hphase]
    exact hi
  · exact h
  · exact h

theorem Sound.stirs (h : call.Sound w) (hstirs : w.Stirs w') : call.Sound w' where
  channels := h.channels
  roles := h.roles
  unwatched := by
    rw [hstirs.watchers]
    exact h.unwatched
  set he := by
    rcases hstirs.sets _ he with hbefore | ⟨i, hwatch, hready⟩
    · obtain ⟨i, hi, hready⟩ := h.set hbefore
      exact ⟨i, hi, hstirs.ready i hi hready⟩
    · refine ⟨i, ?_, hready⟩
      rintro rfl
      exact h.unwatched hwatch
  awaits := h.awaits.stirs (fun i hi => h.roles i (List.mem_append_left _ hi)) hstirs

-- All that an action of a call does to a channel is to leave an event there or to take one back.
theorem step_update (h : step w call = some (w', call')) :
    w' = w ∨ ∃ i ∈ call.phase.todo,
      w' = w.update i (fun c => c.watch call.event) ∨ w' = w.update i (fun c => c.unwatch call.event) := by
  obtain ⟨channels, event, phase⟩ := call
  cases phase with
  | look round todo ready =>
      cases todo <;> simp only [step, Option.some.injEq, Prod.mk.injEq] at h <;> exact .inl h.1.symm
  | register todo =>
      cases todo with
      | nil =>
          simp only [step, Option.some.injEq, Prod.mk.injEq] at h
          exact .inl h.1.symm
      | cons i todo =>
          simp only [step, Option.some.injEq, Prod.mk.injEq] at h
          exact .inr ⟨i, List.mem_cons_self, .inl h.1.symm⟩
  | wait =>
      simp only [step, Option.ite_none_right_eq_some, Option.some.injEq, Prod.mk.injEq] at h
      exact .inl h.2.1.symm
  | unregister todo ready =>
      cases todo with
      | nil =>
          simp only [step, Option.some.injEq, Prod.mk.injEq] at h
          exact .inl h.1.symm
      | cons i todo =>
          simp only [step, Option.some.injEq, Prod.mk.injEq] at h
          exact .inr ⟨i, List.mem_cons_self, .inr h.1.symm⟩
  | finished ready => simp [step] at h

-- What an action of a call with such an event leaves as it was.
structure Attends (e : EventId) (w w' : Wiring) : Prop where
  kept : w.Kept w'
  items : ∀ i, (w'.channel i).items = (w.channel i).items
  status : w'.channel .status = w.channel .status
  events : w'.events = w.events
  watchers : ∀ i, ∀ x ∈ (w'.channel i).watchers, x ∈ (w.channel i).watchers ∨ x = e

theorem Attends.ready_eq {e : EventId} (h : Attends e w w') (i : ChannelRole) :
    (w'.channel i).ready = (w.channel i).ready :=
  Channel.ready_congr (h.items i) (h.kept.closed i)

theorem attends_update {i : ChannelRole} (hi : i ≠ .status) {f : Channel Item → Channel Item} {e : EventId}
    (hitems : (f (w.channel i)).items = (w.channel i).items)
    (hclosed : (f (w.channel i)).closed = (w.channel i).closed)
    (hwatchers : ∀ x ∈ (f (w.channel i)).watchers, x ∈ (w.channel i).watchers ∨ x = e) :
    Attends e w (w.update i f) where
  kept := Wiring.kept_update hclosed
  items := Wiring.items_update hitems
  status := by rw [Wiring.channel_update, if_neg (Ne.symm hi)]
  events := Wiring.events_update w i f
  watchers j := by
    rw [Wiring.channel_update]
    split
    · rename_i hji
      rw [hji]
      exact hwatchers
    · exact fun x => .inl

theorem attends_of_step (h : step w call = some (w', call'))
    (hroles : ∀ i ∈ call.phase.todo, i ≠ .status) : Attends call.event w w' := by
  rcases step_update h with rfl | ⟨i, hi, rfl | rfl⟩
  · exact ⟨w'.kept_refl, fun _ => rfl, rfl, rfl, fun _ _ => .inl⟩
  · refine attends_update (hroles i hi) rfl rfl fun x hx => ?_
    simpa [Channel.watch] using hx
  · refine attends_update (hroles i hi) rfl rfl fun x hx => .inl ?_
    exact List.mem_of_mem_erase hx

-- Looking at a channel adds it to those found exactly if it is ready.
theorem mem_look {i j : ChannelRole} {ready : List ChannelRole} :
    j ∈ (if (w.channel i).ready then ready ++ [i] else ready) ↔
      j ∈ ready ∨ j = i ∧ (w.channel i).ready = true := by
  split <;> simp_all

theorem Awaits.move_of_phase {phase : SelectPhase ChannelRole} (h : call.Awaits w)
    (hphase : call.phase = phase) : (call.move phase).Awaits w := by
  rw [← hphase]
  exact h

theorem Awaits.afterLook {round : SelectRound} {ready : List ChannelRole}
    (h : (call.move (.look round [] ready)).Awaits w) (hchannels : ∀ i, i ∈ call.channels ↔ i ≠ .status) :
    (call.move (call.afterLook round ready)).Awaits w := by
  rw [afterLook.eq_def]
  split
  · exact fun i hi htodo => absurd ((hchannels i).mpr hi) htodo
  · rename_i hne
    exact hne
  · exact fun i hi => ⟨(h i hi).1, (h i hi).2 (by simp) (by simp)⟩
  · rename_i hne
    exact hne
  · simpa [Awaits, move] using h

theorem Awaits.look {round : SelectRound} {i : ChannelRole} {todo ready : List ChannelRole}
    (h : (call.move (.look round (i :: todo) ready)).Awaits w) :
    (call.move (.look round todo (if (w.channel i).ready then ready ++ [i] else ready))).Awaits w := by
  cases round with
  | first => trivial
  | second =>
      intro j hj
      refine ⟨(h j hj).1, fun htodo hfound hready => ?_⟩
      rw [mem_look, not_or] at hfound
      have hne : j ≠ i := by
        rintro rfl
        exact hfound.2 ⟨rfl, hready⟩
      exact (h j hj).2 (by simp [hne, htodo]) hfound.1 hready
  | last =>
      rcases h with hne | ⟨j, hj, hready⟩
      · left
        split
        · simp
        · exact hne
      · rcases List.mem_cons.mp hj with rfl | hj
        · left
          simp [hready]
        · exact .inr ⟨j, hj, hready⟩

theorem Awaits.register {i : ChannelRole} {todo : List ChannelRole}
    (h : (call.move (.register (i :: todo))).Awaits w) :
    (call.move (.register todo)).Awaits (w.update i fun c => c.watch call.event) := by
  intro j hj htodo
  rw [Wiring.channel_update]
  split
  · exact List.mem_append_right _ List.mem_cons_self
  · rename_i hne
    exact h j hj (by simp [hne, htodo])

theorem Sound.awaits_step (h : call.Sound w) (hstep : step w call = some (w', call')) :
    call'.Awaits w' := by
  obtain ⟨channels, event, phase⟩ := call
  have hawaits := h.awaits
  cases phase with
  | look round todo ready =>
      cases todo with
      | nil =>
          simp only [step, Option.some.injEq, Prod.mk.injEq] at hstep
          obtain ⟨rfl, rfl⟩ := hstep
          exact (hawaits.move_of_phase rfl).afterLook h.channels
      | cons i todo =>
          simp only [step, Option.some.injEq, Prod.mk.injEq] at hstep
          obtain ⟨rfl, rfl⟩ := hstep
          exact (hawaits.move_of_phase rfl).look
  | register todo =>
      cases todo with
      | nil =>
          simp only [step, Option.some.injEq, Prod.mk.injEq] at hstep
          obtain ⟨rfl, rfl⟩ := hstep
          exact fun i hi => ⟨hawaits i hi (by simp), fun htodo => absurd ((h.channels i).mpr hi) htodo⟩
      | cons i todo =>
          simp only [step, Option.some.injEq, Prod.mk.injEq] at hstep
          obtain ⟨rfl, rfl⟩ := hstep
          exact (hawaits.move_of_phase rfl).register
  | wait =>
      simp only [step, Option.ite_none_right_eq_some, Option.some.injEq, Prod.mk.injEq] at hstep
      obtain ⟨hset, rfl, rfl⟩ := hstep
      obtain ⟨i, hi, hready⟩ := h.set (List.contains_iff_mem.mp hset)
      exact .inr ⟨i, (h.channels i).mpr hi, hready⟩
  | unregister todo ready =>
      cases todo <;> simp only [step, Option.some.injEq, Prod.mk.injEq] at hstep <;>
        obtain ⟨rfl, rfl⟩ := hstep <;> exact hawaits
  | finished ready => simp [step] at hstep

theorem roles_afterLook (hchannels : ∀ i, i ∈ call.channels ↔ i ≠ .status) (round : SelectRound)
    {ready : List ChannelRole} (h : ∀ i ∈ ready, i ≠ .status) :
    ∀ i ∈ (call.afterLook round ready).todo ++ (call.afterLook round ready).found, i ≠ .status := by
  have hall : ∀ i ∈ call.channels, i ≠ .status := fun i => (hchannels i).mp
  intro i hi
  rw [afterLook.eq_def] at hi
  split at hi <;> simp only [SelectPhase.todo, SelectPhase.found, List.append_nil, List.nil_append,
    List.mem_append, List.not_mem_nil] at hi
  · exact hall i hi
  · exact h i hi
  · exact hi.elim (hall i) (h i)
  · exact hi.elim (hall i) (h i)

theorem Sound.roles_step (h : call.Sound w) (hstep : step w call = some (w', call')) :
    ∀ i ∈ call'.phase.todo ++ call'.phase.found, i ≠ .status := by
  obtain ⟨channels, event, phase⟩ := call
  have hroles := h.roles
  have hall : ∀ i ∈ channels, i ≠ .status := fun i => (h.channels i).mp
  cases phase with
  | look round todo ready =>
      cases todo with
      | nil =>
          simp only [step, Option.some.injEq, Prod.mk.injEq] at hstep
          obtain ⟨rfl, rfl⟩ := hstep
          exact roles_afterLook h.channels round hroles
      | cons i todo =>
          simp only [step, Option.some.injEq, Prod.mk.injEq] at hstep
          obtain ⟨rfl, rfl⟩ := hstep
          intro j hj
          simp only [SelectPhase.todo, SelectPhase.found, List.mem_append, List.mem_cons] at hroles
          rcases List.mem_append.mp hj with hj | hj
          · exact hroles j (.inl (.inr hj))
          · rcases mem_look.mp hj with hj | ⟨rfl, -⟩
            · exact hroles j (.inr hj)
            · exact hroles j (.inl (.inl rfl))
  | register todo =>
      cases todo <;> simp only [step, Option.some.injEq, Prod.mk.injEq] at hstep <;>
        obtain ⟨rfl, rfl⟩ := hstep
      · simpa [move, SelectPhase.todo, SelectPhase.found] using hall
      · exact fun j hj => hroles j (List.mem_cons_of_mem _ hj)
  | wait =>
      simp only [step, Option.ite_none_right_eq_some, Option.some.injEq, Prod.mk.injEq] at hstep
      obtain ⟨-, rfl, rfl⟩ := hstep
      simpa [move, SelectPhase.todo, SelectPhase.found] using hall
  | unregister todo ready =>
      cases todo <;> simp only [step, Option.some.injEq, Prod.mk.injEq] at hstep <;>
        obtain ⟨rfl, rfl⟩ := hstep
      · exact hroles
      · exact fun j hj => hroles j (List.mem_cons_of_mem _ hj)
  | finished ready => simp [step] at hstep

theorem move_of_step (h : step w call = some (w', call')) : ∃ phase, call' = call.move phase := by
  rw [step.eq_def] at h
  repeat' split at h
  all_goals simp only [Option.some.injEq, Prod.mk.injEq, reduceCtorEq] at h
  all_goals exact ⟨_, h.2.symm⟩

theorem Sound.step (h : call.Sound w) (hstep : step w call = some (w', call')) : call'.Sound w' := by
  have hroles := h.roles_step hstep
  have hawaits := h.awaits_step hstep
  have hattends := attends_of_step hstep fun i hi => h.roles i (List.mem_append_left _ hi)
  obtain ⟨phase, rfl⟩ := move_of_step hstep
  refine ⟨h.channels, hroles, ?_, fun he => ?_, hawaits⟩
  · rw [hattends.status]
    exact h.unwatched
  · obtain ⟨i, hi, hready⟩ := h.set (hattends.events ▸ he)
    exact ⟨i, hi, (hattends.ready_eq i).trans hready⟩

-- A wait that stands still has nothing to find.
theorem Sound.exists_step (h : call.Sound w) (hreturned : ∀ ready, call.phase ≠ .finished ready)
    {i : ChannelRole} (hi : i ≠ .status) (hready : (w.channel i).ready = true) :
    ∃ r, Select.step w call = some r := by
  obtain ⟨channels, event, phase⟩ := call
  cases phase with
  | look round todo ready => cases todo <;> exact ⟨_, rfl⟩
  | register todo => cases todo <;> exact ⟨_, rfl⟩
  | wait =>
      have hset : event ∈ w.events := (h.awaits i hi).2 hready
      exact ⟨_, if_pos (List.contains_iff_mem.mpr hset)⟩
  | unregister todo ready => cases todo <;> exact ⟨_, rfl⟩
  | finished ready => exact absurd rfl (hreturned ready)

theorem Sound.found (h : call.Sound w) {ready : List ChannelRole} (hphase : call.phase = .finished ready) :
    .output ∈ ready ∨ .control ∈ ready := by
  have hne : ready ≠ [] := by
    have hawaits := h.awaits
    rw [Awaits, hphase] at hawaits
    exact hawaits
  obtain ⟨i, hi⟩ := List.exists_mem_of_ne_nil ready hne
  have hrole : i ≠ .status := h.roles i (by rw [hphase]; exact hi)
  cases i with
  | output => exact .inl hi
  | status => exact absurd rfl hrole
  | control => exact .inr hi

end Select

end WordMachine
