import WordMachine.Computer.Basic
import WordMachine.Proofs.Device.Store
import WordMachine.Proofs.Engine.Twin

namespace WordMachine

namespace Wiring

-- Everything but the items of the channels and who waits for them.
structure Kept (w w' : Wiring) : Prop where
  processor : w'.engine.processor = w.engine.processor
  fault : w'.engine.fault = w.engine.fault
  signalled : w'.engine.signalled = w.engine.signalled
  closed : ∀ i, (w'.channel i).closed = (w.channel i).closed

theorem channel_update (w : Wiring) (i j : ChannelRole) (f : Channel Item → Channel Item) :
    (w.update i f).channel j = if j = i then f (w.channel j) else w.channel j := by
  cases i <;> cases j <;> rfl

theorem channel_setAll (w : Wiring) (events : List EventId) (i : ChannelRole) :
    (ChannelStore.setAll w events : Wiring).channel i = w.channel i := by
  cases i <;> rfl

instance : LawfulChannelStore Wiring ChannelRole Item where
  channel_update_self w {i f} _ := (w.channel_update i i f).trans (if_pos rfl)
  channel_update_of_ne w {i j} hj {f} _ := (w.channel_update i j f).trans (if_neg hj)
  channel_setAll := channel_setAll
  isSet_update w i f e := by cases i <;> rfl
  isSet_setAll w events e := by
    change (events ++ w.events).contains e = true ↔ e ∈ events ∨ w.events.contains e = true
    rw [List.contains_iff_mem, List.contains_iff_mem, List.mem_append]

theorem kept_refl (w : Wiring) : w.Kept w :=
  ⟨rfl, rfl, rfl, fun _ => rfl⟩

theorem kept_update {w : Wiring} {i : ChannelRole} {f : Channel Item → Channel Item}
    (hf : (f (w.channel i)).closed = (w.channel i).closed) : w.Kept (w.update i f) where
  processor := by cases i <;> rfl
  fault := by cases i <;> rfl
  signalled := by cases i <;> rfl
  closed := by
    intro j
    rw [channel_update]
    split
    · rename_i hj
      rw [hj, hf]
    · rfl

theorem Kept.twins {w w' : Wiring} (h : w.Kept w') {q : Engine} (ht : w.engine.Twins q) :
    w'.engine.Twins q where
  processor := h.processor.trans ht.processor
  fault := h.fault.trans ht.fault
  signalled := h.signalled.trans ht.signalled
  left := ⟨(h.closed .output).trans ht.left.1, (h.closed .status).trans ht.left.2⟩
  right := ht.right

theorem Kept.halted_eq {w w' : Wiring} (h : w.Kept w') : w'.engine.halted = w.engine.halted := by
  rw [Engine.halted, Engine.halted, h.processor]

theorem Kept.settled {w w' : Wiring} (h : w.Kept w') (hs : w.engine.Settled) : w'.engine.Settled where
  signalled := by rw [h.signalled, h.halted_eq, hs.signalled]
  fault := by
    rw [h.halted_eq, h.fault]
    exact hs.fault

theorem items_update {w : Wiring} {i : ChannelRole} {f : Channel Item → Channel Item}
    (hf : (f (w.channel i)).items = (w.channel i).items) (j : ChannelRole) :
    ((w.update i f).channel j).items = (w.channel j).items := by
  rw [channel_update]
  split
  · rename_i hj
    rw [hj, hf]
  · rfl

-- An item put on an open channel is its last one, and whoever waits for it is woken.
theorem exists_put {w : Wiring} {i : ChannelRole} (h : (w.channel i).closed = false) (x : Item) :
    ∃ w' : Wiring, ChannelStore.put w i x = .ok w' ∧ w.Kept w' ∧
      ∀ j, (w'.channel j).items = if j = i then (w.channel j).items ++ [x] else (w.channel j).items := by
  have hput : ChannelStore.put w i x =
      .ok (ChannelStore.setAll (w.update i fun _ => (w.channel i).pushed x)
        ((w.channel i).pushed x).watchers) := by
    have hopen : (ChannelStore.channel w i : Channel Item).put x = .ok ((w.channel i).pushed x) :=
      Channel.put_of_open h x
    rw [ChannelStore.put, hopen]
    rfl
  have hkept : w.Kept (w.update i fun _ => (w.channel i).pushed x) := kept_update rfl
  refine ⟨_, hput, ⟨hkept.processor, hkept.fault, hkept.signalled, fun j => ?_⟩, fun j => ?_⟩
  · rw [channel_setAll]
    exact hkept.closed j
  · rw [channel_setAll, channel_update]
    split
    · rename_i hj
      rw [hj, Channel.items_pushed]
    · rfl

-- The channels of a list hold something, unless it is the status channel, which is not the console's.
def Holding (w : Wiring) (ready : List ChannelRole) : Prop :=
  ∀ i ∈ ready, i ≠ .status → (w.channel i).items ≠ []

theorem holding_nil (w : Wiring) : w.Holding [] := by
  intro i hi
  simp at hi

theorem Holding.congr {w w' : Wiring} {ready : List ChannelRole} (h : w.Holding ready)
    (hitems : ∀ i, (w'.channel i).items = (w.channel i).items) : w'.Holding ready := by
  intro i hi hs
  rw [hitems]
  exact h i hi hs

-- A channel that is ready joins those found before. None of them is closed, so it holds something.
theorem Holding.look {w : Wiring} {ready : List ChannelRole} (h : w.Holding ready)
    (ho : w.engine.output.closed = false) (hc : w.control.closed = false) (i : ChannelRole) :
    w.Holding (if (w.channel i).ready then ready ++ [i] else ready) := by
  split
  · rename_i hready
    intro j hj hs
    rcases List.mem_append.mp hj with hj | hj
    · exact h j hj hs
    · simp only [List.mem_singleton] at hj
      subst hj
      refine (Channel.ready_iff_of_open ?_).mp hready
      cases j with
      | output => exact ho
      | status => exact absurd rfl hs
      | control => exact hc
  · exact h

end Wiring

-- The channels a wait has found ready so far.
def SelectPhase.found {ι : Type} : SelectPhase ι → List ι
  | .look _ _ ready => ready
  | .register _ => []
  | .wait => []
  | .unregister _ ready => ready
  | .finished ready => ready

namespace Select

variable {w w' : Wiring} {call call' : Select ChannelRole}

theorem holding_afterLook (call : Select ChannelRole) (round : SelectRound) {ready : List ChannelRole}
    (h : w.Holding ready) : w.Holding (call.afterLook round ready).found := by
  rw [afterLook.eq_def]
  split
  · exact w.holding_nil
  · exact h
  · exact w.holding_nil
  · exact h
  · exact h

-- One action of a wait: nothing is taken, and the channels it has found hold something.
theorem step_wiring (h : step w call = some (w', call')) (ho : w.engine.output.closed = false)
    (hc : w.control.closed = false) :
    w.Kept w' ∧ (∀ i, (w'.channel i).items = (w.channel i).items) ∧
      (w.Holding call.phase.found → w'.Holding call'.phase.found) := by
  obtain ⟨channels, event, phase⟩ := call
  have hsame : ∀ i, (w.channel i).items = (w.channel i).items := fun _ => rfl
  cases phase with
  | look round todo ready =>
      cases todo with
      | nil =>
          simp only [step, Option.some.injEq, Prod.mk.injEq] at h
          obtain ⟨rfl, rfl⟩ := h
          exact ⟨w.kept_refl, hsame, holding_afterLook _ round⟩
      | cons i todo =>
          simp only [step, Option.some.injEq, Prod.mk.injEq] at h
          obtain ⟨rfl, rfl⟩ := h
          exact ⟨w.kept_refl, hsame, fun hfound => hfound.look ho hc i⟩
  | register todo =>
      cases todo with
      | nil =>
          simp only [step, Option.some.injEq, Prod.mk.injEq] at h
          obtain ⟨rfl, rfl⟩ := h
          exact ⟨w.kept_refl, hsame, fun _ => w.holding_nil⟩
      | cons i todo =>
          simp only [step, Option.some.injEq, Prod.mk.injEq] at h
          obtain ⟨rfl, rfl⟩ := h
          exact ⟨Wiring.kept_update rfl, Wiring.items_update rfl, fun _ => Wiring.holding_nil _⟩
  | wait =>
      simp only [step, Option.ite_none_right_eq_some, Option.some.injEq, Prod.mk.injEq] at h
      obtain ⟨_, rfl, rfl⟩ := h
      exact ⟨w.kept_refl, hsame, fun _ => w.holding_nil⟩
  | unregister todo ready =>
      cases todo with
      | nil =>
          simp only [step, Option.some.injEq, Prod.mk.injEq] at h
          obtain ⟨rfl, rfl⟩ := h
          exact ⟨w.kept_refl, hsame, id⟩
      | cons i todo =>
          simp only [step, Option.some.injEq, Prod.mk.injEq] at h
          obtain ⟨rfl, rfl⟩ := h
          exact ⟨Wiring.kept_update rfl, Wiring.items_update rfl, fun hfound => hfound.congr (Wiring.items_update rfl)⟩
  | finished ready => simp [step] at h

end Select

end WordMachine
