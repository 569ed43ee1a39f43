import Mathlib.Data.List.Count
import Mathlib.Logic.Function.Basic
import WordMachine.Proofs.Channel
import WordMachine.Proofs.Device.Store

namespace WordMachine

-- A call, the store it works on, and the events that others have read off a channel and not yet set. What
-- comes after them only records the call: the events that stood at the channels when it began, its looks so
-- far with what they saw, and whether it has given up waiting.
structure Scene (σ ι π : Type) where
  store : σ
  call : Select ι
  pending : π → List EventId
  nextEvent : EventId
  before : ι → List EventId
  looks : List (ι × Bool)
  gaveUp : Bool

-- The channels at which a call has left its event, once for each time it names them.
def Select.StandsAt {ι : Type} (call : Select ι) (holders : List ι) : Prop :=
  match call.phase with
  | .look .first _ _ => holders = []
  | .register todo => holders ++ todo = call.channels
  | .look _ _ _ => holders = call.channels
  | .wait => holders = call.channels
  | .unregister todo _ => holders = todo ∧ todo ⊆ call.channels
  | .finished _ => holders = []

theorem Select.StandsAt.subset {ι : Type} {call : Select ι} {holders : List ι} (h : call.StandsAt holders) :
    holders ⊆ call.channels := by
  rw [StandsAt] at h
  split at h
  · simp [h]
  · rw [← h]
    exact List.subset_append_left holders _
  · exact h ▸ List.Subset.refl _
  · exact h ▸ List.Subset.refl _
  · exact h.1 ▸ h.2
  · simp [h]

namespace Scene

-- The channels that were ready when they were looked at.
def found {ι : Type} (looks : List (ι × Bool)) : List ι :=
  (looks.filter Prod.snd).map Prod.fst

theorem found_append {ι : Type} (looks : List (ι × Bool)) (i : ι) (ready : Bool) :
    found (looks ++ [(i, ready)]) = if ready then found looks ++ [i] else found looks := by
  cases ready <;> simp [found]

theorem found_sublist {ι : Type} (looks : List (ι × Bool)) : (found looks).Sublist (looks.map Prod.fst) :=
  List.filter_sublist.map Prod.fst

variable {σ ι α π : Type} [ChannelStore σ ι α]

def channel (s : Scene σ ι π) (i : ι) : Channel α :=
  ChannelStore.channel s.store i

-- A call that begins. Its event is a new one.
def opened (store : σ) (pending : π → List EventId) (channels : List ι) (event : EventId) : Scene σ ι π where
  store := store
  call := .start channels event
  pending := pending
  nextEvent := event + 1
  before i := (ChannelStore.channel store i).watchers
  looks := []
  gaveUp := false

-- The look that the call takes next, if its next action is one.
def look (s : Scene σ ι π) : List (ι × Bool) :=
  match s.call.phase with
  | .look _ (i :: _) _ => [(i, (s.channel i).ready)]
  | _ => []

-- The call changes a channel, and goes on to a phase.
def touched (s : Scene σ ι π) (i : ι) (f : Channel α → Channel α) (phase : SelectPhase ι) : Scene σ ι π :=
  { s with store := ChannelStore.update s.store i f, call := s.call.move phase }

-- A channel changed by one who is about to set the events found there.
def changed [DecidableEq π] (s : Scene σ ι π) (p : π) (i : ι) (c : Channel α) : Scene σ ι π :=
  { s with
    store := ChannelStore.update s.store i fun _ => c
    pending := Function.update s.pending p c.watchers }

-- The first of the events read off is set.
def delivered [DecidableEq π] (s : Scene σ ι π) (p : π) (e : EventId) (rest : List EventId) : Scene σ ι π :=
  { s with
    store := ChannelStore.setAll s.store [e]
    pending := Function.update s.pending p rest }

-- One action of anybody. Items are taken between two calls only, by the one who calls.
inductive Step [DecidableEq π] (s : Scene σ ι π) : Scene σ ι π → Prop where
  | act {store : σ} {call : Select ι} (h : Select.step s.store s.call = some (store, call)) :
      Step s { s with store := store, call := call, looks := s.looks ++ s.look }
  | giveUp (h : s.call.phase = .wait) : Step s { s with call := s.call.timeOut, gaveUp := true }
  | put (p : π) (i : ι) {x : α} {c : Channel α} (hp : s.pending p = []) (h : (s.channel i).put x = .ok c) :
      Step s (s.changed p i c)
  | close (p : π) (i : ι) (hp : s.pending p = []) : Step s (s.changed p i (s.channel i).close)
  | set (p : π) {e : EventId} {rest : List EventId} (h : s.pending p = e :: rest) :
      Step s (s.delivered p e rest)
  | take (i : ι) {ready : List ι} {x : α} {c : Channel α} (h : s.call.phase = .finished ready)
      (hpop : (s.channel i).pop? = some (x, c)) :
      Step s { s with store := ChannelStore.update s.store i fun _ => c }
  | drain (i : ι) {ready : List ι} (h : s.call.phase = .finished ready) :
      Step s { s with store := ChannelStore.update s.store i fun _ => (s.channel i).drain.2 }
  | again (channels : List ι) {ready : List ι} (h : s.call.phase = .finished ready) :
      Step s (opened s.store s.pending channels s.nextEvent)

-- Whatever comes of a scene, in any order of actions.
inductive Reaches [DecidableEq π] (s : Scene σ ι π) : Scene σ ι π → Prop where
  | refl : Reaches s s
  | step {t u : Scene σ ι π} (h : Reaches s t) (hstep : Step t u) : Reaches s u

-- Actions of the call alone, one after the other.
theorem Reaches.proceed [DecidableEq π] {s t : Scene σ ι π} (h : s.Reaches t) (k : Nat) :
    ∃ looks, s.Reaches
      { t with
        store := (Select.proceed k t.store t.call).1
        call := (Select.proceed k t.store t.call).2
        looks := looks } := by
  induction k generalizing t with
  | zero => exact ⟨t.looks, h⟩
  | succ k ih =>
      rw [Select.proceed]
      cases hact : Select.step t.store t.call with
      | none => exact ⟨t.looks, h⟩
      | some r => exact ih (h.step (.act hact))

-- An event that is set, or is about to be.
def Coming (s : Scene σ ι π) (e : EventId) : Prop :=
  ChannelStore.isSet s.store e = true ∨ ∃ p, e ∈ s.pending p

-- The looks of a round are its last ones. They go along the channels of the call, and what they found is
-- what the call holds.
def Looked (s : Scene σ ι π) : Prop :=
  ∃ earlier last, s.looks = earlier ++ last ∧
    match s.call.phase with
    | .look _ todo ready => last.map Prod.fst ++ todo = s.call.channels ∧ ready = found last
    | .register _ => True
    | .wait => last.map Prod.fst = s.call.channels ∧ found last = []
    | .unregister _ ready => last.map Prod.fst = s.call.channels ∧ ready = found last
    | .finished ready => last.map Prod.fst = s.call.channels ∧ ready = found last

-- A call that has not given up, and whose event only one of its channels can have brought on.
def Sincere (s : Scene σ ι π) : Prop :=
  s.gaveUp = false ∧ (s.Coming s.call.event → ∃ i ∈ s.call.channels, (s.channel i).ready = true)

-- What keeps a call from missing anything: once its event stands at all channels, one that is ready has
-- brought it on unless the call has seen that itself.
def Awaits (s : Scene σ ι π) : Prop :=
  match s.call.phase with
  | .look .first _ _ => s.Sincere
  | .register _ => s.Sincere
  | .look .second todo ready => s.Sincere ∧
      ∀ i ∈ s.call.channels, i ∉ todo → i ∉ ready → (s.channel i).ready = true → s.Coming s.call.event
  | .wait => s.Sincere ∧ ∀ i ∈ s.call.channels, (s.channel i).ready = true → s.Coming s.call.event
  | .look .last todo ready => s.gaveUp = false ∧ (ready ≠ [] ∨ ∃ i ∈ todo, (s.channel i).ready = true)
  | .unregister _ ready => ready = [] ↔ s.gaveUp = true
  | .finished ready => ready = [] ↔ s.gaveUp = true

structure Invariant [DecidableEq ι] (s : Scene σ ι π) : Prop where
  event_lt : s.call.event < s.nextEvent
  watchers_lt : ∀ i, ∀ e ∈ (s.channel i).watchers, e < s.nextEvent
  coming_lt : ∀ e, s.Coming e → e < s.nextEvent
  unknown : ∀ i, s.call.event ∉ s.before i
  stands : ∃ holders, s.call.StandsAt holders ∧
    ∀ i, (s.channel i).watchers = s.before i ++ List.replicate (holders.count i) s.call.event
  looked : s.Looked
  awaits : s.Awaits

-- What others do, as a call sees it. A channel that is ready stays so; one that becomes ready brings on the
-- events that stand there, and nothing else brings on any.
structure Stirs (s s' : Scene σ ι π) : Prop where
  call : s'.call = s.call
  nextEvent : s'.nextEvent = s.nextEvent
  before : s'.before = s.before
  looks : s'.looks = s.looks
  gaveUp : s'.gaveUp = s.gaveUp
  watchers : ∀ i, (s'.channel i).watchers = (s.channel i).watchers
  ready : ∀ i, (s.channel i).ready = true → (s'.channel i).ready = true
  wakes : ∀ i, (s'.channel i).ready = true →
    (s.channel i).ready = true ∨ ∀ e ∈ (s.channel i).watchers, s'.Coming e
  coming : ∀ e, s.Coming e → s'.Coming e
  brings : ∀ e, s'.Coming e →
    s.Coming e ∨ ∃ i, e ∈ (s.channel i).watchers ∧ (s'.channel i).ready = true

section Calls

variable [DecidableEq ι] {s s' : Scene σ ι π}

-- Whoever finds the event of the call at a channel is at one of the channels that the call is about.
theorem Invariant.mem_channels (h : s.Invariant) {i : ι} (hi : s.call.event ∈ (s.channel i).watchers) :
    i ∈ s.call.channels := by
  obtain ⟨holders, hholders, hwatchers⟩ := h.stands
  rw [hwatchers, List.mem_append, List.mem_replicate] at hi
  rcases hi with hi | ⟨hcount, -⟩
  · exact absurd hi (h.unknown i)
  · exact hholders.subset (List.count_pos_iff.mp (Nat.pos_of_ne_zero hcount))

theorem Invariant.mem_watchers (h : s.Invariant)
    (hall : ∀ holders, s.call.StandsAt holders → holders = s.call.channels) {i : ι}
    (hi : i ∈ s.call.channels) : s.call.event ∈ (s.channel i).watchers := by
  obtain ⟨holders, hholders, hwatchers⟩ := h.stands
  rw [hwatchers, List.mem_append, List.mem_replicate, hall holders hholders]
  exact .inr ⟨Nat.ne_of_gt (List.count_pos_iff.mpr hi), rfl⟩

theorem Invariant.sincere_stirs (h : s.Invariant) (hs : s.Stirs s') (hsincere : s.Sincere) : s'.Sincere := by
  rw [Sincere, hs.gaveUp, hs.call]
  refine ⟨hsincere.1, fun hcoming => ?_⟩
  rcases hs.brings _ hcoming with hbefore | ⟨i, hwatch, hready⟩
  · obtain ⟨i, hi, hready⟩ := hsincere.2 hbefore
    exact ⟨i, hi, hs.ready i hready⟩
  · exact ⟨i, h.mem_channels hwatch, hready⟩

-- While the event stands at all channels, one that becomes ready brings it on.
theorem Invariant.coming_stirs (h : s.Invariant) (hs : s.Stirs s')
    (hall : ∀ holders, s.call.StandsAt holders → holders = s.call.channels) {i : ι}
    (hi : i ∈ s.call.channels) (hready : (s'.channel i).ready = true) :
    (s.channel i).ready = true ∨ s'.Coming s.call.event :=
  (hs.wakes i hready).imp_right fun hwakes => hwakes _ (h.mem_watchers hall hi)

theorem Invariant.awaits_stirs (h : s.Invariant) (hs : s.Stirs s') : s'.Awaits := by
  have hawaits := h.awaits
  rw [Awaits] at hawaits ⊢
  rw [hs.call, hs.gaveUp]
  split <;> rename_i hphase <;> simp only [hphase] at hawaits
  · exact h.sincere_stirs hs hawaits
  · exact h.sincere_stirs hs hawaits
  · refine ⟨h.sincere_stirs hs hawaits.1, fun i hi htodo hfound hready => ?_⟩
    have hall : ∀ holders, s.call.StandsAt holders → holders = s.call.channels := by
      simp [Select.StandsAt, hphase]
    rcases h.coming_stirs hs hall hi hready with hbefore | hnow
    · exact hs.coming _ (hawaits.2 i hi htodo hfound hbefore)
    · exact hnow
  · refine ⟨h.sincere_stirs hs hawaits.1, fun i hi hready => ?_⟩
    have hall : ∀ holders, s.call.StandsAt holders → holders = s.call.channels := by
      simp [Select.StandsAt, hphase]
    rcases h.coming_stirs hs hall hi hready with hbefore | hnow
    · exact hs.coming _ (hawaits.2 i hi hbefore)
    · exact hnow
  · exact ⟨hawaits.1, hawaits.2.imp_right fun ⟨i, hi, hready⟩ => ⟨i, hi, hs.ready i hready⟩⟩
  · exact hawaits
  · exact hawaits

theorem Invariant.stirs (h : s.Invariant) (hs : s.Stirs s') : s'.Invariant where
  event_lt := by
    rw [hs.call, hs.nextEvent]
    exact h.event_lt
  watchers_lt i := by
    rw [hs.watchers, hs.nextEvent]
    exact h.watchers_lt i
  coming_lt e he := by
    rw [hs.nextEvent]
    rcases hs.brings e he with hbefore | ⟨i, hwatch, -⟩
    · exact h.coming_lt e hbefore
    · exact h.watchers_lt i e hwatch
  unknown := by
    rw [hs.call, hs.before]
    exact h.unknown
  stands := by
    obtain ⟨holders, hholders, hwatchers⟩ := h.stands
    refine ⟨holders, hs.call ▸ hholders, fun i => ?_⟩
    rw [hs.watchers, hs.call, hs.before, hwatchers]
  looked := by
    rw [Looked, hs.looks, hs.call]
    exact h.looked
  awaits := h.awaits_stirs hs

-- An action of the call that leaves the store alone.
theorem Invariant.turned (h : s.Invariant) {phase : SelectPhase ι} {looks : List (ι × Bool)} {gaveUp : Bool}
    (hstands : ∀ holders, s.call.StandsAt holders → (s.call.move phase).StandsAt holders)
    (hlooked : Looked { s with call := s.call.move phase, looks := looks, gaveUp := gaveUp })
    (hawaits : Awaits { s with call := s.call.move phase, looks := looks, gaveUp := gaveUp }) :
    Invariant { s with call := s.call.move phase, looks := looks, gaveUp := gaveUp } where
  event_lt := h.event_lt
  watchers_lt := h.watchers_lt
  coming_lt := h.coming_lt
  unknown := h.unknown
  stands := by
    obtain ⟨holders, hholders, hwatchers⟩ := h.stands
    exact ⟨holders, hstands holders hholders, hwatchers⟩
  looked := hlooked
  awaits := hawaits

-- Where a round of looks leads that is over.
theorem Invariant.afterLook (h : s.Invariant) {round : SelectRound} {ready : List ι}
    (hphase : s.call.phase = .look round [] ready) :
    Invariant { s with call := s.call.move (s.call.afterLook round ready) } := by
  obtain ⟨earlier, last, hlooks, hlast⟩ := h.looked
  have hawaits := h.awaits
  simp only [hphase, List.append_nil] at hlast
  simp only [Awaits, hphase] at hawaits
  have hlooked : ∀ phase : SelectPhase ι, (phase = .wait ∧ ready = [] ∨ phase = .unregister s.call.channels ready ∨
      phase = .finished ready) → Looked { s with call := s.call.move phase } := by
    rintro phase (⟨rfl, rfl⟩ | rfl | rfl)
    · exact ⟨earlier, last, hlooks, hlast.1, hlast.2.symm⟩
    · exact ⟨earlier, last, hlooks, hlast⟩
    · exact ⟨earlier, last, hlooks, hlast⟩
  rw [Select.afterLook.eq_def]
  split
  · refine h.turned (fun holders hholders => ?_) ⟨s.looks, [], by simp, trivial⟩ hawaits
    simp only [Select.StandsAt, hphase] at hholders
    simp [Select.StandsAt, Select.move, hholders]
  · rename_i hne
    refine h.turned (fun holders hholders => ?_) (hlooked _ (.inr (.inr rfl))) ?_
    · simp only [Select.StandsAt, hphase] at hholders
      simp [Select.StandsAt, Select.move, hholders]
    · simp only [Awaits, Select.move, hawaits.1, Bool.false_eq_true, iff_false]
      exact hne
  · refine h.turned (fun holders hholders => ?_) (hlooked _ (.inl ⟨rfl, rfl⟩)) ⟨hawaits.1, fun i hi => ?_⟩
    · simp only [Select.StandsAt, hphase] at hholders
      simp [Select.StandsAt, Select.move, hholders]
    · exact hawaits.2 i hi (by simp) (by simp)
  · rename_i hne
    refine h.turned (fun holders hholders => ?_) (hlooked _ (.inr (.inl rfl))) ?_
    · simp only [Select.StandsAt, hphase] at hholders
      simp [Select.StandsAt, Select.move, hholders]
    · simp only [Awaits, Select.move, hawaits.1.1, Bool.false_eq_true, iff_false]
      exact hne
  · refine h.turned (fun holders hholders => ?_) (hlooked _ (.inr (.inl rfl))) ?_
    · simp only [Select.StandsAt, hphase] at hholders
      simp [Select.StandsAt, Select.move, hholders]
    · have hne : ready ≠ [] := by simpa using hawaits.2
      simpa [Awaits, Select.move, hawaits.1] using hne

-- A look at one more channel.
theorem Invariant.looks_on (h : s.Invariant) {round : SelectRound} {i : ι} {todo ready : List ι}
    (hphase : s.call.phase = .look round (i :: todo) ready) :
    Invariant
      { s with
        call := s.call.move (.look round todo (if (s.channel i).ready then ready ++ [i] else ready))
        looks := s.looks ++ [(i, (s.channel i).ready)] } := by
  have hmem : ∀ j, j ∈ (if (s.channel i).ready then ready ++ [i] else ready) ↔
      j ∈ ready ∨ j = i ∧ (s.channel i).ready = true := by
    intro j
    split <;> simp_all
  refine h.turned (fun holders hholders => ?_) ?_ ?_
  · simp only [Select.StandsAt, hphase] at hholders
    cases round <;> simpa [Select.StandsAt, Select.move] using hholders
  · obtain ⟨earlier, last, hlooks, hlast⟩ := h.looked
    simp only [hphase] at hlast
    refine ⟨earlier, last ++ [(i, (s.channel i).ready)], by simp [hlooks], ?_, ?_⟩
    · simpa [Select.move] using hlast.1
    · rw [found_append, hlast.2]
  · have hawaits := h.awaits
    simp only [Awaits, hphase] at hawaits
    cases round with
    | first => exact hawaits
    | second =>
        refine ⟨hawaits.1, fun j hj htodo hfound hready => ?_⟩
        rw [hmem, not_or] at hfound
        have hne : j ≠ i := by
          rintro rfl
          exact hfound.2 ⟨rfl, hready⟩
        exact hawaits.2 j hj (by simp [hne, htodo]) hfound.1 hready
    | last =>
        refine ⟨hawaits.1, ?_⟩
        rcases hawaits.2 with hne | ⟨j, hj, hready⟩
        · left
          split <;> simp [hne]
        · rcases List.mem_cons.mp hj with rfl | hj
          · left
            simp [hready]
          · exact .inr ⟨j, hj, hready⟩

theorem Invariant.registered (h : s.Invariant) (hphase : s.call.phase = .register []) :
    Invariant { s with call := s.call.move (.look .second s.call.channels []) } := by
  have hawaits := h.awaits
  simp only [Awaits, hphase] at hawaits
  refine h.turned (fun holders hholders => ?_) ⟨s.looks, [], by simp, by simp [Select.move], rfl⟩
    ⟨hawaits, fun i hi hnot => absurd hi hnot⟩
  simp only [Select.StandsAt, hphase, List.append_nil] at hholders
  simp [Select.StandsAt, Select.move, hholders]

theorem Invariant.woken (h : s.Invariant) (hphase : s.call.phase = .wait)
    (hset : ChannelStore.isSet s.store s.call.event = true) :
    Invariant { s with call := s.call.move (.look .last s.call.channels []) } := by
  have hawaits := h.awaits
  simp only [Awaits, hphase] at hawaits
  refine h.turned (fun holders hholders => ?_) ⟨s.looks, [], by simp, by simp [Select.move], rfl⟩
    ⟨hawaits.1.1, .inr (hawaits.1.2 (.inl hset))⟩
  simp only [Select.StandsAt, hphase] at hholders
  simp [Select.StandsAt, Select.move, hholders]

theorem Invariant.givenUp (h : s.Invariant) (hphase : s.call.phase = .wait) :
    Invariant { s with call := s.call.timeOut, gaveUp := true } := by
  have htimeOut : s.call.timeOut = s.call.move (.unregister s.call.channels []) := by
    simp only [Select.timeOut, hphase]
  rw [htimeOut]
  obtain ⟨earlier, last, hlooks, hlast⟩ := h.looked
  simp only [hphase] at hlast
  refine h.turned (fun holders hholders => ?_) ⟨earlier, last, hlooks, hlast.1, hlast.2.symm⟩ ?_
  · simp only [Select.StandsAt, hphase] at hholders
    simp [Select.StandsAt, Select.move, hholders]
  · simp [Awaits, Select.move]

theorem Invariant.unregistered (h : s.Invariant) {ready : List ι} (hphase : s.call.phase = .unregister [] ready) :
    Invariant { s with call := s.call.move (.finished ready) } := by
  obtain ⟨earlier, last, hlooks, hlast⟩ := h.looked
  have hawaits := h.awaits
  simp only [hphase] at hlast
  simp only [Awaits, hphase] at hawaits
  refine h.turned (fun holders hholders => ?_) ⟨earlier, last, hlooks, hlast⟩ hawaits
  simp only [Select.StandsAt, hphase] at hholders
  simp [Select.StandsAt, Select.move, hholders.1]

end Calls

section Others

variable [LawfulChannelStore σ ι α] [DecidableEq π] {s s' : Scene σ ι π}

theorem stirs_changed [DecidableEq ι] {p : π} {i : ι} {c : Channel α} (hp : s.pending p = [])
    (hname : c.name = (s.channel i).name) (hwatchers : c.watchers = (s.channel i).watchers)
    (hready : c.ready = true) : s.Stirs (s.changed p i c) := by
  have hchannel : ∀ j, (s.changed p i c).channel j = if j = i then c else s.channel j :=
    ChannelStore.channel_update s.store fun d hd => hname.trans hd.symm
  have hset : ∀ e, ChannelStore.isSet (s.changed p i c).store e = ChannelStore.isSet s.store e :=
    LawfulChannelStore.isSet_update s.store i _
  have hmine : (s.changed p i c).pending p = (s.channel i).watchers :=
    (Function.update_self p _ _).trans hwatchers
  have hothers : ∀ q, q ≠ p → (s.changed p i c).pending q = s.pending q := fun q hq =>
    Function.update_of_ne hq _ _
  constructor
  case call | nextEvent | before | looks | gaveUp => rfl
  case watchers =>
    intro j
    rw [hchannel]
    split
    · rename_i hj
      rw [hj, hwatchers]
    · rfl
  case ready =>
    intro j hj
    rw [hchannel]
    split
    · exact hready
    · exact hj
  case wakes =>
    intro j hj
    rw [hchannel] at hj
    split at hj
    · rename_i hji
      right
      intro e he
      exact .inr ⟨p, by rw [hmine, ← hji]; exact he⟩
    · exact .inl hj
  case coming =>
    rintro e (he | ⟨q, he⟩)
    · exact .inl ((hset e).trans he)
    · by_cases hq : q = p
      · rw [hq, hp] at he
        simp at he
      · exact .inr ⟨q, by rw [hothers q hq]; exact he⟩
  case brings =>
    rintro e (he | ⟨q, he⟩)
    · exact .inl (.inl ((hset e).symm.trans he))
    · by_cases hq : q = p
      · rw [hq, hmine] at he
        refine .inr ⟨i, he, ?_⟩
        rw [hchannel, if_pos rfl]
        exact hready
      · rw [hothers q hq] at he
        exact .inl (.inr ⟨q, he⟩)

theorem stirs_delivered {p : π} {e : EventId} {rest : List EventId} (hp : s.pending p = e :: rest) :
    s.Stirs (s.delivered p e rest) := by
  have hset : ∀ d, ChannelStore.isSet (s.delivered p e rest).store d = true ↔
      d = e ∨ ChannelStore.isSet s.store d = true := fun d => by
    rw [delivered, LawfulChannelStore.isSet_setAll, List.mem_singleton]
  have hchannel : ∀ i, (s.delivered p e rest).channel i = s.channel i :=
    LawfulChannelStore.channel_setAll s.store [e]
  have hmine : (s.delivered p e rest).pending p = rest := Function.update_self p _ _
  have hothers : ∀ q, q ≠ p → (s.delivered p e rest).pending q = s.pending q := fun q hq =>
    Function.update_of_ne hq _ _
  constructor
  case call | nextEvent | before | looks | gaveUp => rfl
  case watchers =>
    intro i
    rw [hchannel]
  case ready =>
    intro i hi
    rwa [hchannel]
  case wakes =>
    intro i hi
    rw [hchannel] at hi
    exact .inl hi
  case coming =>
    rintro d (hd | ⟨q, hd⟩)
    · exact .inl ((hset d).mpr (.inr hd))
    · by_cases hq : q = p
      · rw [hq, hp, List.mem_cons] at hd
        rcases hd with hd | hd
        · exact .inl ((hset d).mpr (.inl hd))
        · exact .inr ⟨p, by rw [hmine]; exact hd⟩
      · exact .inr ⟨q, by rw [hothers q hq]; exact hd⟩
  case brings =>
    rintro d (hd | ⟨q, hd⟩)
    · rcases (hset d).mp hd with rfl | hd
      · exact .inl (.inr ⟨p, by simp [hp]⟩)
      · exact .inl (.inl hd)
    · by_cases hq : q = p
      · rw [hq, hmine] at hd
        exact .inl (.inr ⟨p, by simp [hp, hd]⟩)
      · rw [hothers q hq] at hd
        exact .inl (.inr ⟨q, hd⟩)

end Others

section Registration

variable [LawfulChannelStore σ ι α] {s : Scene σ ι π} {i : ι} {f : Channel α → Channel α} {phase : SelectPhase ι}

theorem coming_touched (e : EventId) : (s.touched i f phase).Coming e ↔ s.Coming e := by
  rw [Coming, Coming, touched, LawfulChannelStore.isSet_update]

variable [DecidableEq ι]

theorem channel_touched (hname : ∀ c, (f c).name = c.name) (j : ι) :
    (s.touched i f phase).channel j = if j = i then f (s.channel i) else s.channel j :=
  ChannelStore.channel_update s.store (fun c _ => hname c) j

theorem ready_touched (hname : ∀ c, (f c).name = c.name) (hready : ∀ c, (f c).ready = c.ready) (j : ι) :
    ((s.touched i f phase).channel j).ready = (s.channel j).ready := by
  rw [channel_touched hname]
  split
  · rename_i hj
    rw [hj, hready]
  · rfl

-- An action of the call that leaves its event at a channel or takes it back.
theorem Invariant.restood (h : s.Invariant) (hname : ∀ c, (f c).name = c.name)
    (hwatchers : ∀ c, ∀ e ∈ (f c).watchers, e ∈ c.watchers ∨ e = s.call.event)
    (hstands : ∀ holders, s.call.StandsAt holders →
      (∀ j, (s.channel j).watchers = s.before j ++ List.replicate (holders.count j) s.call.event) →
      ∃ others, (s.call.move phase).StandsAt others ∧
        ∀ j, (if j = i then f (s.channel i) else s.channel j).watchers =
          s.before j ++ List.replicate (others.count j) s.call.event)
    (hlooked : Looked { s with call := s.call.move phase })
    (hawaits : (s.touched i f phase).Awaits) : (s.touched i f phase).Invariant where
  event_lt := h.event_lt
  watchers_lt j e he := by
    rw [channel_touched hname] at he
    split at he
    · rcases hwatchers _ e he with he | rfl
      · exact h.watchers_lt i e he
      · exact h.event_lt
    · exact h.watchers_lt j e he
  coming_lt e he := h.coming_lt e ((coming_touched e).mp he)
  unknown := h.unknown
  stands := by
    obtain ⟨holders, hholders, hbefore⟩ := h.stands
    obtain ⟨others, hothers, hafter⟩ := hstands holders hholders hbefore
    refine ⟨others, hothers, fun j => ?_⟩
    rw [channel_touched hname]
    exact hafter j
  looked := hlooked
  awaits := hawaits

theorem Invariant.registers (h : s.Invariant) {todo : List ι} (hphase : s.call.phase = .register (i :: todo)) :
    (s.touched i (fun c => c.watch s.call.event) (.register todo)).Invariant := by
  have hawaits := h.awaits
  simp only [Awaits, hphase] at hawaits
  refine h.restood (fun _ => rfl) (fun c e he => by simpa [Channel.watch] using he)
    (fun holders hholders hbefore => ⟨holders ++ [i], ?_, fun j => ?_⟩) ⟨s.looks, [], by simp, trivial⟩
    ⟨hawaits.1, fun hcoming => ?_⟩
  · simp only [Select.StandsAt, hphase] at hholders
    simpa [Select.StandsAt, Select.move] using hholders
  · split
    · rename_i hj
      rw [hj, Channel.watch, hbefore, List.append_assoc, ← List.replicate_succ', List.count_append,
        List.count_singleton_self]
    · rename_i hj
      rw [hbefore, List.count_append, List.count_singleton, if_neg (by simpa using Ne.symm hj), Nat.add_zero]
  · obtain ⟨j, hj, hready⟩ := hawaits.2 ((coming_touched _).mp hcoming)
    refine ⟨j, hj, (ready_touched ?_ ?_ j).trans hready⟩ <;> exact fun _ => rfl

theorem Invariant.unregisters (h : s.Invariant) {todo ready : List ι}
    (hphase : s.call.phase = .unregister (i :: todo) ready) :
    (s.touched i (fun c => c.unwatch s.call.event) (.unregister todo ready)).Invariant := by
  obtain ⟨earlier, last, hlooks, hlast⟩ := h.looked
  have hawaits := h.awaits
  simp only [hphase] at hlast
  simp only [Awaits, hphase] at hawaits
  refine h.restood (fun _ => rfl) (fun c e he => .inl (List.mem_of_mem_erase he))
    (fun holders hholders hbefore => ⟨todo, ?_, fun j => ?_⟩) ⟨earlier, last, hlooks, hlast⟩ hawaits
  · simp only [Select.StandsAt, hphase] at hholders
    exact ⟨rfl, fun j hj => hholders.2 (List.mem_cons_of_mem i hj)⟩
  · simp only [Select.StandsAt, hphase] at hholders
    rw [hholders.1] at hbefore
    split
    · rename_i hj
      rw [hj, Channel.unwatch, hbefore, List.erase_append_right _ (h.unknown i), List.count_cons_self,
        List.replicate_succ, List.erase_cons_head]
    · rename_i hj
      rw [hbefore, List.count_cons_of_ne (Ne.symm hj)]

-- One action of the call.
theorem Invariant.act (h : s.Invariant) {store : σ} {call : Select ι}
    (hstep : Select.step s.store s.call = some (store, call)) :
    Invariant { s with store := store, call := call, looks := s.looks ++ s.look } := by
  have hlook : (∀ round i todo ready, s.call.phase ≠ .look round (i :: todo) ready) →
      s.looks ++ s.look = s.looks := by
    intro hnone
    rw [look]
    split
    · rename_i hphase
      exact absurd hphase (hnone _ _ _ _)
    · rw [List.append_nil]
  cases hphase : s.call.phase with
  | look round todo ready =>
      cases todo with
      | nil =>
          rw [hlook (by simp [hphase])]
          simp only [Select.step, hphase, Option.some.injEq, Prod.mk.injEq] at hstep
          obtain ⟨rfl, rfl⟩ := hstep
          exact h.afterLook hphase
      | cons i todo =>
          have hseen : s.look = [(i, (s.channel i).ready)] := by simp only [look, hphase]
          rw [hseen]
          simp only [Select.step, hphase, Option.some.injEq, Prod.mk.injEq] at hstep
          obtain ⟨rfl, rfl⟩ := hstep
          exact h.looks_on hphase
  | register todo =>
      rw [hlook (by simp [hphase])]
      cases todo <;> simp only [Select.step, hphase, Option.some.injEq, Prod.mk.injEq] at hstep <;>
        obtain ⟨rfl, rfl⟩ := hstep
      · exact h.registered hphase
      · exact h.registers hphase
  | wait =>
      rw [hlook (by simp [hphase])]
      simp only [Select.step, hphase, Option.ite_none_right_eq_some, Option.some.injEq, Prod.mk.injEq] at hstep
      obtain ⟨hset, rfl, rfl⟩ := hstep
      exact h.woken hphase hset
  | unregister todo ready =>
      rw [hlook (by simp [hphase])]
      cases todo <;> simp only [Select.step, hphase, Option.some.injEq, Prod.mk.injEq] at hstep <;>
        obtain ⟨rfl, rfl⟩ := hstep
      · exact h.unregistered hphase
      · exact h.unregisters hphase
  | finished ready => simp [Select.step, hphase] at hstep

end Registration

-- An event that is nowhere to be seen yet, nor any after it.
structure Fresh (store : σ) (pending : π → List EventId) (event : EventId) : Prop where
  watchers : ∀ i, ∀ e ∈ (ChannelStore.channel store i).watchers, e < event
  set : ∀ e, ChannelStore.isSet store e = true → e < event
  pending : ∀ p, ∀ e ∈ pending p, e < event

section Runs

variable [DecidableEq ι] {s t : Scene σ ι π}

theorem Fresh.invariant {store : σ} {pending : π → List EventId} {event : EventId}
    (h : Fresh store pending event) (channels : List ι) : (opened store pending channels event).Invariant where
  event_lt := Nat.lt_succ_self event
  watchers_lt i e he := Nat.lt_succ_of_lt (h.watchers i e he)
  coming_lt e he := by
    rcases he with he | ⟨p, he⟩
    · exact Nat.lt_succ_of_lt (h.set e he)
    · exact Nat.lt_succ_of_lt (h.pending p e he)
  unknown i he := Nat.lt_irrefl event (h.watchers i event he)
  stands := ⟨[], rfl, fun i => by simp [opened, channel]⟩
  looked := ⟨[], [], rfl, rfl, rfl⟩
  awaits := by
    refine ⟨rfl, fun hcoming => ?_⟩
    rcases hcoming with he | ⟨p, he⟩
    · exact absurd (h.set event he) (Nat.lt_irrefl event)
    · exact absurd (h.pending p event he) (Nat.lt_irrefl event)

theorem Invariant.fresh (h : s.Invariant) : Fresh s.store s.pending s.nextEvent where
  watchers := h.watchers_lt
  set e he := h.coming_lt e (.inl he)
  pending p e he := h.coming_lt e (.inr ⟨p, he⟩)

-- What those who call may rely on: nobody is left waiting whom an item or a closing should have woken; an
-- event that is taken back is there; and a call that has come back names the channels that its last looks
-- found ready, none only if it gave up, and has left nothing of itself behind.
structure Dependable (s : Scene σ ι π) : Prop where
  awoken : s.call.phase = .wait → ChannelStore.isSet s.store s.call.event = false →
    ∀ i ∈ s.call.channels, (s.channel i).items ≠ [] ∨ (s.channel i).closed = true →
      ∃ p, s.call.event ∈ s.pending p
  present : ∀ i todo ready, s.call.phase = .unregister (i :: todo) ready →
    s.call.event ∈ (s.channel i).watchers
  seen : ∀ ready, s.call.phase = .finished ready →
    ∃ earlier last, s.looks = earlier ++ last ∧ last.map Prod.fst = s.call.channels ∧ ready = found last
  inOrder : ∀ ready, s.call.phase = .finished ready → ready.Sublist s.call.channels
  empty_iff : ∀ ready, s.call.phase = .finished ready → (ready = [] ↔ s.gaveUp = true)
  clean : ∀ ready, s.call.phase = .finished ready →
    ∀ i, (s.channel i).watchers = s.before i ∧ s.call.event ∉ (s.channel i).watchers

theorem Invariant.dependable (h : s.Invariant) : s.Dependable := by
  have hseen : ∀ ready, s.call.phase = .finished ready →
      ∃ earlier last, s.looks = earlier ++ last ∧ last.map Prod.fst = s.call.channels ∧ ready = found last := by
    intro ready hphase
    obtain ⟨earlier, last, hlooks, hlast⟩ := h.looked
    simp only [hphase] at hlast
    exact ⟨earlier, last, hlooks, hlast⟩
  constructor
  case awoken =>
    intro hphase hset i hi hready
    have hawaits := h.awaits
    simp only [Awaits, hphase] at hawaits
    have hcoming := hawaits.2 i hi ((Channel.ready_iff_items_or_closed _).mpr hready)
    exact hcoming.resolve_left (by simp [hset])
  case present =>
    intro i todo ready hphase
    obtain ⟨holders, hholders, hwatchers⟩ := h.stands
    simp only [Select.StandsAt, hphase] at hholders
    rw [hwatchers, hholders.1, List.count_cons_self, List.replicate_succ]
    exact List.mem_append_right _ List.mem_cons_self
  case seen => exact hseen
  case inOrder =>
    intro ready hphase
    obtain ⟨_, last, -, hlast, rfl⟩ := hseen ready hphase
    exact hlast ▸ found_sublist last
  case empty_iff =>
    intro ready hphase
    have hawaits := h.awaits
    simpa only [Awaits, hphase] using hawaits
  case clean =>
    intro ready hphase i
    obtain ⟨holders, hholders, hwatchers⟩ := h.stands
    simp only [Select.StandsAt, hphase] at hholders
    have hkept : (s.channel i).watchers = s.before i := by simp [hwatchers, hholders]
    exact ⟨hkept, hkept ▸ h.unknown i⟩

variable [LawfulChannelStore σ ι α]

-- Between two calls: whoever calls has taken something from a channel.
theorem Invariant.consumed (h : s.Invariant) {i : ι} {ready : List ι} {c : Channel α}
    (hphase : s.call.phase = .finished ready) (hname : c.name = (s.channel i).name)
    (hwatchers : c.watchers = (s.channel i).watchers) :
    Invariant { s with store := ChannelStore.update s.store i fun _ => c } := by
  have hsame : ∀ j, (channel { s with store := ChannelStore.update s.store i fun _ => c } j).watchers =
      (s.channel j).watchers := by
    intro j
    rw [channel, ChannelStore.channel_update s.store fun d hd => hname.trans hd.symm]
    split
    · rename_i hj
      rw [hwatchers, hj]
    · rfl
  have hawaits := h.awaits
  simp only [Awaits, hphase] at hawaits
  exact {
    event_lt := h.event_lt
    watchers_lt := fun j => by
      rw [hsame]
      exact h.watchers_lt j
    coming_lt := fun e he => h.coming_lt e (by rwa [Coming, LawfulChannelStore.isSet_update] at he)
    unknown := h.unknown
    stands := by
      obtain ⟨holders, hholders, hbefore⟩ := h.stands
      refine ⟨holders, hholders, fun j => ?_⟩
      rw [hsame]
      exact hbefore j
    looked := h.looked
    awaits := by
      simp only [Awaits, hphase]
      exact hawaits }

variable [DecidableEq π]

theorem Invariant.step (h : s.Invariant) (hstep : s.Step t) : t.Invariant := by
  cases hstep with
  | act hact => exact h.act hact
  | giveUp hphase => exact h.givenUp hphase
  | @put p i x c hp hput =>
      obtain rfl := Channel.eq_pushed_of_put hput
      exact h.stirs (stirs_changed hp rfl rfl (Channel.ready_pushed _ x))
  | close p i hp => exact h.stirs (stirs_changed hp rfl rfl (Channel.ready_of_closed rfl))
  | set p hp => exact h.stirs (stirs_delivered hp)
  | take i hphase hpop =>
      obtain ⟨front, back, rfl⟩ := Channel.exists_of_pop hpop
      exact h.consumed hphase rfl rfl
  | drain i hphase => exact h.consumed hphase rfl rfl
  | again channels hphase => exact h.fresh.invariant channels

theorem Reaches.invariant (h : s.Reaches t) (hs : s.Invariant) : t.Invariant := by
  induction h with
  | refl => exact hs
  | step _ hstep ih => exact ih.step hstep

-- Whatever is put and closed in the meantime, and however often the call has been made.
theorem wait_misses_nothing {store : σ} {pending : π → List EventId} {event : EventId} {channels : List ι}
    (hfresh : Fresh store pending event) (h : (opened store pending channels event).Reaches t) : t.Dependable :=
  (h.invariant (hfresh.invariant channels)).dependable

end Runs

-- Eight actions bring a call to the end of its second looks, just before it waits.
theorem wait_misses_nothing_of_late_put :
    Fresh ({} : Exchange) (fun _ : Unit => []) 0 ∧
      ∃ t : Scene Exchange String Unit, (opened {} (fun _ => []) ["a", "b"] 0).Reaches t ∧
        t.call.phase = .wait ∧ (t.channel "b").items = [.stop] ∧ t.pending () = [0] ∧ t.Dependable := by
  have hfresh : Fresh ({} : Exchange) (fun _ : Unit => []) 0 :=
    ⟨fun _ _ he => (List.not_mem_nil he).elim, fun _ he => (Bool.false_ne_true he).elim,
      fun _ _ he => (List.not_mem_nil he).elim⟩
  obtain ⟨_, hlooked⟩ := (Reaches.refl (s := opened ({} : Exchange) (fun _ : Unit => []) ["a", "b"] 0)).proceed 8
  have hwaits := (hlooked.step (.put () "b" (x := .stop) rfl rfl)).step (.act rfl)
  exact ⟨hfresh, _, hwaits, rfl, rfl, rfl, wait_misses_nothing hfresh hwaits⟩

section Undisturbed

variable [LawfulChannelStore σ ι α] [DecidableEq π] {s t : Scene σ ι π} {p : π} {i : ι}

-- What a store shows of itself: its channels and the events that are set.
def Shows (s : Scene σ ι π) (store : σ) : Prop :=
  (∀ j, s.channel j = ChannelStore.channel store j) ∧ ∀ e, ChannelStore.isSet s.store e = ChannelStore.isSet store e

-- The events read off are set one by one, with nothing in between.
theorem Reaches.delivered_all (h : s.Reaches t) (events : List EventId) (hp : t.pending p = events) :
    ∃ u, s.Reaches u ∧ u.Shows (ChannelStore.setAll t.store events) ∧
      u.pending = Function.update t.pending p [] ∧ u.call = t.call := by
  induction events generalizing t with
  | nil =>
      refine ⟨t, h, ⟨fun j => (LawfulChannelStore.channel_setAll t.store [] j).symm, fun e => ?_⟩, ?_, rfl⟩
      · rw [Bool.eq_iff_iff, LawfulChannelStore.isSet_setAll, List.mem_nil_iff, false_or]
      · rw [← hp, Function.update_eq_self]
  | cons d rest ih =>
      obtain ⟨u, hu, hshows, hpending, hcall⟩ := ih (h.step (.set p hp)) (Function.update_self p _ _)
      refine ⟨u, hu, ⟨fun j => ?_, fun e => ?_⟩, ?_, hcall⟩
      · rw [hshows.1, LawfulChannelStore.channel_setAll, LawfulChannelStore.channel_setAll, delivered,
          LawfulChannelStore.channel_setAll]
      · rw [hshows.2, Bool.eq_iff_iff, LawfulChannelStore.isSet_setAll, LawfulChannelStore.isSet_setAll,
          delivered, LawfulChannelStore.isSet_setAll, List.mem_singleton, List.mem_cons]
        tauto
      · rw [hpending, delivered, Function.update_idem]

-- A put that is over before anybody else acts comes to the put of the store.
theorem put_reaches {x : α} {store : σ} (hp : s.pending p = []) (h : ChannelStore.put s.store i x = .ok store) :
    ∃ t, s.Reaches t ∧ t.Shows store ∧ t.pending = s.pending ∧ t.call = s.call := by
  rw [ChannelStore.put] at h
  split at h
  · simp at h
  · rename_i c hput
    obtain rfl := Except.ok.inj h
    obtain ⟨t, ht, hshows, hpending, hcall⟩ :=
      (Reaches.refl.step (.put p i hp hput)).delivered_all c.watchers (Function.update_self p _ _)
    refine ⟨t, ht, hshows, ?_, hcall⟩
    rw [hpending, changed, Function.update_idem, ← hp, Function.update_eq_self]

-- So does a closing.
theorem close_reaches [DecidableEq ι] (hp : s.pending p = []) :
    ∃ t, s.Reaches t ∧ t.Shows (ChannelStore.close s.store i) ∧ t.pending = s.pending ∧ t.call = s.call := by
  obtain ⟨t, ht, hshows, hpending, hcall⟩ :=
    (Reaches.refl.step (.close p i hp)).delivered_all (s.channel i).watchers (Function.update_self p _ _)
  refine ⟨t, ht, ⟨fun j => ?_, fun e => ?_⟩, ?_, hcall⟩
  · have hclosed : ∀ c : Channel α, c.name = (s.channel i).name → c.close.name = c.name := fun _ _ => rfl
    have hread : ∀ c : Channel α, c.name = (s.channel i).name → (s.channel i).close.name = c.name :=
      fun _ hc => hc.symm
    rw [hshows.1, ChannelStore.close, LawfulChannelStore.channel_setAll, LawfulChannelStore.channel_setAll,
      ChannelStore.channel_update s.store hclosed]
    exact ChannelStore.channel_update s.store hread j
  · rw [hshows.2, ChannelStore.close, Bool.eq_iff_iff, LawfulChannelStore.isSet_setAll,
      LawfulChannelStore.isSet_setAll, LawfulChannelStore.isSet_update]
    exact or_congr_right (by rw [changed, LawfulChannelStore.isSet_update])
  · rw [hpending, changed, Function.update_idem, ← hp, Function.update_eq_self]

end Undisturbed

end Scene

end WordMachine
