import WordMachine.Device.Console
import WordMachine.Proofs.Channel
import WordMachine.Proofs.Device.Sink
import WordMachine.Proofs.Device.Store

namespace WordMachine

namespace Select

-- The most actions that a call can still take, the one that uses its result included.
def cost {ι : Type} (call : Select ι) : Nat :=
  match call.phase with
  | .look .first todo _ => todo.length + 4 * call.channels.length + 7
  | .register todo => todo.length + 3 * call.channels.length + 6
  | .look .second todo _ => todo.length + 2 * call.channels.length + 5
  | .wait => 2 * call.channels.length + 4
  | .look .last todo _ => todo.length + call.channels.length + 3
  | .unregister todo _ => todo.length + 2
  | .finished _ => 1

theorem cost_afterLook {ι : Type} (call : Select ι) (round : SelectRound) (ready : List ι) :
    (call.move (call.afterLook round ready)).cost < (call.move (.look round [] ready)).cost := by
  rw [afterLook.eq_def]
  split <;> simp only [cost, move, List.length_nil] <;> omega

theorem cost_step {σ ι α : Type} [ChannelStore σ ι α] {s s' : σ} {call call' : Select ι}
    (h : step s call = some (s', call')) : call'.cost < call.cost := by
  obtain ⟨channels, event, phase⟩ := call
  cases phase with
  | look round todo ready =>
      cases todo with
      | nil =>
          simp only [step, Option.some.injEq, Prod.mk.injEq] at h
          rw [← h.2]
          exact cost_afterLook _ round ready
      | cons i todo =>
          simp only [step, Option.some.injEq, Prod.mk.injEq] at h
          rw [← h.2]
          cases round <;> simp only [cost, move, List.length_cons] <;> omega
  | register todo =>
      cases todo <;> simp only [step, Option.some.injEq, Prod.mk.injEq] at h <;> rw [← h.2] <;>
        simp only [cost, move, List.length_cons, List.length_nil] <;> omega
  | wait =>
      simp only [step, Option.ite_none_right_eq_some, Option.some.injEq, Prod.mk.injEq] at h
      rw [← h.2.2]
      simp only [cost, move]
      omega
  | unregister todo ready =>
      cases todo <;> simp only [step, Option.some.injEq, Prod.mk.injEq] at h <;> rw [← h.2] <;>
        simp only [cost, move, List.length_cons, List.length_nil] <;> omega
  | finished ready => simp [step] at h

end Select

-- Items the console has taken and not yet written.
@[simp]
def ConsolePhase.inHand {ι : Type} : ConsolePhase ι → List Item
  | .selecting _ => []
  | .taking _ => []
  | .emitting item _ => [item]
  | .obeying => []
  | .draining => []
  | .writing rest _ => rest
  | .ended => []

-- Whether the console is still waiting for more, or writing what a wait has found.
@[simp]
def ConsolePhase.waits {ι : Type} : ConsolePhase ι → Bool
  | .selecting _ | .taking _ | .emitting _ _ => true
  | .obeying | .draining | .writing _ _ | .ended => false

-- The most actions a console can still take, with so many items on the output channel. Each of them costs
-- at most one wait of seventeen actions, its removal, its writing and the way back.
def ConsolePhase.remaining {ι : Type} (queued : Nat) : ConsolePhase ι → Nat
  | .selecting call => 20 * queued + call.cost + 3
  | .taking _ => 20 * queued + 3
  | .emitting _ _ => 20 * queued + 21
  | .obeying => queued + 3
  | .draining => queued + 2
  | .writing rest _ => rest.length + 1
  | .ended => 0

namespace Console

variable {σ ι τ : Type} [ChannelStore σ ι Item]

def queue (s : σ) (c : Console ι τ) : Channel Item :=
  ChannelStore.channel s c.output

def requests (s : σ) (c : Console ι τ) : Channel Item :=
  ChannelStore.channel s c.control

-- What keeps a console from waiting.
def Pressed (s : σ) (c : Console ι τ) : Prop :=
  (c.requests s).ready = true ∨ (c.queue s).closed = true

-- Which of some channels can be read.
def readable (s : σ) (channels : List ι) : List ι :=
  channels.filter fun i => (ChannelStore.channel s i : Channel Item).ready

-- A wait that will not get beyond its first looks: it has found what can be read of the channels it has come to.
def Finds (s : σ) (c : Console ι τ) (call : Select ι) : Prop :=
  match call.phase with
  | .look .first todo ready =>
      ∃ looked, channels c.output c.control = looked ++ todo ∧ ready = readable s looked
  | .finished ready => ready = readable s (channels c.output c.control)
  | _ => False

-- What a console has left of the requests it found.
def Spent (s : σ) (c : Console ι τ) (asked : Channel Item) : Prop :=
  ∃ n ≤ 1, (c.requests s).items = asked.items.drop n

-- The two channels as the console leaves them, whatever it is about to do.
def Abides (s : σ) (c : Console ι τ) (asked : Channel Item) : Prop :=
  match c.phase with
  | .selecting call => c.requests s = asked ∧ c.Pressed s ∧ c.Finds s call
  | .taking stop => c.requests s = asked ∧ c.Pressed s ∧ stop = asked.ready
  | .emitting _ stop => c.requests s = asked ∧ c.Pressed s ∧ stop = asked.ready
  | .obeying => c.requests s = asked ∧ asked.ready = true
  | .draining => c.Spent s asked
  | .writing _ _ => c.Spent s asked ∧ (c.queue s).items = []
  | .ended => c.Spent s asked ∧ (c.error = none → (c.queue s).items = [])

-- An item is early that is written while the console still waits for more: any item, or the first one only if a
-- request to stop is there from the beginning.
def Early (asked : Channel Item) (done : List Item) : Prop :=
  asked.ready = true → done = []

-- Until it takes up what is left a console writes early items and loses none. Then there is nothing left, or it
-- has lost one, or what follows is not early any more.
def Paced (phase : ConsolePhase ι) (asked : Channel Item) (lost : Bool) (done left : List Item) : Prop :=
  if phase.waits then lost = false ∧ Early asked done else left ≠ [] → lost = true ∨ ¬Early asked done

-- Of all that was queued the sink has been given what comes first. The rest is in hand or still queued, unless the
-- sink has failed on the next item.
inductive Tells [TextSink τ] (c : Console ι τ) (sink : τ) (asked : Channel Item) (waiting queued : List Item) :
    Prop where
  | whole {lost : Bool} {done : List Item}
      (hreceives : TextSink.Receives sink (Early asked) lost done c.transcript c.sink) (herror : c.error = none)
      (hqueued : queued = done ++ (c.phase.inHand ++ waiting))
      (hpaced : Paced c.phase asked lost done (c.phase.inHand ++ waiting))
  | broken {lost : Bool} {done rest : List Item} {item : Item} {x : Failure} {used : τ}
      (hreceives : TextSink.Receives sink (Early asked) lost done c.transcript used) (hphase : c.phase = .ended)
      (herror : c.error = some x) (hqueued : queued = done ++ item :: rest)
      (hfails : TextSink.Fails used item x c.sink)
      (hkept : x = .channel .empty → lost = true ∨ ¬Early asked done)

-- A console on its way from the one that began.
structure Follows [TextSink τ] (s₀ : σ) (c₀ : Console ι τ) (s : σ) (c : Console ι τ) : Prop where
  output : c.output = c₀.output
  control : c.control = c₀.control
  abides : c.Abides s (c₀.requests s₀)
  tells : c.Tells c₀.sink (c₀.requests s₀) (c.queue s).items (c₀.queue s₀).items
  finished : c.finished = c.ended

-- The next action of a console on its way, which brings it nearer to its end.
def Advances [BEq ι] [TextSink τ] (s₀ : σ) (c₀ : Console ι τ) (s : σ) (c : Console ι τ) : Prop :=
  ∃ s' c', step s c = some (s', c') ∧ Follows s₀ c₀ s' c' ∧
    c'.phase.remaining (c'.queue s').items.length < c.phase.remaining (c.queue s).items.length

section Waits

variable {s : σ} {c : Console ι τ} {call : Select ι} {i : ι}

theorem finds_start (s : σ) (c : Console ι τ) (event : EventId) :
    c.Finds s (.start (channels c.output c.control) event) :=
  ⟨[], rfl, rfl⟩

theorem Pressed.readable_ne_nil (h : c.Pressed s) : readable s (channels c.output c.control) ≠ [] := by
  rcases h with hrequest | hclosed
  · exact List.ne_nil_of_mem (List.mem_filter.mpr ⟨by simp [channels], hrequest⟩ : c.control ∈ _)
  · exact List.ne_nil_of_mem (List.mem_filter.mpr ⟨by simp [channels], Channel.ready_of_closed hclosed⟩ : c.output ∈ _)

theorem contains_readable [BEq ι] [LawfulBEq ι] (hi : i ∈ channels c.output c.control) :
    (readable s (channels c.output c.control)).contains i = (ChannelStore.channel s i : Channel Item).ready := by
  rw [Bool.eq_iff_iff, List.contains_iff_mem, readable, List.mem_filter]
  exact ⟨fun h => h.2, fun h => ⟨hi, h⟩⟩

theorem Finds.step (h : c.Finds s call) (hpressed : c.Pressed s) (hlive : ∀ ready, call.phase ≠ .finished ready) :
    ∃ call', Select.step s call = some (s, call') ∧ c.Finds s call' := by
  rw [Finds] at h
  split at h
  · rename_i todo ready hphase
    obtain ⟨looked, hchannels, rfl⟩ := h
    cases todo with
    | nil =>
        rw [List.append_nil] at hchannels
        have hne := hpressed.readable_ne_nil
        rw [hchannels] at hne
        refine ⟨call.move (call.afterLook .first (readable s looked)), by simp only [Select.step, hphase], ?_⟩
        cases hready : readable s looked with
        | nil => exact absurd hready hne
        | cons i rest => exact hready.symm.trans (congrArg (readable s) hchannels.symm)
    | cons i todo =>
        refine ⟨call.move (.look .first todo
          (if (ChannelStore.channel s i : Channel Item).ready then readable s looked ++ [i] else readable s looked)),
          by simp only [Select.step, hphase], looked ++ [i], by simp [hchannels], ?_⟩
        cases hready : (ChannelStore.channel s i : Channel Item).ready <;> simp [readable, hready]
  · rename_i ready hphase
    exact absurd hphase (hlive ready)
  · exact h.elim

end Waits

section Channels

variable [LawfulChannelStore σ ι Item] {s : σ} {c : Console ι τ} {d : Channel Item}

theorem queue_update_self (hname : d.name = (c.queue s).name) :
    c.queue (ChannelStore.update s c.output fun _ => d) = d :=
  LawfulChannelStore.channel_update_self s fun _ he => hname.trans he.symm

theorem requests_update_of_ne (hapart : c.output ≠ c.control) (hname : d.name = (c.queue s).name) :
    c.requests (ChannelStore.update s c.output fun _ => d) = c.requests s :=
  LawfulChannelStore.channel_update_of_ne s hapart.symm fun _ he => hname.trans he.symm

theorem requests_update_self (hname : d.name = (c.requests s).name) :
    c.requests (ChannelStore.update s c.control fun _ => d) = d :=
  LawfulChannelStore.channel_update_self s fun _ he => hname.trans he.symm

theorem queue_update_of_ne (hapart : c.output ≠ c.control) (hname : d.name = (c.requests s).name) :
    c.queue (ChannelStore.update s c.control fun _ => d) = c.queue s :=
  LawfulChannelStore.channel_update_of_ne s hapart fun _ he => hname.trans he.symm

end Channels

section Pace

variable {phase phase' : ConsolePhase ι} {asked : Channel Item} {lost : Bool} {done left : List Item}
  {item : Item}

theorem Paced.of_waits_eq (h : Paced phase asked lost done left) (hwaits : phase'.waits = phase.waits) :
    Paced phase' asked lost done left := by
  rw [Paced] at h ⊢
  rwa [hwaits]

theorem paced_of_nil (hwaits : phase.waits = false) (asked : Channel Item) (lost : Bool) (done : List Item) :
    Paced phase asked lost done [] := by
  rw [Paced, hwaits]
  exact fun hne => absurd rfl hne

theorem Paced.early (h : Paced phase asked lost done left) (hwaits : phase.waits = true) :
    lost = false ∧ Early asked done := by
  rwa [Paced, hwaits] at h

theorem Paced.late (h : Paced phase asked lost done (item :: left)) (hwaits : phase.waits = false) :
    lost = true ∨ ¬Early asked done := by
  rw [Paced, hwaits] at h
  exact h (by simp)

theorem not_early_concat (hready : asked.ready = true) (done : List Item) (item : Item) :
    ¬Early asked (done ++ [item]) := by
  intro hearly
  have hnil := hearly hready
  simp at hnil

theorem not_early_append (h : ¬Early asked done) (item : Item) : ¬Early asked (done ++ [item]) := by
  rw [Early, Classical.not_imp] at h
  exact not_early_concat h.1 done item

end Pace

@[simp]
theorem phase_move (c : Console ι τ) (phase : ConsolePhase ι) : (c.move phase).phase = phase :=
  rfl

@[simp]
theorem phase_listen (c : Console ι τ) :
    c.listen.phase = .selecting (.start (channels c.output c.control) c.nextEvent) :=
  rfl

theorem phase_of_ended {c : Console ι τ} (h : c.ended = true) : c.phase = .ended := by
  rw [ended] at h
  split at h
  · assumption
  · simp at h

theorem remaining_pos {c : Console ι τ} (hlive : c.ended = false) (queued : Nat) :
    0 < c.phase.remaining queued := by
  cases hphase : c.phase with
  | ended => simp [ended, hphase] at hlive
  | _ =>
      simp only [ConsolePhase.remaining]
      omega

section Steps

variable [TextSink τ] {s₀ s s' : σ} {c₀ c : Console ι τ} {phase : ConsolePhase ι} {event : EventId}

theorem Follows.whole (h : Follows s₀ c₀ s c) (hlive : c.ended = false) :
    ∃ lost done, TextSink.Receives c₀.sink (Early (c₀.requests s₀)) lost done c.transcript c.sink ∧
      c.error = none ∧ (c₀.queue s₀).items = done ++ (c.phase.inHand ++ (c.queue s).items) ∧
      Paced c.phase (c₀.requests s₀) lost done (c.phase.inHand ++ (c.queue s).items) := by
  cases h.tells with
  | whole hreceives herror hqueued hpaced => exact ⟨_, _, hreceives, herror, hqueued, hpaced⟩
  | broken _ hphase => simp [ended, hphase] at hlive

-- An action that writes nothing. It may take up what is left only if nothing is.
theorem Follows.turned (h : Follows s₀ c₀ s c) (hlive : c.ended = false)
    (hended : ended { c with phase := phase, nextEvent := event } = false)
    (hitems : phase.inHand ++ (c.queue s').items = c.phase.inHand ++ (c.queue s).items)
    (hwaits : phase.waits = c.phase.waits ∨
      phase.waits = false ∧ c.phase.inHand ++ (c.queue s).items = [])
    (habides : Abides s' { c with phase := phase, nextEvent := event } (c₀.requests s₀)) :
    Follows s₀ c₀ s' { c with phase := phase, nextEvent := event } where
  output := h.output
  control := h.control
  abides := habides
  tells := by
    obtain ⟨lost, done, hreceives, herror, hqueued, hpaced⟩ := h.whole hlive
    refine .whole hreceives herror (hqueued.trans (congrArg _ hitems.symm)) ?_
    change Paced phase _ lost done (phase.inHand ++ (c.queue s').items)
    rw [hitems]
    rcases hwaits with hsame | ⟨hdone, hnil⟩
    · exact hpaced.of_waits_eq hsame
    · rw [hnil]
      exact paced_of_nil hdone _ _ _
  finished := (h.finished.trans hlive).trans hended.symm

-- The item at hand is written.
theorem Follows.emitted (h : Follows s₀ c₀ s c) (hlive : c.ended = false) {u : String} {rest : List Item}
    (hhand : c.phase.inHand = .text u :: rest) {sink : τ} {text : String}
    (htook : TextSink.Took c.sink u text sink) {d : Console ι τ}
    (hd : d = { c with sink := sink, written := text :: c.written, phase := phase, nextEvent := event })
    (hended : d.ended = false) (hrest : phase.inHand = rest) (habides : d.Abides s (c₀.requests s₀))
    (hpaced : ∀ lost done, Paced c.phase (c₀.requests s₀) lost done (.text u :: (rest ++ (c.queue s).items)) →
      Paced phase (c₀.requests s₀) lost (done ++ [.text u]) (rest ++ (c.queue s).items)) :
    Follows s₀ c₀ s d := by
  obtain ⟨lost, done, hreceives, herror, hqueued, hpace⟩ := h.whole hlive
  subst hd
  have htranscript : transcript { c with
      sink := sink, written := text :: c.written, phase := phase, nextEvent := event } =
      c.transcript ++ [text] := List.reverse_cons
  have htold := hreceives.took htook
  rw [← htranscript] at htold
  rw [hhand] at hpace hqueued
  refine ⟨h.output, h.control, habides, .whole htold herror ?_ ?_, (h.finished.trans hlive).trans hended.symm⟩
  · rw [hqueued, hrest, List.cons_append, List.append_assoc, List.singleton_append]
    rfl
  · change Paced phase _ _ _ (phase.inHand ++ (c.queue s).items)
    rw [hrest]
    exact hpaced lost done hpace

-- The sink fails on the item at hand.
theorem Follows.failed (h : Follows s₀ c₀ s c) (hlive : c.ended = false) {item : Item} {rest : List Item}
    (hhand : c.phase.inHand = item :: rest) {sink : τ} {x : Failure} (hfails : TextSink.Fails c.sink item x sink)
    (hspent : c.Spent s (c₀.requests s₀)) (hwaits : x = .channel .empty → c.phase.waits = false) :
    Follows s₀ c₀ s (fail { c with sink := sink } x) := by
  obtain ⟨lost, done, hreceives, herror, hqueued, hpaced⟩ := h.whole hlive
  refine ⟨h.output, h.control, ⟨hspent, by simp [fail]⟩, ?_, rfl⟩
  rw [hhand] at hqueued hpaced
  exact .broken hreceives rfl rfl hqueued hfails fun hx => hpaced.late (hwaits hx)

-- The item at hand is lost.
theorem Follows.lost (h : Follows s₀ c₀ s c) (hlive : c.ended = false) {item : Item}
    (hhand : c.phase.inHand = [item]) (hwaits : c.phase.waits = true) {sink : τ}
    (hfails : TextSink.Fails c.sink item (.channel .empty) sink) (hspent : c.Spent s (c₀.requests s₀)) :
    Follows s₀ c₀ s (move { c with sink := sink } .draining) := by
  obtain ⟨lost, done, hreceives, herror, hqueued, hpaced⟩ := h.whole hlive
  obtain ⟨rfl, hearly⟩ := hpaced.early hwaits
  refine ⟨h.output, h.control, hspent, ?_, h.finished.trans hlive⟩
  refine .whole (hreceives.lost hearly hfails) herror ?_ (fun _ => .inl rfl)
  rw [hqueued, hhand, List.append_assoc]
  rfl

variable [BEq ι]

theorem Follows.advances (h : Follows s₀ c₀ s c) (hlive : c.ended = false)
    (hstep : step s c = some (s', { c with phase := phase, nextEvent := event }))
    (hended : ended { c with phase := phase, nextEvent := event } = false)
    (hitems : phase.inHand ++ (c.queue s').items = c.phase.inHand ++ (c.queue s).items)
    (hwaits : phase.waits = c.phase.waits ∨
      phase.waits = false ∧ c.phase.inHand ++ (c.queue s).items = [])
    (habides : Abides s' { c with phase := phase, nextEvent := event } (c₀.requests s₀))
    (hless : phase.remaining (c.queue s').items.length < c.phase.remaining (c.queue s).items.length) :
    Advances s₀ c₀ s c :=
  ⟨_, _, hstep, h.turned hlive hended hitems hwaits habides, hless⟩

-- A wait that is over has found one of the two channels.
theorem Follows.advances_found [LawfulBEq ι] (h : Follows s₀ c₀ s c) {call : Select ι} {ready : List ι}
    (hphase : c.phase = .selecting call) (hready : call.phase = .finished ready) : Advances s₀ c₀ s c := by
  have hlive : c.ended = false := by rw [ended, hphase]
  have habides := h.abides
  simp only [Abides, Finds, hphase, hready] at habides
  obtain ⟨hasked, hpressed, rfl⟩ := habides
  have hcost : call.cost = 1 := by rw [Select.cost, hready]
  have houtput := contains_readable (s := s) (c := c) (i := c.output) (by simp [channels])
  have hcontrol := contains_readable (s := s) (c := c) (i := c.control) (by simp [channels])
  have hrequest : (ChannelStore.channel s c.control : Channel Item).ready = (c₀.requests s₀).ready :=
    congrArg Channel.ready hasked
  rw [hrequest] at hcontrol
  have hstep : step s c = some (s, c.afterWait (readable s (channels c.output c.control))) := by
    simp only [step, hphase, hready]
  rw [afterWait, houtput, hcontrol] at hstep
  split at hstep
  · refine h.advances hlive hstep rfl (by rw [hphase]; rfl) (.inl (by rw [hphase]; rfl)) ⟨hasked, hpressed, rfl⟩ ?_
    simp only [hphase, ConsolePhase.remaining]
    omega
  · rename_i hunready
    have hempty : (c.queue s).items = [] := by
      by_contra hne
      exact hunready ((Channel.ready_iff_items_or_closed _).mpr (.inl hne))
    have hnotclosed : (c.queue s).closed ≠ true := fun hclosed => hunready (Channel.ready_of_closed hclosed)
    have hstop : (c₀.requests s₀).ready = true := by
      rw [← hasked]
      exact hpressed.resolve_right hnotclosed
    rw [if_pos hstop] at hstep
    refine h.advances hlive hstep rfl (by rw [hphase]; rfl) (.inr ⟨rfl, by rw [hphase]; exact hempty⟩)
      ⟨hasked, hstop⟩ ?_
    simp only [hphase, ConsolePhase.remaining]
    omega

theorem Follows.advances_selecting [LawfulBEq ι] (h : Follows s₀ c₀ s c) {call : Select ι}
    (hphase : c.phase = .selecting call) : Advances s₀ c₀ s c := by
  by_cases hreturned : ∃ ready, call.phase = .finished ready
  · obtain ⟨ready, hready⟩ := hreturned
    exact h.advances_found hphase hready
  · have hlive : c.ended = false := by rw [ended, hphase]
    have habides := h.abides
    simp only [Abides, hphase] at habides
    obtain ⟨hasked, hpressed, hfinds⟩ := habides
    obtain ⟨call', hselect, hfinds'⟩ := hfinds.step hpressed fun ready hready => hreturned ⟨ready, hready⟩
    have hcost := Select.cost_step hselect
    have hstep : step s c = some (s, c.move (.selecting call')) := by
      simp only [step, hphase]
      split
      · rename_i ready hready
        exact absurd ⟨ready, hready⟩ hreturned
      · simp only [hselect]
    refine h.advances hlive hstep rfl (by rw [hphase]; rfl) (.inl (by rw [hphase]; rfl))
      ⟨hasked, hpressed, hfinds'⟩ ?_
    simp only [hphase, ConsolePhase.remaining]
    omega

-- An action that writes the item at hand and leads on, or leads elsewhere if the sink fails.
theorem Follows.advances_emit (h : Follows s₀ c₀ s c) (hlive : c.ended = false) {item : Item} {rest : List Item}
    (hhand : c.phase.inHand = item :: rest) {next : Console ι τ → Console ι τ}
    {failed : Console ι τ → Failure → Console ι τ} (hstep : step s c = some (s, c.emit item next failed))
    (hnext : ∀ sink written, ∃ phase event,
      next { c with sink := sink, written := written } =
        { c with sink := sink, written := written, phase := phase, nextEvent := event } ∧
      (next { c with sink := sink, written := written }).ended = false ∧ phase.inHand = rest ∧
      (next { c with sink := sink, written := written }).Abides s (c₀.requests s₀) ∧
      (∀ lost done, Paced c.phase (c₀.requests s₀) lost done (item :: (rest ++ (c.queue s).items)) →
        Paced phase (c₀.requests s₀) lost (done ++ [item]) (rest ++ (c.queue s).items)) ∧
      phase.remaining (c.queue s).items.length < c.phase.remaining (c.queue s).items.length)
    (hfailed : ∀ sink x, TextSink.Fails c.sink item x sink →
      step s c = some (s, failed { c with sink := sink } x) → Advances s₀ c₀ s c) :
    Advances s₀ c₀ s c := by
  rw [Console.emit] at hstep
  split at hstep <;> rename_i hemit
  · obtain ⟨u, rfl, htook⟩ := TextSink.took_of_emitItem hemit
    obtain ⟨phase, event, hd, hended, hrest, habides, hpaced, hless⟩ := hnext _ _
    refine ⟨_, _, hstep, h.emitted hlive hhand htook hd hended hrest habides hpaced, ?_⟩
    rw [hd]
    exact hless
  · exact hfailed _ _ (TextSink.fails_of_emitItem hemit) hstep

-- While the console still waits, a sink that says that a queue is empty makes it take up what is left.
theorem Follows.advances_emitting (h : Follows s₀ c₀ s c) {item : Item} {stop : Bool}
    (hphase : c.phase = .emitting item stop) : Advances s₀ c₀ s c := by
  have hlive : c.ended = false := by rw [ended, hphase]
  have hhand : c.phase.inHand = [item] := by rw [hphase]; rfl
  have hwaits : c.phase.waits = true := by rw [hphase]; rfl
  have habides := h.abides
  simp only [Abides, hphase] at habides
  obtain ⟨hasked, hpressed, hstop⟩ := habides
  have hspent : c.Spent s (c₀.requests s₀) := ⟨0, by simp, congrArg Channel.items hasked⟩
  have hstep : step s c =
      some (s, c.emit item (fun c => if stop then c.move .obeying else c.listen) failOrDrain) := by
    simp only [step, hphase]
  refine h.advances_emit hlive hhand hstep (fun sink written => ?next) fun sink x hfails hstep' => ?failed
  case next =>
    cases stop with
    | true =>
        refine ⟨.obeying, c.nextEvent, rfl, rfl, rfl, ⟨hasked, hstop.symm⟩, ?_, ?_⟩
        · exact fun lost done _ _ => .inr (not_early_concat hstop.symm done item)
        · simp only [hphase, ConsolePhase.remaining]
          omega
    | false =>
        refine ⟨_, _, rfl, rfl, rfl, ⟨hasked, hpressed, finds_start s c c.nextEvent⟩, ?_, ?_⟩
        · intro lost done hpaced
          refine ⟨(hpaced.early hwaits).1, fun hready => ?_⟩
          simp [hready] at hstop
        · simp only [hphase, ConsolePhase.remaining, Select.cost, Select.start, channels, List.length_cons,
            List.length_nil]
          omega
  case failed =>
    rw [failOrDrain] at hstep'
    split at hstep'
    · rename_i hempty
      subst hempty
      refine ⟨_, _, hstep', h.lost hlive hhand hwaits hfails hspent, ?_⟩
      simp only [hphase, ConsolePhase.remaining, move]
      change (c.queue s).items.length + 2 < _
      omega
    · rename_i hne
      refine ⟨_, _, hstep', h.failed hlive hhand hfails hspent fun hempty => absurd hempty hne, ?_⟩
      simp only [hphase, ConsolePhase.remaining, fail]
      omega

theorem Follows.advances_writing (h : Follows s₀ c₀ s c) {rest : List Item} {n : Nat}
    (hphase : c.phase = .writing rest n) : Advances s₀ c₀ s c := by
  have hlive : c.ended = false := by rw [ended, hphase]
  have hwaits : c.phase.waits = false := by rw [hphase]; rfl
  have habides := h.abides
  simp only [Abides, hphase] at habides
  obtain ⟨hspent, hempty⟩ := habides
  cases rest with
  | nil =>
      have hstep : step s c = some (s, { c with phase := .ended, drained := some n, finished := true }) := by
        simp only [step, hphase]
      obtain ⟨lost, done, hreceives, herror, hqueued, hpaced⟩ := h.whole hlive
      rw [hphase] at hqueued
      have hended : Paced (.ended : ConsolePhase ι) (c₀.requests s₀) lost done ([] ++ (c.queue s).items) := by
        rw [hempty]
        exact paced_of_nil rfl _ _ _
      refine ⟨_, _, hstep, ⟨h.output, h.control, ⟨hspent, fun _ => hempty⟩,
        .whole hreceives herror hqueued hended, rfl⟩, ?_⟩
      simp only [hphase, ConsolePhase.remaining]
      omega
  | cons item rest =>
      have hhand : c.phase.inHand = item :: rest := by rw [hphase]; rfl
      have hstep : step s c = some (s, c.emit item (fun c => c.move (.writing rest n)) fail) := by
        simp only [step, hphase]
      refine h.advances_emit hlive hhand hstep (fun sink written => ?next) fun sink x hfails hstep' => ?failed
      case next =>
        refine ⟨.writing rest n, c.nextEvent, rfl, rfl, rfl, ⟨hspent, hempty⟩, ?_, ?_⟩
        · exact fun lost done hpaced _ => (hpaced.late hwaits).imp_right fun hlate => not_early_append hlate item
        · simp only [hphase, ConsolePhase.remaining, List.length_cons]
          omega
      case failed =>
        refine ⟨_, _, hstep', h.failed hlive hhand hfails hspent fun _ => hwaits, ?_⟩
        simp only [hphase, ConsolePhase.remaining, fail]
        omega

variable [LawfulChannelStore σ ι Item]

theorem Follows.advances_taking (h : Follows s₀ c₀ s c) (hapart : c.output ≠ c.control) {stop : Bool}
    (hphase : c.phase = .taking stop) : Advances s₀ c₀ s c := by
  have hlive : c.ended = false := by rw [ended, hphase]
  have habides := h.abides
  simp only [Abides, hphase] at habides
  obtain ⟨hasked, hpressed, hstop⟩ := habides
  cases hpop : (c.queue s).pop? with
  | none =>
      have hstep : step s c = some (s, c.move .draining) := by
        rw [queue] at hpop
        simp only [step, hphase, hpop]
      have hempty : (c.queue s).items = [] := (Channel.pop?_eq_none_iff _).mp hpop
      refine h.advances hlive hstep rfl (by rw [hphase]; rfl) (.inr ⟨rfl, by rw [hphase]; exact hempty⟩)
        ⟨0, by simp, congrArg Channel.items hasked⟩ ?_
      simp only [hphase, ConsolePhase.remaining]
      omega
  | some r =>
      obtain ⟨item, d⟩ := r
      have hstep : step s c = some (ChannelStore.update s c.output fun _ => d, c.move (.emitting item stop)) := by
        rw [queue] at hpop
        simp only [step, hphase, hpop]
      have hitems := Channel.items_pop hpop
      obtain ⟨front, back, hd⟩ := Channel.exists_of_pop hpop
      have hname : d.name = (c.queue s).name := by rw [hd]
      have hqueue := queue_update_self hname
      have hrequests := requests_update_of_ne hapart hname
      refine h.advances hlive hstep rfl (by rw [hphase, hqueue, hitems]; rfl) (.inl (by rw [hphase]; rfl))
        ⟨hrequests.trans hasked, ?_, hstop⟩ ?_
      · exact hpressed.imp (fun hready => (congrArg Channel.ready hrequests).trans hready) fun hclosed =>
          (congrArg Channel.closed hqueue).trans ((Channel.closed_pop hpop).trans hclosed)
      · simp only [hphase, hqueue, hitems, ConsolePhase.remaining, List.length_cons]
        omega

theorem Follows.advances_obeying (h : Follows s₀ c₀ s c) (hapart : c.output ≠ c.control)
    (hphase : c.phase = .obeying) : Advances s₀ c₀ s c := by
  have hlive : c.ended = false := by rw [ended, hphase]
  have habides := h.abides
  simp only [Abides, hphase] at habides
  have hasked := congrArg Channel.items habides.1
  cases hpop : (c.requests s).pop? with
  | none =>
      have hstep : step s c = some (s, c.move .draining) := by
        rw [requests] at hpop
        simp only [step, hphase, hpop]
      refine h.advances hlive hstep rfl (by rw [hphase]; rfl) (.inl (by rw [hphase]; rfl)) ⟨0, by simp, hasked⟩ ?_
      simp only [hphase, ConsolePhase.remaining]
      omega
  | some r =>
      obtain ⟨item, d⟩ := r
      have hstep : step s c = some (ChannelStore.update s c.control fun _ => d, c.move .draining) := by
        rw [requests] at hpop
        simp only [step, hphase, hpop]
      obtain ⟨front, back, hd⟩ := Channel.exists_of_pop hpop
      have hname : d.name = (c.requests s).name := by rw [hd]
      have hrequests := requests_update_self hname
      have hqueue := queue_update_of_ne hapart hname
      refine h.advances hlive hstep rfl (by rw [hphase, hqueue]; rfl) (.inl (by rw [hphase]; rfl))
        ⟨1, Nat.le_refl _, ?_⟩ ?_
      · rw [← hasked, Channel.items_pop hpop]
        exact congrArg Channel.items hrequests
      · simp only [hphase, hqueue, ConsolePhase.remaining]
        omega

theorem Follows.advances_draining (h : Follows s₀ c₀ s c) (hapart : c.output ≠ c.control)
    (hphase : c.phase = .draining) : Advances s₀ c₀ s c := by
  have hlive : c.ended = false := by rw [ended, hphase]
  have hspent := h.abides
  simp only [Abides, hphase] at hspent
  obtain ⟨n, hn, hleft⟩ := hspent
  have hstep : step s c = some (ChannelStore.update s c.output fun _ => (c.queue s).drain.2,
      c.move (.writing (c.queue s).items (c.queue s).items.length)) := by
    simp only [step, hphase]
    rfl
  have hqueue : c.queue (ChannelStore.update s c.output fun _ => (c.queue s).drain.2) = (c.queue s).drain.2 :=
    queue_update_self rfl
  have hrequests : c.requests (ChannelStore.update s c.output fun _ => (c.queue s).drain.2) = c.requests s :=
    requests_update_of_ne hapart rfl
  have hdrained := (c.queue s).items_drain.2
  refine h.advances hlive hstep rfl (by rw [hphase, hqueue, hdrained]; simp [ConsolePhase.inHand])
    (.inl (by rw [hphase]; rfl))
    ⟨⟨n, hn, (congrArg Channel.items hrequests).trans hleft⟩, (congrArg Channel.items hqueue).trans hdrained⟩ ?_
  simp only [hphase, ConsolePhase.remaining]
  omega

variable [LawfulBEq ι]

theorem Follows.advances_of_live (h : Follows s₀ c₀ s c) (hapart : c₀.output ≠ c₀.control)
    (hlive : c.ended = false) : Advances s₀ c₀ s c := by
  rw [← h.output, ← h.control] at hapart
  cases hphase : c.phase with
  | selecting call => exact h.advances_selecting hphase
  | taking stop => exact h.advances_taking hapart hphase
  | emitting item stop => exact h.advances_emitting hphase
  | obeying => exact h.advances_obeying hapart hphase
  | draining => exact h.advances_draining hapart hphase
  | writing rest n => exact h.advances_writing hphase
  | ended => simp [ended, hphase] at hlive

-- With as many actions as remain to it a console comes to its end.
theorem Follows.proceed (h : Follows s₀ c₀ s c) (hapart : c₀.output ≠ c₀.control) {k : Nat}
    (hk : c.phase.remaining (c.queue s).items.length ≤ k) :
    Follows s₀ c₀ (proceed k s c).1 (proceed k s c).2 ∧ (proceed k s c).2.ended = true := by
  induction k generalizing s c with
  | zero =>
      have hended : c.ended = true := by
        by_contra hlive
        have hpos := remaining_pos (by simpa using hlive) (c.queue s).items.length
        omega
      exact ⟨h, hended⟩
  | succ k ih =>
      cases hlive : c.ended with
      | true =>
          have hidle : step s c = none := by simp only [step, phase_of_ended hlive]
          rw [Console.proceed, hidle]
          exact ⟨h, hlive⟩
      | false =>
          obtain ⟨s', c', hstep, hfollows, hless⟩ := h.advances_of_live hapart hlive
          rw [Console.proceed, hstep]
          exact ih hfollows (by omega)

theorem follows_run {output control : ι} {sink : τ} (hapart : output ≠ control)
    (hpressed : (create output control sink).Pressed s) :
    Follows s (create output control sink) (run s (create output control sink)).1
        (run s (create output control sink)).2 ∧
      (run s (create output control sink)).2.ended = true := by
  have hbegin : Follows s (create output control sink) s (create output control sink).begin :=
    ⟨rfl, rfl, ⟨rfl, hpressed, finds_start _ _ 0⟩, .whole .nil rfl rfl ⟨rfl, fun _ => rfl⟩, rfl⟩
  refine hbegin.proceed hapart ?_
  have hlength : (ChannelStore.channel s output : Channel Item).length =
      ((create output control sink).begin.queue s).items.length := (Channel.length_items _).symm
  change 20 * _ + 17 + 3 ≤ ((ChannelStore.channel s output : Channel Item).length + 2) * 21 + 4
  rw [hlength]
  omega

end Steps

-- How a console ends, by the answers of its sink: the sink has been given all the texts or has failed on one of
-- them, and one that said that a queue is empty may have lost a text before.
inductive Answers [TextSink τ] (c : Console ι τ) (sink : τ) (asked : Channel Item) (texts : List String) : Prop where
  | whole {lost : Bool}
      (hreceives : TextSink.Receives sink (Early asked) lost (texts.map .text) c.transcript c.sink)
      (herror : c.error = none)
  | broken {lost : Bool} {before after : List String} {text : String} {x : Failure} {used : τ}
      (htexts : texts = before ++ text :: after)
      (hreceives : TextSink.Receives sink (Early asked) lost (before.map .text) c.transcript used)
      (hfails : TextSink.Fails used (.text text) x c.sink) (herror : c.error = some x)
      (hkept : x = .channel .empty → lost = true ∨ ¬Early asked (before.map .text))

-- What a console makes of texts on a sink that may break. A break that says that a queue is empty need not end it.
structure Keeps (c : Console ι) (sink : Sink) (texts : List String) : Prop where
  whole : sink.Endures texts →
    c.error = none ∧ c.transcript = texts.map sink.rendered ∧
      c.sink.text = sink.text ++ String.join (texts.map sink.rendered)
  brokenWrite : ∀ before x, sink.BreaksAt texts before x → ¬sink.WritesThrough (before ++ [x]) →
    sink.writeFailure ≠ .channel .empty →
    c.error = some sink.writeFailure ∧ c.transcript = before.map sink.rendered ∧
      c.sink.text = sink.text ++ String.join (before.map sink.rendered)
  brokenFlush : ∀ before x, sink.BreaksAt texts before x → sink.WritesThrough (before ++ [x]) →
    sink.flushFailure ≠ .channel .empty →
    c.error = some sink.flushFailure ∧ c.transcript = before.map sink.rendered ∧
      c.sink.text = sink.text ++ String.join ((before ++ [x]).map sink.rendered)
  error_iff : sink.writeFailure ≠ .channel .empty → sink.flushFailure ≠ .channel .empty →
    (c.error = none ↔ sink.Endures texts)
  broken : c.error ≠ none → ∃ before x, sink.BreaksAt texts before x

-- What becomes of texts that are queued for a console.
structure Served (s : σ) (output control : ι) (sink : Sink) (texts : List String) (s' : σ) (c : Console ι) :
    Prop where
  finished : c.finished = true
  asked : ∃ n ≤ 1, (ChannelStore.channel s' control : Channel Item).items =
    (ChannelStore.channel s control : Channel Item).items.drop n
  emptied : c.error = none → (ChannelStore.channel s' output : Channel Item).items = []
  answered : c.Answers sink (ChannelStore.channel s control) texts
  -- A break that says that a text cannot be encoded is no break, but has the text written in escapes.
  kept : sink.writeFailure ≠ .unencodable → c.Keeps sink texts

section Sinks

variable {s : σ} {output control : ι} {asked : Channel Item} {texts : List String}

theorem Tells.answers [TextSink τ] {c : Console ι τ} {sink : τ} {waiting : List Item}
    (h : c.Tells sink asked waiting (texts.map .text)) (hended : c.phase = .ended)
    (hempty : c.error = none → waiting = []) : c.Answers sink asked texts := by
  cases h with
  | whole hreceives herror hqueued _ =>
      rw [hended, hempty herror, ConsolePhase.inHand, List.nil_append, List.append_nil] at hqueued
      rw [← hqueued] at hreceives
      exact .whole hreceives herror
  | broken hreceives _ herror hqueued hfails hkept =>
      obtain ⟨before, rest, rfl, rfl, hrest⟩ := List.map_eq_append_iff.mp hqueued
      obtain ⟨text, after, rfl, rfl, -⟩ := List.map_eq_cons_iff.mp hrest
      exact .broken rfl hreceives hfails herror hkept

-- How far a console on such a sink comes: to the end, or to the first break.
inductive Outcome (sink : Sink) (texts : List String) (c : Console ι) : Prop where
  | whole (h : sink.Endures texts) (herror : c.error = none) (htranscript : c.transcript = texts.map sink.rendered)
      (hsink : c.sink = sink.after texts)
  | broken {before : List String} {text : String} {x : Failure} (h : sink.BreaksAt texts before text)
      (hbreaks : (sink.after before).Breaks text x c.sink) (herror : c.error = some x)
      (htranscript : c.transcript = before.map sink.rendered)
  | lost {before : List String} {text : String} {used : Sink} (h : sink.BreaksAt texts before text)
      (hbreaks : (sink.after before).Breaks text (.channel .empty) used)

variable {c : Console ι} {sink : Sink}

theorem Answers.outcome (h : c.Answers sink asked texts) (hx : sink.writeFailure ≠ .unencodable) :
    Outcome sink texts c := by
  cases h with
  | @whole lost hreceives herror =>
      cases lost with
      | false =>
          obtain ⟨hendures, hsink, htranscript⟩ := Sink.after_of_receives hx hreceives rfl
          exact .whole hendures herror htranscript hsink
      | true =>
          obtain ⟨_, _, _, hbreak, hbreaks⟩ := Sink.breaks_of_lost hx hreceives rfl
          exact .lost hbreak hbreaks
  | @broken lost before after text x used htexts hreceives hfails herror _ =>
      subst htexts
      cases lost with
      | false =>
          obtain ⟨hendures, rfl, htranscript⟩ := Sink.after_of_receives hx hreceives rfl
          have hbreaks := Sink.breaks_of_fails (s := sink.after before) hx hfails
          exact .broken (Sink.breaksAt_of_breaks hendures hbreaks) hbreaks herror htranscript
      | true =>
          obtain ⟨_, _, _, hbreak, hbreaks⟩ := Sink.breaks_of_lost hx hreceives rfl
          exact .lost (hbreak.append _) hbreaks

theorem Outcome.keeps (h : Outcome sink texts c) : c.Keeps sink texts := by
  cases h with
  | whole hendures herror htranscript hsink =>
      exact {
        whole := fun _ => ⟨herror, htranscript, by rw [hsink]; rfl⟩
        brokenWrite := fun _ _ hbreak _ _ => absurd hendures hbreak.not_endures
        brokenFlush := fun _ _ hbreak _ _ => absurd hendures hbreak.not_endures
        error_iff := fun _ _ => ⟨fun _ => hendures, fun _ => herror⟩
        broken := fun hfailed => absurd herror hfailed }
  | broken hbroken hbreaks herror htranscript =>
      exact {
        whole := fun hendures => absurd hendures hbroken.not_endures
        brokenWrite := fun _ _ hbreak hwrite _ => by
          obtain ⟨rfl, rfl⟩ := hbroken.unique hbreak
          obtain ⟨rfl, htext⟩ := hbreaks.of_not_writesThrough hbroken.endures hwrite
          exact ⟨herror, htranscript, htext⟩
        brokenFlush := fun _ _ hbreak hthrough _ => by
          obtain ⟨rfl, rfl⟩ := hbroken.unique hbreak
          obtain ⟨rfl, hsink⟩ := hbreaks.of_writesThrough hthrough
          exact ⟨herror, htranscript, by rw [hsink]; rfl⟩
        error_iff := fun _ _ => ⟨fun hnone => by simp [hnone] at herror,
          fun hendures => absurd hendures hbroken.not_endures⟩
        broken := fun _ => ⟨_, _, hbroken⟩ }
  | @lost before text used hbroken hbreaks =>
      exact {
        whole := fun hendures => absurd hendures hbroken.not_endures
        brokenWrite := fun _ _ hbreak hwrite hne => by
          obtain ⟨rfl, rfl⟩ := hbroken.unique hbreak
          exact absurd (hbreaks.of_not_writesThrough hbroken.endures hwrite).1.symm hne
        brokenFlush := fun _ _ hbreak hthrough hne => by
          obtain ⟨rfl, rfl⟩ := hbroken.unique hbreak
          exact absurd (hbreaks.of_writesThrough hthrough).1.symm hne
        error_iff := fun hwrite hflush => by
          by_cases hthrough : sink.WritesThrough (before ++ [text])
          · exact absurd (hbreaks.of_writesThrough hthrough).1.symm hflush
          · exact absurd (hbreaks.of_not_writesThrough hbroken.endures hthrough).1.symm hwrite
        broken := fun _ => ⟨_, _, hbroken⟩ }

end Sinks

end Console

end WordMachine
