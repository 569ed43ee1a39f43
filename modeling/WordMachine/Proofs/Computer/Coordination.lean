import WordMachine.Proofs.Computer.Wiring
import WordMachine.Proofs.Device.Console

namespace WordMachine

namespace Monitor

-- What the monitor has put on the control channel.
def asked (m : Monitor ChannelRole) : List Item :=
  match m.phase with
  | .listening => []
  | .stopping => []
  | .ended => [.stop]

-- The monitor of an engine with such a twin: it has heard nothing, or the one signal there is.
def Heard (m : Monitor ChannelRole) (w : Wiring) (q : Engine) : Prop :=
  match m.phase with
  | .listening => w.engine.status.items = q.status.items
  | .stopping => q.halted = true ∧ w.engine.status.items = [] ∧ m.signal = some q.haltSignal
  | .ended => q.halted = true ∧ w.engine.status.items = [] ∧ m.signal = some q.haltSignal

theorem asked_eq_nil_iff (m : Monitor ChannelRole) : m.asked = [] ↔ m.phase ≠ .ended := by
  rw [asked]
  cases m.phase <;> simp

theorem asked_of_ended {m : Monitor ChannelRole} (h : m.phase = .ended) : m.asked = [.stop] := by
  rw [asked, h]

theorem Heard.halted {m : Monitor ChannelRole} {w : Wiring} {q : Engine} (h : m.Heard w q)
    (hended : m.phase = .ended) : q.halted = true := by
  rw [Heard, hended] at h
  exact h.1

end Monitor

namespace Console

variable {τ : Type} {c : Console ChannelRole τ} {w w' : Wiring} {m m' : Monitor ChannelRole}

-- The request to stop is on the control channel until the console takes it, and then nothing is put out
-- any more. A console that is about to take something will find it.
def Obeys (c : Console ChannelRole τ) (w : Wiring) (m : Monitor ChannelRole) : Prop :=
  match c.phase with
  | .selecting call => w.control.items = m.asked ∧ w.Holding call.phase.found
  | .taking ready => w.control.items = m.asked ∧ w.engine.output.items ≠ [] ∧
      (ready = true → w.control.items ≠ [])
  | .emitting _ ready => w.control.items = m.asked ∧ (ready = true → w.control.items ≠ [])
  | .obeying => w.control.items = m.asked ∧ w.control.items ≠ []
  | .draining => m.phase = .ended ∧ w.control.items = []
  | .writing _ _ => m.phase = .ended ∧ w.control.items = [] ∧ w.engine.output.items = []
  | .ended => c.error = none →
      m.phase = .ended ∧ w.control.items = [] ∧ w.engine.output.items = []

-- What others do leaves a console as it stands: they only add to the channels, and nothing behind the
-- request to stop.
theorem Obeys.mono (h : c.Obeys w m) {texts asks : List Item}
    (houtput : w'.engine.output.items = w.engine.output.items ++ texts)
    (hcontrol : w'.control.items = w.control.items ++ asks) (hasked : m'.asked = m.asked ++ asks)
    (hended : m.phase = .ended → m'.phase = .ended ∧ texts = [] ∧ asks = []) : c.Obeys w' m' := by
  have hsame : w.control.items = m.asked → w'.control.items = m'.asked := by
    intro hc
    rw [hcontrol, hasked, hc]
  have hstill : w.control.items ≠ [] → w'.control.items ≠ [] := by
    rw [hcontrol]
    exact fun hne hnil => hne (List.append_eq_nil_iff.mp hnil).1
  have hqueued : w.engine.output.items ≠ [] → w'.engine.output.items ≠ [] := by
    rw [houtput]
    exact fun hne hnil => hne (List.append_eq_nil_iff.mp hnil).1
  rw [Obeys] at h ⊢
  cases hphase : c.phase <;> rw [hphase] at h <;> simp only [] at h ⊢
  case selecting call =>
    refine ⟨hsame h.1, fun i hi hs => ?_⟩
    have hheld := h.2 i hi hs
    cases i with
    | output => exact hqueued hheld
    | status => exact absurd rfl hs
    | control => exact hstill hheld
  case taking ready => exact ⟨hsame h.1, hqueued h.2.1, fun hr => hstill (h.2.2 hr)⟩
  case emitting item ready => exact ⟨hsame h.1, fun hr => hstill (h.2 hr)⟩
  case obeying => exact ⟨hsame h.1, hstill h.2⟩
  case draining =>
    obtain ⟨hm, _, hasks⟩ := hended h.1
    exact ⟨hm, by rw [hcontrol, h.2, hasks]; rfl⟩
  case writing rest n =>
    obtain ⟨hm, htexts, hasks⟩ := hended h.1
    exact ⟨hm, by rw [hcontrol, h.2.1, hasks]; rfl, by rw [houtput, h.2.2, htexts]; rfl⟩
  case ended =>
    intro herror
    obtain ⟨hphase', hc, ho⟩ := h herror
    obtain ⟨hm, htexts, hasks⟩ := hended hphase'
    exact ⟨hm, by rw [hcontrol, hc, hasks]; rfl, by rw [houtput, ho, htexts]; rfl⟩

-- A console that listens anew has found nothing yet.
theorem Obeys.listen (hcontrol : w.control.items = m.asked) (c : Console ChannelRole τ) :
    c.listen.Obeys w m :=
  ⟨hcontrol, w.holding_nil⟩

theorem obeys_fail (c : Console ChannelRole τ) (x : Failure) (w : Wiring) (m : Monitor ChannelRole) :
    (c.fail x).Obeys w m := by
  intro herror
  simp [fail] at herror

theorem roles_failOrDrain (c : Console ChannelRole τ) (x : Failure) :
    (c.failOrDrain x).output = c.output ∧ (c.failOrDrain x).control = c.control := by
  rw [failOrDrain]
  split <;> exact ⟨rfl, rfl⟩

variable [TextSink τ] {sink : τ} {queued produced : List Item}

-- A console whose sink fails owes nothing any more, unless it takes the failure for the end of the output.
theorem Obeys.emit {next : Console ChannelRole τ → Console ChannelRole τ}
    {failed : Console ChannelRole τ → Failure → Console ChannelRole τ} {item : Item}
    (hnext : ∀ d : Console ChannelRole τ, (next d).Obeys w m)
    (hfailed : ∀ used x, TextSink.Fails c.sink item x used → (failed { c with sink := used } x).Obeys w m) :
    (c.emit item next failed).Obeys w m := by
  rw [Console.emit]
  split
  · exact hnext _
  · rename_i hemit
    exact hfailed _ _ (TextSink.fails_of_emitItem hemit)

theorem roles_emit {next : Console ChannelRole τ → Console ChannelRole τ}
    {failed : Console ChannelRole τ → Failure → Console ChannelRole τ}
    (hnext : ∀ d : Console ChannelRole τ, (next d).output = d.output ∧ (next d).control = d.control)
    (hfailed : ∀ (d : Console ChannelRole τ) (x : Failure),
      (failed d x).output = d.output ∧ (failed d x).control = d.control)
    (c : Console ChannelRole τ) (item : Item) :
    (c.emit item next failed).output = c.output ∧ (c.emit item next failed).control = c.control := by
  rw [Console.emit]
  split
  · exact hnext _
  · exact hfailed _ _

-- Every item that was put out has been given to the sink, is in hand, or is queued, in this order. Once the sink
-- has failed on one the rest is lost; none is lost before as long as the console waits for more.
inductive Accounts (c : Console ChannelRole τ) (sink : τ) (queued produced : List Item) : Prop where
  | whole {lost : Bool} {done : List Item}
      (hreceives : TextSink.Receives sink (fun _ => True) lost done c.transcript c.sink) (herror : c.error = none)
      (hproduced : produced = done ++ (c.phase.inHand ++ queued)) (hwaits : c.phase.waits = true → lost = false)
  | broken {lost : Bool} {done rest : List Item} {item : Item} {x : Failure} {used : τ}
      (hreceives : TextSink.Receives sink (fun _ => True) lost done c.transcript used) (herror : c.error = some x)
      (hphase : c.phase = .ended) (hproduced : produced = done ++ item :: rest)
      (hfails : TextSink.Fails used item x c.sink)

theorem Accounts.live (h : c.Accounts sink queued produced) (hphase : c.phase ≠ .ended) :
    ∃ lost done, TextSink.Receives sink (fun _ => True) lost done c.transcript c.sink ∧ c.error = none ∧
      produced = done ++ (c.phase.inHand ++ queued) ∧ (c.phase.waits = true → lost = false) := by
  cases h with
  | whole hreceives herror hproduced hwaits => exact ⟨_, _, hreceives, herror, hproduced, hwaits⟩
  | broken _ _ hended => exact absurd hended hphase

-- Items that are put out are queued first.
theorem Accounts.queue (h : c.Accounts sink queued produced) (texts : List Item) :
    c.Accounts sink (queued ++ texts) (produced ++ texts) := by
  cases h with
  | whole hreceives herror hproduced hwaits =>
      exact .whole hreceives herror (by rw [hproduced]; simp only [List.append_assoc]) hwaits
  | @broken _ done rest item _ _ hreceives herror hphase hproduced hfails =>
      have hmore : produced ++ texts = done ++ item :: (rest ++ texts) := by
        rw [hproduced, List.append_assoc, List.cons_append]
      exact .broken hreceives herror hphase hmore hfails

-- The console takes from the queue into its hand, or puts its hand down empty.
theorem Accounts.move (h : c.Accounts sink queued produced) (hphase : c.phase ≠ .ended)
    {d : Console ChannelRole τ} (hsame : d.sink = c.sink ∧ d.written = c.written ∧ d.error = c.error)
    {left : List Item} (hitems : d.phase.inHand ++ left = c.phase.inHand ++ queued)
    (hwaits : d.phase.waits = true → c.phase.waits = true) : d.Accounts sink left produced := by
  obtain ⟨lost, done, hreceives, herror, hproduced, hlost⟩ := h.live hphase
  obtain ⟨hsink, hwritten, herror'⟩ := hsame
  have htranscript : d.transcript = c.transcript := congrArg List.reverse hwritten
  refine .whole ?_ (herror'.trans herror) (by rw [hproduced, hitems]) fun hw => hlost (hwaits hw)
  rw [htranscript, hsink]
  exact hreceives

-- An item in hand is written, or it is the one the sink fails on.
theorem Accounts.emit (h : c.Accounts sink queued produced) (hphase : c.phase ≠ .ended) {item : Item}
    {rest : List Item} (hhand : c.phase.inHand = item :: rest)
    {next : Console ChannelRole τ → Console ChannelRole τ}
    {failed : Console ChannelRole τ → Failure → Console ChannelRole τ}
    (hnext : ∀ d : Console ChannelRole τ, (next d).phase.inHand = rest ∧ (next d).sink = d.sink ∧
      (next d).written = d.written ∧ (next d).error = d.error ∧
      ((next d).phase.waits = true → c.phase.waits = true))
    (hfailed : ∀ used x, TextSink.Fails c.sink item x used → failed { c with sink := used } x =
        fail { c with sink := used } x ∨
      x = .channel .empty ∧ c.phase.waits = true ∧ rest = [] ∧
        failed { c with sink := used } x = ({ c with sink := used } : Console ChannelRole τ).move .draining) :
    (c.emit item next failed).Accounts sink queued produced := by
  obtain ⟨lost, done, hreceives, herror, hproduced, hlost⟩ := h.live hphase
  rw [hhand, List.cons_append] at hproduced
  rw [Console.emit]
  split
  · rename_i used text hemit
    obtain ⟨u, rfl, htook⟩ := TextSink.took_of_emitItem hemit
    obtain ⟨hhand', hsink', hwritten', herror', hwaits'⟩ :=
      hnext { c with sink := used, written := text :: c.written }
    generalize next { c with sink := used, written := text :: c.written } = d at *
    have htranscript : d.transcript = c.transcript ++ [text] := by
      rw [transcript, hwritten', transcript, List.reverse_cons]
    have hused : d.sink = used := hsink'
    have htold := hreceives.took htook
    rw [← htranscript, ← hused] at htold
    refine .whole htold (herror'.trans herror) ?_ fun hw => hlost (hwaits' hw)
    rw [hhand', hproduced, List.append_assoc, List.singleton_append]
  · rename_i used x hemit
    have hfails := TextSink.fails_of_emitItem hemit
    rcases hfailed used x hfails with heq | ⟨rfl, hwaits, rfl, heq⟩ <;> rw [heq]
    · exact .broken hreceives rfl rfl hproduced hfails
    · obtain rfl := hlost hwaits
      refine .whole (hreceives.lost trivial hfails) herror ?_ (by simp [Console.move, ConsolePhase.waits])
      rw [hproduced, List.append_assoc]
      rfl

end Console

end WordMachine
