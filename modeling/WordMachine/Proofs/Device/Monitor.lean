import WordMachine.Device.Monitor
import WordMachine.Proofs.Channel
import WordMachine.Proofs.Device.Store

namespace WordMachine

-- The signal an item is, if it is one.
def Item.signal? : Item → Option HaltSignal
  | .halt signal => some signal
  | _ => none

namespace Monitor

-- What listening to a queue comes to: the items passed over, the signal behind them, and what is left.
inductive Hears : List Item → List Item → Option HaltSignal → List Item → Prop where
  | signal {passed left : List Item} {signal : HaltSignal} (h : ∀ x ∈ passed, x.signal? = none) :
      Hears (passed ++ .halt signal :: left) passed (some signal) left
  | silence {passed : List Item} (h : ∀ x ∈ passed, x.signal? = none) : Hears passed passed none []

theorem Hears.cons {x : Item} {items passed left : List Item} {heard : Option HaltSignal}
    (hx : x.signal? = none) (h : Hears items passed heard left) :
    Hears (x :: items) (x :: passed) heard left := by
  cases h with
  | signal h => exact .signal (List.forall_mem_cons.mpr ⟨hx, h⟩)
  | silence h => exact .silence (List.forall_mem_cons.mpr ⟨hx, h⟩)

variable {σ ι : Type} [ChannelStore σ ι Item]

def fresh (status control : ι) : Monitor ι where
  status := status
  control := control

-- What a monitor listens to.
def news (s : σ) (m : Monitor ι) : Channel Item :=
  ChannelStore.channel s m.status

-- Where it asks the console to stop.
def requests (s : σ) (m : Monitor ι) : Channel Item :=
  ChannelStore.channel s m.control

-- What keeps a monitor from waiting.
def Informable (s : σ) (m : Monitor ι) : Prop :=
  (∃ x ∈ (m.news s).items, x.signal? ≠ none) ∨ (m.news s).closed = true

-- What is no signal can be passed over.
theorem Informable.passed {s s' : σ} {m : Monitor ι} (h : m.Informable s) {x : Item} {rest : List Item}
    (hitems : (m.news s).items = x :: rest) (hx : x.signal? = none) (hrest : (m.news s').items = rest)
    (hkept : (m.news s').closed = (m.news s).closed) : m.Informable s' := by
  rw [Informable, hitems] at h
  rw [Informable, hrest, hkept]
  refine h.imp_left ?_
  rintro ⟨y, hy, hsignal⟩
  rcases List.mem_cons.mp hy with rfl | hy
  · exact absurd hx hsignal
  · exact ⟨y, hy, hsignal⟩

-- So many actions lead from here to there.
def Leads (k : Nat) (s : σ) (m : Monitor ι) (s' : σ) (m' : Monitor ι) : Prop :=
  ∀ n, proceed (k + n) s m = proceed n s' m'

-- A monitor that has just stopped listening, and the channels it leaves.
structure Listened (s : σ) (m : Monitor ι) (s' : σ) (m' : Monitor ι) : Prop where
  hears : ∃ passed heard, Hears (m.news s).items passed heard (m.news s').items ∧
    m' = { m with phase := .stopping, signal := heard.or m.signal, ignored := m.ignored ++ passed }
  closed : (m.news s').closed = (m.news s).closed
  others : ∀ i, i ≠ m.status → (ChannelStore.channel s' i : Channel Item) = ChannelStore.channel s i

-- A monitor that has made its request to stop, and the channels it leaves.
structure Requested (s : σ) (m : Monitor ι) (s' : σ) (m' : Monitor ι) : Prop where
  monitor : ∃ error, m' = { m with phase := .ended, finished := true, error := error }
  taken : (m.requests s).closed = false →
    (m.requests s').items = (m.requests s).items ++ [.stop] ∧ m'.error = m.error
  refused : (m.requests s).closed = true →
    m.requests s' = m.requests s ∧ m'.error = some (.channel (.putOnClosed (m.requests s).name))
  others : ∀ i, i ≠ m.control → (ChannelStore.channel s' i : Channel Item) = ChannelStore.channel s i

section Actions

variable {s s' s'' : σ} {m m' m'' : Monitor ι} {k l : Nat}

theorem leads_of_step (h : step s m = some (s', m')) : Leads 1 s m s' m' := by
  intro n
  rw [Nat.add_comm, proceed, h]

theorem Leads.trans (h : Leads k s m s' m') (h' : Leads l s' m' s'' m'') : Leads (k + l) s m s'' m'' := by
  intro n
  rw [Nat.add_assoc, h, h']

theorem proceed_of_ended (hphase : m.phase = .ended) (n : Nat) : proceed n s m = (s, m) := by
  cases n with
  | zero => rfl
  | succ n => simp only [proceed, step, hphase]

-- A monitor is granted as many actions as it can take.
theorem resume_of_leads (hlead : Leads k s m s' m') (hk : k ≤ (m.news s).items.length + 2)
    (hended : m'.phase = .ended) : resume s m = (s', m') := by
  obtain ⟨n, hn⟩ := Nat.exists_eq_add_of_le hk
  rw [resume, ← news, ← Channel.length_items, hn, hlead, proceed_of_ended hended]

section Listening

variable (hphase : m.phase = .listening)

include hphase

theorem step_of_pop {item : Item} {c : Channel Item} (hpop : (m.news s).pop? = some (item, c)) :
    step s m = some (ChannelStore.update s m.status fun _ => c,
      match item.signal? with
      | some signal => { m with phase := .stopping, signal := some signal }
      | none => { m with ignored := m.ignored ++ [item] }) := by
  have htake : (ChannelStore.channel s m.status : Channel Item).take? = some (.ok (item, c)) := by
    rw [news] at hpop
    rw [Channel.take?, hpop]
  simp only [step, hphase, htake]
  cases item <;> rfl

theorem step_of_exhausted (hitems : (m.news s).items = []) (hclosed : (m.news s).closed = true) :
    step s m = some (s, { m with phase := .stopping }) := by
  have htake : (ChannelStore.channel s m.status : Channel Item).take? =
      some (.error (.exhausted (m.news s).name)) := by
    rw [news] at hitems hclosed
    rw [Channel.take?, (Channel.pop?_eq_none_iff _).mpr hitems, hclosed]
    rfl
  simp only [step, hphase, htake]

end Listening

variable [LawfulChannelStore σ ι Item]

-- Taking an item is seen on the status channel and nowhere else.
theorem news_of_pop {item : Item} {c : Channel Item} (hpop : (m.news s).pop? = some (item, c)) :
    m.news (ChannelStore.update s m.status fun _ => c) = c ∧ ∀ i, i ≠ m.status →
      (ChannelStore.channel (ChannelStore.update s m.status fun _ => c) i : Channel Item) =
        ChannelStore.channel s i := by
  have hname : ∀ d : Channel Item, d.name = (m.news s).name → c.name = d.name := by
    obtain ⟨front, back, rfl⟩ := Channel.exists_of_pop hpop
    exact fun d hd => hd.symm
  exact ⟨LawfulChannelStore.channel_update_self s hname,
    fun i hi => LawfulChannelStore.channel_update_of_ne s hi hname⟩

-- By induction on the queue: each item is passed over, or it is the signal.
theorem exists_listened (hphase : m.phase = .listening) (hends : m.Informable s) :
    ∃ k s' m', k ≤ (m.news s).items.length + 1 ∧ Leads k s m s' m' ∧ Listened s m s' m' := by
  induction hitems : (m.news s).items generalizing s m with
  | nil =>
      have hclosed : (m.news s).closed = true := by
        rcases hends with ⟨x, hx, -⟩ | hclosed
        · simp [hitems] at hx
        · exact hclosed
      have hlead := leads_of_step (step_of_exhausted hphase hitems hclosed)
      refine ⟨1, s, _, Nat.le_refl _, hlead, ⟨[], none, ?_, ?_⟩, rfl, fun i _ => rfl⟩
      · rw [hitems]
        exact .silence (by simp)
      · simp
  | cons x rest ih =>
      obtain ⟨c, hpop, hrest, hclosed⟩ := Channel.exists_pop hitems
      obtain ⟨hnews, hothers⟩ := news_of_pop hpop
      have hkept : (m.news (ChannelStore.update s m.status fun _ => c)).closed = (m.news s).closed :=
        (congrArg Channel.closed hnews).trans hclosed
      have hlead := leads_of_step (step_of_pop hphase hpop)
      cases hx : x.signal? with
      | some signal =>
          obtain rfl : x = .halt signal := by
            cases x <;> simp_all [Item.signal?]
          refine ⟨1, _, _, by simp, hlead, ⟨[], some signal, ?_, ?_⟩, hkept, hothers⟩
          · rw [hnews, hitems, hrest]
            have hnone : ∀ x ∈ ([] : List Item), x.signal? = none := by simp
            exact .signal hnone
          · simp [Item.signal?]
      | none =>
          simp only [hx] at hlead
          have hrest' : (m.news (ChannelStore.update s m.status fun _ => c)).items = rest :=
            (congrArg Channel.items hnews).trans hrest
          have hends' := hends.passed hitems hx hrest' hkept
          obtain ⟨k, s', m', hk, hlead', ⟨passed, heard, hhears, hm'⟩, hkept', hothers'⟩ :=
            ih (m := { m with ignored := m.ignored ++ [x] }) hphase hends' hrest'
          refine ⟨1 + k, s', m', ?_, hlead.trans hlead', ⟨x :: passed, heard, ?_, ?_⟩,
            hkept'.trans hkept, fun i hi => (hothers' i hi).trans (hothers i hi)⟩
          · rw [List.length_cons]
            omega
          · have hcons : Hears (x :: (m.news (ChannelStore.update s m.status fun _ => c)).items)
                (x :: passed) heard (m.news s').items := hhears.cons hx
            rwa [hrest', ← hitems] at hcons
          · simp [hm']

theorem exists_requested (hphase : m.phase = .stopping) :
    ∃ s' m', Leads 1 s m s' m' ∧ Requested s m s' m' := by
  cases hclosed : (m.requests s).closed with
  | true =>
      have hput : ChannelStore.put s m.control .stop = .error (.putOnClosed (m.requests s).name) := by
        rw [requests] at hclosed
        rw [ChannelStore.put, Channel.put, if_pos hclosed]
        rfl
      have hstep : step s m = some (s, { m with
          phase := .ended, finished := true, error := some (.channel (.putOnClosed (m.requests s).name)) }) := by
        simp only [step, hphase, hput]
      exact ⟨s, _, leads_of_step hstep, ⟨_, rfl⟩, by simp [hclosed], fun _ => ⟨rfl, rfl⟩, fun _ _ => rfl⟩
  | false =>
      have hput : ChannelStore.put s m.control .stop = .ok (ChannelStore.setAll
          (ChannelStore.update s m.control fun _ => (m.requests s).pushed .stop) (m.requests s).watchers) := by
        rw [ChannelStore.put, ← requests, Channel.put_of_open hclosed]
        rfl
      have hstep : step s m = some (ChannelStore.setAll
          (ChannelStore.update s m.control fun _ => (m.requests s).pushed .stop) (m.requests s).watchers,
          { m with phase := .ended, finished := true }) := by
        simp only [step, hphase, hput]
      have hname : ∀ d : Channel Item, d.name = (m.requests s).name →
          ((m.requests s).pushed .stop).name = d.name := fun _ hd => hd.symm
      refine ⟨_, _, leads_of_step hstep, ⟨m.error, rfl⟩, fun _ => ⟨?_, rfl⟩, by simp [hclosed], fun i hi => ?_⟩
      · rw [requests, LawfulChannelStore.channel_setAll, LawfulChannelStore.channel_update_self s hname,
          Channel.items_pushed]
      · rw [LawfulChannelStore.channel_setAll, LawfulChannelStore.channel_update_of_ne s hi hname]

end Actions

-- What a run of a monitor leaves that had not run before.
structure Relayed (s : σ) (m : Monitor ι) (s' : σ) (m' : Monitor ι) : Prop where
  ended : m'.ended = true
  finished : m'.finished = true
  hears : Hears (m.news s).items m'.ignored m'.signal (m.news s').items
  kept : (m.news s').closed = (m.news s).closed
  taken : (m.requests s).closed = false →
    (m.requests s').items = (m.requests s).items ++ [.stop] ∧ m'.error = none
  refused : (m.requests s).closed = true →
    m.requests s' = m.requests s ∧ m'.error = some (.channel (.putOnClosed (m.requests s).name))
  others : ∀ i, i ≠ m.status → i ≠ m.control →
    (ChannelStore.channel s' i : Channel Item) = ChannelStore.channel s i

theorem halt_is_relayed_once [LawfulChannelStore σ ι Item] {s : σ} {status control : ι}
    (hapart : status ≠ control) (hends : (fresh status control).Informable s) :
    Relayed s (fresh status control) (run s (fresh status control)).1 (run s (fresh status control)).2 := by
  obtain ⟨k, s', m', hk, hlead, ⟨passed, heard, hhears, hm'⟩, hkept, hothers⟩ :=
    exists_listened (m := fresh status control) rfl hends
  obtain ⟨s'', m'', hlead', ⟨error, hm''⟩, htaken, hrefused, hothers'⟩ :=
    exists_requested (s := s') (m := m') (by rw [hm'])
  have hrun : run s (fresh status control) = (s'', m'') :=
    resume_of_leads (hlead.trans hlead') (Nat.succ_le_succ hk) (by rw [hm''])
  have hrequests : m'.requests s' = (fresh status control).requests s := by
    rw [requests, hm']
    exact hothers control hapart.symm
  have hasked : m'.requests s'' = (fresh status control).requests s'' := by rw [requests, hm']; rfl
  have hnews : (fresh status control).news s'' = (fresh status control).news s' :=
    hothers' status (by rw [hm']; exact hapart)
  rw [hrequests, hasked] at htaken hrefused
  have hnone : m'.error = none := by rw [hm']; rfl
  rw [hrun]
  exact {
    ended := by rw [ended, hm'']; rfl
    finished := by rw [hm'']
    hears := by
      rw [hnews, hm'', hm']
      simpa [fresh] using hhears
    kept := (congrArg Channel.closed hnews).trans hkept
    taken := fun hopen => ⟨(htaken hopen).1, (htaken hopen).2.trans hnone⟩
    refused := hrefused
    others := fun i hstatus hcontrol =>
      (hothers' i (by rw [hm']; exact hcontrol)).trans (hothers i hstatus) }

theorem halt_is_relayed_once_to_nobody :
    let s : Exchange := { channels := [
      { name := "status", front := [.text "a", .halt ⟨3, none⟩, .null, .halt ⟨4, none⟩] },
      { name := "control", closed := true }] }
    let m : Monitor String := fresh "status" "control"
    "status" ≠ "control" ∧ m.Informable s ∧ Relayed s m (run s m).1 (run s m).2 ∧
      (run s m).2.signal = some ⟨3, none⟩ ∧ ((run s m).1.channel "status").items = [.null, .halt ⟨4, none⟩] ∧
      (run s m).2.error = some (.channel (.putOnClosed "control")) := by
  intro s m
  have hapart : "status" ≠ "control" := by decide
  have hends : m.Informable s := .inl ⟨.halt ⟨3, none⟩, by decide, by decide⟩
  exact ⟨hapart, hends, halt_is_relayed_once hapart hends, by decide +kernel, by decide +kernel,
    by decide +kernel⟩

end Monitor

end WordMachine
