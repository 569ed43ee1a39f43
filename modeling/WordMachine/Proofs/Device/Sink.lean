import WordMachine.Device.Sink
import WordMachine.Proofs.Text.Escape

namespace WordMachine

namespace TextSink

variable {τ : Type} [TextSink τ] {s s' s'' : τ} {early : List Item → Prop} {lost : Bool} {item : Item}
  {items : List Item} {u text : String} {texts : List String} {x : Failure}

-- How a sink lets a text be written, by its own answers: as it is or, if the sink says that it cannot encode it,
-- in escapes.
inductive Renders (s : τ) (u : String) : String → τ → Prop where
  | plain {s' : τ} (h : write s u = (s', .ok ())) : Renders s u u s'
  | escaped {s' s'' : τ} (h : write s u = (s', .error .unencodable))
      (hagain : write s' (Text.asciiEscaped u) = (s'', .ok ())) : Renders s u (Text.asciiEscaped u) s''

-- A text has been taken once it is flushed.
def Took (s : τ) (u text : String) (s' : τ) : Prop :=
  ∃ used, Renders s u text used ∧ flush used = (s', .ok ())

-- Which of its answers makes a sink fail on an item.
inductive Fails (s : τ) : Item → Failure → τ → Prop where
  | refused {item : Item} {x : Failure} {s' : τ} (h : ∀ u, item ≠ .text u) (hrefuse : refuse s item = (s', x)) :
      Fails s item x s'
  | write {u : String} {x : Failure} {s' : τ} (h : write s u = (s', .error x)) (hx : x ≠ .unencodable) :
      Fails s (.text u) x s'
  | again {u : String} {x : Failure} {s' s'' : τ} (h : TextSink.write s u = (s', .error .unencodable))
      (hagain : TextSink.write s' (Text.asciiEscaped u) = (s'', .error x)) : Fails s (.text u) x s''
  | flush {u text : String} {x : Failure} {s' s'' : τ} (h : Renders s u text s')
      (hflush : flush s' = (s'', .error x)) : Fails s (.text u) x s''

-- What a sink has become by items that were written to it one after another, and the texts it has taken for them.
-- One item may have been lost, on which the sink said that a queue is empty while that was early enough.
inductive Receives (s : τ) (early : List Item → Prop) : Bool → List Item → List String → τ → Prop where
  | nil : Receives s early false [] [] s
  | took {lost : Bool} {items : List Item} {texts : List String} {u text : String} {s' s'' : τ}
      (h : Receives s early lost items texts s') (htook : Took s' u text s'') :
      Receives s early lost (items ++ [.text u]) (texts ++ [text]) s''
  | lost {items : List Item} {texts : List String} {item : Item} {s' s'' : τ}
      (h : Receives s early false items texts s') (hearly : early items)
      (hfails : Fails s' item (.channel .empty) s'') : Receives s early true (items ++ [item]) texts s''

-- What a sink becomes by being written to and flushed.
inductive Used (s : τ) : τ → Prop where
  | fresh : Used s s
  | wrote {s' : τ} (h : Used s s') (text : String) : Used s (write s' text).1
  | flushed {s' : τ} (h : Used s s') : Used s (flush s').1

-- A sink that never says that a queue is empty.
def NeverEmpty (s : τ) : Prop :=
  ∀ s', Used s s' →
    (∀ text, (write s' text).2 ≠ .error (.channel .empty)) ∧ (flush s').2 ≠ .error (.channel .empty)

-- A sink that never fails but for lack of bytes for a text beyond ASCII.
def OnlyUnencodable (s : τ) : Prop :=
  ∀ s', Used s s' →
    (∀ text x, (write s' text).2 = .error x →
      x = .unencodable ∧ ∃ c ∈ text.toList, ¬Text.IsAscii c) ∧
    (flush s').2 = .ok ()

theorem renders_of_writeRendered (h : writeRendered s u = (s', .ok text)) : Renders s u text s' := by
  rw [writeRendered] at h
  split at h
  · rename_i hw
    simp only [Prod.mk.injEq, Except.ok.injEq] at h
    obtain ⟨rfl, rfl⟩ := h
    exact .plain hw
  · rename_i hw
    split at h
    · rename_i hw'
      simp only [Prod.mk.injEq, Except.ok.injEq] at h
      obtain ⟨rfl, rfl⟩ := h
      exact .escaped hw hw'
    · simp at h
  · simp at h

theorem fails_of_writeRendered (h : writeRendered s u = (s', .error x)) : Fails s (.text u) x s' := by
  rw [writeRendered] at h
  split at h
  · simp at h
  · rename_i hw
    split at h
    · simp at h
    · rename_i hw'
      simp only [Prod.mk.injEq, Except.error.injEq] at h
      obtain ⟨rfl, rfl⟩ := h
      exact .again hw hw'
  · rename_i hx hw
    simp only [Prod.mk.injEq, Except.error.injEq] at h
    obtain ⟨rfl, rfl⟩ := h
    exact .write hw hx

theorem took_of_emitItem (h : emitItem s item = (s', .ok text)) : ∃ u, item = .text u ∧ Took s u text s' := by
  cases item with
  | text u =>
      refine ⟨u, rfl, ?_⟩
      rw [emitItem, emit] at h
      split at h
      · simp at h
      · rename_i used written hr
        split at h
        · rename_i hf
          simp only [Prod.mk.injEq, Except.ok.injEq] at h
          obtain ⟨rfl, rfl⟩ := h
          exact ⟨used, renders_of_writeRendered hr, hf⟩
        · simp at h
  | null | bool _ | int _ | real _ | halt _ | stop => simp [emitItem] at h

theorem fails_of_emitItem (h : emitItem s item = (s', .error x)) : Fails s item x s' := by
  cases item with
  | text u =>
      rw [emitItem, emit] at h
      split at h
      · rename_i hr
        simp only [Prod.mk.injEq, Except.error.injEq] at h
        obtain ⟨rfl, rfl⟩ := h
        exact fails_of_writeRendered hr
      · rename_i hr
        split at h
        · simp at h
        · rename_i hf
          simp only [Prod.mk.injEq, Except.error.injEq] at h
          obtain ⟨rfl, rfl⟩ := h
          exact .flush (renders_of_writeRendered hr) hf
  | null | bool _ | int _ | real _ | halt _ | stop =>
      simp only [emitItem, Prod.mk.injEq, Except.error.injEq] at h
      obtain ⟨rfl, rfl⟩ := h
      exact .refused (by simp) rfl

theorem Used.write (h : Used s s') {r : Except Failure Unit} (hw : write s' u = (s'', r)) : Used s s'' := by
  have hused := h.wrote u
  rwa [hw] at hused

theorem Used.flush (h : Used s s') {r : Except Failure Unit} (hf : flush s' = (s'', r)) : Used s s'' := by
  have hused := h.flushed
  rwa [hf] at hused

theorem Used.renders (h : Used s s') (hr : Renders s' u text s'') : Used s s'' := by
  cases hr with
  | plain hw => exact h.write hw
  | escaped hw hagain => exact (h.write hw).write hagain

theorem Used.took (h : Used s s') (ht : Took s' u text s'') : Used s s'' := by
  obtain ⟨used, hr, hf⟩ := ht
  exact (h.renders hr).flush hf

theorem Used.fails (h : Used s s') (hfails : Fails s' (.text u) x s'') : Used s s'' := by
  cases hfails with
  | refused hne _ => exact absurd rfl (hne u)
  | write hw _ => exact h.write hw
  | again hw hagain => exact (h.write hw).write hagain
  | flush hr hf => exact (h.renders hr).flush hf

theorem Receives.used (h : Receives s early lost items texts s') (htexts : ∀ i ∈ items, ∃ u, i = .text u) :
    Used s s' := by
  induction h with
  | nil => exact .fresh
  | took _ htook ih => exact (ih fun i hi => htexts i (List.mem_append_left _ hi)).took htook
  | @lost items _ item _ _ _ _ hfails ih =>
      obtain ⟨u, rfl⟩ := htexts item (by simp)
      exact (ih fun i hi => htexts i (List.mem_append_left _ hi)).fails hfails

theorem NeverEmpty.not_fails (h : NeverEmpty s) (hused : Used s s') :
    ¬Fails s' (.text u) (.channel .empty) s'' := by
  intro hfails
  cases hfails with
  | refused hne _ => exact hne u rfl
  | write hw _ => exact (h s' hused).1 u (congrArg Prod.snd hw)
  | again hw hagain => exact (h _ (hused.write hw)).1 _ (congrArg Prod.snd hagain)
  | flush hr hf => exact (h _ (hused.renders hr)).2 (congrArg Prod.snd hf)

theorem Receives.lost_eq_false (h : Receives s early lost items texts s') (hsink : NeverEmpty s)
    (htexts : ∀ i ∈ items, ∃ u, i = .text u) : lost = false := by
  induction h with
  | nil => rfl
  | took _ _ ih => exact ih fun i hi => htexts i (List.mem_append_left _ hi)
  | @lost _ _ item _ _ h _ hfails _ =>
      obtain ⟨u, rfl⟩ := htexts item (by simp)
      have hused := h.used fun i hi => htexts i (List.mem_append_left _ hi)
      exact absurd hfails (hsink.not_fails hused)

-- Nothing in an escaped text is beyond ASCII, so a second try is never refused.
theorem OnlyUnencodable.not_fails (h : OnlyUnencodable s) (hused : Used s s') : ¬Fails s' (.text u) x s'' := by
  intro hfails
  cases hfails with
  | refused hne _ => exact hne u rfl
  | write hw hx => exact hx ((h s' hused).1 u x (congrArg Prod.snd hw)).1
  | again hw hagain =>
      obtain ⟨-, c, hc, hn⟩ := (h _ (hused.write hw)).1 _ x (congrArg Prod.snd hagain)
      exact hn (Text.isAscii_asciiEscaped u c hc)
  | flush hr hf =>
      have hflush := (h _ (hused.renders hr)).2
      rw [hf] at hflush
      simp at hflush

theorem OnlyUnencodable.neverEmpty (h : OnlyUnencodable s) : NeverEmpty s := by
  intro s' hused
  refine ⟨fun text hw => ?_, fun hf => ?_⟩
  · have hx := ((h s' hused).1 text _ hw).1
    simp at hx
  · rw [(h s' hused).2] at hf
    simp at hf

end TextSink

namespace Sink

theorem accepts_ascii (e : Encoding) {c : Char} (h : Text.IsAscii c) : e.accepts c = true := by
  rw [Text.IsAscii] at h
  cases e with
  | plain => rfl
  | ascii => simp [Encoding.accepts, h]
  | latin1 =>
      have hlt : c.toNat < 256 := by omega
      simp [Encoding.accepts, hlt]
  | utf8 => rfl

theorem settings_write (s : Sink) (text : String) :
    (s.write text).1.failWrite = s.failWrite ∧ (s.write text).1.failFlush = s.failFlush := by
  rw [write]
  split
  · exact ⟨rfl, rfl⟩
  · split <;> exact ⟨rfl, rfl⟩

theorem settings_flush (s : Sink) :
    s.flush.1.failWrite = s.failWrite ∧ s.flush.1.failFlush = s.failFlush := by
  rw [flush]
  split <;> exact ⟨rfl, rfl⟩

theorem settings_of_used {s s' : Sink} (h : TextSink.Used s s') :
    s'.failWrite = s.failWrite ∧ s'.failFlush = s.failFlush := by
  induction h with
  | fresh => exact ⟨rfl, rfl⟩
  | @wrote s' _ text ih =>
      have hkept := s'.settings_write text
      exact ⟨hkept.1.trans ih.1, hkept.2.trans ih.2⟩
  | @flushed s' _ ih =>
      have hkept := s'.settings_flush
      exact ⟨hkept.1.trans ih.1, hkept.2.trans ih.2⟩

-- A sink of this library that is set to break nowhere takes every text.
theorem onlyUnencodable {s : Sink} (hw : s.failWrite = none) (hf : s.failFlush = none) :
    TextSink.OnlyUnencodable s := by
  intro s' hused
  obtain ⟨hw', hf'⟩ := settings_of_used hused
  rw [hw] at hw'
  rw [hf] at hf'
  constructor
  · intro text x hx
    simp only [TextSink.write, write, hw', reduceCtorEq, if_false] at hx
    split at hx
    · simp at hx
    · rename_i hencodes
      simp only [Except.error.injEq] at hx
      refine ⟨hx.symm, ?_⟩
      by_contra hascii
      apply hencodes
      rw [encodes, List.all_eq_true]
      intro c hc
      exact accepts_ascii _ (by_contra fun hn => hascii ⟨c, hc, hn⟩)
  · simp [TextSink.flush, flush, hf']

-- A sink that breaks nowhere and has bytes for every character.
structure Whole (s : Sink) : Prop where
  accepts : ∀ c, s.encoding.accepts c = true
  failWrite : s.failWrite = none
  failFlush : s.failFlush = none

-- What such a sink has been given stands in it, one text behind the other.
theorem Whole.receives {s s' : Sink} (h : s.Whole) {early : List Item → Prop} {lost : Bool} {items : List Item}
    {texts : List String} (hreceives : TextSink.Receives s early lost items texts s')
    (htexts : ∀ i ∈ items, ∃ u, i = .text u) :
    s'.Whole ∧ s'.text = s.text ++ String.join texts ∧ items = texts.map .text := by
  have hnever := (onlyUnencodable h.failWrite h.failFlush).neverEmpty
  obtain rfl := hreceives.lost_eq_false hnever htexts
  generalize hlost : false = lost at hreceives
  induction hreceives with
  | nil => exact ⟨h, by simp, rfl⟩
  | @took _ _ _ u text s' s'' _ htook ih =>
      obtain ⟨hwhole, htext, hitems⟩ := ih (fun i hi => htexts i (List.mem_append_left _ hi)) hlost
      have hencodes : s'.encodes u = true := List.all_eq_true.mpr fun c _ => hwhole.accepts c
      have hwrite : TextSink.write s' u = ({ s' with text := s'.text ++ u, writes := s'.writes + 1 }, .ok ()) := by
        simp [TextSink.write, write, hwhole.failWrite, hencodes]
      obtain ⟨used, hrenders, hflush⟩ := htook
      cases hrenders with
      | plain hw =>
          obtain ⟨rfl, -⟩ := Prod.mk.inj (hwrite.symm.trans hw)
          simp only [TextSink.flush, flush, hwhole.failFlush, reduceCtorEq, if_false, Prod.mk.injEq, and_true]
            at hflush
          subst hflush
          refine ⟨⟨hwhole.accepts, hwhole.failWrite, rfl⟩, ?_, by simp [hitems]⟩
          simp [htext, String.append_assoc]
      | escaped hw _ => simp [hwrite] at hw
  | lost _ _ _ _ => simp at hlost

-- The writes that a text takes.
def tries (s : Sink) (text : String) : Nat :=
  if s.encodes text then 1 else 2

-- The sink with so many texts behind those it has.
def after (s : Sink) (texts : List String) : Sink :=
  { s with
    text := s.text ++ String.join (texts.map s.rendered)
    writes := s.writes + (texts.map s.tries).sum
    flushes := s.flushes + texts.length }

-- The call that is set to break, if any, is none of so many more calls.
def Spares (broken : Option Int) (calls more : Nat) : Prop :=
  ∀ n, broken = some n → n ≤ calls ∨ ↑(calls + more) < n

def WritesThrough (s : Sink) (texts : List String) : Prop :=
  Spares s.failWrite s.writes (texts.map s.tries).sum

-- Each text is flushed once.
def FlushesThrough (s : Sink) (texts : List String) : Prop :=
  Spares s.failFlush s.flushes texts.length

structure Endures (s : Sink) (texts : List String) : Prop where
  writes : s.WritesThrough texts
  flushes : s.FlushesThrough texts

theorem spares_zero (broken : Option Int) (calls : Nat) : Spares broken calls 0 := by
  intro n _
  omega

theorem spares_one {broken : Option Int} {calls : Nat} :
    Spares broken calls 1 ↔ broken ≠ some ↑(calls + 1) := by
  rw [Spares]
  cases broken with
  | none => simp
  | some n =>
      simp only [Option.some.injEq, forall_eq', ne_eq]
      omega

theorem spares_add {broken : Option Int} {calls more most : Nat} :
    Spares broken calls (more + most) ↔ Spares broken calls more ∧ Spares broken (calls + more) most := by
  rw [Spares, Spares, Spares]
  cases broken with
  | none => simp
  | some n =>
      simp only [Option.some.injEq, forall_eq']
      omega

section Breaking

variable {s : Sink} {text : String} {texts more : List String}

theorem after_append (s : Sink) (texts more : List String) :
    s.after (texts ++ more) = (s.after texts).after more := by
  have hrendered : (s.after texts).rendered = s.rendered := rfl
  have htries : (s.after texts).tries = s.tries := rfl
  rw [after, after, hrendered, htries]
  simp [after, String.append_assoc, Nat.add_assoc]

theorem writesThrough_append :
    s.WritesThrough (texts ++ more) ↔ s.WritesThrough texts ∧ (s.after texts).WritesThrough more := by
  rw [WritesThrough, List.map_append, List.sum_append, spares_add]
  rfl

theorem flushesThrough_append :
    s.FlushesThrough (texts ++ more) ↔ s.FlushesThrough texts ∧ (s.after texts).FlushesThrough more := by
  rw [FlushesThrough, List.length_append, spares_add]
  rfl

theorem endures_nil (s : Sink) : s.Endures [] :=
  ⟨spares_zero _ _, spares_zero _ _⟩

theorem endures_append : s.Endures (texts ++ more) ↔ s.Endures texts ∧ (s.after texts).Endures more := by
  constructor
  · intro h
    obtain ⟨hw, hw'⟩ := writesThrough_append.mp h.writes
    obtain ⟨hf, hf'⟩ := flushesThrough_append.mp h.flushes
    exact ⟨⟨hw, hf⟩, ⟨hw', hf'⟩⟩
  · intro h
    exact ⟨writesThrough_append.mpr ⟨h.1.writes, h.2.writes⟩,
      flushesThrough_append.mpr ⟨h.1.flushes, h.2.flushes⟩⟩

theorem encodes_asciiEscaped (s : Sink) (text : String) : s.encodes (Text.asciiEscaped text) = true :=
  List.all_eq_true.mpr fun c hc => accepts_ascii s.encoding (Text.isAscii_asciiEscaped text c hc)

theorem write_of_ne (h : s.failWrite ≠ some ↑(s.writes + 1)) (text : String) :
    TextSink.write s text =
      if s.encodes text then ({ s with text := s.text ++ text, writes := s.writes + 1 }, .ok ())
      else ({ s with writes := s.writes + 1 }, .error .unencodable) := by
  simp only [TextSink.write, write, if_neg h]

theorem write_of_eq (h : s.failWrite = some ↑(s.writes + 1)) (text : String) :
    TextSink.write s text = ({ s with writes := s.writes + 1 }, .error s.writeFailure) := by
  simp only [TextSink.write, write, if_pos h]

theorem writesThrough_singleton : s.WritesThrough [text] ↔
    s.failWrite ≠ some ↑(s.writes + 1) ∧ (s.encodes text = false → s.failWrite ≠ some ↑(s.writes + 2)) := by
  rw [WritesThrough, List.map_singleton, List.sum_singleton, tries]
  cases s.encodes text with
  | true => simp only [if_true, spares_one, reduceCtorEq, false_implies, and_true]
  | false =>
      change Spares s.failWrite s.writes (1 + 1) ↔ _
      simp only [spares_add, spares_one, true_implies]

theorem renders_eq (hx : s.writeFailure ≠ .unencodable) {written : String} {s' : Sink}
    (h : TextSink.Renders s text written s') :
    s.WritesThrough [text] ∧ written = s.rendered text ∧
      s' = { s with text := s.text ++ s.rendered text, writes := s.writes + s.tries text } := by
  have hfirst : s.failWrite ≠ some ↑(s.writes + 1) := by
    intro hbroken
    cases h with
    | plain hw => simp [write_of_eq hbroken] at hw
    | escaped hw _ =>
        rw [write_of_eq hbroken] at hw
        exact hx (Except.error.inj (congrArg Prod.snd hw))
  rw [writesThrough_singleton, rendered, tries]
  cases h with
  | plain hw =>
      rw [write_of_ne hfirst] at hw
      split at hw
      · rename_i hencodes
        obtain ⟨rfl, -⟩ := Prod.mk.inj hw
        rw [if_pos hencodes, if_pos hencodes]
        exact ⟨⟨hfirst, by simp [hencodes]⟩, rfl, rfl⟩
      · simp at hw
  | escaped hw hagain =>
      rw [write_of_ne hfirst] at hw
      split at hw
      · simp at hw
      · rename_i hencodes
        obtain ⟨rfl, -⟩ := Prod.mk.inj hw
        have hsecond : s.failWrite ≠ some ↑(s.writes + 2) := by
          intro hbroken
          rw [write_of_eq (s := { s with writes := s.writes + 1 }) hbroken] at hagain
          simp at hagain
        rw [write_of_ne (s := { s with writes := s.writes + 1 }) hsecond,
          if_pos (encodes_asciiEscaped _ text)] at hagain
        obtain ⟨rfl, -⟩ := Prod.mk.inj hagain
        rw [if_neg hencodes, if_neg hencodes]
        exact ⟨⟨hfirst, fun _ => hsecond⟩, rfl, rfl⟩

theorem took_eq (hx : s.writeFailure ≠ .unencodable) {written : String} {s' : Sink}
    (h : TextSink.Took s text written s') :
    s.Endures [text] ∧ written = s.rendered text ∧ s' = s.after [text] := by
  obtain ⟨used, hrenders, hflush⟩ := h
  obtain ⟨hwrites, rfl, rfl⟩ := renders_eq hx hrenders
  simp only [TextSink.flush, flush] at hflush
  split at hflush
  · simp at hflush
  · rename_i hne
    obtain ⟨rfl, -⟩ := Prod.mk.inj hflush
    exact ⟨⟨hwrites, spares_one.mpr hne⟩, rfl, by simp [after]⟩

-- How a sink breaks on a text: at a write, which leaves nothing of it, or at the flush behind the writes.
inductive Breaks (s : Sink) (text : String) : Failure → Sink → Prop where
  | write {s' : Sink} (h : ¬s.WritesThrough [text]) (htext : s'.text = s.text) : Breaks s text s.writeFailure s'
  | flush (h : s.WritesThrough [text]) (hflush : ¬s.FlushesThrough [text]) :
      Breaks s text s.flushFailure (s.after [text])

theorem Breaks.not_endures {x : Failure} {s' : Sink} (h : s.Breaks text x s') : ¬s.Endures [text] := by
  intro hendures
  cases h with
  | write h _ => exact h hendures.writes
  | flush _ hflush => exact hflush hendures.flushes

theorem breaks_of_fails (hx : s.writeFailure ≠ .unencodable) {x : Failure} {s' : Sink}
    (h : TextSink.Fails s (.text text) x s') : s.Breaks text x s' := by
  cases h with
  | refused hne _ => exact absurd rfl (hne text)
  | write hw hne =>
      by_cases hbroken : s.failWrite = some ↑(s.writes + 1)
      · rw [write_of_eq hbroken] at hw
        obtain ⟨rfl, hfailure⟩ := Prod.mk.inj hw
        obtain rfl := Except.error.inj hfailure
        exact .write (fun hthrough => (writesThrough_singleton.mp hthrough).1 hbroken) rfl
      · rw [write_of_ne hbroken] at hw
        split at hw
        · simp at hw
        · exact absurd (Except.error.inj (congrArg Prod.snd hw)).symm hne
  | again hw hagain =>
      have hfirst : s.failWrite ≠ some ↑(s.writes + 1) := by
        intro hbroken
        rw [write_of_eq hbroken] at hw
        exact hx (Except.error.inj (congrArg Prod.snd hw))
      rw [write_of_ne hfirst] at hw
      split at hw
      · simp at hw
      · rename_i hencodes
        obtain ⟨rfl, -⟩ := Prod.mk.inj hw
        by_cases hbroken : s.failWrite = some ↑(s.writes + 2)
        · rw [write_of_eq (s := { s with writes := s.writes + 1 }) hbroken] at hagain
          obtain ⟨rfl, hfailure⟩ := Prod.mk.inj hagain
          obtain rfl := Except.error.inj hfailure
          refine .write (fun hthrough => ?_) rfl
          exact (writesThrough_singleton.mp hthrough).2 (by simpa using hencodes) hbroken
        · rw [write_of_ne (s := { s with writes := s.writes + 1 }) hbroken,
            if_pos (encodes_asciiEscaped _ text)] at hagain
          simp at hagain
  | flush hrenders hflush =>
      obtain ⟨hwrites, -, rfl⟩ := renders_eq hx hrenders
      simp only [TextSink.flush, Sink.flush] at hflush
      split at hflush
      · rename_i hbroken
        obtain ⟨rfl, hfailure⟩ := Prod.mk.inj hflush
        obtain rfl := Except.error.inj hfailure
        have hbreaks := Breaks.flush hwrites fun hthrough => spares_one.mp hthrough hbroken
        simpa [after] using hbreaks
      · simp at hflush

theorem prefix_of_endures {before after done : List String} {x : String} (htexts : texts = before ++ x :: after)
    (hbreak : ¬ s.Endures (before ++ [x])) (hdone : done <+: texts) (h : s.Endures done) : done <+: before := by
  have hfirst : before ++ [x] <+: texts := ⟨after, by rw [htexts, List.append_assoc]; rfl⟩
  rcases List.prefix_or_prefix_of_prefix hdone hfirst with hle | ⟨more, rfl⟩
  · rcases List.prefix_concat_iff.mp hle with rfl | hle
    · exact absurd h hbreak
    · exact hle
  · exact absurd (endures_append.mp h).1 hbreak

-- The first text on which the sink breaks.
structure BreaksAt (s : Sink) (texts before : List String) (x : String) : Prop where
  split : ∃ after, texts = before ++ x :: after
  endures : s.Endures before
  breaks : ¬ s.Endures (before ++ [x])

theorem BreaksAt.unique {before before' : List String} {x x' : String} (h : s.BreaksAt texts before x)
    (h' : s.BreaksAt texts before' x') : before' = before ∧ x' = x := by
  obtain ⟨after, htexts⟩ := h.split
  obtain ⟨after', htexts'⟩ := h'.split
  have hle := prefix_of_endures htexts h.breaks ⟨_, htexts'.symm⟩ h'.endures
  have hge := prefix_of_endures htexts' h'.breaks ⟨_, htexts.symm⟩ h.endures
  have heq : before' = before := hle.eq_of_length (Nat.le_antisymm hle.length_le hge.length_le)
  have hrest : before ++ x' :: after' = before ++ x :: after := by
    rw [← htexts, htexts', heq]
  exact ⟨heq, (List.cons.inj (List.append_cancel_left hrest)).1⟩

theorem BreaksAt.not_endures {before : List String} {x : String} (h : s.BreaksAt texts before x) :
    ¬ s.Endures texts := by
  obtain ⟨after, htexts⟩ := h.split
  rw [← List.singleton_append, ← List.append_assoc] at htexts
  intro hendures
  rw [htexts] at hendures
  exact h.breaks (endures_append.mp hendures).1

theorem BreaksAt.append {before : List String} {x : String} (h : s.BreaksAt texts before x) (more : List String) :
    s.BreaksAt (texts ++ more) before x := by
  obtain ⟨⟨after, rfl⟩, hendures, hbreaks⟩ := h
  exact ⟨⟨after ++ more, by simp⟩, hendures, hbreaks⟩

theorem Breaks.of_not_writesThrough {before : List String} {x : Failure} {s' : Sink}
    (h : (s.after before).Breaks text x s') (hendures : s.Endures before)
    (hwrites : ¬s.WritesThrough (before ++ [text])) :
    x = s.writeFailure ∧ s'.text = s.text ++ String.join (before.map s.rendered) := by
  cases h with
  | write _ htext => exact ⟨rfl, htext⟩
  | flush hthrough _ => exact absurd (writesThrough_append.mpr ⟨hendures.writes, hthrough⟩) hwrites

theorem Breaks.of_writesThrough {before : List String} {x : Failure} {s' : Sink}
    (h : (s.after before).Breaks text x s') (hwrites : s.WritesThrough (before ++ [text])) :
    x = s.flushFailure ∧ s' = s.after (before ++ [text]) := by
  cases h with
  | write hbroken _ => exact absurd (writesThrough_append.mp hwrites).2 hbroken
  | flush _ _ => exact ⟨rfl, (after_append s before [text]).symm⟩

variable {early : List Item → Prop} {items : List Item} {written : List String} {s' : Sink}

-- What a sink has made of texts that it was given, if it has lost none.
theorem after_of_receives (hx : s.writeFailure ≠ .unencodable)
    (h : TextSink.Receives s early false items written s') (hitems : items = texts.map .text) :
    s.Endures texts ∧ s' = s.after texts ∧ written = texts.map s.rendered := by
  generalize hlost : false = lost at h
  induction h generalizing texts with
  | nil =>
      obtain rfl := List.map_eq_nil_iff.mp hitems.symm
      exact ⟨s.endures_nil, by simp [after], rfl⟩
  | @took _ items written u text s' s'' _ htook ih =>
      obtain ⟨before, last, rfl, hbefore, hlast⟩ := List.map_eq_append_iff.mp hitems.symm
      obtain ⟨hendures, rfl, rfl⟩ := ih hbefore.symm hlost
      obtain ⟨u', rest, rfl, hu, hrest⟩ := List.map_eq_cons_iff.mp hlast
      obtain rfl := List.map_eq_nil_iff.mp hrest
      obtain rfl := Item.text.inj hu
      obtain ⟨hnext, rfl, rfl⟩ := took_eq (s := s.after before) hx htook
      exact ⟨endures_append.mpr ⟨hendures, hnext⟩, (after_append _ _ _).symm, by simp; rfl⟩
  | lost _ _ _ _ => simp at hlost

theorem breaksAt_of_breaks {before after : List String} {x : String} {f : Failure} (h : s.Endures before)
    (hbreaks : (s.after before).Breaks x f s') : s.BreaksAt (before ++ x :: after) before x :=
  ⟨⟨after, rfl⟩, h, fun hall => hbreaks.not_endures (endures_append.mp hall).2⟩

-- The text that was lost is the first one on which the sink breaks.
theorem breaks_of_lost (hx : s.writeFailure ≠ .unencodable)
    (h : TextSink.Receives s early true items written s') (hitems : items = texts.map .text) :
    ∃ before x s₁, s.BreaksAt texts before x ∧ (s.after before).Breaks x (.channel .empty) s₁ := by
  generalize hlost : true = lost at h
  induction h generalizing texts with
  | nil => simp at hlost
  | @took _ items _ u _ _ _ _ _ ih =>
      obtain ⟨front, last, rfl, hfront, hlast⟩ := List.map_eq_append_iff.mp hitems.symm
      obtain ⟨before, x, s₁, hbreak, hfails⟩ := ih hfront.symm hlost
      exact ⟨before, x, s₁, hbreak.append _, hfails⟩
  | @lost items written item s' s'' h _ hfails _ =>
      obtain ⟨before, last, rfl, hbefore, hlast⟩ := List.map_eq_append_iff.mp hitems.symm
      obtain ⟨x, rest, rfl, rfl, -⟩ := List.map_eq_cons_iff.mp hlast
      obtain ⟨hendures, rfl, -⟩ := after_of_receives hx h hbefore.symm
      have hbreaks := breaks_of_fails (s := s.after before) hx hfails
      exact ⟨before, x, s'', breaksAt_of_breaks hendures hbreaks, hbreaks⟩

end Breaking

end Sink

end WordMachine
