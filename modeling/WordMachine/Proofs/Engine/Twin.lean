import WordMachine.Proofs.Engine.Effect
import WordMachine.Proofs.Engine.Path

namespace WordMachine.Engine

-- The halt signal, where it is still to be sent.
def said (e : Engine) : List Item :=
  if e.signalled then [] else [.halt e.haltSignal]

-- What the next cycle sends on the output channel.
def uttered (e : Engine) : List Item :=
  e.processor.change.sent.toList.map fun c => .text (String.singleton c)

@[simp]
theorem items_announced (e : Engine) : e.announced.status.items = e.status.items ++ e.said := by
  rw [announced, said]
  split
  · rw [List.append_nil]
  · exact Channel.items_pushed _ _

theorem items_outputNext (e : Engine) : e.outputNext.items = e.output.items ++ e.uttered := by
  rw [outputNext, uttered]
  cases e.processor.change.sent with
  | none => simp
  | some c => simp [Channel.items_pushed]

-- Engines that differ in nothing but what their open channels hold.
structure Twins (e q : Engine) : Prop where
  processor : e.processor = q.processor
  fault : e.fault = q.fault
  signalled : e.signalled = q.signalled
  left : e.Open
  right : q.Open

-- Twins that went on together, each sending the same.
structure Together (e q e' q' : Engine) (texts signals : List Item) : Prop where
  twins : e'.Twins q'
  output : e'.output.items = e.output.items ++ texts
  status : e'.status.items = e.status.items ++ signals
  output_right : q'.output.items = q.output.items ++ texts
  status_right : q'.status.items = q.status.items ++ signals

variable {e q : Engine}

theorem Twins.halted_eq (h : e.Twins q) : e.halted = q.halted := by
  rw [halted, halted, h.processor]

theorem Twins.said_eq (h : e.Twins q) : e.said = q.said := by
  rw [said, said, haltSignal, haltSignal, h.signalled, h.processor, h.fault]

theorem Twins.together_refl (h : e.Twins q) : Together e q e q [] [] where
  twins := h
  output := (List.append_nil _).symm
  status := (List.append_nil _).symm
  output_right := (List.append_nil _).symm
  status_right := (List.append_nil _).symm

theorem Twins.announced (h : e.Twins q) : Together e q e.announced q.announced [] e.said where
  twins :=
    { processor := by simp [h.processor]
      fault := by simp [h.fault]
      signalled := by simp
      left := ⟨by simpa using h.left.1, by simpa using h.left.2⟩
      right := ⟨by simpa using h.right.1, by simpa using h.right.2⟩ }
  output := by simp
  status := items_announced e
  output_right := by simp
  status_right := by simp [h.said_eq]

theorem Twins.stopped (h : e.Twins q) : e.stopped.Twins q.stopped where
  processor := congrArg Processor.stopped h.processor
  fault := h.fault
  signalled := h.signalled
  left := h.left
  right := h.right

-- Halting sends nothing but the signal, which then carries the fault.
theorem Twins.halting (h : e.Twins q) (f : Fault) :
    ∃ signals, Together e q (e.halting f) (q.halting f) [] signals := by
  have hset : ({ e with fault := some f }.setHalt).Twins { q with fault := some f }.setHalt :=
    { processor := congrArg (fun p : Processor => { p with flags := p.flags.setHalt }) h.processor
      fault := rfl
      signalled := h.signalled
      left := h.left
      right := h.right }
  have hannounced := hset.announced
  exact ⟨_, ⟨hannounced.twins, hannounced.output, hannounced.status, hannounced.output_right,
    hannounced.status_right⟩⟩

theorem Twins.moved (h : e.Twins q) : Together e q e.moved q.moved e.uttered [] where
  twins :=
    { processor := congrArg Processor.next h.processor
      fault := h.fault
      signalled := h.signalled
      left := ⟨(closed_outputNext e).trans h.left.1, h.left.2⟩
      right := ⟨(closed_outputNext q).trans h.right.1, h.right.2⟩ }
  output := items_outputNext e
  status := (List.append_nil _).symm
  output_right := by
    have hsame : e.uttered = q.uttered := by rw [uttered, uttered, h.processor]
    rw [hsame]
    exact items_outputNext q
  status_right := (List.append_nil _).symm

theorem Twins.next (h : e.Twins q) : ∃ signals, Together e q e.next q.next e.uttered signals := by
  have hmoved := h.moved
  rw [Engine.next, Engine.next, hmoved.twins.halted_eq]
  split
  · have hannounced := hmoved.twins.announced
    refine ⟨e.moved.said, hannounced.twins, ?_, ?_, ?_, ?_⟩
    · rw [hannounced.output, List.append_nil, hmoved.output]
    · rw [hannounced.status, hmoved.status, List.append_nil]
    · rw [hannounced.output_right, List.append_nil, hmoved.output_right]
    · rw [hannounced.status_right, hmoved.status_right, List.append_nil]
  · exact ⟨[], hmoved⟩

theorem Twins.limitReached_eq (h : e.Twins q) (limit : Option Int) (start : Nat) :
    limitReached limit start e = limitReached limit start q := by
  simp only [limitReached, h.processor]

theorem Twins.abort (h : e.Twins q) (x : Failure) :
    ∃ e' q' signals, e.abort x = (e', .ok ()) ∧ q.abort x = (q', .ok ()) ∧ Together e q e' q' [] signals := by
  have hset : ({ e with fault := e.fault.or (some (e.abortFault x)) }.setHalt).Twins
      { q with fault := q.fault.or (some (q.abortFault x)) }.setHalt :=
    { processor := congrArg (fun p : Processor => { p with flags := p.flags.setHalt }) h.processor
      fault := by
        simp only [setHalt, abortFault, h.fault, h.processor]
      signalled := h.signalled
      left := h.left
      right := h.right }
  have hannounced := hset.announced
  exact ⟨_, _, _, signalHalt_of_open hset.left.2, signalHalt_of_open hset.right.2, hannounced.twins,
    hannounced.output, hannounced.status, hannounced.output_right, hannounced.status_right⟩

-- A turn of one is a turn of the other. A halted engine sends nothing any more, and a turn that fails does not halt.
theorem Twins.turn (h : e.Twins q) (limit : Option Int) (start : Nat) :
    ∃ (e' q' : Engine) (t : Turn) (texts signals : List Item),
      e.turn limit start = (e', t) ∧ q.turn limit start = (q', t) ∧
      Together e q e' q' texts signals ∧ (q.halted = true → q' = q ∧ texts = [] ∧ signals = []) ∧
      ∀ x, t = .failed x → q'.halted = false := by
  cases hq : q.halted with
  | true =>
      have he := h.halted_eq.trans hq
      exact ⟨e, q, .ended, [], [], turn_of_halted he _ _, turn_of_halted hq _ _,
        h.together_refl, fun _ => ⟨rfl, rfl, rfl⟩, by simp⟩
  | false =>
      have he := h.halted_eq.trans hq
      have hlimit := h.limitReached_eq limit start
      cases hl : limitReached limit start q with
      | some n =>
          rw [hl] at hlimit
          have hsame : Fault.stepLimit? n e.processor.ip = Fault.stepLimit? n q.processor.ip := by
            rw [h.processor]
          cases hf : Fault.stepLimit? n q.processor.ip with
          | some f =>
              obtain ⟨signals, htogether⟩ := h.halting f
              exact ⟨_, _, .ended, [], signals, turn_of_limit he h.left.2 hlimit (hsame.trans hf),
                turn_of_limit hq h.right.2 hl hf, htogether, by simp, by simp⟩
          | none =>
              exact ⟨_, _, _, [], [], turn_of_unnamed he hlimit (hsame.trans hf), turn_of_unnamed hq hl hf,
                h.together_refl, by simp, fun _ _ => hq⟩
      | none =>
          rw [hl] at hlimit
          cases hf : q.processor.stop? with
          | some f =>
              have hf' : e.processor.stop? = some f := by rw [h.processor, hf]
              obtain ⟨signals, htogether⟩ := h.stopped.halting f
              exact ⟨_, _, .ended, [], signals, turn_of_stop he h.left.2 hlimit hf',
                turn_of_stop hq h.right.2 hl hf, ⟨htogether.twins, htogether.output,
                  htogether.status, htogether.output_right, htogether.status_right⟩, by simp, by simp⟩
          | none =>
              have hf' : e.processor.stop? = none := by rw [h.processor, hf]
              obtain ⟨signals, htogether⟩ := h.next
              exact ⟨_, _, .more, e.uttered, signals, turn_of_go he h.left.1 h.left.2 hlimit hf',
                turn_of_go hq h.right.1 h.right.2 hl hf, htogether, by simp, by simp⟩

-- What an engine that nobody reads has sent: texts for the console, and the halt signal if it has halted.
structure Told (q : Engine) : Prop where
  settled : q.Settled
  status : q.status.items = if q.halted then [.halt q.haltSignal] else []
  texts : ∀ x ∈ q.output.items, ∃ u, x = .text u

theorem Told.announced (hs : q.signalled = false) (hh : q.halted = true) (hstatus : q.status.items = [])
    (htexts : ∀ x ∈ q.output.items, ∃ u, x = .text u) : q.announced.Told where
  settled := .of_halted (signalled_announced q) (by simpa using hh)
  status := by simp [hstatus, said, hs, hh, haltSignal]
  texts := by simpa using htexts

theorem Told.status_eq_nil (h : q.Told) (hh : q.halted = false) : q.status.items = [] := by
  rw [h.status, hh]
  rfl

theorem Told.halting (h : q.Told) (hh : q.halted = false) (f : Fault) : (q.halting f).Told := by
  refine Told.announced ?_ rfl (h.status_eq_nil hh) h.texts
  exact h.settled.signalled.trans hh

theorem Told.stopped (h : q.Told) (hh : q.halted = false) : q.stopped.Told := by
  have hkept : q.stopped.halted = q.halted := q.processor.halt_stopped
  refine ⟨⟨h.settled.signalled.trans hkept.symm, fun _ => h.settled.fault hh⟩, ?_, h.texts⟩
  rw [hkept, hh]
  exact h.status_eq_nil hh

theorem texts_outputNext (h : q.Told) : ∀ x ∈ q.outputNext.items, ∃ u, x = .text u := by
  intro x hx
  rw [items_outputNext] at hx
  rcases List.mem_append.mp hx with hx | hx
  · exact h.texts x hx
  · obtain ⟨c, _, rfl⟩ := List.mem_map.mp hx
    exact ⟨_, rfl⟩

theorem Told.next (h : q.Told) (hh : q.halted = false) : q.next.Told := by
  have hsignalled : q.moved.signalled = false := h.settled.signalled.trans hh
  rw [Engine.next]
  split
  · rename_i hmoved
    exact Told.announced hsignalled hmoved (h.status_eq_nil hh) (texts_outputNext h)
  · rename_i hmoved
    simp only [Bool.not_eq_true] at hmoved
    refine ⟨⟨hsignalled.trans hmoved.symm, fun _ => h.settled.fault hh⟩, ?_, texts_outputNext h⟩
    rw [hmoved]
    exact h.status_eq_nil hh

theorem Told.abort (h : q.Told) (ho : q.Open) (hh : q.halted = false) (x : Failure) : (q.abort x).1.Told := by
  have hopen : ({ q with fault := q.fault.or (some (q.abortFault x)) }.setHalt).status.closed = false := ho.2
  rw [Engine.abort, signalHalt_of_open hopen]
  exact Told.announced (h.settled.signalled.trans hh) rfl (h.status_eq_nil hh) h.texts

theorem Told.turn (h : q.Told) (ho : q.Open) (limit : Option Int) (start : Nat) :
    (q.turn limit start).1.Told := by
  cases hh : q.halted with
  | true =>
      rw [turn_of_halted hh]
      exact h
  | false =>
      cases hl : limitReached limit start q with
      | some n =>
          cases hf : Fault.stepLimit? n q.processor.ip with
          | some f =>
              rw [turn_of_limit hh ho.2 hl hf]
              exact h.halting hh f
          | none =>
              rw [turn_of_unnamed hh hl hf]
              exact h
      | none =>
          cases hf : q.processor.stop? with
          | some f =>
              rw [turn_of_stop hh ho.2 hl hf]
              have hkept : q.stopped.halted = q.halted := q.processor.halt_stopped
              exact (h.stopped hh).halting (hkept.trans hh) f
          | none =>
              rw [turn_of_go hh ho.1 ho.2 hl hf]
              exact h.next hh

end WordMachine.Engine
