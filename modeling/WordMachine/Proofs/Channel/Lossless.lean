import WordMachine.Proofs.Channel

namespace WordMachine.Channel

variable {α : Type}

-- A read that waits has not happened yet. It happens when it gets an item, when the channel is found closed,
-- or when its time is up.
inductive Operation (α : Type) where
  | put (x : α)
  | get (timeUp : Bool)
  | getNow
  | drain
  | close
  deriving DecidableEq, Repr

inductive Answer (α : Type) where
  | done
  | handed (xs : List α)
  | refused (e : ChannelError)
  deriving DecidableEq, Repr

-- What a read answers and leaves.
def answered (c : Channel α) : Except ChannelError (α × Channel α) → Answer α × Channel α
  | .ok (x, d) => (.handed [x], d)
  | .error e => (.refused e, c)

-- No answer where the operation has to wait.
def respond? (c : Channel α) : Operation α → Option (Answer α × Channel α)
  | .put x =>
      match c.put x with
      | .ok d => some (.done, d)
      | .error e => some (.refused e, c)
  | .get true => some (c.answered c.take)
  | .get false => c.take?.map c.answered
  | .getNow => some (c.answered c.takeNow)
  | .drain => some (.handed c.drain.1, c.drain.2)
  | .close => some (.done, c.close)

-- What two parties have done to a channel, and what they were answered.
inductive History (c : Channel α) : List (Operation α × Answer α) → Channel α → Prop where
  | start : History c [] c
  | respond {trace : List (Operation α × Answer α)} {d d' : Channel α} {op : Operation α} {a : Answer α}
      (h : History c trace d) (hr : d.respond? op = some (a, d')) : History c (trace ++ [(op, a)]) d'

-- The item an operation brought in, if it is a put that was not refused.
def accepted : Operation α × Answer α → List α
  | (.put x, .done) => [x]
  | _ => []

def handedOut : Operation α × Answer α → List α
  | (_, .handed xs) => xs
  | _ => []

variable {c d : Channel α}

theorem respond?_put_of_open (h : c.closed = false) (x : α) :
    c.respond? (.put x) = some (.done, c.pushed x) := by
  simp only [respond?, put_of_open h]

theorem respond?_put_of_closed (h : c.closed = true) (x : α) :
    c.respond? (.put x) = some (.refused (.putOnClosed c.name), c) := by
  simp only [respond?, put, h, if_true]

-- All reads of a channel that holds something answer alike.
theorem exists_respond?_of_cons {x : α} {rest : List α} (h : c.items = x :: rest) :
    ∃ d, c.respond? .getNow = some (.handed [x], d) ∧
      (∀ timeUp, c.respond? (.get timeUp) = some (.handed [x], d)) ∧
      d.items = rest ∧ d.closed = c.closed := by
  obtain ⟨d, hpop, hitems, hclosed⟩ := exists_pop h
  refine ⟨d, ?_, fun timeUp => ?_, hitems, hclosed⟩
  · simp only [respond?, takeNow, hpop, answered]
  · cases timeUp <;> simp [respond?, take, take?, hpop, answered]

theorem respond?_getNow_of_nil (h : c.items = []) :
    c.respond? .getNow = some (.refused .empty, c) := by
  simp only [respond?, takeNow, (pop?_eq_none_iff c).mpr h, answered]

theorem respond?_get_of_nil (h : c.items = []) (timeUp : Bool) :
    c.respond? (.get timeUp) =
      if c.closed then some (.refused (.exhausted c.name), c)
      else if timeUp then some (.refused .empty, c)
      else none := by
  have hpop := (pop?_eq_none_iff c).mpr h
  cases timeUp <;> cases hc : c.closed <;> simp [respond?, take, take?, hpop, hc, answered]

-- What one operation hands out stood at the front, and what it brings in stands at the end.
theorem respond?_conserves {op : Operation α} {a : Answer α} (h : c.respond? op = some (a, d)) :
    handedOut (op, a) ++ d.items = c.items ++ accepted (op, a) ∧ (c.closed = true → d.closed = true) := by
  cases op with
  | put x =>
      cases hc : c.closed with
      | true =>
          rw [respond?_put_of_closed hc, Option.some.injEq, Prod.mk.injEq] at h
          obtain ⟨rfl, rfl⟩ := h
          simp [handedOut, accepted, hc]
      | false =>
          rw [respond?_put_of_open hc, Option.some.injEq, Prod.mk.injEq] at h
          obtain ⟨rfl, rfl⟩ := h
          simp [handedOut, accepted, items_pushed]
  | getNow =>
      cases hitems : c.items with
      | nil =>
          rw [respond?_getNow_of_nil hitems, Option.some.injEq, Prod.mk.injEq] at h
          obtain ⟨rfl, rfl⟩ := h
          simp [handedOut, accepted, hitems]
      | cons x rest =>
          obtain ⟨d', hnow, -, hrest, hclosed⟩ := exists_respond?_of_cons hitems
          rw [hnow, Option.some.injEq, Prod.mk.injEq] at h
          obtain ⟨rfl, rfl⟩ := h
          simp [handedOut, accepted, hrest, hclosed]
  | get timeUp =>
      cases hitems : c.items with
      | nil =>
          rw [respond?_get_of_nil hitems] at h
          have hsame : handedOut (.get timeUp, a) = [] ∧ d = c := by
            repeat' split at h
            all_goals simp only [Option.some.injEq, Prod.mk.injEq, reduceCtorEq] at h
            all_goals exact ⟨by rw [← h.1]; rfl, h.2.symm⟩
          rw [hsame.1, hsame.2, hitems]
          exact ⟨rfl, id⟩
      | cons x rest =>
          obtain ⟨d', -, hget, hrest, hclosed⟩ := exists_respond?_of_cons hitems
          rw [hget, Option.some.injEq, Prod.mk.injEq] at h
          obtain ⟨rfl, rfl⟩ := h
          simp [handedOut, accepted, hrest, hclosed]
  | drain =>
      simp only [respond?, Option.some.injEq, Prod.mk.injEq] at h
      obtain ⟨rfl, rfl⟩ := h
      obtain ⟨hdrained, hleft⟩ := items_drain c
      simp only [handedOut, accepted, hdrained, hleft]
      exact ⟨trivial, id⟩
  | close =>
      simp only [respond?, Option.some.injEq, Prod.mk.injEq] at h
      obtain ⟨rfl, rfl⟩ := h
      simp [handedOut, accepted, close, items]

-- By induction on what was done, last operation first: it adds what it brought in at the end and takes what
-- it handed out from the front.
theorem History.conserves {trace : List (Operation α × Answer α)} (h : c.History trace d) :
    trace.flatMap handedOut ++ d.items = c.items ++ trace.flatMap accepted ∧
      (c.closed = true → d.closed = true) := by
  induction h with
  | start => simp
  | @respond trace d d' op a h hr ih =>
      obtain ⟨hstep, hclosed⟩ := respond?_conserves hr
      refine ⟨?_, fun hc => hclosed (ih.2 hc)⟩
      calc
        (trace ++ [(op, a)]).flatMap handedOut ++ d'.items
            = trace.flatMap handedOut ++ (handedOut (op, a) ++ d'.items) := by simp
        _ = (trace.flatMap handedOut ++ d.items) ++ accepted (op, a) := by rw [hstep, List.append_assoc]
        _ = c.items ++ (trace ++ [(op, a)]).flatMap accepted := by rw [ih.1]; simp

-- A queue from which nothing is lost, and what everything that can be done to it is answered with.
structure Lossless (c : Channel α) (trace : List (Operation α × Answer α)) (d : Channel α) : Prop where
  conserved : trace.flatMap handedOut ++ d.items = c.items ++ trace.flatMap accepted
  closed : c.closed = true → d.closed = true
  put (x : α) :
    if d.closed then d.respond? (.put x) = some (.refused (.putOnClosed d.name), d)
    else ∃ d', d.respond? (.put x) = some (.done, d') ∧ d'.items = d.items ++ [x] ∧ d'.closed = false
  getNow :
    match d.items with
    | x :: rest => ∃ d', d.respond? .getNow = some (.handed [x], d') ∧ d'.items = rest ∧ d'.closed = d.closed
    | [] => d.respond? .getNow = some (.refused .empty, d)
  get (timeUp : Bool) :
    match d.items with
    | x :: rest =>
        ∃ d', d.respond? (.get timeUp) = some (.handed [x], d') ∧ d'.items = rest ∧ d'.closed = d.closed
    | [] =>
        d.respond? (.get timeUp) =
          if d.closed then some (.refused (.exhausted d.name), d)
          else if timeUp then some (.refused .empty, d)
          else none
  drain : ∃ d', d.respond? .drain = some (.handed d.items, d') ∧ d'.items = [] ∧ d'.closed = d.closed
  close : ∃ d', d.respond? .close = some (.done, d') ∧ d'.items = d.items ∧ d'.closed = true
  ready : d.ready = true ↔ (d.respond? (.get false)).isSome = true

theorem history_is_lossless {trace : List (Operation α × Answer α)} (h : c.History trace d) :
    Lossless c trace d where
  conserved := h.conserves.1
  closed := h.conserves.2
  put x := by
    cases hd : d.closed with
    | true => simpa using respond?_put_of_closed hd x
    | false => simpa using ⟨d.pushed x, respond?_put_of_open hd x, items_pushed d x, hd⟩
  getNow := by
    cases hitems : d.items with
    | nil => exact respond?_getNow_of_nil hitems
    | cons x rest =>
        obtain ⟨d', hnow, -, hkept⟩ := exists_respond?_of_cons hitems
        exact ⟨d', hnow, hkept⟩
  get timeUp := by
    cases hitems : d.items with
    | nil => exact respond?_get_of_nil hitems timeUp
    | cons x rest =>
        obtain ⟨d', -, hget, hkept⟩ := exists_respond?_of_cons hitems
        exact ⟨d', hget timeUp, hkept⟩
  drain := ⟨d.drain.2, by rw [respond?, (items_drain d).1], (items_drain d).2, rfl⟩
  close := ⟨d.close, rfl, rfl, rfl⟩
  ready := by rw [ready_iff, respond?, Option.isSome_map]

-- What was queued at the closing is still handed out, and a later put is not.
theorem history_is_lossless_on_closing :
    Lossless (α := Nat) { name := "c" }
      [(.put 1, .done), (.put 2, .done), (.getNow, .handed [1]), (.close, .done),
        (.put 3, .refused (.putOnClosed "c")), (.get false, .handed [2]), (.get false, .refused (.exhausted "c"))]
      { name := "c", received := 2, closed := true } :=
  history_is_lossless
    (.respond (.respond (.respond (.respond (.respond (.respond (.respond .start
      rfl) rfl) rfl) rfl) rfl) rfl) rfl)

end WordMachine.Channel
