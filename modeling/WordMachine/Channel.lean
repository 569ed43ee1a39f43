namespace WordMachine

abbrev EventId := Nat

inductive ChannelError where
  | putOnClosed (name : String)
  | exhausted (name : String)
  | empty
  deriving DecidableEq, Repr

def ChannelError.message : ChannelError → String
  | .putOnClosed name => s!"put on closed channel {name}"
  | .exhausted name => name
  | .empty => ""

-- A queue that takes nothing more once it is closed, and still hands out what it holds. The items that are next to be
-- read are in front, oldest first; those that came in after them are in the back, newest first.
structure Channel (α : Type) where
  name : String
  front : List α := []
  back : List α := []
  received : Nat := 0
  closed : Bool := false
  watchers : List EventId := []
  deriving DecidableEq, Repr

namespace Channel

variable {α : Type}

-- The queued items, oldest first.
def items (c : Channel α) : List α :=
  c.front ++ c.back.reverse

def length (c : Channel α) : Nat :=
  c.front.length + c.back.length

def isEmpty (c : Channel α) : Bool :=
  c.front.isEmpty && c.back.isEmpty

-- A read would not wait: there is an item, or there never will be one again.
def ready (c : Channel α) : Bool :=
  !c.isEmpty || c.closed

def put (c : Channel α) (x : α) : Except ChannelError (Channel α) :=
  if c.closed then .error (.putOnClosed c.name)
  else .ok { c with back := x :: c.back, received := c.received + 1 }

-- The oldest item and the channel without it.
def pop? (c : Channel α) : Option (α × Channel α) :=
  match c.front with
  | x :: rest => some (x, { c with front := rest })
  | [] =>
      match c.back.reverse with
      | x :: rest => some (x, { c with front := rest, back := [] })
      | [] => none

def takeNow (c : Channel α) : Except ChannelError (α × Channel α) :=
  match c.pop? with
  | some r => .ok r
  | none => .error .empty

-- A read that may wait: no answer while the channel is open and empty.
def take? (c : Channel α) : Option (Except ChannelError (α × Channel α)) :=
  match c.pop? with
  | some r => some (.ok r)
  | none => if c.closed then some (.error (.exhausted c.name)) else none

-- What a read answers that is not willing to wait any longer.
def take (c : Channel α) : Except ChannelError (α × Channel α) :=
  c.take?.getD (.error .empty)

def drain (c : Channel α) : List α × Channel α :=
  (c.items, { c with front := [], back := [] })

def close (c : Channel α) : Channel α :=
  { c with closed := true }

def watch (c : Channel α) (e : EventId) : Channel α :=
  { c with watchers := c.watchers ++ [e] }

-- An event left several times is taken back one at a time, the earliest first.
def unwatch (c : Channel α) (e : EventId) : Channel α :=
  { c with watchers := c.watchers.erase e }

def describe (c : Channel α) : String :=
  s!"<Channel {c.name} len={c.length}" ++ (if c.closed then " closed" else "") ++ ">"

theorem length_items (c : Channel α) : c.items.length = c.length := by
  simp [items, length]

theorem isEmpty_iff (c : Channel α) : c.isEmpty = true ↔ c.items = [] := by
  simp [isEmpty, items]

theorem items_pop {c d : Channel α} {x : α} (h : c.pop? = some (x, d)) : c.items = x :: d.items := by
  simp only [pop?] at h
  split at h
  · rename_i y rest hf
    simp only [Option.some.injEq, Prod.mk.injEq] at h
    obtain ⟨rfl, rfl⟩ := h
    simp [items, hf]
  · rename_i hf
    split at h
    · rename_i y rest hb
      simp only [Option.some.injEq, Prod.mk.injEq] at h
      obtain ⟨rfl, rfl⟩ := h
      simp [items, hf, hb]
    · simp at h

theorem pop?_eq_none_iff (c : Channel α) : c.pop? = none ↔ c.items = [] := by
  simp only [pop?, items]
  split
  · simp_all
  · split <;> simp_all

theorem items_drain (c : Channel α) : c.drain.1 = c.items ∧ c.drain.2.items = [] := by
  simp [drain, items]

-- Readiness says exactly that a read would not wait.
theorem ready_iff (c : Channel α) : c.ready = true ↔ c.take?.isSome = true := by
  have hn := c.pop?_eq_none_iff
  have he := c.isEmpty_iff
  simp only [ready, take?]
  cases hp : c.pop? with
  | some r =>
      have : c.isEmpty = false := by
        rw [Bool.eq_false_iff]
        intro h
        rw [hn.mpr (he.mp h)] at hp
        simp at hp
      simp [this]
  | none =>
      have : c.isEmpty = true := he.mpr (hn.mp hp)
      by_cases hc : c.closed <;> simp [this, hc]

end Channel

end WordMachine
