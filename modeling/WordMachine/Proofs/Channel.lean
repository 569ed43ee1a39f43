import WordMachine.Channel

namespace WordMachine.Channel

variable {α : Type}

-- The channel after one more item.
def pushed (c : Channel α) (x : α) : Channel α :=
  { c with back := x :: c.back, received := c.received + 1 }

theorem put_of_open {c : Channel α} (h : c.closed = false) (x : α) : c.put x = .ok (c.pushed x) := by
  rw [put, if_neg (Bool.not_eq_true _ ▸ h), pushed]

theorem eq_pushed_of_put {c d : Channel α} {x : α} (h : c.put x = .ok d) : d = c.pushed x := by
  rw [put] at h
  split at h
  · simp at h
  · exact (Except.ok.inj h).symm

@[simp]
theorem items_pushed (c : Channel α) (x : α) : (c.pushed x).items = c.items ++ [x] := by
  simp [items, pushed]

-- Taking an item changes nothing but what is queued.
theorem exists_of_pop {c d : Channel α} {x : α} (h : c.pop? = some (x, d)) :
    ∃ front back, d = { c with front := front, back := back } := by
  simp only [pop?] at h
  split at h
  · simp only [Option.some.injEq, Prod.mk.injEq] at h
    exact ⟨_, _, h.2.symm⟩
  · split at h
    · simp only [Option.some.injEq, Prod.mk.injEq] at h
      exact ⟨_, _, h.2.symm⟩
    · simp at h

theorem closed_pop {c d : Channel α} {x : α} (h : c.pop? = some (x, d)) : d.closed = c.closed := by
  obtain ⟨_, _, rfl⟩ := exists_of_pop h
  rfl

theorem watchers_pop {c d : Channel α} {x : α} (h : c.pop? = some (x, d)) : d.watchers = c.watchers := by
  obtain ⟨_, _, rfl⟩ := exists_of_pop h
  rfl

-- A channel that holds something has a first item, and taking it changes nothing else.
theorem exists_pop {c : Channel α} {x : α} {rest : List α} (h : c.items = x :: rest) :
    ∃ d, c.pop? = some (x, d) ∧ d.items = rest ∧ d.closed = c.closed := by
  cases hp : c.pop? with
  | none =>
      rw [pop?_eq_none_iff, h] at hp
      simp at hp
  | some r =>
      obtain ⟨y, d⟩ := r
      have hitems := items_pop hp
      rw [h, List.cons.injEq] at hitems
      obtain ⟨rfl, rfl⟩ := hitems
      exact ⟨d, rfl, rfl, closed_pop hp⟩

@[simp]
theorem ready_pushed (c : Channel α) (x : α) : (c.pushed x).ready = true := by
  simp [ready, isEmpty, pushed]

theorem ready_iff_items_or_closed (c : Channel α) : c.ready = true ↔ c.items ≠ [] ∨ c.closed = true := by
  rw [ready, Bool.or_eq_true, Bool.not_eq_true', ← Bool.not_eq_true, isEmpty_iff]

theorem ready_of_closed {c : Channel α} (h : c.closed = true) : c.ready = true := by
  rw [ready, h, Bool.or_true]

-- What is waiting and whether more can come decide whether a read would wait.
theorem ready_congr {c d : Channel α} (hitems : d.items = c.items) (hclosed : d.closed = c.closed) :
    d.ready = c.ready := by
  have hempty : d.isEmpty = c.isEmpty := by
    rw [Bool.eq_iff_iff, isEmpty_iff, isEmpty_iff, hitems]
  rw [ready, ready, hempty, hclosed]

theorem ready_iff_of_open {c : Channel α} (h : c.closed = false) : c.ready = true ↔ c.items ≠ [] := by
  rw [ready, h, Bool.or_false, Bool.not_eq_true', Ne, ← isEmpty_iff, Bool.not_eq_true]

theorem pop_of_take {c d : Channel α} {x : α} (h : c.take? = some (.ok (x, d))) : c.pop? = some (x, d) := by
  rw [take?] at h
  split at h
  · rename_i r hpop
    simp only [Option.some.injEq, Except.ok.injEq] at h
    rw [hpop, h]
  · split at h <;> simp at h

-- A read of an open channel that holds nothing has to wait.
theorem take?_of_open {c : Channel α} (h : c.closed = false) :
    c.take? = c.pop?.map Except.ok := by
  rw [take?, h]
  cases c.pop? with
  | none => rfl
  | some r => rfl

end WordMachine.Channel
