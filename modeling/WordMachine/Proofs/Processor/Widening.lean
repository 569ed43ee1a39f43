import WordMachine.Proofs.Processor.Cycle

namespace WordMachine

-- An access outside the memory, as opposed to all other faults.
def Fault.IsMiss (f : Fault) : Prop :=
  ∃ addr, f.cause = .address addr

theorem Fault.isMiss_outside (addr : Int) : (outside addr).IsMiss :=
  ⟨addr, rfl⟩

theorem Fault.isMiss_placedAt_iff (f : Fault) (ip : Int) : (f.placedAt ip).IsMiss ↔ f.IsMiss :=
  Iff.rfl

namespace Memory

-- The memory with so many blank words behind it.
def widened (m : Memory) (k : Nat) : Memory :=
  ⟨m.words ++ Array.replicate k 0⟩

@[simp]
theorem size_widened (m : Memory) (k : Nat) : (m.widened k).size = m.size + k := by
  simp [widened, size]

-- Where there is no word the memory reads as zero, and so does every word behind it.
@[simp]
theorem word_widened (m : Memory) (k : Nat) (addr : Int) : (m.widened k).word addr = m.word addr := by
  simp only [word, widened, Array.getD_eq_getD_getElem?]
  by_cases h : addr.toNat < m.words.size
  · rw [Array.getElem?_append_left h]
  · have hleft : m.words[addr.toNat]? = none := by simp; omega
    rw [Array.getElem?_append_right (by omega), Array.getElem?_replicate, hleft]
    split <;> rfl

@[simp]
theorem value_widened (m : Memory) (k : Nat) (addr : Int) : (m.widened k).value addr = m.value addr := by
  simp [value]

theorem Holds.widened {m : Memory} {addr : Int} (h : m.Holds addr) (k : Nat) :
    (m.widened k).Holds addr := by
  obtain ⟨hlow, hhigh⟩ := h
  have hsize := m.size_widened k
  exact ⟨hlow, by omega⟩

theorem stored_widened {m : Memory} {addr : Int} (h : m.Holds addr) (k : Nat) (v : Int) :
    (m.widened k).stored (some (addr, v)) = (m.stored (some (addr, v))).widened k := by
  have hlt : addr.toNat < m.words.size := by
    obtain ⟨hlow, hhigh⟩ := h
    simp only [size] at hhigh
    omega
  simp only [stored, widened, Array.setIfInBounds_append_left hlt]

-- The first of the addresses that misses is a miss; without one all addresses are in both memories.
theorem firstOutside?_widened {m : Memory} {addrs : List Int}
    (h : ∀ f, m.firstOutside? addrs = some f → ¬f.IsMiss) (k : Nat) :
    (m.widened k).firstOutside? addrs = m.firstOutside? addrs := by
  have hnone : m.firstOutside? addrs = none := by
    cases hf : m.firstOutside? addrs with
    | none => rfl
    | some f =>
        obtain ⟨addr, rfl⟩ := exists_outside_of_firstOutside? hf
        exact absurd (Fault.isMiss_outside addr) (h _ hf)
  rw [hnone, firstOutside?, Option.map_eq_none_iff, List.find?_eq_none]
  intro addr haddr
  simpa using (holds_of_firstOutside? hnone haddr).widened k

-- A program that fits goes to the same words of the larger memory.
theorem loadWords_widened {m m' : Memory} {ws : List Word} (h : m.loadWords ws = .ok m') (k : Nat) :
    (m.widened k).loadWords ws = .ok (m'.widened k) := by
  rw [loadWords] at h
  split at h
  · rename_i hfits
    simp only [Except.ok.injEq] at h
    subst h
    have hsize := m.size_widened k
    rw [loadWords, if_pos (by omega), hsize]
    have hrest : (m.words ++ Array.replicate k 0).extract ws.length (m.size + k) =
        m.words.extract ws.length m.size ++ Array.replicate k 0 := by
      simp only [size] at hfits ⊢
      have hfront : m.words.extract ws.length (m.words.size + k) =
          m.words.extract ws.length m.words.size := by grind
      have hbehind : ws.length - m.words.size = 0 := by omega
      rw [Array.extract_append, hfront, hbehind]
      simp
    simp only [widened, hrest, Array.append_assoc]
  · simp at h

end Memory

-- The table reads words and never the size of the memory.
theorem Change.of_widened (m : Memory) (k : Nat) (flags : Flags) (i : Instruction) :
    of (m.widened k) flags i = of m flags i := by
  cases i <;> simp only [of, Memory.value_widened]

namespace Instruction

theorem fault?_widened {m : Memory} {i : Instruction} (h : ∀ f, i.fault? m = some f → ¬f.IsMiss)
    (k : Nat) : i.fault? (m.widened k) = i.fault? m := by
  cases i with
  | eof | jmp _ | jz _ | unknown _ _ => rfl
  | mov _ _ | str _ _ | adi _ _ | sui _ _ | cmp _ _ | prn _ | mul _ _ =>
      exact Memory.firstOutside?_widened h k
  | mop dst src =>
      simp only [fault?, Memory.value_widened]
      exact Memory.firstOutside?_widened h k
  | div dst src =>
      simp only [fault?] at h
      simp only [fault?, Memory.value_widened]
      have hsrc : ∀ f, m.firstOutside? [src] = some f → ¬f.IsMiss := by
        intro f hf
        rw [hf] at h
        exact h f rfl
      rw [Memory.firstOutside?_widened hsrc k]
      cases hfirst : m.firstOutside? [src] with
      | some f => rfl
      | none =>
          rw [hfirst] at h
          by_cases hv : m.value src = 0
          · simp only [hv, if_true]
          · simp only [hv, if_false] at h ⊢
            exact Memory.firstOutside?_widened h k

theorem clearsOverflow_widened {m : Memory} {i : Instruction} (h : ∀ f, i.fault? m = some f → ¬f.IsMiss)
    (k : Nat) : i.clearsOverflow (m.widened k) = i.clearsOverflow m := by
  cases i with
  | div dst src =>
      have hholds : m.Holds src := by
        by_contra hsrc
        refine h (.outside src) ?_ (Fault.isMiss_outside src)
        simp only [fault?, Memory.firstOutside?_cons, hsrc, if_false]
      simp only [clearsOverflow, Memory.value_widened, hholds, hholds.widened k]
  | _ => rfl

end Instruction

namespace Processor

def widened (p : Processor) (k : Nat) : Processor :=
  { p with memory := p.memory.widened k }

-- The processor comes to a fault at its next cycle that is none of the memory's size, or to none.
def Fits (p : Processor) : Prop :=
  ∀ f, p.stop? = some f → ¬f.IsMiss

variable {p : Processor}

@[simp]
theorem current_widened (p : Processor) (k : Nat) : (p.widened k).current = p.current := by
  simp only [current, widened, Memory.word_widened]

theorem change_widened (p : Processor) (k : Nat) : (p.widened k).change = p.change := by
  simp [change]
  exact Change.of_widened _ _ _ _

theorem Fits.holds (h : p.Fits) : p.memory.Holds p.ip := by
  by_contra hip
  refine h _ ?_ ((Fault.isMiss_placedAt_iff _ p.ip).mpr (Fault.isMiss_outside p.ip))
  rw [stop?, if_neg hip]

theorem Fits.fault? (h : p.Fits) : ∀ f, p.current.fault? p.memory = some f → ¬f.IsMiss := by
  intro f hf hmiss
  refine h (f.placedAt p.ip) ?_ hmiss
  rw [stop?, if_pos h.holds, hf]
  rfl

theorem Fits.stop?_widened (h : p.Fits) (k : Nat) : (p.widened k).stop? = p.stop? := by
  have hholds := h.holds.widened k
  rw [stop?, stop?, if_pos h.holds, current_widened]
  simp only [widened, if_pos hholds, Instruction.fault?_widened h.fault? k]

theorem Fits.stopped_widened (h : p.Fits) (k : Nat) : (p.widened k).stopped = p.stopped.widened k := by
  have hholds := h.holds.widened k
  rw [stopped, stopped, if_pos h.holds, current_widened]
  simp only [widened, if_pos hholds, interrupted, Instruction.clearsOverflow_widened h.fault? k]
  split <;> rfl

theorem fits_of_go (h : p.stop? = none) : p.Fits := by
  intro f hf
  simp [h] at hf

theorem next_widened (h : p.stop? = none) (k : Nat) : (p.widened k).next = p.next.widened k := by
  have hfault := ((stop?_eq_none_iff p).mp h).2
  have hmemory : (p.memory.widened k).stored p.change.stored = (p.memory.stored p.change.stored).widened k := by
    cases hs : p.change.stored with
    | none => rfl
    | some write =>
        obtain ⟨dst, v⟩ := write
        exact Memory.stored_widened (Instruction.holds_of_stored hfault hs) k v
  have hchanged : (p.widened k).changed p.change = (p.changed p.change).widened k := by
    simp only [changed, widened, hmemory]
  simp only [next, change_widened, hchanged]
  rfl

end Processor

end WordMachine
