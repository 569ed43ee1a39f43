import WordMachine.Engine.Basic
import WordMachine.Proofs.Stream

namespace WordMachine

namespace Memory

theorem loadWords_eq_ok_iff {m m' : Memory} {ws : List Word} :
    m.loadWords ws = .ok m' ↔
      ws.length ≤ m.size ∧ m' = ⟨ws.toArray ++ m.words.extract ws.length m.size⟩ := by
  rw [loadWords]
  split
  · rename_i hfits
    simp only [Except.ok.injEq, hfits, true_and]
    exact eq_comm
  · rename_i hfits
    simp [hfits]

theorem word_of_loadWords {m m' : Memory} {ws : List Word} (h : m.loadWords ws = .ok m') (a : Nat) :
    m'.word a = ws.getD a (m.word a) := by
  obtain ⟨hfits, rfl⟩ := loadWords_eq_ok_iff.mp h
  simp only [size] at hfits
  simp only [word, size, Int.toNat_natCast, Array.getD_eq_getD_getElem?, List.getD_eq_getElem?_getD]
  by_cases ha : a < ws.length
  · rw [Array.getElem?_append_left (by simpa using ha)]
    simp [ha]
  · rw [Array.getElem?_append_right (by simpa using ha), Array.getElem?_extract]
    have hback : ws.length + (a - ws.length) = a := by omega
    have hnone : ws[a]? = none := by simpa using ha
    simp only [List.size_toArray, hnone, hback, Option.getD_none]
    split
    · rfl
    · have hout : m.words[a]? = none := by simp; omega
      rw [hout]

theorem size_loadWords {m m' : Memory} {ws : List Word} (h : m.loadWords ws = .ok m') :
    m'.size = m.size := by
  obtain ⟨hfits, rfl⟩ := loadWords_eq_ok_iff.mp h
  simp only [size, Array.size_append, List.size_toArray, Array.size_extract] at hfits ⊢
  omega

end Memory

namespace Engine

theorem load_eq_ok_iff {e e' : Engine} {bytes : Bytes} :
    e.load bytes = .ok e' ↔
      e.loaded = false ∧ e.processor.cycles = 0 ∧ e.halted = false ∧
        ∃ ws m, Word.ofStream bytes = .ok ws ∧ e.processor.memory.loadWords ws = .ok m ∧
          e' = { e.withMemory m with loaded := true } := by
  constructor
  · intro h
    rw [load] at h
    split at h
    · simp at h
    · rename_i hloaded
      split at h
      · simp at h
      · rename_i hstarted
        simp only [not_or, ne_eq, Decidable.not_not, Bool.not_eq_true] at hloaded hstarted
        cases hstream : Word.ofStream bytes with
        | error x => simp [hstream] at h
        | ok ws =>
            cases hwords : e.processor.memory.loadWords ws with
            | error x => simp [hstream, hwords] at h
            | ok m =>
                simp only [hstream, hwords, Except.ok.injEq] at h
                exact ⟨hloaded, hstarted.1, hstarted.2, ws, m, rfl, hwords, h.symm⟩
  · rintro ⟨hloaded, hcycles, hh, ws, m, hstream, hwords, rfl⟩
    simp [load, hloaded, hcycles, hh, hstream, hwords]

theorem size_of_load {e e' : Engine} {bytes : Bytes} (h : e.load bytes = .ok e') :
    e'.processor.memory.size = e.processor.memory.size := by
  obtain ⟨-, -, -, ws, m, -, hwords, rfl⟩ := load_eq_ok_iff.mp h
  exact Memory.size_loadWords hwords

-- A machine that has done nothing yet takes every stream of whole words that its memory has room for.
theorem exists_load_iff {e : Engine} (hloaded : e.loaded = false) (hcycles : e.processor.cycles = 0)
    (hh : e.halted = false) {bytes : Bytes} :
    (∃ e', e.load bytes = .ok e') ↔ 4 ∣ bytes.length ∧ bytes.length / 4 ≤ e.processor.memory.size := by
  constructor
  · rintro ⟨e', he'⟩
    obtain ⟨-, -, -, ws, m, hstream, hwords, -⟩ := load_eq_ok_iff.mp he'
    have hlength := Word.length_of_ofStream hstream
    have hfits := (Memory.loadWords_eq_ok_iff.mp hwords).1
    exact ⟨Word.exists_ofStream_iff.mp ⟨ws, hstream⟩, by omega⟩
  · rintro ⟨hwhole, hfits⟩
    obtain ⟨ws, hws⟩ := Word.exists_ofStream_iff.mpr hwhole
    have hlength := Word.length_of_ofStream hws
    have hroom : ws.length ≤ e.processor.memory.size := by omega
    have hwords := Memory.loadWords_eq_ok_iff.mpr ⟨hroom, rfl⟩
    exact ⟨_, load_eq_ok_iff.mpr ⟨hloaded, hcycles, hh, ws, _, hws, hwords, rfl⟩⟩

end Engine

end WordMachine
