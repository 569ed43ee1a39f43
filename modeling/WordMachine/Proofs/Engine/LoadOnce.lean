import WordMachine.Proofs.Engine.Effect
import WordMachine.Proofs.Engine.History

namespace WordMachine

namespace Engine

-- The states an engine can come to, with the programs it has taken on the way there.
inductive Past : List Bytes → Engine → Prop where
  | created {room : Nat} {size : Int} {e : Engine} (h : create room size = .ok e) : Past [] e
  | loaded {programs : List Bytes} {e e' : Engine} {bytes : Bytes} (he : Past programs e)
      (h : e.load bytes = .ok e') : Past (programs ++ [bytes]) e'
  | refused {programs : List Bytes} {e : Engine} {bytes : Bytes} {x : LoadError} (he : Past programs e)
      (h : e.load bytes = .error x) : Past programs (e.afterLoad bytes)
  | stepped {programs : List Bytes} {e : Engine} (he : Past programs e) : Past programs e.step.1
  | turned {programs : List Bytes} {e : Engine} (he : Past programs e) (limit : Option Int) (start : Nat) :
      Past programs (e.turn limit start).1
  | aborted {programs : List Bytes} {e : Engine} (he : Past programs e) (x : Failure) :
      Past programs (e.abort x).1
  | assigned {programs : List Bytes} {e : Engine} (he : Past programs e) (m : Memory) (r : Registers)
      (h : m.size = e.processor.memory.size) : Past programs (e.assign m r)
  | exchanged {programs : List Bytes} {e : Engine} (he : Past programs e) (output status : Channel Item) :
      Past programs { e with output := output, status := status }

theorem Reachable.exists_past {e : Engine} (h : e.Reachable) : ∃ programs, e.Past programs := by
  induction h with
  | created h => exact ⟨[], .created h⟩
  | loaded _ h ih =>
      obtain ⟨programs, ih⟩ := ih
      exact ⟨_, .loaded ih h⟩
  | stepped _ ih => exact ih.imp fun _ ih => .stepped ih
  | turned _ limit start ih => exact ih.imp fun _ ih => .turned ih limit start
  | aborted _ x ih => exact ih.imp fun _ ih => .aborted ih x
  | assigned _ m r h ih => exact ih.imp fun _ ih => .assigned ih m r h
  | exchanged _ output status ih => exact ih.imp fun _ ih => .exchanged ih output status

@[simp]
theorem loaded_signalHalt (e : Engine) : e.signalHalt.1.loaded = e.loaded := by
  rw [signalHalt]
  split
  · rfl
  · split <;> rfl

theorem loaded_step (e : Engine) : e.step.1.loaded = e.loaded := by
  have hstepped := e.stepped
  generalize e.step = r at hstepped ⊢
  cases hstepped with
  | halted _ | stopped _ _ | refused _ _ _ _ | unheard _ _ _ _ _ => rfl
  | went _ _ _ _ => exact loaded_next e

theorem loaded_turn (e : Engine) (limit : Option Int) (start : Nat) :
    (e.turn limit start).1.loaded = e.loaded := by
  have hhaltOn : ∀ (d : Engine) (f : Fault), (turnOf (d.haltOn f)).1.loaded = d.loaded := by
    intro d f
    rw [fst_turnOf]
    exact loaded_signalHalt _
  have hstep := e.loaded_step
  have hturned := e.turned limit start
  generalize e.turn limit start = r at hturned ⊢
  cases hturned with
  | halted _ | unnamed _ _ _ => rfl
  | limit _ _ _ | stopped _ _ _ => exact hhaltOn _ _
  | failed _ _ hs | went _ _ hs =>
      rw [hs] at hstep
      exact hstep

theorem loaded_abort (e : Engine) (x : Failure) : (e.abort x).1.loaded = e.loaded :=
  loaded_signalHalt _

theorem afterLoad_of_error {e : Engine} {bytes : Bytes} {x : LoadError} (h : e.load bytes = .error x) :
    e.afterLoad bytes = e := by
  rw [afterLoad, h]

-- The mark an engine bears tells whether it has taken a program, and it has taken one at most.
theorem Past.loaded_eq {programs : List Bytes} {e : Engine} (h : e.Past programs) :
    e.loaded = !programs.isEmpty ∧ programs.length ≤ 1 := by
  induction h with
  | created h =>
      obtain ⟨m, rfl⟩ := eq_ofMemory_of_create h
      exact ⟨rfl, Nat.zero_le 1⟩
  | loaded _ h ih =>
      obtain ⟨hnew, -, -, _, _, -, -, rfl⟩ := load_eq_ok_iff.mp h
      have hnone := List.isEmpty_iff.mp (by simpa [hnew] using ih.1)
      subst hnone
      exact ⟨rfl, Nat.le_refl 1⟩
  | refused _ h ih =>
      rw [afterLoad_of_error h]
      exact ih
  | stepped _ ih =>
      rw [loaded_step]
      exact ih
  | turned _ limit start ih =>
      rw [loaded_turn]
      exact ih
  | aborted _ x ih =>
      rw [loaded_abort]
      exact ih
  | assigned _ _ _ _ ih => exact ih
  | exchanged _ _ _ ih => exact ih

-- What a load does to an engine that has taken these programs before.
structure LoadsExactly (programs : List Bytes) (e : Engine) (bytes : Bytes) : Prop where
  taken : (∃ e', e.load bytes = .ok e') ↔
    programs = [] ∧ e.processor.cycles = 0 ∧ e.halted = false ∧ 4 ∣ bytes.length ∧
      bytes.length / 4 ≤ e.processor.memory.size
  placed : ∀ e', e.load bytes = .ok e' → ∃ m : Memory,
    e' = { e.withMemory m with loaded := true } ∧ m.size = e.processor.memory.size ∧
      ∀ a : Nat, m.value a =
        if a < bytes.length / 4 then (Word.bigEndian bytes a : Int) else e.processor.memory.value a
  refused : (¬∃ e', e.load bytes = .ok e') →
    (∃ x, e.load bytes = .error x) ∧ e.afterLoad bytes = e ∧
      ∀ data, (e.afterLoad bytes).load data = e.load data
  once : programs.length ≤ 1

theorem taken_iff {programs : List Bytes} {e : Engine} (h : e.Past programs) (bytes : Bytes) :
    (∃ e', e.load bytes = .ok e') ↔
      programs = [] ∧ e.processor.cycles = 0 ∧ e.halted = false ∧ 4 ∣ bytes.length ∧
        bytes.length / 4 ≤ e.processor.memory.size := by
  have hmark : e.loaded = false ↔ programs = [] := by
    rw [h.loaded_eq.1]
    simp
  constructor
  · intro htaken
    obtain ⟨e', he'⟩ := htaken
    obtain ⟨hnew, hcycles, hh, -⟩ := load_eq_ok_iff.mp he'
    exact ⟨hmark.mp hnew, hcycles, hh, (exists_load_iff hnew hcycles hh).mp ⟨e', he'⟩⟩
  · rintro ⟨hnew, hcycles, hh, hfits⟩
    exact (exists_load_iff (hmark.mpr hnew) hcycles hh).mpr hfits

-- The words of the program are those its bytes stand for, and behind them is what was there before.
theorem value_of_load {e e' : Engine} {bytes : Bytes} (h : e.load bytes = .ok e') (a : Nat) :
    e'.processor.memory.value a =
      if a < bytes.length / 4 then (Word.bigEndian bytes a : Int) else e.processor.memory.value a := by
  obtain ⟨-, -, -, ws, m, hstream, hwords, rfl⟩ := load_eq_ok_iff.mp h
  have hlength : bytes.length / 4 = ws.length := by
    have hbytes := Word.length_of_ofStream hstream
    omega
  rw [hlength]
  simp only [withMemory, Memory.value, Memory.word_of_loadWords hwords a]
  split
  · rename_i ha
    rw [Word.ofStream] at hstream
    split at hstream
    · rename_i vs hvs
      obtain rfl := Except.ok.inj hstream
      rw [Word.toNat_getD_of_ofStream? hvs ha]
    · simp at hstream
  · rename_i ha
    rw [List.getD_eq_getElem?_getD, List.getElem?_eq_none (by omega), Option.getD_none]

theorem load_is_exact {programs : List Bytes} {e : Engine} (h : e.Past programs) (bytes : Bytes) :
    LoadsExactly programs e bytes where
  taken := taken_iff h bytes
  placed e' he' := by
    obtain ⟨m, rfl⟩ := eq_withMemory_of_load he'
    exact ⟨m, rfl, size_of_load he', value_of_load he'⟩
  refused hnone := by
    cases hload : e.load bytes with
    | ok e' => exact absurd ⟨e', hload⟩ hnone
    | error x =>
        have hsame := afterLoad_of_error hload
        exact ⟨⟨x, rfl⟩, hsame, fun data => by rw [hsame]⟩
  once := h.loaded_eq.2

-- A machine of two words that was given five bytes first, and then exactly what it has room for.
theorem load_is_exact_after_ragged :
    ∃ e e', create 2 2 = .ok e ∧ (e.afterLoad [1, 2, 3, 4, 5]).Past [] ∧
      (e.afterLoad [1, 2, 3, 4, 5]).load [0, 0, 1, 0, 0xFF, 0, 0, 2] = .ok e' ∧
      LoadsExactly [] (e.afterLoad [1, 2, 3, 4, 5]) [0, 0, 1, 0, 0xFF, 0, 0, 2] := by
  have hpast : (ofMemory ⟨#[0, 0]⟩).Past [] :=
    .created (show create 2 2 = .ok (ofMemory ⟨#[0, 0]⟩) from rfl)
  have hragged : (ofMemory ⟨#[0, 0]⟩).load [1, 2, 3, 4, 5] = .error (.ragged ⟨5⟩) := by decide
  have hexact := load_is_exact (hpast.refused hragged) [0, 0, 1, 0, 0xFF, 0, 0, 2]
  obtain ⟨e', he'⟩ := hexact.taken.mpr (by decide)
  exact ⟨_, e', rfl, hpast.refused hragged, he', hexact⟩

end Engine

end WordMachine
