import WordMachine.Word

namespace WordMachine.Word

-- The number that the four bytes at a word's place in a stream stand for, most significant first.
def bigEndian (bytes : Bytes) (a : Nat) : Nat :=
  (bytes.getD (4 * a) 0).toNat * 0x1000000 + (bytes.getD (4 * a + 1) 0).toNat * 0x10000 +
    (bytes.getD (4 * a + 2) 0).toNat * 0x100 + (bytes.getD (4 * a + 3) 0).toNat

theorem toNat_ofQuad (q : Quad) :
    (ofQuad q).toNat = q.first.toNat * 0x1000000 + q.second.toNat * 0x10000 +
      q.third.toNat * 0x100 + q.fourth.toNat := by
  have h1 := q.first.toNat_lt
  have h2 := q.second.toNat_lt
  have h3 := q.third.toNat_lt
  have h4 := q.fourth.toNat_lt
  simp only [ofQuad, UInt32.toNat_ofNat']
  omega

theorem toNat_getD_of_ofStream? {bytes : Bytes} {ws : List Word} (h : ofStream? bytes = some ws)
    {a : Nat} (ha : a < ws.length) (w : Word) : (ws.getD a w).toNat = bigEndian bytes a := by
  fun_induction ofStream? bytes generalizing ws a with
  | case1 =>
      obtain rfl := Option.some.inj h
      simp at ha
  | case2 b₀ b₁ b₂ b₃ rest vs hv ih =>
      obtain rfl := Option.some.inj h
      cases a with
      | zero => exact toNat_ofQuad _
      | succ a =>
          have hrest := ih hv (a := a) (by simpa using ha)
          rw [List.getD_cons_succ, hrest]
          rfl
  | case3 => simp at h
  | case4 => simp at h

theorem ofStream_eq_ok_iff {bytes : Bytes} {ws : List Word} : ofStream bytes = .ok ws ↔ stream ws = bytes := by
  rw [ofStream]
  constructor
  · intro h
    split at h
    · rename_i vs hvs
      obtain rfl := Except.ok.inj h
      exact stream_of_ofStream? hvs
    · simp at h
  · rintro rfl
    rw [ofStream?_stream]

theorem ofStream_stream (ws : List Word) : ofStream (stream ws) = .ok ws :=
  ofStream_eq_ok_iff.mpr rfl

theorem length_of_ofStream {bytes : Bytes} {ws : List Word} (h : ofStream bytes = .ok ws) :
    bytes.length = 4 * ws.length := by
  rw [← ofStream_eq_ok_iff.mp h, length_stream]

theorem exists_ofStream_iff {bytes : Bytes} : (∃ ws, ofStream bytes = .ok ws) ↔ 4 ∣ bytes.length := by
  rw [Nat.dvd_iff_mod_eq_zero, ← ofStream?_isSome_iff, ofStream]
  cases ofStream? bytes <;> simp

-- A number that a word holds.
def Fits (v : Int) : Prop :=
  0 ≤ v ∧ v < 0x100000000

theorem fits_toNat (w : Word) : Fits w.toNat := by
  have hlt := toNat_lt w
  exact ⟨by omega, by omega⟩

theorem toNat_ofInt_of_fits {v : Int} (h : Fits v) : ((ofInt v).toNat : Int) = v := by
  obtain ⟨hnonneg, hlt⟩ := h
  rw [toNat_ofInt]
  omega

theorem map_ofInt_toNat (ws : List Word) : (ws.map fun w => (w.toNat : Int)).map ofInt = ws := by
  rw [List.map_map]
  exact List.map_id'' ofInt_toNat ws

theorem map_toNat_ofInt {vs : List Int} (h : ∀ v ∈ vs, Fits v) :
    ((vs.map ofInt).map fun w => (w.toNat : Int)) = vs := by
  rw [List.map_map]
  exact (List.map_congr_left fun v hv => toNat_ofInt_of_fits (h v hv)).trans (List.map_id' vs)

-- The words of a stream, as numbers.
def numbers (bytes : Bytes) : Except RaggedStream (List Int) :=
  (ofStream bytes).map fun ws => ws.map fun w => (w.toNat : Int)

theorem numbers_eq_ok_iff {bytes : Bytes} {vs : List Int} :
    numbers bytes = .ok vs ↔ ∃ ws : List Word, vs = ws.map (fun w => (w.toNat : Int)) ∧ stream ws = bytes := by
  simp only [numbers, ← ofStream_eq_ok_iff]
  cases ofStream bytes with
  | error x => simp [Except.map]
  | ok ws => simp [Except.map, eq_comm]

theorem numbers_eq_error_iff {bytes : Bytes} {x : RaggedStream} :
    numbers bytes = .error x ↔ bytes.length % 4 ≠ 0 ∧ x = ⟨bytes.length⟩ := by
  rw [numbers, ofStream, Ne, ← ofStream?_isSome_iff]
  cases ofStream? bytes with
  | none => simp [Except.map, eq_comm]
  | some ws => simp [Except.map]

theorem streamOfInts?_eq_some_iff {vs : List Int} {bytes : Bytes} :
    streamOfInts? vs = some bytes ↔ (∀ v ∈ vs, Fits v) ∧ stream (vs.map ofInt) = bytes := by
  rw [streamOfInts?]
  simp [Fits]

theorem streamOfInts?_eq_none_iff {vs : List Int} : streamOfInts? vs = none ↔ ∃ v ∈ vs, ¬Fits v := by
  rw [streamOfInts?]
  simp [Fits]

-- Writing and reading are two sides of one relation.
theorem streamOfInts?_eq_some_iff_numbers {vs : List Int} {bytes : Bytes} :
    streamOfInts? vs = some bytes ↔ numbers bytes = .ok vs := by
  rw [streamOfInts?_eq_some_iff, numbers_eq_ok_iff]
  constructor
  · rintro ⟨hfits, hbytes⟩
    exact ⟨_, (map_toNat_ofInt hfits).symm, hbytes⟩
  · rintro ⟨ws, rfl, hbytes⟩
    refine ⟨fun v hv => ?_, by rwa [map_ofInt_toNat]⟩
    obtain ⟨w, -, rfl⟩ := List.mem_map.mp hv
    exact fits_toNat w

-- The words of a stream are packed as they are.
theorem streamOfInts?_toNat (ws : List Word) :
    streamOfInts? (ws.map fun w => (w.toNat : Int)) = some (stream ws) :=
  streamOfInts?_eq_some_iff_numbers.mpr (numbers_eq_ok_iff.mpr ⟨ws, rfl, rfl⟩)

-- A row is refused as a whole, and otherwise its parts are written one behind the other.
theorem streamOfInts?_append (vs us : List Int) :
    streamOfInts? (vs ++ us) = (streamOfInts? vs).bind fun left => (streamOfInts? us).map (left ++ ·) := by
  rw [streamOfInts?, streamOfInts?, streamOfInts?, List.all_append, List.map_append, stream_append]
  cases vs.all fun v => 0 ≤ v && v < 0x100000000 <;>
    cases us.all fun v => 0 ≤ v && v < 0x100000000 <;> rfl

theorem numbers_append {bytes more : Bytes} {vs us : List Int} (h : numbers bytes = .ok vs)
    (h' : numbers more = .ok us) : numbers (bytes ++ more) = .ok (vs ++ us) := by
  obtain ⟨ws, rfl, rfl⟩ := numbers_eq_ok_iff.mp h
  obtain ⟨ws', rfl, rfl⟩ := numbers_eq_ok_iff.mp h'
  exact numbers_eq_ok_iff.mpr ⟨ws ++ ws', List.map_append.symm, stream_append ws ws'⟩

-- What becomes of a row of numbers that is written.
structure Written (vs : List Int) : Prop where
  refused : streamOfInts? vs = none ↔ ∃ v ∈ vs, ¬Fits v
  split : ∀ bytes, streamOfInts? vs = some bytes → bytes = vs.flatMap fun v => (ofInt v).toBytes
  readBack : ∀ bytes, streamOfInts? vs = some bytes → numbers bytes = .ok vs
  append : ∀ us, streamOfInts? (vs ++ us) =
    (streamOfInts? vs).bind fun left => (streamOfInts? us).map fun right => left ++ right

-- What becomes of a stream of bytes that is read.
structure Read (bytes : Bytes) : Prop where
  refused : ∀ x, numbers bytes = .error x ↔ bytes.length % 4 ≠ 0 ∧ x = ⟨bytes.length⟩
  length : ∀ vs, numbers bytes = .ok vs → vs.length = bytes.length / 4
  values : ∀ vs, numbers bytes = .ok vs →
    ∀ (a : Nat) v, vs[a]? = some v → Fits v ∧ v = bigEndian bytes a
  writtenBack : ∀ vs, numbers bytes = .ok vs → streamOfInts? vs = some bytes
  append : ∀ vs more us, numbers bytes = .ok vs → numbers more = .ok us →
    numbers (bytes ++ more) = .ok (vs ++ us)

theorem streams_are_bijective (vs : List Int) (bytes : Bytes) : Written vs ∧ Read bytes := by
  refine ⟨⟨streamOfInts?_eq_none_iff, ?split, fun _ => streamOfInts?_eq_some_iff_numbers.mp,
    streamOfInts?_append vs⟩, ⟨fun _ => numbers_eq_error_iff, ?length, ?values,
    fun _ => streamOfInts?_eq_some_iff_numbers.mpr, fun _ _ _ => numbers_append⟩⟩
  case split =>
    intro bytes h
    rw [← (streamOfInts?_eq_some_iff.mp h).2, stream, List.flatMap_map]
  case length =>
    intro vs h
    obtain ⟨ws, rfl, rfl⟩ := numbers_eq_ok_iff.mp h
    rw [length_stream, List.length_map]
    omega
  case values =>
    intro vs h a v hv
    obtain ⟨ws, rfl, rfl⟩ := numbers_eq_ok_iff.mp h
    obtain ⟨w, hw, rfl⟩ : ∃ w, ws[a]? = some w ∧ (w.toNat : Int) = v := by simpa using hv
    obtain ⟨ha, rfl⟩ := List.getElem?_eq_some_iff.mp hw
    refine ⟨fits_toNat _, ?_⟩
    rw [List.getElem_eq_getD 0, toNat_getD_of_ofStream? (ofStream?_stream ws) ha]

end WordMachine.Word
