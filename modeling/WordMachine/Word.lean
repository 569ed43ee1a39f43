import WordMachine.Text.Radix

namespace WordMachine

abbrev Word := UInt32

abbrev Bytes := List UInt8

-- The four bytes of a word, most significant first.
structure Quad where
  first : UInt8
  second : UInt8
  third : UInt8
  fourth : UInt8
  deriving DecidableEq, Repr

namespace Word

-- The word an integer leaves when all but its low 32 bits are dropped.
def ofInt (v : Int) : Word :=
  UInt32.ofNat (v % 0x100000000).toNat

def toQuad (w : Word) : Quad where
  first := UInt8.ofNat (w.toNat / 0x1000000)
  second := UInt8.ofNat (w.toNat / 0x10000)
  third := UInt8.ofNat (w.toNat / 0x100)
  fourth := UInt8.ofNat w.toNat

def ofQuad (q : Quad) : Word :=
  UInt32.ofNat
    (q.first.toNat * 0x1000000 + q.second.toNat * 0x10000 + q.third.toNat * 0x100 + q.fourth.toNat)

def toBytes (w : Word) : Bytes :=
  [w.toQuad.first, w.toQuad.second, w.toQuad.third, w.toQuad.fourth]

def stream (ws : List Word) : Bytes :=
  ws.flatMap toBytes

-- The words of a stream; none when the stream breaks off inside a word.
def ofStream? : Bytes → Option (List Word)
  | [] => some []
  | a :: b :: c :: d :: rest =>
      match ofStream? rest with
      | some ws => some (ofQuad ⟨a, b, c, d⟩ :: ws)
      | none => none
  | _ => none

-- A word from four numbers, each of which has to fit into a byte.
def compose? (a b c d : Int) : Option Word :=
  if [a, b, c, d].all (fun v => 0 ≤ v && v < 256) then
    some (ofQuad ⟨UInt8.ofNat a.toNat, UInt8.ofNat b.toNat, UInt8.ofNat c.toNat, UInt8.ofNat d.toNat⟩)
  else none

-- The stream of integers that all have to fit into a word.
def streamOfInts? (vs : List Int) : Option Bytes :=
  if vs.all (fun v => 0 ≤ v && v < 0x100000000) then some (stream (vs.map ofInt)) else none

-- Eight hexadecimal digits behind `0x`.
def hex (w : Word) : String :=
  Text.hexadecimal 10 (w.toNat : Int)

theorem toNat_lt (w : Word) : w.toNat < 0x100000000 :=
  UInt32.toNat_lt w

theorem toNat_ofInt (v : Int) : (ofInt v).toNat = (v % 0x100000000).toNat := by
  simp only [ofInt, UInt32.toNat_ofNat']
  omega

theorem ofInt_emod (v : Int) : ofInt (v % 0x100000000) = ofInt v := by
  simp [ofInt]

theorem ofInt_toNat (w : Word) : ofInt w.toNat = w := by
  apply UInt32.toNat_inj.mp
  have := toNat_lt w
  rw [toNat_ofInt]
  omega

theorem ofQuad_toQuad (w : Word) : ofQuad w.toQuad = w := by
  apply UInt32.toNat_inj.mp
  have := toNat_lt w
  simp only [ofQuad, toQuad, UInt32.toNat_ofNat', UInt8.toNat_ofNat']
  omega

theorem toQuad_ofQuad (q : Quad) : (ofQuad q).toQuad = q := by
  have h1 := q.first.toNat_lt
  have h2 := q.second.toNat_lt
  have h3 := q.third.toNat_lt
  have h4 := q.fourth.toNat_lt
  cases q with
  | mk a b c d =>
      simp only [ofQuad, toQuad, UInt32.toNat_ofNat', Quad.mk.injEq] at *
      refine ⟨?_, ?_, ?_, ?_⟩ <;> apply UInt8.toNat_inj.mp <;>
        simp only [UInt8.toNat_ofNat'] <;> omega

theorem stream_append (us vs : List Word) : stream (us ++ vs) = stream us ++ stream vs :=
  List.flatMap_append

theorem length_stream (ws : List Word) : (stream ws).length = 4 * ws.length := by
  induction ws with
  | nil => rfl
  | cons w ws ih =>
      simp only [stream, List.flatMap_cons, toBytes, List.length_append, List.length_cons,
        List.length_nil] at ih ⊢
      omega

-- Writing and reading streams undo each other, and reading takes every stream of whole words.
theorem ofStream?_stream (ws : List Word) : ofStream? (stream ws) = some ws := by
  induction ws with
  | nil => rfl
  | cons w ws ih =>
      simp only [stream] at ih
      simp only [stream, List.flatMap_cons, toBytes, List.cons_append, List.nil_append, ofStream?, ih]
      rw [show (⟨w.toQuad.first, w.toQuad.second, w.toQuad.third, w.toQuad.fourth⟩ : Quad) = w.toQuad
        from rfl, ofQuad_toQuad]

theorem stream_of_ofStream? {bytes : Bytes} {ws : List Word} (h : ofStream? bytes = some ws) :
    stream ws = bytes := by
  fun_induction ofStream? bytes generalizing ws with
  | case1 =>
      simp only [Option.some.injEq] at h
      subst h
      rfl
  | case2 a b c d rest vs hv ih =>
      simp only [Option.some.injEq] at h
      subst h
      have hr : List.flatMap toBytes vs = rest := ih hv
      simp only [stream, List.flatMap_cons, toBytes, toQuad_ofQuad, List.cons_append,
        List.nil_append, hr]
  | case3 => simp at h
  | case4 => simp at h

theorem ofStream?_isSome_iff (bytes : Bytes) : (ofStream? bytes).isSome ↔ bytes.length % 4 = 0 := by
  fun_induction ofStream? bytes with
  | case1 => simp
  | case2 a b c d rest vs hv ih =>
      simp only [hv, Option.isSome_some, true_iff] at ih
      simp only [Option.isSome_some, List.length_cons, true_iff]
      omega
  | case3 a b c d rest hv ih =>
      simp only [hv, Option.isSome_none, Bool.false_eq_true, false_iff] at ih
      simp only [Option.isSome_none, List.length_cons, Bool.false_eq_true, false_iff]
      omega
  | case4 bytes h0 h4 =>
      match bytes with
      | [] => exact absurd rfl h0
      | [_] | [_, _] | [_, _, _] => simp
      | a :: b :: c :: d :: rest => exact absurd rfl (h4 a b c d rest)

end Word

-- A byte stream that does not hold whole words.
structure RaggedStream where
  size : Nat
  deriving DecidableEq, Repr

def RaggedStream.message (e : RaggedStream) : String :=
  s!"{Text.decimal e.size} bytes is not a whole number of 4-byte words"

-- The words of a stream, or the size that is no multiple of four.
def Word.ofStream (bytes : Bytes) : Except RaggedStream (List Word) :=
  match Word.ofStream? bytes with
  | some ws => .ok ws
  | none => .error ⟨bytes.length⟩

end WordMachine
