import WordMachine.Proofs.Instruction.Operand

namespace WordMachine

-- The bytes of a word, with those set to zero that its operation ignores.
def Quad.cleared (q : Quad) : Quad :=
  match Opcode.ofCode? q.first with
  | some .eof => { q with second := 0, third := 0, fourth := 0 }
  | some .jmp | some .jz | some .prn => { q with third := 0, fourth := 0 }
  | some .mov | some .mop | some .mul | some .div => { q with third := 0 }
  | some .cmp => { q with fourth := 0 }
  | some .str | some .adi | some .sui | none => q

namespace Instruction

-- Addresses fit into a byte and immediates into two.
def Fits (i : Instruction) : Prop :=
  ∀ f ∈ i.fields, 0 ≤ f.2 ∧ f.2 ≤ f.1.limit

instance (i : Instruction) : Decidable i.Fits :=
  inferInstanceAs (Decidable (∀ f ∈ i.fields, 0 ≤ f.2 ∧ f.2 ≤ f.1.limit))

theorem fits_iff (i : Instruction) : i.Fits ↔ ∀ f ∈ i.fields, f.1.admits f.2 = true := by
  simp only [Fits, OperandKind.admits_iff]

theorem fits_decode (w : Word) : (decode w).Fits :=
  (fits_iff _).mpr (admits_fields_decode w)

theorem misfit?_eq_none_iff (i : Instruction) : i.misfit? = none ↔ i.Fits := by
  rw [fits_iff, misfit?]
  split
  · rename_i f hf
    have hmem := List.mem_of_find?_eq_some hf
    have hbad := List.find?_some hf
    simp only [Bool.and_eq_true, Bool.not_eq_true'] at hbad
    simp only [reduceCtorEq, false_iff]
    intro hall
    rw [hall f hmem] at hbad
    simp at hbad
  · split <;> simp_all

theorem encode_eq {i : Instruction} {op : Opcode} (hop : i.opcode? = some op) :
    i.encode =
      match i.misfit? with
      | some e => .error e
      | none => .ok i.toWord.toNat := by
  cases i with
  | unknown _ _ => simp [opcode?] at hop
  | _ => rfl

theorem encode_of_fits {i : Instruction} {op : Opcode} (hop : i.opcode? = some op) (h : i.Fits) :
    i.encode = .ok i.toWord.toNat := by
  rw [encode_eq hop, (misfit?_eq_none_iff i).mpr h]

theorem encode_eq_error_iff {i : Instruction} {op : Opcode} (hop : i.opcode? = some op) :
    (∃ e, i.encode = .error e) ↔ ¬i.Fits := by
  rw [encode_eq hop, ← misfit?_eq_none_iff]
  cases i.misfit? <;> simp

theorem toNat_ofNat_byte {a : Int} (h : 0 ≤ a ∧ a ≤ OperandKind.address.limit) :
    ((UInt8.ofNat (a % 256).toNat).toNat : Int) = a := by
  simp only [OperandKind.limit] at h
  rw [UInt8.toNat_ofNat']
  omega

theorem toNat_ofNat_bytes {v : Int} (h : 0 ≤ v ∧ v ≤ OperandKind.immediate.limit) :
    ((UInt8.ofNat (v / 256 % 256).toNat).toNat : Int) * 256 + (UInt8.ofNat (v % 256).toNat).toNat = v := by
  simp only [OperandKind.limit] at h
  rw [UInt8.toNat_ofNat', UInt8.toNat_ofNat']
  omega

theorem toQuad_layout (op : Opcode) (a high low : Int) :
    (layout op a high low).toQuad =
      ⟨op.code, UInt8.ofNat (a % 256).toNat, UInt8.ofNat (high % 256).toNat,
        UInt8.ofNat (low % 256).toNat⟩ :=
  Word.toQuad_ofQuad _

theorem code_toWord {i : Instruction} {op : Opcode} (hop : i.opcode? = some op) :
    i.toWord.toQuad.first = op.code := by
  cases i <;> simp only [opcode?, Option.some.injEq, reduceCtorEq] at hop <;> subst hop <;>
    rw [toWord, toQuad_layout]

-- Every operand is found again where its operation looks for it.
theorem decode_toWord {i : Instruction} {op : Opcode} (hop : i.opcode? = some op) (h : i.Fits) :
    decode i.toWord = i := by
  cases i with
  | eof => rfl
  | unknown _ _ => simp [opcode?] at hop
  | jmp a | jz a | prn a =>
      have ha := h (.address, a) (by simp [fields, opcode?, Opcode.operandKinds, operands])
      rw [toWord, decode, toQuad_layout]
      simp only [Opcode.ofCode?_code, toNat_ofNat_byte ha]
  | mov a b | mop a b | mul a b | div a b | cmp a b =>
      have ha := h (.address, a) (by simp [fields, opcode?, Opcode.operandKinds, operands])
      have hb := h (.address, b) (by simp [fields, opcode?, Opcode.operandKinds, operands])
      rw [toWord, decode, toQuad_layout]
      simp only [Opcode.ofCode?_code, toNat_ofNat_byte ha, toNat_ofNat_byte hb]
  | str a v | adi a v | sui a v =>
      have ha := h (.address, a) (by simp [fields, opcode?, Opcode.operandKinds, operands])
      have hv := h (.immediate, v) (by simp [fields, opcode?, Opcode.operandKinds, operands])
      rw [toWord, decode, toQuad_layout]
      simp only [Opcode.ofCode?_code, toNat_ofNat_byte ha, toNat_ofNat_bytes hv]

theorem ofNat_byte (b : UInt8) : UInt8.ofNat ((b.toNat : Int) % 256).toNat = b := by
  have h := b.toNat_lt
  apply UInt8.toNat_inj.mp
  rw [UInt8.toNat_ofNat']
  omega

theorem ofNat_high_byte (high low : UInt8) :
    UInt8.ofNat (((high.toNat : Int) * 256 + low.toNat) / 256 % 256).toNat = high := by
  have hl := low.toNat_lt
  have hquotient : ((high.toNat : Int) * 256 + low.toNat) / 256 = high.toNat := by omega
  rw [hquotient, ofNat_byte]

theorem ofNat_low_byte (high low : UInt8) :
    UInt8.ofNat (((high.toNat : Int) * 256 + low.toNat) % 256).toNat = low := by
  have hremainder : ((high.toNat : Int) * 256 + low.toNat) % 256 = (low.toNat : Int) % 256 := by omega
  rw [hremainder, ofNat_byte]

-- The word of a decoded instruction has every byte that was read in its place, and zero elsewhere.
theorem toWord_decode (w : Word) : (decode w).toWord = .ofQuad w.toQuad.cleared := by
  cases hcode : Opcode.ofCode? w.toQuad.first with
  | none =>
      simp only [decode, hcode, toWord, Quad.cleared, Word.ofQuad_toQuad, Word.ofInt_toNat]
  | some op =>
      have hfirst := Opcode.code_of_ofCode? hcode
      cases op with
      | eof | jmp | jz | prn | mov | mop | mul | div | cmp =>
          simp [decode, hcode, toWord, layout, Quad.cleared, hfirst, ofNat_byte]
      | str | adi | sui =>
          simp only [decode, hcode, toWord, layout, Quad.cleared, hfirst, ofNat_byte,
            ofNat_high_byte, ofNat_low_byte]

theorem encode_decode (w : Word) :
    (decode w).encode = .ok (Word.ofQuad w.toQuad.cleared).toNat := by
  cases hop : (decode w).opcode? with
  | some op => rw [encode_of_fits hop (fits_decode w), toWord_decode]
  | none =>
      -- What is no operation gives back the word it keeps, which has nothing to clear.
      cases hcode : Opcode.ofCode? w.toQuad.first with
      | none =>
          simp only [decode, hcode, encode, Quad.cleared, Word.ofQuad_toQuad]
      | some op => cases op <;> simp [decode, hcode, opcode?] at hop

theorem exists_word_of_fits {i : Instruction} {op : Opcode} (hop : i.opcode? = some op) (h : i.Fits) :
    ∃ w : Word, i.encode = .ok w.toNat ∧ decode w = i :=
  ⟨i.toWord, encode_of_fits hop h, decode_toWord hop h⟩

theorem decode_of_encode {i : Instruction} {op : Opcode} (hop : i.opcode? = some op) {v : Int}
    (h : i.encode = .ok v) : decode (.ofInt v) = i := by
  have hfits : i.Fits := by
    by_contra hmisfit
    obtain ⟨e, he⟩ := (encode_eq_error_iff hop).mpr hmisfit
    rw [he] at h
    simp at h
  obtain ⟨w, hw, hdecode⟩ := exists_word_of_fits hop hfits
  rw [hw, Except.ok.injEq] at h
  rw [← h, Word.ofInt_toNat, hdecode]

theorem coding_round_trips :
    (∀ (i : Instruction) (op : Opcode), i.opcode? = some op →
      ((∃ e, i.encode = .error e) ↔ ¬i.Fits) ∧
      (i.Fits → ∃ w : Word, i.encode = .ok w.toNat ∧ decode w = i) ∧
      ∀ (j : Instruction) (op' : Opcode) (v : Int), j.opcode? = some op' →
        i.encode = .ok v → j.encode = .ok v → i = j) ∧
    ∀ v : Int,
      ((Word.ofInt v).toNat : Int) = v % 0x100000000 ∧
      decode (.ofInt (v % 0x100000000)) = decode (.ofInt v) ∧
      (decode (.ofInt v)).encode = .ok (Word.ofQuad (Word.ofInt v).toQuad.cleared).toNat := by
  constructor
  · intro i op hop
    refine ⟨encode_eq_error_iff hop, exists_word_of_fits hop, ?_⟩
    intro j op' v hop' hi hj
    rw [← decode_of_encode hop hi, decode_of_encode hop' hj]
  · intro v
    refine ⟨?_, ?_, encode_decode _⟩
    · rw [Word.toNat_ofInt]
      omega
    · rw [Word.ofInt_emod]

-- The greatest operands there are, one beyond them, and a word with bytes to clear.
theorem coding_round_trips_at_limits :
    (∃ w : Word, (str 255 65535).encode = .ok w.toNat ∧ decode w = str 255 65535) ∧
      (∃ e, (cmp 0 256).encode = .error e) ∧
      (decode (.ofInt (-1))).encode = .ok 0xFF000000 :=
  ⟨(coding_round_trips.1 (str 255 65535) .str rfl).2.1 (by decide),
    (coding_round_trips.1 (cmp 0 256) .cmp rfl).1.mpr (by decide),
    (coding_round_trips.2 (-1)).2.2⟩

end Instruction

end WordMachine
