import WordMachine.Instruction.Disassembly
import WordMachine.Proofs.Instruction.Builder
import WordMachine.Proofs.Text.Padding

namespace WordMachine

-- An address in decimal digits, an immediate in four hexadecimal ones.
def OperandKind.written : OperandKind → Int → String
  | .address, v => String.ofList (Nat.toDigits 10 v.toNat)
  | .immediate, v => "0x" ++ String.ofList (Text.lastDigits 16 4 v.toNat)

theorem OperandKind.show_eq_written {kind : OperandKind} {v : Int} (h : 0 ≤ v ∧ v ≤ kind.limit) :
    kind.show v = kind.written v := by
  cases kind with
  | address =>
      have habs : v.natAbs = v.toNat := by omega
      rw [OperandKind.show, OperandKind.written, Text.decimal, if_neg (by omega), String.empty_append, habs]
  | immediate =>
      have hshort : v.toNat < Nat.pow 16 4 := by
        simp only [OperandKind.limit] at h
        simp only [Nat.pow_eq]
        omega
      exact Text.hexadecimal_eq_lastDigits (by omega) h.1 hshort

theorem Word.hex_eq_lastDigits (w : Word) :
    w.hex = "0x" ++ String.ofList (Text.lastDigits 16 8 w.toNat) :=
  Text.hexadecimal_eq_lastDigits (by omega) (by omega) w.toNat_lt

namespace Instruction

-- The mnemonic, and behind a space the operands with commas between them, when there are any.
def line (op : Opcode) (vs : List Int) : String :=
  if vs = [] then op.mnemonic
  else op.mnemonic ++ " " ++ ", ".intercalate ((op.operandKinds.zip vs).map fun f => f.1.written f.2)

-- An instruction of the operation with these operands can be built, and this is its word.
def Produces (op : Opcode) (vs : List Int) (w : Word) : Prop :=
  ∃ i, build op.mnemonic vs = .ok i ∧ i.encode = .ok w.toNat

theorem produces_iff {op : Opcode} {vs : List Int} {w : Word} :
    Produces op vs w ↔
      (decode w).opcode? = some op ∧ (decode w).operands = vs ∧ (decode w).toWord = w := by
  have hname := Opcode.ofMnemonic?_mnemonic op
  constructor
  · rintro ⟨i, hbuild, hencode⟩
    obtain ⟨hop, hvs, hfits⟩ := (build_eq_ok_iff hname).mp hbuild
    have hdecode : decode w = i := by
      rw [← Word.ofInt_toNat w]
      exact decode_of_encode hop hencode
    rw [encode_of_fits hop hfits, Except.ok.injEq, Int.natCast_inj, UInt32.toNat_inj] at hencode
    rw [hdecode]
    exact ⟨hop, hvs, hencode⟩
  · rintro ⟨hop, hvs, hword⟩
    have hfits := fits_decode w
    refine ⟨decode w, (build_eq_ok_iff hname).mpr ⟨hop, hvs, hfits⟩, ?_⟩
    rw [encode_of_fits hop hfits, hword]

theorem notate_fields {i : Instruction} {op : Opcode} (hop : i.opcode? = some op) (h : i.Fits) :
    notate op i.fields = line op i.operands := by
  have hshow : i.fields.map (fun f => f.1.show f.2) = i.fields.map (fun f => f.1.written f.2) :=
    List.map_congr_left fun f hf => OperandKind.show_eq_written (h f hf)
  have hempty : i.operands = [] ↔ i.fields = [] := by
    rw [← map_snd_fields hop, List.map_eq_nil_iff]
  rw [line, ← fields_eq_zip hop, ← hshow, if_congr hempty rfl rfl]
  cases i.fields <;> rfl

theorem disassemble_of_produces {op : Opcode} {vs : List Int} {w : Word} (h : Produces op vs w) :
    disassemble w = line op vs := by
  obtain ⟨hop, rfl, hword⟩ := produces_iff.mp h
  simp only [disassemble, hop, if_pos hword]
  exact notate_fields hop (fits_decode w)

theorem disassemble_of_not_produces {w : Word} (h : ¬∃ op vs, Produces op vs w) :
    disassemble w = ".word 0x" ++ String.ofList (Text.lastDigits 16 8 w.toNat) := by
  have hword : ".word " ++ w.hex = ".word 0x" ++ String.ofList (Text.lastDigits 16 8 w.toNat) := by
    rw [Word.hex_eq_lastDigits, ← String.append_assoc]
    rfl
  simp only [disassemble]
  cases hop : (decode w).opcode? with
  | none => exact hword
  | some op =>
      have hother : (decode w).toWord ≠ w := fun heq => h ⟨op, _, produces_iff.mpr ⟨hop, rfl, heq⟩⟩
      simp only [if_neg hother]
      exact hword

-- The word of a decoded instruction always exists, so a word is never without a text.
theorem disassembly_shows_what_is_built :
    (∀ v : Int, disassemble (.ofInt v) = disassemble (.ofInt (v % 0x100000000)) ∧
      ∃ u, (decode (.ofInt v)).encode = .ok u) ∧
    ∀ w : Word,
      (∀ op vs, Produces op vs w →
        (∀ op' vs', Produces op' vs' w → op' = op ∧ vs' = vs) ∧ disassemble w = line op vs) ∧
      ((¬∃ op vs, Produces op vs w) →
        disassemble w = ".word 0x" ++ String.ofList (Text.lastDigits 16 8 w.toNat)) := by
  refine ⟨?_, ?_⟩
  · intro v
    exact ⟨by rw [Word.ofInt_emod], _, encode_decode _⟩
  · intro w
    refine ⟨?_, disassemble_of_not_produces⟩
    intro op vs h
    refine ⟨?_, disassemble_of_produces h⟩
    intro op' vs' h'
    obtain ⟨hop, hvs, -⟩ := produces_iff.mp h
    obtain ⟨hop', hvs', -⟩ := produces_iff.mp h'
    exact ⟨Option.some.inj (hop'.symm.trans hop), hvs'.symm.trans hvs⟩

-- A store, and the same move with a byte set that moves ignore.
theorem disassembly_shows_what_is_built_or_digits :
    disassemble 0x02C80048 = "str 200, 0x0048" ∧ disassemble 0x01000100 = ".word 0x01000100" := by
  have hstore : Produces .str [200, 0x48] 0x02C80048 := ⟨.str 200 0x48, by decide, by decide⟩
  have hnone : ¬∃ op vs, Produces op vs 0x01000100 := by
    rintro ⟨op, vs, h⟩
    exact absurd (produces_iff.mp h).2.2 (by decide)
  constructor
  · rw [((disassembly_shows_what_is_built.2 0x02C80048).1 .str _ hstore).2]
    rfl
  · rw [(disassembly_shows_what_is_built.2 0x01000100).2 hnone]
    rfl

end Instruction

end WordMachine
