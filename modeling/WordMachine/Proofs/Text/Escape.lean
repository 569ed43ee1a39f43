import WordMachine.Proofs.Text.Numeral
import WordMachine.Text.Quoted

namespace WordMachine.Text

def IsAscii (c : Char) : Prop :=
  c.toNat < 128

theorem Writes.isAscii {base : Nat} (hb : base ≤ 16) {c : Char} {d : Nat} (h : Writes base c d) :
    IsAscii c :=
  h.forall (fun c _ => c.toNat < 128) (by decide) (by decide) hb

theorem isAscii_padZeros (width n : Nat) :
    ∀ c ∈ padZeros width (Nat.toDigits 16 n), IsAscii c := by
  intro c hc
  obtain ⟨ds, hds, -⟩ := exists_padZeros (by omega : 1 < 16) width n
  obtain ⟨d, hd⟩ := exists_writes hds c hc
  exact hd.isAscii (by omega)

theorem isAscii_codePointEscape (c : Char) : ∀ d ∈ codePointEscape c, IsAscii d := by
  have hmarked : ∀ (mark : Char) (width : Nat), IsAscii mark →
      ∀ d ∈ '\\' :: mark :: padZeros width (Nat.toDigits 16 c.toNat), IsAscii d := by
    intro mark width hmark d hd
    simp only [List.mem_cons] at hd
    rcases hd with rfl | rfl | hd
    · show '\\'.toNat < 128
      decide
    · exact hmark
    · exact isAscii_padZeros width c.toNat d hd
  have hletters : IsAscii 'x' ∧ IsAscii 'u' ∧ IsAscii 'U' := by
    simp only [IsAscii]
    decide
  rw [codePointEscape]
  split
  · exact hmarked 'x' 2 hletters.1
  · split
    · exact hmarked 'u' 4 hletters.2.1
    · exact hmarked 'U' 8 hletters.2.2

theorem isAscii_asciiEscaped (s : String) : ∀ c ∈ (asciiEscaped s).toList, IsAscii c := by
  intro d hd
  simp only [asciiEscaped, String.toList_ofList, List.mem_flatMap] at hd
  obtain ⟨c, _, hd⟩ := hd
  split at hd
  · rename_i hc
    simp only [List.mem_singleton] at hd
    rw [hd]
    exact hc
  · exact isAscii_codePointEscape c d hd

end WordMachine.Text
