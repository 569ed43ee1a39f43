import Mathlib.Data.Nat.Digits.Defs
import WordMachine.Text.Numeral

namespace WordMachine.Text

-- A character that stands for a digit. The ten digits of a script follow its zero in order; the digits
-- from ten on are the Latin letters, in either case.
inductive Figure (c : Char) : Nat → Prop where
  | script {z d : Nat} (hz : z ∈ digitZeros) (hd : d < 10) (hc : c.toNat = z + d) : Figure c d
  | lower {k : Nat} (hk : k < 26) (hc : c.toNat = 'a'.toNat + k) : Figure c (10 + k)
  | upper {k : Nat} (hk : k < 26) (hc : c.toNat = 'A'.toNat + k) : Figure c (10 + k)

-- No two scripts share a digit, and none of them takes a letter for one.
theorem digitZeros_apart {z z' : Nat} (hz : z ∈ digitZeros) (hz' : z' ∈ digitZeros) :
    z = z' ∨ z + 10 ≤ z' ∨ z' + 10 ≤ z := by
  have hordered : digitZeros.Pairwise fun z z' => z + 10 ≤ z' := by decide
  have happart : digitZeros.Pairwise fun z z' => z = z' ∨ z + 10 ≤ z' ∨ z' + 10 ≤ z :=
    hordered.imp fun h => .inr (.inl h)
  have hflipped : digitZeros.Pairwise (flip fun z z' => z = z' ∨ z + 10 ≤ z' ∨ z' + 10 ≤ z) :=
    hordered.imp fun h => Or.inr (Or.inr h)
  exact happart.forall_of_forall_of_flip (fun _ _ => .inl rfl) hflipped hz hz'

theorem digitZeros_not_letter {z : Nat} (hz : z ∈ digitZeros) : z + 10 ≤ 'A'.toNat ∨ 'z'.toNat < z := by
  have hall : ∀ z ∈ digitZeros, z + 10 ≤ 'A'.toNat ∨ 'z'.toNat < z := by decide
  exact hall z hz

theorem decimalDigit?_eq_some_iff {c : Char} {d : Nat} :
    decimalDigit? c = some d ↔ ∃ z ∈ digitZeros, d < 10 ∧ c.toNat = z + d := by
  constructor
  · intro h
    simp only [decimalDigit?, Option.map_eq_some_iff] at h
    obtain ⟨z, hfind, rfl⟩ := h
    have hrange := List.find?_some hfind
    simp only [Bool.and_eq_true, decide_eq_true_eq] at hrange
    exact ⟨z, List.mem_of_find?_eq_some hfind, by omega, by omega⟩
  · rintro ⟨z, hz, hd, hc⟩
    have hsome : (digitZeros.find? fun z => z ≤ c.toNat && c.toNat < z + 10).isSome = true := by
      rw [List.find?_isSome]
      exact ⟨z, hz, by simp only [Bool.and_eq_true, decide_eq_true_eq]; omega⟩
    obtain ⟨z', hfind⟩ := Option.isSome_iff_exists.mp hsome
    have hrange := List.find?_some hfind
    simp only [Bool.and_eq_true, decide_eq_true_eq] at hrange
    have hsame : z' = z := by
      rcases digitZeros_apart (List.mem_of_find?_eq_some hfind) hz with h | h | h
      · exact h
      · omega
      · omega
    rw [decimalDigit?, hfind, Option.map_some, hsame, hc, Nat.add_sub_cancel_left]

theorem letterDigit?_eq_some_iff {c : Char} {d : Nat} :
    letterDigit? c = some d ↔
      ∃ k < 26, (c.toNat = 'a'.toNat + k ∨ c.toNat = 'A'.toNat + k) ∧ d = 10 + k := by
  have ha : 'a'.toNat = 97 := rfl
  have hA : 'A'.toNat = 65 := rfl
  simp only [letterDigit?, ha, hA]
  constructor
  · intro h
    split at h
    · rw [Option.some.injEq] at h
      exact ⟨c.toNat - 97, by omega, by omega, by omega⟩
    · split at h
      · rw [Option.some.injEq] at h
        exact ⟨c.toNat - 65, by omega, by omega, by omega⟩
      · simp at h
  · rintro ⟨k, hk, hc | hc, rfl⟩
    · rw [if_pos (by omega), hc, Option.some.injEq]
      omega
    · rw [if_neg (by omega), if_pos (by omega), hc, Option.some.injEq]
      omega

theorem figure_iff {c : Char} {d : Nat} :
    (decimalDigit? c).or (letterDigit? c) = some d ↔ Figure c d := by
  rw [Option.or_eq_some_iff, decimalDigit?_eq_some_iff, letterDigit?_eq_some_iff]
  constructor
  · rintro (⟨z, hz, hd, hc⟩ | ⟨-, k, hk, hc | hc, rfl⟩)
    · exact .script hz hd hc
    · exact .lower hk hc
    · exact .upper hk hc
  · -- A letter is a digit of no script, so it is only looked at as a letter.
    have hnone : ∀ k < 26, c.toNat = 'a'.toNat + k ∨ c.toNat = 'A'.toNat + k → decimalDigit? c = none := by
      intro k hk hc
      rw [Option.eq_none_iff_forall_ne_some]
      intro e he
      obtain ⟨z, hz, hlt, hz'⟩ := decimalDigit?_eq_some_iff.mp he
      have hletter := digitZeros_not_letter hz
      simp only [show 'a'.toNat = 97 from rfl, show 'A'.toNat = 65 from rfl, show 'z'.toNat = 122 from rfl]
        at hc hletter
      omega
    intro h
    cases h with
    | script hz hd hc => exact .inl ⟨_, hz, hd, hc⟩
    | lower hk hc => exact .inr ⟨hnone _ hk (.inl hc), _, hk, .inl hc, rfl⟩
    | upper hk hc => exact .inr ⟨hnone _ hk (.inr hc), _, hk, .inr hc, rfl⟩

theorem digit?_eq_some_iff {base : Nat} {c : Char} {d : Nat} :
    digit? base c = some d ↔ Figure c d ∧ d < base := by
  rw [← figure_iff, digit?]
  constructor
  · intro h
    split at h
    · rename_i e he
      split at h
      · rename_i hlt
        rw [Option.some.injEq] at h
        exact ⟨h ▸ he, h ▸ hlt⟩
      · simp at h
    · simp at h
  · rintro ⟨h, hlt⟩
    simp only [h, if_pos hlt]

-- What is no digit of a script and no letter is a digit in no base.
theorem digit?_eq_none {c : Char} (h : (decimalDigit? c).or (letterDigit? c) = none) (base : Nat) :
    digit? base c = none := by
  simp only [digit?, h]

theorem digit?_underscore (base : Nat) : digit? base '_' = none :=
  digit?_eq_none (by decide) base

theorem Figure.ne {base d : Nat} {b c : Char} (hc : Figure c d) (hd : d < base) (hb : digit? base b = none) :
    c ≠ b := by
  rintro rfl
  rw [digit?_eq_some_iff.mpr ⟨hc, hd⟩] at hb
  simp at hb

-- The text of a numeral without sign and base mark, and its digits from the first to the last. A single
-- underscore may stand between two of them.
inductive Grouped (base : Nat) : List Char → List Nat → Prop where
  | last {c : Char} {d : Nat} (hc : Figure c d) (hd : d < base) : Grouped base [c] [d]
  | next {c : Char} {d : Nat} {s : List Char} {ds : List Nat} (hc : Figure c d) (hd : d < base)
      (h : Grouped base s ds) : Grouped base (c :: s) (d :: ds)
  | apart {c : Char} {d : Nat} {s : List Char} {ds : List Nat} (hc : Figure c d) (hd : d < base)
      (h : Grouped base s ds) : Grouped base (c :: '_' :: s) (d :: ds)

namespace Grouped

variable {base : Nat} {b c : Char} {s : List Char} {ds : List Nat}

theorem ne_nil (h : Grouped base s ds) : s ≠ [] := by
  cases h <;> simp

theorem head_ne (h : Grouped base (c :: s) ds) (hb : digit? base b = none) : c ≠ b := by
  cases h with
  | last hc hd | next hc hd _ | apart hc hd _ => exact hc.ne hd hb

theorem forall_lt (h : Grouped base s ds) : ∀ d ∈ ds, d < base := by
  induction h with
  | last _ hd => simpa using hd
  | next _ hd _ ih | apart _ hd _ ih => exact List.forall_mem_cons.mpr ⟨hd, ih⟩

-- Nothing but digits and underscores occurs in such a text.
theorem not_mem (h : Grouped base s ds) (hb : digit? base b = none) (hmark : b ≠ '_') : b ∉ s := by
  induction h with
  | last hc hd => simpa using (hc.ne hd hb).symm
  | next hc hd _ ih => simpa using ⟨(hc.ne hd hb).symm, ih⟩
  | apart hc hd _ ih => simpa using ⟨(hc.ne hd hb).symm, hmark, ih⟩

end Grouped

theorem digits?_eq_some_iff {base : Nat} {s : List Char} {ds : List Nat} :
    digits? base s = some ds ↔ Grouped base s ds := by
  constructor
  · intro h
    fun_induction digits? base s generalizing ds with
    | case1 => simp at h
    | case2 c =>
        obtain ⟨d, hd, rfl⟩ := Option.map_eq_some_iff.mp h
        obtain ⟨hc, hlt⟩ := digit?_eq_some_iff.mp hd
        exact .last hc hlt
    | case3 | case4 => simp at h
    | case5 c d s v hv vs hrest ih ih' =>
        obtain ⟨hc, hlt⟩ := digit?_eq_some_iff.mp hv
        rw [Option.some.injEq] at h
        subst h
        split at hrest
        · rename_i hd
          rw [hd]
          exact .apart hc hlt (ih hrest)
        · exact .next hc hlt (ih' hrest)
  · intro h
    induction h with
    | last hc hd => rw [digits?, digit?_eq_some_iff.mpr ⟨hc, hd⟩, Option.map_some]
    | next hc hd h ih =>
        -- What follows begins with a digit, so it is not taken for an underscore and what is behind it.
        obtain ⟨c', t, rfl⟩ := List.exists_cons_of_ne_nil h.ne_nil
        have hmark : c' ≠ '_' := h.head_ne (digit?_underscore base)
        simp only [digits?, digit?_eq_some_iff.mpr ⟨hc, hd⟩, if_neg hmark, ih]
    | apart hc hd h ih => simp only [digits?, digit?_eq_some_iff.mpr ⟨hc, hd⟩, if_true, ih]

theorem ofDigits_eq (base : Nat) (ds : List Nat) : ofDigits base ds = Nat.ofDigits base ds.reverse := by
  rw [Nat.ofDigits_eq_foldr, List.foldr_reverse, ofDigits]
  congr 1
  funext acc d
  simp only [Nat.cast_id]
  rw [Nat.mul_comm, Nat.add_comm]

theorem markedDigits?_eq_some_iff {base : Nat} {s : List Char} {n : Nat} :
    markedDigits? base s = some n ↔
      ∃ gap t ds, (gap = [] ∨ gap = ['_']) ∧ s = gap ++ t ∧ Grouped base t ds ∧ Nat.ofDigits base ds.reverse = n := by
  have hdigits : ∀ t, (digits? base t).map (ofDigits base) = some n ↔
      ∃ ds, Grouped base t ds ∧ Nat.ofDigits base ds.reverse = n := by
    intro t
    simp only [Option.map_eq_some_iff, digits?_eq_some_iff, ofDigits_eq]
  constructor
  · intro h
    rw [markedDigits?.eq_def] at h
    split at h
    · rename_i t
      obtain ⟨ds, hds, hvalue⟩ := (hdigits t).mp h
      exact ⟨['_'], t, ds, .inr rfl, rfl, hds, hvalue⟩
    · obtain ⟨ds, hds, hvalue⟩ := (hdigits s).mp h
      exact ⟨[], s, ds, .inl rfl, rfl, hds, hvalue⟩
  · rintro ⟨gap, t, ds, rfl | rfl, rfl, hds, hvalue⟩
    · have hread := (hdigits s).mpr ⟨ds, hds, hvalue⟩
      obtain ⟨c, t, rfl⟩ := List.exists_cons_of_ne_nil hds.ne_nil
      have hmark : c ≠ '_' := hds.head_ne (digit?_underscore base)
      simpa [markedDigits?, hmark] using hread
    · exact (hdigits t).mpr ⟨ds, hds, hvalue⟩

theorem unsignedDecimal?_eq_some_iff {s : List Char} {n : Nat} :
    unsignedDecimal? s = some n ↔
      ∃ ds, Grouped 10 s ds ∧ ds.length ≤ decimalLimit ∧ Nat.ofDigits 10 ds.reverse = n := by
  simp only [← digits?_eq_some_iff, ← ofDigits_eq, unsignedDecimal?]
  cases digits? 10 s with
  | none => simp
  | some ds => simp

-- What may stand before a decimal numeral, and what its value is multiplied by then.
def signs : List (List Char × Int) :=
  [([], 1), (['+'], 1), (['-'], -1)]

-- A sign is told from what it stands before as long as no sign can begin that.
theorem signed?_eq_some_iff {read : List Char → Option Nat}
    (hread : ∀ c s n, read (c :: s) = some n → c ≠ '-' ∧ c ≠ '+') {s : List Char} {v : Int} :
    signed? read s = some v ↔ ∃ p ∈ signs, ∃ t n, s = p.1 ++ t ∧ read t = some n ∧ p.2 * (n : Int) = v := by
  have hcast : ∀ t v, (do let n ← read t; pure (n : Int)) = some v → ∃ n, read t = some n ∧ v = n := by
    intro t v h
    cases hn : read t with
    | none => simp [hn] at h
    | some n => exact ⟨n, rfl, by simpa [hn] using h.symm⟩
  constructor
  · intro h
    rw [signed?.eq_def] at h
    split at h
    all_goals
      obtain ⟨u, hu, rfl⟩ := Option.map_eq_some_iff.mp h
      obtain ⟨n, hn, rfl⟩ := hcast _ u hu
    · exact ⟨(['-'], -1), by simp [signs], _, n, rfl, hn, by simp⟩
    · exact ⟨(['+'], 1), by simp [signs], _, n, rfl, hn, by simp⟩
    · exact ⟨([], 1), by simp [signs], _, n, rfl, hn, by simp⟩
  · rintro ⟨p, hp, t, n, rfl, hn, rfl⟩
    simp only [signs, List.mem_cons, List.not_mem_nil, or_false] at hp
    rcases hp with rfl | rfl | rfl
    · rw [List.nil_append, signed?]
      · simp [hn]
      · rintro s rfl
        exact (hread '-' s n hn).1 rfl
      · rintro s rfl
        exact (hread '+' s n hn).2 rfl
    · simp [signed?, hn]
    · simp [signed?, hn]

theorem decimalInt?_eq_some_iff {s : List Char} {v : Int} :
    decimalInt? s = some v ↔
      ∃ p ∈ signs, ∃ t ds, s = p.1 ++ t ∧ Grouped 10 t ds ∧ ds.length ≤ decimalLimit ∧
        p.2 * (Nat.ofDigits 10 ds.reverse : Nat) = v := by
  have hread : ∀ c s n, unsignedDecimal? (c :: s) = some n → c ≠ '-' ∧ c ≠ '+' := by
    intro c s n h
    obtain ⟨ds, hds, -⟩ := unsignedDecimal?_eq_some_iff.mp h
    exact ⟨hds.head_ne (by decide), hds.head_ne (by decide)⟩
  rw [decimalInt?, signed?_eq_some_iff hread]
  simp only [unsignedDecimal?_eq_some_iff]
  constructor
  · rintro ⟨p, hp, t, n, rfl, ⟨ds, hds, hlen, rfl⟩, rfl⟩
    exact ⟨p, hp, t, ds, rfl, hds, hlen, rfl⟩
  · rintro ⟨p, hp, t, ds, rfl, hds, hlen, rfl⟩
    exact ⟨p, hp, t, _, rfl, ⟨ds, hds, hlen, rfl⟩, rfl⟩

end WordMachine.Text
