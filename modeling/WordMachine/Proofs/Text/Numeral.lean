import WordMachine.Proofs.Text.Digit

namespace WordMachine.Text

theorem ofDigits_append (base : Nat) (ds : List Nat) (d : Nat) :
    ofDigits base (ds ++ [d]) = ofDigits base ds * base + d := by
  simp [ofDigits]

theorem ofDigits_zeros (base k : Nat) (ds : List Nat) :
    ofDigits base (List.replicate k 0 ++ ds) = ofDigits base ds := by
  have hzero : (List.replicate k 0).foldl (fun acc d => acc * base + d) 0 = 0 := by
    induction k with
    | zero => rfl
    | succ k ih => simpa [List.replicate_succ] using ih
  simp only [ofDigits, List.foldl_append, hzero]

-- The characters of a number write digits with its value.
theorem exists_toDigits {base : Nat} (hb : 1 < base) (n : Nat) :
    ∃ ds : List Nat, List.Forall₂ (Writes base) (Nat.toDigits base n) ds ∧ ofDigits base ds = n := by
  induction n using Nat.strongRecOn with
  | ind n ih =>
      by_cases hn : n < base
      · refine ⟨[n], ?_, by simp [ofDigits]⟩
        rw [Nat.toDigits_of_lt_base hn]
        exact .cons (writes_digitChar hn) .nil
      · obtain ⟨ds, hds, hvalue⟩ := ih (n / base) (Nat.div_lt_self (by omega) hb)
        have hlast : Writes base (Nat.digitChar (n % base)) (n % base) :=
          writes_digitChar (Nat.mod_lt n (by omega))
        refine ⟨ds ++ [n % base], ?_, ?_⟩
        · rw [Nat.toDigits_of_base_le hb (by omega)]
          exact List.rel_append hds (.cons hlast .nil)
        · rw [ofDigits_append, hvalue, Nat.div_add_mod']

-- Zeros in front of the digits of a number are digits of it too.
theorem exists_padZeros {base : Nat} (hb : 1 < base) (width n : Nat) :
    ∃ ds : List Nat, List.Forall₂ (Writes base) (padZeros width (Nat.toDigits base n)) ds ∧
      ofDigits base ds = n := by
  obtain ⟨ds, hds, hvalue⟩ := exists_toDigits hb n
  have hzero : Writes base '0' 0 := writes_digitChar (by omega)
  have hzeros : ∀ k, List.Forall₂ (Writes base) (List.replicate k '0') (List.replicate k 0) := by
    intro k
    induction k with
    | zero => exact .nil
    | succ k ih => exact .cons hzero ih
  exact ⟨_, List.rel_append (hzeros _) hds, by rw [ofDigits_zeros, hvalue]⟩

theorem padZeros_toDigits_ne_nil (base width n : Nat) : padZeros width (Nat.toDigits base n) ≠ [] := by
  simp [padZeros, Nat.toDigits_ne_nil]

theorem markedDigits?_padZeros {base : Nat} (hb : 1 < base) (hb' : base ≤ 16) (width n : Nat) :
    markedDigits? base (padZeros width (Nat.toDigits base n)) = some n := by
  obtain ⟨ds, hds, hvalue⟩ := exists_padZeros hb width n
  rw [markedDigits?_of_writes hb' hds (padZeros_toDigits_ne_nil base width n), hvalue]

theorem length_toDigits_le_iff {n m : Nat} (hm : 0 < m) :
    (Nat.toDigits 10 n).length ≤ m ↔ n < Nat.pow 10 m :=
  Nat.length_toDigits_le_iff (by omega) hm

theorem toList_decimal (n : Int) :
    (decimal n).toList = (if n < 0 then ['-'] else []) ++ Nat.toDigits 10 n.natAbs := by
  rw [decimal, String.toList_append, String.toList_ofList]
  split <;> rfl

-- Decimal text reads back as long as it is short enough to be read at all.
theorem decimalInt?_decimal {n : Int} (h : n.natAbs < Nat.pow 10 decimalLimit) :
    decimalInt? (decimal n).toList = some n := by
  obtain ⟨ds, hds, hvalue⟩ := exists_toDigits (by omega : 1 < 10) n.natAbs
  have hlen := (length_toDigits_le_iff (by decide)).mpr h
  have hread : ∀ p ∈ signs, decimalInt? (p.1 ++ Nat.toDigits 10 n.natAbs) = some (p.2 * n.natAbs) := by
    intro p hp
    rw [decimalInt?_of_writes hp hds Nat.toDigits_ne_nil hlen, hvalue]
  rw [toList_decimal]
  split
  · rw [hread (['-'], -1) (by simp [signs]), Option.some.injEq]
    omega
  · rw [hread ([], 1) (by simp [signs]), Option.some.injEq]
    omega

-- What is read is short enough to be written.
theorem lt_of_decimalInt? {s : List Char} {n : Int} (h : decimalInt? s = some n) :
    n.natAbs < Nat.pow 10 decimalLimit := by
  obtain ⟨p, hp, t, ds, -, hds, hlen, rfl⟩ := decimalInt?_eq_some_iff.mp h
  have hlt : Nat.ofDigits 10 ds.reverse < 10 ^ ds.reverse.length :=
    Nat.ofDigits_lt_base_pow_length (by omega) (by simpa using hds.forall_lt)
  rw [List.length_reverse] at hlt
  have hsign : p.2.natAbs = 1 := by
    simp only [signs, List.mem_cons, List.not_mem_nil, or_false] at hp
    rcases hp with rfl | rfl | rfl <;> rfl
  rw [Int.natAbs_mul, hsign, Nat.one_mul, Int.natAbs_natCast]
  exact lt_pow_decimalLimit hlt hlen

-- What is true of a minus sign and of the ten digits is true of all that is written in decimal.
theorem forall_mem_decimal {p : Char → Prop} (hminus : p '-') (hdigit : ∀ d < 10, p (Nat.digitChar d))
    (n : Int) : ∀ c ∈ (decimal n).toList, p c := by
  have hdigits : ∀ c ∈ Nat.toDigits 10 n.natAbs, p c := by
    have hupper : ∀ d < 10, (Nat.digitChar d).toUpper = Nat.digitChar d := by decide
    obtain ⟨ds, hds, -⟩ := exists_toDigits (by omega : 1 < 10) n.natAbs
    intro c hc
    obtain ⟨d, hd, rfl | rfl⟩ := exists_writes hds c hc
    · exact hdigit d hd
    · rw [hupper d hd]
      exact hdigit d hd
  intro c hc
  rw [toList_decimal, List.mem_append] at hc
  rcases hc with hc | hc
  · split at hc
    · rwa [List.mem_singleton.mp hc]
    · simp at hc
  · exact hdigits c hc

theorem toDigits_ne_zero_cons (n : Nat) (c : Char) (s : List Char) : Nat.toDigits 10 n ≠ '0' :: c :: s := by
  intro h
  obtain ⟨ds, hds, hvalue⟩ := exists_toDigits (by omega : 1 < 10) n
  rw [h] at hds
  cases hds with
  | @cons _ d _ ds hd hds =>
      have hzero : d = 0 := by
        have hall : ∀ d < 10, ('0' = Nat.digitChar d ∨ '0' = (Nat.digitChar d).toUpper) → d = 0 := by decide
        exact hall d hd.1 hd.2
      subst hzero
      have hlt : n < 10 ^ (c :: s).length := by
        rw [← hvalue, ofDigits_eq, List.reverse_cons, Nat.ofDigits_append, Nat.ofDigits_singleton,
          Nat.mul_zero, Nat.add_zero]
        exact ofDigits_lt_of_writes (by omega) hds (Nat.le_refl _)
      have hlength := (length_toDigits_le_iff (by simp)).mpr hlt
      rw [h] at hlength
      simp at hlength

theorem map_plainDigit_decimal (n : Int) : (decimal n).toList.map plainDigit = (decimal n).toList := by
  have hsame : ∀ c ∈ (decimal n).toList, plainDigit c = c :=
    forall_mem_decimal (p := fun c => plainDigit c = c) (by decide) (by decide) n
  exact (List.map_congr_left hsame).trans (List.map_id _)

-- Numbers have no zeros in front, so the marks of the other bases are not looked for.
theorem plainOrMarked?_toDigits (n : Nat) :
    plainOrMarked? (Nat.toDigits 10 n) = unsignedDecimal? (Nat.toDigits 10 n) := by
  rw [plainOrMarked?]
  intro c s h
  exact toDigits_ne_zero_cons n c s h

theorem signed?_toDigits (read : List Char → Option Nat) (n : Nat) :
    signed? read (Nat.toDigits 10 n) = (read (Nat.toDigits 10 n)).map fun n => (n : Int) := by
  obtain ⟨ds, hds, -⟩ := exists_toDigits (by omega : 1 < 10) n
  have hgrouped := grouped_of_writes (by omega) hds Nat.toDigits_ne_nil
  rw [signed?]
  · intro s hs
    rw [hs] at hgrouped
    exact hgrouped.head_ne (by decide) rfl
  · intro s hs
    rw [hs] at hgrouped
    exact hgrouped.head_ne (by decide) rfl

theorem markedInt?_decimal {n : Int} (h : n.natAbs < Nat.pow 10 decimalLimit) :
    markedInt? (decimal n).toList = some n := by
  have hread := decimalInt?_decimal h
  rw [markedInt?, map_plainDigit_decimal]
  rw [← hread, decimalInt?, toList_decimal]
  split
  · simp only [List.singleton_append, signed?, plainOrMarked?_toDigits]
  · simp only [List.nil_append, signed?_toDigits, plainOrMarked?_toDigits]

theorem trimNumber_decimal (n : Int) : trimNumber (decimal n).toList = (decimal n).toList := by
  have hstop : ∀ s : List Char, (∀ c ∈ s, isNumberBlank c = false) → s.dropWhile isNumberBlank = s := by
    intro s hs
    cases s with
    | nil => rfl
    | cons c s => simp [hs c (by simp)]
  have hwritten : ∀ c ∈ (decimal n).toList, isNumberBlank c = false :=
    forall_mem_decimal (p := fun c => isNumberBlank c = false) (by decide) (by decide) n
  rw [trimNumber, hstop _ hwritten, hstop _ (fun c hc => hwritten c (List.mem_reverse.mp hc)),
    List.reverse_reverse]

end WordMachine.Text
