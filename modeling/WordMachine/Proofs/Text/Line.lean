import Mathlib.Data.List.Basic
import Mathlib.Data.List.TakeWhile
import WordMachine.Text.Blank

namespace WordMachine.Text

-- A text with its line ends unified: a carriage return with a newline behind it, and each of them alone, comes to
-- one newline.
inductive Unifies : List Char → List Char → Prop where
  | nil : Unifies [] []
  | pair {s t : List Char} (h : Unifies s t) : Unifies ('\r' :: '\n' :: s) ('\n' :: t)
  | alone {s t : List Char} (hs : s.head? ≠ some '\n') (h : Unifies s t) : Unifies ('\r' :: s) ('\n' :: t)
  | other {c : Char} {s t : List Char} (hc : c ≠ '\r') (h : Unifies s t) : Unifies (c :: s) (c :: t)

theorem unifies_iff {s t : List Char} : Unifies s t ↔ t = unifyLineEnds s := by
  constructor
  · intro h
    induction h with
    | nil => rfl
    | pair _ ih => rw [unifyLineEnds, ih]
    | @alone s _ hs _ ih =>
        rw [unifyLineEnds, ih]
        rintro t rfl
        exact hs rfl
    | other hc _ ih =>
        rw [unifyLineEnds, ih]
        · rintro t rfl
          exact absurd rfl hc
        · exact hc
  · rintro rfl
    fun_induction unifyLineEnds s with
    | case1 => exact .nil
    | case2 _ ih => exact .pair ih
    | case3 s hs ih =>
        refine .alone ?_ ih
        cases s with
        | nil => simp
        | cons c s => simpa using fun hc : c = '\n' => hs s (by rw [hc])
    | case4 c s _ hc ih => exact .other hc ih

theorem lines_of_not_mem {s : List Char} (hs : '\n' ∉ s) : lines s = [s] := by
  induction s with
  | nil => rfl
  | cons c s ih =>
      have hc : c ≠ '\n' := fun h => hs (by simp [h])
      obtain ⟨line, more, hline, hcons⟩ := lines_cons hc s
      rw [ih (fun h => hs (List.mem_cons_of_mem c h))] at hline
      rw [hcons, ← (List.cons.inj hline).1, ← (List.cons.inj hline).2]

-- A text is a single line, or a line with more of the text behind its newline.
theorem exists_line (s : List Char) :
    ('\n' ∉ s ∧ lines s = [s]) ∨
      ∃ line rest, '\n' ∉ line ∧ s = line ++ '\n' :: rest ∧ lines s = line :: lines rest := by
  by_cases hs : '\n' ∈ s
  · obtain ⟨line, rest, rfl, hline⟩ := List.eq_append_cons_of_mem hs
    refine Or.inr ⟨line, rest, hline, rfl, ?_⟩
    rw [lines_append_newline, lines_of_not_mem hline, List.singleton_append]
  · exact Or.inl ⟨hs, lines_of_not_mem hs⟩

theorem newline_not_mem_of_mem_lines {s line : List Char} (h : line ∈ lines s) : '\n' ∉ line := by
  rcases exists_line s with ⟨hs, hlines⟩ | ⟨first, rest, hfirst, hs, hlines⟩
  · rw [hlines, List.mem_singleton] at h
    exact h ▸ hs
  · rw [hlines, List.mem_cons] at h
    rcases h with rfl | h
    · exact hfirst
    · have hless : rest.length < s.length := by
        rw [hs, List.length_append, List.length_cons]
        omega
      exact newline_not_mem_of_mem_lines h
termination_by s.length

theorem lines_intercalate {ls : List (List Char)} (hne : ls ≠ []) (hls : ∀ l ∈ ls, '\n' ∉ l) :
    lines (['\n'].intercalate ls) = ls := by
  induction ls with
  | nil => exact absurd rfl hne
  | cons l ls ih =>
      have hl := lines_of_not_mem (hls l (by simp))
      cases ls with
      | nil => simpa using hl
      | cons m ms =>
          have hrest := ih (by simp) (fun k hk => hls k (List.mem_cons_of_mem l hk))
          rw [List.intercalate_cons_cons, List.append_assoc, List.singleton_append,
            lines_append_newline, hl, hrest]
          rfl

theorem trim_of_ends {s : List Char} (hfirst : ∀ c, s.head? = some c → isBlank c = false)
    (hlast : ∀ c, s.getLast? = some c → isBlank c = false) : trim s = s := by
  have hleft : ∀ t : List Char, (∀ c, t.head? = some c → isBlank c = false) → t.dropWhile isBlank = t := by
    intro t ht
    cases t with
    | nil => rfl
    | cons c t => simp [ht c rfl]
  have hreverse : ∀ c, s.reverse.head? = some c → isBlank c = false := by
    simpa only [List.head?_reverse] using hlast
  simp only [trim, trimLeft, trimRight, hleft s hfirst, hleft s.reverse hreverse, List.reverse_reverse]

theorem dropWhile_append_of_head {p : Char → Bool} {t : List Char}
    (ht : ∀ c, t.head? = some c → p c = false) (s : List Char) :
    (s ++ t).dropWhile p = s.dropWhile p ++ t := by
  have hstop : t.dropWhile p = t := by
    cases t with
    | nil => rfl
    | cons c t => simp [ht c rfl]
  rw [List.dropWhile_append, hstop]
  split <;> simp_all

-- Trimming stops at a middle part that is not blank at its ends.
theorem trim_append {s : List Char} (hne : s ≠ []) (hfirst : ∀ c, s.head? = some c → isBlank c = false)
    (hlast : ∀ c, s.getLast? = some c → isBlank c = false) (lead tail : List Char) :
    trim (lead ++ s ++ tail) = trimLeft lead ++ s ++ trimRight tail := by
  have hhead : ∀ c, (s ++ tail).head? = some c → isBlank c = false := by
    rw [List.head?_append_of_ne_nil _ hne]
    exact hfirst
  have hreverse : ∀ c, (s.reverse ++ (lead.dropWhile isBlank).reverse).head? = some c →
      isBlank c = false := by
    rw [List.head?_append_of_ne_nil _ (by simpa using hne), List.head?_reverse]
    exact hlast
  rw [trim, trimLeft, List.append_assoc, dropWhile_append_of_head hhead, trimRight, trimRight]
  rw [← List.append_assoc, List.reverse_append, List.reverse_append,
    dropWhile_append_of_head hreverse]
  simp [trimLeft]

-- What trimming takes away on either side is blank.
theorem exists_trim (s : List Char) :
    ∃ lead tail, s = lead ++ (trim s ++ tail) ∧ (∀ c ∈ lead, isBlank c = true) ∧
      ∀ c ∈ tail, isBlank c = true := by
  refine ⟨s.takeWhile isBlank, ((trimLeft s).reverse.takeWhile isBlank).reverse, ?_, ?_, ?_⟩
  · rw [trim, trimRight, ← List.reverse_append, List.takeWhile_append_dropWhile, List.reverse_reverse,
      trimLeft, List.takeWhile_append_dropWhile]
  · exact fun c hc => List.mem_takeWhile_imp hc
  · exact fun c hc => List.mem_takeWhile_imp (List.mem_reverse.mp hc)

theorem trimLeft_append_of_blank {lead : List Char} (h : ∀ c ∈ lead, isBlank c = true) (s : List Char) :
    trimLeft (lead ++ s) = trimLeft s :=
  List.dropWhile_append_of_pos h

theorem trimRight_append_of_blank {tail : List Char} (h : ∀ c ∈ tail, isBlank c = true) (s : List Char) :
    trimRight (s ++ tail) = trimRight s := by
  have hreverse : ∀ c ∈ tail.reverse, isBlank c = true := fun c hc => h c (List.mem_reverse.mp hc)
  rw [trimRight, List.reverse_append, List.dropWhile_append_of_pos hreverse, trimRight]

-- More blanks on either side are trimmed with the others.
theorem trim_append_of_blank {lead tail : List Char} (hlead : ∀ c ∈ lead, isBlank c = true)
    (htail : ∀ c ∈ tail, isBlank c = true) (s : List Char) : trim (lead ++ (s ++ tail)) = trim s := by
  rw [trim, trimLeft_append_of_blank hlead, trimLeft, List.dropWhile_append]
  split
  · rename_i hs
    rw [List.isEmpty_iff] at hs
    rw [List.dropWhile_eq_nil_iff.mpr htail, trim, trimLeft, hs]
  · rw [trimRight_append_of_blank htail, trim, trimLeft]

theorem trim_trim (s : List Char) : trim (trim s) = trim s := by
  obtain ⟨lead, tail, hs, hlead, htail⟩ := exists_trim s
  have htrim := trim_append_of_blank hlead htail (trim s)
  rw [← hs] at htrim
  exact htrim.symm

theorem mem_of_mem_trimLeft {s : List Char} {c : Char} (h : c ∈ trimLeft s) : c ∈ s :=
  (List.dropWhile_sublist isBlank).mem h

theorem mem_of_mem_trimRight {s : List Char} {c : Char} (h : c ∈ trimRight s) : c ∈ s := by
  rw [trimRight, List.mem_reverse] at h
  exact List.mem_reverse.mp ((List.dropWhile_sublist isBlank).mem h)

end WordMachine.Text
