namespace WordMachine.Text

-- The Unicode spaces together with the four information separators U+001C to U+001F. The zero-width
-- space and the byte-order mark are not among them.
def isBlank (c : Char) : Bool :=
  let n := c.toNat
  (9 ≤ n && n ≤ 13) || (28 ≤ n && n ≤ 32) || n == 0x85 || n == 0xA0 || n == 0x1680 ||
    (0x2000 ≤ n && n ≤ 0x200A) || n == 0x2028 || n == 0x2029 || n == 0x202F || n == 0x205F ||
    n == 0x3000

def trimLeft (s : List Char) : List Char :=
  s.dropWhile isBlank

def trimRight (s : List Char) : List Char :=
  (s.reverse.dropWhile isBlank).reverse

def trim (s : List Char) : List Char :=
  trimRight (trimLeft s)

-- A text cut at every occurrence of a mark, which gives one piece more than there are marks.
def pieces (mark : Char) (s : List Char) : List (List Char) :=
  s.foldr
    (fun c rest =>
      if c = mark then [] :: rest
      else match rest with
        | piece :: more => (c :: piece) :: more
        | [] => [[c]])
    [[]]

-- A final newline opens an empty line.
def lines (s : List Char) : List (List Char) :=
  pieces '\n' s

-- Carriage returns end lines in a file as newlines do, and a pair of the two ends one line.
def unifyLineEnds : List Char → List Char
  | [] => []
  | '\r' :: '\n' :: s => '\n' :: unifyLineEnds s
  | '\r' :: s => '\n' :: unifyLineEnds s
  | c :: s => c :: unifyLineEnds s

theorem lines_nil : lines [] = [[]] := rfl

theorem lines_newline (s : List Char) : lines ('\n' :: s) = [] :: lines s := by
  simp [lines, pieces]

theorem lines_ne_nil (s : List Char) : lines s ≠ [] := by
  cases s with
  | nil => simp [lines, pieces]
  | cons c s =>
      simp only [lines, pieces, List.foldr_cons]
      split
      · simp
      · split <;> simp

-- A character other than newline joins the first line of what follows it.
theorem lines_cons {c : Char} (hc : c ≠ '\n') (s : List Char) :
    ∃ line more, lines s = line :: more ∧ lines (c :: s) = (c :: line) :: more := by
  cases hs : lines s with
  | nil => exact absurd hs (lines_ne_nil s)
  | cons line more =>
      refine ⟨line, more, rfl, ?_⟩
      simp only [lines, pieces] at hs
      simp only [lines, pieces, List.foldr_cons, hs, if_neg hc]

-- Joining two texts by a newline appends their lines.
theorem lines_append_newline (s t : List Char) : lines (s ++ '\n' :: t) = lines s ++ lines t := by
  induction s with
  | nil => simp [lines_newline, lines_nil]
  | cons c s ih =>
      by_cases hc : c = '\n'
      · subst hc
        simp [lines_newline, ih]
      · obtain ⟨line, more, hs, hcs⟩ := lines_cons hc s
        obtain ⟨line', more', hs', hcs'⟩ := lines_cons hc (s ++ '\n' :: t)
        rw [ih, hs] at hs'
        simp only [List.cons_append, List.cons.injEq] at hs'
        rw [List.cons_append, hcs', hcs, ← hs'.1, ← hs'.2]
        rfl

end WordMachine.Text
