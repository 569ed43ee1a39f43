import WordMachine.Text.Blank
import WordMachine.Text.Quoted

namespace WordMachine.Assembly

open WordMachine.Text (isBlank apostrophe trim)

-- Where a reader looking for the comment stands. A backslash is only special between marks. The scan for tokens looks at
-- marks in another way, so that one that hides a semicolon need not begin a literal.
inductive Quoting where
  | outside
  | inside
  | escaped
  deriving DecidableEq, Repr

namespace Quoting

def next : Quoting → Char → Quoting
  | .escaped, _ => .inside
  | .inside, c => if c = '\\' then .escaped else if c = apostrophe then .outside else .inside
  | .outside, c => if c = apostrophe then .inside else .outside

-- The text up to the first semicolon outside quotation marks.
def uncommented : Quoting → List Char → List Char
  | _, [] => []
  | q, c :: s => if q = .outside ∧ c = ';' then [] else c :: uncommented (q.next c) s

end Quoting

-- A line without its comment and the blanks around it; empty when there is nothing to assemble.
def effective (line : List Char) : List Char :=
  trim (Quoting.outside.uncommented line)

def isSeparator (c : Char) : Bool :=
  isBlank c || c == ','

-- The number of characters of the literal at the head of a text, zero if there is none. A backslash
-- takes the next character with it, whichever it is as long as the line goes on.
def literalWidth : List Char → Nat
  | a :: '\\' :: c :: d :: _ =>
      if a = apostrophe ∧ c ≠ '\n' ∧ d = apostrophe then 4 else 0
  | a :: b :: c :: _ =>
      if a = apostrophe ∧ b ≠ apostrophe ∧ b ≠ '\\' ∧ c = apostrophe then 3 else 0
  | _ => 0

-- The number of characters up to the first separator.
def wordWidth (s : List Char) : Nat :=
  (s.takeWhile (fun c => !isSeparator c)).length

-- A run of characters may hold quotation marks, but a literal wins where both could begin.
def tokenWidth (s : List Char) : Nat :=
  if literalWidth s = 0 then wordWidth s else literalWidth s

-- Separators are passed over, and a token begins at the first character that is none.
def tokens : List Char → List (List Char)
  | [] => []
  | c :: rest =>
      if isSeparator c then tokens rest
      else
        let width := tokenWidth (c :: rest)
        (c :: rest).take width :: tokens (rest.drop (width - 1))
termination_by s => s.length
decreasing_by
  · simp
  · simp only [List.length_drop, List.length_cons]
    omega

-- A token is never empty, so the scan loses no character by stepping over its first one.
theorem tokenWidth_pos {c : Char} {rest : List Char} (hc : isSeparator c = false) :
    0 < tokenWidth (c :: rest) := by
  simp only [tokenWidth]
  split
  · simp [wordWidth, hc]
  · omega

end WordMachine.Assembly
