import WordMachine.Text.Printable
import WordMachine.Text.Radix

namespace WordMachine.Text

def apostrophe : Char := '\x27'

def doubleQuote : Char := '\x22'

-- The escape of a character by its code point, in the shortest of the three widths that holds it.
def codePointEscape (c : Char) : List Char :=
  let digits := Nat.toDigits 16 c.toNat
  if c.toNat < 0x100 then '\\' :: 'x' :: padZeros 2 digits
  else if c.toNat < 0x10000 then '\\' :: 'u' :: padZeros 4 digits
  else '\\' :: 'U' :: padZeros 8 digits

def quotedChar (mark c : Char) : List Char :=
  if c = mark ∨ c = '\\' then ['\\', c]
  else if c = '\n' then ['\\', 'n']
  else if c = '\r' then ['\\', 'r']
  else if c = '\t' then ['\\', 't']
  else if isPrintable c then [c]
  else codePointEscape c

-- Double quotation marks serve only for a text that holds an apostrophe and no double one.
def quoted (s : String) : String :=
  let cs := s.toList
  let mark := if cs.contains apostrophe && !cs.contains doubleQuote then doubleQuote else apostrophe
  String.ofList (mark :: cs.flatMap (quotedChar mark) ++ [mark])

-- Text in plain ASCII, every other character replaced by its escape.
def asciiEscaped (s : String) : String :=
  String.ofList (s.toList.flatMap (fun c => if c.toNat < 128 then [c] else codePointEscape c))

end WordMachine.Text
