import WordMachine.Fault
import WordMachine.Word

namespace WordMachine

-- Words addressed from zero. Addresses are integers, and every access outside the memory is a fault.
structure Memory where
  words : Array Word
  deriving DecidableEq, Repr

-- Why there is no memory of a size: the size is none, no machine can count so many words, or none has
-- room for them.
inductive BadSize where
  | notPositive (size : Int)
  | uncountable
  | noRoom
  deriving DecidableEq, Repr

def BadSize.message : BadSize → String
  | .notPositive size => s!"Memory size must be positive, got {Text.decimal size}"
  | .uncountable => "cannot fit 'int' into an index-sized integer"
  | .noRoom => ""

-- Why a program cannot be loaded.
inductive LoadError where
  | alreadyLoaded
  | alreadyStarted
  | ragged (e : RaggedStream)
  | tooLong (words size : Nat)
  | unreadable (path reason : String)
  deriving DecidableEq, Repr

def LoadError.message : LoadError → String
  | .alreadyLoaded => "Program already loaded"
  | .alreadyStarted => "Cannot load after execution has started"
  | .ragged e => e.message
  | .tooLong words size =>
      s!"Program has {Text.decimal words} words, memory holds {Text.decimal size}"
  | .unreadable path reason => s!"Failed to open {path}: {reason}"

namespace Memory

def defaultSize : Int := 500

def size (m : Memory) : Nat :=
  m.words.size

-- A blank memory on a host that has room for so many words.
def create (room : Nat) (size : Int) : Except BadSize Memory :=
  if size ≤ 0 then .error (.notPositive size)
  else if 0x8000000000000000 ≤ size then .error .uncountable
  else if room < size then .error .noRoom
  else .ok ⟨Array.replicate size.toNat 0⟩

def Holds (m : Memory) (addr : Int) : Prop :=
  0 ≤ addr ∧ addr < m.size

instance (m : Memory) (addr : Int) : Decidable (m.Holds addr) :=
  inferInstanceAs (Decidable (_ ∧ _))

-- The word at an address, zero outside the memory.
def word (m : Memory) (addr : Int) : Word :=
  m.words.getD addr.toNat 0

def read (m : Memory) (addr : Int) : Except Fault Word :=
  if m.Holds addr then .ok (m.word addr) else .error (.outside addr)

-- Only the low 32 bits of a value are kept.
def write (m : Memory) (addr value : Int) : Except Fault Memory :=
  if m.Holds addr then .ok ⟨m.words.setIfInBounds addr.toNat (.ofInt value)⟩
  else .error (.outside addr)

-- Words put at the start of the memory; what lies behind them stays.
def loadWords (m : Memory) (ws : List Word) : Except LoadError Memory :=
  if ws.length ≤ m.size then .ok ⟨ws.toArray ++ m.words.extract ws.length m.size⟩
  else .error (.tooLong ws.length m.size)

def dumpLine (m : Memory) (addr : Nat) : String :=
  s!"  [{Text.hexadecimal 6 addr}] {(m.word addr).hex}"

-- One line for each word from the first address to the last, both of which have to exist. Without a
-- last address the dump goes to the end of the memory.
def dump (m : Memory) (first : Int) (last : Option Int) : Except Fault String :=
  let last := last.getD (m.size - 1)
  if m.Holds first then
    if m.Holds last then
      let count := (last + 1 - first).toNat
      .ok ("\n".intercalate ((List.range' first.toNat count).map m.dumpLine))
    else .error (.outside last)
  else .error (.outside first)

-- A write changes the one word it is made to.
theorem word_write {m m' : Memory} {addr value : Int} (h : m.write addr value = .ok m') (a : Int)
    (ha : 0 ≤ a) : m'.word a = if a = addr then .ofInt value else m.word a := by
  by_cases hh : m.Holds addr
  · rw [write, if_pos hh] at h
    simp only [Except.ok.injEq] at h
    subst h
    obtain ⟨h0, hl⟩ := hh
    by_cases he : a = addr
    · subst he
      have hl : a.toNat < m.words.size := by
        simp only [size] at hl
        omega
      simp [word, hl]
    · have hn : addr.toNat ≠ a.toNat := by omega
      simp [word, he, hn]
  · rw [write, if_neg hh] at h
    simp at h

theorem read_eq_ok_iff (m : Memory) (addr : Int) (w : Word) :
    m.read addr = .ok w ↔ m.Holds addr ∧ m.word addr = w := by
  simp only [read]
  split <;> simp_all

end Memory

end WordMachine
