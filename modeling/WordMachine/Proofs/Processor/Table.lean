import Mathlib.Tactic.Common
import WordMachine.Processor

namespace WordMachine

namespace Memory

-- The word at an address as a number.
def value (m : Memory) (addr : Int) : Int :=
  (m.word addr).toNat

-- The memory after a value was stored at an address, if any was.
def stored (m : Memory) : Option (Int × Int) → Memory
  | none => m
  | some (addr, v) => ⟨m.words.setIfInBounds addr.toNat (.ofInt v)⟩

-- The fault of the first address of a list that is outside the memory.
def firstOutside? (m : Memory) (addrs : List Int) : Option Fault :=
  (addrs.find? fun a => !m.Holds a).map Fault.outside

theorem value_nonneg (m : Memory) (addr : Int) : 0 ≤ m.value addr := by
  simp only [value]
  omega

theorem value_lt (m : Memory) (addr : Int) : m.value addr < 0x100000000 := by
  have h := (m.word addr).toNat_lt
  simp only [value]
  omega

theorem firstOutside?_nil (m : Memory) : m.firstOutside? [] = none :=
  rfl

theorem firstOutside?_cons (m : Memory) (a : Int) (addrs : List Int) :
    m.firstOutside? (a :: addrs) =
      if m.Holds a then m.firstOutside? addrs else some (.outside a) := by
  by_cases h : m.Holds a <;> simp [firstOutside?, h]

@[simp]
theorem size_stored (m : Memory) (change : Option (Int × Int)) : (m.stored change).size = m.size := by
  cases change with
  | none => rfl
  | some change => simp [stored, size]

theorem write_of_holds {m : Memory} {addr : Int} (h : m.Holds addr) (v : Int) :
    m.write addr v = .ok (m.stored (some (addr, v))) := by
  rw [write, if_pos h]
  rfl

-- A stored value is the one read afterwards at its address, and all other words stay.
theorem value_stored {m : Memory} {addr v : Int} (h : m.Holds addr) (hv : 0 ≤ v) (hv' : v < 0x100000000)
    (a : Nat) : (m.stored (some (addr, v))).value a = if (a : Int) = addr then v else m.value a := by
  have hword := word_write (write_of_holds h v) a (by omega)
  simp only [value, hword]
  split
  · rw [Word.toNat_ofInt]
    omega
  · rfl

end Memory

-- What an instruction changes. Without a jump the machine goes on behind the instruction.
structure Change where
  stored : Option (Int × Int) := none
  zero : Int
  overflow : Int
  sent : Option Char := none
  jump : Option Int := none
  halts : Bool := false
  unknown : Bool := false
  deriving DecidableEq, Repr

namespace Change

-- A result that fits into a word is stored and clears the overflow flag, any other only sets it.
def checked (flags : Flags) (dst result : Int) : Change :=
  if 0 ≤ result ∧ result < 0x100000000 then
    { stored := some (dst, result), zero := flags.zero, overflow := 0 }
  else { zero := flags.zero, overflow := 1 }

-- The table. All values are those before the instruction.
def of (m : Memory) (flags : Flags) : Instruction → Change
  | .eof => { zero := flags.zero, overflow := flags.overflow, halts := true }
  | .mov dst src =>
      { stored := some (dst, m.value src), zero := flags.zero, overflow := flags.overflow }
  | .mop dst src =>
      { stored := some (dst, m.value (m.value src)), zero := flags.zero, overflow := flags.overflow }
  | .str dst imm => { stored := some (dst, imm), zero := flags.zero, overflow := flags.overflow }
  | .adi dst imm => checked flags dst (m.value dst + imm)
  | .sui dst imm =>
      let c := checked flags dst (m.value dst - imm)
      if m.value dst - imm = 0 then { c with zero := 1 } else c
  | .jmp target => { zero := flags.zero, overflow := flags.overflow, jump := some target }
  | .jz target =>
      { zero := flags.zero, overflow := flags.overflow,
        jump := if flags.zero ≠ 0 then some target else none }
  | .cmp left right =>
      { zero := if m.value left = m.value right then 1 else 0, overflow := flags.overflow }
  | .prn addr =>
      { zero := flags.zero, overflow := flags.overflow,
        sent := some (Char.ofNat (m.value addr % 256).toNat) }
  | .mul dst src => checked flags dst (m.value dst * m.value src)
  | .div dst src =>
      { stored := some (dst, m.value dst / m.value src), zero := flags.zero, overflow := 0 }
  | .unknown _ _ => { zero := flags.zero, overflow := flags.overflow, unknown := true }

theorem sent_checked (flags : Flags) (dst result : Int) : (checked flags dst result).sent = none := by
  rw [checked]
  split <;> rfl

theorem halts_checked (flags : Flags) (dst result : Int) :
    (checked flags dst result).halts = false := by
  simp only [checked]
  split <;> rfl

-- The end of the program is no jump, and nothing else halts.
theorem eq_eof_of_halts {m : Memory} {flags : Flags} {i : Instruction}
    (h : (of m flags i).halts = true) : i = .eof := by
  cases i with
  | eof => rfl
  | mov _ _ | mop _ _ | str _ _ | jmp _ | jz _ | cmp _ _ | prn _ | div _ _ | unknown _ _ =>
      simp [of] at h
  | adi _ _ | mul _ _ => simp [of, halts_checked] at h
  | sui _ _ =>
      simp only [of] at h
      split at h <;> simp [halts_checked] at h

end Change

namespace Instruction

-- The fault of an instruction, its accesses taken in order. A division looks at its divisor before it
-- looks for its dividend.
def fault? (m : Memory) : Instruction → Option Fault
  | .eof | .jmp _ | .jz _ | .unknown _ _ => none
  | .mov dst src => m.firstOutside? [src, dst]
  | .mop dst src => m.firstOutside? [src, m.value src, dst]
  | .str dst _ | .adi dst _ | .sui dst _ => m.firstOutside? [dst]
  | .cmp left right => m.firstOutside? [left, right]
  | .prn addr => m.firstOutside? [addr]
  | .mul dst src => m.firstOutside? [dst, src]
  | .div dst src =>
      match m.firstOutside? [src] with
      | some f => some f
      | none =>
          if m.value src = 0 then some (.divisionByZero dst src) else m.firstOutside? [dst]

-- A division with a divisor has already cleared the overflow flag when it misses its dividend.
def clearsOverflow (m : Memory) : Instruction → Bool
  | .div _ src => m.Holds src && m.value src ≠ 0
  | _ => false

end Instruction

namespace Processor

-- The processor after an instruction and before the cycle is counted.
def changed (p : Processor) (c : Change) : Processor :=
  { p with
    memory := p.memory.stored c.stored
    flags := { halt := p.flags.halt || c.halts, zero := c.zero, overflow := c.overflow }
    ip := match c.jump with
      | some target => (target - 1) % 0x100000000
      | none => p.ip
    anomalies := p.anomalies + if c.unknown then 1 else 0 }

-- The processor an instruction leaves that faults.
def interrupted (p : Processor) (i : Instruction) : Processor :=
  if i.clearsOverflow p.memory then { p with flags := { p.flags with overflow := 0 } } else p

theorem run_load_value (addr : Int) (p : Processor) :
    (load addr).run p =
      if p.memory.Holds addr then .ok (p.memory.value addr) p else .error (.outside addr) p :=
  run_load addr p

theorem run_store_stored (addr v : Int) (p : Processor) :
    (store addr v).run p =
      if p.memory.Holds addr then .ok () { p with memory := p.memory.stored (some (addr, v)) }
      else .error (.outside addr) p := by
  rw [run_store]
  by_cases h : p.memory.Holds addr
  · rw [Memory.write_of_holds h, if_pos h]
  · rw [Memory.write, if_neg h, if_neg h]

theorem run_storeChecked {dst : Int} {p : Processor} (h : p.memory.Holds dst) (result : Int) :
    (storeChecked dst result).run p =
      .ok (decide (0 ≤ result ∧ result < 0x100000000)) (p.changed (.checked p.flags dst result)) := by
  by_cases hr : 0 ≤ result ∧ result < 0x100000000
  · rw [storeChecked, if_pos hr, decide_eq_true hr, Change.checked, if_pos hr]
    simp only [setOverflow, EStateM.run_bind, EStateM.run_modify, run_store_stored, if_pos h,
      EStateM.run_pure]
    simp [changed]
  · rw [storeChecked, if_neg hr, decide_eq_false hr, Change.checked, if_neg hr]
    simp only [setOverflow, EStateM.run_bind, EStateM.run_modify, EStateM.run_pure]
    simp [changed, Memory.stored]

-- Executing an instruction does what the table has for it.
def Tabulated (i : Instruction) (p : Processor) : Prop :=
  (execute i).run p =
    match i.fault? p.memory with
    | some f => .error f (p.interrupted i)
    | none => .ok (Change.of p.memory p.flags i).sent (p.changed (Change.of p.memory p.flags i))

theorem tabulated_eof (p : Processor) : Tabulated .eof p := by
  simp only [Tabulated, execute, EStateM.run_bind, EStateM.run_modify, EStateM.run_pure,
    Instruction.fault?, Change.of]
  simp [changed, Memory.stored, Flags.setHalt]

theorem tabulated_mov (dst src : Int) (p : Processor) : Tabulated (.mov dst src) p := by
  simp only [Tabulated, execute, EStateM.run_bind, EStateM.run_pure, run_load_value, run_store_stored,
    Instruction.fault?, Memory.firstOutside?_cons, Memory.firstOutside?_nil]
  by_cases hs : p.memory.Holds src <;> by_cases hd : p.memory.Holds dst <;>
    simp [hs, hd, Change.of, changed, interrupted, Instruction.clearsOverflow]

theorem tabulated_mop (dst src : Int) (p : Processor) : Tabulated (.mop dst src) p := by
  simp only [Tabulated, execute, EStateM.run_bind, EStateM.run_pure, run_load_value, run_store_stored,
    Instruction.fault?, Memory.firstOutside?_cons, Memory.firstOutside?_nil]
  by_cases hs : p.memory.Holds src <;> by_cases hv : p.memory.Holds (p.memory.value src) <;>
    by_cases hd : p.memory.Holds dst <;>
    simp [hs, hv, hd, Change.of, changed, interrupted, Instruction.clearsOverflow]

theorem tabulated_str (dst imm : Int) (p : Processor) : Tabulated (.str dst imm) p := by
  simp only [Tabulated, execute, EStateM.run_bind, EStateM.run_pure, run_store_stored,
    Instruction.fault?, Memory.firstOutside?_cons, Memory.firstOutside?_nil]
  by_cases hd : p.memory.Holds dst <;>
    simp [hd, Change.of, changed, interrupted, Instruction.clearsOverflow]

theorem tabulated_adi (dst imm : Int) (p : Processor) : Tabulated (.adi dst imm) p := by
  simp only [Tabulated, execute, EStateM.run_bind, EStateM.run_pure, run_load_value,
    Instruction.fault?, Memory.firstOutside?_cons, Memory.firstOutside?_nil]
  by_cases hd : p.memory.Holds dst
  · simp only [hd, if_true, run_storeChecked hd, Change.of, Change.sent_checked]
  · simp [hd, interrupted, Instruction.clearsOverflow]

-- The difference is read back from the memory it was stored in before the zero flag is set.
theorem tabulated_sui (dst imm : Int) (p : Processor) : Tabulated (.sui dst imm) p := by
  simp only [Tabulated, execute, EStateM.run_bind, run_load_value,
    Instruction.fault?, Memory.firstOutside?_cons, Memory.firstOutside?_nil]
  by_cases hd : p.memory.Holds dst
  · simp only [hd, if_true, run_storeChecked hd, Change.of]
    by_cases hr : 0 ≤ p.memory.value dst - imm ∧ p.memory.value dst - imm < 0x100000000
    · have hdst : dst = (dst.toNat : Int) := (Int.toNat_of_nonneg hd.1).symm
      have hread := Memory.value_stored hd hr.1 hr.2 dst.toNat
      rw [← hdst, if_pos rfl] at hread
      have hholds : (p.memory.stored (some (dst, p.memory.value dst - imm))).Holds dst := by
        simpa only [Memory.Holds, Memory.size_stored] using hd
      have hmem : (p.changed (.checked p.flags dst (p.memory.value dst - imm))).memory =
          p.memory.stored (some (dst, p.memory.value dst - imm)) := by
        simp only [changed, Change.checked, if_pos hr]
      simp only [decide_eq_true hr, if_true, EStateM.run_bind, run_load_value, hmem, hholds, hread]
      by_cases hz : p.memory.value dst - imm = 0
      · simp only [hz, if_true, EStateM.run_bind, setZero, EStateM.run_modify, EStateM.run_pure,
          Change.sent_checked]
        rfl
      · simp only [hz, if_false, EStateM.run_pure, Change.sent_checked]
    · have hz : p.memory.value dst - imm ≠ 0 := by omega
      simp only [decide_eq_false hr, if_neg hz, Change.sent_checked]
      rfl
  · simp [hd, interrupted, Instruction.clearsOverflow]

theorem tabulated_jmp (target : Int) (p : Processor) : Tabulated (.jmp target) p := by
  simp only [Tabulated, execute, EStateM.run_bind, EStateM.run_pure, run_jump, Instruction.fault?,
    Change.of]
  simp [changed, Memory.stored]

theorem tabulated_jz (target : Int) (p : Processor) : Tabulated (.jz target) p := by
  simp only [Tabulated, execute, EStateM.run_bind, EStateM.run_get, Instruction.fault?, Change.of]
  by_cases hz : p.flags.zero ≠ 0
  · simp only [if_pos hz, EStateM.run_bind, run_jump, EStateM.run_pure]
    simp [changed, Memory.stored]
  · simp only [if_neg hz, EStateM.run_pure]
    simp [changed, Memory.stored]

theorem tabulated_cmp (left right : Int) (p : Processor) : Tabulated (.cmp left right) p := by
  simp only [Tabulated, execute, EStateM.run_bind, EStateM.run_pure, EStateM.run_modify, setZero,
    run_load_value, Instruction.fault?, Memory.firstOutside?_cons, Memory.firstOutside?_nil]
  by_cases hl : p.memory.Holds left <;> by_cases hr : p.memory.Holds right <;>
    simp [hl, hr, Change.of, changed, Memory.stored, interrupted, Instruction.clearsOverflow]

theorem tabulated_prn (addr : Int) (p : Processor) : Tabulated (.prn addr) p := by
  simp only [Tabulated, execute, EStateM.run_bind, EStateM.run_pure, run_load_value,
    Instruction.fault?, Memory.firstOutside?_cons, Memory.firstOutside?_nil]
  by_cases ha : p.memory.Holds addr <;>
    simp [ha, character, Change.of, changed, Memory.stored, interrupted, Instruction.clearsOverflow]

-- The result is a variable here, for looking into a product for its size takes too long.
theorem run_storeChecked_sent {dst : Int} {p : Processor} (h : p.memory.Holds dst) (result : Int) :
    (do
      let _ ← storeChecked dst result
      return (none : Option Char) : Effect (Option Char)).run p =
      .ok none (p.changed (.checked p.flags dst result)) := by
  rw [EStateM.run_bind, run_storeChecked h]
  rfl

theorem tabulated_mul (dst src : Int) (p : Processor) : Tabulated (.mul dst src) p := by
  have hchange : Change.of p.memory p.flags (.mul dst src) =
      .checked p.flags dst (p.memory.value dst * p.memory.value src) := rfl
  rw [Tabulated, hchange, Change.sent_checked, execute, EStateM.run_bind, run_load_value]
  simp only [Instruction.fault?, Memory.firstOutside?_cons, Memory.firstOutside?_nil]
  by_cases hd : p.memory.Holds dst
  · simp only [if_pos hd]
    rw [EStateM.run_bind, run_load_value]
    by_cases hs : p.memory.Holds src
    · simp only [if_pos hs]
      exact run_storeChecked_sent hd _
    · simp only [if_neg hs]
      rfl
  · simp only [if_neg hd]
    rfl

theorem tabulated_div (dst src : Int) (p : Processor) : Tabulated (.div dst src) p := by
  simp only [Tabulated, execute, EStateM.run_bind, run_load_value, setOverflow,
    Instruction.fault?, Memory.firstOutside?_cons, Memory.firstOutside?_nil]
  by_cases hs : p.memory.Holds src
  · by_cases hv : p.memory.value src = 0
    · simp [hs, hv, interrupted, Instruction.clearsOverflow]
    · simp only [hs, hv, if_true, if_false, EStateM.run_bind, EStateM.run_modify, run_load_value,
        EStateM.run_pure, run_store_stored]
      by_cases hd : p.memory.Holds dst <;>
        simp [hs, hv, hd, Change.of, changed, interrupted, Instruction.clearsOverflow]
  · simp [hs, interrupted, Instruction.clearsOverflow]

theorem tabulated_unknown (opcode word : Int) (p : Processor) : Tabulated (.unknown opcode word) p := by
  simp only [Tabulated, execute, EStateM.run_bind, EStateM.run_modify, EStateM.run_pure,
    Instruction.fault?, Change.of]
  simp [changed, Memory.stored]

theorem tabulated (i : Instruction) (p : Processor) : Tabulated i p := by
  cases i with
  | eof => exact tabulated_eof p
  | mov dst src => exact tabulated_mov dst src p
  | mop dst src => exact tabulated_mop dst src p
  | str dst imm => exact tabulated_str dst imm p
  | adi dst imm => exact tabulated_adi dst imm p
  | sui dst imm => exact tabulated_sui dst imm p
  | jmp target => exact tabulated_jmp target p
  | jz target => exact tabulated_jz target p
  | cmp left right => exact tabulated_cmp left right p
  | prn addr => exact tabulated_prn addr p
  | mul dst src => exact tabulated_mul dst src p
  | div dst src => exact tabulated_div dst src p
  | unknown opcode word => exact tabulated_unknown opcode word p

end Processor

end WordMachine
