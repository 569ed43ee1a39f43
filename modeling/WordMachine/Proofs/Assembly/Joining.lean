import Mathlib.Data.List.Basic
import WordMachine.Assembly.Program

namespace WordMachine

-- A text has one line more than it has newlines.
theorem Text.length_lines (s : List Char) : (lines s).length = s.count '\n' + 1 := by
  induction s with
  | nil => rfl
  | cons c s ih =>
      by_cases hc : c = '\n'
      · subst hc
        rw [lines_newline, List.length_cons, ih, List.count_cons_self]
      · obtain ⟨line, more, hs, hcs⟩ := lines_cons hc s
        rw [hs, List.length_cons] at ih
        rw [hcs, List.length_cons, ih, List.count_cons_of_ne hc]

namespace Assembly

-- The error of a line that stands so many lines further down.
def Error.later (down : Int) : Error → Error
  | .line number cause => .line (number + down) cause
  | .noMnemonic => .noMnemonic
  | .unwritableValue => .unwritableValue

theorem rawWord_add (number down : Int) (ts : List (List Char)) :
    rawWord (number + down) ts = (rawWord number ts).mapError (Error.later down) := by
  rcases ts with _ | ⟨token, _ | ⟨other, rest⟩⟩
  · rfl
  · simp only [rawWord]
    split
    · rfl
    · split
      · rfl
      · split <;> rfl
  · rfl

theorem instructionWord_add (number down : Int) (op : Opcode) (ts : List (List Char)) :
    instructionWord (number + down) op ts = (instructionWord number op ts).mapError (Error.later down) := by
  simp only [instructionWord]
  split
  · split
    · rfl
    · split <;> rfl
  · rfl

-- The place of a line is read nowhere but in its error.
theorem assembleLine_add (number down : Int) (text : List Char) :
    assembleLine (number + down) text = (assembleLine number text).mapError (Error.later down) := by
  simp only [assembleLine]
  split
  · rfl
  · split
    · exact rawWord_add number down _
    · split
      · rfl
      · exact instructionWord_add number down _ _

-- A transcript and what is assembled behind it. Nothing is, once it has failed.
def Transcript.andThen (t u : Transcript) : Transcript :=
  match t.failure with
  | some e => ⟨t.entries, some e⟩
  | none => ⟨t.entries ++ u.entries, u.failure⟩

theorem transcribe_append (xs ys : List (Int × List Char)) :
    transcribe (xs ++ ys) = (transcribe xs).andThen (transcribe ys) := by
  induction xs with
  | nil => rfl
  | cons line xs ih =>
      obtain ⟨number, text⟩ := line
      simp only [List.cons_append, transcribe]
      cases assembleLine number text with
      | error e => rfl
      | ok word =>
          simp only [ih, Transcript.andThen]
          split <;> rfl

theorem transcribe_later (down : Int) (lines : List (Int × List Char)) :
    transcribe (lines.map fun l => (l.1 + down, l.2)) =
      ⟨(transcribe lines).entries, (transcribe lines).failure.map (Error.later down)⟩ := by
  induction lines with
  | nil => rfl
  | cons line lines ih =>
      obtain ⟨number, text⟩ := line
      simp only [List.map_cons, transcribe, assembleLine_add]
      cases assembleLine number text with
      | error e => rfl
      | ok word => simp only [Except.mapError, ih]

-- Lines that are left out count all the same.
theorem effectiveLines_append_newline (s t : List Char) :
    effectiveLines (s ++ '\n' :: t) =
      effectiveLines s ++ (effectiveLines t).map fun l => (l.1 + (s.count '\n' + 1 : Int), l.2) := by
  simp only [effectiveLines, Text.lines_append_newline, List.zipIdx_append, List.filterMap_append,
    Text.length_lines]
  congr 1
  have hbefore : (s.count '\n' + 1 : Int) = (s.count '\n' + 1 : Nat) := by push_cast; rfl
  rw [hbefore]
  generalize s.count '\n' + 1 = before
  generalize 1 = first
  induction Text.lines t generalizing first with
  | nil => rfl
  | cons line rest ih =>
      have hrest := ih (first + 1)
      rw [Nat.add_right_comm first 1 before] at hrest
      rw [List.zipIdx_cons, List.zipIdx_cons]
      cases heffective : effective line with
      | nil => simpa [heffective] using hrest
      | cons c text => simpa [heffective] using hrest

theorem transcript_append_newline (s t : List Char) :
    transcript (s ++ '\n' :: t) =
      (transcript s).andThen
        ⟨(transcript t).entries,
          (transcript t).failure.map (Error.later (s.count '\n' + 1 : Int))⟩ := by
  simp only [transcript]
  rw [effectiveLines_append_newline, transcribe_append, transcribe_later]

theorem assembleWords_append_newline (s t : List Char) :
    assembleWords (s ++ '\n' :: t) =
      match assembleWords s, assembleWords t with
      | .error e, _ => .error e
      | .ok _, .error e => .error (e.later (s.count '\n' + 1 : Int))
      | .ok us, .ok vs => .ok (us ++ vs) := by
  simp only [assembleWords, transcript_append_newline, Transcript.words, Transcript.andThen]
  cases (transcript s).failure with
  | some e => rfl
  | none =>
      cases (transcript t).failure with
      | some e => rfl
      | none => simp

theorem assemble_of_assembleWords {source : List Char} {ws : List Word}
    (h : assembleWords source = .ok ws) : assemble source = .ok (Word.stream ws) := by
  rw [assemble, h]

-- Quotation marks and comments end with their line, so that nothing at the seam reaches over it.
theorem lines_assemble_apart (s t : List Char) :
    (∀ e, assembleWords s = .error e → assembleWords (s ++ '\n' :: t) = .error e) ∧
    ∀ us, assembleWords s = .ok us →
      (∀ number cause, assembleWords t = .error (.line number cause) →
        assembleWords (s ++ '\n' :: t) = .error (.line (number + (s.count '\n' + 1)) cause)) ∧
      (∀ e, (∀ number cause, e ≠ .line number cause) → assembleWords t = .error e →
        assembleWords (s ++ '\n' :: t) = .error e) ∧
      ∀ vs, assembleWords t = .ok vs →
        assembleWords (s ++ '\n' :: t) = .ok (us ++ vs) ∧
        ∃ first second, assemble s = .ok first ∧ assemble t = .ok second ∧
          assemble (s ++ '\n' :: t) = .ok (first ++ second) := by
  have hjoined := assembleWords_append_newline s t
  refine ⟨fun e he => ?_, fun us hus => ⟨fun number cause ht => ?_, fun e hne ht => ?_, fun vs hvs => ?_⟩⟩
  · rw [hjoined, he]
  · rw [hjoined, hus, ht]
    rfl
  · rw [hjoined, hus, ht]
    cases e with
    | line number cause => exact absurd rfl (hne number cause)
    | noMnemonic => rfl
    | unwritableValue => rfl
  · rw [hus, hvs] at hjoined
    refine ⟨hjoined, _, _, assemble_of_assembleWords hus, assemble_of_assembleWords hvs, ?_⟩
    rw [assemble_of_assembleWords hjoined, Word.stream_append]

-- A comment with a single quotation mark in front of a blank line and a line that is nothing.
theorem lines_assemble_apart_at_quote :
    assembleWords "prn 1 ; don't".toList = .ok [0x08010000] ∧
      assembleWords "\n'nop'".toList = .error (.line 2 (.unknownMnemonic "'nop'")) ∧
      assembleWords ("prn 1 ; don't".toList ++ '\n' :: "\n'nop'".toList) =
        .error (.line 3 (.unknownMnemonic "'nop'")) := by
  have hfirst : assembleWords "prn 1 ; don't".toList = .ok [0x08010000] := by decide +kernel
  have hsecond : assembleWords "\n'nop'".toList = .error (.line 2 (.unknownMnemonic "'nop'")) := by
    decide +kernel
  exact ⟨hfirst, hsecond, ((lines_assemble_apart _ _).2 _ hfirst).1 2 _ hsecond⟩

end Assembly

end WordMachine
