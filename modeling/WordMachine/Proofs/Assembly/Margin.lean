import Mathlib.Data.List.Forall2
import WordMachine.Assembly.Program
import WordMachine.Proofs.Assembly.Comment
import WordMachine.Proofs.Text.Line

namespace WordMachine.Assembly

open WordMachine.Text (isBlank apostrophe trim lines)

theorem ne_of_isBlank {c : Char} (h : isBlank c = true) : c ≠ ';' ∧ c ≠ apostrophe := by
  constructor <;> rintro rfl <;> exact absurd h (by decide)

theorem Passes.of_blank {s : List Char} (h : ∀ c ∈ s, isBlank c = true) : Passes s :=
  .of_unquoted fun c hc => ne_of_isBlank (h c hc)

-- Whatever state the reader is in at the end of a text, it lets the blanks behind it through, unless it
-- has met the comment before them.
theorem uncommented_append_of_blank {tail : List Char} (h : ∀ c ∈ tail, isBlank c = true) (q : Quoting)
    (s : List Char) :
    ∃ rest, q.uncommented (s ++ tail) = q.uncommented s ++ rest ∧ ∀ c ∈ rest, isBlank c = true := by
  induction s generalizing q with
  | nil =>
      have hcomment : ';' ∉ tail := fun hmem => (ne_of_isBlank (h _ hmem)).1 rfl
      exact ⟨tail, uncommented_of_not_mem hcomment q, h⟩
  | cons c s ih =>
      rw [List.cons_append, Quoting.uncommented, Quoting.uncommented]
      split
      · exact ⟨[], rfl, by simp⟩
      · obtain ⟨rest, hrest, hblank⟩ := ih (q.next c)
        exact ⟨rest, by rw [hrest, List.cons_append], hblank⟩

theorem effective_append_of_blank {lead tail : List Char} (hlead : ∀ c ∈ lead, isBlank c = true)
    (htail : ∀ c ∈ tail, isBlank c = true) (line : List Char) :
    effective (lead ++ (line ++ tail)) = effective line := by
  obtain ⟨rest, hrest, hblank⟩ := uncommented_append_of_blank htail .outside line
  rw [effective, Passes.of_blank hlead, hrest, Text.trim_append_of_blank hlead hblank, effective]

-- What is left of a line is read to its end, since nothing but blanks was trimmed off it.
theorem effective_effective (line : List Char) : effective (effective line) = effective line := by
  obtain ⟨lead, tail, hends, hlead, -⟩ := Text.exists_trim (Quoting.outside.uncommented line)
  have hfixed := uncommented_uncommented .outside line
  rw [hends, Passes.of_blank hlead] at hfixed
  rw [effective, effective, uncommented_left (List.append_cancel_left hfixed), Text.trim_trim]

-- Blanks that can stand around a line: any but a newline.
def IsMargin (s : List Char) : Prop :=
  ∀ c ∈ s, isBlank c = true ∧ c ≠ '\n'

instance (s : List Char) : Decidable (IsMargin s) :=
  List.decidableBAll (fun c => isBlank c = true ∧ c ≠ '\n') s

theorem isMargin_nil : IsMargin [] :=
  fun _ hc => (List.not_mem_nil hc).elim

-- A line with blanks put around it.
def Remargined (line wide : List Char) : Prop :=
  ∃ lead tail, IsMargin lead ∧ IsMargin tail ∧ wide = lead ++ (line ++ tail)

theorem Remargined.effective_eq {line wide : List Char} (h : Remargined line wide) :
    effective wide = effective line := by
  obtain ⟨lead, tail, hlead, htail, rfl⟩ := h
  exact effective_append_of_blank (fun c hc => (hlead c hc).1) (fun c hc => (htail c hc).1) line

-- The lines keep their numbers, so that also an error has the line it had.
theorem transcript_of_remargined {s t : List Char} (h : List.Forall₂ Remargined (lines s) (lines t)) :
    transcript t = transcript s := by
  rw [transcript, transcript, effectiveLines, effectiveLines]
  congr 1
  generalize lines s = narrow at h ⊢
  generalize lines t = wide at h ⊢
  generalize 1 = first
  induction h generalizing first with
  | nil => rfl
  | cons hline _ ih =>
      rw [List.zipIdx_cons, List.zipIdx_cons, List.filterMap_cons, List.filterMap_cons, ih]
      simp only [hline.effective_eq]

-- A source with blanks put around each of its lines.
def padded (margins : Nat → List Char × List Char) (source : List Char) : List Char :=
  ['\n'].intercalate ((lines source).mapIdx fun i line => (margins i).1 ++ (line ++ (margins i).2))

-- A source with a carriage return in front of each newline.
def returned (source : List Char) : List Char :=
  source.flatMap fun c => if c = '\n' then ['\r', '\n'] else [c]

theorem lines_padded {margins : Nat → List Char × List Char}
    (h : ∀ i, IsMargin (margins i).1 ∧ IsMargin (margins i).2) (source : List Char) :
    List.Forall₂ Remargined (lines source) (lines (padded margins source)) := by
  have hlines : lines (padded margins source) =
      (lines source).mapIdx fun i line => (margins i).1 ++ (line ++ (margins i).2) := by
    apply Text.lines_intercalate
    · simpa using Text.lines_ne_nil source
    · intro wide hwide hnewline
      obtain ⟨i, hi, rfl⟩ := List.mem_mapIdx.mp hwide
      rcases List.mem_append.mp hnewline with hmem | hmem
      · exact ((h i).1 _ hmem).2 rfl
      · rcases List.mem_append.mp hmem with hmem | hmem
        · exact Text.newline_not_mem_of_mem_lines (List.getElem_mem hi) hmem
        · exact ((h i).2 _ hmem).2 rfl
  rw [hlines, List.forall₂_iff_get]
  refine ⟨by simp, fun i hi hi' => ?_⟩
  exact ⟨(margins i).1, (margins i).2, (h i).1, (h i).2, by simp⟩

-- By induction on the source: a newline ends a line with a carriage return, any other character joins the
-- line behind it on either side.
theorem lines_returned (source : List Char) :
    List.Forall₂ (fun line wide => ∃ tail, IsMargin tail ∧ wide = line ++ tail) (lines source)
      (lines (returned source)) := by
  induction source with
  | nil => exact .cons ⟨[], isMargin_nil, rfl⟩ .nil
  | cons c s ih =>
      by_cases hc : c = '\n'
      · have hreturned : returned (c :: s) = ['\r'] ++ '\n' :: returned s := by simp [returned, hc]
        rw [hreturned, Text.lines_append_newline, hc, Text.lines_newline]
        exact .cons ⟨['\r'], by decide, rfl⟩ ih
      · have hreturned : returned (c :: s) = c :: returned s := by simp [returned, hc]
        obtain ⟨line, more, hs, hcs⟩ := Text.lines_cons hc s
        obtain ⟨wide, others, hr, hcr⟩ := Text.lines_cons hc (returned s)
        rw [hs, hr, List.forall₂_cons] at ih
        obtain ⟨⟨tail, htail, rfl⟩, hmore⟩ := ih
        rw [hreturned, hcs, hcr]
        exact .cons ⟨tail, htail, rfl⟩ hmore

-- Two sources of which the same is made: the same words and bytes, or the same error, and the same listing.
structure SameAssembly (s t : List Char) : Prop where
  words : assembleWords s = assembleWords t
  bytes : assemble s = assemble t
  listing : (transcript s).listing = (transcript t).listing

theorem sameAssembly_of_transcript {s t : List Char} (h : transcript s = transcript t) : SameAssembly s t := by
  have hwords : assembleWords s = assembleWords t := by rw [assembleWords, assembleWords, h]
  exact ⟨hwords, by rw [assemble, assemble, hwords], by rw [h]⟩

-- Blanks around a line come out at the ends of what the reader of comments leaves of it, or are part of the comment.
theorem margins_change_nothing (source : List Char) :
    (∀ margins : Nat → List Char × List Char, (∀ i, IsMargin (margins i).1 ∧ IsMargin (margins i).2) →
      SameAssembly (padded margins source) source) ∧
    SameAssembly (returned source) source := by
  constructor
  · intro margins hmargins
    exact sameAssembly_of_transcript (transcript_of_remargined (lines_padded hmargins source))
  · apply sameAssembly_of_transcript
    apply transcript_of_remargined
    refine (lines_returned source).imp fun line wide hwide => ?_
    obtain ⟨tail, htail, rfl⟩ := hwide
    exact ⟨[], tail, isMargin_nil, htail, rfl⟩

-- A mark that is not closed, once before what would be a comment and once before a backslash at the end.
def openMarks : List Char :=
  "prn 1 ; don't\nstr 2 '; \\".toList

def openMarksMargins (i : Nat) : List Char × List Char :=
  if i = 0 then (['\t', '\u3000'], ['\r']) else (['\u001c'], ['\u2003', '\r'])

theorem margins_change_nothing_of_openMarks :
    (∀ i, IsMargin (openMarksMargins i).1 ∧ IsMargin (openMarksMargins i).2) ∧
      padded openMarksMargins openMarks =
        "\t\u3000prn 1 ; don't\r\n\u001cstr 2 '; \\\u2003\r".toList ∧
      SameAssembly (padded openMarksMargins openMarks) openMarks ∧
      assembleWords openMarks = .error (.line 2 (.arity .str 3)) := by
  have hmargins : ∀ i, IsMargin (openMarksMargins i).1 ∧ IsMargin (openMarksMargins i).2 := by
    intro i
    rw [openMarksMargins]
    split <;> decide
  exact ⟨hmargins, by decide +kernel, (margins_change_nothing openMarks).1 _ hmargins, by decide +kernel⟩

end WordMachine.Assembly
