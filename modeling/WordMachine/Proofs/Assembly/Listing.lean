import WordMachine.Proofs.Assembly.File
import WordMachine.Proofs.Assembly.Margin
import WordMachine.Proofs.Assembly.RoundTrip
import WordMachine.Proofs.Text.Padding

namespace WordMachine.Assembly

open WordMachine.Text (lines lastDigits)

-- A row of the listing: the place of the word in decimal, in four digits if it has no more; the word in
-- eight hexadecimal digits; and the line, each two spaces from the next.
def row (place : Nat) (w : Word) (text : List Char) : List Char :=
  lastDigits 10 (max 4 (Nat.toDigits 10 place).length) place ++ [' ', ' '] ++
    (lastDigits 16 8 w.toNat).map Char.toUpper ++ [' ', ' '] ++ text

theorem listed_eq (place : Nat) (e : Entry) : e.listed place = String.ofList (row place e.word e.text) := by
  have hword : e.word.toNat < Nat.pow 16 8 := e.word.toNat_lt
  have hlisted : e.listed place = Text.paddedDecimal 4 place ++ String.ofList [' ', ' '] ++
      Text.upperHex 8 e.word.toNat ++ String.ofList [' ', ' '] ++ String.ofList e.text := rfl
  rw [hlisted, Text.paddedDecimal_eq_lastDigits, Text.upperHex_eq_lastDigits (by omega) hword, row,
    String.ofList_append, String.ofList_append, String.ofList_append, String.ofList_append]

-- By induction on the lines: each of them gives an entry, until one cannot be assembled.
theorem transcribe_cases (ls : List (Int × List Char)) :
    ∃ done rest, ls = done ++ rest ∧
      List.Forall₂ (fun l e => assembleLine l.1 l.2 = .ok e.word ∧ e.text = l.2) done (transcribe ls).entries ∧
      match rest with
      | [] => (transcribe ls).failure = none
      | l :: _ => ∃ e, assembleLine l.1 l.2 = .error e ∧ (transcribe ls).failure = some e := by
  induction ls with
  | nil => exact ⟨[], [], rfl, .nil, rfl⟩
  | cons l ls ih =>
      obtain ⟨number, text⟩ := l
      cases hline : assembleLine number text with
      | error e =>
          refine ⟨[], (number, text) :: ls, rfl, ?_, e, hline, ?_⟩
          · simp [transcribe, hline]
          · simp [transcribe, hline]
      | ok w =>
          obtain ⟨done, rest, rfl, hdone, hrest⟩ := ih
          refine ⟨(number, text) :: done, rest, rfl, ?_, ?_⟩
          · simpa [transcribe, hline] using hdone
          · simpa [transcribe, hline] using hrest

theorem exists_line_of_mem_entries {ls : List (Int × List Char)} {e : Entry} (h : e ∈ (transcribe ls).entries) :
    ∃ l ∈ ls, assembleLine l.1 l.2 = .ok e.word ∧ e.text = l.2 := by
  obtain ⟨done, rest, hlines, hdone, -⟩ := transcribe_cases ls
  obtain ⟨hlength, hline⟩ := List.forall₂_iff_get.mp hdone
  obtain ⟨i, hi, rfl⟩ := List.mem_iff_getElem.mp h
  have hi' : i < done.length := hlength ▸ hi
  have hmem : done[i] ∈ done ++ rest := List.mem_append_left rest (List.getElem_mem hi')
  exact ⟨done[i], hlines ▸ hmem, hline i hi' hi⟩

theorem exists_raw_of_mem_effectiveLines {source : List Char} {l : Int × List Char}
    (h : l ∈ effectiveLines source) : ∃ raw ∈ lines source, l.2 = effective raw ∧ l.2 ≠ [] := by
  obtain ⟨⟨raw, number⟩, hraw, hl⟩ := List.mem_filterMap.mp h
  refine ⟨raw, List.fst_mem_of_mem_zipIdx hraw, ?_⟩
  cases heffective : effective raw with
  | nil => simp [heffective] at hl
  | cons c text =>
      simp only [heffective, Option.some.injEq] at hl
      simp [← hl]

theorem mem_of_mem_uncommented {c : Char} {q : Quoting} {s : List Char} (h : c ∈ q.uncommented s) : c ∈ s := by
  induction s generalizing q with
  | nil => exact h
  | cons d s ih =>
      rw [Quoting.uncommented] at h
      split at h
      · simp at h
      · rcases List.mem_cons.mp h with rfl | h
        · exact List.mem_cons_self
        · exact List.mem_cons_of_mem d (ih h)

theorem mem_of_mem_effective {c : Char} {line : List Char} (h : c ∈ effective line) : c ∈ line :=
  mem_of_mem_uncommented (Text.mem_of_mem_trimLeft (Text.mem_of_mem_trimRight h))

-- The word of a line is the same wherever the line stands.
theorem assembleLine_of_assembled {number : Int} {text : List Char} {w : Word}
    (h : assembleLine number text = .ok w) (other : Int) : assembleLine other text = .ok w := by
  have hmoved := assembleLine_add number (other - number) text
  have hother : number + (other - number) = other := by omega
  rw [hother, h] at hmoved
  exact hmoved

-- What a row shows is read back as it stands, and as the word beside it.
theorem reads_back_of_mem_entries {source : List Char} {e : Entry} (h : e ∈ (transcript source).entries) :
    effective e.text = e.text ∧ e.text ≠ [] ∧ '\n' ∉ e.text ∧
      ∀ number, assembleLine number e.text = .ok e.word := by
  obtain ⟨l, hmem, hword, htext⟩ := exists_line_of_mem_entries h
  obtain ⟨raw, hraw, heffective, hne⟩ := exists_raw_of_mem_effectiveLines hmem
  rw [← htext] at hword heffective hne
  refine ⟨?_, hne, ?_, assembleLine_of_assembled hword⟩
  · rw [heffective, effective_effective]
  · rw [heffective]
    exact fun hnewline => Text.newline_not_mem_of_mem_lines hraw (mem_of_mem_effective hnewline)

theorem assembleWords_texts {source : List Char} {es : List Entry} (h : ∀ e ∈ es, e ∈ (transcript source).entries) :
    assembleWords (['\n'].intercalate (es.map Entry.text)) = .ok (es.map Entry.word) := by
  by_cases hne : es = []
  · rw [hne]
    rfl
  · have hlines : lines (['\n'].intercalate (es.map Entry.text)) = es.map Entry.text := by
      apply Text.lines_intercalate
      · simpa using hne
      · intro text htext
        obtain ⟨e, he, rfl⟩ := List.mem_map.mp htext
        exact (reads_back_of_mem_entries (h e he)).2.2.1
    apply assembleWords_of_lines hlines
    rw [List.forall₂_map_left_iff, List.forall₂_map_right_iff, List.forall₂_same]
    intro e he
    obtain ⟨heffective, htext, -, hword⟩ := reads_back_of_mem_entries (h e he)
    exact ⟨heffective, htext, hword⟩

-- The rows of the listing of a source. They stand for its first lines with something to assemble: for all of
-- them, or for those before the one that cannot be assembled.
structure Lists (source : List Char) (rows : List Entry) : Prop where
  assembled : ∃ done rest, effectiveLines source = done ++ rest ∧
    List.Forall₂ (fun l e => assembleLine l.1 l.2 = .ok e.word ∧ e.text = l.2) done rows ∧
    match rest with
    | [] => assembleWords source = .ok (rows.map Entry.word)
    | l :: _ => ∃ e, assembleLine l.1 l.2 = .error e ∧ assembleWords source = .error e
  printed : (transcript source).listing =
    rows.mapIdx fun place e => String.ofList (row place e.word e.text)
  alone : assembleWords (['\n'].intercalate (rows.map Entry.text)) = .ok (rows.map Entry.word)

theorem lists_entries (source : List Char) : Lists source (transcript source).entries where
  assembled := by
    obtain ⟨done, rest, hlines, hdone, hrest⟩ := transcribe_cases (effectiveLines source)
    refine ⟨done, rest, hlines, hdone, ?_⟩
    cases rest with
    | nil => simp only [assembleWords, transcript, Transcript.words, hrest]
    | cons l rest =>
        obtain ⟨e, he, hfailure⟩ := hrest
        refine ⟨e, he, ?_⟩
        simp only [assembleWords, transcript, Transcript.words, hfailure]
  printed := by
    have hlisted : Entry.listed = fun place e => String.ofList (row place e.word e.text) :=
      funext fun place => funext fun e => listed_eq place e
    rw [Transcript.listing, hlisted]
  alone := assembleWords_texts fun _ he => he

section File

variable {files : FileStore} {path : String} {out : Option String}

-- Where the listing is taken, everything else is as it is without.
theorem assembleFile_off (files : FileStore) (path : String) (out : Option String) :
    assembleFile files path out .off = { assembleFile files path out .taken with listing := [] } := by
  rw [assembleFile, assembleFile]
  cases files.read path with
  | error e => rfl
  | ok bytes =>
      simp only
      cases sourceText bytes with
      | none => rfl
      | some text =>
          simp only [reduceCtorEq, false_and, if_false]
          cases (transcript text).words with
          | error e => rfl
          | ok ws =>
              simp only
              cases files.create (outputPath out) with
              | error e => rfl
              | ok created =>
                  simp only
                  split <;> rfl

theorem listing_assembleFile {text : List Char} (h : Supplies files path text) :
    (assembleFile files path out .taken).listing = (transcript text).listing := by
  obtain ⟨s, hread, hs⟩ := h
  have htext := sourceText_eq_some_iff.mpr ⟨s, rfl, hs⟩
  simp only [assembleFile, hread, htext, reduceCtorEq, false_and, if_false, if_true]
  split
  · rfl
  · split
    · rfl
    · split <;> rfl

end File

theorem listing_is_faithful (source : List Char) :
    Lists source (transcript source).entries ∧
      ∀ (files : FileStore) (path : String) (out : Option String),
        assembleFile files path out .off = { assembleFile files path out .taken with listing := [] } ∧
        (Supplies files path source →
          (assembleFile files path out .taken).listing = (transcript source).listing) :=
  ⟨lists_entries source, fun files path out => ⟨assembleFile_off files path out, listing_assembleFile⟩⟩

-- A comment, a blank line, a literal that holds what would be a comment, and a line that is nothing.
def fourLines : String :=
  "mov 1 2 ; 3\n\n str 3 ';' \nfoo"

theorem listing_is_faithful_to_fourLines :
    ∃ files, Supplies files "p" fourLines.toList ∧
      (assembleFile files "p" none .taken).listing = ["0000  01010002  mov 1 2", "0001  0203003B  str 3 ';'"] ∧
      Lists fourLines.toList [⟨0x01010002, "mov 1 2".toList⟩, ⟨0x0203003B, "str 3 ';'".toList⟩] := by
  have hentries : (transcript fourLines.toList).entries =
      [⟨0x01010002, "mov 1 2".toList⟩, ⟨0x0203003B, "str 3 ';'".toList⟩] := by
    decide +kernel
  let files : FileStore := { entries := [(["p"], .file fourLines.toUTF8.data.toList)] }
  have hread : files.read "p" = .ok fourLines.toUTF8.data.toList := by decide +kernel
  have hsupplies : Supplies files "p" fourLines.toList :=
    ⟨fourLines, hread, Text.unifies_iff.mpr (by decide +kernel)⟩
  obtain ⟨hlists, hfiles⟩ := listing_is_faithful fourLines.toList
  refine ⟨_, hsupplies, ?_, hentries ▸ hlists⟩
  rw [(hfiles _ "p" none).2 hsupplies]
  decide +kernel

end WordMachine.Assembly
