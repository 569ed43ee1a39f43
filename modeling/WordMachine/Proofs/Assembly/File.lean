import WordMachine.Assembly.File
import WordMachine.Proofs.Assembly.Joining
import WordMachine.Proofs.FileStore
import WordMachine.Proofs.Text.Line

namespace WordMachine.Assembly

-- The text of a file: its bytes are the UTF-8 of a text that has its line ends unified after that.
def Supplies (files : FileStore) (source : String) (text : List Char) : Prop :=
  ∃ s : String, files.read source = .ok s.toUTF8.data.toList ∧ Text.Unifies s.toList text

-- The name of a binary: the one that is given, or a default for none and for an empty one.
inductive Names : Option String → String → Prop where
  | none : Names none "a.out"
  | empty : Names (some "") "a.out"
  | given {name : String} (h : name ≠ "") : Names (some name) name

-- The three ways in which assembling a file ends: before the binary is opened, with all of it written, or with as much
-- of it as there is room for.
inductive Ends (files : FileStore) (source path : String) (outcome : FileOutcome) : Prop where
  | unopened {e : FileFailure} (hresult : outcome.result = .error e) (he : ∀ x, e ≠ .writing x)
      (hfiles : outcome.files = files) : Ends files source path outcome
  | whole {text : List Char} {ws : List Word} {place : Path} (hsource : Supplies files source text)
      (hwords : assembleWords text = .ok ws) (hcode : assemble text = .ok (Word.stream ws))
      (hopens : files.Opens path place) (hresult : outcome.result = .ok (path, ws.length))
      (hroom : ∀ room e, files.Limits place room e → (Word.stream ws).length ≤ room)
      (hwritten : files.Written outcome.files place (Word.stream ws)) : Ends files source path outcome
  | cut {text : List Char} {code : Bytes} {place : Path} {room : Nat} {x : FileError}
      (hsource : Supplies files source text) (hcode : assemble text = .ok code) (hopens : files.Opens path place)
      (hresult : outcome.result = .error (.writing x)) (hlimits : files.Limits place room x)
      (hlong : room < code.length) (hwritten : files.Written outcome.files place (code.take room)) :
      Ends files source path outcome

theorem fromUTF8?_eq_some_iff {bytes : Bytes} {s : String} :
    String.fromUTF8? ⟨bytes.toArray⟩ = some s ↔ bytes = s.toUTF8.data.toList := by
  constructor
  · intro h
    rw [String.fromUTF8?] at h
    split at h
    · obtain rfl := Option.some.inj h
      rfl
    · simp at h
  · rintro rfl
    rw [Array.toArray_toList]
    simp only [String.fromUTF8?, String.toUTF8_eq_toByteArray, dif_pos s.isValidUTF8]
    rfl

theorem sourceText_eq_some_iff {bytes : Bytes} {text : List Char} :
    sourceText bytes = some text ↔
      ∃ s : String, bytes = s.toUTF8.data.toList ∧ Text.Unifies s.toList text := by
  simp only [sourceText, Option.map_eq_some_iff, fromUTF8?_eq_some_iff, Text.unifies_iff, eq_comm (a := text)]

-- A file has no text or one.
theorem Supplies.unique {files : FileStore} {source : String} {text text' : List Char}
    (h : Supplies files source text) (h' : Supplies files source text') : text = text' := by
  obtain ⟨s, hread, hs⟩ := h
  obtain ⟨s', hread', hs'⟩ := h'
  rw [hread, Except.ok.injEq] at hread'
  have htext := sourceText_eq_some_iff.mpr ⟨s, rfl, hs⟩
  rw [hread', sourceText_eq_some_iff.mpr ⟨s', rfl, hs'⟩, Option.some.injEq] at htext
  exact htext.symm

theorem names_outputPath (out : Option String) : Names out (outputPath out) := by
  rw [outputPath.eq_def]
  split
  · exact .none
  · split
    · rename_i hempty
      rw [hempty]
      exact .empty
    · rename_i hname
      exact .given hname

section Outcome

variable (files : FileStore) (source : String) (out : Option String) (mode : ListingMode)

-- Nothing happens to the store unless a whole source was assembled and its binary opened.
theorem assembleFile_ends : Ends files source (outputPath out) (assembleFile files source out mode) := by
  rw [assembleFile]
  split
  · exact .unopened rfl (by simp) rfl
  · rename_i bytes hread
    split
    · exact .unopened rfl (by simp) rfl
    · rename_i text htext
      obtain ⟨s, rfl, hs⟩ := sourceText_eq_some_iff.mp htext
      have hsource : Supplies files source text := ⟨s, hread, hs⟩
      dsimp only
      split
      · exact .unopened rfl (by simp) rfl
      · split
        · exact .unopened rfl (by simp) rfl
        · rename_i ws hwords
          split
          · exact .unopened rfl (by simp) rfl
          · rename_i opened place hcreate
            have hcode := assemble_of_assembleWords hwords
            have hopens := (FileStore.create_eq_ok_iff.mp hcreate).1
            have hfills := FileStore.fills_of_create hcreate (Word.stream ws)
            generalize opened.fill place (Word.stream ws) = filled at hfills ⊢
            cases hfills with
            | whole hroom hwritten => exact .whole hsource hwords hcode hopens rfl hroom hwritten
            | cut hlimits hlong hwritten => exact .cut hsource hcode hopens rfl hlimits hlong hwritten

variable {files source out mode}

-- Where a listing is taken, nothing but the source and the place of the binary can stand in the way.
theorem assembleFile_of_create {text : List Char} {ws : List Word} {opened filled : FileStore} {place : Path}
    (hmode : mode ≠ .refused) (hsource : Supplies files source text)
    (hwords : (transcript text).words = .ok ws) (hcreate : files.create (outputPath out) = .ok (opened, place))
    (hfill : opened.fill place (Word.stream ws) = (filled, none)) :
    (assembleFile files source out mode).result = .ok (outputPath out, ws.length) := by
  obtain ⟨s, hread, hs⟩ := hsource
  have htext := sourceText_eq_some_iff.mpr ⟨s, rfl, hs⟩
  simp only [assembleFile, hread, htext, hmode, false_and, if_false, hwords, hcreate, hfill]

end Outcome

theorem exists_assembleWords_of_assemble {source : List Char} {code : Bytes} (h : assemble source = .ok code) :
    ∃ ws, assembleWords source = .ok ws ∧ code = Word.stream ws := by
  rw [assemble] at h
  split at h
  · rename_i ws hws
    exact ⟨ws, hws, (Except.ok.inj h).symm⟩
  · simp at h

-- A binary is made as a whole or not at all, but for what a host takes of it before it has no more room. It may stand
-- in the place of the source or of an older binary.
theorem file_assembly_is_all_or_nothing (files : FileStore) (source : String) (out : Option String)
    (mode : ListingMode) :
    ∃ path, Names out path ∧
      (mode ≠ .refused →
        ((∃ r, (assembleFile files source out mode).result = .ok r) ↔
          ∃ text code place, Supplies files source text ∧ assemble text = .ok code ∧ files.Opens path place ∧
            ∀ room e, files.Limits place room e → code.length ≤ room)) ∧
      (∀ name count, (assembleFile files source out mode).result = .ok (name, count) →
        name = path ∧ ∃ text ws code place,
          Supplies files source text ∧ assembleWords text = .ok ws ∧ count = ws.length ∧
          assemble text = .ok code ∧ files.Opens path place ∧
          files.Written (assembleFile files source out mode).files place code ∧
          (¬files.IsDevice place → (assembleFile files source out mode).files.read path = .ok code)) ∧
      ∀ e, (assembleFile files source out mode).result = .error e →
        ((∀ x, e ≠ .writing x) → (assembleFile files source out mode).files = files) ∧
        ∀ x, e = .writing x → ∃ text code place room,
          Supplies files source text ∧ assemble text = .ok code ∧ files.Opens path place ∧
          files.Limits place room x ∧ room < code.length ∧
          files.Written (assembleFile files source out mode).files place (code.take room) := by
  refine ⟨outputPath out, names_outputPath out, fun hmode => ⟨?succeeds, ?takes⟩, ?made, ?failed⟩
  case succeeds =>
    rintro ⟨r, hok⟩
    cases assembleFile_ends files source out mode with
    | unopened hresult => simp [hresult] at hok
    | whole hsource _ hcode hopens _ hroom => exact ⟨_, _, _, hsource, hcode, hopens, hroom⟩
    | cut _ _ _ hresult => simp [hresult] at hok
  case takes =>
    rintro ⟨text, code, place, hsource, hcode, hopens, hroom⟩
    obtain ⟨ws, hwords, rfl⟩ := exists_assembleWords_of_assemble hcode
    obtain ⟨opened, hcreate⟩ := hopens.exists_create
    have hfills := FileStore.fills_of_create hcreate (Word.stream ws)
    generalize hfill : opened.fill place (Word.stream ws) = filled at hfills
    cases hfills with
    | whole => exact ⟨_, assembleFile_of_create hmode hsource hwords hcreate hfill⟩
    | cut hlimits hlong =>
        have hshort := hroom _ _ hlimits
        omega
  case made =>
    intro name count hok
    cases assembleFile_ends files source out mode with
    | unopened hresult => simp [hresult] at hok
    | whole hsource hwords hcode hopens hresult _ hwritten =>
        obtain ⟨rfl, rfl⟩ := Prod.mk.inj (Except.ok.inj (hok.symm.trans hresult))
        exact ⟨rfl, _, _, _, _, hsource, hwords, rfl, hcode, hopens, hwritten, hwritten.read hopens⟩
    | cut _ _ _ hresult => simp [hresult] at hok
  case failed =>
    intro e he
    cases assembleFile_ends files source out mode with
    | unopened hresult hearly hfiles =>
        obtain rfl := Except.error.inj (he.symm.trans hresult)
        exact ⟨fun _ => hfiles, fun x hx => absurd hx (hearly x)⟩
    | whole _ _ _ _ hresult => simp [hresult] at he
    | cut hsource hcode hopens hresult hlimits hlong hwritten =>
        obtain rfl := Except.error.inj (he.symm.trans hresult)
        refine ⟨fun hearly => absurd rfl (hearly _), fun x hx => ?_⟩
        obtain rfl := FileFailure.writing.inj hx
        exact ⟨_, _, _, _, hsource, hcode, hopens, hlimits, hlong, hwritten⟩

-- A file with a carriage return at the end of each line, and an output name that is empty.
theorem file_assembly_is_all_or_nothing_for_returns :
    ∃ files : FileStore, files.read "p" = .ok "mov 1 2\r\neof\r".toUTF8.data.toList ∧
      (assembleFile files "p" (some "") .off).result = .ok ("a.out", 2) ∧
      (assembleFile files "p" (some "") .off).files.read "a.out" = .ok [1, 1, 0, 2, 0xFF, 0, 0, 0] := by
  let files : FileStore := { entries := [(["p"], .file "mov 1 2\r\neof\r".toUTF8.data.toList)] }
  have hfile : files.read "p" = .ok "mov 1 2\r\neof\r".toUTF8.data.toList := by decide +kernel
  have hsupplies : Supplies files "p" "mov 1 2\neof\n".toList :=
    ⟨_, hfile, Text.unifies_iff.mpr (by decide +kernel)⟩
  have hcode : assemble "mov 1 2\neof\n".toList = .ok [1, 1, 0, 2, 0xFF, 0, 0, 0] := by decide +kernel
  have hresult : (assembleFile files "p" (some "") .off).result = .ok ("a.out", 2) := by decide +kernel
  obtain ⟨path, -, -, hmade, -⟩ := file_assembly_is_all_or_nothing files "p" (some "") .off
  obtain ⟨rfl, text, ws, code, place, htext, -, -, hassembled, hopens, -, hread⟩ := hmade _ _ hresult
  have hlocate : files.locate "a.out" = .ok ["a.out"] := by decide +kernel
  obtain rfl : ["a.out"] = place := Except.ok.inj (hlocate.symm.trans hopens.located)
  have hkeeps : ¬files.IsDevice ["a.out"] := by
    rintro ⟨_, _, hdevice⟩
    have hnone : files.find? ["a.out"] = none := by decide +kernel
    simp [hnone] at hdevice
  rw [htext.unique hsupplies, hcode, Except.ok.injEq] at hassembled
  subst hassembled
  exact ⟨files, hfile, hresult, hread hkeeps⟩

-- A host that has no room left, with a source, an older binary and the device that is always full.
def crowded : FileStore where
  entries :=
    [(["a.asm"], .file "eof".toUTF8.data.toList), (["a.out"], .file [1, 2]), (["/", "dev"], .directory),
      (["/", "dev", "full"], .device none (some (.refused 28 "No space left on device")))]
  quota := some (0, .refused 28 "No space left on device")

-- A name that opens takes nothing, and an older binary is lost.
theorem not_all_or_nothing_without_room :
    Supplies crowded "a.asm" "eof".toList ∧ assemble "eof".toList = .ok [0xFF, 0, 0, 0] ∧
      crowded.Opens "/dev/full" ["/", "dev", "full"] ∧
      (¬∃ r, (assembleFile crowded "a.asm" (some "/dev/full") .off).result = .ok r) ∧
      (∃ e, (assembleFile crowded "a.asm" none .off).result = .error e) ∧
      crowded.read "a.out" = .ok [1, 2] ∧
      (assembleFile crowded "a.asm" none .off).files.read "a.out" = .ok [] := by
  have hsource : crowded.read "a.asm" = .ok "eof".toUTF8.data.toList := by decide +kernel
  have hfull : crowded.find? ["/", "dev", "full"] =
      some (.device none (some (.refused 28 "No space left on device"))) := by decide +kernel
  refine ⟨⟨_, hsource, Text.unifies_iff.mpr (by decide +kernel)⟩, by decide +kernel,
    ⟨by decide +kernel, by decide +kernel, by simp [hfull]⟩, ?_, ?_, by decide +kernel, by decide +kernel⟩
  · have hresult : (assembleFile crowded "a.asm" (some "/dev/full") .off).result =
        .error (.writing (.refused 28 "No space left on device")) := by decide +kernel
    simp [hresult]
  · exact ⟨.writing (.refused 28 "No space left on device"), by decide +kernel⟩

end WordMachine.Assembly
