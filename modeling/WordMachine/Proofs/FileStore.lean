import Mathlib.Data.List.Basic
import WordMachine.FileStore

namespace WordMachine.FileStore

variable {fs fs' opened : FileStore} {path : String} {place : Path} {bytes : Bytes} {entry : FileEntry}

def IsDevice (fs : FileStore) (place : Path) : Prop :=
  ∃ unread unwritten, fs.find? place = some (.device unread unwritten)

-- A path that can be opened for writing: nothing stands where it leads to, or something that is written over.
structure Opens (fs : FileStore) (path : String) (place : Path) : Prop where
  named : path.endsWith "/" = false
  located : fs.locate path = .ok place
  entry : ∀ entry, fs.find? place = some entry → entry ≠ .directory ∧ ∀ e, entry ≠ .closed e

-- How many bytes a place takes, if it does not take them all, and why no more.
inductive Limits (fs : FileStore) (place : Path) : Nat → FileError → Prop where
  | device {unread : Option FileError} {e : FileError} (h : fs.find? place = some (.device unread (some e))) :
      Limits fs place 0 e
  | file {room : Nat} {e : FileError} (h : ¬fs.IsDevice place) (hquota : fs.quota = some (room, e)) :
      Limits fs place room e

-- What bytes written to a place leave of a store. A device keeps none of them.
structure Written (fs fs' : FileStore) (place : Path) (bytes : Bytes) : Prop where
  holds : ¬fs.IsDevice place → fs'.find? place = some (.file bytes)
  others : ∀ other, other ≠ place → fs'.find? other = fs.find? other
  device : fs.IsDevice place → fs' = fs

-- What writing to a place comes to: it takes all of the bytes, or as many of the first as it has room for.
inductive Fills (fs : FileStore) (place : Path) (bytes : Bytes) : FileStore × Option FileError → Prop where
  | whole {fs' : FileStore} (hroom : ∀ room e, fs.Limits place room e → bytes.length ≤ room)
      (hwritten : Written fs fs' place bytes) : Fills fs place bytes (fs', none)
  | cut {fs' : FileStore} {room : Nat} {e : FileError} (hlimits : fs.Limits place room e)
      (hlong : room < bytes.length) (hwritten : Written fs fs' place (bytes.take room)) :
      Fills fs place bytes (fs', some e)

theorem find?_put_self (h : fs.find? place ≠ some .directory) (entry : FileEntry) :
    (fs.put place entry).find? place = some entry := by
  have hstart : ¬(place = ["/"] ∨ place.all (· == "..")) := by
    intro hstart
    exact h (if_pos hstart)
  have hnone : (fs.entries.filter fun e => e.1 != place).find? (fun e => e.1 == place) = none := by
    rw [List.find?_eq_none]
    simp
  rw [find?, if_neg hstart, put, List.find?_append, hnone]
  simp

theorem find?_put_of_ne {other : Path} (h : other ≠ place) (entry : FileEntry) :
    (fs.put place entry).find? other = fs.find? other := by
  have hkept : (fs.put place entry).entries.find? (fun e => e.1 == other) =
      fs.entries.find? (fun e => e.1 == other) := by
    have hlast : [(place, entry)].find? (fun e => e.1 == other) = none := by simp [Ne.symm h]
    rw [put, List.find?_append, List.find?_filter, hlast, Option.or_none]
    congr 1
    funext e
    by_cases he : e.1 = other
    · simp [he, h]
    · simp [he]
  rw [find?, find?, hkept]

theorem find?_of_advance {name : String} {next : Path} (h : fs.advance place name = .ok next) :
    fs.find? place = some .directory := by
  rw [advance] at h
  split at h <;> simp_all

section Directory

-- What happens to a place that is no directory closes no way through the store.
variable (hplace : fs.find? place ≠ some .directory)
  (hothers : ∀ other, other ≠ place → fs'.find? other = fs.find? other)

include hplace hothers

theorem advance_of_others {at' next : Path} {name : String} (h : fs.advance at' name = .ok next) :
    fs'.advance at' name = .ok next := by
  have hdirectory := find?_of_advance h
  have hne : at' ≠ place := by
    rintro rfl
    exact hplace hdirectory
  simpa only [advance, hothers at' hne, hdirectory] using h

theorem foldlM_advance_of_others {start next : Path} {names : List String}
    (h : names.foldlM fs.advance start = .ok next) : names.foldlM fs'.advance start = .ok next := by
  induction names generalizing start with
  | nil => exact h
  | cons name names ih =>
      rw [List.foldlM_cons] at h ⊢
      cases hstep : fs.advance start name with
      | error e =>
          rw [hstep] at h
          exact absurd h (by simp [bind, Except.bind])
      | ok between =>
          rw [hstep] at h
          rw [advance_of_others hplace hothers hstep]
          exact ih h

theorem locate_of_others {next : Path} (h : fs.locate path = .ok next) : fs'.locate path = .ok next := by
  rw [locate] at h ⊢
  split at h
  · simp at h
  · exact foldlM_advance_of_others hplace hothers h

end Directory

theorem Opens.not_directory (h : fs.Opens path place) : fs.find? place ≠ some .directory := by
  intro hdirectory
  exact (h.entry _ hdirectory).1 rfl

-- The path still leads to the place that was written.
theorem Written.read (h : Written fs fs' place bytes) (hopens : fs.Opens path place)
    (hkeeps : ¬fs.IsDevice place) : fs'.read path = .ok bytes := by
  simp only [FileStore.read, locate_of_others hopens.not_directory h.others hopens.located, h.holds hkeeps,
    hopens.named, Bool.false_eq_true, if_false]

theorem written_of_isDevice (h : fs.IsDevice place) (bytes : Bytes) : Written fs fs place bytes :=
  ⟨fun hnot => absurd h hnot, fun _ _ => rfl, fun _ => rfl⟩

theorem written_put (hdirectory : fs.find? place ≠ some .directory) (h : ¬fs.IsDevice place) (bytes : Bytes) :
    Written fs (fs.put place (.file bytes)) place bytes :=
  ⟨fun _ => find?_put_self hdirectory _, fun _ hne => find?_put_of_ne hne _, fun his => absurd his h⟩

theorem put_put (a b : FileEntry) : (fs.put place a).put place b = fs.put place b := by
  simp [put, List.filter_append, List.filter_filter]

theorem create_eq_ok_iff : fs.create path = .ok (opened, place) ↔
    fs.Opens path place ∧ (fs.IsDevice place → opened = fs) ∧
      (¬fs.IsDevice place → opened = fs.put place (.file [])) := by
  constructor
  · intro h
    rw [create] at h
    split at h
    · simp at h
    · rename_i hslash
      cases hlocate : fs.locate path with
      | error e => simp [hlocate] at h
      | ok there =>
          simp only [hlocate] at h
          split at h <;> simp only [Except.ok.injEq, Prod.mk.injEq, reduceCtorEq] at h
          · rename_i hfind
            obtain ⟨rfl, rfl⟩ := h
            exact ⟨⟨by simpa using hslash, hlocate, by simp [hfind]⟩, fun _ => rfl,
              fun hnot => (hnot ⟨_, _, hfind⟩).elim⟩
          · rename_i hdirectory hclosed hdevice
            obtain ⟨rfl, rfl⟩ := h
            refine ⟨⟨by simpa using hslash, hlocate, fun entry hentry => ⟨?_, ?_⟩⟩, ?_, fun _ => rfl⟩
            · rintro rfl
              exact hdirectory hentry
            · rintro e rfl
              exact hclosed e hentry
            · rintro ⟨_, _, hfind⟩
              exact (hdevice _ _ hfind).elim
  · rintro ⟨⟨hslash, hlocate, hentry⟩, hdevice, hfile⟩
    rw [create, hslash, if_neg (by simp), hlocate]
    dsimp only
    split
    · rename_i hfind
      exact absurd rfl (hentry _ hfind).1
    · rename_i e hfind
      exact absurd rfl ((hentry _ hfind).2 e)
    · rename_i hfind
      rw [hdevice ⟨_, _, hfind⟩]
    · rename_i hnot
      rw [hfile fun ⟨_, _, hfind⟩ => hnot _ _ hfind]

theorem Opens.exists_create (h : fs.Opens path place) : ∃ opened, fs.create path = .ok (opened, place) := by
  by_cases hkind : fs.IsDevice place
  · exact ⟨fs, create_eq_ok_iff.mpr ⟨h, fun _ => rfl, fun hnot => absurd hkind hnot⟩⟩
  · exact ⟨_, create_eq_ok_iff.mpr ⟨h, fun his => absurd his hkind, fun _ => rfl⟩⟩

theorem limits_device_iff {unread unwritten : Option FileError} {room : Nat} {e : FileError}
    (h : fs.find? place = some (.device unread unwritten)) :
    fs.Limits place room e ↔ room = 0 ∧ unwritten = some e := by
  constructor
  · intro hlimits
    cases hlimits with
    | device hfind =>
        simp only [h, Option.some.injEq, FileEntry.device.injEq] at hfind
        exact ⟨rfl, hfind.2⟩
    | file hkind _ => exact absurd ⟨_, _, h⟩ hkind
  · rintro ⟨rfl, rfl⟩
    exact .device h

theorem limits_file_iff {room : Nat} {e : FileError} (h : ¬fs.IsDevice place) :
    fs.Limits place room e ↔ fs.quota = some (room, e) := by
  constructor
  · intro hlimits
    cases hlimits with
    | device hfind => exact absurd ⟨_, _, hfind⟩ h
    | file _ hquota => exact hquota
  · exact .file h

theorem fills_device {unread unwritten : Option FileError} (h : fs.find? place = some (.device unread unwritten))
    (bytes : Bytes) : fs.Fills place bytes (fs.fill place bytes) := by
  have hkept := written_of_isDevice ⟨_, _, h⟩
  have hfill : fs.fill place bytes = (fs, if bytes = [] then none else unwritten) := by simp only [fill, h]
  rw [hfill]
  split
  · rename_i hempty
    exact .whole (by simp [hempty]) (hkept bytes)
  · rename_i hbytes
    cases unwritten with
    | none => exact .whole (by simp [limits_device_iff h]) (hkept bytes)
    | some e => exact .cut (.device h) (List.length_pos_iff.mpr hbytes) (hkept _)

-- A file that was opened has lost what it held, and takes the bytes from the first on.
theorem fills_file (hdirectory : fs.find? place ≠ some .directory) (h : ¬fs.IsDevice place) (bytes : Bytes) :
    fs.Fills place bytes ((fs.put place (.file [])).fill place bytes) := by
  have hquota : (fs.put place (.file [])).quota = fs.quota := rfl
  have hput := written_put hdirectory h
  simp only [fill, find?_put_self hdirectory, hquota, put_put]
  cases hroom : fs.quota with
  | none => exact .whole (by simp [limits_file_iff h, hroom]) (hput bytes)
  | some limit =>
      obtain ⟨room, e⟩ := limit
      dsimp only
      split
      · rename_i hlong
        exact .cut (.file h hroom) hlong (hput _)
      · rename_i hshort
        refine .whole (fun room' e' hlimits => ?_) (hput bytes)
        rw [limits_file_iff h, hroom, Option.some.injEq, Prod.mk.injEq] at hlimits
        omega

theorem fills_of_create (h : fs.create path = .ok (opened, place)) (bytes : Bytes) :
    fs.Fills place bytes (opened.fill place bytes) := by
  obtain ⟨hopens, hdevice, hfile⟩ := create_eq_ok_iff.mp h
  by_cases hkind : fs.IsDevice place
  · rw [hdevice hkind]
    obtain ⟨_, _, hfind⟩ := hkind
    exact fills_device hfind bytes
  · rw [hfile hkind]
    exact fills_file hopens.not_directory hkind bytes

end WordMachine.FileStore
