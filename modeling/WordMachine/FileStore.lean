import WordMachine.Text.Blank
import WordMachine.Text.Quoted
import WordMachine.Word

namespace WordMachine

-- Why a file cannot be opened, or takes no more bytes. Reasons the store has no rule for come with the number and
-- text that the host gives them.
inductive FileError where
  | notFound
  | notDirectory
  | isDirectory
  | nullInName
  | refused (code : Nat) (reason : String)
  deriving DecidableEq, Repr

namespace FileError

def code : FileError → Nat
  | .notFound => 2
  | .notDirectory => 20
  | .isDirectory => 21
  | .nullInName => 22
  | .refused code _ => code

def reason : FileError → String
  | .notFound => "No such file or directory"
  | .notDirectory => "Not a directory"
  | .isDirectory => "Is a directory"
  | .nullInName => "embedded null byte"
  | .refused _ reason => reason

-- The reason with a number, and the text for it where the number has no reason of its own.
def ofCode (code : Nat) (text : String) : FileError :=
  if code = FileError.notFound.code then .notFound
  else if code = FileError.notDirectory.code then .notDirectory
  else if code = FileError.isDirectory.code then .isDirectory
  else .refused code text.capitalize

-- The message where no path is named.
def unnamed (e : FileError) : String :=
  s!"[Errno {Text.decimal e.code}] {e.reason}"

-- The message for a path. A name that no file can have is refused before any path is looked up.
def message (e : FileError) (path : String) : String :=
  match e with
  | .nullInName => e.reason
  | _ => s!"{e.unnamed}: {Text.quoted path}"

end FileError

-- What stands under a path: a file, a directory, a device, or something that is known not to open. A device holds
-- nothing, and may fail to be read, and fail to take what is written to it.
inductive FileEntry where
  | file (bytes : Bytes)
  | directory
  | device (unread unwritten : Option FileError)
  | closed (e : FileError)
  deriving DecidableEq, Repr

abbrev Path := List String

-- The files of a host. A file that is written may be one for which the host has room for so many bytes only, and
-- then there is a reason for that.
structure FileStore where
  entries : List (Path × FileEntry) := []
  quota : Option (Nat × FileError) := none
  deriving DecidableEq, Repr

namespace FileStore

-- The path after one more name: it stays in place, goes back a step, or goes on.
def follow (path : Path) (name : String) : Path :=
  if name = "" ∨ name = "." then path
  else if name = ".." then
    match path.getLast? with
    | none => [".."]
    | some last => if last = ".." then path ++ [".."] else if last = "/" then path else path.dropLast
  else path ++ [name]

-- Where a path starts: at the root if a slash comes first.
def origin (path : String) : Path :=
  if path.startsWith "/" then ["/"] else []

-- The names between the slashes of a path, some of which may be empty.
def names (path : String) : List String :=
  (Text.pieces '/' path.toList).map String.ofList

def resolve (path : String) : Path :=
  (names path).foldl follow (origin path)

-- The places where paths start are directories, and so is every directory above them.
def find? (fs : FileStore) (path : Path) : Option FileEntry :=
  if path = ["/"] ∨ path.all (· == "..") then some .directory
  else (fs.entries.find? (fun e => e.1 == path)).map (·.2)

def nameTooLong : FileError := .refused 36 "File name too long"

-- A step to a name, from a directory only.
def advance (fs : FileStore) (path : Path) (name : String) : Except FileError Path :=
  match fs.find? path with
  | none => .error .notFound
  | some (.file _) => .error .notDirectory
  | some (.device _ _) => .error .notDirectory
  | some (.closed e) => .error e
  | some .directory =>
      if 255 < name.utf8ByteSize then .error nameTooLong else .ok (follow path name)

-- What is wrong with a path before any step of it is taken.
def badPath? (path : String) : Option FileError :=
  if path.toList.contains '\x00' then some .nullInName
  else if path = "" then some .notFound
  else if 4096 ≤ path.utf8ByteSize then some nameTooLong
  else none

def steps (path : String) : List String :=
  (names path).filter (· != "")

-- The place that a path leads to, which need not hold anything.
def locate (fs : FileStore) (path : String) : Except FileError Path :=
  match badPath? path with
  | some e => .error e
  | none => (steps path).foldlM fs.advance (origin path)

-- A path that ends in a slash names a directory.
def read (fs : FileStore) (path : String) : Except FileError Bytes :=
  match fs.locate path with
  | .error e => .error e
  | .ok place =>
      match fs.find? place with
      | none => .error .notFound
      | some .directory => .error .isDirectory
      | some (.closed e) => .error e
      | some (.file bytes) => if path.endsWith "/" then .error .notDirectory else .ok bytes
      | some (.device unread _) =>
          if path.endsWith "/" then .error .notDirectory
          else match unread with
            | some e => .error e
            | none => .ok []

def put (fs : FileStore) (place : Path) (entry : FileEntry) : FileStore :=
  { fs with entries := fs.entries.filter (fun e => e.1 != place) ++ [(place, entry)] }

-- All directories on the way to a path are there, and what stands at its end is known.
def know (fs : FileStore) (path : String) (entry : Option FileEntry) : FileStore :=
  let (reached, place) := (steps path).foldl
    (fun (fs, place) name => (fs.put place .directory, follow place name))
    (fs, origin path)
  match entry with
  | none => reached
  | some entry => reached.put place entry

-- A name with a slash behind it is never written as a file; only the way to it is looked at.
def refuseDirectory (fs : FileStore) (path : String) : FileError :=
  match badPath? path with
  | some e => e
  | none =>
      match ((steps path).dropLast ++ ["."]).foldlM fs.advance (origin path) with
      | .error e => e
      | .ok _ => .isDirectory

-- Opens a path for writing and gives the place it leads to. A file is made there, or loses what it held.
def create (fs : FileStore) (path : String) : Except FileError (FileStore × Path) :=
  if path.endsWith "/" then .error (fs.refuseDirectory path)
  else
    match fs.locate path with
    | .error e => .error e
    | .ok place =>
        match fs.find? place with
        | some .directory => .error .isDirectory
        | some (.closed e) => .error e
        | some (.device _ _) => .ok (fs, place)
        | _ => .ok (fs.put place (.file []), place)

-- Writes bytes to a place that was opened for it, with the reason if some of them are not taken. Those that were
-- taken before stay in the file.
def fill (fs : FileStore) (place : Path) (bytes : Bytes) : FileStore × Option FileError :=
  match fs.find? place, fs.quota with
  | some (.device _ unwritten), _ => (fs, if bytes = [] then none else unwritten)
  | _, some (room, e) =>
      if room < bytes.length then (fs.put place (.file (bytes.take room)), some e)
      else (fs.put place (.file bytes), none)
  | _, none => (fs.put place (.file bytes), none)

end FileStore

end WordMachine
