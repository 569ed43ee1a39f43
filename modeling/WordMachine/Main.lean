import WordMachine.CommandLine.Execution

namespace WordMachine.CommandLine

-- The host gives some reasons under the number and some under its complement.
def reasonOf (code : UInt32) (text : String) : FileError :=
  FileError.ofCode (min code.toNat (-code).toNat) text

def hostError : IO.Error → FileError
  | .noFileOrDirectory _ code text | .inappropriateType _ code text | .permissionDenied _ code text
  | .invalidArgument _ code text | .resourceExhausted _ code text | .alreadyExists _ code text
  | .noSuchThing _ code text | .interrupted _ code text | .otherError code text
  | .hardwareFault code text | .resourceBusy code text | .resourceVanished code text
  | .unsupportedOperation code text | .unsatisfiedConstraints code text | .illegalOperation code text
  | .protocolError code text | .timeExpired code text => reasonOf code text
  | .unexpectedEof => reasonOf 5 "Input/output error"
  | .userError text => reasonOf 5 text

def look (path : String) : IO FileEntry := do
  try
    let bytes ← IO.FS.readBinFile path
    return .file bytes.toList
  catch e => return .closed (hostError e)

-- What the host holds where a request reads and writes.
def survey (request : Request) : IO FileStore := do
  let there := match request.output? with
    | some path => ({} : FileStore).know path none
    | none => {}
  return there.know request.input (some (← look request.input))

-- Writes bytes to a file that is open. A host that does not take them has something there that takes none.
def fill (handle : IO.FS.Handle) (bytes : Bytes) : IO (Option FileEntry) := do
  try
    handle.write ⟨bytes.toArray⟩
    handle.flush
    return none
  catch e => return some (.device none (some (hostError e)))

-- Writes bytes where a path leads to, if it opens.
def deposit (path : String) (bytes : Bytes) : IO (Option FileEntry) := do
  try fill (← IO.FS.Handle.mk path .write) bytes
  catch e => return some (.closed (hostError e))

-- Brings the file that a request has written to the host.
def deliver (files : FileStore) (request : Request) : IO (Option FileEntry) := do
  match request.output? with
  | none => return none
  | some path =>
      match files.read path with
      | .error _ => return none
      | .ok bytes => deposit path bytes

-- More actions than any program that comes to an end takes.
def granted : Nat := 0x4000000000000000

-- As many words as a memory is taken to have room for.
def room : Nat := 0x1000000000

-- The outcome on the host's files. What became of a binary that the host did not take is known afterwards.
def carryOut (args : List String) : IO (Option Outcome) := do
  let execute (files : FileStore) := execute? { files := files, room := room } granted args
  match readArguments args with
  | .error _ => return execute {}
  | .ok (_, request) =>
      let files ← survey request
      match execute files with
      | none => return none
      | some outcome =>
          if outcome.files = files then return some outcome
          else
            match ← deliver outcome.files request, request.output? with
            | some entry, some path => return execute (files.know path (some entry))
            | _, _ => return some outcome

end WordMachine.CommandLine

open WordMachine.CommandLine in
def main (args : List String) : IO UInt32 := do
  match ← carryOut args with
  | none =>
      IO.eprintln "The program does not end"
      return 1
  | some outcome =>
      IO.eprint outcome.stderr
      IO.print outcome.stdout
      match outcome.exit with
      | .ok code => return code.toUInt32
      | .error e =>
          IO.eprintln e.message
          return 1
