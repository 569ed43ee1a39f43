import WordMachine.Assembly.Program
import WordMachine.FileStore

namespace WordMachine.Assembly

def defaultOutput : String := "a.out"

-- Whether a listing is wanted, and whether whoever wants it takes it.
inductive ListingMode where
  | off
  | taken
  | refused
  deriving DecidableEq, Repr

inductive FileFailure where
  | file (path : String) (e : FileError)
  | writing (e : FileError)
  | notText
  | assembly (e : Error)
  | listingRefused
  deriving DecidableEq, Repr

def FileFailure.message : FileFailure → String
  | .file path e => e.message path
  | .writing e => e.unnamed
  | .notText => "the source is not UTF-8 text"
  | .assembly e => e.message
  | .listingRefused => "[Errno 32] Broken pipe"

-- The text of a source file. Its line ends are unified after it has been read as UTF-8.
def sourceText (bytes : Bytes) : Option (List Char) :=
  (String.fromUTF8? ⟨bytes.toArray⟩).map (fun s => Text.unifyLineEnds s.toList)

-- What assembling a file leaves: the files, the lines that were listed, and the path and the number of
-- words of the binary or the reason why there is none.
structure FileOutcome where
  files : FileStore
  listing : List String
  result : Except FileFailure (String × Nat)

-- An empty output path stands for the default one.
def outputPath (out : Option String) : String :=
  match out with
  | none => defaultOutput
  | some path => if path = "" then defaultOutput else path

def assembleFile (files : FileStore) (source : String) (out : Option String) (mode : ListingMode) :
    FileOutcome :=
  match files.read source with
  | .error e => ⟨files, [], .error (.file source e)⟩
  | .ok bytes =>
      match sourceText bytes with
      | none => ⟨files, [], .error .notText⟩
      | some text =>
          let t := transcript text
          let listing := if mode = .taken then t.listing else []
          if mode = .refused ∧ t.entries ≠ [] then ⟨files, [], .error .listingRefused⟩
          else
            match t.words with
            | .error e => ⟨files, listing, .error (.assembly e)⟩
            | .ok ws =>
                let path := outputPath out
                match files.create path with
                | .error e => ⟨files, listing, .error (.file path e)⟩
                | .ok (opened, place) =>
                    match opened.fill place (Word.stream ws) with
                    | (filled, some e) => ⟨filled, listing, .error (.writing e)⟩
                    | (filled, none) => ⟨filled, listing, .ok (path, ws.length)⟩

end WordMachine.Assembly
