import WordMachine.Text.Digit
import WordMachine.Text.Quoted

namespace WordMachine.CommandLine

structure OptionSpec where
  names : List String
  takesValue : Bool
  deriving DecidableEq, Repr

def OptionSpec.label (o : OptionSpec) : String :=
  "/".intercalate o.names

-- What becomes of the operands: a single one is wanted, or the first and everything behind it belong to
-- another command line.
inductive OperandRule where
  | single
  | remainder
  deriving DecidableEq, Repr

structure Grammar where
  options : List OptionSpec
  rule : OperandRule
  deriving DecidableEq, Repr

inductive Complaint where
  | unusedValue (value : String)
  | missingValue
  | notInteger (value : String)
  | notRange (value : String)
  | noSuchChoice (value : String) (choices : List String)
  deriving DecidableEq, Repr

-- Why a command line cannot be used.
inductive UsageError where
  | ambiguous (arg : String) (names : List String)
  | argument (label : String) (complaint : Complaint)
  | required (label : String)
  | unrecognized (args : List String)
  deriving DecidableEq, Repr

def Complaint.message : Complaint → String
  | .unusedValue value => s!"ignored explicit argument {Text.quoted value}"
  | .missingValue => "expected one argument"
  | .notInteger value => s!"invalid int value: {Text.quoted value}"
  | .notRange value => s!"expected START:END, got {Text.quoted value}"
  | .noSuchChoice value choices =>
      let listed := ", ".intercalate (choices.map Text.quoted)
      s!"invalid choice: {Text.quoted value} (choose from {listed})"

def UsageError.message : UsageError → String
  | .ambiguous arg names =>
      let listed := ", ".intercalate names
      s!"ambiguous option: {arg} could match {listed}"
  | .argument label complaint => s!"argument {label}: {complaint.message}"
  | .required label => s!"the following arguments are required: {label}"
  | .unrecognized args => "unrecognized arguments: " ++ " ".intercalate args

-- The value written into the same argument as its option.
inductive Attached where
  | none
  -- behind an equals sign
  | equals (value : List Char)
  -- right behind a short option
  | joined (value : List Char)
  deriving DecidableEq, Repr

structure Hit where
  option : OptionSpec
  name : String
  attached : Attached
  deriving DecidableEq, Repr

-- What an argument is by its looks alone.
inductive Token where
  | operand (arg : String)
  | option (arg : String) (hit : Hit)
  | unknownOption (arg : String)
  | separator
  deriving DecidableEq, Repr

def Token.arg : Token → String
  | .operand arg => arg
  | .option arg _ => arg
  | .unknownOption arg => arg
  | .separator => "--"

def Token.isOption : Token → Bool
  | .option .. => true
  | .unknownOption _ => true
  | _ => false

namespace Grammar

-- The names of all options, each with its option.
def names (g : Grammar) : List (String × OptionSpec) :=
  g.options.flatMap fun o => o.names.map fun n => (n, o)

def find? (g : Grammar) (name : List Char) : Option Hit :=
  (g.names.find? fun p => p.1.toList == name).map fun p => ⟨p.2, p.1, .none⟩

-- The part before the first equals sign and the part behind it.
def splitEquals (arg : List Char) : Option (List Char × List Char) :=
  match arg.dropWhile (· != '=') with
  | [] => none
  | _ :: value => some (arg.takeWhile (· != '='), value)

-- The options an argument can stand for that is not the name of one: those a long argument abbreviates,
-- or the one whose short name it begins with.
def candidates (g : Grammar) (arg : List Char) : List Hit :=
  match arg with
  | '-' :: '-' :: _ =>
      let (start, attached) := match splitEquals arg with
        | some (start, value) => (start, Attached.equals value)
        | none => (arg, .none)
      g.names.filterMap fun p =>
        if start.isPrefixOf p.1.toList then some ⟨p.2, p.1, attached⟩ else none
  | _ =>
      g.names.filterMap fun p =>
        if p.1.toList == arg.take 2 then some ⟨p.2, p.1, .joined (arg.drop 2)⟩
        else if arg.isPrefixOf p.1.toList then some ⟨p.2, p.1, .none⟩
        else none

def isDigit (c : Char) : Bool :=
  (Text.decimalDigit? c).isSome

-- Digits, or a point with digits behind it and perhaps before it; a newline may end the argument.
def looksNumeric (arg : List Char) : Bool :=
  let body := if arg.getLast? == some '\n' then arg.dropLast else arg
  let whole := body.takeWhile isDigit
  match body.dropWhile isDigit with
  | [] => !whole.isEmpty
  | '.' :: fraction => !fraction.isEmpty && fraction.all isDigit
  | _ => false

-- An argument that begins with a minus sign but is no option of the grammar: a negative number and
-- anything with a space in it are operands all the same.
def dashed (arg : String) : Token :=
  match arg.toList with
  | '-' :: body =>
      if looksNumeric body then .operand arg
      else if arg.toList.contains ' ' then .operand arg
      else .unknownOption arg
  | _ => .operand arg

def token (g : Grammar) (arg : String) : Except UsageError Token :=
  let cs := arg.toList
  if cs.head? ≠ some '-' then .ok (.operand arg)
  else
    match g.find? cs with
    | some hit => .ok (.option arg hit)
    | none =>
        if cs.length = 1 then .ok (.operand arg)
        else
          let direct : Option Hit := match splitEquals cs with
            | some (name, value) =>
                (g.find? name).map fun hit => { hit with attached := .equals value }
            | none => none
          match direct with
          | some hit => .ok (.option arg hit)
          | none =>
              match g.candidates cs with
              | [] => .ok (dashed arg)
              | [hit] => .ok (.option arg hit)
              | hits => .error (.ambiguous arg (hits.map Hit.name))

-- All arguments are looked at before any of them takes effect.
def tokens (g : Grammar) : List String → Except UsageError (List Token)
  | [] => .ok []
  | arg :: rest =>
      if arg = "--" then .ok (.separator :: rest.map .operand)
      else
        match g.token arg with
        | .error e => .error e
        | .ok t =>
            match g.tokens rest with
            | .error e => .error e
            | .ok ts => .ok (t :: ts)

end Grammar

-- Something on a command line that takes effect. An option whose attached value is a bare `--` is left
-- without a value, for the mark is taken out wherever it stands.
inductive Occurrence where
  | option (o : OptionSpec) (value : String)
  | emptied (o : OptionSpec)
  | operands (args : List String)
  deriving DecidableEq, Repr

-- What a command line says, in order, and how it ends: with the arguments nobody takes, or with an
-- error that stands behind all the effects before it.
structure Reading where
  seen : List Occurrence
  outcome : Except UsageError (List String)

namespace Reading

def leftOver (args : List String) : Reading :=
  ⟨[], .ok args⟩

def failed (e : UsageError) : Reading :=
  ⟨[], .error e⟩

def after (seen : List Occurrence) (r : Reading) : Reading :=
  { r with seen := seen ++ r.seen }

def ignoring (args : List String) (r : Reading) : Reading :=
  { r with outcome := r.outcome.map (args ++ ·) }

end Reading

-- The options of one argument: those that take effect, and the last one if it still wants its value
-- from the next argument.
structure Bundle where
  seen : List Occurrence
  wants : Option OptionSpec
  deriving DecidableEq, Repr

namespace Grammar

def refuseValue (o : OptionSpec) (value : List Char) : Except UsageError Bundle :=
  .error (.argument o.label (.unusedValue (String.ofList value)))

def withoutValue (o : OptionSpec) : Bundle :=
  if o.takesValue then ⟨[], some o⟩ else ⟨[.option o ""], none⟩

def withValue (o : OptionSpec) (value : List Char) : Bundle :=
  if value = ['-', '-'] then ⟨[.emptied o], none⟩
  else ⟨[.option o (String.ofList value)], none⟩

-- An option and what is attached to it: its value if it takes one.
def attach (o : OptionSpec) (value : List Char) : Except UsageError Bundle :=
  if o.takesValue then .ok (withValue o value) else refuseValue o value

-- A short option and what stands behind it: its value, or further short options if it takes none. An
-- equals sign in such a run is a character like any other.
def shortRun (g : Grammar) (o : OptionSpec) : List Char → Except UsageError Bundle
  | [] => .ok (withoutValue o)
  | c :: rest =>
      if o.takesValue then .ok (withValue o (c :: rest))
      else
        match g.find? ['-', c] with
        | none => refuseValue o (c :: rest)
        | some next =>
            match shortRun g next.option rest with
            | .error e => .error e
            | .ok b => .ok { b with seen := .option o "" :: b.seen }

def isLong (name : String) : Bool :=
  name.startsWith "--"

def bundle (g : Grammar) (hit : Hit) : Except UsageError Bundle :=
  match hit.attached with
  | .none => .ok (withoutValue hit.option)
  | .joined value => g.shortRun hit.option value
  | .equals value =>
      if isLong hit.name ∨ value = [] then attach hit.option value
      else g.shortRun hit.option value

-- The operands at the head of the tokens that satisfy the rule, and how many tokens they are. A
-- separator before or behind them goes with them.
def operands? (rule : OperandRule) (ts : List Token) : Option (List String × Nat) :=
  let lead := ts.takeWhile (· == .separator)
  match ts.drop lead.length with
  | .operand arg :: rest =>
      match rule with
      | .single =>
          let tail := rest.takeWhile (· == .separator)
          some ([arg], lead.length + 1 + tail.length)
      | .remainder => some (ts.map Token.arg, ts.length)
  | _ => none

-- Reads tokens from the left. Operands are taken where they stand until the rule is satisfied; what
-- nobody takes is kept for the end.
def readTokens (g : Grammar) : Nat → Bool → List Token → Reading
  | 0, _, ts => .leftOver (ts.map Token.arg)
  | k + 1, wanted, ts =>
      match ts with
      | .option _ hit :: rest =>
          match g.bundle hit with
          | .error e => .failed e
          | .ok b =>
              match b.wants, rest with
              | none, rest => (g.readTokens k wanted rest).after b.seen
              | some o, .operand value :: rest =>
                  (g.readTokens k wanted rest).after (b.seen ++ [.option o value])
              | some o, _ => .failed (.argument o.label .missingValue)
      | .unknownOption arg :: rest => (g.readTokens k wanted rest).ignoring [arg]
      | _ =>
          match if wanted then operands? g.rule ts else none with
          | some (args, n) => (g.readTokens k false (ts.drop n)).after [.operands args]
          | none =>
              let idle := ts.takeWhile (fun t => !t.isOption)
              if idle.length = ts.length then .leftOver (ts.map Token.arg)
              else (g.readTokens k wanted (ts.drop idle.length)).ignoring (idle.map Token.arg)

-- Long options may be abbreviated, short ones run together, and behind `--` everything is an operand.
def read (g : Grammar) (args : List String) : Reading :=
  match g.tokens args with
  | .error e => .failed e
  | .ok ts => g.readTokens (ts.length + 1) true ts

end Grammar

end WordMachine.CommandLine
