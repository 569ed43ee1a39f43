import WordMachine.CommandLine.Execution
import WordMachine.Proofs.CommandLine.Request
import WordMachine.Proofs.Computer.Completion
import WordMachine.Proofs.Engine.Loading

namespace WordMachine

-- A host can count the words of a size, and has room for them.
def Memory.Fits (room : Nat) (size : Int) : Prop :=
  size < 0x8000000000000000 ∧ size ≤ room

theorem Memory.create_eq_ok {room : Nat} {size : Int} (hpos : 0 < size) (hfits : Fits room size) :
    create room size = .ok ⟨Array.replicate size.toNat 0⟩ := by
  obtain ⟨hcountable, hroom⟩ := hfits
  rw [create, if_neg (by omega), if_neg (by omega), if_neg (by omega)]

-- A size that is too large for a host, whichever way it is found out.
theorem Memory.create_eq_error {room : Nat} {size : Int} (h : ¬Fits room size) :
    ∃ e, create room size = .error e ∧ (e = .uncountable ∨ e = .noRoom) := by
  rw [Fits] at h
  rw [create, if_neg (by omega)]
  split
  · exact ⟨_, rfl, .inl rfl⟩
  · rw [if_pos (by omega)]
    exact ⟨_, rfl, .inr rfl⟩

theorem Memory.exists_dump_iff {m : Memory} {first last : Int} :
    (∃ text, m.dump first (some last) = .ok text) ↔ m.Holds first ∧ m.Holds last := by
  simp only [dump, Option.getD_some]
  by_cases hfirst : m.Holds first
  · by_cases hlast : m.Holds last <;> simp [hfirst, hlast]
  · simp [hfirst]

namespace CommandLine

-- A program or a size that there is no machine for.
def Unloadable (size : Int) (bytes : Bytes) : Prop :=
  size ≤ 0 ∨ ¬4 ∣ bytes.length ∨ size < (bytes.length / 4 : Nat)

instance (size : Int) (bytes : Bytes) : Decidable (Unloadable size bytes) :=
  inferInstanceAs (Decidable (_ ∨ _ ∨ _))

-- The machine of a size with a program loaded and nothing around it.
def Loads (room : Nat) (size : Int) (bytes : Bytes) (e : Engine) : Prop :=
  ∃ blank, Engine.create room size = .ok blank ∧ blank.load bytes = .ok e

-- What is printed for a range of the memory: the dump, if both ends are in the memory.
def Prints (m : Memory) (range : Setting (Int × Int)) (text : String) : Prop :=
  match range with
  | .given (first, last) =>
      (m.Holds first ∧ m.Holds last →
        ∃ dump, m.dump first (some last) = .ok dump ∧ text = "\n" ++ dump ++ "\n") ∧
      (¬(m.Holds first ∧ m.Holds last) → text = "\n")
  | _ => text = ""

-- An outcome that tells of a machine that has run alone to its end.
structure Truthful (range : Setting (Int × Int)) (plain : Engine) (out : Outcome) : Prop where
  exit : out.exit = .ok (if plain.fault = none then 0 else 1)
  stdout : ∃ (texts : List String) (printed : String), plain.output.items = texts.map .text ∧
    Prints plain.processor.memory range printed ∧ out.stdout = String.join texts ++ printed
  stderr : ∀ f, plain.fault = some f → ∃ before, out.stderr = before ++ s!"\nFault: {f.message}\n"

structure Refuses (out : Outcome) : Prop where
  exit : out.exit = .ok 1
  stdout : out.stdout = ""
  stderr : ∃ (before message : String), out.stderr = before ++ s!"Load error: {message}\n"

-- What a run leaves when its tasks have come to a state, behind what has been logged.
def finished (host : Host) (level : LogLevel) (r : VmRequest) (log : String) (after : Computer) : Outcome :=
  { conclude host level r after with
    stdout := after.console.sink.text ++ (conclude host level r after).stdout
    stderr := log ++ (conclude host level r after).stderr }

-- Where the console writes when standard output works.
def screen : Sink :=
  { encoding := .utf8 }

theorem whole_screen : screen.Whole :=
  ⟨fun _ => rfl, rfl, rfl⟩

theorem prints_dumpText (m : Memory) (range : Int × Int) :
    Prints m (.given range) (dumpText m range).1 := by
  obtain ⟨first, last⟩ := range
  have hends : (∃ text, m.dump first (some last) = .ok text) ↔ m.Holds first ∧ m.Holds last :=
    Memory.exists_dump_iff
  cases hdump : m.dump first (some last) with
  | ok text =>
      refine ⟨fun _ => ⟨text, hdump, by simp only [dumpText, hdump]⟩, fun hnot => ?_⟩
      exact absurd (hends.mp ⟨text, hdump⟩) hnot
  | error f =>
      refine ⟨fun hboth => ?_, fun _ => by simp only [dumpText, hdump]⟩
      obtain ⟨text, htext⟩ := hends.mpr hboth
      simp [hdump] at htext

theorem verdict_eq (level : LogLevel) (result : Computer.Result) (h : result.consoleError = none) :
    (verdict level result).2 = (if result.fault = none then 0 else 1) ∧
      ∀ f, result.fault = some f → (verdict level result).1 = s!"\nFault: {f.message}\n" := by
  obtain ⟨cycles, fault, output, error⟩ := result
  subst h
  cases fault with
  | none => exact ⟨rfl, by simp⟩
  | some f =>
      refine ⟨by simp [verdict], fun g hg => ?_⟩
      obtain rfl := Option.some.inj hg
      rfl

theorem open_of_loads {room : Nat} {size : Int} {limit : Option Int} {c : Computer} {bytes : Bytes} {e : Engine}
    (hcreate : Computer.create room size limit screen = .ok c) (hload : c.engine.load bytes = .ok e) : e.Open :=
  (Computer.loaded_of_create hcreate hload).1.twins.right

-- A limit read off a command line can be named.
theorem length_of_stepLimit {r : VmRequest} (h : NamesLimit r.limit) :
    ∀ n, stepLimit r = some n → (Nat.toDigits 10 n.natAbs).length ≤ Text.decimalLimit := by
  intro n hn
  refine (Text.length_toDigits_le_iff (by decide)).mpr (h n ?_)
  rw [stepLimit] at hn
  split at hn
  · rename_i hlimit
    rw [hlimit, Option.some.inj hn]
  · simp at hn

section Request

variable {host : Host} {r : VmRequest} {size : Int} {bytes : Bytes} {c : Computer} {e : Engine}

theorem prepare_of_bad_size (hsize : memorySize r = .ok size) {x : BadSize}
    (h : Memory.create host.room size = .error x) : prepare host r = .error (refusedSize x) := by
  simp [prepare, hsize, Except.mapError, Computer.create, Engine.create, h, bind, Except.bind]

theorem prepare_of_create (hworks : host.outputWorks = true) (hsize : memorySize r = .ok size)
    (hcreate : Computer.create host.room size (stepLimit r) screen = .ok c)
    (hfile : host.files.read r.binary = .ok bytes) :
    prepare host r =
      match c.engine.load bytes with
      | .error x => .error (.load x.message)
      | .ok e =>
          .ok (c.withEngine e, Engine.creationRecords size ++ [Engine.openingRecord r.binary] ++
            c.engine.loadRecords bytes) := by
  have hsink : ({ encoding := .utf8, failWrite := if host.outputWorks then none else some 1 } : Sink) =
      screen := by
    rw [hworks]
    rfl
  cases hload : c.engine.load bytes <;>
    simp only [prepare, hsink, hsize, hcreate, Except.mapError, bind, Except.bind, hfile, hload]

-- Whatever is refused before it runs is refused at once, with nothing on standard output.
theorem run?_of_refusal {level : LogLevel} {message : String} (h : prepare host r = .error (.load message))
    (granted : Nat) : ∃ out, run? host level granted r = some out ∧ Refuses out :=
  ⟨_, by rw [run?, h], rfl, rfl, "", message, by simp⟩

theorem run?_eq_some (level : LogLevel) {before : Computer} {loading : List LogRecord}
    (hprepare : prepare host r = .ok (before, loading)) (hstarted : before.started = false)
    (hlimit : r.limit ≠ .empty) (granted : Nat) (out : Outcome) :
    run? host level granted r = some out ↔
      ∃ after, before.start? granted none = some (.ok after) ∧
        out = finished host level r (logText level (loading ++ before.runRecords granted none after)) after := by
  have hfailure : limitFailure r = none := if_neg hlimit
  rw [run?, hprepare]
  simp only [hfailure]
  cases hstart : before.start? granted none with
  | none => simp
  | some result =>
      cases result with
      | error x =>
          rw [Computer.start?, hstarted] at hstart
          simp only [Bool.false_eq_true, if_false] at hstart
          split at hstart <;> simp at hstart
      | ok after =>
          simp only [Option.some.injEq, Except.ok.injEq, exists_eq_left']
          exact eq_comm

theorem conclude_eq (hworks : host.outputWorks = true) (hdump : r.dump ≠ .empty) (level : LogLevel)
    (after : Computer) :
    ∃ printed complaint, Prints after.engine.processor.memory r.dump printed ∧
      conclude host level r after =
        { files := host.files
          stdout := printed
          stderr := complaint ++ (verdict level after.result).1
          exit := .ok (verdict level after.result).2 } := by
  cases hrange : r.dump with
  | empty => exact absurd hrange hdump
  | absent => exact ⟨"", "", rfl, by simp [conclude, hrange]⟩
  | given range =>
      refine ⟨_, (dumpText after.engine.processor.memory range).2, prints_dumpText _ range, ?_⟩
      simp only [conclude, hrange, hworks, if_true]

-- What is printed behind the run tells of the machine that the computer displays.
theorem truthful_finished {after : Computer} {plain : Engine} (hworks : host.outputWorks = true)
    (hdump : r.dump ≠ .empty) (h : after.Displays screen plain) (level : LogLevel) (log : String) :
    Truthful r.dump plain (finished host level r log after) := by
  obtain ⟨texts, hitems, htext⟩ := h.text
  obtain ⟨hcode, hfault⟩ := verdict_eq level after.result h.error
  obtain ⟨printed, complaint, hprints, hconclude⟩ := conclude_eq hworks hdump level after
  have hresult : after.result.fault = plain.fault := h.fault
  rw [hresult] at hcode hfault
  refine { exit := ?_, stdout := ⟨texts, printed, hitems, ?_, ?_⟩, stderr := fun f hf => ⟨log ++ complaint, ?_⟩ }
  · rw [finished, hconclude, hcode]
  · rw [← h.processor]
    exact hprints
  · rw [finished, hconclude, htext, screen, String.empty_append]
  · rw [finished, hconclude, hfault f hf]
    exact (String.append_assoc ..).symm

-- The computer of a size, with nothing loaded yet.
theorem exists_create {room : Nat} (limit : Option Int) (hpos : 0 < size) (hroom : Memory.Fits room size) :
    ∃ c, Computer.create room size limit screen = .ok c ∧ Engine.create room size = .ok c.engine ∧
      c.engine.loaded = false ∧ c.engine.processor.cycles = 0 ∧ c.engine.halted = false ∧
      c.engine.processor.memory.size = size.toNat ∧ c.started = false ∧ c.limit = limit := by
  have hengine : Engine.create room size = .ok (.ofMemory ⟨Array.replicate size.toNat 0⟩) := by
    rw [Engine.create, Memory.create_eq_ok hpos hroom]
  simp only [Computer.create, hengine, Except.ok.injEq, exists_eq_left']
  exact ⟨rfl, rfl, rfl, rfl, Array.size_replicate, trivial, trivial⟩

-- The request comes to a computer that has not started, or is refused, or leaves the command.
theorem prepare_cases (hworks : host.outputWorks = true) (hsize : memorySize r = .ok size)
    (hfile : host.files.read r.binary = .ok bytes) (hroom : Memory.Fits host.room size) :
    (Unloadable size bytes ∧ ∃ message, prepare host r = .error (.load message)) ∨
      ∃ c e loading, ¬Unloadable size bytes ∧ Loads host.room size bytes e ∧
        Computer.create host.room size (stepLimit r) screen = .ok c ∧ c.engine.load bytes = .ok e ∧
        c.started = false ∧ c.limit = stepLimit r ∧ prepare host r = .ok (c.withEngine e, loading) := by
  by_cases hpos : 0 < size
  · obtain ⟨c, hcreate, hblank, hloaded, hcycles, hh, hmemory, hstarted, hlimit⟩ :=
      exists_create (stepLimit r) hpos hroom
    have hload : (∃ e, c.engine.load bytes = .ok e) ↔ 4 ∣ bytes.length ∧ bytes.length / 4 ≤ size.toNat := by
      rw [Engine.exists_load_iff hloaded hcycles hh, hmemory]
    have hprepare := prepare_of_create hworks hsize hcreate hfile
    cases hengine : c.engine.load bytes with
    | error x =>
        rw [hengine] at hprepare hload
        refine Or.inl ⟨?_, _, hprepare⟩
        by_contra hloadable
        simp only [Unloadable, not_or, Decidable.not_not] at hloadable
        have hfits := hload.mpr ⟨hloadable.2.1, by omega⟩
        simp at hfits
    | ok e =>
        rw [hengine] at hprepare
        obtain ⟨hwhole, hfits⟩ := hload.mp ⟨e, hengine⟩
        refine Or.inr ⟨c, e, _, ?_, ⟨_, hblank, hengine⟩, hcreate, hengine, hstarted, hlimit, hprepare⟩
        rintro (hle | hragged | hlong)
        · omega
        · exact hragged hwhole
        · omega
  · have hcreate : Memory.create host.room size = .error (.notPositive size) := if_pos (by omega)
    exact Or.inl ⟨Or.inl (by omega), _, prepare_of_bad_size hsize hcreate⟩

section Loaded

-- A program that has been loaded into the computer of the request.
variable (hworks : host.outputWorks = true) (hlimit : r.limit ≠ .empty) (hdump : r.dump ≠ .empty)
  (hnames : NamesLimit r.limit)
  (hcreate : Computer.create host.room size (stepLimit r) screen = .ok c) (hload : c.engine.load bytes = .ok e)
  {loading : List LogRecord} (hprepare : prepare host r = .ok (c.withEngine e, loading))
  (hstarted : c.started = false)

include hworks hdump hcreate hload

-- Whatever order the tasks acted in, what they leave at their end is reported as it is.
theorem truthful_of_reaches {plain : Engine} {n : Nat} (hruns : e.Runs (stepLimit r) (plain, .ok n))
    {after : Computer} {produced : List Item} (hreaches : ((c.withEngine e).begin none).Reaches after produced)
    (hengine : after.engineEnded = true) (hmonitor : after.monitor.ended = true)
    (hconsole : after.console.ended = true) (level : LogLevel) (log : String) :
    Truthful r.dump plain (finished host level r log after) :=
  truthful_finished hworks hdump (Computer.displays_of_reaches whole_screen hcreate hload hreaches hruns
    hengine hmonitor hconsole) level log

include hlimit hprepare hstarted

include hnames in
theorem truthful_of_run? {level : LogLevel} {granted : Nat} {out : Outcome}
    (hout : run? host level granted r = some out) :
    ∃ plain n, e.Runs (stepLimit r) (plain, .ok n) ∧ Truthful r.dump plain out := by
  obtain ⟨after, hstart, rfl⟩ := (run?_eq_some level hprepare hstarted hlimit granted out).mp hout
  obtain ⟨⟨produced, hreaches⟩, hengine, hmonitor, hconsole⟩ :=
    Computer.ended_of_start? (.loaded (.created hcreate) hload) hstart
  obtain ⟨_, hends⟩ := Computer.exists_runs hcreate hload hreaches hengine
  obtain ⟨plain, n, rfl⟩ := hends.exists_ok (open_of_loads hcreate hload) (length_of_stepLimit hnames)
  have hruns := hends
  exact ⟨plain, n, hruns,
    truthful_of_reaches hworks hdump hcreate hload hruns hreaches hengine hmonitor hconsole level _⟩

-- With enough actions granted there is an answer, and only one run that it can tell of.
theorem exists_run?_of_runs (hcomputerLimit : c.limit = stepLimit r) {plain : Engine} {n : Nat}
    (hruns : e.Runs (stepLimit r) (plain, .ok n)) (level : LogLevel) :
    ∃ least, ∀ granted, least ≤ granted →
      ∃ out, run? host level granted r = some out ∧ Truthful r.dump plain out := by
  obtain ⟨least, hleast⟩ := Computer.exists_start? (s := c.withEngine e) hstarted (hcomputerLimit.symm ▸ hruns)
  refine ⟨least, fun granted hgranted => ?_⟩
  obtain ⟨after, hstart⟩ := hleast granted hgranted
  obtain ⟨⟨produced, hreaches⟩, hengine, hmonitor, hconsole⟩ :=
    Computer.ended_of_start? (.loaded (.created hcreate) hload) hstart
  exact ⟨_, (run?_eq_some level hprepare hstarted hlimit granted _).mpr ⟨after, hstart, rfl⟩,
    truthful_of_reaches hworks hdump hcreate hload hruns hreaches hengine hmonitor hconsole level _⟩

end Loaded

end Request

-- The machine mode tells of the run that the machine makes alone, whatever order its tasks act in. From
-- the size on that there is no room for, the failure of the memory leaves the command instead.
theorem vm_reports_its_run {host : Host} {args : List String} {verbosity : Nat} {r : VmRequest}
    {size : Int} {bytes : Bytes} (hworks : host.outputWorks = true)
    (hargs : readArguments args = .ok (verbosity, .vm r)) (hsize : memorySize r = .ok size)
    (hlimit : r.limit ≠ .empty) (hdump : r.dump ≠ .empty)
    (hfile : host.files.read r.binary = .ok bytes) :
    (r.Writable → readArguments r.commandLine = .ok (0, .vm r)) ∧
    (Memory.Fits host.room size → Unloadable size bytes →
      ∀ granted, ∃ out, execute? host granted args = some out ∧ Refuses out) ∧
    (¬Memory.Fits host.room size → ∃ x, ∀ granted, ∃ out,
      execute? host granted args = some out ∧ out.exit = .error (.memory x)) ∧
    (Memory.Fits host.room size → ¬Unloadable size bytes → ∃ e, Loads host.room size bytes e ∧
      (∀ granted out, execute? host granted args = some out →
        ∃ plain n, e.Runs (stepLimit r) (plain, .ok n) ∧ Truthful r.dump plain out) ∧
      ∀ plain n, e.Runs (stepLimit r) (plain, .ok n) →
        (∃ least, ∀ granted, least ≤ granted →
          ∃ out, execute? host granted args = some out ∧ Truthful r.dump plain out) ∧
        ∀ before loading after produced, prepare host r = .ok (before, loading) →
          (before.begin none).Reaches after produced → after.engineEnded = true →
          after.monitor.ended = true → after.console.ended = true → ∀ log,
            Truthful r.dump plain (finished host (threshold verbosity) r log after)) := by
  have hexecute : ∀ granted, execute? host granted args = run? host (threshold verbosity) granted r := by
    intro granted
    rw [execute?, hargs]
  simp only [hexecute]
  refine ⟨fun hwritable => hwritable.readArguments_commandLine, fun hroom hbad granted => ?_, fun hroom => ?_,
    fun hroom hloadable => ?_⟩
  · rcases prepare_cases hworks hsize hfile hroom with ⟨-, _, hprepare⟩ | ⟨_, _, _, hloadable, -⟩
    · exact run?_of_refusal hprepare granted
    · exact absurd hbad hloadable
  · obtain ⟨x, hcreate, hx⟩ := Memory.create_eq_error hroom
    have hprepare : prepare host r = .error (.escape (.memory x)) := by
      rw [prepare_of_bad_size hsize hcreate]
      rcases hx with rfl | rfl <;> rfl
    exact ⟨x, fun granted => ⟨_, by rw [run?, hprepare], rfl⟩⟩
  · rcases prepare_cases hworks hsize hfile hroom with ⟨hbad, -⟩ |
      ⟨c, e, loading, -, hloads, hcreate, hload, hstarted, hcomputerLimit, hprepare⟩
    · exact absurd hbad hloadable
    · refine ⟨e, hloads, fun granted out hout => ?_, fun plain n hruns => ⟨?_, ?_⟩⟩
      · exact truthful_of_run? hworks hlimit hdump (namesLimit_of_readArguments hargs) hcreate hload hprepare
          hstarted hout
      · exact exists_run?_of_runs hworks hlimit hdump hcreate hload hprepare hstarted hcomputerLimit hruns _
      · intro before loading' after produced hbefore hreaches hengine hmonitor hconsole log
        obtain ⟨rfl, -⟩ := Prod.mk.inj (Except.ok.inj (hprepare.symm.trans hbefore))
        exact truthful_of_reaches hworks hdump hcreate hload hruns hreaches hengine hmonitor hconsole _ log

-- A host with one file.
def holding (name : String) (bytes : Bytes) : Host :=
  { files := { entries := [([name], .file bytes)] }, room := 0x10000 }

-- A program that stores a letter over its own first word and prints it, and a dump of what it leaves.
theorem vm_reports_its_run_at_letter :
    let bytes : Bytes := [2, 0, 0, 0x48, 8, 0, 0, 0, 0xFF, 0, 0, 0]
    ∃ e plain n, Loads 0x10000 3 bytes e ∧ e.Runs none (plain, .ok n) ∧ plain.fault = none ∧
      plain.output.items = [.text "H"] ∧
      ∃ least, ∀ granted, least ≤ granted → ∃ out,
        execute? (holding "p" bytes) granted ["vm", "p", "--mem=3", "--dump=0:1"] = some out ∧
        Truthful (.given (0, 1)) plain out := by
  intro bytes
  have hargs : readArguments ["vm", "p", "--mem=3", "--dump=0:1"] =
      .ok (0, .vm ⟨"p", .given 3, .absent, .given (0, 1)⟩) := by
    decide +kernel
  have hfile : (holding "p" bytes).files.read "p" = .ok bytes := by decide +kernel
  have hruns := vm_reports_its_run rfl hargs rfl (by decide) (by decide) hfile
  obtain ⟨e, hloads, -, hends⟩ := hruns.2.2.2 ⟨by decide, by decide⟩ (by decide)
  have hplain : ∃ plain n, e.Runs none (plain, .ok n) ∧ plain.fault = none ∧
      plain.output.items = [.text "H"] := by
    obtain ⟨blank, hcreate, hload⟩ := hloads
    obtain rfl := Except.ok.inj hcreate
    obtain rfl := Except.ok.inj hload
    exact ⟨_, _, ⟨4, rfl⟩, rfl, rfl⟩
  obtain ⟨plain, n, hplain, hfault, hitems⟩ := hplain
  exact ⟨e, plain, n, hloads, hplain, hfault, hitems, (hends plain n hplain).1⟩

-- Three bytes are no program, and yet a size that nothing can count leaves the command.
theorem not_refuses_uncountable :
    Unloadable 0x8000000000000000 [0, 0, 0] ∧
      ∃ out, execute? (holding "p" [0, 0, 0]) 0 ["vm", "p", "--mem=9223372036854775808"] = some out ∧
        ¬Refuses out := by
  have hargs : readArguments ["vm", "p", "--mem=9223372036854775808"] =
      .ok (0, .vm ⟨"p", .given 0x8000000000000000, .absent, .absent⟩) := by
    decide +kernel
  refine ⟨by decide, _, by rw [execute?, hargs]; rfl, fun h => ?_⟩
  have hexit := h.exit
  simp at hexit

end CommandLine

end WordMachine
