import WordMachine.CommandLine.Request
import WordMachine.Proofs.Text.Numeral

namespace WordMachine.CommandLine

-- An option by one of its names, with a value.
structure Assignment where
  option : OptionSpec
  name : String
  value : String

namespace Assignment

def text (a : Assignment) : String :=
  a.name ++ "=" ++ a.value

def hit (a : Assignment) : Hit :=
  ⟨a.option, a.name, .equals a.value.toList⟩

def token (a : Assignment) : Token :=
  .option a.text a.hit

def occurrence (a : Assignment) : Occurrence :=
  .option a.option a.value

-- The name of a long option, as it stands in front of an equals sign.
structure IsLong (a : Assignment) : Prop where
  dashed : a.name.toList.take 2 = ['-', '-']
  equals : '=' ∉ a.name.toList

-- An assignment to an option of a grammar. A value of two minus signs would be none.
structure Suits (a : Assignment) (g : Grammar) : Prop where
  isLong : a.IsLong
  names : ∀ p ∈ g.names, '=' ∉ p.1.toList
  find : g.find? a.name.toList = some ⟨a.option, a.name, .none⟩
  startsWith : Grammar.isLong a.name = true
  takesValue : a.option.takesValue = true
  value : a.value.toList ≠ ['-', '-']

-- An assignment that a grammar has no option for, not even by an abbreviation.
structure Foreign (a : Assignment) (g : Grammar) : Prop where
  isLong : a.IsLong
  names : ∀ p ∈ g.names, '=' ∉ p.1.toList
  abbreviates : ∀ p ∈ g.names, a.name.toList.isPrefixOf p.1.toList = false

theorem toList_text (a : Assignment) : a.text.toList = a.name.toList ++ '=' :: a.value.toList := by
  simp [text, String.toList_append]

theorem text_ne_separator (a : Assignment) : a.text ≠ "--" := by
  intro heq
  have hmem : '=' ∈ a.text.toList := by simp [toList_text]
  rw [heq] at hmem
  simp at hmem

theorem IsLong.exists_name {a : Assignment} (h : a.IsLong) :
    ∃ rest, a.text.toList = '-' :: '-' :: rest := by
  have hdashed := h.dashed
  rw [toList_text]
  match hname : a.name.toList with
  | [] | [_] => simp [hname] at hdashed
  | c :: d :: rest =>
      rw [hname] at hdashed
      simp only [List.take_succ_cons, List.take_zero, List.cons.injEq, and_true] at hdashed
      obtain ⟨rfl, rfl⟩ := hdashed
      exact ⟨_, rfl⟩

end Assignment

-- An argument that is an operand by its first character.
def Undashed (arg : String) : Prop :=
  arg.toList.head? ≠ some '-'

namespace Grammar

variable {g : Grammar} {a : Assignment}

theorem token_of_undashed {arg : String} (h : Undashed arg) : g.token arg = .ok (.operand arg) := by
  simp only [token]
  exact if_pos h

theorem ne_separator_of_undashed {arg : String} (h : Undashed arg) : arg ≠ "--" := by
  rintro rfl
  exact h rfl

theorem splitEquals_append {name value : List Char} (h : '=' ∉ name) :
    splitEquals (name ++ '=' :: value) = some (name, value) := by
  have hall : ∀ c ∈ name, (c != '=') = true := by
    intro c hc
    have hne : c ≠ '=' := fun heq => h (heq ▸ hc)
    simpa using hne
  have htake : (name ++ '=' :: value).takeWhile (· != '=') = name := by
    rw [List.takeWhile_append_of_pos hall]
    simp
  have hdrop : (name ++ '=' :: value).dropWhile (· != '=') = '=' :: value := by
    rw [List.dropWhile_append_of_pos hall]
    simp
  rw [splitEquals, hdrop, htake]

theorem find?_eq_none (hnames : ∀ p ∈ g.names, '=' ∉ p.1.toList) {name : List Char} (hname : '=' ∈ name) :
    g.find? name = none := by
  rw [find?, Option.map_eq_none_iff, List.find?_eq_none]
  intro p hp heq
  rw [beq_iff_eq] at heq
  exact hnames p hp (heq ▸ hname)

-- What is looked at in a long argument with an equals sign.
theorem token_of_isLong (h : a.IsLong) (hnames : ∀ p ∈ g.names, '=' ∉ p.1.toList) :
    g.token a.text =
      match g.find? a.name.toList with
      | some hit => .ok (.option a.text { hit with attached := .equals a.value.toList })
      | none =>
          match g.candidates a.text.toList with
          | [] => .ok (dashed a.text)
          | [hit] => .ok (.option a.text hit)
          | hits => .error (.ambiguous a.text (hits.map Hit.name)) := by
  obtain ⟨rest, htext⟩ := h.exists_name
  have hhead : a.text.toList.head? = some '-' := by rw [htext]; rfl
  have hlength : a.text.toList.length ≠ 1 := by simp [htext]
  have hnone : g.find? a.text.toList = none := find?_eq_none hnames (by simp [Assignment.toList_text])
  have hsplit : splitEquals a.text.toList = some (a.name.toList, a.value.toList) := by
    rw [Assignment.toList_text, splitEquals_append h.equals]
  simp only [token, hhead, ne_eq, not_true_eq_false, if_false, hnone, hlength, hsplit]
  cases g.find? a.name.toList <;> rfl

theorem token_of_suits (h : a.Suits g) : g.token a.text = .ok a.token := by
  rw [token_of_isLong h.isLong h.names, h.find]
  rfl

theorem arg_dashed (arg : String) : (dashed arg).arg = arg := by
  rw [dashed]
  repeat' split
  all_goals rfl

theorem token_of_foreign (h : a.Foreign g) : g.token a.text = .ok (dashed a.text) := by
  obtain ⟨rest, htext⟩ := h.isLong.exists_name
  have hfind : g.find? a.name.toList = none := by
    rw [find?, Option.map_eq_none_iff, List.find?_eq_none]
    intro p hp heq
    rw [beq_iff_eq] at heq
    have habbreviates := h.abbreviates p hp
    rw [heq, List.isPrefixOf_iff_prefix.mpr (List.prefix_refl _)] at habbreviates
    simp at habbreviates
  have hnone : g.candidates a.text.toList = [] := by
    have hsplit : splitEquals ('-' :: '-' :: rest) = some (a.name.toList, a.value.toList) := by
      rw [← htext, Assignment.toList_text, splitEquals_append h.isLong.equals]
    rw [htext, candidates, hsplit]
    apply List.filterMap_eq_nil_iff.mpr
    intro p hp
    rw [h.abbreviates p hp]
    rfl
  rw [token_of_isLong h.isLong h.names, hfind, hnone]

theorem bundle_of_suits (h : a.Suits g) : g.bundle a.hit = .ok ⟨[a.occurrence], none⟩ := by
  simp only [bundle, Assignment.hit, h.startsWith, true_or, if_true, attach, h.takesValue, withValue,
    if_neg h.value, String.ofList_toList]
  rfl

-- Options that have their values with them are read one after the other.
theorem readTokens_assignments {assignments : List Assignment} (h : ∀ a ∈ assignments, a.Suits g)
    (k : Nat) (wanted : Bool) :
    g.readTokens (assignments.length + k + 1) wanted (assignments.map Assignment.token) =
      ⟨assignments.map Assignment.occurrence, .ok []⟩ := by
  induction assignments with
  | nil => cases wanted <;> simp [readTokens, operands?, Reading.leftOver]
  | cons a rest ih =>
      have hbundle := bundle_of_suits (h a (by simp))
      have hrest := ih (fun b hb => h b (List.mem_cons_of_mem a hb))
      have hlength : (a :: rest).length + k + 1 = rest.length + k + 1 + 1 := by
        rw [List.length_cons]
        omega
      rw [hlength, List.map_cons, Assignment.token, readTokens]
      simp only [hbundle, hrest]
      rfl

theorem tokens_operand {arg : String} {rest : List String} {ts : List Token} (harg : Undashed arg)
    (hrest : g.tokens rest = .ok ts) : g.tokens (arg :: rest) = .ok (.operand arg :: ts) := by
  simp only [tokens, if_neg (ne_separator_of_undashed harg), token_of_undashed harg, hrest]

theorem tokens_texts {assignments : List Assignment} {f : Assignment → Token}
    (h : ∀ a ∈ assignments, g.token a.text = .ok (f a)) :
    g.tokens (assignments.map Assignment.text) = .ok (assignments.map f) := by
  induction assignments with
  | nil => rfl
  | cons a rest ih =>
      have ha := h a (by simp)
      have hrest := ih (fun b hb => h b (List.mem_cons_of_mem a hb))
      simp only [List.map_cons, tokens, if_neg (Assignment.text_ne_separator a), ha, hrest]

theorem readTokens_operands {k n : Nat} {arg : String} {args : List String} {ts : List Token}
    (h : operands? g.rule (.operand arg :: ts) = some (args, n)) :
    g.readTokens (k + 1) true (.operand arg :: ts) =
      (g.readTokens k false ((.operand arg :: ts).drop n)).after [.operands args] := by
  rw [readTokens]
  · simp only [if_true, h]
  · simp
  · simp

-- One operand in front of the options is the one that is wanted.
theorem read_single {operand : String} {assignments : List Assignment} (hrule : g.rule = .single)
    (hoperand : Undashed operand) (h : ∀ a ∈ assignments, a.Suits g) :
    g.read (operand :: assignments.map Assignment.text) =
      ⟨.operands [operand] :: assignments.map Assignment.occurrence, .ok []⟩ := by
  have htokens := tokens_operand hoperand (tokens_texts fun a ha => token_of_suits (h a ha))
  have hoperands : operands? g.rule (.operand operand :: assignments.map Assignment.token) =
      some ([operand], 1) := by
    rw [hrule]
    cases assignments <;> simp [operands?, Assignment.token]
  have hrest := readTokens_assignments h 0 false
  rw [Nat.add_zero] at hrest
  simp only [read, htokens, List.length_cons, List.length_map, readTokens_operands hoperands,
    List.drop_succ_cons, List.drop_zero, hrest]
  rfl

-- The first operand and everything behind it belong to another command line.
theorem read_remainder {mode : String} {rest : List String} {ts : List Token} (hrule : g.rule = .remainder)
    (hmode : Undashed mode) (hrest : g.tokens rest = .ok ts) (hargs : ts.map Token.arg = rest) :
    g.read (mode :: rest) = ⟨[.operands (mode :: rest)], .ok []⟩ := by
  have htokens := tokens_operand hmode hrest
  have hoperands : operands? g.rule (.operand mode :: ts) = some (mode :: rest, ts.length + 1) := by
    rw [hrule]
    simp [operands?, Token.arg, hargs]
  simp only [read, htokens, List.length_cons, readTokens_operands hoperands, List.drop_succ_cons,
    List.drop_length]
  rfl

end Grammar

-- What a setting has to satisfy to be written out.
def Setting.Satisfies {α : Type} (p : α → Prop) : Setting α → Prop
  | .absent => True
  | .given value => p value
  | .empty => False

-- A number that is not too long to be read.
def Short (n : Int) : Prop :=
  n.natAbs < Nat.pow 10 Text.decimalLimit

namespace VmRequest

-- A request that a command line can be written for.
structure Writable (r : VmRequest) : Prop where
  binary : Undashed r.binary
  memory : r.memory.Satisfies Short
  limit : r.limit.Satisfies Short
  dump : r.dump.Satisfies fun range => Short range.1 ∧ Short range.2

def assigned {α : Type} (o : OptionSpec) (name : String) (written : α → String) :
    Setting α → List Assignment
  | .given value => [⟨o, name, written value⟩]
  | _ => []

def assignments (r : VmRequest) : List Assignment :=
  assigned memoryOption "--mem" Text.decimal r.memory ++
    assigned limitOption "--max-steps" Text.decimal r.limit ++
    assigned dumpOption "--dump" (fun range => Text.decimal range.1 ++ ":" ++ Text.decimal range.2) r.dump

def commandLine (r : VmRequest) : List String :=
  "vm" :: r.binary :: r.assignments.map Assignment.text

theorem mem_assigned {α : Type} {o : OptionSpec} {name : String} {written : α → String} {p : α → Prop}
    {setting : Setting α} (h : setting.Satisfies p) {a : Assignment}
    (ha : a ∈ assigned o name written setting) : ∃ value, p value ∧ a = ⟨o, name, written value⟩ := by
  cases setting with
  | absent => simp [assigned] at ha
  | given value => exact ⟨value, h, by simpa [assigned] using ha⟩
  | empty => exact h.elim

-- A setting that is written out is read back into the field of the draft that is for it.
theorem foldlM_assigned {α : Type} {o : OptionSpec} {written : α → String} {p : α → Prop}
    {setting : Setting α} (name : String) (draft : Setting α → VmDraft) (h : setting.Satisfies p)
    (hgiven : ∀ value, p value →
      (draft .absent).apply (.option o (written value)) = .ok (draft (.given value))) :
    ((assigned o name written setting).map Assignment.occurrence).foldlM VmDraft.apply (draft .absent) =
      .ok (draft setting) := by
  cases setting with
  | absent => rfl
  | given value =>
      have hvalue := hgiven value h
      simp [assigned, Assignment.occurrence, hvalue]
  | empty => exact h.elim

end VmRequest

section Values

variable {n : Int}

theorem decimal_ne_dashes (h : Short n) : (Text.decimal n).toList ≠ ['-', '-'] := by
  intro heq
  have hread := Text.decimalInt?_decimal h
  have hnone : Text.decimalInt? ['-', '-'] = none := by decide
  rw [heq, hnone] at hread
  simp at hread

theorem integer_decimal (o : OptionSpec) (h : Short n) : integer o (Text.decimal n) = .ok n := by
  rw [integer, Text.trimNumber_decimal, Text.decimalInt?_decimal h]

theorem range_decimal (o : OptionSpec) {first last : Int} (hfirst : Short first) (hlast : Short last) :
    range o (Text.decimal first ++ ":" ++ Text.decimal last) = .ok (first, last) := by
  have hcolon : ∀ c ∈ (Text.decimal first).toList, (c != ':') = true :=
    Text.forall_mem_decimal (p := fun c => (c != ':') = true) (by decide) (by decide) first
  have htext : (Text.decimal first ++ ":" ++ Text.decimal last).toList =
      (Text.decimal first).toList ++ ':' :: (Text.decimal last).toList := by
    simp [String.toList_append]
  simp only [range, htext, List.takeWhile_append_of_pos hcolon, List.dropWhile_append_of_pos hcolon]
  simp [Text.trimNumber_decimal, Text.markedInt?_decimal hfirst, Text.markedInt?_decimal hlast]

end Values

-- The options of the machine mode that take a value.
def valueOptions : List (OptionSpec × String) :=
  [(memoryOption, "--mem"), (limitOption, "--max-steps"), (dumpOption, "--dump")]

theorem not_mem_names (screen : Screen) : ∀ p ∈ (grammar screen).names, '=' ∉ p.1.toList := by
  cases screen <;> decide

-- None of them could be meant for the program.
theorem suits_of_mem {o : OptionSpec} {name value : String} (h : (o, name) ∈ valueOptions)
    (hvalue : value.toList ≠ ['-', '-']) :
    Assignment.Suits ⟨o, name, value⟩ (grammar .vm) ∧ Assignment.Foreign ⟨o, name, value⟩ (grammar .program) := by
  have hnames : ∀ p ∈ valueOptions,
      p.2.toList.take 2 = ['-', '-'] ∧ '=' ∉ p.2.toList ∧
      (grammar .vm).find? p.2.toList = some ⟨p.1, p.2, .none⟩ ∧ p.1.takesValue = true ∧
      ∀ q ∈ (grammar .program).names, p.2.toList.isPrefixOf q.1.toList = false := by decide
  have hlong : ∀ p ∈ valueOptions, Grammar.isLong p.2 = true := by decide +kernel
  obtain ⟨hdashed, hequals, hfind, htakes, habbreviates⟩ := hnames _ h
  exact ⟨⟨⟨hdashed, hequals⟩, not_mem_names .vm, hfind, hlong _ h, htakes, hvalue⟩,
    ⟨⟨hdashed, hequals⟩, not_mem_names .program, habbreviates⟩⟩

-- What every step of a fold keeps, as long as it goes on, is kept by the fold.
theorem foldlM_induction {α β ε : Type} {f : α → β → Except ε α} {P : α → Prop}
    (hstep : ∀ {a b a'}, P a → f a b = .ok a' → P a') {bs : List β} {a a' : α} (ha : P a)
    (h : bs.foldlM f a = .ok a') : P a' := by
  induction bs generalizing a with
  | nil =>
      obtain rfl := Except.ok.inj h
      exact ha
  | cons b bs ih =>
      rw [List.foldlM_cons] at h
      cases hf : f a b with
      | error x => simp [hf, bind, Except.bind] at h
      | ok between =>
          rw [hf] at h
          exact ih (hstep ha hf) h

-- A step limit that is given is one that could be written.
def NamesLimit (limit : Setting Int) : Prop :=
  ∀ n, limit = .given n → Short n

theorem short_of_integer {o : OptionSpec} {value : String} {n : Int} (h : integer o value = .ok n) :
    Short n := by
  rw [integer] at h
  split at h
  · rename_i hread
    obtain rfl := Except.ok.inj h
    exact Text.lt_of_decimalInt? hread
  · simp at h

namespace VmDraft

theorem namesLimit_of_apply {d d' : VmDraft} {o : Occurrence} (hd : NamesLimit d.limit)
    (h : d.apply o = .ok d') : NamesLimit d'.limit := by
  cases o with
  | operands args =>
      obtain rfl := Except.ok.inj h
      exact hd
  | emptied o =>
      rw [apply] at h
      repeat' split at h
      all_goals obtain rfl := Except.ok.inj h
      · exact hd
      · simp [NamesLimit]
      · exact hd
  | option o value =>
      rw [apply] at h
      repeat' split at h
      all_goals simp only [Except.ok.injEq, reduceCtorEq] at h
      · exact h ▸ hd
      · rename_i hread
        intro n hn
        rw [← h] at hn
        obtain rfl := Setting.given.inj hn
        exact short_of_integer hread
      · exact h ▸ hd

variable (d : VmDraft) {n : Int}

theorem apply_memory (h : Short n) :
    d.apply (.option memoryOption (Text.decimal n)) = .ok { d with memory := .given n } := by
  simp only [apply, integer_decimal memoryOption h, if_true]
  exact if_neg (by decide)

theorem apply_limit (h : Short n) :
    d.apply (.option limitOption (Text.decimal n)) = .ok { d with limit := .given n } := by
  simp only [apply, integer_decimal limitOption h, if_true]
  rw [if_neg (by decide), if_neg (by decide)]

theorem apply_dump {first last : Int} (hfirst : Short first) (hlast : Short last) :
    d.apply (.option dumpOption (Text.decimal first ++ ":" ++ Text.decimal last)) =
      .ok { d with dump := .given (first, last) } := by
  simp only [apply, range_decimal dumpOption hfirst hlast]
  rw [if_neg (by decide), if_neg (by decide), if_neg (by decide)]

end VmDraft

namespace VmRequest

variable {r : VmRequest} (h : r.Writable)

include h

theorem Writable.suits :
    ∀ a ∈ r.assignments, a.Suits (grammar .vm) ∧ a.Foreign (grammar .program) := by
  intro a ha
  rw [assignments, List.mem_append, List.mem_append] at ha
  rcases ha with (ha | ha) | ha
  · obtain ⟨n, hn, rfl⟩ := mem_assigned h.memory ha
    exact suits_of_mem (by simp [valueOptions]) (decimal_ne_dashes hn)
  · obtain ⟨n, hn, rfl⟩ := mem_assigned h.limit ha
    exact suits_of_mem (by simp [valueOptions]) (decimal_ne_dashes hn)
  · obtain ⟨range, -, rfl⟩ := mem_assigned h.dump ha
    refine suits_of_mem (by simp [valueOptions]) fun heq => ?_
    have hcolon : ':' ∈ (Text.decimal range.1 ++ ":" ++ Text.decimal range.2).toList := by
      simp [String.toList_append]
    rw [heq] at hcolon
    simp at hcolon

-- The draft takes the file and then the settings, one by one.
theorem Writable.foldlM_apply :
    (Occurrence.operands [r.binary] :: r.assignments.map Assignment.occurrence).foldlM VmDraft.apply {} =
      .ok ⟨some r.binary, r.memory, r.limit, r.dump⟩ := by
  have hmemory := foldlM_assigned "--mem" (fun memory => ⟨some r.binary, memory, .absent, .absent⟩) h.memory
    fun n hn => VmDraft.apply_memory _ hn
  have hlimit := foldlM_assigned "--max-steps" (fun limit => ⟨some r.binary, r.memory, limit, .absent⟩) h.limit
    fun n hn => VmDraft.apply_limit _ hn
  have hdump := foldlM_assigned "--dump" (fun dump => ⟨some r.binary, r.memory, r.limit, dump⟩) h.dump
    fun range hrange => VmDraft.apply_dump _ hrange.1 hrange.2
  have hbinary : VmDraft.apply {} (.operands [r.binary]) = .ok ⟨some r.binary, .absent, .absent, .absent⟩ := rfl
  simp only [assignments, List.map_append, List.foldlM_cons, List.foldlM_append, hbinary, hmemory, hlimit,
    hdump, bind, Except.bind]

-- The arguments behind the mode, as the machine mode reads them.
theorem Writable.readVm_eq :
    readVm (r.binary :: r.assignments.map Assignment.text) = .ok (r, []) := by
  have hread := Grammar.read_single (g := grammar .vm) rfl h.binary fun a ha => (h.suits a ha).1
  simp only [readVm, hread, h.foldlM_apply]

-- As the whole command line is looked at first, none of them is taken for an option of the program.
theorem Writable.read_commandLine :
    (grammar .program).read r.commandLine = ⟨[.operands r.commandLine], .ok []⟩ := by
  have htokens := Grammar.tokens_operand h.binary
    (Grammar.tokens_texts fun a ha => Grammar.token_of_foreign (h.suits a ha).2)
  have hargs : (Token.operand r.binary :: r.assignments.map fun a => Grammar.dashed a.text).map Token.arg =
      r.binary :: r.assignments.map Assignment.text := by
    rw [List.map_cons, List.map_map]
    exact congrArg (r.binary :: ·) (List.map_congr_left fun a _ => Grammar.arg_dashed a.text)
  exact Grammar.read_remainder rfl (by simp [Undashed]) htokens hargs

theorem Writable.readArguments_commandLine : readArguments r.commandLine = .ok (0, .vm r) := by
  have hmode : readMode r.commandLine = .ok (some (.vm r), []) := by
    simp [commandLine, readMode, h.readVm_eq]
  simp [readArguments, h.read_commandLine, ProgramDraft.apply, hmode]

end VmRequest

theorem namesLimit_of_readVm {args extra : List String} {r : VmRequest} (h : readVm args = .ok (r, extra)) :
    NamesLimit r.limit := by
  simp only [readVm] at h
  split at h
  · simp at h
  · rename_i d hfold
    split at h <;> simp only [Except.ok.injEq, Prod.mk.injEq, reduceCtorEq] at h
    obtain ⟨rfl, -⟩ := h
    exact foldlM_induction (P := fun d => NamesLimit d.limit) VmDraft.namesLimit_of_apply (by simp [NamesLimit])
      hfold

theorem namesLimit_of_readMode {args extra : List String} {r : VmRequest}
    (h : readMode args = .ok (some (.vm r), extra)) : NamesLimit r.limit := by
  rw [readMode.eq_def] at h
  repeat' split at h
  all_goals simp only [Except.ok.injEq, Prod.mk.injEq, Option.some.injEq, Request.vm.injEq, reduceCtorEq,
    false_and] at h
  rename_i hread
  obtain ⟨rfl, -⟩ := h
  exact namesLimit_of_readVm hread

-- A limit too long to be written is refused where it is read, so no run is made with it.
theorem namesLimit_of_readArguments {args : List String} {verbosity : Nat} {r : VmRequest}
    (h : readArguments args = .ok (verbosity, .vm r)) : NamesLimit r.limit := by
  have hstep : ∀ {d o d'}, (∀ r, d.request = some (.vm r) → NamesLimit r.limit) →
      ProgramDraft.apply d o = .ok d' → ∀ r, d'.request = some (.vm r) → NamesLimit r.limit := by
    intro d o d' hd hd' r hr
    rw [ProgramDraft.apply.eq_def] at hd'
    repeat' split at hd'
    all_goals simp only [Except.ok.injEq, reduceCtorEq] at hd'
    all_goals subst hd'
    · rename_i hmode
      obtain rfl : _ = some (Request.vm r) := hr
      exact namesLimit_of_readMode hmode
    · exact hd r hr
    · exact hd r hr
  simp only [readArguments] at h
  split at h
  · simp at h
  · rename_i d hfold
    repeat' split at h
    all_goals simp only [Except.ok.injEq, Prod.mk.injEq, reduceCtorEq] at h
    rename_i hrequest
    obtain ⟨-, rfl⟩ := h
    exact foldlM_induction hstep (by simp) hfold r hrequest

end WordMachine.CommandLine
