import WordMachine.Proofs.Engine.History

namespace WordMachine.Engine

-- The call that halted an engine, what was put before and during it, and what became of the engine.
structure HaltedBy (e : Engine) (ps : List Put) (e' : Engine) (c : Call) (before during : List Put)
    (old new : Engine) : Prop where
  earlier : e.History before old
  running : old.halted = false
  called : old.Called c during new
  halted : new.halted = true
  later : new.History [] e'
  puts : ps = before ++ during

-- Halting as a history shows it.
structure HaltsOnce (e : Engine) (ps : List Put) (e' : Engine) : Prop where
  -- While the engine runs, no signal was put.
  running : e'.halted = false → ∃ texts, ps = texts.map .output ∧
    e'.output.items = e.output.items ++ texts ∧ e'.status.items = e.status.items
  -- Once it has halted, one was, as the last put of all and by the call that halted the engine.
  halted : e'.halted = true → ∃ c before during old new texts,
    HaltedBy e ps e' c before during old new ∧
    during.getLast? = some (.status (.halt ⟨e'.processor.cycles, new.fault⟩)) ∧
    ps = texts.map .output ++ [.status (.halt ⟨e'.processor.cycles, new.fault⟩)] ∧
    e'.output.items = e.output.items ++ texts ∧
    e'.status.items = e.status.items ++ [.halt ⟨e'.processor.cycles, new.fault⟩]
  -- From then on calls fail or do nothing.
  refuses : e'.halted = true → e'.step = (e', .error .halted) ∧
    (∀ limit r, e'.Runs limit r ↔ r = (e', .ok 0)) ∧ ∀ bytes, ∃ x, e'.load bytes = .error x
  rests : e'.halted = true → ∀ later e'', e'.History later e'' →
    later = [] ∧ e''.processor = e'.processor ∧ e''.output = e'.output ∧ e''.status = e'.status
  fault : ∀ f, e'.fault = some f → ∀ later e'', e'.History later e'' → e''.fault = some f

theorem open_of_called {e e' : Engine} (ho : e.Open) (hsettled : e.Settled) {c : Call} {ps : List Put}
    (h : e.Called c ps e') : e'.Open := by
  cases hh : e.halted with
  | false => exact (passage_called ho hsettled hh h).isOpen
  | true =>
      obtain ⟨-, hrests⟩ := rests_of_called hh hsettled h
      exact ⟨by rw [hrests.output]; exact ho.1, by rw [hrests.status]; exact ho.2⟩

theorem open_settled_of_history {e e' : Engine} (ho : e.Open) (hsettled : e.Settled) {ps : List Put}
    (h : e.History ps e') : e'.Open ∧ e'.Settled := by
  induction h with
  | start => exact ⟨ho, hsettled⟩
  | call _ hc ih => exact ⟨open_of_called ih.1 ih.2 hc, ih.2.called hc⟩

-- The texts put so far, and the signal if the engine has halted.
theorem passage_of_history {e e' : Engine} (ho : e.Open) (hsettled : e.Settled) (hh : e.halted = false)
    {ps : List Put} (h : e.History ps e') (hh' : e'.halted = false) : Passage e ps e' := by
  induction h with
  | start => exact .refl ho hh
  | @call ps qs e' e'' c h hc ih =>
      obtain ⟨ho', hsettled'⟩ := open_settled_of_history ho hsettled h
      cases hh₁ : e'.halted with
      | false => exact (ih hh₁).append hh₁ (passage_called ho' hsettled' hh₁ hc)
      | true =>
          obtain ⟨-, hrests⟩ := rests_of_called hh₁ hsettled' hc
          rw [hrests.halted_eq, hh₁] at hh'
          simp at hh'

-- The last call on an engine that ran was the one that halted it, or the engine had halted before.
theorem exists_haltedBy {e e' : Engine} (ho : e.Open) (hsettled : e.Settled) (hh : e.halted = false)
    {ps : List Put} (h : e.History ps e') (hh' : e'.halted = true) :
    ∃ c before during old new, HaltedBy e ps e' c before during old new := by
  induction h with
  | start => simp [hh] at hh'
  | @call ps qs e' e'' c h hc ih =>
      cases hh₁ : e'.halted with
      | false => exact ⟨c, ps, qs, e', e'', h, hh₁, hc, hh', .start, rfl⟩
      | true =>
          obtain ⟨-, hsettled'⟩ := open_settled_of_history ho hsettled h
          obtain ⟨rfl, -⟩ := rests_of_called hh₁ hsettled' hc
          obtain ⟨d, before, during, old, new, hby⟩ := ih hh₁
          exact ⟨d, before, during, old, new, hby.earlier, hby.running, hby.called, hby.halted,
            .call hby.later hc, by rw [List.append_nil, hby.puts]⟩

theorem Passage.exists_texts {e e' : Engine} {ps : List Put} (h : Passage e ps e')
    (hh : e'.halted = false) : ∃ texts : List Item, ps = texts.map .output ∧
      e'.output.items = e.output.items ++ texts ∧ e'.status.items = e.status.items := by
  cases h with
  | running _ _ houtput hstatus => exact ⟨_, rfl, houtput, hstatus⟩
  | halted _ hhalted => simp [hh] at hhalted

theorem Passage.exists_texts_signal {e e' : Engine} {ps : List Put} (h : Passage e ps e')
    (hh : e'.halted = true) : ∃ texts : List Item,
      ps = texts.map .output ++ [.status (.halt e'.haltSignal)] ∧
      e'.output.items = e.output.items ++ texts ∧
      e'.status.items = e.status.items ++ [.halt e'.haltSignal] := by
  cases h with
  | running _ hruns => simp [hh] at hruns
  | halted _ _ houtput hstatus => exact ⟨_, rfl, houtput, hstatus⟩

theorem halts_once {size : Nat} {output status : Channel Item} (ho : output.closed = false)
    (hs : status.closed = false) {ps : List Put} {e : Engine}
    (h : (fresh size output status).History ps e) : HaltsOnce (fresh size output status) ps e := by
  have hopen : (fresh size output status).Open := ⟨ho, hs⟩
  have hfresh := settled_fresh size output status
  obtain ⟨-, hsettled⟩ := open_settled_of_history hopen hfresh h
  refine ⟨?running, ?halted, ?refuses, ?rests, ?fault⟩
  case running =>
    intro hh
    exact (passage_of_history hopen hfresh rfl h hh).exists_texts hh
  case halted =>
    intro hh
    obtain ⟨c, before, during, old, new, hby⟩ := exists_haltedBy hopen hfresh rfl h hh
    obtain ⟨ho₁, hsettled₁⟩ := open_settled_of_history hopen hfresh hby.earlier
    -- Up to the call that halts and through it the history is one passage, and nothing comes after.
    have hcall := passage_called ho₁ hsettled₁ hby.running hby.called
    have hall := (passage_of_history hopen hfresh rfl hby.earlier hby.running).append hby.running hcall
    obtain ⟨_, hduring, -, -⟩ := hcall.exists_texts_signal hby.halted
    obtain ⟨texts, hputs, houtput, hstatus⟩ := hall.exists_texts_signal hby.halted
    obtain ⟨-, hrests⟩ := rests_of_history hby.halted (hsettled₁.called hby.called) hby.later
    refine ⟨c, before, during, old, new, texts, hby, ?_, ?_, ?_, ?_⟩
    · rw [hduring, List.getLast?_concat, hrests.processor]
      rfl
    · rw [hby.puts, hputs, hrests.processor]
      rfl
    · rw [hrests.output, houtput]
    · rw [hrests.status, hstatus, hrests.processor]
      rfl
  case refuses =>
    intro hh
    exact ⟨step_of_halted hh, runs_of_halted hh, exists_error_of_load hh⟩
  case rests =>
    intro hh later e'' hlater
    obtain ⟨hnone, hrests⟩ := rests_of_history hh hsettled hlater
    exact ⟨hnone, hrests.processor, hrests.output, hrests.status⟩
  case fault =>
    intro f hf later e'' hlater
    obtain ⟨-, hrests⟩ := rests_of_history (hsettled.halted_of_fault hf) hsettled hlater
    exact hrests.fault f hf

-- A machine that says one character and ends, and is aborted only then.
def exclaiming : Engine :=
  fresh 3 { name := "output" } { name := "status" }

def exclaimingProgram : Bytes :=
  [0x08, 2, 0, 0, 0xFF, 0, 0, 0, 0, 0, 0, 0x21]

theorem halts_once_on_exclamation :
    ∃ e, exclaiming.History [.output (.text "!"), .status (.halt ⟨2, none⟩)] e ∧ e.halted = true ∧
      e.fault.isSome = true ∧
      HaltsOnce exclaiming [.output (.text "!"), .status (.halt ⟨2, none⟩)] e := by
  have hload : exclaiming.History [] (exclaiming.afterLoad exclaimingProgram) :=
    .call .start (.load exclaimingProgram)
  have hrun : (exclaiming.afterLoad exclaimingProgram).run? none 3 =
      some ((exclaiming.afterLoad exclaimingProgram).step.1.step.1, .ok 2) := by rfl
  have hend : exclaiming.History [.output (.text "!"), .status (.halt ⟨2, none⟩)] _ :=
    .call (.call hload (.run hrun)) (.abort (.channel .empty))
  exact ⟨_, hend, rfl, rfl, halts_once rfl rfl hend⟩

end WordMachine.Engine
