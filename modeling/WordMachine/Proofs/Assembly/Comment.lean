import Mathlib.Data.List.Basic
import WordMachine.Assembly.Token

namespace WordMachine.Assembly

open WordMachine.Text (apostrophe)

-- A piece of a line that holds no comment and leaves no quotation open.
def Passes (s : List Char) : Prop :=
  ∀ rest, Quoting.outside.uncommented (s ++ rest) = s ++ Quoting.outside.uncommented rest

-- A mark is none of the other characters that lines are read by.
theorem apostrophe_ne : apostrophe ≠ ';' ∧ apostrophe ≠ '\\' ∧ apostrophe ≠ '\n' := by
  decide

theorem uncommented_of_not_mem {s : List Char} (hs : ';' ∉ s) (q : Quoting) : q.uncommented s = s := by
  induction s generalizing q with
  | nil => rfl
  | cons c s ih =>
      have hc : c ≠ ';' := fun h => hs (by simp [h])
      rw [Quoting.uncommented, if_neg (fun h => hc h.2), ih (fun h => hs (List.mem_cons_of_mem c h))]

-- What is left of a text without its comment holds none.
theorem uncommented_uncommented (q : Quoting) (s : List Char) :
    q.uncommented (q.uncommented s) = q.uncommented s := by
  induction s generalizing q with
  | nil => rfl
  | cons c s ih =>
      rw [Quoting.uncommented]
      split
      · rfl
      · rename_i hc
        rw [Quoting.uncommented, if_neg hc, ih]

theorem uncommented_left {q : Quoting} {s t : List Char} (h : q.uncommented (s ++ t) = s ++ t) :
    q.uncommented s = s := by
  induction s generalizing q with
  | nil => rfl
  | cons c s ih =>
      rw [List.cons_append, Quoting.uncommented] at h
      rw [Quoting.uncommented]
      split at h
      · exact absurd h (by simp)
      · rename_i hc
        rw [if_neg hc, ih (List.cons.inj h).2]

namespace Passes

theorem nil : Passes [] :=
  fun _ => rfl

theorem append {s t : List Char} (hs : Passes s) (ht : Passes t) : Passes (s ++ t) := by
  intro rest
  rw [List.append_assoc, hs, ht, List.append_assoc]

theorem of_unquoted {s : List Char} (h : ∀ c ∈ s, c ≠ ';' ∧ c ≠ apostrophe) : Passes s := by
  induction s with
  | nil => exact nil
  | cons c s ih =>
      intro rest
      obtain ⟨hsemicolon, hmark⟩ := h c (by simp)
      have hrest := ih (fun d hd => h d (List.mem_cons_of_mem c hd)) rest
      rw [List.cons_append, Quoting.uncommented, if_neg (fun hc => hsemicolon hc.2), Quoting.next,
        if_neg hmark, hrest, List.cons_append]

-- A semicolon between marks is passed over like any other character.
theorem literal {c : Char} (hmark : c ≠ apostrophe) (hescape : c ≠ '\\') :
    Passes [apostrophe, c, apostrophe] := by
  intro rest
  simp [Quoting.uncommented, Quoting.next, hmark, hescape, apostrophe_ne]

theorem escape (c : Char) : Passes [apostrophe, '\\', c, apostrophe] := by
  intro rest
  simp [Quoting.uncommented, Quoting.next, apostrophe_ne]

theorem flatMap {α : Type} {f : α → List Char} {xs : List α} (h : ∀ x ∈ xs, Passes (f x)) :
    Passes (xs.flatMap f) := by
  induction xs with
  | nil => exact nil
  | cons x xs ih =>
      rw [List.flatMap_cons]
      exact (h x (by simp)).append (ih (fun y hy => h y (List.mem_cons_of_mem x hy)))

theorem uncommented {s : List Char} (h : Passes s) : Quoting.outside.uncommented s = s := by
  simpa [Quoting.uncommented] using h []

theorem uncommented_comment {s : List Char} (h : Passes s) (text : List Char) :
    Quoting.outside.uncommented (s ++ ';' :: text) = s := by
  rw [h, Quoting.uncommented, if_pos ⟨rfl, rfl⟩, List.append_nil]

end Passes

end WordMachine.Assembly
