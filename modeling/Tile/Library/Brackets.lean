import Mathlib.Logic.Basic
import Mathlib.Tactic.Common

/-!
# Library/Brackets — words whose letters open and close brackets

A reader keeps a stack of the brackets that are open.  A letter that closes must close the innermost
one.  **What starts a balanced word can be read** (`Balanced.reads_of_prefix`): no letter of it
closes what is not open.
-/

/-- Which bracket a letter opens, and which one it closes. -/
structure Brackets (ε β : Type) where
  opens : ε → Option β
  closes : ε → Option β

namespace Brackets

variable {ε β : Type} [DecidableEq β] (brackets : Brackets ε β)

/-- Read one letter.  One that closes and opens does so in this order. -/
def step (stack : List β) (letter : ε) : Option (List β) :=
  let opened := (brackets.opens letter).toList
  match brackets.closes letter with
  | none => some (opened ++ stack)
  | some bracket => if stack.head? = some bracket then some (opened ++ stack.tail) else none

/-- The brackets that are open after a word, if it can be read. -/
def read (stack : List β) (word : List ε) : Option (List β) := word.foldlM brackets.step stack

/-- Reading the word leaves the stack as it is. -/
def Balanced (word : List ε) : Prop := ∀ stack, brackets.read stack word = some stack

section Rules

variable {brackets} {word word' : List ε}

theorem read_append (stack : List β) :
    brackets.read stack (word ++ word') = (brackets.read stack word).bind (brackets.read · word') :=
  List.foldlM_append

theorem read_cons (stack : List β) (letter : ε) :
    brackets.read stack (letter :: word)
      = (brackets.step stack letter).bind (brackets.read · word) := rfl

theorem Balanced.nil : brackets.Balanced [] := fun _ => rfl

theorem Balanced.append (h : brackets.Balanced word) (h' : brackets.Balanced word') :
    brackets.Balanced (word ++ word') := by
  intro stack
  rw [read_append, h stack]
  exact h' stack

theorem Balanced.flatMap {α : Type} {f : α → List ε} {l : List α}
    (h : ∀ a ∈ l, brackets.Balanced (f a)) : brackets.Balanced (l.flatMap f) := by
  induction l with
  | nil => exact .nil
  | cons a l ih =>
    rw [List.flatMap_cons]
    exact (h a (by simp)).append (ih fun b hb => h b (by simp [hb]))

/-- A letter that is no bracket. -/
theorem Balanced.letter {letter : ε} (hopens : brackets.opens letter = none)
    (hcloses : brackets.closes letter = none) : brackets.Balanced [letter] := by
  intro stack
  simp [read, step, hopens, hcloses]

/-- A balanced word between two matching brackets. -/
theorem Balanced.wrap {bracket : β} {first last : ε} (hfirst : brackets.opens first = some bracket)
    (hfirst' : brackets.closes first = none) (hlast : brackets.opens last = none)
    (hlast' : brackets.closes last = some bracket) (h : brackets.Balanced word) :
    brackets.Balanced (first :: (word ++ [last])) := by
  intro stack
  have hopen : brackets.step stack first = some (bracket :: stack) := by
    simp [step, hfirst, hfirst']
  have hclose : brackets.step (bracket :: stack) last = some stack := by
    simp [step, hlast, hlast']
  rw [read_cons, hopen, Option.bind_some, read_append, h, Option.bind_some, read_cons, hclose]
  rfl

/-- **What starts a balanced word can be read.** -/
theorem Balanced.reads_of_prefix (h : brackets.Balanced word) (hstart : word' <+: word) :
    ∃ stack, brackets.read [] word' = some stack := by
  obtain ⟨rest, rfl⟩ := hstart
  have hread := h []
  rw [read_append] at hread
  obtain ⟨stack, hstack, -⟩ := Option.bind_eq_some_iff.mp hread
  exact ⟨stack, hstack⟩

end Rules

end Brackets
