import Mathlib.Data.List.Basic
import Mathlib.Tactic.Common

/-!
# Library/Patch — hunks, and the list they make of another

A hunk lists some neighbouring elements of a list, in order, with those to delete and those to put
in, and says how many elements are in front of it.  `patch` checks that they stand there;
`Patches` is what it means that they do (`patch_eq_some_iff`).
-/

namespace Tile

variable {α : Type u}

/-- What an entry does with its line. -/
inductive Mark where
  | context | deleted | inserted
  deriving Repr, DecidableEq

/-- A line of a hunk. -/
structure DiffEntry (α : Type u) where
  mark : Mark
  line : α
  deriving DecidableEq

/-- `oldStart` and `newStart` are the numbers of lines in front of it, before and after. -/
structure Hunk (α : Type u) where
  oldStart : Nat
  newStart : Nat
  entries : List (DiffEntry α)
  deriving DecidableEq

/-- The lines a hunk finds. -/
def Hunk.oldLines (hunk : Hunk α) : List α :=
  (hunk.entries.filter (·.mark ≠ .inserted)).map (·.line)

/-- The lines a hunk leaves. -/
def Hunk.newLines (hunk : Hunk α) : List α :=
  (hunk.entries.filter (·.mark ≠ .deleted)).map (·.line)

/-- Apply the hunks to the lines from this one on. -/
def patch [DecidableEq α] : (line : Nat) → List (Hunk α) → List α → Option (List α)
  | _, [], lines => some lines
  | line, hunk :: hunks, lines =>
    let skipped := hunk.oldStart - line
    let count := hunk.oldLines.length
    if line ≤ hunk.oldStart ∧ skipped ≤ lines.length ∧
        (lines.drop skipped).take count = hunk.oldLines then
      (patch (hunk.oldStart + count) hunks (lines.drop (skipped + count))).map fun rest =>
        lines.take skipped ++ (hunk.newLines ++ rest)
    else none

/-- The hunks take the one list to the other; what is between them is in both. -/
inductive Patches : (line : Nat) → List (Hunk α) → (old new : List α) → Prop where
  | done {line : Nat} (rest : List α) : Patches line [] rest rest
  | hunk {line : Nat} {hunk : Hunk α} {hunks : List (Hunk α)} (skipped : List α) {old new : List α}
    (hstart : hunk.oldStart = line + skipped.length)
    (rest : Patches (hunk.oldStart + hunk.oldLines.length) hunks old new) :
    Patches line (hunk :: hunks) (skipped ++ (hunk.oldLines ++ old))
      (skipped ++ (hunk.newLines ++ new))

theorem patches_nil_iff {line : Nat} {old new : List α} : Patches line [] old new ↔ old = new := by
  constructor
  · intro h
    cases h
    rfl
  · rintro rfl
    exact .done old

theorem patches_cons_iff {line : Nat} {hunk : Hunk α} {hunks : List (Hunk α)}
    {skipped lines new : List α} (hstart : hunk.oldStart = line + skipped.length) :
    Patches line (hunk :: hunks) (skipped ++ lines) new ↔
      ∃ old' new', lines = hunk.oldLines ++ old' ∧ new = skipped ++ (hunk.newLines ++ new') ∧
        Patches (hunk.oldStart + hunk.oldLines.length) hunks old' new' := by
  constructor
  · generalize hlines : skipped ++ lines = old
    rintro (_ | @⟨_, _, _, skipped', old', new', hstart', rest⟩)
    obtain ⟨rfl, rfl⟩ := List.append_inj hlines (by omega)
    exact ⟨old', new', rfl, rfl, rest⟩
  · rintro ⟨old', new', rfl, rfl, rest⟩
    exact .hunk skipped hstart rest

/-- The lines in front of the last hunk. -/
def linesInFront (hunks : List (Hunk α)) : Nat := (hunks.getLast?.map (·.oldStart)).getD 0

theorem Patches.le_linesInFront {line : Nat} {hunks : List (Hunk α)} {old new : List α}
    (h : Patches line hunks old new) (hne : hunks ≠ []) : line ≤ linesInFront hunks := by
  induction h with
  | done => exact absurd rfl hne
  | @hunk line hunk hunks skipped old new hstart _ ih =>
    cases hunks with
    | nil =>
      simp only [linesInFront, List.getLast?_singleton, Option.map_some, Option.getD_some]
      omega
    | cons next hunks =>
      have hrest := ih (List.cons_ne_nil _ _)
      rw [linesInFront, List.getLast?_cons_cons, ← linesInFront]
      omega

/-- What is in front of the last hunk, behind the first one. -/
theorem Patches.take_linesInFront {line : Nat} {hunk : Hunk α} {hunks : List (Hunk α)}
    {skipped old new : List α} (hstart : hunk.oldStart = line + skipped.length)
    (h : Patches (hunk.oldStart + hunk.oldLines.length) hunks old new) (hne : hunks ≠ []) :
    (skipped ++ (hunk.oldLines ++ old)).take (linesInFront (hunk :: hunks) - line)
      = skipped ++ (hunk.oldLines
        ++ old.take (linesInFront hunks - (hunk.oldStart + hunk.oldLines.length))) := by
  have hle := h.le_linesInFront hne
  obtain ⟨next, hunks, rfl⟩ := List.exists_cons_of_ne_nil hne
  have hcount : linesInFront (hunk :: next :: hunks) - line = skipped.length
      + (hunk.oldLines.length
        + (linesInFront (next :: hunks) - (hunk.oldStart + hunk.oldLines.length))) := by
    rw [linesInFront, List.getLast?_cons_cons, ← linesInFront]
    omega
  rw [hcount, List.take_length_add_append, List.take_length_add_append]

/-- What a hunk with another behind it finds is in front of the last hunk. -/
theorem Patches.mem_take_linesInFront {line : Nat} {hunks : List (Hunk α)} {old new : List α}
    (h : Patches line hunks old new) :
    ∀ hunk ∈ hunks.dropLast, ∀ a ∈ hunk.oldLines, a ∈ old.take (linesInFront hunks - line) := by
  induction h with
  | done => exact fun hunk hhunk => absurd hhunk List.not_mem_nil
  | @hunk line hunk hunks skipped old new hstart hpatches ih =>
    cases hunks with
    | nil => exact fun hunk hhunk => absurd hhunk List.not_mem_nil
    | cons next hunks =>
      rw [hpatches.take_linesInFront hstart (List.cons_ne_nil _ _), List.dropLast_cons_cons]
      refine List.forall_mem_cons.mpr ⟨fun a ha => ?_, fun hunk hhunk a ha => ?_⟩
      · exact List.mem_append_right _ (List.mem_append_left _ ha)
      · exact List.mem_append_right _ (List.mem_append_right _ (ih hunk hhunk a ha))

theorem Patches.patch_eq [DecidableEq α] {line : Nat} {hunks : List (Hunk α)} {old new : List α}
    (h : Patches line hunks old new) : patch line hunks old = some new := by
  induction h with
  | done rest => rfl
  | @hunk line hunk hunks skipped old new hstart _ ih =>
    have hskipped : hunk.oldStart - line = skipped.length := by omega
    have hfound : ((skipped ++ (hunk.oldLines ++ old)).drop skipped.length).take
        hunk.oldLines.length = hunk.oldLines := by
      rw [List.drop_left, List.take_left]
    rw [patch, hskipped, if_pos ⟨by omega, by simp, hfound⟩, ← List.drop_drop, List.drop_left,
      List.drop_left, ih, Option.map_some, List.take_left]

theorem patch_eq_some_iff [DecidableEq α] {line : Nat} {hunks : List (Hunk α)} {old new : List α} :
    patch line hunks old = some new ↔ Patches line hunks old new := by
  refine ⟨fun h => ?_, Patches.patch_eq⟩
  induction hunks generalizing line old new with
  | nil =>
    obtain rfl := Option.some.inj h
    exact .done old
  | cons hunk hunks ih =>
    rw [patch] at h
    split at h
    next hfound =>
      obtain ⟨hle, hlength, hlines⟩ := hfound
      obtain ⟨rest, hrest, rfl⟩ := Option.map_eq_some_iff.mp h
      have hsplit : old.take (hunk.oldStart - line) ++ (hunk.oldLines
          ++ old.drop (hunk.oldStart - line + hunk.oldLines.length)) = old :=
        calc old.take (hunk.oldStart - line) ++ (hunk.oldLines
              ++ old.drop (hunk.oldStart - line + hunk.oldLines.length))
            = old.take (hunk.oldStart - line)
              ++ ((old.drop (hunk.oldStart - line)).take hunk.oldLines.length
                ++ (old.drop (hunk.oldStart - line)).drop hunk.oldLines.length) := by
              rw [hlines, List.drop_drop]
          _ = old := by rw [List.take_append_drop, List.take_append_drop]
      have hstart : hunk.oldStart = line + (old.take (hunk.oldStart - line)).length := by
        rw [List.length_take_of_le hlength]
        omega
      have hpatches := Patches.hunk _ hstart (ih hrest)
      rwa [hsplit] at hpatches
    next => simp at h

end Tile
