import Tile.Text.Scalars

/-!
# Text/Splitlines — `str.splitlines`

Python cuts a text at many more characters than a newline.  Texts that were written with a newline
each come apart again (`splitlines_append`), but **one that has any of the others inside comes back
in pieces**, none of which has one (`not_isBoundary_of_mem_splitlines`).
-/

namespace Tile

namespace Text

/-- The line boundaries of `str.splitlines`. -/
def isBoundary (c : Char) : Bool :=
  c.toNat = 0x0A || c.toNat = 0x0B || c.toNat = 0x0C || c.toNat = 0x0D || c.toNat = 0x1C ||
    c.toNat = 0x1D || c.toNat = 0x1E || c.toNat = 0x85 || c.toNat = 0x2028 || c.toNat = 0x2029

/-- The lines from here on, behind what the current one has already.  A newline right after a
carriage return is part of the same boundary. -/
def splitFrom (line : Text) (afterReturn : Bool) : Text → List Text
  | [] => if line = [] then [] else [line]
  | c :: rest =>
    if afterReturn && c = '\n' then splitFrom [] false rest
    else if isBoundary c then line :: splitFrom [] (c = '\r') rest
    else splitFrom (line ++ [c]) false rest

/-- `text.splitlines()`. -/
def splitlines (text : Text) : List Text := splitFrom [] false text

example : splitlines "a\r\nb\r\r\u2028c".toList = ["a".toList, "b".toList, [], [], "c".toList] := by
  decide +kernel

/-- **A newline ends a line**, whatever is in front of it. -/
theorem splitFrom_append (text rest line : Text) (afterReturn : Bool) :
    splitFrom line afterReturn (text ++ '\n' :: rest)
      = splitFrom line afterReturn (text ++ ['\n']) ++ splitlines rest := by
  induction text generalizing line afterReturn with
  | nil => cases afterReturn <;> simp [splitFrom, splitlines, isBoundary]
  | cons c text ih =>
    simp only [List.cons_append, splitFrom, ih]
    split
    · rfl
    · split <;> rfl

theorem splitlines_append (text rest : Text) :
    splitlines (text ++ '\n' :: rest) = splitlines (text ++ ['\n']) ++ splitlines rest :=
  splitFrom_append text rest [] false

theorem splitlines_flatMap {α : Type*} (write : α → Text) (as : List α) :
    splitlines (as.flatMap fun a => write a ++ ['\n'])
      = as.flatMap fun a => splitlines (write a ++ ['\n']) := by
  induction as with
  | nil => rfl
  | cons a as ih =>
    rw [List.flatMap_cons, List.flatMap_cons, ← ih, ← splitlines_append, List.append_assoc]
    rfl

theorem splitFrom_append_of_not_isBoundary {text : Text} (h : ∀ c ∈ text, isBoundary c = false)
    (line rest : Text) :
    splitFrom line false (text ++ rest) = splitFrom (line ++ text) false rest := by
  induction text generalizing line with
  | nil => rw [List.nil_append, List.append_nil]
  | cons c text ih =>
    have hc := h c List.mem_cons_self
    rw [List.cons_append, splitFrom, Bool.false_and, if_neg Bool.false_ne_true, hc,
      if_neg Bool.false_ne_true, ih fun d hd => h d (List.mem_cons_of_mem _ hd),
      List.append_assoc, List.singleton_append]

/-- A line without boundaries of its own stays whole. -/
theorem splitlines_line {text : Text} (h : ∀ c ∈ text, isBoundary c = false) :
    splitlines (text ++ ['\n']) = [text] := by
  rw [splitlines, splitFrom_append_of_not_isBoundary h]
  rfl

theorem splitFrom_return (line rest : Text) (afterReturn : Bool) :
    splitFrom line afterReturn ('\r' :: rest) = line :: splitFrom [] true rest := by
  cases afterReturn <;> rfl

theorem eq_nil_of_mem_splitFrom_returns (returns : Nat) (afterReturn : Bool) :
    ∀ line ∈ splitFrom [] afterReturn (List.replicate returns '\r' ++ ['\n']), line = [] := by
  induction returns generalizing afterReturn with
  | zero => cases afterReturn <;> decide
  | succ returns ih =>
    rw [List.replicate_succ, List.cons_append, splitFrom_return]
    exact List.forall_mem_cons.mpr ⟨rfl, ih true⟩

/-- Carriage returns in front of the newline only add empty lines. -/
theorem filter_splitlines_returns {text : Text} (h : ∀ c ∈ text, isBoundary c = false)
    (returns : Nat) :
    (splitlines (text ++ List.replicate returns '\r' ++ ['\n'])).filter (· ≠ [])
      = [text].filter (· ≠ []) := by
  rw [List.append_assoc, splitlines, splitFrom_append_of_not_isBoundary h, List.nil_append]
  cases returns with
  | zero => rfl
  | succ returns =>
    have hrest : (splitFrom [] true (List.replicate returns '\r' ++ ['\n'])).filter (· ≠ []) = [] :=
      List.filter_eq_nil_iff.mpr fun line hline => by
        simpa using eq_nil_of_mem_splitFrom_returns returns true line hline
    rw [List.replicate_succ, List.cons_append, splitFrom_return, List.filter_cons, hrest,
      List.filter_cons, List.filter_nil]

theorem not_isBoundary_of_mem_splitFrom {text line : Text} {afterReturn : Bool}
    (hline : ∀ c ∈ line, isBoundary c = false) :
    ∀ piece ∈ splitFrom line afterReturn text, ∀ c ∈ piece, isBoundary c = false := by
  induction text generalizing line afterReturn with
  | nil =>
    intro piece hpiece
    rw [splitFrom] at hpiece
    split at hpiece
    · exact absurd hpiece List.not_mem_nil
    · exact List.mem_singleton.mp hpiece ▸ hline
  | cons c text ih =>
    intro piece hpiece
    rw [splitFrom] at hpiece
    split at hpiece
    · exact ih (by simp) piece hpiece
    · split at hpiece
      · rcases List.mem_cons.mp hpiece with rfl | hpiece
        · exact hline
        · exact ih (by simp) piece hpiece
      next hc =>
        refine ih (List.forall_mem_append.mpr ⟨hline, ?_⟩) piece hpiece
        exact List.forall_mem_singleton.mpr (Bool.eq_false_iff.mpr hc)

/-- **No line has a boundary.** -/
theorem not_isBoundary_of_mem_splitlines {text : Text} :
    ∀ line ∈ splitlines text, ∀ c ∈ line, isBoundary c = false :=
  not_isBoundary_of_mem_splitFrom (by simp)

end Text

end Tile
