import Mathlib.Logic.Function.Basic

/-!
# Library/BranchingLog — append-only logs that can be branched

A family of logs, one for each key.  An operation appends to one log or starts one log as a copy of
another.  `replay_of_not_branchesTo` says what a log holds after operations none of which starts it
anew: **what it held, and then what was appended to it**, whatever happened to the others.
`prefix_replay` follows what a log held into its branches: **whichever logs were branched from it
hold it still**.
-/

namespace Tile

variable {κ : Type u} {ε : Type v} [DecidableEq κ]

inductive LogOp (κ : Type u) (ε : Type v) where
  | append (key : κ) (entries : List ε)
  | branch (source target : κ)
  | skip

namespace LogOp

def apply (logs : κ → List ε) : LogOp κ ε → κ → List ε
  | append key entries => Function.update logs key (logs key ++ entries)
  | branch source target => Function.update logs target (logs source)
  | skip => logs

/-- What the operation appends to the log of `key`. -/
def appended (key : κ) : LogOp κ ε → List ε
  | append key' entries => if key' = key then entries else []
  | branch _ _ | skip => []

/-- The operation starts the log of `key` anew. -/
def BranchesTo (key : κ) : LogOp κ ε → Prop
  | branch _ target => target = key
  | append _ _ | skip => False

variable {logs : κ → List ε} {key : κ}

/-- **The frame rule**: a log changes by what is appended to it, unless it is started anew. -/
theorem apply_of_not_branchesTo {op : LogOp κ ε} (h : ¬ op.BranchesTo key) :
    op.apply logs key = logs key ++ op.appended key := by
  cases op with
  | append key' entries =>
    by_cases hkey : key' = key
    · subst hkey
      simp [apply, appended]
    · simp [apply, appended, hkey, Function.update_of_ne (Ne.symm hkey)]
  | branch source target => simp [apply, appended, Function.update_of_ne (Ne.symm h)]
  | skip => simp [apply, appended]

/-- **Invariants of a log**: what holds of every log, and of a log after an append, holds of every
log after the operation. -/
theorem forall_apply {P : List ε → Prop} {op : LogOp κ ε} (h : ∀ key, P (logs key))
    (happend : ∀ key entries, op = append key entries → P (logs key ++ entries)) :
    ∀ key, P (op.apply logs key) := by
  intro key
  cases op with
  | append key' entries =>
    by_cases hkey : key = key'
    · subst hkey
      simpa [apply] using happend key entries rfl
    · simpa [apply, Function.update_of_ne hkey] using h key
  | branch source target =>
    by_cases hkey : key = target
    · subst hkey
      simpa [apply] using h source
    · simpa [apply, Function.update_of_ne hkey] using h key
  | skip => exact h key

end LogOp

namespace LogOp

/-- The logs that hold what those of `keys` held: a branch of one of them does, and a log that is
started anew from another does not. -/
def spread (keys : List κ) : LogOp κ ε → List κ
  | append _ _ | skip => keys
  | branch source target =>
    if source ∈ keys then target :: keys else keys.filter (· ≠ target)

theorem prefix_apply {logs : κ → List ε} {keys : List κ} {held : List ε}
    (h : ∀ key ∈ keys, held <+: logs key) (op : LogOp κ ε) :
    ∀ key ∈ op.spread keys, held <+: op.apply logs key := by
  intro key hkey
  cases op with
  | append key' entries =>
    refine (h key hkey).trans ?_
    by_cases hsame : key = key'
    · subst hsame
      simp [apply]
    · simp [apply, Function.update_of_ne hsame]
  | skip => exact h key hkey
  | branch source target =>
    by_cases hsource : source ∈ keys
    · by_cases htarget : key = target
      · subst htarget
        simpa [apply] using h source hsource
      · rw [spread, if_pos hsource] at hkey
        simpa [apply, Function.update_of_ne htarget] using
          h key ((List.mem_cons.mp hkey).resolve_left htarget)
    · rw [spread, if_neg hsource] at hkey
      obtain ⟨hkey, htarget⟩ := List.mem_filter.mp hkey
      simpa [apply, Function.update_of_ne (of_decide_eq_true htarget)] using h key hkey

end LogOp

/-- The logs after a sequence of operations. -/
def replay (logs : κ → List ε) (ops : List (LogOp κ ε)) : κ → List ε := ops.foldl LogOp.apply logs

variable {logs : κ → List ε} {key : κ}

theorem replay_cons (op : LogOp κ ε) (ops : List (LogOp κ ε)) :
    replay logs (op :: ops) = replay (op.apply logs) ops := rfl

theorem replay_of_not_branchesTo {ops : List (LogOp κ ε)} (h : ∀ op ∈ ops, ¬ op.BranchesTo key) :
    replay logs ops key = logs key ++ ops.flatMap (·.appended key) := by
  induction ops generalizing logs with
  | nil => simp [replay]
  | cons op rest ih =>
    obtain ⟨hop, hrest⟩ := List.forall_mem_cons.mp h
    rw [replay_cons, ih hrest, LogOp.apply_of_not_branchesTo hop, List.flatMap_cons,
      List.append_assoc]

/-- **What a log held, its branches hold.** -/
theorem prefix_replay {held : List ε} {ops : List (LogOp κ ε)} {keys : List κ}
    (h : ∀ key ∈ keys, held <+: logs key) :
    ∀ key ∈ ops.foldl LogOp.spread keys, held <+: replay logs ops key := by
  induction ops generalizing logs keys with
  | nil => exact h
  | cons op rest ih => exact ih (LogOp.prefix_apply h op)

end Tile
