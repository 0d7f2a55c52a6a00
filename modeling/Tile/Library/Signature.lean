import Mathlib.Data.List.Nodup
import Mathlib.Data.List.TakeWhile
import Mathlib.Tactic.Common

/-!
# Library/Signature — calls by position and by keyword

The parameters of a function, in the five kinds Python has, and the calls that bind to them.
Arguments that are fixed by keyword make the parameters behind them keyword-only.  **A function with
a fixed argument binds a call exactly when the function itself binds the call with the argument**
(`binds_fix_iff`).
-/

/-- A parameter of a function. -/
structure Parameter where
  name : String
  hasDefault : Bool := false
  deriving Repr, DecidableEq

def Parameter.names (parameters : List Parameter) : List String := parameters.map (·.name)

/-- The parameters of a function; no two have the same name. -/
structure Signature where
  positionalOnly : List Parameter := []
  positionalOrKeyword : List Parameter := []
  varPositional : Bool := false
  keywordOnly : List Parameter := []
  varKeyword : Bool := false
  nodup : (Parameter.names (positionalOnly ++ positionalOrKeyword ++ keywordOnly)).Nodup := by
    decide

namespace Signature

open Parameter

variable (signature : Signature)

/-- The parameters that have an argument by position and may have one by keyword. -/
def filled (arguments : Nat) : List Parameter :=
  signature.positionalOrKeyword.take (arguments - signature.positionalOnly.length)

/-- The parameters behind the arguments by position. -/
def unfilled (arguments : Nat) : List Parameter :=
  signature.positionalOrKeyword.drop (arguments - signature.positionalOnly.length)

/-- The parameter has an argument, or needs none. -/
def IsServed (keywords : List String) (parameter : Parameter) : Prop :=
  parameter.hasDefault = true ∨ parameter.name ∈ keywords

/-- A keyword finds its parameter, and the parameter has no argument. -/
def Takes (arguments : Nat) (keyword : String) : Prop :=
  keyword ∈ names (signature.unfilled arguments ++ signature.keywordOnly) ∨
    signature.varKeyword = true ∧ keyword ∉ names (signature.filled arguments)

/-- A call with so many arguments by position, and with arguments by keyword, binds. -/
structure Binds (arguments : Nat) (keywords : List String) : Prop where
  room : arguments ≤ (signature.positionalOnly ++ signature.positionalOrKeyword).length ∨
    signature.varPositional = true
  takes : ∀ keyword ∈ keywords, signature.Takes arguments keyword
  positional : ∀ parameter ∈ signature.positionalOnly.drop arguments, parameter.hasDefault = true
  served : ∀ parameter ∈ signature.unfilled arguments ++ signature.keywordOnly,
    IsServed keywords parameter

instance (keywords : List String) (parameter : Parameter) :
    Decidable (IsServed keywords parameter) :=
  inferInstanceAs (Decidable (_ ∨ _))

instance (arguments : Nat) (keyword : String) : Decidable (signature.Takes arguments keyword) :=
  inferInstanceAs (Decidable (_ ∨ _))

theorem binds_iff {arguments : Nat} {keywords : List String} :
    signature.Binds arguments keywords ↔
      (arguments ≤ (signature.positionalOnly ++ signature.positionalOrKeyword).length ∨
        signature.varPositional = true) ∧
      (∀ keyword ∈ keywords, signature.Takes arguments keyword) ∧
      (∀ parameter ∈ signature.positionalOnly.drop arguments, parameter.hasDefault = true) ∧
      ∀ parameter ∈ signature.unfilled arguments ++ signature.keywordOnly,
        IsServed keywords parameter :=
  ⟨fun h => ⟨h.room, h.takes, h.positional, h.served⟩, fun ⟨h₁, h₂, h₃, h₄⟩ => ⟨h₁, h₂, h₃, h₄⟩⟩

instance (arguments : Nat) (keywords : List String) :
    Decidable (signature.Binds arguments keywords) :=
  decidable_of_iff' _ signature.binds_iff

/-! ## Fixing an argument -/

/-- The parameter has a default from now on. -/
def withDefault (keyword : String) (parameter : Parameter) : Parameter :=
  if parameter.name = keyword then { parameter with hasDefault := true } else parameter

theorem names_withDefault (keyword : String) (parameters : List Parameter) :
    names (parameters.map (withDefault keyword)) = names parameters := by
  rw [names, names, List.map_map]
  refine List.map_congr_left fun parameter _ => ?_
  rw [Function.comp_apply, withDefault]
  split <;> rfl

/-- The parameters in front of the one with this name. -/
def before (keyword : String) : List Parameter :=
  signature.positionalOrKeyword.takeWhile (·.name ≠ keyword)

/-- The parameter with this name, and those behind it. -/
def fromKeyword (keyword : String) : List Parameter :=
  signature.positionalOrKeyword.dropWhile (·.name ≠ keyword)

theorem before_append (keyword : String) :
    signature.before keyword ++ signature.fromKeyword keyword = signature.positionalOrKeyword :=
  List.takeWhile_append_dropWhile

/-- What `inspect.signature` says of the function with an argument fixed by keyword. -/
def fix (keyword : String) : Signature where
  positionalOnly := signature.positionalOnly
  positionalOrKeyword := signature.before keyword
  varPositional := signature.varPositional && (signature.fromKeyword keyword).isEmpty
  keywordOnly :=
    (signature.fromKeyword keyword ++ signature.keywordOnly).map (withDefault keyword)
  varKeyword := signature.varKeyword
  nodup := by
    have hnodup := signature.nodup
    rw [← signature.before_append keyword] at hnodup
    rw [names, List.map_append] at *
    have hnames := names_withDefault keyword
      (signature.fromKeyword keyword ++ signature.keywordOnly)
    rw [names, names] at hnames
    rw [hnames]
    simpa using hnodup

section Fix

variable {signature : Signature} {keyword : String} {keywords : List String} {arguments : Nat}

theorem isServed_withDefault {parameter : Parameter} :
    IsServed keywords (withDefault keyword parameter) ↔
      IsServed (keyword :: keywords) parameter := by
  rw [withDefault]
  split
  next heq => exact iff_of_true (.inl rfl) (.inr (heq ▸ List.mem_cons_self))
  next hne => simp [IsServed, hne]

theorem isServed_cons_of_ne {parameter : Parameter} (h : parameter.name ≠ keyword) :
    IsServed (keyword :: keywords) parameter ↔ IsServed keywords parameter := by
  simp [IsServed, h]

theorem name_ne_of_mem_before {parameter : Parameter} (h : parameter ∈ signature.before keyword) :
    parameter.name ≠ keyword :=
  of_decide_eq_true (List.mem_takeWhile_imp
    (p := fun parameter : Parameter => decide (parameter.name ≠ keyword)) h)

theorem filled_eq (h : arguments - signature.positionalOnly.length
      ≤ (signature.before keyword).length ∨ signature.fromKeyword keyword = []) :
    signature.filled arguments
      = (signature.before keyword).take (arguments - signature.positionalOnly.length) := by
  rw [filled, ← signature.before_append keyword]
  rcases h with hle | hnone
  · exact List.take_append_of_le_length hle
  · rw [hnone, List.append_nil]

theorem unfilled_eq (h : arguments - signature.positionalOnly.length
      ≤ (signature.before keyword).length ∨ signature.fromKeyword keyword = []) :
    signature.unfilled arguments
      = (signature.before keyword).drop (arguments - signature.positionalOnly.length)
        ++ signature.fromKeyword keyword := by
  rw [unfilled]
  nth_rewrite 1 [← signature.before_append keyword]
  rcases h with hle | hnone
  · exact List.drop_append_of_le_length hle
  · rw [hnone, List.append_nil, List.append_nil]

/-- The argument by keyword meets one by position. -/
theorem not_takes_of_filled (h : keyword ∈ names (signature.filled arguments)) :
    ¬ signature.Takes arguments keyword := by
  rintro (hopen | ⟨-, hnot⟩)
  · have hnodup := signature.nodup
    rw [← List.take_append_drop (arguments - signature.positionalOnly.length)
      signature.positionalOrKeyword] at hnodup
    simp only [names, List.map_append, List.append_assoc] at hnodup h hopen
    exact List.disjoint_of_nodup_append (List.nodup_append.mp hnodup).2.1 h hopen
  · exact hnot h

theorem names_append (parameters parameters' : List Parameter) :
    names (parameters ++ parameters') = names parameters ++ names parameters' :=
  List.map_append

/-- The arguments by position stay in front of the fixed parameter. -/
def Short (signature : Signature) (keyword : String) (arguments : Nat) : Prop :=
  arguments - signature.positionalOnly.length ≤ (signature.before keyword).length ∨
    signature.fromKeyword keyword = []

theorem fix_room_iff :
    (arguments ≤ ((signature.fix keyword).positionalOnly
          ++ (signature.fix keyword).positionalOrKeyword).length ∨
        (signature.fix keyword).varPositional = true) ↔
      (arguments ≤ (signature.positionalOnly ++ signature.positionalOrKeyword).length ∨
        signature.varPositional = true) ∧ signature.Short keyword arguments := by
  have hlength : (signature.positionalOnly ++ signature.positionalOrKeyword).length
      = signature.positionalOnly.length + ((signature.before keyword).length
        + (signature.fromKeyword keyword).length) := by
    rw [List.length_append, ← signature.before_append keyword, List.length_append]
  rw [hlength, Short]
  simp only [fix, List.length_append, Bool.and_eq_true, List.isEmpty_iff]
  by_cases hnone : signature.fromKeyword keyword = []
  · simp [hnone]
  · simp only [hnone, and_false, or_false]
    omega

theorem fix_takes_iff (h : signature.Short keyword arguments) (keyword' : String) :
    (signature.fix keyword).Takes arguments keyword' ↔ signature.Takes arguments keyword' := by
  rw [Takes, Takes, filled_eq h, unfilled_eq h]
  simp only [fix, filled, unfilled, names_append, names_withDefault, List.append_assoc]

theorem fix_served_iff (h : signature.Short keyword arguments) :
    (∀ parameter ∈ (signature.fix keyword).unfilled arguments
        ++ (signature.fix keyword).keywordOnly, IsServed keywords parameter) ↔
      ∀ parameter ∈ signature.unfilled arguments ++ signature.keywordOnly,
        IsServed (keyword :: keywords) parameter := by
  rw [unfilled_eq h, List.append_assoc]
  simp only [fix, unfilled, List.forall_mem_append, List.forall_mem_map,
    isServed_withDefault]
  refine and_congr_left fun _ => forall₂_congr fun parameter hmem => ?_
  exact (isServed_cons_of_ne (name_ne_of_mem_before (List.mem_of_mem_drop hmem))).symm

/-- The fixed parameter is behind the arguments by position. -/
theorem takes_of_short (h : signature.Short keyword arguments)
    (hkeyword : keyword ∈ names (signature.positionalOrKeyword ++ signature.keywordOnly)) :
    signature.Takes arguments keyword := by
  refine .inl ?_
  rw [unfilled_eq h, names_append, names_append, List.append_assoc]
  rw [← signature.before_append keyword, names_append, names_append, List.append_assoc] at hkeyword
  refine List.mem_append_right _ ((List.mem_append.mp hkeyword).resolve_left fun hbefore => ?_)
  obtain ⟨parameter, hmem, hname⟩ := List.mem_map.mp hbefore
  exact name_ne_of_mem_before hmem hname

theorem not_takes_of_not_short (h : ¬ signature.Short keyword arguments) :
    ¬ signature.Takes arguments keyword := by
  obtain ⟨hreached, hsome⟩ := not_or.mp h
  obtain ⟨parameter, after, hfrom⟩ := List.exists_cons_of_ne_nil hsome
  have hname : parameter.name = keyword := by
    have hhead := List.head?_dropWhile_not (fun parameter => decide (parameter.name ≠ keyword))
      signature.positionalOrKeyword
    rw [← fromKeyword, hfrom] at hhead
    simpa using hhead
  refine not_takes_of_filled (List.mem_map.mpr ⟨parameter, ?_, hname⟩)
  rw [filled, ← signature.before_append keyword, hfrom, List.append_cons, List.take_append,
    List.take_of_length_le (by rw [List.length_append, List.length_singleton]; omega)]
  exact List.mem_append_left _ (List.mem_append_right _ List.mem_cons_self)

/-- **A function with a fixed argument binds the calls that the function binds with it.** -/
theorem binds_fix_iff
    (hkeyword : keyword ∈ names (signature.positionalOrKeyword ++ signature.keywordOnly)) :
    (signature.fix keyword).Binds arguments keywords ↔
      signature.Binds arguments (keyword :: keywords) := by
  rw [binds_iff, binds_iff, fix_room_iff, List.forall_mem_cons]
  by_cases hshort : signature.Short keyword arguments
  · rw [fix_served_iff hshort]
    simp only [fix_takes_iff hshort, hshort, takes_of_short hshort hkeyword, and_true, true_and]
    rfl
  · simp only [hshort, not_takes_of_not_short hshort, and_false, false_and]

end Fix

end Signature
