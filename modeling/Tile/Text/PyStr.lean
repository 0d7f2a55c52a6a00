import Mathlib.Data.List.Basic
import Mathlib.Data.List.Infix

/-!
# Text/PyStr — Python strings and the operations on them

A Python string is a list of code points, unpaired surrogates included.  The operations are the ones
the tools use, for a non-empty substring and, where that is all a caller needs, a one-character
separator.
-/

namespace Tile

/-- A Unicode code point, surrogates among them. -/
abbrev CodePoint := Fin 0x110000

instance CodePoint.neZero : @NeZero Nat Zero.ofOfNat0 0x110000 := ⟨by decide⟩

/-- A Python string. -/
abbrev PyStr := List CodePoint

/-- Line feed. -/
def lf : CodePoint := 10

/-- Carriage return. -/
def cr : CodePoint := 13

/-- The code points of a string of Unicode scalar values. -/
def PyStr.ofString (s : String) : PyStr :=
  s.toList.map fun c => Fin.ofNat 0x110000 c.toNat

namespace PyStr

/-- `s[start:stop]`. -/
def slice (s : PyStr) (start stop : Nat) : PyStr := (s.drop start).take (stop - start)

/-- `s.find(sub)`. -/
def find (sub : PyStr) : PyStr → Option Nat
  | [] => if sub = [] then some 0 else none
  | c :: rest => if sub.isPrefixOf (c :: rest) then some 0 else (find sub rest).map (· + 1)

/-- `s.find(sub, start)`. -/
def findFrom (sub s : PyStr) (start : Nat) : Option Nat :=
  if s.length < start then none else (find sub (s.drop start)).map (· + start)

/-- `s.replace(old, new)`; `skip` counts the characters of a match still to be dropped. -/
def replaceFrom (old new : PyStr) : (skip : Nat) → PyStr → PyStr
  | _, [] => []
  | skip + 1, _ :: rest => replaceFrom old new skip rest
  | 0, c :: rest =>
    if old.isPrefixOf (c :: rest) then new ++ replaceFrom old new (old.length - 1) rest
    else c :: replaceFrom old new 0 rest

/-- `text.replace(old, new)`. -/
def replace (old new s : PyStr) : PyStr := replaceFrom old new 0 s

/-- `s.split(sep)`. -/
def split (sep : CodePoint) : PyStr → List PyStr
  | [] => [[]]
  | c :: rest =>
    if c = sep then [] :: split sep rest
    else match split sep rest with
      | [] => [[c]]
      | part :: parts => (c :: part) :: parts

/-- `sep.join(parts)`. -/
def join (sep : PyStr) : List PyStr → PyStr
  | [] => []
  | [part] => part
  | part :: parts => part ++ sep ++ join sep parts

/-- `c.isspace()`. -/
def isSpace (c : CodePoint) : Bool :=
  (9 ≤ c && c ≤ 13) || (28 ≤ c && c ≤ 32) || c == 0x85 || c == 0xA0 || c == 0x1680 ||
    (0x2000 ≤ c && c ≤ 0x200A) || c == 0x2028 || c == 0x2029 || c == 0x202F || c == 0x205F ||
    c == 0x3000

/-- `s.rstrip()`. -/
def rstrip (s : PyStr) : PyStr := (s.reverse.dropWhile isSpace).reverse

/-- `s.endswith("\n")`. -/
def endsWithLf (s : PyStr) : Bool := s.getLast? == some lf

/-! ## Occurrences -/

/-- `s[offset:offset + len(sub)] == sub`. -/
def OccursAt (s sub : PyStr) (offset : Nat) : Prop := s.slice offset (offset + sub.length) = sub

instance (s sub : PyStr) (offset : Nat) : Decidable (s.OccursAt sub offset) := by
  unfold OccursAt
  infer_instance

theorem occursAt_iff {s sub : PyStr} {offset : Nat} (hsub : sub ≠ []) :
    s.OccursAt sub offset ↔
      ∃ before after, s = before ++ sub ++ after ∧ before.length = offset := by
  constructor
  · intro h
    have hle : offset ≤ s.length := by
      by_contra hlt
      rw [OccursAt, slice, List.drop_eq_nil_of_le (by omega), List.take_nil] at h
      exact hsub h.symm
    refine ⟨s.take offset, s.drop (offset + sub.length), ?_, List.length_take_of_le hle⟩
    rw [OccursAt, slice, Nat.add_sub_cancel_left] at h
    calc s = s.take offset ++ ((s.drop offset).take sub.length
            ++ (s.drop offset).drop sub.length) := by simp
      _ = s.take offset ++ sub ++ s.drop (offset + sub.length) := by
          rw [h, List.drop_drop, List.append_assoc]
  · rintro ⟨before, after, rfl, rfl⟩
    simp [OccursAt, slice]

theorem isPrefixOf_iff_occursAt {s sub : PyStr} : sub.isPrefixOf s ↔ s.OccursAt sub 0 := by
  rw [List.isPrefixOf_iff_prefix, List.prefix_iff_eq_take, OccursAt, slice]
  simp [eq_comm]

theorem occursAt_cons {c : CodePoint} {s sub : PyStr} {offset : Nat} :
    OccursAt (c :: s) sub (offset + 1) ↔ s.OccursAt sub offset := by
  simp [OccursAt, slice]

theorem occursAt_drop {s sub : PyStr} {start offset : Nat} :
    OccursAt (s.drop start) sub offset ↔ s.OccursAt sub (start + offset) := by
  rw [OccursAt, OccursAt, slice, slice, List.drop_drop, Nat.add_sub_cancel_left,
    Nat.add_sub_cancel_left]

/-- `find` returns an occurrence. -/
theorem occursAt_of_find {sub : PyStr} (hsub : sub ≠ []) :
    ∀ {s : PyStr} {offset : Nat}, find sub s = some offset → s.OccursAt sub offset
  | [], offset, h => by simp [find, hsub] at h
  | c :: rest, offset, h => by
    rw [find] at h
    split at h
    · next hhere =>
      obtain rfl : 0 = offset := by simpa using h
      exact isPrefixOf_iff_occursAt.mp hhere
    · obtain ⟨offset', h', rfl⟩ := Option.map_eq_some_iff.mp h
      exact occursAt_cons.mpr (occursAt_of_find hsub h')

/-- `find` misses nothing. -/
theorem find_eq_none {sub : PyStr} (hsub : sub ≠ []) :
    ∀ {s : PyStr}, find sub s = none → ∀ offset, ¬ s.OccursAt sub offset
  | [], _, offset, h => hsub (by simpa [OccursAt, slice] using h.symm)
  | c :: rest, h, offset, hoccurs => by
    rw [find] at h
    split at h
    · simp at h
    · next hhere =>
      cases offset with
      | zero => exact hhere (isPrefixOf_iff_occursAt.mpr hoccurs)
      | succ offset =>
        exact find_eq_none hsub (Option.map_eq_none_iff.mp h) offset (occursAt_cons.mp hoccurs)

theorem occursAt_of_findFrom {sub s : PyStr} (hsub : sub ≠ []) {start offset : Nat}
    (h : findFrom sub s start = some offset) : s.OccursAt sub offset ∧ start ≤ offset := by
  rw [findFrom] at h
  split at h
  · simp at h
  · obtain ⟨offset', h', rfl⟩ := Option.map_eq_some_iff.mp h
    have hoccurs := occursAt_drop.mp (occursAt_of_find hsub h')
    exact ⟨by rwa [Nat.add_comm] at hoccurs, by omega⟩

end PyStr

end Tile
