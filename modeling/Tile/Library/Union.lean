import Mathlib.Data.List.Basic

/-!
# Library/Union — unions without a discriminator

A union is decoded by its alternatives.  Where several accept a value, which of them wins is a
matter of order or of scores; where **just one** accepts it, every way of choosing comes to the same
(`Chooses.accepted_eq`).
-/

namespace Tile

variable {α : Type u} {β : Type v}

/-- What the alternatives that accept the value make of it. -/
def accepted (alternatives : List (α → Option β)) (value : α) : List β :=
  alternatives.filterMap fun decode => decode value

@[simp] theorem accepted_nil (value : α) : accepted ([] : List (α → Option β)) value = [] := rfl

@[simp] theorem accepted_cons (decode : α → Option β) (rest : List (α → Option β)) (value : α) :
    accepted (decode :: rest) value = (decode value).toList ++ accepted rest value := by
  cases h : decode value <;> simp [accepted, h]

/-- The decoder returns what an accepting alternative does, and fails only where none accepts. -/
structure Chooses (alternatives : List (α → Option β)) (decode : α → Option β) : Prop where
  mem : ∀ {value b}, decode value = some b → b ∈ accepted alternatives value
  isSome : ∀ {value}, accepted alternatives value ≠ [] → (decode value).isSome

theorem Chooses.accepted_eq {alternatives : List (α → Option β)} {decode : α → Option β}
    (h : Chooses alternatives decode) {value : α} {b : β} (hdecode : decode value = some b)
    (hle : (accepted alternatives value).length ≤ 1) : accepted alternatives value = [b] := by
  have hmem := h.mem hdecode
  rcases haccepted : accepted alternatives value with - | ⟨c, - | ⟨d, rest⟩⟩
  · simp [haccepted] at hmem
  · simpa [haccepted, eq_comm] using hmem
  · simp [haccepted] at hle

/-- Trying the alternatives in order is one way of choosing. -/
theorem chooses_findSome? (alternatives : List (α → Option β)) :
    Chooses alternatives fun value => alternatives.findSome? fun decode => decode value where
  mem {value b} h := by
    obtain ⟨decode, hmem, hdecode⟩ := List.exists_of_findSome?_eq_some h
    exact List.mem_filterMap.mpr ⟨decode, hmem, hdecode⟩
  isSome {value} h := by
    obtain ⟨b, hb⟩ := List.exists_mem_of_ne_nil _ h
    obtain ⟨decode, hmem, hdecode⟩ := List.mem_filterMap.mp hb
    exact List.findSome?_isSome_iff.mpr ⟨decode, hmem, hdecode ▸ rfl⟩

end Tile
