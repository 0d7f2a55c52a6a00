import Mathlib.Logic.Basic

/-!
# Types/Json — JSON values, as trees

A payload column of the database holds JSON text; the model keeps the tree the text stands for.  A
`JsonObject` is a `dict[str, JsonValue]`: its pairs in insertion order.  What is left of the text is
that a parser may refuse it: `Json.Parses`.
-/

namespace Tile

/-- A JSON value.  A finite float is `mantissa * 2 ^ exponent`. -/
inductive Json where
  | null
  | bool (b : Bool)
  | int (n : Int)
  | float (mantissa exponent : Int)
  | str (s : String)
  | arr (items : List Json)
  | obj (pairs : List (String × Json))
  deriving Repr, Inhabited

/-- `dict[str, JsonValue]`, in the order of its keys. -/
abbrev JsonObject := List (String × Json)

mutual

def Json.decEq : (a b : Json) → Decidable (a = b)
  | .null, .null => isTrue rfl
  | .bool a, .bool b => decidable_of_iff (a = b) (by simp)
  | .int a, .int b => decidable_of_iff (a = b) (by simp)
  | .float m e, .float m' e' => decidable_of_iff (m = m' ∧ e = e') (by simp)
  | .str a, .str b => decidable_of_iff (a = b) (by simp)
  | .arr a, .arr b =>
    have := Json.decEqItems a b
    decidable_of_iff (a = b) (by simp)
  | .obj a, .obj b =>
    have := Json.decEqPairs a b
    decidable_of_iff (a = b) (by simp)
  | .null, .bool _ | .null, .int _ | .null, .float _ _ | .null, .str _ | .null, .arr _
  | .null, .obj _ | .bool _, .null | .bool _, .int _ | .bool _, .float _ _ | .bool _, .str _
  | .bool _, .arr _ | .bool _, .obj _ | .int _, .null | .int _, .bool _ | .int _, .float _ _
  | .int _, .str _ | .int _, .arr _ | .int _, .obj _ | .float _ _, .null | .float _ _, .bool _
  | .float _ _, .int _ | .float _ _, .str _ | .float _ _, .arr _ | .float _ _, .obj _
  | .str _, .null | .str _, .bool _ | .str _, .int _ | .str _, .float _ _ | .str _, .arr _
  | .str _, .obj _ | .arr _, .null | .arr _, .bool _ | .arr _, .int _ | .arr _, .float _ _
  | .arr _, .str _ | .arr _, .obj _ | .obj _, .null | .obj _, .bool _ | .obj _, .int _
  | .obj _, .float _ _ | .obj _, .str _ | .obj _, .arr _ => isFalse (by simp)

def Json.decEqItems : (a b : List Json) → Decidable (a = b)
  | [], [] => isTrue rfl
  | [], _ :: _ | _ :: _, [] => isFalse (by simp)
  | x :: xs, y :: ys =>
    have := Json.decEq x y
    have := Json.decEqItems xs ys
    decidable_of_iff (x = y ∧ xs = ys) (by simp)

def Json.decEqPairs : (a b : List (String × Json)) → Decidable (a = b)
  | [], [] => isTrue rfl
  | [], _ :: _ | _ :: _, [] => isFalse (by simp)
  | (k, x) :: xs, (l, y) :: ys =>
    have := Json.decEq x y
    have := Json.decEqPairs xs ys
    decidable_of_iff (k = l ∧ x = y ∧ xs = ys) (by simp [and_assoc])

end

instance : DecidableEq Json := Json.decEq

/-- `dict.get`. -/
def JsonObject.get? (object : JsonObject) (key : String) : Option Json :=
  (object.find? (·.1 = key)).map (·.2)

theorem JsonObject.get?_cons (key name : String) (value : Json) (rest : JsonObject) :
    JsonObject.get? ((name, value) :: rest) key
      = if name = key then some value else JsonObject.get? rest key := by
  by_cases h : name = key <;> simp [JsonObject.get?, h]

/-! ## What a parser refuses -/

mutual

/-- How deep arrays and objects nest.  An empty one holds nothing, so it adds no level. -/
def Json.depth : Json → Nat
  | .arr items => Json.depthItems items
  | .obj pairs => Json.depthPairs pairs
  | .null | .bool _ | .int _ | .float _ _ | .str _ => 0

def Json.depthItems : List Json → Nat
  | [] => 0
  | item :: rest => max (Json.depth item + 1) (Json.depthItems rest)

def Json.depthPairs : List (String × Json) → Nat
  | [] => 0
  | (_, value) :: rest => max (Json.depth value + 1) (Json.depthPairs rest)

end

mutual

/-- The integers that occur in a value. -/
def Json.ints : Json → List Int
  | .int n => [n]
  | .arr items => Json.intsItems items
  | .obj pairs => Json.intsPairs pairs
  | .null | .bool _ | .float _ _ | .str _ => []

def Json.intsItems : List Json → List Int
  | [] => []
  | item :: rest => Json.ints item ++ Json.intsItems rest

def Json.intsPairs : List (String × Json) → List Int
  | [] => []
  | (_, value) :: rest => Json.ints value ++ Json.intsPairs rest

end

/-- The JSON parser below `validate_json`, by its limits: how deep a text may nest, and which
integers it reads. -/
class JsonParser where
  recursionLimit : Nat
  readsInt : Int → Bool
  recursionLimit_pos : 0 < recursionLimit

/-- The parser reads the text of the value. -/
def Json.Parses [JsonParser] (value : Json) : Prop :=
  value.depth ≤ JsonParser.recursionLimit ∧ ∀ n ∈ value.ints, JsonParser.readsInt n

instance [JsonParser] (value : Json) : Decidable value.Parses := by
  unfold Json.Parses
  infer_instance

/-- Pydantic's parser: 200 levels, and integers of up to 4300 digits. -/
instance (priority := low) pydanticParser : JsonParser where
  recursionLimit := 200
  readsInt n := n.natAbs < Nat.pow 10 4300
  recursionLimit_pos := Nat.succ_pos 199

/-- An object in an object, and so on: this many levels. -/
def Json.nested : Nat → Json
  | 0 => .null
  | levels + 1 => .obj [("a", nested levels)]

end Tile
