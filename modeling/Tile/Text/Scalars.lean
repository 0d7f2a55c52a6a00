import Tile.Text.Utf8

/-!
# Text/Scalars — texts of Unicode scalar values

A text that was decoded from UTF-8 has no surrogates, so encoding it cannot fail.
-/

namespace Tile

/-- A string without surrogates. -/
abbrev Text := List Char

namespace Text

/-- The code point of a scalar value. -/
def codePoint (c : Char) : CodePoint := Fin.ofNat _ c.toNat

def encodeChar (c : Char) : Bytes := (Utf8.encodeChar (codePoint c)).getD []

/-- `text.encode("utf-8")`. -/
def encode (text : Text) : Bytes := text.flatMap encodeChar

/-- `len(text.encode("utf-8"))`. -/
def size (text : Text) : Nat := text.encode.length

theorem isValidChar (c : Char) : c.toNat < 0xD800 ∨ 0xDFFF < c.toNat ∧ c.toNat < 0x110000 := c.valid

theorem codePoint_val (c : Char) : (codePoint c).val = c.toNat := by
  have hvalid := isValidChar c
  exact Nat.mod_eq_of_lt (by omega)

/-- The bytes of a scalar value, by their number. -/
theorem encodeChar_cases (c : Char) :
    (c.toNat < 0x80 ∧ ∃ b : Byte, encodeChar c = [b] ∧ b.val = c.toNat) ∨
    (0x80 ≤ c.toNat ∧ c.toNat < 0x800 ∧ ∃ b₀ b₁ : Byte, encodeChar c = [b₀, b₁] ∧
      b₀.val = 0xC0 + c.toNat / 64 ∧ b₁.val = 0x80 + c.toNat % 64) ∨
    (0x800 ≤ c.toNat ∧ c.toNat < 0x10000 ∧ (c.toNat < 0xD800 ∨ 0xDFFF < c.toNat) ∧
      ∃ b₀ b₁ b₂ : Byte, encodeChar c = [b₀, b₁, b₂] ∧ b₀.val = 0xE0 + c.toNat / 4096 ∧
        b₁.val = 0x80 + c.toNat / 64 % 64 ∧ b₂.val = 0x80 + c.toNat % 64) ∨
    (0x10000 ≤ c.toNat ∧ c.toNat < 0x110000 ∧
      ∃ b₀ b₁ b₂ b₃ : Byte, encodeChar c = [b₀, b₁, b₂, b₃] ∧ b₀.val = 0xF0 + c.toNat / 262144 ∧
        b₁.val = 0x80 + c.toNat / 4096 % 64 ∧ b₂.val = 0x80 + c.toNat / 64 % 64 ∧
        b₃.val = 0x80 + c.toNat % 64) := by
  have hvalid := isValidChar c
  have hsurrogate : ¬ IsSurrogate (codePoint c) := by
    rw [IsSurrogate, codePoint_val]
    omega
  unfold encodeChar Utf8.encodeChar
  simp only [codePoint_val]
  split
  next h => exact .inl ⟨h, _, rfl, by simp only [Fin.val_ofNat]; omega⟩
  split
  next h =>
    refine .inr (.inl ⟨by omega, h, _, _, rfl, ?_, ?_⟩) <;> simp only [Fin.val_ofNat] <;> omega
  split
  next h =>
    refine .inr (.inr (.inl ⟨by omega, h, by omega, _, _, _, rfl, ?_, ?_, ?_⟩)) <;>
      simp only [Fin.val_ofNat] <;> omega
  next h =>
    refine .inr (.inr (.inr ⟨by omega, by omega, _, _, _, _, rfl, ?_, ?_, ?_, ?_⟩)) <;>
      simp only [Fin.val_ofNat] <;> omega

/-- A scalar value is a lead byte and up to three tail bytes. -/
theorem exists_lead (c : Char) : ∃ lead tail, encodeChar c = lead :: tail ∧ ¬ Utf8.IsTail lead ∧
    (∀ b ∈ tail, Utf8.IsTail b) ∧ tail.length ≤ 3 := by
  simp only [Utf8.IsTail]
  obtain ⟨_, b, h, hb⟩ | ⟨_, _, b₀, b₁, h, h₀, h₁⟩ | ⟨_, _, _, b₀, b₁, b₂, h, h₀, h₁, h₂⟩ |
    ⟨_, _, b₀, b₁, b₂, b₃, h, h₀, h₁, h₂, h₃⟩ := encodeChar_cases c
  · exact ⟨b, [], h, by omega, by simp, by simp⟩
  · exact ⟨b₀, [b₁], h, by omega, by simp; omega, by simp⟩
  · exact ⟨b₀, [b₁, b₂], h, by omega, by simp; omega, by simp⟩
  · exact ⟨b₀, [b₁, b₂, b₃], h, by omega, by simp; omega, by simp⟩

theorem encode_lf : encodeChar '\n' = [10] := by decide

/-- The last byte of a character is a newline only if the character is. -/
theorem getLast?_encodeChar {c : Char} : (encodeChar c).getLast? = some 10 ↔ c = '\n' := by
  have hlf : c = '\n' ↔ c.toNat = 10 := ⟨by rintro rfl; rfl, fun h => Char.toNat_inj.mp h⟩
  rw [hlf]
  obtain ⟨_, b, h, hb⟩ | ⟨_, _, b₀, b₁, h, h₀, h₁⟩ | ⟨_, _, _, b₀, b₁, b₂, h, h₀, h₁, h₂⟩ |
    ⟨_, _, b₀, b₁, b₂, b₃, h, h₀, h₁, h₂, h₃⟩ := encodeChar_cases c
  all_goals
    simp only [h, List.getLast?_cons_cons, List.getLast?_singleton, Option.some.injEq, Fin.ext_iff]
    change _ = 10 ↔ _
    omega

@[simp] theorem encode_nil : encode [] = [] := rfl

@[simp] theorem encode_append (text text' : Text) :
    encode (text ++ text') = encode text ++ encode text' := List.flatMap_append

theorem encode_cons (c : Char) (text : Text) : encode (c :: text) = encodeChar c ++ encode text :=
  rfl

@[simp] theorem size_nil : size [] = 0 := rfl

@[simp] theorem size_append (text text' : Text) :
    size (text ++ text') = size text + size text' := by
  simp [size]

theorem size_cons (c : Char) (text : Text) :
    size (c :: text) = (encodeChar c).length + size text := by
  simp [size, encode_cons]

@[simp] theorem size_lf_cons (text : Text) : size ('\n' :: text) = 1 + size text := by
  rw [size_cons, encode_lf]
  rfl

theorem encodeChar_ascii {c : Char} (h : c.toNat < 0x80) :
    ∃ b : Byte, encodeChar c = [b] ∧ b.val = c.toNat := by
  rcases encodeChar_cases c with ⟨-, hb⟩ | ⟨hle, -⟩ | ⟨hle, -⟩ | ⟨hle, -⟩
  · exact hb
  all_goals omega

/-- Texts in ASCII compare as their bytes do. -/
theorem encode_lt_encode_iff {text text' : Text} (h : ∀ c ∈ text, c.toNat < 0x80)
    (h' : ∀ c ∈ text', c.toNat < 0x80) : encode text < encode text' ↔ text < text' := by
  induction text generalizing text' with
  | nil =>
    rcases text' with - | ⟨c', text'⟩
    · exact iff_of_false (List.not_lt_nil _) (List.not_lt_nil _)
    · obtain ⟨b', hb', -⟩ := encodeChar_ascii (h' c' List.mem_cons_self)
      rw [encode_cons, hb']
      exact iff_of_true (List.nil_lt_cons ..) (List.nil_lt_cons ..)
  | cons c text ih =>
    rcases text' with - | ⟨c', text'⟩
    · exact iff_of_false (List.not_lt_nil _) (List.not_lt_nil _)
    · obtain ⟨b, hb, hval⟩ := encodeChar_ascii (h c List.mem_cons_self)
      obtain ⟨b', hb', hval'⟩ := encodeChar_ascii (h' c' List.mem_cons_self)
      have hlt : b < b' ↔ c < c' := by rw [Fin.lt_def, hval, hval']; exact Iff.rfl
      have heq : b = b' ↔ c = c' := by rw [Fin.ext_iff, hval, hval', Char.toNat_inj]
      rw [encode_cons, encode_cons, hb, hb', List.singleton_append, List.singleton_append,
        List.cons_lt_cons_iff, List.cons_lt_cons_iff, hlt, heq,
        ih (fun d hd => h d (List.mem_cons_of_mem c hd))
          fun d hd => h' d (List.mem_cons_of_mem c' hd)]

/-! ## Python strings -/

/-- A text as a Python string. -/
def points (text : Text) : PyStr := text.map codePoint

/-- A Python string without surrogates as a text. -/
def ofPoints (s : PyStr) : Text := s.map fun c => Char.ofNat c.val

theorem codePoint_ofNat {c : CodePoint} (h : ¬ IsSurrogate c) :
    codePoint (Char.ofNat c.val) = c := by
  have hc := c.isLt
  have hvalid : c.val.isValidChar := by
    rw [IsSurrogate] at h
    rw [Nat.isValidChar]
    omega
  refine Fin.ext ?_
  rw [codePoint_val, Char.ofNat, dif_pos hvalid]
  rfl

theorem points_ofPoints {s : PyStr} (h : ∀ c ∈ s, ¬ IsSurrogate c) : points (ofPoints s) = s := by
  rw [points, ofPoints, List.map_map]
  exact (List.map_congr_left fun c hc => codePoint_ofNat (h c hc)).trans (List.map_id s)

end Text

end Tile
