import Tile.Text.PyStr

/-!
# Text/Utf8 — the strict UTF-8 codec

`encode` rejects unpaired surrogates and `decode` rejects everything that `encode` does not produce.
-/

namespace Tile

/-- A byte. -/
abbrev Byte := Fin 256

instance Byte.neZero : @NeZero Nat Zero.ofOfNat0 256 := ⟨by decide⟩

/-- `bytes`. -/
abbrev Bytes := List Byte

/-- A code point that UTF-8 has no encoding of. -/
def IsSurrogate (c : CodePoint) : Prop := 0xD800 ≤ c.val ∧ c.val ≤ 0xDFFF

instance (c : CodePoint) : Decidable (IsSurrogate c) := inferInstanceAs (Decidable (_ ∧ _))

namespace Utf8

/-- A byte of the form `10xxxxxx`. -/
def IsTail (b : Byte) : Prop := 0x80 ≤ b.val ∧ b.val ≤ 0xBF

instance (b : Byte) : Decidable (IsTail b) := inferInstanceAs (Decidable (_ ∧ _))

/-- The bytes of a code point. -/
def encodeChar (c : CodePoint) : Option Bytes :=
  let byte (n : Nat) : Byte := Fin.ofNat 256 n
  let n := c.val
  if n < 0x80 then some [byte n]
  else if n < 0x800 then some [byte (0xC0 + n / 64), byte (0x80 + n % 64)]
  else if IsSurrogate c then none
  else if n < 0x10000 then
    some [byte (0xE0 + n / 4096), byte (0x80 + n / 64 % 64), byte (0x80 + n % 64)]
  else
    some [byte (0xF0 + n / 262144), byte (0x80 + n / 4096 % 64), byte (0x80 + n / 64 % 64),
      byte (0x80 + n % 64)]

/-- `text.encode("utf-8")`. -/
def encode : PyStr → Option Bytes
  | [] => some []
  | c :: rest => do return (← encodeChar c) ++ (← encode rest)

/-- The code point of a two-byte sequence. -/
def twoBytes (b₀ b₁ : Byte) : Option CodePoint :=
  if 0xC2 ≤ b₀.val ∧ b₀.val ≤ 0xDF ∧ IsTail b₁ then
    some (Fin.ofNat _ ((b₀.val - 0xC0) * 64 + (b₁.val - 0x80)))
  else none

/-- The code point of a three-byte sequence, unless it is overlong or a surrogate. -/
def threeBytes (b₀ b₁ b₂ : Byte) : Option CodePoint :=
  let n := (b₀.val - 0xE0) * 4096 + (b₁.val - 0x80) * 64 + (b₂.val - 0x80)
  let c : CodePoint := Fin.ofNat _ n
  if 0xE0 ≤ b₀.val ∧ b₀.val ≤ 0xEF ∧ IsTail b₁ ∧ IsTail b₂ ∧ 0x800 ≤ n ∧ ¬ IsSurrogate c then some c
  else none

/-- The code point of a four-byte sequence, unless it is overlong or out of range. -/
def fourBytes (b₀ b₁ b₂ b₃ : Byte) : Option CodePoint :=
  let n := (b₀.val - 0xF0) * 262144 + (b₁.val - 0x80) * 4096 + (b₂.val - 0x80) * 64 +
    (b₃.val - 0x80)
  if 0xF0 ≤ b₀.val ∧ b₀.val ≤ 0xF4 ∧ IsTail b₁ ∧ IsTail b₂ ∧ IsTail b₃ ∧
      0x10000 ≤ n ∧ n < 0x110000 then
    some (Fin.ofNat _ n)
  else none

/-- `data.decode("utf-8")`. -/
def decode : Bytes → Option PyStr
  | [] => some []
  | b₀ :: rest =>
    if b₀.val < 0x80 then (decode rest).map (Fin.ofNat _ b₀.val :: ·)
    else match rest with
      | [] => none
      | b₁ :: rest => match twoBytes b₀ b₁ with
        | some c => (decode rest).map (c :: ·)
        | none => match rest with
          | [] => none
          | b₂ :: rest => match threeBytes b₀ b₁ b₂ with
            | some c => (decode rest).map (c :: ·)
            | none => match rest with
              | [] => none
              | b₃ :: rest => match fourBytes b₀ b₁ b₂ b₃ with
                | some c => (decode rest).map (c :: ·)
                | none => none

/-! ## Round trip -/

theorem decode_ascii {b : Byte} (h : b.val < 0x80) (rest : Bytes) :
    decode (b :: rest) = (decode rest).map (Fin.ofNat _ b.val :: ·) := by
  rw [decode.eq_def]
  simp [h]

theorem decode_two {b₀ b₁ : Byte} {c : CodePoint} (h : twoBytes b₀ b₁ = some c) (rest : Bytes) :
    decode (b₀ :: b₁ :: rest) = (decode rest).map (c :: ·) := by
  have hlead : ¬ b₀.val < 0x80 := by
    rw [twoBytes, Option.ite_none_right_eq_some] at h
    omega
  rw [decode.eq_def]
  simp [hlead, h]

theorem decode_three {b₀ b₁ b₂ : Byte} {c : CodePoint} (h : threeBytes b₀ b₁ b₂ = some c)
    (rest : Bytes) : decode (b₀ :: b₁ :: b₂ :: rest) = (decode rest).map (c :: ·) := by
  have hlead : 0xE0 ≤ b₀.val := by
    rw [threeBytes, Option.ite_none_right_eq_some] at h
    exact h.1.1
  have htwo : twoBytes b₀ b₁ = none := if_neg (by omega)
  rw [decode.eq_def]
  simp [show ¬ b₀.val < 0x80 by omega, htwo, h]

theorem decode_four {b₀ b₁ b₂ b₃ : Byte} {c : CodePoint} (h : fourBytes b₀ b₁ b₂ b₃ = some c)
    (rest : Bytes) : decode (b₀ :: b₁ :: b₂ :: b₃ :: rest) = (decode rest).map (c :: ·) := by
  have hlead : 0xF0 ≤ b₀.val := by
    rw [fourBytes, Option.ite_none_right_eq_some] at h
    exact h.1.1
  have htwo : twoBytes b₀ b₁ = none := if_neg (by omega)
  have hthree : threeBytes b₀ b₁ b₂ = none := if_neg (by omega)
  rw [decode.eq_def]
  simp [show ¬ b₀.val < 0x80 by omega, htwo, hthree, h]

theorem decode_encodeChar {c : CodePoint} {bytes : Bytes} (h : encodeChar c = some bytes)
    (rest : Bytes) : decode (bytes ++ rest) = (decode rest).map (c :: ·) := by
  have hc : c.val < 0x110000 := c.isLt
  rw [encodeChar] at h
  dsimp only at h
  split at h
  · obtain rfl := Option.some.inj h
    rw [List.singleton_append, decode_ascii (by rw [Fin.val_ofNat]; omega)]
    refine congrArg (fun c => (decode rest).map (c :: ·)) (Fin.ext ?_)
    simp only [Fin.val_ofNat]
    omega
  split at h
  · obtain rfl := Option.some.inj h
    refine decode_two ?_ rest
    rw [twoBytes, Option.ite_none_right_eq_some, Option.some.injEq, Fin.ext_iff]
    simp only [IsTail, Fin.val_ofNat]
    omega
  split at h
  · cases h
  rename_i hsurrogate
  split at h
  · obtain rfl := Option.some.inj h
    refine decode_three ?_ rest
    rw [threeBytes, Option.ite_none_right_eq_some, Option.some.injEq, Fin.ext_iff]
    simp only [IsTail, IsSurrogate, Fin.val_ofNat] at hsurrogate ⊢
    omega
  · obtain rfl := Option.some.inj h
    refine decode_four ?_ rest
    rw [fourBytes, Option.ite_none_right_eq_some, Option.some.injEq, Fin.ext_iff]
    simp only [IsTail, Fin.val_ofNat]
    simp (disch := omega) only [Nat.mod_eq_of_lt, Nat.add_sub_cancel_left]
    omega

/-- **What is written is read back.** -/
theorem decode_encode : ∀ {text : PyStr} {bytes : Bytes}, encode text = some bytes →
    decode bytes = some text
  | [], bytes, h => by
    obtain rfl := Option.some.inj h
    rfl
  | c :: rest, bytes, h => by
    rw [encode] at h
    cases hc : encodeChar c with
    | none => simp [hc] at h
    | some first =>
      cases hrest : encode rest with
      | none => simp [hc, hrest] at h
      | some others =>
        obtain rfl : first ++ others = bytes := by simpa [hc, hrest] using h
        rw [decode_encodeChar hc, decode_encode hrest, Option.map_some]

/-! ## Decoded texts -/

theorem not_isSurrogate_of_twoBytes {b₀ b₁ : Byte} {c : CodePoint} (h : twoBytes b₀ b₁ = some c) :
    ¬ IsSurrogate c := by
  rw [twoBytes, Option.ite_none_right_eq_some, Option.some.injEq] at h
  obtain ⟨⟨-, hlead, htail⟩, rfl⟩ := h
  rw [IsTail] at htail
  simp only [IsSurrogate, Fin.val_ofNat]
  omega

theorem not_isSurrogate_of_fourBytes {b₀ b₁ b₂ b₃ : Byte} {c : CodePoint}
    (h : fourBytes b₀ b₁ b₂ b₃ = some c) : ¬ IsSurrogate c := by
  rw [fourBytes, Option.ite_none_right_eq_some, Option.some.injEq] at h
  obtain ⟨⟨-, -, -, -, -, hlow, hhigh⟩, rfl⟩ := h
  rw [IsSurrogate, Fin.val_ofNat, Nat.mod_eq_of_lt hhigh]
  omega

theorem forall_not_isSurrogate_cons {c : CodePoint} {rest : Option PyStr} {text : PyStr}
    (hc : ¬ IsSurrogate c) (hrest : ∀ {text}, rest = some text → ∀ d ∈ text, ¬ IsSurrogate d)
    (h : rest.map (c :: ·) = some text) : ∀ d ∈ text, ¬ IsSurrogate d := by
  obtain ⟨tail, htail, rfl⟩ := Option.map_eq_some_iff.mp h
  exact List.forall_mem_cons.mpr ⟨hc, hrest htail⟩

/-- **No surrogate is decoded.** -/
theorem not_isSurrogate_of_decode {bytes : Bytes} {text : PyStr} (h : decode bytes = some text) :
    ∀ c ∈ text, ¬ IsSurrogate c := by
  fun_induction decode bytes generalizing text with
  | case1 =>
    obtain rfl := Option.some.inj h
    exact fun _ hc => absurd hc List.not_mem_nil
  | case2 b₀ rest hascii ih =>
    refine forall_not_isSurrogate_cons ?_ ih h
    rw [IsSurrogate, Fin.val_ofNat]
    omega
  | case4 b₀ _ b₁ rest c htwo ih =>
    exact forall_not_isSurrogate_cons (not_isSurrogate_of_twoBytes htwo) ih h
  | case6 b₀ _ b₁ _ b₂ rest c hthree ih =>
    rw [threeBytes, Option.ite_none_right_eq_some] at hthree
    obtain ⟨⟨-, -, -, -, -, hc⟩, hthree⟩ := hthree
    exact forall_not_isSurrogate_cons (Option.some.inj hthree ▸ hc) ih h
  | case8 b₀ _ b₁ _ b₂ _ b₃ rest c hfour ih =>
    exact forall_not_isSurrogate_cons (not_isSurrogate_of_fourBytes hfour) ih h
  | case3 | case5 | case7 | case9 => cases h

theorem encodeChar_isSome_iff {c : CodePoint} : (encodeChar c).isSome = true ↔ ¬ IsSurrogate c := by
  have hle : IsSurrogate c → 0xD800 ≤ c.val := And.left
  unfold encodeChar
  dsimp only
  split_ifs with h₁ h₂ h₃ h₄
  · exact iff_of_true rfl fun h => by have := hle h; omega
  · exact iff_of_true rfl fun h => by have := hle h; omega
  · exact iff_of_false Bool.false_ne_true (not_not.mpr h₃)
  · exact iff_of_true rfl h₃
  · exact iff_of_true rfl h₃

/-- **What can be encoded.** -/
theorem encode_isSome_iff {text : PyStr} :
    (encode text).isSome = true ↔ ∀ c ∈ text, ¬ IsSurrogate c := by
  induction text with
  | nil => simp [encode]
  | cons c rest ih =>
    rw [List.forall_mem_cons, ← ih, ← encodeChar_isSome_iff, encode]
    rcases encodeChar c with - | bytes
    · simp
    · rcases encode rest with - | tail <;> simp

end Utf8

end Tile
