import Tile.Text.Scalars

/-!
# Text/Replacing — the incremental UTF-8 decoder with replacement

The decoder holds the bytes of a character that is not complete yet.  A byte that cannot continue
them replaces them by one `U+FFFD`, and is then read afresh; so does the end of the input.  Read
byte by byte, **a decoder cannot tell how its input was cut** (`decodeChunk_append`).
-/

namespace Tile

namespace Utf8

/-- `U+FFFD`. -/
def replacementChar : Char := Char.ofNat 0xFFFD

/-- How many bytes a character has that starts with this byte; none does for 0. -/
def sequenceLength (lead : Byte) : Nat :=
  if lead.val < 0x80 then 1
  else if lead.val < 0xC2 then 0
  else if lead.val < 0xE0 then 2
  else if lead.val < 0xF0 then 3
  else if lead.val < 0xF5 then 4
  else 0

/-- The byte can follow these bytes: a tail byte, unless the character would be overlong, a
surrogate or out of range. -/
def Continues (pending : Bytes) (b : Byte) : Prop :=
  IsTail b ∧ match pending with
    | [lead] => (lead.val = 0xE0 → 0xA0 ≤ b.val) ∧ (lead.val = 0xED → b.val < 0xA0) ∧
        (lead.val = 0xF0 → 0x90 ≤ b.val) ∧ (lead.val = 0xF4 → b.val < 0x90)
    | _ => True

instance (pending : Bytes) (b : Byte) : Decidable (Continues pending b) := by
  unfold Continues
  split <;> infer_instance

/-- The character of a complete sequence. -/
def scalar : Bytes → Char
  | [b₀] => Char.ofNat b₀.val
  | [b₀, b₁] => Char.ofNat ((b₀.val - 0xC0) * 64 + (b₁.val - 0x80))
  | [b₀, b₁, b₂] =>
    Char.ofNat ((b₀.val - 0xE0) * 4096 + (b₁.val - 0x80) * 64 + (b₂.val - 0x80))
  | [b₀, b₁, b₂, b₃] =>
    Char.ofNat ((b₀.val - 0xF0) * 262144 + (b₁.val - 0x80) * 4096 + (b₂.val - 0x80) * 64 +
      (b₃.val - 0x80))
  | _ => replacementChar

/-- Read a byte while nothing is pending. -/
def start (b : Byte) : Text × Bytes :=
  match sequenceLength b with
  | 0 => ([replacementChar], [])
  | 1 => ([scalar [b]], [])
  | _ => ([], [b])

/-- Read a byte: the text it completes, and what is pending then. -/
def feed : (pending : Bytes) → Byte → Text × Bytes
  | [], b => start b
  | lead :: tail, b =>
    let sequence := lead :: tail ++ [b]
    if Continues (lead :: tail) b then
      if sequence.length = sequenceLength lead then ([scalar sequence], []) else ([], sequence)
    else (replacementChar :: (start b).1, (start b).2)

/-- `decoder.decode(data, final=False)`. -/
def decodeChunk (pending : Bytes) : Bytes → Text × Bytes
  | [] => ([], pending)
  | b :: rest =>
    let (text, pending) := feed pending b
    let (more, pending) := decodeChunk pending rest
    (text ++ more, pending)

/-- `decoder.decode(b"", final=True)`. -/
def flush (pending : Bytes) : Text := if pending = [] then [] else [replacementChar]

/-- `data.decode("utf-8", errors="replace")`. -/
def decodeReplacing (data : Bytes) : Text :=
  (decodeChunk [] data).1 ++ flush (decodeChunk [] data).2

theorem decodeChunk_cons (pending : Bytes) (b : Byte) (rest : Bytes) :
    decodeChunk pending (b :: rest)
      = ((feed pending b).1 ++ (decodeChunk (feed pending b).2 rest).1,
          (decodeChunk (feed pending b).2 rest).2) := rfl

/-- **A decoder cannot tell how its input was cut.** -/
theorem decodeChunk_append (pending data data' : Bytes) :
    decodeChunk pending (data ++ data')
      = ((decodeChunk pending data).1 ++ (decodeChunk (decodeChunk pending data).2 data').1,
          (decodeChunk (decodeChunk pending data).2 data').2) := by
  induction data generalizing pending with
  | nil => rfl
  | cons b rest ih => simp only [List.cons_append, decodeChunk_cons, ih, List.append_assoc]

/-- A newline completes the text in front of it. -/
theorem decodeChunk_newline (pending : Bytes) :
    ∃ text, decodeChunk pending [10] = (text ++ ['\n'], []) := by
  cases pending with
  | nil => exact ⟨[], rfl⟩
  | cons lead tail =>
    have hends : ¬ Continues (lead :: tail) 10 := fun h => absurd h.1 (by decide)
    refine ⟨[replacementChar], ?_⟩
    rw [decodeChunk_cons, feed, if_neg hends]
    rfl

/-- **Bytes cut at a newline.** -/
theorem decodeReplacing_newline (data rest : Bytes) :
    ∃ text, decodeReplacing (data ++ [10]) = text ++ ['\n'] ∧
      decodeReplacing (data ++ 10 :: rest) = text ++ '\n' :: decodeReplacing rest := by
  obtain ⟨text, hnewline⟩ := decodeChunk_newline (decodeChunk [] data).2
  refine ⟨(decodeChunk [] data).1 ++ text, ?_, ?_⟩
  · rw [decodeReplacing, decodeChunk_append, hnewline]
    simp [flush]
  · rw [List.append_cons, decodeReplacing, decodeChunk_append, decodeChunk_append, hnewline]
    simp [decodeReplacing]

/-! ## Encoded texts -/

theorem decodeChunk_lead {lead : Byte} (h : 2 ≤ sequenceLength lead) (rest : Bytes) :
    decodeChunk [] (lead :: rest) = decodeChunk [lead] rest := by
  have hstart : start lead = ([], [lead]) := by
    unfold start
    split <;> simp_all
  rw [decodeChunk_cons, feed, hstart]
  rfl

theorem decodeChunk_continues {lead b : Byte} {tail : Bytes} (h : Continues (lead :: tail) b)
    (hlength : (lead :: tail ++ [b]).length < sequenceLength lead) (rest : Bytes) :
    decodeChunk (lead :: tail) (b :: rest) = decodeChunk (lead :: tail ++ [b]) rest := by
  rw [decodeChunk_cons, feed, if_pos h, if_neg hlength.ne]
  rfl

theorem decodeChunk_completes {lead b : Byte} {tail : Bytes} (h : Continues (lead :: tail) b)
    (hlength : (lead :: tail ++ [b]).length = sequenceLength lead) :
    decodeChunk (lead :: tail) [b] = ([scalar (lead :: tail ++ [b])], []) := by
  rw [decodeChunk_cons, feed, if_pos h, if_pos hlength]
  rfl

theorem ofNat_eq {c : Char} {n : Nat} (h : n = c.toNat) : Char.ofNat n = c := by
  rw [h, Char.ofNat_toNat]

/-- **A character is read back.** -/
theorem decodeChunk_encodeChar (c : Char) : decodeChunk [] (Text.encodeChar c) = ([c], []) := by
  obtain ⟨_, b, h, hb⟩ | ⟨_, _, b₀, b₁, h, h₀, h₁⟩ | ⟨_, _, _, b₀, b₁, b₂, h, h₀, h₁, h₂⟩ |
    ⟨_, _, b₀, b₁, b₂, b₃, h, h₀, h₁, h₂, h₃⟩ := Text.encodeChar_cases c
  · have hlength : sequenceLength b = 1 := if_pos (by omega)
    rw [h, decodeChunk_cons, feed, start, hlength]
    simp [decodeChunk, scalar, ofNat_eq hb]
  · have hlength : sequenceLength b₀ = 2 := by
      unfold sequenceLength
      split_ifs <;> omega
    have hsecond : Continues [b₀] b₁ := ⟨by unfold IsTail; omega, by omega⟩
    rw [h, decodeChunk_lead (by omega), decodeChunk_completes hsecond hlength.symm]
    exact congrArg (fun c => ([c], [])) (ofNat_eq (by omega))
  · have hlength : sequenceLength b₀ = 3 := by
      unfold sequenceLength
      split_ifs <;> omega
    have hsecond : Continues [b₀] b₁ := ⟨by unfold IsTail; omega, by omega⟩
    have hthird : Continues [b₀, b₁] b₂ := ⟨by unfold IsTail; omega, trivial⟩
    rw [h, decodeChunk_lead (by omega), decodeChunk_continues hsecond (by simp [hlength]),
      List.singleton_append, decodeChunk_completes hthird hlength.symm]
    exact congrArg (fun c => ([c], [])) (ofNat_eq (by omega))
  · have hlength : sequenceLength b₀ = 4 := by
      unfold sequenceLength
      split_ifs <;> omega
    have hsecond : Continues [b₀] b₁ := ⟨by unfold IsTail; omega, by omega⟩
    have hthird : Continues [b₀, b₁] b₂ := ⟨by unfold IsTail; omega, trivial⟩
    have hfourth : Continues [b₀, b₁, b₂] b₃ := ⟨by unfold IsTail; omega, trivial⟩
    rw [h, decodeChunk_lead (by omega), decodeChunk_continues hsecond (by simp [hlength]),
      List.singleton_append, decodeChunk_continues hthird (by simp [hlength]), List.cons_append,
      List.singleton_append, decodeChunk_completes hfourth hlength.symm]
    exact congrArg (fun c => ([c], [])) (ofNat_eq (by omega))

theorem decodeChunk_encode (text : Text) : decodeChunk [] text.encode = (text, []) := by
  induction text with
  | nil => rfl
  | cons c text ih =>
    rw [Text.encode_cons, decodeChunk_append, decodeChunk_encodeChar]
    simp [ih]

/-- **What is encoded is read back**, and nothing in it is replaced. -/
@[simp] theorem decodeReplacing_encode (text : Text) : decodeReplacing text.encode = text := by
  rw [decodeReplacing, decodeChunk_encode]
  exact List.append_nil text

end Utf8

end Tile
