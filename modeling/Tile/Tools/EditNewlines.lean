import Tile.Tools.Edit

/-!
# Tools/EditNewlines — what line-ending normalization does to a text

A text is a sequence of **tokens**: a CRLF pair, or one character.  Normalization turns every
terminator token into one LF (`normalizeToLf_eq`), and restoration turns every LF back into the one
style that was detected, so a position of the normalized text stands for a token of the original.
-/

namespace Tile

open PyStr

/-! ## Tokens -/

def tokens : PyStr → List PyStr
  | [] => []
  | [c] => [[c]]
  | c :: d :: rest =>
    if c = cr ∧ d = lf then [cr, lf] :: tokens rest else [c] :: tokens (d :: rest)

/-- A line terminator, of any style. -/
def IsTerminator (token : PyStr) : Prop := token = [cr, lf] ∨ token = [cr] ∨ token = [lf]

instance (token : PyStr) : Decidable (IsTerminator token) := by
  unfold IsTerminator
  infer_instance

/-- The character a token is normalized to. -/
def tokenChar (token : PyStr) : CodePoint :=
  if IsTerminator token then lf else token.headD lf

def LineEnding.text : LineEnding → PyStr
  | .lf => [Tile.lf]
  | .crlf => [cr, Tile.lf]

@[simp] theorem flatten_tokens (s : PyStr) : (tokens s).flatten = s := by
  fun_induction tokens s with
  | case1 => rfl
  | case2 c => rfl
  | case3 c d rest h ih =>
    obtain ⟨rfl, rfl⟩ := h
    simp [ih]
  | case4 c d rest h ih => simp [ih]

/-- Every token is a CRLF pair or one character. -/
theorem token_cases {s token : PyStr} (h : token ∈ tokens s) :
    token = [cr, lf] ∨ ∃ c, token = [c] := by
  fun_induction tokens s with
  | case1 => simp at h
  | case2 c => exact .inr ⟨c, List.mem_singleton.mp h⟩
  | case3 c d rest _ ih =>
    rcases List.mem_cons.mp h with rfl | h
    · exact .inl rfl
    · exact ih h
  | case4 c d rest _ ih =>
    rcases List.mem_cons.mp h with rfl | h
    · exact .inr ⟨c, rfl⟩
    · exact ih h

/-! ## Replacing -/

theorem replace_singleton (a : CodePoint) (new : PyStr) (s : PyStr) :
    replace [a] new s = s.flatMap fun c => if c = a then new else [c] := by
  rw [replace]
  induction s with
  | nil => rfl
  | cons c rest ih =>
    by_cases hc : c = a
    · simp [replaceFrom, hc, ih]
    · simp [replaceFrom, hc, Ne.symm hc, ih]

theorem replace_crlf_cons (rest : PyStr) :
    replace [cr, lf] [lf] (cr :: lf :: rest) = lf :: replace [cr, lf] [lf] rest := by
  simp [replace, replaceFrom]

theorem replace_crlf_of_not {c d : CodePoint} (h : ¬ (c = cr ∧ d = lf)) (rest : PyStr) :
    replace [cr, lf] [lf] (c :: d :: rest) = c :: replace [cr, lf] [lf] (d :: rest) := by
  have hprefix : [cr, lf].isPrefixOf (c :: d :: rest) = false := by
    simp only [List.isPrefixOf, Bool.and_eq_false_imp, beq_iff_eq]
    rintro rfl
    simpa [eq_comm] using h
  rw [replace, replaceFrom, hprefix]
  rfl

theorem tokenChar_singleton (c : CodePoint) : tokenChar [c] = if c = cr then lf else c := by
  by_cases hc : c = cr
  · subst hc
    rfl
  · by_cases hl : c = lf <;> simp [tokenChar, IsTerminator, hc, hl]

/-- **Normalization, token by token.** -/
theorem normalizeToLf_eq (s : PyStr) : normalizeToLf s = (tokens s).map tokenChar := by
  rw [normalizeToLf, replace_singleton]
  fun_induction tokens s with
  | case1 => rfl
  | case2 c =>
    rw [List.map_singleton, tokenChar_singleton]
    by_cases hc : c = cr <;> simp [replace, replaceFrom, hc]
  | case3 c d rest h ih =>
    obtain ⟨rfl, rfl⟩ := h
    rw [replace_crlf_cons, List.flatMap_cons, ih]
    rfl
  | case4 c d rest h ih =>
    rw [replace_crlf_of_not h, List.flatMap_cons, ih, List.map_cons, tokenChar_singleton]
    by_cases hc : c = cr <;> simp [hc]

theorem normalizeToLf_cons {c : CodePoint} (h : c ≠ cr) (s : PyStr) :
    normalizeToLf (c :: s) = c :: normalizeToLf s := by
  have hchar : tokenChar [c] = c := by rw [tokenChar_singleton, if_neg h]
  rw [normalizeToLf_eq, normalizeToLf_eq]
  rcases s with - | ⟨d, rest⟩
  · exact congrArg ([·]) hchar
  · rw [tokens, if_neg fun hpair => h hpair.1, List.map_cons, hchar]

theorem normalizeToLf_of_not_mem {s : PyStr} (h : cr ∉ s) : normalizeToLf s = s := by
  induction s with
  | nil => rfl
  | cons c rest ih =>
    obtain ⟨hc, hrest⟩ := not_or.mp (mt List.mem_cons.mpr h)
    rw [normalizeToLf_cons (Ne.symm hc), ih hrest]

theorem not_mem_normalizeToLf (s : PyStr) : cr ∉ normalizeToLf s := by
  rw [normalizeToLf_eq]
  intro hmem
  obtain ⟨token, htoken, hchar⟩ := List.mem_map.mp hmem
  rcases token_cases htoken with rfl | ⟨c, rfl⟩
  · exact absurd hchar (by decide)
  · rw [tokenChar_singleton] at hchar
    split at hchar
    · exact absurd hchar (by decide)
    · next hc => exact hc hchar

/-- Normalization is about newlines only. -/
theorem mem_normalizeToLf_iff {c : CodePoint} (hcr : c ≠ cr) (hlf : c ≠ lf) {s : PyStr} :
    c ∈ normalizeToLf s ↔ c ∈ s := by
  have htoken : ∀ token ∈ tokens s, tokenChar token = c ↔ c ∈ token := by
    intro token htoken
    rcases token_cases htoken with rfl | ⟨d, rfl⟩
    · refine iff_of_false (fun hc => hlf hc.symm) ?_
      simp [hcr, hlf]
    · rw [tokenChar_singleton, List.mem_singleton]
      split
      next hd => exact iff_of_false (fun hc => hlf hc.symm) fun hc => hcr (hc.trans hd)
      next => exact eq_comm
  calc c ∈ normalizeToLf s ↔ ∃ token ∈ tokens s, tokenChar token = c := by
        rw [normalizeToLf_eq, List.mem_map]
    _ ↔ ∃ token ∈ tokens s, c ∈ token := exists_congr fun token => and_congr_right (htoken token)
    _ ↔ c ∈ s := by rw [← List.mem_flatten, flatten_tokens]

theorem normalizeToLf_ne_nil {s : PyStr} (h : s ≠ []) : normalizeToLf s ≠ [] := by
  rw [normalizeToLf_eq]
  intro hnil
  have hflat := flatten_tokens s
  rw [List.map_eq_nil_iff.mp hnil] at hflat
  exact h hflat.symm

/-- **Restoration, character by character.** -/
theorem restoreLineEndings_eq (s : PyStr) (style : LineEnding) :
    restoreLineEndings s style = s.flatMap fun c => if c = lf then style.text else [c] := by
  cases style with
  | crlf => exact replace_singleton ..
  | lf =>
    have hsame : ∀ c : CodePoint, (if c = lf then LineEnding.lf.text else [c]) = [c] := fun c => by
      split
      · next hc => rw [hc]; rfl
      · rfl
    simp only [hsame, restoreLineEndings]
    simp

theorem mem_restoreLineEndings_iff {c : CodePoint} (hcr : c ≠ cr) (hlf : c ≠ lf) {s : PyStr}
    {style : LineEnding} : c ∈ restoreLineEndings s style ↔ c ∈ s := by
  have hstyle : c ∉ style.text := by cases style <;> simp [LineEnding.text, hcr, hlf]
  rw [restoreLineEndings_eq, List.mem_flatMap]
  constructor
  · rintro ⟨d, hd, hmem⟩
    split at hmem
    · exact absurd hmem hstyle
    · exact List.mem_singleton.mp hmem ▸ hd
  · exact fun hc => ⟨c, hc, by rw [if_neg hlf]; exact List.mem_singleton_self c⟩

end Tile
