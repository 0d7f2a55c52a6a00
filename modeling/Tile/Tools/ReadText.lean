import Mathlib.Data.List.Infix
import Tile.Tools.EditNewlines
import Tile.Tools.Read
import Tile.Types.Conversation

/-!
# Tools/ReadText — the text of a file that `read` shows

A file whose first bytes are those of an image is shown as one.  Any other file is decoded in text
mode: every line terminator is translated to one LF, and a byte order mark stays as a character.
So **read and edit decode a file alike, but for the mark** (`translateNewlines_eq`).
-/

namespace Tile

open PyStr

namespace Read

/-! ## Images -/

/-- How much of a file is looked at for the type of an image. -/
def IMAGE_TYPE_SNIFF_BYTES : Nat := 4100

/-- What a PNG image begins with. -/
def PNG_SIGNATURE : Bytes := [0x89, 0x50, 0x4E, 0x47, 0x0D, 0x0A, 0x1A, 0x0A]

/-- `content.find(sub)`. -/
def findBytes (sub content : Bytes) : Option Nat :=
  content.tails.findIdx? fun tail => sub.isPrefixOf tail

/-- `content[start:stop] == sub`, of a bytes literal in ASCII. -/
def holdsAt (content : Bytes) (start : Nat) (sub : String) : Bool :=
  (Text.encode sub.toList).isPrefixOf (content.drop start)

/-- Whether bytes look like a supported JPEG image. -/
def isJpeg (content : Bytes) : Bool :=
  4 ≤ content.length && [0xFF, 0xD8, 0xFF].isPrefixOf content && content[3]? != some 0xF7

/-- Whether bytes look like a PNG image. -/
def isPng (content : Bytes) : Bool :=
  16 ≤ content.length && PNG_SIGNATURE.isPrefixOf content && holdsAt content 12 "IHDR"

/-- An animation control chunk comes before the image data. -/
def isAnimatedPng (content : Bytes) : Bool :=
  match findBytes (Text.encode "acTL".toList) content,
    findBytes (Text.encode "IDAT".toList) content with
  | none, _ => false
  | some _, none => true
  | some animation, some imageData => animation < imageData

/-- Whether bytes look like a non-animated PNG image. -/
def isSupportedPng (content : Bytes) : Bool := isPng content && !isAnimatedPng content

/-- Whether bytes look like a GIF image. -/
def isGif (content : Bytes) : Bool := holdsAt content 0 "GIF"

/-- Whether bytes look like a WEBP image. -/
def isWebp (content : Bytes) : Bool :=
  12 ≤ content.length && holdsAt content 0 "RIFF" && holdsAt content 8 "WEBP"

/-- Detect supported image MIME type from leading file bytes. -/
def detectSupportedImageMimeType (data : Bytes) : Option ImageMimeType :=
  let content := data.take IMAGE_TYPE_SNIFF_BYTES
  if isJpeg content then some .jpeg
  else if isSupportedPng content then some .png
  else if isGif content then some .gif
  else if isWebp content then some .webp
  else none

/-! ## Texts -/

/-- Reading in text mode: CRLF, CR and LF all become LF. -/
def translateNewlines : PyStr → PyStr
  | [] => []
  | [c] => [if c = cr then lf else c]
  | c :: d :: rest =>
    if c = cr ∧ d = lf then lf :: translateNewlines rest
    else (if c = cr then lf else c) :: translateNewlines (d :: rest)

/-- `path.read_text(encoding="utf-8")`. -/
def execute (data : Bytes) : Option Text :=
  (Utf8.decode data).map fun raw => Text.ofPoints (translateNewlines raw)

/-- The text that `read` selects of a file from an offset on, unless it is an image, or not UTF-8,
or ends before. -/
def selectedText (data : Bytes) (offset : Option Int) : Option Text := do
  if (detectSupportedImageMimeType data).isSome then none
  else
    let content ← execute data
    let selection ← (selectContent content offset).toOption
    return selection.content

/-- **Text mode does what normalization does.** -/
theorem translateNewlines_eq (s : PyStr) : translateNewlines s = normalizeToLf s := by
  rw [normalizeToLf_eq]
  induction s using tokens.induct with
  | case1 => rfl
  | case2 c => rw [translateNewlines, tokens, List.map_singleton, tokenChar_singleton]
  | case3 c d rest h ih =>
    obtain ⟨rfl, rfl⟩ := h
    rw [translateNewlines, tokens, if_pos ⟨rfl, rfl⟩, if_pos ⟨rfl, rfl⟩, List.map_cons, ih]
    rfl
  | case4 c d rest h ih =>
    rw [translateNewlines, tokens, if_neg h, if_neg h, List.map_cons, ih, tokenChar_singleton]

theorem mem_translateNewlines {s : PyStr} {c : CodePoint} (h : c ∈ translateNewlines s) :
    c = lf ∨ c ∈ s := by
  have hchar : ∀ {d : CodePoint}, c = (if d = cr then lf else d) → c = lf ∨ c = d := fun hc => by
    split at hc
    · exact .inl hc
    · exact .inr hc
  induction s using tokens.induct with
  | case1 => exact absurd h List.not_mem_nil
  | case2 d => exact (hchar (List.mem_singleton.mp h)).imp_right List.mem_singleton.mpr
  | case3 d e rest hpair ih =>
    rw [translateNewlines, if_pos hpair, List.mem_cons] at h
    rcases h with h | h
    · exact .inl h
    · exact (ih h).imp_right fun hmem => List.mem_cons_of_mem d (List.mem_cons_of_mem e hmem)
  | case4 d e rest hpair ih =>
    rw [translateNewlines, if_neg hpair, List.mem_cons] at h
    rcases h with h | h
    · exact (hchar h).imp_right fun hc => List.mem_cons.mpr (.inl hc)
    · exact (ih h).imp_right (List.mem_cons_of_mem d)

/-- From its first line on, the whole text is selected. -/
theorem selectContent_first (content : Text) :
    selectContent content (some 1) = .ok ⟨content, 1, content.lines.length⟩ := by
  have hpos : ¬ startIndex (some 1) ≥ content.lines.length :=
    not_le.mpr (List.length_pos_of_ne_nil content.lines_ne_nil)
  have hdrop : content.lines.drop (startIndex (some 1)) = content.lines := rfl
  rw [selectContent, if_neg hpos, hdrop, Text.joinLines_lines]
  rfl

/-- **What `read` shows of a file is its text, normalized.** -/
theorem points_of_selectedText {data : Bytes} {raw : PyStr} {shown : Text}
    (hdecode : Utf8.decode data = some raw) (h : selectedText data (some 1) = some shown) :
    shown.points = normalizeToLf raw := by
  have hvalid : ∀ c ∈ translateNewlines raw, ¬ IsSurrogate c := fun c hc =>
    (mem_translateNewlines hc).elim (fun hlf => hlf ▸ by decide)
      (Utf8.not_isSurrogate_of_decode hdecode c)
  have hshown : Text.ofPoints (translateNewlines raw) = shown := by
    rw [selectedText, Option.ite_none_left_eq_some] at h
    simpa [execute, hdecode, selectContent_first, Except.toOption] using h.2
  rw [← hshown, Text.points_ofPoints hvalid, translateNewlines_eq]

end Read

end Tile
