import Mathlib.Data.List.Sort
import Tile.Text.PyStr

/-!
# Tools/Edit — the edit tool, from a file's text to the text written back

A request is a list of replacements, matched against the original text: exactly, in character space,
or, when some text has no exact match, as windows of lines that are equal once normalized.  Unicode
NFKC normalization is the parameter `nfkc`.
-/

namespace Tile

open PyStr

/-- A single exact text replacement requested by the model. -/
structure EditReplacement where
  oldText : PyStr
  newText : PyStr
  deriving DecidableEq

/-- A validated character replacement span in the original content. -/
structure MatchedSpan where
  editIndex : Nat
  start : Nat
  stop : Nat
  replacement : PyStr
  deriving DecidableEq

/-- Content before and after applying validated replacements. -/
structure ReplacementApplication where
  baseContent : PyStr
  newContent : PyStr
  deriving DecidableEq

/-- Why a request is rejected.  `notFound` is the error the fallback catches. -/
inductive EditError where
  | emptyOldText (path : String) (editIndex totalEdits : Nat)
  | notFound (path : String) (editIndex totalEdits : Nat)
  | duplicate (path : String) (editIndex totalEdits occurrences : Nat)
  | overlap (firstIndex secondIndex : Nat) (path : String)
  | noChange (path : String) (totalEdits : Nat)
  deriving Repr, DecidableEq

/-- The text that each rejection is raised with; one edit is not numbered. -/
def EditError.message : EditError → String
  | .emptyOldText path editIndex totalEdits =>
    if totalEdits = 1 then s!"old_text must not be empty in {path}."
    else s!"edits[{editIndex}].old_text must not be empty in {path}."
  | .notFound path editIndex totalEdits =>
    if totalEdits = 1 then
      s!"Could not find the exact text in {path}. The old text must match exactly including all " ++
        s!"whitespace and newlines. Near matches that differ in quotes, dashes, or whitespace " ++
        s!"are only found when the old text covers whole lines."
    else
      s!"Could not find edits[{editIndex}] in {path}. The old_text must match exactly including " ++
        s!"all whitespace and newlines. Near matches that differ in quotes, dashes, or " ++
        s!"whitespace are only found when old_text covers whole lines."
  | .duplicate path editIndex totalEdits occurrences =>
    if totalEdits = 1 then
      s!"Found {occurrences} occurrences of the text in {path}. The text must be unique. Please " ++
        s!"provide more context to make it unique."
    else
      s!"Found {occurrences} occurrences of edits[{editIndex}] in {path}. Each old_text must be " ++
        s!"unique. Please provide more context to make it unique."
  | .overlap firstIndex secondIndex path =>
    s!"edits[{firstIndex}] and edits[{secondIndex}] overlap in {path}. Merge them into one edit " ++
      s!"or target disjoint regions."
  | .noChange path totalEdits =>
    if totalEdits = 1 then
      s!"No changes made to {path}. The replacement produced identical content."
    else s!"No changes made to {path}. The replacements produced identical content."

/-! ## Text helpers -/

/-- The mark that UTF-8 text may begin with. -/
def BOM : PyStr := [0xFEFF]

/-- The line endings an edited file may be written with. -/
inductive LineEnding where
  | lf | crlf
  deriving Repr, DecidableEq

/-- Normalize CRLF and CR line endings to LF. -/
def normalizeToLf (content : PyStr) : PyStr := replace [cr] [lf] (replace [cr, lf] [lf] content)

/-- Restore LF-normalized content to the original line-ending style. -/
def restoreLineEndings (content : PyStr) : LineEnding → PyStr
  | .crlf => replace [lf] [cr, lf] content
  | .lf => content

/-- Detect whether the first line ending is CRLF or LF. -/
def detectLineEnding (content : PyStr) : LineEnding :=
  match find [lf] content, find [cr, lf] content with
  | none, _ | _, none => .lf
  | some lfIndex, some crlfIndex => if crlfIndex < lfIndex then .crlf else .lf

/-- Remove and return a leading UTF-8 BOM marker when present. -/
def stripBom (content : PyStr) : PyStr × PyStr :=
  if BOM.isPrefixOf content then (BOM, content.drop 1) else ([], content)

/-- Split text into lines that each keep their own trailing newline. -/
def terminatedLines (text : PyStr) : List PyStr :=
  let parts := split lf text
  parts.dropLast.map (· ++ [lf]) ++ (if parts.getLastD [] ≠ [] then [parts.getLastD []] else [])

/-- `SMART_SINGLE_QUOTES`. -/
def smartSingleQuote (c : CodePoint) : Bool := 0x2018 ≤ c && c ≤ 0x201B

/-- `SMART_DOUBLE_QUOTES`. -/
def smartDoubleQuote (c : CodePoint) : Bool := 0x201C ≤ c && c ≤ 0x201F

/-- `UNICODE_DASHES`. -/
def unicodeDash (c : CodePoint) : Bool := (0x2010 ≤ c && c ≤ 0x2015) || c == 0x2212

/-- `FUZZY_UNICODE_SPACES`. -/
def fuzzyUnicodeSpace (c : CodePoint) : Bool :=
  c == 0xA0 || (0x2002 ≤ c && c ≤ 0x200A) || c == 0x202F || c == 0x205F || c == 0x3000

/-- Replace every character of a class by one character. -/
def substitute (matched : CodePoint → Bool) (replacement : CodePoint) (text : PyStr) : PyStr :=
  text.map fun c => if matched c then replacement else c

/-- Strip trailing whitespace from every line. -/
def stripTrailingLineWhitespace (text : PyStr) : PyStr := join [lf] ((split lf text).map rstrip)

/-- Normalize text for fallback matching. -/
def normalizeForFuzzyMatch (nfkc : PyStr → PyStr) (text : PyStr) : PyStr :=
  substitute fuzzyUnicodeSpace 0x20 <|
    substitute unicodeDash 0x2D <|
      substitute smartDoubleQuote 0x22 <|
        substitute smartSingleQuote 0x27 <|
          stripTrailingLineWhitespace (nfkc text)

/-! ## Exact matching -/

/-- The remaining turns of the search loop, from the offset just found. -/
def textStartsFrom (content oldText : PyStr) : (fuel : Nat) → Option Nat → List Nat
  | 0, _ | _, none => []
  | fuel + 1, some offset =>
    offset :: textStartsFrom content oldText fuel
      (findFrom oldText content (offset + oldText.length))

/-- Non-overlapping character offsets where the old text occurs.  Each turn moves at least one
character on, so the loop is over before it runs out of turns. -/
def findTextStarts (content oldText : PyStr) : List Nat :=
  textStartsFrom content oldText (content.length + 1) (find oldText content)

/-- Return the single match start or raise a lookup error. -/
def requireUniqueMatch (starts : List Nat) (path : String) (editIndex totalEdits : Nat) :
    Except EditError Nat :=
  match starts with
  | [] => .error (.notFound path editIndex totalEdits)
  | [start] => .ok start
  | _ :: _ :: _ => .error (.duplicate path editIndex totalEdits starts.length)

/-- Reject overlapping spans, given in the order of their starts. -/
def rejectOverlap (path : String) : List MatchedSpan → Except EditError Unit
  | previous :: current :: rest =>
    if previous.stop > current.start then
      .error (.overlap previous.editIndex current.editIndex path)
    else rejectOverlap path (current :: rest)
  | [_] | [] => .ok ()

/-- Reject overlapping replacement spans. -/
def validateNonOverlapping (spans : List MatchedSpan) (path : String) : Except EditError Unit :=
  rejectOverlap path (spans.insertionSort (·.start ≤ ·.start))

/-- One span for every replacement, then the overlap check: the shape of both matchers. -/
def matchSpans (spanOf : Nat → EditReplacement → Except EditError MatchedSpan)
    (replacements : List EditReplacement) (path : String) :
    Except EditError (List MatchedSpan) := do
  let spans ← replacements.zipIdx.mapM fun (replacement, index) => spanOf index replacement
  validateNonOverlapping spans path
  return spans

/-- The span of one replacement, as a text that occurs once. -/
def exactSpan (content : PyStr) (path : String) (totalEdits index : Nat)
    (replacement : EditReplacement) : Except EditError MatchedSpan := do
  let oldText := normalizeToLf replacement.oldText
  let starts := findTextStarts content oldText
  let start ← requireUniqueMatch starts path index totalEdits
  return {
    editIndex := index
    start := start
    stop := start + oldText.length
    replacement := normalizeToLf replacement.newText }

/-- Find a unique character span for every requested replacement. -/
def matchExactSpans (content : PyStr) (replacements : List EditReplacement) (path : String) :
    Except EditError (List MatchedSpan) :=
  matchSpans (exactSpan content path replacements.length) replacements path

/-! ## Fuzzy matching -/

/-- An old line without a newline also matches a terminated file line. -/
def lastWindowLineMatches (fileLine oldLine : PyStr) : Bool :=
  if endsWithLf oldLine then fileLine == oldLine
  else fileLine == oldLine || fileLine == oldLine ++ [lf]

/-- Whether the window matches the lines starting at one index. -/
def windowMatchesAt (normalizedLines window : List PyStr) (start : Nat) : Bool :=
  let head := window.dropLast
  (normalizedLines.drop start).take head.length == head &&
    lastWindowLineMatches (normalizedLines.getD (start + head.length) []) (window.getLastD [])

/-- Start indexes where the window matches consecutive lines. -/
def findWindowStarts (normalizedLines window : List PyStr) : List Nat :=
  (List.range (normalizedLines.length + 1 - window.length)).filter
    (windowMatchesAt normalizedLines window)

/-- The character offset where a line starts. -/
def lineStartOffset (lines : List PyStr) (line : Nat) : Nat := (lines.take line).flatten.length

/-- Map a matched line window to its character span in the content. -/
def windowCharSpan (originalLines : List PyStr) (startLine lastLine : Nat) (oldTerminated : Bool) :
    Nat × Nat :=
  let line := originalLines.getD lastLine []
  let stop := lineStartOffset originalLines lastLine + line.length
  (lineStartOffset originalLines startLine,
    if !oldTerminated && endsWithLf line then stop - 1 else stop)

/-- The span of one replacement, as a window of whole lines that matches once. -/
def fuzzySpan (nfkc : PyStr → PyStr) (content : PyStr) (path : String) (totalEdits index : Nat)
    (replacement : EditReplacement) : Except EditError MatchedSpan := do
  let originalLines := terminatedLines content
  let normalizedLines := originalLines.map (normalizeForFuzzyMatch nfkc)
  let window := (terminatedLines (normalizeToLf replacement.oldText)).map
    (normalizeForFuzzyMatch nfkc)
  let starts := findWindowStarts normalizedLines window
  let startLine ← requireUniqueMatch starts path index totalEdits
  let (start, stop) := windowCharSpan originalLines startLine (startLine + window.length - 1)
    (endsWithLf (window.getLastD []))
  return { editIndex := index, start, stop, replacement := normalizeToLf replacement.newText }

/-- Find a unique fuzzy-normalized line window for every requested replacement. -/
def matchFuzzySpans (nfkc : PyStr → PyStr) (content : PyStr) (replacements : List EditReplacement)
    (path : String) : Except EditError (List MatchedSpan) :=
  matchSpans (fuzzySpan nfkc content path replacements.length) replacements path

/-! ## Applying a request -/

/-- Apply character spans in reverse order so earlier offsets stay stable. -/
def spliceTextSpans (content : PyStr) (spans : List MatchedSpan) : PyStr :=
  (spans.insertionSort (fun a b => b.start ≤ a.start)).foldl
    (fun result span => result.take span.start ++ span.replacement ++ result.drop span.stop) content

/-- Reject no-op replacements and pair original with edited content. -/
def buildApplication (content newContent : PyStr) (totalEdits : Nat) (path : String) :
    Except EditError ReplacementApplication :=
  if content = newContent then .error (.noChange path totalEdits)
  else .ok { baseContent := content, newContent }

/-- Apply replacements matched exactly in character space. -/
def applyExactReplacements (content : PyStr) (replacements : List EditReplacement)
    (path : String) : Except EditError ReplacementApplication := do
  let spans ← matchExactSpans content replacements path
  buildApplication content (spliceTextSpans content spans) replacements.length path

/-- Apply replacements matched as fuzzy-normalized whole lines. -/
def applyFuzzyReplacements (nfkc : PyStr → PyStr) (content : PyStr)
    (replacements : List EditReplacement) (path : String) :
    Except EditError ReplacementApplication := do
  let spans ← matchFuzzySpans nfkc content replacements path
  buildApplication content (spliceTextSpans content spans) replacements.length path

/-- Reject empty `old_text` values. -/
def validateNonEmptyOldText (replacements : List EditReplacement) (path : String) :
    Except EditError Unit :=
  match replacements.zipIdx.find? fun (replacement, _) => replacement.oldText = [] with
  | none => .ok ()
  | some (_, index) => .error (.emptyOldText path index replacements.length)

/-- Apply exact replacements, then retry fuzzy whole-line matching if needed. -/
def applyReplacementsWithFallback (nfkc : PyStr → PyStr) (content : PyStr)
    (replacements : List EditReplacement) (path : String) :
    Except EditError ReplacementApplication := do
  validateNonEmptyOldText replacements path
  match applyExactReplacements content replacements path with
  | .error (.notFound _ _ _) => applyFuzzyReplacements nfkc content replacements path
  | result => result

/-! ## Loading and restoring a file -/

/-- File content split into mutation metadata and editable text. -/
structure LoadedFile where
  bom : PyStr
  content : PyStr
  lineEnding : LineEnding
  deriving DecidableEq

/-- The text part of `_load_file`. -/
def loadText (rawContent : PyStr) : LoadedFile :=
  let (bom, content) := stripBom rawContent
  { bom, content := normalizeToLf content, lineEnding := detectLineEnding content }

/-- The text part of `_write_loaded_file`: edited content with its BOM and line endings back. -/
def restoredText (loadedFile : LoadedFile) (content : PyStr) : PyStr :=
  loadedFile.bom ++ restoreLineEndings content loadedFile.lineEnding

/-- The text an edit of a file with this text writes back. -/
def editedText (nfkc : PyStr → PyStr) (rawContent : PyStr) (replacements : List EditReplacement)
    (path : String) : Except EditError PyStr := do
  let loadedFile := loadText rawContent
  let application ← applyReplacementsWithFallback nfkc loadedFile.content replacements path
  return restoredText loadedFile application.newContent

end Tile
