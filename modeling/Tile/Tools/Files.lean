import Tile.Library.Effect
import Tile.Text.Utf8
import Tile.Tools.Edit

/-!
# Tools/Files — the edit and write tools on a file

The state is what the path names: the bytes of a file, or no file.  Each operating-system call a
tool makes gets an answer that the tool does not control.  Opening with mode `w` truncates; the text
is encoded when it is written.  An error of a tool **may leave the file truncated**
(`failed_request_leavesFile_iff`): nothing undoes the opening.
-/

namespace Tile

/-- Why a call on a file fails. -/
inductive FileError where
  | os (message : String)
  | decoding
  | encoding
  | edit (error : EditError)
  deriving DecidableEq

/-- What the operating system answers during one call.  A write to the opened file fails with some
number of bytes already in the file. -/
structure OsAnswers where
  /-- The resolved path of a request's path. -/
  resolve : String → Except String String := .ok
  makeParents : Except String Unit := .ok ()
  reading : Except String Unit := .ok ()
  openForWriting : Except String Unit := .ok ()
  writing : Except (Nat × String) Unit := .ok ()

/-- A program over one file. -/
abbrev FileAccess := Effect (Option Bytes) FileError

/-- Raise the operating system's error, if it answers with one. -/
def osCall {α : Type} (answer : Except String α) : FileAccess α :=
  Effect.lift fun _ => answer.mapError .os

/-- Read UTF-8 text without newline translation. -/
def readText (os : OsAnswers) : FileAccess PyStr := do
  osCall os.reading
  Effect.lift fun
    | none => .error (.os "No such file or directory")
    | some bytes => match Utf8.decode bytes with
      | none => .error .decoding
      | some text => .ok text

/-- Write UTF-8 text without newline translation. -/
def writeText (os : OsAnswers) (content : PyStr) : FileAccess Unit := do
  osCall os.openForWriting
  Effect.modify fun _ => some []
  match Utf8.encode content with
  | none => Effect.raise .encoding
  | some bytes => match os.writing with
    | .ok _ => Effect.modify fun _ => some bytes
    | .error (landed, message) => do
      Effect.modify fun _ => some (bytes.take landed)
      Effect.raise (.os message)

/-- Successful edit execution details. -/
structure EditExecutionResult where
  replacementCount : Nat
  diff : PyStr
  deriving DecidableEq

/-- The model-visible text of a result, and the diff of an edit. -/
structure FileToolResult where
  text : String
  diff : Option PyStr := none
  deriving DecidableEq

section Tools

variable (nfkc : PyStr → PyStr) (unifiedDiff : PyStr → PyStr → String → PyStr) (os : OsAnswers)

/-- Read, edit, and write a UTF-8 text file. -/
def editFile (replacements : List EditReplacement) (displayPath : String) :
    FileAccess EditExecutionResult := do
  let loadedFile := loadText (← readText os)
  let application ← Effect.lift fun _ =>
    (applyReplacementsWithFallback nfkc loadedFile.content replacements displayPath).mapError .edit
  writeText os (restoredText loadedFile application.newContent)
  return {
    replacementCount := replacements.length
    diff := unifiedDiff application.baseContent application.newContent displayPath }

/-- The edit tool. -/
def Edit.fn (path : String) (replacements : List EditReplacement) : FileAccess FileToolResult := do
  let _resolvedPath ← osCall (os.resolve path)
  let result ← editFile nfkc unifiedDiff os replacements path
  return {
    text := s!"Successfully replaced {result.replacementCount} block(s) in {path}."
    diff := some result.diff }

/-- Create parent directories and write UTF-8 content to a file. -/
def writeFile (content : PyStr) : FileAccess Nat := do
  osCall os.makeParents
  writeText os content
  return ((Utf8.encode content).getD []).length

/-- The write tool. -/
def Write.fn (path : String) (content : PyStr) : FileAccess FileToolResult := do
  let resolvedPath ← osCall (os.resolve path)
  let bytesWritten ← writeFile os content
  return { text := s!"Successfully wrote {bytesWritten} bytes to {resolvedPath}" }

/-- A call of one of the two tools that write files. -/
inductive FileRequest where
  | edit (path : String) (replacements : List EditReplacement)
  | write (path : String) (content : PyStr)

def FileRequest.run : FileRequest → FileAccess FileToolResult
  | .edit path replacements => Edit.fn nfkc unifiedDiff os path replacements
  | .write path content => Write.fn os path content

/-! ## The text a request sets out to write -/

/-- The text a request on a file with these bytes opens the file to write, if it gets that far. -/
def FileRequest.newText? (bytes : Bytes) : FileRequest → Option PyStr
  | .edit path replacements => match os.resolve path, os.reading, Utf8.decode bytes with
    | .ok _, .ok _, some raw => (editedText nfkc raw replacements path).toOption
    | _, _, _ => none
  | .write path content => match os.resolve path, os.makeParents with
    | .ok _, .ok _ => some content
    | _, _ => none

/-- The bytes that reach the opened file. -/
def OsAnswers.landed (content : PyStr) : Bytes :=
  match Utf8.encode content, os.writing with
  | none, _ => []
  | some bytes, .ok _ => bytes
  | some bytes, .error (landed, _) => bytes.take landed

/-- The write to the opened file succeeds. -/
def OsAnswers.Completes (content : PyStr) : Prop :=
  (Utf8.encode content).isSome ∧ os.writing.isOk

end Tools

section Writes

variable {os : OsAnswers} {content : PyStr}

@[simp] theorem osCall_ok {α : Type} (a : α) (file : Option Bytes) :
    osCall (.ok a) file = (.ok a, file) := rfl

@[simp] theorem osCall_error {α : Type} (message : String) (file : Option Bytes) :
    osCall (.error message : Except String α) file = (.error (.os message), file) := rfl

theorem writeText_of_not_opened {message : String} (h : os.openForWriting = .error message)
    (file : Option Bytes) : writeText os content file = (.error (.os message), file) := by
  rw [writeText, h, Effect.bind_of_error (osCall_error message file)]

/-- Once the file is open, its old bytes are gone. -/
theorem writeText_of_opened (h : os.openForWriting = .ok ()) (file : Option Bytes) :
    (writeText os content file).2 = some (os.landed content) ∧
      ((∃ error, (writeText os content file).1 = .error error) ↔ ¬ os.Completes content) := by
  rw [writeText, h, Effect.bind_of_ok (osCall_ok () file),
    Effect.bind_of_ok (Effect.modify_apply ..), OsAnswers.landed, OsAnswers.Completes]
  rcases Utf8.encode content with - | bytes
  · simp
  · rcases os.writing with ⟨landed, message⟩ | -
    · simp [Effect.bind_of_ok (Effect.modify_apply ..), Except.isOk, Except.toBool]
    · simp [Except.isOk, Except.toBool]

theorem readText_eq (bytes : Bytes) :
    readText os (some bytes) = (match os.reading, Utf8.decode bytes with
      | .ok _, some raw => .ok raw
      | .ok _, none => .error .decoding
      | .error message, _ => .error (.os message), some bytes) := by
  rw [readText]
  rcases os.reading with message | -
  · rw [Effect.bind_of_error (osCall_error ..)]
  · rw [Effect.bind_of_ok (osCall_ok _ _), Effect.lift_apply]
    cases h : Utf8.decode bytes <;> simp only [h]

/-- Replacing the value of a program changes neither where it stops nor its state. -/
theorem bind_pure_apply {α β : Type} (m : FileAccess α) (f : α → β) (file : Option Bytes) :
    (m >>= fun a => pure (f a)) file = ((m file).1.map f, (m file).2) := by
  rcases hm : m file with ⟨error | a, file'⟩
  · rw [Effect.bind_of_error hm]
    rfl
  · rw [Effect.bind_of_ok hm]
    rfl

end Writes

/-! ## Failed requests -/

section Failures

variable (nfkc : PyStr → PyStr) (unifiedDiff : PyStr → PyStr → String → PyStr) (os : OsAnswers)
  (bytes : Bytes)

/-- **What a request does to an existing file**: it fails on the file as it was, or the outcome is
that of one write of its new text. -/
theorem FileRequest.run_eq (request : FileRequest) :
    (request.newText? nfkc os bytes = none ∧
      ∃ error, request.run nfkc unifiedDiff os (some bytes) = (.error error, some bytes)) ∨
    ∃ text result, request.newText? nfkc os bytes = some text ∧
      request.run nfkc unifiedDiff os (some bytes) =
        ((writeText os text (some bytes)).1.map fun _ => result,
          (writeText os text (some bytes)).2) := by
  cases request with
  | edit path replacements =>
    rw [newText?, run, Edit.fn]
    rcases os.resolve path with message | resolved
    · exact .inl ⟨rfl, _, Effect.bind_of_error (osCall_error ..) _⟩
    rw [Effect.bind_of_ok (osCall_ok _ _), bind_pure_apply, editFile]
    have hread := @readText_eq os bytes
    rcases hreading : os.reading with message | _
    · rw [hreading] at hread
      rw [Effect.bind_of_error hread]
      exact .inl ⟨rfl, _, rfl⟩
    rcases hdecode : Utf8.decode bytes with - | raw
    · rw [hreading, hdecode] at hread
      rw [Effect.bind_of_error hread]
      exact .inl ⟨rfl, _, rfl⟩
    rw [hreading, hdecode] at hread
    rw [Effect.bind_of_ok hread]
    rcases happlied : applyReplacementsWithFallback nfkc (loadText raw).content replacements path
      with error | application
    · have hraise : (Effect.lift fun _ => Except.mapError FileError.edit (.error error) :
          FileAccess ReplacementApplication) (some bytes)
            = (.error (.edit error), some bytes) := rfl
      rw [Effect.bind_of_error hraise]
      exact .inl ⟨by simp only [editedText, happlied]; rfl, _, rfl⟩
    · have hreturn : (Effect.lift fun _ => Except.mapError FileError.edit (.ok application))
          (some bytes) = (.ok application, some bytes) := rfl
      rw [Effect.bind_of_ok hreturn, bind_pure_apply]
      exact .inr ⟨restoredText (loadText raw) application.newContent, _,
        by simp only [editedText, happlied]; rfl, by rcases (writeText os _ _).1 with _ | _ <;> rfl⟩
  | write path content =>
    rw [newText?, run, Write.fn]
    rcases os.resolve path with message | resolved
    · exact .inl ⟨rfl, _, Effect.bind_of_error (osCall_error ..) _⟩
    rw [Effect.bind_of_ok (osCall_ok _ _), bind_pure_apply, writeFile]
    rcases os.makeParents with message | -
    · rw [Effect.bind_of_error (osCall_error ..)]
      exact .inl ⟨rfl, _, rfl⟩
    rw [Effect.bind_of_ok (osCall_ok _ _), bind_pure_apply]
    exact .inr ⟨content, _, rfl, by rcases (writeText os _ _).1 with _ | _ <;> rfl⟩

theorem map_eq_error_iff {α β : Type} {e : Except FileError α} {f : α → β} :
    (∃ error, e.map f = .error error) ↔ ∃ error, e = .error error := by
  cases e <;> simp [Except.map]

/-- A call that ends in an error leaves an existing file as it was. -/
def FileRequest.LeavesFile (request : FileRequest) : Prop :=
  ∀ error, (request.run nfkc unifiedDiff os (some bytes)).1 = .error error →
    (request.run nfkc unifiedDiff os (some bytes)).2 = some bytes

/-- **When a failed edit or write leaves the file alone**: exactly when the request does not get to
open the file for writing, or the write then succeeds, or the bytes that reach the file before the
failure happen to be the old ones.  An error after the opening has truncated the file. -/
theorem failed_request_leavesFile_iff (request : FileRequest) :
    request.LeavesFile nfkc unifiedDiff os bytes ↔
      ∀ text, request.newText? nfkc os bytes = some text → os.openForWriting = .ok () →
        os.Completes text ∨ os.landed text = bytes := by
  rw [FileRequest.LeavesFile]
  rcases request.run_eq nfkc unifiedDiff os bytes with
    ⟨hnone, error, hrun⟩ | ⟨text, result, hsome, hrun⟩
  · rw [hrun, hnone]
    simp
  · rw [hrun, hsome]
    rcases hopen : os.openForWriting with message | ⟨⟩
    · simp [writeText_of_not_opened hopen]
    · obtain ⟨hfile, hfails⟩ := @writeText_of_opened os text hopen (some bytes)
      rw [← exists_imp, map_eq_error_iff, hfails, hfile, Option.some.injEq, ← or_iff_not_imp_left]
      exact ⟨fun h _ htext _ => Option.some.inj htext ▸ h, fun h => h text rfl rfl⟩

end Failures

/-- Replacing `a` by an unpaired surrogate in the file `a` raises an encoding error, and empties the
file. -/
theorem failed_edit_truncates :
    let request := FileRequest.edit "a.txt" [⟨.ofString "a", [0xD800]⟩]
    request.run id (fun _ _ _ => []) {} (some [0x61]) = (.error .encoding, some []) ∧
      ¬ request.LeavesFile id (fun _ _ _ => []) {} [0x61] := by
  have hrun : (FileRequest.edit "a.txt" [⟨.ofString "a", [0xD800]⟩]).run id (fun _ _ _ => []) {}
      (some [0x61]) = (.error .encoding, some []) := by decide +kernel
  refine ⟨hrun, fun hleaves => ?_⟩
  have hsame := hleaves .encoding (congrArg Prod.fst hrun)
  rw [hrun] at hsame
  cases hsame

end Tile
