import Mathlib.Data.Nat.Digits.Defs
import Tile.Library.Patch
import Tile.Tools.EditLines

/-!
# Tools/UnifiedDiff — the text of a unified diff, written and read

`unifiedDiff` writes what `difflib.unified_diff` writes about the hunks it found, which are the
parameter `hunksOf`: two header lines, then for each hunk its ranges and its entries, one sign and
then the line **as given**.  `readDiff` takes the lines of such a text apart again, by the lengths
its ranges name.
-/

namespace Tile

open PyStr

/-! ## Writing -/

/-- The character in front of a line. -/
def Mark.sign : Mark → CodePoint
  | .context => 32
  | .deleted => 45
  | .inserted => 43

/-- An entry as it is written: its sign, then the line as given. -/
def DiffEntry.text (entry : DiffEntry PyStr) : PyStr := entry.mark.sign :: entry.line

/-- `str(n)`. -/
def decimal (n : Nat) : PyStr := (Nat.toDigits 10 n).map fun c => Fin.ofNat 0x110000 c.toNat

/-- Convert range to the "ed" format: an empty one begins at the line just before it. -/
def formatRangeUnified (start length : Nat) : PyStr :=
  if length = 1 then decimal (start + 1)
  else if length = 0 then decimal start ++ ofString "," ++ decimal length
  else decimal (start + 1) ++ ofString "," ++ decimal length

/-- The line of the ranges. -/
def Hunk.header (hunk : Hunk PyStr) : PyStr :=
  ofString "@@ -" ++ formatRangeUnified hunk.oldStart hunk.oldLines.length ++ ofString " +"
    ++ formatRangeUnified hunk.newStart hunk.newLines.length ++ ofString " @@\n"

/-- The header and the entries of a hunk. -/
def Hunk.pieces (hunk : Hunk PyStr) : List PyStr := hunk.header :: hunk.entries.map DiffEntry.text

/-- `difflib.unified_diff(a, b, fromfile, tofile)`. -/
def unifiedDiff (hunksOf : List PyStr → List PyStr → List (Hunk PyStr)) (a b : List PyStr)
    (fromfile tofile : PyStr) : List PyStr :=
  match hunksOf a b with
  | [] => []
  | hunk :: hunks =>
    (ofString "--- " ++ fromfile ++ [lf]) :: (ofString "+++ " ++ tofile ++ [lf]) ::
      (hunk :: hunks).flatMap Hunk.pieces

/-! ## Reading -/

/-- A decimal digit. -/
def isDigit (c : CodePoint) : Bool := 48 ≤ c && c ≤ 57

/-- The number at the start of a text, and what is behind it. -/
def readNumber (text : PyStr) : Option (Nat × PyStr) :=
  match text.takeWhile isDigit with
  | [] => none
  | digits => some (digits.foldl (fun n c => 10 * n + (c.val - 48)) 0, text.dropWhile isDigit)

/-- What is behind a text that has to come next. -/
def readLiteral (literal text : PyStr) : Option PyStr :=
  if literal.isPrefixOf text then some (text.drop literal.length) else none

/-- The lines in front of a range and the lines in it. -/
def readRange (text : PyStr) : Option ((Nat × Nat) × PyStr) := do
  let (first, rest) ← readNumber text
  match readLiteral (ofString ",") rest with
  | none => some ((first - 1, 1), rest)
  | some rest =>
    let (length, rest) ← readNumber rest
    some ((if length = 0 then first else first - 1, length), rest)

/-- The old range and the new range of a hunk. -/
def readHeader (line : PyStr) : Option ((Nat × Nat) × (Nat × Nat)) := do
  let rest ← readLiteral (ofString "@@ -") line
  let (old, rest) ← readRange rest
  let rest ← readLiteral (ofString " +") rest
  let (new, rest) ← readRange rest
  let _ ← readLiteral (ofString " @@") rest
  some (old, new)

/-- An entry by its sign. -/
def readEntry : PyStr → Option (DiffEntry PyStr)
  | [] => none
  | c :: line =>
    if c = Mark.sign .context then some ⟨.context, line⟩
    else if c = Mark.sign .deleted then some ⟨.deleted, line⟩
    else if c = Mark.sign .inserted then some ⟨.inserted, line⟩
    else none

/-- The old and new lines that are still to come behind an entry. -/
def Mark.countdown : Mark → Nat × Nat → Option (Nat × Nat)
  | .context, (old + 1, new + 1) => some (old, new)
  | .deleted, (old + 1, new) => some (old, new)
  | .inserted, (old, new + 1) => some (old, new)
  | _, _ => none

/-- The rest of the current hunk, of which this many old and new lines are still to come, and the
hunks behind it. -/
def readHunks : (left : Nat × Nat) → List PyStr →
    Option (List (DiffEntry PyStr) × List (Hunk PyStr))
  | left, [] => if left = (0, 0) then some ([], []) else none
  | left, line :: lines =>
    if left = (0, 0) then do
      let (old, new) ← readHeader line
      let (entries, hunks) ← readHunks (old.2, new.2) lines
      some ([], ⟨old.1, new.1, entries⟩ :: hunks)
    else do
      let entry ← readEntry line
      let left ← entry.mark.countdown left
      let (entries, hunks) ← readHunks left lines
      some (entry :: entries, hunks)

def readDiff : List PyStr → Option (List (Hunk PyStr))
  | [] => some []
  | [_] => none
  | fromLine :: toLine :: lines =>
    if (ofString "--- ").isPrefixOf fromLine ∧ (ofString "+++ ").isPrefixOf toLine then
      (readHunks (0, 0) lines).map (·.2)
    else none

/-- Read a text, line by line, as a unified diff and apply it to another. -/
def applyDiff (diff old : PyStr) : Option PyStr := do
  let hunks ← readDiff (terminatedLines diff)
  let lines ← patch 0 hunks (terminatedLines old)
  some lines.flatten

/-! ## A header comes back -/

theorem decimal_ne_nil (n : Nat) : decimal n ≠ [] := by
  simp [decimal, Nat.toDigits_ne_nil]

theorem val_of_isDigit {c : Char} (h : c.isDigit) :
    (Fin.ofNat 0x110000 c.toNat).val = c.toNat := by
  have hc := Char.isDigit_iff_toNat.mp h
  exact Nat.mod_eq_of_lt (Nat.lt_of_le_of_lt hc.2 (by decide))

theorem isDigit_of_mem_decimal {n : Nat} {c : CodePoint} (h : c ∈ decimal n) : isDigit c := by
  obtain ⟨d, hd, rfl⟩ := List.mem_map.mp h
  have hdigit := Nat.isDigit_of_mem_toDigits (by decide) (by decide) hd
  have hrange := Char.isDigit_iff_toNat.mp hdigit
  rw [isDigit, Bool.and_eq_true, decide_eq_true_eq, decide_eq_true_eq, Fin.le_def, Fin.le_def,
    val_of_isDigit hdigit]
  exact hrange

theorem lf_not_mem_decimal (n : Nat) : lf ∉ decimal n :=
  fun h => absurd (isDigit_of_mem_decimal h) (by decide)

theorem foldl_decimal (n : Nat) :
    (decimal n).foldl (fun n c => 10 * n + (c.val - 48)) 0 = n := by
  have hdigits : ∀ (digits : List Char) (start : Nat), (∀ c ∈ digits, c.isDigit) →
      (digits.map fun c => Fin.ofNat 0x110000 c.toNat).foldl
        (fun n c => 10 * n + (c.val - 48)) start = Nat.ofDigitChars 10 digits start := by
    intro digits
    induction digits with
    | nil => exact fun _ _ => rfl
    | cons c digits ih =>
      intro start h
      rw [List.map_cons, List.foldl_cons, ih _ fun d hd => h d (List.mem_cons_of_mem _ hd),
        val_of_isDigit (h c List.mem_cons_self), Nat.ofDigitChars_cons]
      rfl
  rw [decimal, hdigits _ _ fun c => Nat.isDigit_of_mem_toDigits (by decide) (by decide),
    Nat.ofDigitChars_ten_toDigits]

/-- No digit and no comma: a range is over here. -/
def EndsRange (rest : PyStr) : Prop := rest.head?.all fun c => !isDigit c && c != 44

theorem endsRange_append {literal : PyStr} (rest : PyStr) (hne : literal ≠ [])
    (h : EndsRange literal) : EndsRange (literal ++ rest) := by
  rwa [EndsRange, List.head?_append_of_ne_nil _ hne]

theorem readNumber_decimal (n : Nat) {rest : PyStr} (hrest : rest.head?.all fun c => !isDigit c) :
    readNumber (decimal n ++ rest) = some (n, rest) := by
  have hall : ∀ c ∈ decimal n, isDigit c := fun c => isDigit_of_mem_decimal
  have htake : rest.takeWhile isDigit = [] ∧ rest.dropWhile isDigit = rest := by
    cases rest with
    | nil => exact ⟨rfl, rfl⟩
    | cons c rest =>
      have hc : isDigit c = false := by simpa using hrest
      simp [hc]
  obtain ⟨digit, digits, hdigits⟩ := List.exists_cons_of_ne_nil (decimal_ne_nil n)
  rw [readNumber, List.takeWhile_append_of_pos hall, List.dropWhile_append_of_pos hall, htake.1,
    htake.2, List.append_nil, hdigits]
  dsimp only
  rw [← hdigits, foldl_decimal]

@[simp] theorem readLiteral_append (literal rest : PyStr) :
    readLiteral literal (literal ++ rest) = some rest := by
  rw [readLiteral, if_pos (by simp), List.drop_left]

theorem readRange_formatRangeUnified (start length : Nat) {rest : PyStr} (hrest : EndsRange rest) :
    readRange (formatRangeUnified start length ++ rest) = some ((start, length), rest) := by
  have hdigit : rest.head?.all fun c => !isDigit c := by
    cases rest with
    | nil => rfl
    | cons c rest => exact (Bool.and_eq_true_iff.mp hrest).1
  have hpair : ∀ first, readRange (decimal first ++ ofString "," ++ decimal length ++ rest)
      = some ((if length = 0 then first else first - 1, length), rest) := by
    intro first
    have hnumber := @readNumber_decimal first (ofString "," ++ (decimal length ++ rest)) rfl
    rw [List.append_assoc, List.append_assoc, readRange, hnumber]
    simp only [Option.bind_eq_bind, Option.bind_some, readLiteral_append,
      readNumber_decimal length hdigit]
  rw [formatRangeUnified]
  split
  case isTrue hone =>
    have hnone : readLiteral (ofString ",") rest = none := by
      rw [readLiteral, if_neg]
      cases rest with
      | nil => decide
      | cons c rest =>
        have hc : c ≠ 44 := by simpa [EndsRange] using (Bool.and_eq_true_iff.mp hrest).2
        simpa [ofString] using Ne.symm hc
    rw [readRange, readNumber_decimal _ hdigit]
    simp [hnone, hone]
  case isFalse =>
    split
    next hzero => rw [hpair, if_pos hzero]
    next hzero => rw [hpair, if_neg hzero, Nat.add_sub_cancel]

theorem Hunk.readHeader_header (hunk : Hunk PyStr) : readHeader hunk.header =
    some ((hunk.oldStart, hunk.oldLines.length), (hunk.newStart, hunk.newLines.length)) := by
  have hold : ∀ rest, readRange (formatRangeUnified hunk.oldStart hunk.oldLines.length
      ++ (ofString " +" ++ rest)) = some (_, ofString " +" ++ rest) := fun rest =>
    readRange_formatRangeUnified _ _ (endsRange_append rest (by decide) rfl)
  have hnew : readRange (formatRangeUnified hunk.newStart hunk.newLines.length ++ ofString " @@\n")
      = some (_, ofString " @@\n") := readRange_formatRangeUnified _ _ rfl
  have hend : readLiteral (ofString " @@") (ofString " @@\n") = some [lf] := by decide
  simp only [header, List.append_assoc, readHeader, Option.bind_eq_bind, readLiteral_append,
    Option.bind_some, hold, hnew, hend]

/-! ## A hunk's entries come back, unless lines run together -/

@[simp] theorem DiffEntry.readEntry_text (entry : DiffEntry PyStr) :
    readEntry entry.text = some entry := by
  obtain ⟨mark, line⟩ := entry
  cases mark <;> rfl

theorem Mark.sign_ne_lf (mark : Mark) : mark.sign ≠ lf := by
  cases mark <;> decide

theorem DiffEntry.isLine_text {entry : DiffEntry PyStr} (h : IsLine entry.line) :
    IsLine entry.text :=
  .cons entry.mark.sign_ne_lf h

theorem DiffEntry.endsWithLf_text {entry : DiffEntry PyStr} (h : IsLine entry.line) :
    endsWithLf entry.text = endsWithLf entry.line := by
  rw [text, ← List.singleton_append, endsWithLf_append h.ne_nil]

def oldCount (entries : List (DiffEntry PyStr)) : Nat := entries.countP (·.mark ≠ .inserted)

def newCount (entries : List (DiffEntry PyStr)) : Nat := entries.countP (·.mark ≠ .deleted)

theorem Hunk.length_oldLines (hunk : Hunk PyStr) :
    hunk.oldLines.length = oldCount hunk.entries := by
  rw [oldLines, List.length_map, oldCount, List.countP_eq_length_filter]

theorem Hunk.length_newLines (hunk : Hunk PyStr) :
    hunk.newLines.length = newCount hunk.entries := by
  rw [newLines, List.length_map, newCount, List.countP_eq_length_filter]

theorem countdown_cons (entry : DiffEntry PyStr) (entries : List (DiffEntry PyStr))
    (old new : Nat) :
    entry.mark.countdown (old + oldCount (entry :: entries), new + newCount (entry :: entries))
      = some (old + oldCount entries, new + newCount entries) := by
  obtain ⟨mark, line⟩ := entry
  cases mark <;> simp [oldCount, newCount, ← Nat.add_assoc, Mark.countdown]

/-- Entries whose lines are counted in are read, and then what is behind them. -/
theorem readHunks_entries (entries : List (DiffEntry PyStr)) (old new : Nat) (lines : List PyStr) :
    readHunks (old + oldCount entries, new + newCount entries) (entries.map DiffEntry.text ++ lines)
      = (readHunks (old, new) lines).map fun read => (entries ++ read.1, read.2) := by
  induction entries with
  | nil => simp [oldCount, newCount]
  | cons entry entries ih =>
    have hne : (old + oldCount (entry :: entries), new + newCount (entry :: entries)) ≠ (0, 0) := by
      intro h
      have hcount := countdown_cons entry entries old new
      rw [h] at hcount
      cases hmark : entry.mark <;> simp [hmark, Mark.countdown] at hcount
    rw [List.map_cons, List.cons_append, readHunks, if_neg hne, DiffEntry.readEntry_text,
      Option.bind_eq_bind, Option.bind_some, countdown_cons, Option.bind_eq_bind, Option.bind_some,
      ih]
    cases readHunks (old, new) lines <;> rfl

theorem readHunks_eq_none {left : Nat × Nat} {lines : List PyStr} (hleft : left ≠ (0, 0))
    (hlines : ∀ line ∈ lines.head?, readEntry line = none) : readHunks left lines = none := by
  cases lines with
  | nil => rw [readHunks, if_neg hleft]
  | cons line lines =>
    rw [readHunks, if_neg hleft, hlines line rfl]
    rfl

/-- Only the last of the lines may lack its newline. -/
def Separated (entries : List (DiffEntry PyStr)) : Prop :=
  ∀ entry ∈ entries.dropLast, endsWithLf entry.line

theorem separated_cons_cons {first second : DiffEntry PyStr} {entries : List (DiffEntry PyStr)} :
    Separated (first :: second :: entries) ↔
      endsWithLf first.line ∧ Separated (second :: entries) := by
  rw [Separated, List.dropLast_cons_cons, List.forall_mem_cons]
  rfl

/-- The text of a hunk's entries read line by line: a line without newline takes the next entry in,
sign and all, so that fewer are read. -/
theorem exists_entries_read {entries : List (DiffEntry PyStr)} {rest : PyStr}
    (hlines : ∀ entry ∈ entries, IsLine entry.line)
    (hlast : rest ≠ [] → ∀ entry ∈ entries.getLast?, endsWithLf entry.line) :
    ∃ read : List (DiffEntry PyStr),
      terminatedLines ((entries.map DiffEntry.text).flatten ++ rest)
        = read.map DiffEntry.text ++ terminatedLines rest ∧
      (read.map (·.mark)).Sublist (entries.map (·.mark)) ∧
      (Separated entries → read = entries) ∧
      (¬ Separated entries → read.length < entries.length) := by
  induction entries with
  | nil => exact ⟨[], rfl, .slnil, fun _ => rfl, fun h => absurd (by simp [Separated]) h⟩
  | cons entry entries ih =>
    obtain ⟨hline, hlines⟩ := List.forall_mem_cons.mp hlines
    have htext := entry.isLine_text hline
    cases entries with
    | nil =>
      refine ⟨[entry], ?_, .refl _, fun _ => rfl, fun h => absurd (by simp [Separated]) h⟩
      by_cases hrest : rest = []
      · simp [hrest, terminatedLines_line htext]
      · have hends : endsWithLf entry.text := entry.endsWithLf_text hline ▸ hlast hrest entry rfl
        simp [terminatedLines_cons_line htext hends]
    | cons next entries =>
      obtain ⟨read, hread, hmarks, hsame, hfewer⟩ := ih hlines hlast
      rw [separated_cons_cons, List.map_cons, List.flatten_cons, List.append_assoc]
      rw [← entry.endsWithLf_text hline]
      by_cases hends : endsWithLf entry.text
      · refine ⟨entry :: read, ?_, hmarks.cons_cons _, fun h => ?_, fun h => ?_⟩
        · rw [terminatedLines_cons_line htext hends, hread]
          rfl
        · rw [hsame h.2]
        · simpa using hfewer fun h' => h ⟨hends, h'⟩
      · -- the newline is missing: the next entry, which is there, is read as part of this one
        obtain ⟨first, read, rfl⟩ : ∃ first rest, read = first :: rest := by
          refine List.exists_cons_of_ne_nil fun hnil => ?_
          have hlength := congrArg (fun lines => lines.flatten.length) hread
          simp [hnil, DiffEntry.text] at hlength
          omega
        have hbody := htext.lf_not_mem (Bool.eq_false_iff.mpr hends)
        refine ⟨⟨entry.mark, entry.line ++ first.text⟩ :: read, ?_, ?_, fun h => absurd h.1 hends,
          fun _ => ?_⟩
        · rw [terminatedLines_append_cons hbody hread]
          rfl
        · exact (List.sublist_of_cons_sublist hmarks).cons_cons _
        · have := hmarks.length_le
          simp at this ⊢
          omega

theorem lf_not_mem_formatRangeUnified (start length : Nat) :
    lf ∉ formatRangeUnified start length := by
  have hcomma : lf ∉ ofString "," := by decide
  rw [formatRangeUnified]
  split
  · exact lf_not_mem_decimal _
  · split <;> simp [lf_not_mem_decimal, hcomma]

theorem Hunk.header_eq (hunk : Hunk PyStr) : ∃ body, lf ∉ body ∧ hunk.header = body ++ [lf] := by
  refine ⟨ofString "@@ -" ++ formatRangeUnified hunk.oldStart hunk.oldLines.length
    ++ ofString " +" ++ formatRangeUnified hunk.newStart hunk.newLines.length ++ ofString " @@",
    ?_, ?_⟩
  · have hliterals : lf ∉ ofString "@@ -" ∧ lf ∉ ofString " +" ∧ lf ∉ ofString " @@" := by decide
    simp [hliterals, lf_not_mem_formatRangeUnified]
  · rw [header, List.append_assoc _ (ofString " @@")]
    rfl

theorem Hunk.terminatedLines_header (hunk : Hunk PyStr) (rest : PyStr) :
    terminatedLines (hunk.header ++ rest) = hunk.header :: terminatedLines rest := by
  obtain ⟨body, hbody, hheader⟩ := hunk.header_eq
  exact terminatedLines_cons_line ⟨body, hbody, .inl hheader⟩
    (endsWithLf_iff.mpr ⟨body, hheader⟩) rest

theorem Hunk.readEntry_header (hunk : Hunk PyStr) : readEntry hunk.header = none := by
  rw [header, List.append_assoc, List.append_assoc, List.append_assoc]
  rfl

theorem terminatedLines_hunk (hunk : Hunk PyStr) (hunks : List (Hunk PyStr)) :
    terminatedLines ((hunk :: hunks).flatMap Hunk.pieces).flatten = hunk.header ::
      terminatedLines ((hunk.entries.map DiffEntry.text).flatten
        ++ (hunks.flatMap Hunk.pieces).flatten) := by
  rw [List.flatMap_cons, List.flatten_append, Hunk.pieces, List.flatten_cons, List.append_assoc,
    hunk.terminatedLines_header]

theorem counts_eq (entries : List (DiffEntry PyStr)) :
    oldCount entries = (entries.map (·.mark)).count .context
        + (entries.map (·.mark)).count .deleted ∧
      newCount entries = (entries.map (·.mark)).count .context
        + (entries.map (·.mark)).count .inserted ∧
      entries.length = (entries.map (·.mark)).count .context
        + (entries.map (·.mark)).count .deleted + (entries.map (·.mark)).count .inserted := by
  induction entries with
  | nil => exact ⟨rfl, rfl, rfl⟩
  | cons entry entries ih =>
    obtain ⟨mark, line⟩ := entry
    obtain ⟨hold, hnew, hlength⟩ := ih
    rw [oldCount, List.countP_cons, ← oldCount, hold, newCount, List.countP_cons, ← newCount, hnew,
      List.length_cons, hlength]
    cases mark <;> simp <;> omega

/-- A hunk of which fewer entries are read than its ranges say is missing some line. -/
theorem left_ne_zero {read entries : List (DiffEntry PyStr)}
    (hmarks : (read.map (·.mark)).Sublist (entries.map (·.mark)))
    (hfewer : read.length < entries.length) :
    ∃ old new, oldCount entries = old + oldCount read ∧ newCount entries = new + newCount read ∧
      (old, new) ≠ (0, 0) := by
  have hcount : ∀ mark : Mark, (read.map (·.mark)).count mark ≤ (entries.map (·.mark)).count mark :=
    fun mark => hmarks.count_le mark
  have hread := counts_eq read
  have hentries := counts_eq entries
  have hcontext := hcount .context
  have hdeleted := hcount .deleted
  have hinserted := hcount .inserted
  refine ⟨oldCount entries - oldCount read, newCount entries - newCount read, by omega, by omega,
    fun h => ?_⟩
  obtain ⟨hold, hnew⟩ := Prod.mk.inj h
  omega

/-- **The hunks come back from the lines of their text exactly if no two lines of a hunk run
together**, given that a hunk with another behind it ends with a newline. -/
theorem readHunks_flatMap_pieces {hunks : List (Hunk PyStr)}
    (hlines : ∀ hunk ∈ hunks, ∀ entry ∈ hunk.entries, IsLine entry.line)
    (hends : ∀ hunk ∈ hunks.dropLast, ∀ entry ∈ hunk.entries.getLast?, endsWithLf entry.line) :
    ((∀ hunk ∈ hunks, Separated hunk.entries) →
      readHunks (0, 0) (terminatedLines (hunks.flatMap Hunk.pieces).flatten) = some ([], hunks)) ∧
    ((¬ ∀ hunk ∈ hunks, Separated hunk.entries) →
      readHunks (0, 0) (terminatedLines (hunks.flatMap Hunk.pieces).flatten) = none) := by
  induction hunks with
  | nil => exact ⟨fun _ => rfl, fun h => absurd (by simp) h⟩
  | cons hunk hunks ih =>
    obtain ⟨hline, hlines⟩ := List.forall_mem_cons.mp hlines
    have hlast : (hunks.flatMap Hunk.pieces).flatten ≠ [] →
        ∀ entry ∈ hunk.entries.getLast?, endsWithLf entry.line := by
      intro hne
      cases hunks with
      | nil => exact absurd rfl hne
      | cons next rest => exact hends hunk (by simp)
    obtain ⟨ihsome, ihnone⟩ := ih hlines fun h hmem => hends h <| by
      cases hunks with
      | nil => simp at hmem
      | cons next rest => exact List.mem_cons_of_mem _ hmem
    obtain ⟨read, hread, hmarks, hsame, hfewer⟩ := exists_entries_read hline hlast
    rw [terminatedLines_hunk, hread, readHunks, if_pos rfl, hunk.readHeader_header,
      hunk.length_oldLines, hunk.length_newLines, List.forall_mem_cons]
    simp only [Option.bind_eq_bind, Option.bind_some]
    by_cases hseparated : Separated hunk.entries
    · have hentries := readHunks_entries hunk.entries 0 0
        (terminatedLines (hunks.flatMap Hunk.pieces).flatten)
      rw [Nat.zero_add, Nat.zero_add] at hentries
      rw [hsame hseparated, hentries]
      refine ⟨fun h => ?_, fun h => ?_⟩
      · rw [ihsome h.2]
        simp
      · rw [ihnone fun h' => h ⟨hseparated, h'⟩]
        rfl
    · refine ⟨fun h => absurd h.1 hseparated, fun _ => ?_⟩
      obtain ⟨old, new, hold, hnew, hleft⟩ := left_ne_zero hmarks (hfewer hseparated)
      have hnext : ∀ line ∈ (terminatedLines (hunks.flatMap Hunk.pieces).flatten).head?,
          readEntry line = none := by
        cases hunks with
        | nil => simp
        | cons next rest =>
          rw [terminatedLines_hunk]
          rintro line ⟨⟩
          exact next.readEntry_header
      rw [hold, hnew, readHunks_entries, readHunks_eq_none hleft hnext]
      rfl

/-- The header lines are read back when no newline stands in the file names. -/
theorem readDiff_unifiedDiff {hunksOf : List PyStr → List PyStr → List (Hunk PyStr)}
    {a b : List PyStr} {fromfile tofile : PyStr} (hfrom : lf ∉ fromfile) (hto : lf ∉ tofile) :
    readDiff (terminatedLines (unifiedDiff hunksOf a b fromfile tofile).flatten)
      = (readHunks (0, 0) (terminatedLines ((hunksOf a b).flatMap Hunk.pieces).flatten)).map
        (·.2) := by
  rw [unifiedDiff]
  cases hunksOf a b with
  | nil => rfl
  | cons hunk hunks =>
    have hheader : ∀ {mark name rest : PyStr}, lf ∉ mark → lf ∉ name →
        terminatedLines (mark ++ name ++ [lf] ++ rest)
          = (mark ++ name ++ [lf]) :: terminatedLines rest := fun hmark hname =>
      terminatedLines_cons_line ⟨_, by simp [hmark, hname], .inl rfl⟩ (endsWithLf_append_lf _) _
    dsimp only
    rw [List.flatten_cons, List.flatten_cons, hheader (by decide) hfrom, hheader (by decide) hto,
      readDiff, if_pos ⟨by rw [List.append_assoc]; simp, by rw [List.append_assoc]; simp⟩]

end Tile
