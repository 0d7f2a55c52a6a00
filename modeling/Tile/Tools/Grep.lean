import Mathlib.Data.List.DropRight
import Tile.Library.Quota
import Tile.Text.Splitlines

/-!
# Tools/Grep — the events of a search

The search tool writes JSON records, one on a line, of which the events of a match or of a line
around it are shown, up to a limit of matches.  The parser cuts the output with `str.splitlines`,
which also cuts records: **the events that get through** are those without a line boundary in their
strings (`parsed_events`).
-/

namespace Tile

namespace Grep

/-- Whether a line matched or surrounds a match. -/
inductive LineKind where
  | matched | context
  deriving Repr, DecidableEq

/-- Event data fields used by the search tool. -/
structure EventData where
  path : Text
  lineNumber : Int
  lines : Text
  deriving Repr, DecidableEq

/-- Match or context event shape used by the search tool. -/
structure SearchEvent where
  type : LineKind
  data : EventData
  deriving Repr, DecidableEq

/-- One parsed search output line. -/
structure Line where
  kind : LineKind
  path : Text
  lineNumber : Int
  text : Text
  deriving Repr, DecidableEq

/-- Structured search results returned by the search tool. -/
structure Results where
  lines : List Line
  truncated : Bool
  deriving Repr, DecidableEq

/-- `text.rstrip("\n")`. -/
def rstripNewlines (text : Text) : Text := text.rdropWhile (· = '\n')

/-- Build one search line from event data. -/
def buildLine (event : SearchEvent) : Line where
  kind := event.type
  path := event.data.path
  lineNumber := event.data.lineNumber
  text := rstripNewlines event.data.lines

section Parse

-- `SearchEvent.model_validate_json`; nothing for a `ValidationError`
variable (validate : Text → Option SearchEvent)

/-- Parse a single JSON event line. -/
def parseLine (rawLine : Text) : Option Line := (validate rawLine).map buildLine

/-- The loop over the raw lines, with the lines and the matches so far. -/
def parseLoop (limit : Nat) : List Text → (lines : List Line) → (matchCount : Nat) → Results
  | [], lines, _ => { lines, truncated := false }
  | rawLine :: rest, lines, matchCount =>
    match parseLine validate rawLine with
    | none => parseLoop limit rest lines matchCount
    | some parsedLine =>
      if parsedLine.kind = .matched then
        if matchCount ≥ limit then { lines, truncated := true }
        else parseLoop limit rest (lines ++ [parsedLine]) (matchCount + 1)
      else parseLoop limit rest (lines ++ [parsedLine]) matchCount

/-- Parse JSON-lines output into structured search results. -/
def parseOutput (output : Text) (limit : Nat) : Results :=
  parseLoop validate limit output.splitlines [] 0

end Parse

/-! ## What the loop shows -/

def SearchEvent.isMatch (event : SearchEvent) : Bool := event.type = .matched

/-- These events up to a limit of matches. -/
def resultsOf (events : List SearchEvent) (limit : Nat) : Results where
  lines := (withinQuota SearchEvent.isMatch limit events).map buildLine
  truncated := limit < events.countP SearchEvent.isMatch

theorem parseLoop_eq (validate : Text → Option SearchEvent) {limit : Nat} (rawLines : List Text)
    (lines : List Line) {matchCount : Nat} (hcount : matchCount ≤ limit) :
    let events := rawLines.filterMap validate
    parseLoop validate limit rawLines lines matchCount =
      { lines := lines ++
          (withinQuota SearchEvent.isMatch (limit - matchCount) events).map buildLine
        truncated := beyondQuota SearchEvent.isMatch (limit - matchCount) events ≠ [] } := by
  induction rawLines generalizing lines matchCount with
  | nil => simp [parseLoop, withinQuota, beyondQuota]
  | cons rawLine rest ih =>
    cases hevent : validate rawLine with
    | none => simp [parseLoop, parseLine, hevent, ih lines hcount]
    | some event =>
      simp only [parseLoop, parseLine, hevent, Option.map_some, List.filterMap_cons_some hevent]
      by_cases hmatch : event.type = .matched
      · have hkind : event.isMatch = true := decide_eq_true hmatch
        rw [if_pos (show (buildLine event).kind = .matched from hmatch)]
        by_cases hfull : matchCount ≥ limit
        · have hnone : limit - matchCount = 0 := Nat.sub_eq_zero_of_le hfull
          simp [hfull, hnone, withinQuota, beyondQuota, hkind]
        · have hmore : ¬ (event.isMatch = true ∧ limit - matchCount = 0) := by omega
          have hleft : leftOfQuota SearchEvent.isMatch (limit - matchCount) event
              = limit - (matchCount + 1) := if_pos hkind
          rw [if_neg hfull, ih _ (by omega), withinQuota_cons hmore, beyondQuota_cons hmore, hleft]
          simp
      · have hkind : ¬ event.isMatch = true := fun h => hmatch (of_decide_eq_true h)
        have hleft : leftOfQuota SearchEvent.isMatch (limit - matchCount) event
            = limit - matchCount := if_neg hkind
        rw [if_neg (show ¬ (buildLine event).kind = .matched from hmatch), ih _ hcount,
          withinQuota_cons fun h => hkind h.1, beyondQuota_cons fun h => hkind h.1, hleft]
        simp

theorem parseOutput_eq (validate : Text → Option SearchEvent) (output : Text) (limit : Nat) :
    parseOutput validate output limit = resultsOf (output.splitlines.filterMap validate) limit := by
  have hloop := parseLoop_eq validate output.splitlines [] limit.zero_le
  rw [parseOutput, hloop, resultsOf, List.nil_append, Nat.sub_zero]
  simp only [beyondQuota_ne_nil_iff]

/-! ## The output of the search tool -/

/-- The line boundaries that a JSON string need not escape. -/
def isUnescapedBoundary (c : Char) : Bool :=
  c.toNat = 0x85 || c.toNat = 0x2028 || c.toNat = 0x2029

/-- The strings of the event have no line boundary that JSON leaves as it is. -/
def SearchEvent.isWhole (event : SearchEvent) : Bool :=
  (event.data.path ++ event.data.lines).all (!isUnescapedBoundary ·)

/-- The code outside of this repository: how `rg --json` writes the records of a search, and what
`SearchEvent.model_validate_json` makes of a line.  A record may be of an event or not. -/
structure JsonLines (R : Type*) where
  event : R → Option SearchEvent
  write : R → Text
  validate : Text → Option SearchEvent

variable {R : Type*} {json : JsonLines R}

/-- The records, one JSON object on a line, each ended by a newline. -/
def JsonLines.output (json : JsonLines R) (records : List R) : Text :=
  records.flatMap fun record => json.write record ++ ['\n']

structure JsonLines.Lawful (json : JsonLines R) : Prop where
  /-- A line with a whole record validates to its event, if it is of one. -/
  validate_write : ∀ record, json.validate (json.write record) = json.event record
  /-- JSON escapes control characters; the other line boundaries are as they are in the strings. -/
  boundary_iff : ∀ record event, json.event record = some event →
    ((∃ c ∈ json.write record, Text.isBoundary c = true) ↔ event.isWhole = false)
  /-- A piece of a record that is cut in a string is not a JSON object of an event. -/
  validate_piece : ∀ record, ∀ piece ∈ Text.splitlines (json.write record ++ ['\n']),
    piece ≠ json.write record → json.validate piece = none

theorem filterMap_validate_record (h : json.Lawful) (record : R) :
    (Text.splitlines (json.write record ++ ['\n'])).filterMap json.validate
      = ((json.event record).toList).filter SearchEvent.isWhole := by
  by_cases hcut : ∃ c ∈ json.write record, Text.isBoundary c = true
  · have hnone : (Text.splitlines (json.write record ++ ['\n'])).filterMap json.validate = [] := by
      refine List.filterMap_eq_nil_iff.mpr fun piece hpiece => ?_
      refine h.validate_piece record piece hpiece ?_
      rintro rfl
      obtain ⟨c, hc, hboundary⟩ := hcut
      rw [Text.not_isBoundary_of_mem_splitlines _ hpiece c hc] at hboundary
      cases hboundary
    rw [hnone]
    cases hevent : json.event record with
    | none => rfl
    | some event => simp [(h.boundary_iff record event hevent).mp hcut]
  · have hwhole : ∀ c ∈ json.write record, Text.isBoundary c = false := fun c hc =>
      Bool.eq_false_iff.mpr fun hboundary => hcut ⟨c, hc, hboundary⟩
    rw [Text.splitlines_line hwhole]
    cases hevent : json.event record with
    | none => simp [h.validate_write, hevent]
    | some event =>
      have hevents := (h.boundary_iff record event hevent).not.mp hcut
      simp [h.validate_write, hevent, Bool.not_eq_false _ ▸ hevents]

/-- **The events that get through the parser** are the whole ones. -/
theorem parsed_events (h : json.Lawful) (records : List R) :
    (json.output records).splitlines.filterMap json.validate
      = (records.filterMap json.event).filter SearchEvent.isWhole := by
  rw [JsonLines.output, Text.splitlines_flatMap]
  induction records with
  | nil => rfl
  | cons record records ih =>
    rw [List.flatMap_cons, List.filterMap_append, ih, filterMap_validate_record h]
    cases hevent : json.event record with
    | none => simp [hevent]
    | some event => rw [List.filterMap_cons_some hevent, ← List.singleton_append,
        List.filter_append]; rfl

/-- What a line shows tells whether its event was whole. -/
theorem isWhole_of_buildLine (event event' : SearchEvent)
    (h : buildLine event = buildLine event') : event.isWhole = event'.isWhole := by
  have hline : ∀ event : SearchEvent, event.isWhole
      = ((buildLine event).path ++ (buildLine event).text).all (!isUnescapedBoundary ·) := by
    intro event
    have hnewlines : (event.data.lines.rtakeWhile (· = '\n')).all (!isUnescapedBoundary ·) = true :=
      List.all_eq_true.mpr fun c hc => by
        have hnewline := List.mem_rtakeWhile_imp hc
        rw [of_decide_eq_true hnewline]
        rfl
    have hlines : event.data.lines.all (!isUnescapedBoundary ·)
        = (rstripNewlines event.data.lines).all (!isUnescapedBoundary ·) := by
      rw [rstripNewlines, ← Bool.and_true (List.all (List.rdropWhile _ _) _), ← hnewlines,
        ← List.all_append, List.rdropWhile_append_rtakeWhile]
    rw [SearchEvent.isWhole, List.all_append, List.all_append, hlines]
    rfl
  rw [hline, hline, h]

/-- **The results of a search are the events up to the limit** exactly when all of these are whole
and, if there is a match that is too much, the first whole event from it on is a match too. -/
theorem parseOutput_iff (h : json.Lawful) (records : List R) (limit : Nat) :
    parseOutput json.validate (json.output records) limit
        = resultsOf (records.filterMap json.event) limit ↔
      (∀ event ∈ withinQuota SearchEvent.isMatch limit (records.filterMap json.event),
        event.isWhole = true) ∧
      (limit < (records.filterMap json.event).countP SearchEvent.isMatch →
        ((beyondQuota SearchEvent.isMatch limit (records.filterMap json.event)).find?
          SearchEvent.isWhole).any SearchEvent.isMatch = true) := by
  have hquota := quota_filter_iff SearchEvent.isMatch isWhole_of_buildLine limit
    (records.filterMap json.event)
  simp only [beyondQuota_ne_nil_iff] at hquota
  rw [parseOutput_eq, parsed_events h, ← hquota, resultsOf, resultsOf, Results.mk.injEq,
    decide_eq_decide]

end Grep

end Tile
