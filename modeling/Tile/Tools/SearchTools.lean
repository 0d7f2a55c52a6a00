import Tile.Library.Effect
import Tile.Tools.Find
import Tile.Tools.Grep
import Tile.Tools.Support.ExecuteEnds

/-!
# Tools/SearchTools — the find and grep tools

Both run a program, read its output up to a cap and show results up to limits.

* Whatever the schedule of the program and its readers, **what a search shows is shown of the whole
  output**, and all of it below the cap (`search_of_whole`).
* **grep hides nothing silently**: it has no details exactly when it shows each line of each event
  (`grep_details_none_iff`).
-/

namespace Tile

/-! ## Complete lines -/

namespace Executables

theorem eq_of_rfindNewline {data : Bytes} {last : Nat} (h : rfindNewline data = some last) :
    ∃ before after, data = before ++ 10 :: after ∧ data.take (last + 1) = before ++ [10] := by
  obtain ⟨fromEnd, hfind, rfl⟩ := Option.map_eq_some_iff.mp h
  obtain ⟨hlt, hnewline, -⟩ := List.findIdx?_eq_some_iff_getElem.mp hfind
  rw [List.length_reverse] at hlt
  have hget : data[data.length - 1 - fromEnd] = 10 := by
    rw [List.getElem_reverse] at hnewline
    exact of_decide_eq_true hnewline
  refine ⟨data.take (data.length - 1 - fromEnd), data.drop (data.length - 1 - fromEnd + 1), ?_, ?_⟩
  · rw [← hget, List.cons_getElem_drop_succ, List.take_append_drop]
  · rw [← hget, List.take_concat_get']

/-- **The decoded lines are lines of the whole output.** -/
theorem splitlines_decodeCompleteLines {data whole : Bytes} {executable : String} {output : Text}
    (h : decodeCompleteLines data executable = .ok output) (hdata : data <+: whole) :
    output.splitlines <+: (Utf8.decodeReplacing whole).splitlines := by
  rw [decodeCompleteLines] at h
  split at h
  · cases h
  next last hlast =>
    obtain rfl := Except.ok.inj h
    obtain ⟨before, after, hsplit, htake⟩ := eq_of_rfindNewline hlast
    obtain ⟨rest, rfl⟩ := hdata
    obtain ⟨text, hshown, hwhole⟩ := Utf8.decodeReplacing_newline before (after ++ rest)
    rw [htake, hshown, hsplit, List.append_assoc, List.cons_append, hwhole,
      Text.splitlines_append text (Utf8.decodeReplacing (after ++ rest))]
    exact List.prefix_append _ _

/-- What a search makes of its output: it is the whole output, or some of its lines. -/
def IsOutputOf (process : ChildProcess) (output : Text) : Prop :=
  output.splitlines <+: (Utf8.decodeReplacing process.stdout).splitlines ∧
    (process.stdout.length < STDOUT_BYTE_CAP → output = Utf8.decodeReplacing process.stdout)

theorem isOutputOf_of_ended {execution : Execution} {s : ExecuteState} {events : List ExecuteEvent}
    {output : Text} (h : Run (ExecuteStep execution) (.start execution) events s)
    (hended : s.point = .ended (.ok output)) : IsOutputOf execution.process output := by
  rcases execute_result h hended with ⟨-, hresult⟩ | ⟨data, hdata, hcap, -, hresult⟩
  · split at hresult
    · obtain rfl := Except.ok.inj hresult
      exact ⟨List.prefix_refl _, fun _ => rfl⟩
    · cases hresult
  · exact ⟨splitlines_decodeCompleteLines hresult.symm hdata,
      fun hbelow => absurd (hcap.trans hdata.length_le) (Nat.not_le_of_lt hbelow)⟩

/-- `execute`, as the processes of some programs and its readers happen to run. -/
def Executes (processes : String → List String → ChildProcess) (capacity : Nat)
    (execute : String → List String → (allowedExitCodes : List Int) → Except String Text) : Prop :=
  ∀ executable args allowedExitCodes, ∃ events s,
    let execution : Execution :=
      { executable, allowedExitCodes, process := processes executable args, capacity }
    Run (ExecuteStep execution) (.start execution) events s ∧
      s.point = .ended (execute executable args allowedExitCodes)

section Executes

variable {processes : String → List String → ChildProcess} {capacity : Nat}
  {execute : String → List String → List Int → Except String Text}

/-- There is a schedule that ends. -/
theorem exists_executes (processes : String → List String → ChildProcess)
    (hcapacity : 0 < capacity) :
    ∃ execute, Executes processes capacity execute := by
  have hends : ∀ execution : Execution, execution.capacity = capacity →
      ∃ result events s, Run (ExecuteStep execution) (.start execution) events s ∧
        s.point = .ended result := by
    intro execution hsame
    obtain ⟨events, s, hrun, result, hended⟩ := exists_ended execution (hsame ▸ hcapacity)
    exact ⟨result, events, s, hrun, hended⟩
  choose! execute hexecute using hends
  exact ⟨fun executable args allowedExitCodes =>
    execute { executable, allowedExitCodes, process := processes executable args, capacity },
    fun _ _ _ => hexecute _ rfl⟩

theorem Executes.isOutputOf (h : Executes processes capacity execute) {executable : String}
    {args : List String} {allowedExitCodes : List Int} {output : Text}
    (houtput : execute executable args allowedExitCodes = .ok output) :
    IsOutputOf (processes executable args) output := by
  obtain ⟨events, s, hrun, hended⟩ := h executable args allowedExitCodes
  exact isOutputOf_of_ended hrun (hended.trans (congrArg _ houtput))

end Executes

end Executables

/-! ## find -/

namespace Find

/-- Model-controlled file path search arguments. -/
structure FindInput where
  pattern : String
  path : String := "."
  limit : Int := 1000

/-- Return whether a glob pattern should match candidate paths. -/
def matchesFullPath (pattern : String) : Bool := pattern.contains '/'

/-- Return the pattern adjusted for fd full-path matching. -/
def buildEffectivePattern (pattern : String) : String :=
  if matchesFullPath pattern = false ∨ pattern.startsWith "**/" then pattern
  else if pattern.startsWith "/" then s!"**{pattern}"
  else s!"**/{pattern}"

/-- Build command arguments for a file path search. -/
def buildArgs (pattern path : String) (limit : Nat) : List String :=
  ["--glob", "--color=never", "--hidden", "--no-require-git", "--max-results", toString (limit + 1)]
    ++ (if matchesFullPath pattern then ["--full-path"] else [])
    ++ ["--", buildEffectivePattern pattern, path]

/-- Find file paths matching a glob pattern. -/
def fn (which : String → Option String)
    (execute : String → List String → List Int → Except String Text) (params : FindInput) :
    Except String TextResult := do
  let limit := (max 1 params.limit).toNat
  let executable ← Executables.requireExecutable which "fd" "fd"
  let output ← execute executable (buildArgs params.pattern params.path limit) [0]
  return buildResult output limit

end Find

/-! ## grep -/

namespace Grep

/-- Model-controlled file content search arguments. -/
structure GrepInput where
  pattern : String
  path : String := "."
  glob : Option String := none
  ignoreCase : Bool := false
  literal : Bool := false
  context : Int := 0
  limit : Int := 100

/-- Search metadata for UI and persistence. -/
structure GrepDetails where
  output : ToolOutputDetails
  matchLimitReached : Option Nat := none
  linesTruncated : Bool := false
  deriving DecidableEq

/-- A result of grep. -/
structure GrepResult where
  text : Text
  details : Option GrepDetails := none
  deriving DecidableEq

/-- How much of a line `grep` shows. -/
def GREP_LINE_CHARACTER_LIMIT : Nat := 500

/-- Return one line capped to a character limit with a truncation marker. -/
def truncateLine (line : Text) : Text × Bool :=
  if line.length ≤ GREP_LINE_CHARACTER_LIMIT then (line, false)
  else (line.take GREP_LINE_CHARACTER_LIMIT ++ "... [truncated]".toList, true)

/-- The line with grep's match or context separators. -/
def separated (line : Line) (text : Text) : Text :=
  let separator := if line.kind = .matched then ':' else '-'
  line.path ++ separator :: (toString line.lineNumber).toList ++ separator :: ' ' :: text

/-- Format one search line using grep's match or context separators. -/
def formatLine (line : Line) : Text × Bool :=
  let (text, wasTruncated) := truncateLine line.text
  (separated line text, wasTruncated)

/-- Build model-visible grep truncation notices. -/
def buildNotices (results : Results) (limit : Nat) (truncation : Truncation)
    (linesTruncated : Bool) : List String :=
  (if results.truncated then
      [s!"{limit} matches limit reached. Use limit={limit * 2} for more, or refine pattern"]
    else []) ++
  (if truncation.truncated then [s!"{OUTPUT_BYTE_LIMIT_LABEL} limit reached"] else []) ++
  (if linesTruncated then
      [s!"Some lines truncated to {GREP_LINE_CHARACTER_LIMIT} chars. " ++
        "Use read tool to see full lines"]
    else [])

/-- Build grep details when the UI has a warning to render. -/
def buildDetails (results : Results) (limit : Nat) (truncation : Truncation)
    (linesTruncated : Bool) : Option GrepDetails :=
  let output := ToolOutputDetails.fromTruncation truncation
  if results.truncated = false ∧ output.truncated = false ∧ linesTruncated = false then none
  else some {
    output
    matchLimitReached := if results.truncated then some limit else none
    linesTruncated }

/-- The result for parsed results. -/
def resultOf (results : Results) (limit : Nat) : GrepResult :=
  if results.lines = [] then { text := "No matches found".toList }
  else
    let formatted := results.lines.map formatLine
    let truncation :=
      truncateHead (Text.joinLines (formatted.map (·.1))) formatted.length OUTPUT_BYTE_LIMIT
    let linesTruncated := formatted.any (·.2)
    { text := appendNoticeBlock truncation.content
        (buildNotices results limit truncation linesTruncated)
      details := buildDetails results limit truncation linesTruncated }

/-- Build search results from raw JSON-lines output. -/
def buildResult (validate : Text → Option SearchEvent) (output : Text) (limit : Nat) : GrepResult :=
  resultOf (parseOutput validate output limit) limit

/-- Build command arguments for a search. -/
def buildArgs (params : GrepInput) : List String :=
  ["--json", "--line-number", "--color=never", "--hidden"]
    ++ (if params.ignoreCase then ["--ignore-case"] else [])
    ++ (if params.literal then ["--fixed-strings"] else [])
    ++ (match params.glob with
      | none => []
      | some glob => if glob = "" then [] else ["--glob", glob])
    ++ (if params.context > 0 then ["--context", toString params.context] else [])
    ++ ["--", params.pattern, params.path]

/-- Search file contents for a pattern. -/
def fn (validate : Text → Option SearchEvent) (which : String → Option String)
    (execute : String → List String → List Int → Except String Text) (params : GrepInput) :
    Except String GrepResult := do
  let limit := (max 1 params.limit).toNat
  let executable ← Executables.requireExecutable which "rg" "ripgrep (rg)"
  let output ← execute executable (buildArgs params) [0, 1]
  return buildResult validate output limit

/-! ### Nothing is hidden silently -/

/-- The line in full. -/
def fullLine (line : Line) : Text := separated line line.text

theorem truncateLine_snd {line : Text} :
    (truncateLine line).2 = false ↔ line.length ≤ GREP_LINE_CHARACTER_LIMIT := by
  rw [truncateLine]
  split <;> simp_all

theorem formatLine_of_le {line : Line} (h : line.text.length ≤ GREP_LINE_CHARACTER_LIMIT) :
    formatLine line = (fullLine line, false) := by
  simp [formatLine, truncateLine, h, fullLine]

theorem any_formatLine (lines : List Line) :
    (lines.map formatLine).any (·.2) = false ↔
      ∀ line ∈ lines, line.text.length ≤ GREP_LINE_CHARACTER_LIMIT := by
  rw [List.any_map, List.any_eq_false]
  refine forall₂_congr fun line _ => ?_
  rw [← truncateLine_snd, Bool.not_eq_true]
  rfl

/-- There are details exactly when there are notices. -/
theorem buildDetails_eq_none_iff {results : Results} {limit : Nat} {truncation : Truncation}
    {linesTruncated : Bool} :
    buildDetails results limit truncation linesTruncated = none ↔
      results.truncated = false ∧ truncation.truncated = false ∧ linesTruncated = false := by
  rw [buildDetails]
  split
  next h => exact iff_of_true rfl h
  next h => exact iff_of_false (fun hnone => by cases hnone) h

theorem buildNotices_of_none {results : Results} {limit : Nat} {truncation : Truncation}
    {linesTruncated : Bool} (h : buildDetails results limit truncation linesTruncated = none) :
    buildNotices results limit truncation linesTruncated = [] := by
  obtain ⟨hresults, htruncation, hlines⟩ := buildDetails_eq_none_iff.mp h
  simp [buildNotices, hresults, htruncation, hlines]

theorem resultOf_details_none_iff {results : Results} (hne : results.lines ≠ []) (limit : Nat) :
    ((resultOf results limit).details = none ↔
      results.truncated = false ∧
        (∀ line ∈ results.lines, line.text.length ≤ GREP_LINE_CHARACTER_LIMIT) ∧
        Fits results.lines.length OUTPUT_BYTE_LIMIT
          (Text.lines (Text.joinLines (results.lines.map fullLine)))) ∧
    ((resultOf results limit).details = none →
      (resultOf results limit).text = Text.joinLines (results.lines.map fullLine)) := by
  have hshort : (∀ line ∈ results.lines, line.text.length ≤ GREP_LINE_CHARACTER_LIMIT) →
      (results.lines.map formatLine).map (·.1) = results.lines.map fullLine := by
    intro hlines
    rw [List.map_map]
    exact List.map_congr_left fun line hline =>
      congrArg Prod.fst (formatLine_of_le (hlines line hline))
  rw [resultOf, if_neg hne]
  dsimp only
  rw [buildDetails_eq_none_iff, any_formatLine, truncateHead, truncateText_truncated_iff,
    List.length_map]
  constructor
  · refine and_congr_right fun _ => ⟨fun ⟨hfits, hlines⟩ => ⟨hlines, ?_⟩,
      fun ⟨hlines, hfits⟩ => ⟨?_, hlines⟩⟩
    · rwa [hshort hlines] at hfits
    · rwa [hshort hlines]
  · rintro ⟨hresults, hfits, hlines⟩
    rw [hshort hlines] at hfits ⊢
    rw [truncateText_of_fits hfits]
    have hnone := (any_formatLine results.lines).mpr hlines
    rw [buildNotices_of_none (buildDetails_eq_none_iff.mpr ⟨hresults, rfl, hnone⟩)]
    rfl

/-- **grep has no details exactly when it shows all it parsed in full.** -/
theorem grep_details_none_iff (validate : Text → Option SearchEvent) (output : Text) {limit : Nat}
    (hlimit : 1 ≤ limit) (hne : output.splitlines.filterMap validate ≠ []) :
    let events := output.splitlines.filterMap validate
    let lines := events.map buildLine
    let result := buildResult validate output limit
    (result.details = none ↔ events.countP SearchEvent.isMatch ≤ limit ∧
      (∀ line ∈ lines, line.text.length ≤ GREP_LINE_CHARACTER_LIMIT) ∧
      Fits lines.length OUTPUT_BYTE_LIMIT (Text.lines (Text.joinLines (lines.map fullLine)))) ∧
    (result.details = none → result.text = Text.joinLines (lines.map fullLine)) := by
  dsimp only
  rw [buildResult, parseOutput_eq]
  generalize output.splitlines.filterMap validate = events at hne
  have hlines : (resultsOf events limit).lines ≠ [] := fun h =>
    withinQuota_ne_nil hlimit hne (List.map_eq_nil_iff.mp h)
  have htruncated : (resultsOf events limit).truncated = false ↔
      events.countP SearchEvent.isMatch ≤ limit := by
    rw [resultsOf, decide_eq_false_iff_not, Nat.not_lt]
  have hall : events.countP SearchEvent.isMatch ≤ limit →
      (resultsOf events limit).lines = events.map buildLine := fun h => by
    rw [resultsOf, withinQuota_of_le h]
  obtain ⟨hdetails, htext⟩ := resultOf_details_none_iff hlines limit
  rw [htruncated] at hdetails
  constructor
  · rw [hdetails]
    exact and_congr_right fun h => by rw [hall h]
  · intro hnone
    rw [htext hnone, hall (hdetails.mp hnone).1]

/-- A match in a file `f`. -/
def shortMatch : SearchEvent where
  type := .matched
  data := { path := ['f'], lineNumber := 1, lines := ['x', '\n'] }

/-- It is shown, and there are no details. -/
theorem grep_details_none_iff_shortMatch :
    let result := buildResult (fun line => if line = ['x'] then some shortMatch else none) ['x'] 1
    result.details = none ∧ result.text = "f:1: x".toList := by
  obtain ⟨hdetails, htext⟩ := grep_details_none_iff
    (fun line => if line = ['x'] then some shortMatch else none) ['x'] le_rfl (by decide)
  have hshort : ∀ line ∈ [buildLine shortMatch], line.text.length ≤ GREP_LINE_CHARACTER_LIMIT :=
    List.forall_mem_singleton.mpr (by decide)
  have hnone := hdetails.mpr ⟨by decide, hshort, by decide, by decide⟩
  exact ⟨hnone, (htext hnone).trans (by decide)⟩

end Grep

/-! ## What a search shows -/

section Searches

open Executables

variable {processes : String → List String → ChildProcess} {capacity : Nat}
  {execute : String → List String → List Int → Except String Text}
  {which : String → Option String}

theorem Find.searchResults_isPrefix {output whole : Text}
    (h : output.splitlines <+: whole.splitlines) : searchResults output <+: searchResults whole :=
  (h.filter _).map _

theorem Grep.parseOutput_isPrefix (validate : Text → Option SearchEvent) {output whole : Text}
    (h : output.splitlines <+: whole.splitlines) (limit : Nat) :
    (parseOutput validate output limit).lines <+: (parseOutput validate whole limit).lines := by
  rw [parseOutput_eq, parseOutput_eq]
  exact (withinQuota_isPrefix (h.filterMap validate)).map _

/-- The limit was reached in some lines: the lines after them change nothing. -/
theorem Grep.parseOutput_of_truncated {validate : Text → Option SearchEvent} {output whole : Text}
    (h : output.splitlines <+: whole.splitlines) {limit : Nat}
    (htruncated : (parseOutput validate output limit).truncated = true) :
    parseOutput validate output limit = parseOutput validate whole limit := by
  obtain ⟨rest, hrest⟩ := h
  rw [parseOutput_eq, resultsOf, decide_eq_true_iff] at htruncated
  rw [parseOutput_eq, parseOutput_eq, ← hrest, List.filterMap_append, resultsOf, resultsOf,
    withinQuota_append_of_lt htruncated, List.countP_append]
  congr 1
  exact decide_eq_decide.mpr (by omega)

/-- **What a search shows is shown of the whole output**, and all of it below the cap. -/
theorem search_of_whole (h : Executes processes capacity execute) :
    (∀ params result, Find.fn which execute params = .ok result →
      ∃ fd output, which "fd" = some fd ∧
        let limit := (max 1 params.limit).toNat
        let process := processes fd (Find.buildArgs params.pattern params.path limit)
        let whole := Utf8.decodeReplacing process.stdout
        result = Find.buildResult output limit ∧
          Find.searchResults output <+: Find.searchResults whole ∧
          (process.stdout.length < STDOUT_BYTE_CAP → output = whole)) ∧
    (∀ validate params result, Grep.fn validate which execute params = .ok result →
      ∃ rg output, which "rg" = some rg ∧
        let limit := (max 1 params.limit).toNat
        let process := processes rg (Grep.buildArgs params)
        let whole := Utf8.decodeReplacing process.stdout
        let results := Grep.parseOutput validate output limit
        result = Grep.buildResult validate output limit ∧
          results.lines <+: (Grep.parseOutput validate whole limit).lines ∧
          (results.truncated = true → result = Grep.buildResult validate whole limit) ∧
          (process.stdout.length < STDOUT_BYTE_CAP → output = whole)) := by
  constructor
  · intro params result hresult
    obtain ⟨fd, hfd, hresult⟩ := except_bind_eq_ok.mp hresult
    obtain ⟨output, houtput, hresult⟩ := except_bind_eq_ok.mp hresult
    obtain ⟨hlines, hall⟩ := h.isOutputOf houtput
    exact ⟨fd, output, requireExecutable_eq_ok.mp hfd, (Except.ok.inj hresult).symm,
      Find.searchResults_isPrefix hlines, hall⟩
  · intro validate params result hresult
    obtain ⟨rg, hrg, hresult⟩ := except_bind_eq_ok.mp hresult
    obtain ⟨output, houtput, hresult⟩ := except_bind_eq_ok.mp hresult
    obtain ⟨hlines, hall⟩ := h.isOutputOf houtput
    obtain rfl := Except.ok.inj hresult
    refine ⟨rg, output, requireExecutable_eq_ok.mp hrg, rfl,
      Grep.parseOutput_isPrefix validate hlines _, fun htruncated => ?_, hall⟩
    rw [Grep.buildResult, Grep.parseOutput_of_truncated hlines htruncated, Grep.buildResult]

/-! ### A search -/

/-- A program that writes a line. -/
def printing : ChildProcess where
  writes := [(.stdout, 120), (.stdout, 10)]
  exitCode := 0

/-- However it runs, its line is shown. -/
theorem search_of_whole_printing :
    ∃ execute result, Executes (fun _ _ => printing) 1 execute ∧
      Find.fn (fun _ => some "fd") execute { pattern := "x" } = .ok result ∧
      result.text = "x".toList := by
  obtain ⟨execute, hexecute⟩ := exists_executes (fun _ _ => printing) Nat.one_pos
  have houtput : ∀ args, execute "fd" args [0] = .ok "x\n".toList := by
    intro args
    obtain ⟨events, s, hrun, hended⟩ := hexecute "fd" args [0]
    rcases execute_result hrun hended with ⟨-, hresult⟩ | ⟨data, hdata, hcap, -⟩
    · exact hresult
    · exact absurd (hcap.trans hdata.length_le)
        (show ¬ STDOUT_BYTE_CAP ≤ printing.stdout.length from by decide)
  obtain ⟨result, hresult⟩ : ∃ result,
      Find.fn (fun _ => some "fd") execute { pattern := "x" } = .ok result :=
    ⟨_, except_bind_eq_ok.mpr ⟨"fd", rfl, except_bind_eq_ok.mpr ⟨_, houtput _, rfl⟩⟩⟩
  obtain ⟨fd, output, -, rfl, -, hwhole⟩ :=
    (search_of_whole hexecute).1 { pattern := "x" } result hresult
  refine ⟨execute, _, hexecute, hresult, ?_⟩
  rw [hwhole (by decide)]
  decide +kernel

end Searches

end Tile
