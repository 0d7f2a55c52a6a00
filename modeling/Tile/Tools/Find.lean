import Mathlib.Data.List.DropRight
import Tile.Text.Splitlines
import Tile.Tools.Support.Truncation

/-!
# Tools/Find — the paths of a search

The search tool writes one path on a line.  **Each path is one result** exactly when it has no line
boundary of `str.splitlines` and is not empty, but for carriage returns at its end
(`searchResults_iff`).
-/

namespace Tile

namespace Find

/-- Normalize one fd output path for compact display. -/
def normalizePath (path : Text) : Text :=
  let normalized := (path.rdropWhile (· = '\r')).map fun c => if c = '\\' then '/' else c
  if "./".toList.isPrefixOf normalized then normalized.drop 2 else normalized

/-- The results that raw fd stdout is taken for. -/
def searchResults (output : Text) : List Text :=
  (output.splitlines.filter (· ≠ [])).map normalizePath

/-- Build find details when the UI has truncation to render. -/
def buildDetails (truncation : Truncation) : Option ToolOutputDetails :=
  let outputDetails := ToolOutputDetails.fromTruncation truncation
  if outputDetails.truncated = false then none else some outputDetails

/-- Build file path search results from raw fd stdout. -/
def buildResult (output : Text) (limit : Nat) : TextResult :=
  let paths := searchResults output
  if paths = [] then { text := "No files found matching pattern".toList }
  else
    let truncation := truncateHead (Text.joinLines paths) limit OUTPUT_BYTE_LIMIT
    let limitNotice := if truncation.truncatedBy = some .lines then
        [s!"{limit} results limit reached. Use limit={limit * 2} for more, or refine pattern"]
      else []
    let bytesNotice := if truncation.truncatedBy = some .bytes then
        [s!"{OUTPUT_BYTE_LIMIT_LABEL} limit reached"]
      else []
    { text := appendNoticeBlock truncation.content (limitNotice ++ bytesNotice)
      details := buildDetails truncation }

/-- Raw fd stdout: one path on a line, each ended by a newline. -/
def pathLines (paths : List Text) : Text := paths.flatMap (· ++ ['\n'])

/-- The path without the carriage returns at its end is not empty and has no line boundary. -/
def IsPlainPath (path : Text) : Prop :=
  path.rdropWhile (· = '\r') ≠ [] ∧
    (path.rdropWhile (· = '\r')).all (!Text.isBoundary ·) = true

instance (path : Text) : Decidable (IsPlainPath path) := inferInstanceAs (Decidable (_ ∧ _))

theorem eq_append_returns (path : Text) :
    ∃ returns, path = path.rdropWhile (· = '\r') ++ List.replicate returns '\r' := by
  refine ⟨(path.rtakeWhile (· = '\r')).length, ?_⟩
  have hreturns : path.rtakeWhile (· = '\r') = List.replicate _ '\r' :=
    List.eq_replicate_of_mem fun c hc => by
      have hreturn := List.mem_rtakeWhile_imp hc
      exact of_decide_eq_true hreturn
  rw [← hreturns, List.rdropWhile_append_rtakeWhile]

theorem rdropWhile_eq_self {text : Text} (h : ∀ c ∈ text, Text.isBoundary c = false) :
    text.rdropWhile (· = '\r') = text :=
  List.rdropWhile_eq_self_iff.mpr fun hne hlast => by
    have hboundary := h _ (List.getLast_mem hne)
    rw [of_decide_eq_true hlast] at hboundary
    cases hboundary

/-- Normalizing neither adds nor removes line boundaries, but for carriage returns at the end. -/
theorem all_normalizePath (path : Text) :
    (normalizePath path).all (!Text.isBoundary ·)
      = (path.rdropWhile (· = '\r')).all (!Text.isBoundary ·) := by
  have hslash : ∀ text : Text, (text.map fun c => if c = '\\' then '/' else c).all
      (!Text.isBoundary ·) = text.all (!Text.isBoundary ·) := by
    intro text
    rw [List.all_map]
    congr 1
    funext c
    by_cases hc : c = '\\'
    · subst hc
      rfl
    · simp [hc]
  rw [normalizePath, ← hslash (path.rdropWhile _)]
  generalize (path.rdropWhile (· = '\r')).map (fun c => if c = '\\' then '/' else c) = normalized
  split
  next hdot =>
    obtain ⟨rest, rfl⟩ := List.isPrefixOf_iff_prefix.mp hdot
    rw [List.all_append]
    rfl
  next => rfl

theorem searchResults_pathLines (paths : List Text) :
    searchResults (pathLines paths) = paths.flatMap fun path => searchResults (path ++ ['\n']) := by
  rw [searchResults, pathLines, Text.splitlines_flatMap]
  induction paths with
  | nil => rfl
  | cons path paths ih => rw [List.flatMap_cons, List.filter_append, List.map_append, ih,
      List.flatMap_cons, searchResults]

theorem searchResults_path {path : Text}
    (hall : (path.rdropWhile (· = '\r')).all (!Text.isBoundary ·) = true) :
    searchResults (path ++ ['\n'])
      = if path.rdropWhile (· = '\r') = [] then [] else [normalizePath path] := by
  have h : ∀ c ∈ path.rdropWhile (· = '\r'), Text.isBoundary c = false := by simpa using hall
  obtain ⟨returns, hpath⟩ := eq_append_returns path
  have hlines := Text.filter_splitlines_returns h returns
  rw [← hpath] at hlines
  rw [searchResults, hlines]
  by_cases hempty : path.rdropWhile (· = '\r') = []
  · simp [hempty]
  · simp [hempty, normalizePath, rdropWhile_eq_self h]

theorem not_isBoundary_of_mem_searchResults {output : Text} :
    ∀ result ∈ searchResults output, result.all (!Text.isBoundary ·) = true := by
  intro result hresult
  obtain ⟨line, hline, rfl⟩ := List.mem_map.mp hresult
  have hplain := Text.not_isBoundary_of_mem_splitlines line (List.mem_filter.mp hline).1
  rw [all_normalizePath, rdropWhile_eq_self hplain]
  exact List.all_eq_true.mpr fun c hc => by rw [hplain c hc]; rfl

/-- **Each path is one result** exactly when all are plain. -/
theorem searchResults_iff (paths : List Text) :
    searchResults (pathLines paths) = paths.map normalizePath ↔
      ∀ path ∈ paths, IsPlainPath path := by
  have hwhole :
      (∀ path ∈ paths, (path.rdropWhile (· = '\r')).all (!Text.isBoundary ·) = true) →
      searchResults (pathLines paths)
        = (paths.filter fun path => path.rdropWhile (· = '\r') ≠ []).map normalizePath := by
    intro h
    rw [searchResults_pathLines]
    induction paths with
    | nil => rfl
    | cons path paths ih =>
      obtain ⟨hpath, hpaths⟩ := List.forall_mem_cons.mp h
      rw [List.flatMap_cons, searchResults_path hpath, ih hpaths, List.filter_cons]
      by_cases hempty : path.rdropWhile (· = '\r') = [] <;> simp [hempty]
  constructor
  · intro hresults path hpath
    have hall : ∀ path ∈ paths, (path.rdropWhile (· = '\r')).all (!Text.isBoundary ·) = true := by
      intro path hpath
      have hmem : normalizePath path ∈ searchResults (pathLines paths) :=
        hresults ▸ List.mem_map_of_mem hpath
      rw [← all_normalizePath]
      exact not_isBoundary_of_mem_searchResults _ hmem
    -- as many results as paths: none was empty
    have hlength := congrArg List.length ((hwhole hall).symm.trans hresults)
    rw [List.length_map, List.length_map, List.length_filter_eq_length_iff] at hlength
    exact ⟨of_decide_eq_true (hlength path hpath), hall path hpath⟩
  · intro hplain
    rw [hwhole fun path hpath => (hplain path hpath).2]
    congr 1
    exact List.filter_eq_self.mpr fun path hpath => decide_eq_true (hplain path hpath).1

end Find

end Tile
