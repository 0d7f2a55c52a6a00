import Tile.Tools.Find
import Tile.Tools.Grep

/-!
# Tools/SearchOutput — which search results get through

The search tools end a record with a newline; the parsers of their output also break it at every
other line boundary.  `search_results_kept_iff` says **which outputs are read as they were
written**.
-/

namespace Tile

open Grep (SearchEvent)

/-- **No search result is lost in parsing** exactly when no event up to the limit has a line
boundary that JSON leaves unescaped and, if a match exceeds the limit, the first event without one
from it on is a match; and **no path** exactly when all are plain. -/
theorem search_results_kept_iff {R : Type*} {json : Grep.JsonLines R} (h : json.Lawful)
    (records : List R) (limit : Nat) (paths : List Text) :
    (Grep.parseOutput json.validate (json.output records) limit
        = Grep.resultsOf (records.filterMap json.event) limit ↔
      (∀ event ∈ withinQuota SearchEvent.isMatch limit (records.filterMap json.event),
        event.isWhole = true) ∧
      (limit < (records.filterMap json.event).countP SearchEvent.isMatch →
        ((beyondQuota SearchEvent.isMatch limit (records.filterMap json.event)).find?
          SearchEvent.isWhole).any SearchEvent.isMatch = true)) ∧
    (Find.searchResults (Find.pathLines paths) = paths.map Find.normalizePath ↔
      ∀ path ∈ paths, Find.IsPlainPath path) :=
  ⟨Grep.parseOutput_iff h records limit, Find.searchResults_iff paths⟩

/-! ## A match in a line with a line separator -/

/-- A match in the first line of `notes.txt`, which has a line separator, `U+2028`. -/
def separatedMatch : SearchEvent where
  type := .matched
  data := { path := "notes.txt".toList, lineNumber := 1, lines := "needle\u2028rest\n".toList }

/-- Its record, as the search tool writes it. -/
def separatedRecord : Text :=
  "\x7b\"type\":\"match\",\"data\":\x7b\"path\":\x7b\"text\":\"notes.txt\"\x7d,".toList ++
    "\"lines\":\x7b\"text\":\"needle".toList ++ '\u2028' :: "rest\\n\"\x7d,".toList ++
    "\"line_number\":1,\"absolute_offset\":0,\"submatches\":[".toList ++
    "\x7b\"match\":\x7b\"text\":\"needle\"\x7d,\"start\":0,\"end\":6\x7d]\x7d\x7d".toList

/-- A search that finds just that. -/
def separatedSearch : Grep.JsonLines Unit where
  event _ := some separatedMatch
  write _ := separatedRecord
  validate line := if line = separatedRecord then some separatedMatch else none

theorem separatedRecord_boundary :
    (∃ c ∈ separatedRecord, Text.isBoundary c = true) ↔ separatedMatch.isWhole = false := by
  have hmem : '\u2028' ∈ separatedRecord :=
    List.mem_append_left _ (List.mem_append_left _ (List.mem_append_right _ List.mem_cons_self))
  exact iff_of_true ⟨_, hmem, rfl⟩ (by decide +kernel)

theorem separatedSearch_lawful : separatedSearch.Lawful where
  validate_write _ := by simp only [separatedSearch, if_true]
  boundary_iff _ event hevent := by
    obtain rfl : separatedMatch = event := Option.some.inj hevent
    simpa only [separatedSearch] using separatedRecord_boundary
  validate_piece _ _ _ hne := by
    simp only [separatedSearch] at hne ⊢
    exact if_neg hne

/-- The match is lost, and a path with a line separator is taken for two. -/
theorem search_results_lost :
    (∃ json : Grep.JsonLines Unit, json.Lawful ∧
      json.event () = some separatedMatch ∧
      Grep.parseOutput json.validate (json.output [()]) 1 = { lines := [], truncated := false } ∧
      Grep.resultsOf ([()].filterMap json.event) 1 =
        { lines := [Grep.buildLine separatedMatch], truncated := false }) ∧
    (Find.buildResult (Find.pathLines ["a\u2028b".toList]) 10).text = "a\nb".toList ∧
      Find.searchResults (Find.pathLines ["a\u2028b".toList])
        ≠ ["a\u2028b".toList].map Find.normalizePath := by
  refine ⟨⟨separatedSearch, separatedSearch_lawful, rfl, ?_, by decide +kernel⟩, ?_, ?_⟩
  · rw [Grep.parseOutput_eq, Grep.parsed_events separatedSearch_lawful]
    decide +kernel
  · decide +kernel
  · decide +kernel

/-- The same output by its condition: the match is not whole, and the path is not plain. -/
theorem search_results_kept_iff_separated :
    Grep.parseOutput separatedSearch.validate (separatedSearch.output [()]) 1
        ≠ Grep.resultsOf ([()].filterMap separatedSearch.event) 1 ∧
      Find.searchResults (Find.pathLines ["./a.py\r".toList]) = ["a.py".toList] := by
  obtain ⟨hgrep, hfind⟩ :=
    search_results_kept_iff separatedSearch_lawful [()] 1 ["./a.py\r".toList]
  refine ⟨fun h => ?_, (hfind.mpr (by decide +kernel)).trans (by decide +kernel)⟩
  have hwhole := (hgrep.mp h).1 separatedMatch (by decide +kernel)
  revert hwhole
  decide +kernel

end Tile
