import Mathlib.Algebra.Ring.Nat
import Mathlib.Data.List.Lex
import Mathlib.Data.Nat.Find
import Mathlib.Order.Fin.Basic
import Tile.Text.Scalars
import Tile.Tools.Support.MaximalEdge

/-!
# Tools/Ls — a directory listing, and following its notices

The ls tool shows the sorted entries of a directory one on a line, up to a limit of entries and one
of bytes, and its notice says how to see more: with twice the limit.  **Whoever does what the
notices say is shown ever more of the listing, and in the end all of it**, or as many entries as
the byte limit allows (`ls_following`).  That is so of a directory that is not empty, and whose
names are UTF-8 and have no newline: a name that is not UTF-8 makes every call raise
(`fn_of_surrogate`).
-/

namespace Tile

namespace Ls

/-- An entry of a directory, as `iterdir` yields it: the bytes of its name that are not UTF-8 are
surrogates. -/
structure DirectoryEntry where
  name : PyStr
  isDir : Bool
  deriving Repr, DecidableEq

/-- Model-controlled directory listing arguments. -/
structure LsInput where
  path : String := "."
  limit : Int := 500
  deriving Repr, DecidableEq

/-- How `ls` fails: as a tool, or where its listing is encoded. -/
inductive LsError where
  /-- An `OSError`, which becomes a tool error. -/
  | tool (message : String)
  | unicodeEncode
  deriving Repr, DecidableEq

/-- A display name with directory entries marked by a slash. -/
def formatDirectoryEntry (entry : DirectoryEntry) : PyStr :=
  if entry.isDir then entry.name ++ .ofString "/" else entry.name

-- `str.lower`
variable (lower : PyStr → PyStr)

/-- The entry names for a path, `sorted(…, key=str.lower)`. -/
def listDirectoryEntries (directory : List DirectoryEntry) : List PyStr :=
  (directory.map formatDirectoryEntry).mergeSort fun a b => lower a ≤ lower b

/-- The notice about the limit. -/
def limitNotice (limit : Nat) : String :=
  s!"{limit} entries limit reached. Use limit={limit * 2} for more"

/-- The notice about the byte limit. -/
def bytesNotice (entries : List Text) : String :=
  s!"{OUTPUT_BYTE_LIMIT_LABEL} limit reached. Directory has {entries.length} entries"

/-- Build ls details when the UI has truncation to render. -/
def buildDetails (truncation : Truncation) : Option ToolOutputDetails :=
  let outputDetails := ToolOutputDetails.fromTruncation truncation
  if outputDetails.truncated = false then none else some outputDetails

/-- Build directory listing results from raw entry names. -/
def buildResult (entries : List Text) (limit : Nat) : TextResult :=
  if entries = [] then { text := "(empty directory)".toList }
  else
    let truncation := truncateHead (Text.joinLines entries) limit OUTPUT_BYTE_LIMIT
    { text := appendNoticeBlock truncation.content
        ((if truncation.truncatedBy = some .lines then [limitNotice limit] else []) ++
          (if truncation.truncatedBy = some .bytes then [bytesNotice entries] else []))
      details := buildDetails truncation }

/-- The name has no surrogate, which stands for a byte that is no UTF-8. -/
def isUtf8 (name : PyStr) : Bool := name.all fun c => !decide (IsSurrogate c)

theorem isUtf8_iff {name : PyStr} : isUtf8 name = true ↔ ∀ c ∈ name, ¬ IsSurrogate c := by
  rw [isUtf8, List.all_eq_true]
  exact forall₂_congr fun c _ => by rw [Bool.not_eq_true', decide_eq_false_iff_not]

/-- The names as they can be measured: `_measure_text` encodes them. -/
def encodable (entries : List PyStr) : Except LsError (List Text) :=
  if entries.all isUtf8 then .ok (entries.map Text.ofPoints) else .error .unicodeEncode

/-- List the contents of a directory. -/
def fn (iterdir : String → Except String (List DirectoryEntry)) (params : LsInput) :
    Except LsError TextResult := do
  let limit := max 1 params.limit
  let directory ← (iterdir params.path).mapError .tool
  let entries ← encodable (listDirectoryEntries lower directory)
  return buildResult entries limit.toNat

end Ls

/-- The result says that there is more with a higher limit. -/
def TextResult.limitReached (result : TextResult) : Bool :=
  result.details.any (·.truncatedBy = some .lines)

/-- Call a tool, and again with the limit its notice names, as long as there is one. -/
def follow {ε : Type} (call : Int → Except ε TextResult) : (calls : Nat) → Int → List TextResult
  | 0, _ => []
  | calls + 1, limit =>
    match call limit with
    | .error _ => []
    | .ok result =>
      result :: if result.limitReached then follow call calls (max 1 limit * 2) else []

namespace Ls

/-! ## The listing -/

section Sorted

variable (lower : PyStr → PyStr)

/-- The entries of a directory, each once, in the order of their lowercase names; what this order
does not tell apart stays as it was. -/
structure ListsSorted (directory : List DirectoryEntry) (entries : List PyStr) : Prop where
  perm : entries.Perm (directory.map formatDirectoryEntry)
  ordered : entries.Pairwise fun a b => lower a ≤ lower b
  stable : ∀ a b, lower a ≤ lower b → [a, b].Sublist (directory.map formatDirectoryEntry) →
    [a, b].Sublist entries

theorem listsSorted (directory : List DirectoryEntry) :
    ListsSorted lower directory (listDirectoryEntries lower directory) := by
  have htrans : ∀ a b c : PyStr, decide (lower a ≤ lower b) → decide (lower b ≤ lower c) →
      decide (lower a ≤ lower c) := by
    intro a b c hab hbc
    exact decide_eq_true (le_trans (of_decide_eq_true hab) (of_decide_eq_true hbc))
  have htotal : ∀ a b : PyStr, (decide (lower a ≤ lower b) || decide (lower b ≤ lower a)) := by
    intro a b
    simpa using le_total (lower a) (lower b)
  refine ⟨List.mergeSort_perm _ _, ?_, fun a b hle hsublist => ?_⟩
  · exact (List.pairwise_mergeSort htrans htotal _).imp of_decide_eq_true
  · exact List.pair_sublist_mergeSort htrans htotal (decide_eq_true hle) hsublist

theorem listDirectoryEntries_ne_nil {directory : List DirectoryEntry} (h : directory ≠ []) :
    listDirectoryEntries lower directory ≠ [] := by
  intro hnil
  have hperm := (listsSorted lower directory).perm
  rw [hnil, List.nil_perm, List.map_eq_nil_iff] at hperm
  exact h hperm

/-- A directory that can be shown: there is something to show, and a line is a name. -/
structure Showable (directory : List DirectoryEntry) : Prop where
  nonempty : directory ≠ []
  utf8 : ∀ entry ∈ directory, ∀ c ∈ entry.name, ¬ IsSurrogate c
  lines : ∀ entry ∈ directory, lf ∉ entry.name

theorem forall_listDirectoryEntries_iff {P : CodePoint → Prop}
    (hslash : ∀ c ∈ PyStr.ofString "/", P c) {directory : List DirectoryEntry} :
    (∀ name ∈ listDirectoryEntries lower directory, ∀ c ∈ name, P c) ↔
      ∀ entry ∈ directory, ∀ c ∈ entry.name, P c := by
  have hformat : ∀ entry : DirectoryEntry,
      (∀ c ∈ formatDirectoryEntry entry, P c) ↔ ∀ c ∈ entry.name, P c := by
    intro entry
    rw [formatDirectoryEntry]
    split
    · rw [List.forall_mem_append]
      exact and_iff_left hslash
    · rfl
  simp only [(listsSorted lower directory).perm.mem_iff, List.forall_mem_map, hformat]

theorem slash_not_isSurrogate : ∀ c ∈ PyStr.ofString "/", ¬ IsSurrogate c :=
  List.forall_mem_singleton.mpr (by decide)

theorem all_isUtf8_iff {directory : List DirectoryEntry} :
    (listDirectoryEntries lower directory).all isUtf8 = true ↔
      ∀ entry ∈ directory, ∀ c ∈ entry.name, ¬ IsSurrogate c := by
  rw [← forall_listDirectoryEntries_iff lower slash_not_isSurrogate, List.all_eq_true]
  exact forall₂_congr fun _ _ => isUtf8_iff

/-- **A name that is not UTF-8 cannot be shown**: the call raises, whatever its limit. -/
theorem fn_of_surrogate {iterdir : String → Except String (List DirectoryEntry)} {params : LsInput}
    {directory : List DirectoryEntry} (hdirectory : iterdir params.path = .ok directory)
    {entry : DirectoryEntry} (hentry : entry ∈ directory) {c : CodePoint} (hc : c ∈ entry.name)
    (hsurrogate : IsSurrogate c) : fn lower iterdir params = .error .unicodeEncode := by
  have hnot : ¬ (listDirectoryEntries lower directory).all isUtf8 = true := fun hall =>
    (all_isUtf8_iff lower).mp hall entry hentry c hc hsurrogate
  have hraises : encodable (listDirectoryEntries lower directory) = .error .unicodeEncode :=
    if_neg hnot
  simp only [fn, hdirectory, Except.mapError, bind, Except.bind, hraises]

/-- The lines of a listing. -/
theorem Showable.newline_notMem {directory : List DirectoryEntry} (h : Showable directory) :
    ∀ name ∈ (listDirectoryEntries lower directory).map Text.ofPoints, '\n' ∉ name := by
  intro name hname hmem
  obtain ⟨points, hpoints, rfl⟩ := List.mem_map.mp hname
  obtain ⟨c, hc, hnewline⟩ := List.mem_map.mp hmem
  have hutf8 : ¬ IsSurrogate c :=
    (forall_listDirectoryEntries_iff lower slash_not_isSurrogate).mpr h.utf8 points hpoints c hc
  have hlf : c = lf := by rw [← Text.codePoint_ofNat hutf8, hnewline]; rfl
  have hslash : ∀ c ∈ PyStr.ofString "/", c ≠ lf := List.forall_mem_singleton.mpr (by decide)
  have hlines : ∀ entry ∈ directory, ∀ c ∈ entry.name, c ≠ lf :=
    fun entry hentry c hc hlf => h.lines entry hentry (hlf ▸ hc)
  exact (forall_listDirectoryEntries_iff lower hslash).mpr hlines points hpoints c hc hlf

theorem Showable.points {directory : List DirectoryEntry} (h : Showable directory) :
    ((listDirectoryEntries lower directory).map Text.ofPoints).map Text.points
      = listDirectoryEntries lower directory := by
  have hutf8 := (forall_listDirectoryEntries_iff lower slash_not_isSurrogate).mpr h.utf8
  rw [List.map_map]
  exact (List.map_congr_left fun name hname =>
    Text.points_ofPoints (hutf8 name hname)).trans (List.map_id _)

end Sorted

/-! ## How much is shown -/

/-- How many of the entries fit the byte limit, when the last needs no newline. -/
def fittingEntries (entries : List Text) : Nat :=
  Nat.findGreatest (fun k => Text.cost (entries.take k) ≤ OUTPUT_BYTE_LIMIT + 1) entries.length

theorem cost_take_le (entries : List Text) {j k : Nat} (h : j ≤ k) :
    Text.cost (entries.take j) ≤ Text.cost (entries.take k) := by
  obtain ⟨rest, hrest⟩ := List.take_prefix_take_left (l := entries) h
  rw [← hrest, Text.cost_append]
  exact Nat.le_add_right _ _

theorem cost_take_le_iff {entries : List Text} {k : Nat} (hk : k ≤ entries.length) :
    Text.cost (entries.take k) ≤ OUTPUT_BYTE_LIMIT + 1 ↔ k ≤ fittingEntries entries := by
  constructor
  · exact fun h => Nat.le_findGreatest hk h
  · intro h
    have hfits : Text.cost (entries.take (fittingEntries entries)) ≤ OUTPUT_BYTE_LIMIT + 1 :=
      Nat.findGreatest_spec (P := fun k => Text.cost (entries.take k) ≤ OUTPUT_BYTE_LIMIT + 1)
        (Nat.zero_le entries.length) (Nat.zero_le _)
    exact (cost_take_le entries h).trans hfits

theorem fittingEntries_le (entries : List Text) : fittingEntries entries ≤ entries.length :=
  Nat.findGreatest_le _

section Shown

variable {entries : List Text} {limit : Nat}

theorem length_take_min (entries : List Text) (limit : Nat) :
    (entries.take (min limit (fittingEntries entries))).length
      = min limit (fittingEntries entries) := by
  have hle := fittingEntries_le entries
  rw [List.length_take]
  omega

/-- The longest run of entries that fits both limits. -/
theorem longest_take (entries : List Text) (limit : Nat) :
    LongestPrefix (Fits limit OUTPUT_BYTE_LIMIT) entries
      (entries.take (min limit (fittingEntries entries))) := by
  have hlength := length_take_min entries limit
  have hle := fittingEntries_le entries
  refine ⟨List.take_prefix _ _, ⟨by rw [hlength]; exact Nat.min_le_left _ _, ?_⟩,
    fun next hnext hfits => ?_⟩
  · exact (cost_take_le_iff ((Nat.min_le_right _ _).trans hle)).mpr (Nat.min_le_right _ _)
  · obtain ⟨hcount, hcost⟩ := hfits
    have htake := List.prefix_iff_eq_take.mp hnext
    have hmore := hnext.length_le
    rw [List.length_append, List.length_singleton, hlength] at htake hmore hcount
    rw [htake, cost_take_le_iff hmore] at hcost
    omega

/-- There is more with a higher limit. -/
def HasMore (entries : List Text) (limit : Nat) : Prop :=
  limit < entries.length ∧ limit ≤ fittingEntries entries

instance (entries : List Text) (limit : Nat) : Decidable (HasMore entries limit) :=
  inferInstanceAs (Decidable (_ ∧ _))

/-- What a result shows of the entries, with what notices, and whether it asks for a higher
limit. -/
structure Shows (result : TextResult) (shown : List Text) (notices : List String)
    (limitReached : Bool) : Prop where
  text : result.text = appendNoticeBlock (Text.joinLines shown) notices
  details : result.details = none ↔ notices = []
  limitReached : result.limitReached = limitReached

/-- **What is shown of a listing**: as many entries as fit both limits. -/
theorem buildResult_shows (hlimit : 1 ≤ limit) (hne : entries ≠ [])
    (hlines : ∀ name ∈ entries, '\n' ∉ name) {k : Nat}
    (hk : min limit (fittingEntries entries) = k) :
    Shows (buildResult entries limit) (entries.take k)
      (if k = entries.length then []
        else if k = limit then [limitNotice limit] else [bytesNotice entries])
      (k ≠ entries.length ∧ k = limit) := by
  have hle : k ≤ entries.length := hk ▸ (Nat.min_le_right _ _).trans (fittingEntries_le entries)
  have htext := Text.lines_joinLines hne hlines
  have hedge : ∀ n, edgeLines entries .head n = entries.take n := fun _ => rfl
  have hlongest := longest_take entries limit
  rw [← htext] at hlongest
  have hkept : truncateHead (Text.joinLines entries) limit OUTPUT_BYTE_LIMIT = _ :=
    truncateText_of_longest hlimit hlongest
  rw [htext, length_take_min, hk] at hkept
  rw [buildResult, if_neg hne, hkept]
  by_cases hall : k = entries.length
  · subst hall
    constructor <;>
      simp [keptEdge, htext, hedge, buildDetails, ToolOutputDetails.fromTruncation,
        TextResult.limitReached]
  · have hlt : k < entries.length := Nat.lt_of_le_of_ne hle hall
    by_cases hreached : k = limit
    · subst hreached
      constructor <;>
        simp [keptEdge, htext, hedge, hlt, hall, buildDetails, ToolOutputDetails.fromTruncation,
          TextResult.limitReached]
    · constructor <;>
        simp [keptEdge, htext, hedge, hlt, hall, hreached, buildDetails,
          ToolOutputDetails.fromTruncation, TextResult.limitReached]

theorem buildResult_of_hasMore (hlimit : 1 ≤ limit) (hlines : ∀ name ∈ entries, '\n' ∉ name)
    (hmore : HasMore entries limit) :
    Shows (buildResult entries limit) (entries.take limit) [limitNotice limit] true := by
  have hne : entries ≠ [] := by
    rintro rfl
    exact absurd hmore.1 (Nat.not_lt_zero _)
  have hshows := buildResult_shows hlimit hne hlines (Nat.min_eq_left hmore.2)
  rwa [if_neg hmore.1.ne, if_pos rfl, decide_eq_true ⟨hmore.1.ne, rfl⟩] at hshows

theorem buildResult_of_not_hasMore (hlimit : 1 ≤ limit) (hne : entries ≠ [])
    (hlines : ∀ name ∈ entries, '\n' ∉ name) (hmore : ¬ HasMore entries limit) :
    Shows (buildResult entries limit) (entries.take (fittingEntries entries))
      (if fittingEntries entries = entries.length then [] else [bytesNotice entries]) false := by
  have hle := fittingEntries_le entries
  have hfits : fittingEntries entries ≤ limit := by
    by_contra hover
    exact hmore ⟨by omega, by omega⟩
  have hshows := buildResult_shows hlimit hne hlines (Nat.min_eq_right hfits)
  have hnot : ¬ (fittingEntries entries ≠ entries.length ∧ fittingEntries entries = limit) := by
    rintro ⟨hpart, hreached⟩
    exact hmore ⟨by omega, by omega⟩
  rw [decide_eq_false hnot] at hshows
  by_cases hall : fittingEntries entries = entries.length
  · rwa [if_pos hall] at hshows ⊢
  · rw [if_neg hall, if_neg fun hreached => hnot ⟨hall, hreached⟩] at hshows
    rwa [if_neg hall]

end Shown

/-! ## Following the notices -/

theorem follow_eq {ε : Type} {call : Int → Except ε TextResult} {page : Nat → TextResult}
    (hcall : ∀ limit, call limit = .ok (page (max 1 limit).toNat)) (calls more : Nat) {limit : Int}
    {first : Nat} (hfirst : (max 1 limit).toNat = first)
    (hreached : ∀ i < calls, (page (first * 2 ^ i)).limitReached = true)
    (hlast : (page (first * 2 ^ calls)).limitReached = false) :
    follow call (calls + 1 + more) limit
      = (List.range (calls + 1)).map fun i => page (first * 2 ^ i) := by
  induction calls generalizing limit first with
  | zero =>
    rw [Nat.pow_zero, Nat.mul_one] at hlast
    rw [Nat.zero_add, Nat.add_comm, follow, hcall, hfirst]
    simp [hlast]
  | succ calls ih =>
    have hdouble : ∀ i, first * 2 ^ (i + 1) = first * 2 * 2 ^ i := by
      intro i
      rw [Nat.pow_succ', Nat.mul_assoc]
    have hpage := hreached 0 (Nat.succ_pos _)
    rw [Nat.pow_zero, Nat.mul_one] at hpage
    have hrest := @ih (max 1 limit * 2) (first * 2) (by omega)
      (fun i hi => hdouble i ▸ hreached (i + 1) (by omega)) (hdouble calls ▸ hlast)
    rw [show calls + 1 + 1 + more = (calls + 1 + more) + 1 by omega, follow, hcall, hfirst,
      List.range_succ_eq_map]
    simp [hpage, hrest, hdouble, Function.comp_def]

/-- Some doubled limit is the last that is needed. -/
theorem exists_least_not_hasMore (entries : List Text) {limit : Nat} (hlimit : 1 ≤ limit) :
    ∃ calls, ¬ HasMore entries (limit * 2 ^ calls) ∧
      ∀ i < calls, HasMore entries (limit * 2 ^ i) := by
  have hlast : ∃ calls, ¬ HasMore entries (limit * 2 ^ calls) := by
    refine ⟨entries.length, fun hmore => ?_⟩
    have hpow := Nat.lt_two_pow_self (n := entries.length)
    have hle := Nat.le_mul_of_pos_left (2 ^ entries.length) hlimit
    exact absurd hmore.1 (by omega)
  exact ⟨Nat.find hlast, Nat.find_spec hlast, fun i hi => not_not.mp (Nat.find_min hlast hi)⟩

/-- **Following the notices of ls shows the whole directory**, or what the byte limit allows.  Each
call but the last asks for twice its limit and shows that many entries. -/
theorem ls_following (lower : PyStr → PyStr)
    {iterdir : String → Except String (List DirectoryEntry)} (params : LsInput)
    {directory : List DirectoryEntry} (hdirectory : iterdir params.path = .ok directory)
    (hshowable : Showable directory) {first : Nat}
    (hfirst : (max 1 params.limit).toNat = first) :
    ∃ (entries : List Text) (calls : Nat),
      ListsSorted lower directory (entries.map Text.points) ∧
      (∀ more, follow (fun limit => fn lower iterdir { params with limit }) (calls + 1 + more)
          params.limit
        = (List.range (calls + 1)).map fun i => buildResult entries (first * 2 ^ i)) ∧
      (∀ i < calls, first * 2 ^ i < entries.length ∧
        Shows (buildResult entries (first * 2 ^ i)) (entries.take (first * 2 ^ i))
          [limitNotice (first * 2 ^ i)] true) ∧
      Shows (buildResult entries (first * 2 ^ calls)) (entries.take (fittingEntries entries))
        (if fittingEntries entries = entries.length then [] else [bytesNotice entries]) false := by
  let entries := (listDirectoryEntries lower directory).map Text.ofPoints
  have hcall : ∀ limit, fn lower iterdir { params with limit }
      = .ok (buildResult entries (max 1 limit).toNat) := by
    intro limit
    have hencoded : encodable (listDirectoryEntries lower directory) = .ok entries :=
      if_pos ((all_isUtf8_iff lower).mpr hshowable.utf8)
    simp only [fn, hdirectory, Except.mapError, bind, Except.bind, hencoded]
    rfl
  have hentries : entries ≠ [] := fun hnil =>
    listDirectoryEntries_ne_nil lower hshowable.nonempty (List.map_eq_nil_iff.mp hnil)
  have hnames := hshowable.newline_notMem lower
  have hpositive : 1 ≤ first := by omega
  obtain ⟨calls, hlast, hmore⟩ := exists_least_not_hasMore entries hpositive
  have hpos : ∀ i, 1 ≤ first * 2 ^ i := fun i => Nat.mul_pos hpositive (Nat.two_pow_pos i)
  have hshows := fun i hi => buildResult_of_hasMore (hpos i) hnames (hmore i hi)
  have hlastShows := buildResult_of_not_hasMore (hpos calls) hentries hnames hlast
  refine ⟨entries, calls, (hshowable.points lower).symm ▸ listsSorted lower directory,
    fun more => ?_, fun i hi => ⟨(hmore i hi).1, hshows i hi⟩, hlastShows⟩
  exact follow_eq hcall calls more hfirst (fun i hi => (hshows i hi).limitReached)
    hlastShows.limitReached

/-- `str.lower` in ASCII. -/
def asciiLower : PyStr → PyStr := List.map fun c => if 65 ≤ c ∧ c ≤ 90 then c + 32 else c

/-- Three entries, one of them a directory. -/
def threeEntries : List DirectoryEntry :=
  [⟨.ofString "b", false⟩, ⟨.ofString "A", true⟩, ⟨.ofString "a", false⟩]

/-- They are listed with a limit of one at first. -/
theorem ls_following_three :
    ∃ (entries : List Text) (calls : Nat),
      ListsSorted asciiLower threeEntries (entries.map Text.points) ∧
      (∀ more, follow (fun limit => fn asciiLower (fun _ => .ok threeEntries)
          { path := "src", limit }) (calls + 1 + more) 0
        = (List.range (calls + 1)).map fun i => buildResult entries (1 * 2 ^ i)) ∧
      (∀ i < calls, 1 * 2 ^ i < entries.length ∧
        Shows (buildResult entries (1 * 2 ^ i)) (entries.take (1 * 2 ^ i))
          [limitNotice (1 * 2 ^ i)] true) ∧
      Shows (buildResult entries (1 * 2 ^ calls)) (entries.take (fittingEntries entries))
        (if fittingEntries entries = entries.length then [] else [bytesNotice entries]) false :=
  ls_following asciiLower { path := "src", limit := 0 } rfl
    ⟨List.cons_ne_nil _ _, by simp [PyStr.ofString, IsSurrogate],
      by simp [PyStr.ofString, lf]⟩ rfl

end Ls

end Tile
