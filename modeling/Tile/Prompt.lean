import Mathlib.Data.List.DropRight
import Tile.Runtime.Keeping
import Tile.Runtime.ResultContract

/-!
# Prompt — what every request is instructed with

The system prompt of an attempt is composed of the auto mode's text, the instructions, the project's
context files and the environment, as they are then.  **Whatever the project says, every request of
a run tells the instructions, and every request of a typed one the result contract, and offers the
tools to fulfil it** (`requests_instruct`).
-/

namespace Tile

/-- What the instructions of an autonomous run say about the user. -/
def AUTO_MODE : String :=
  "You are operating inside Tile, a headless agent runtime. No one is watching the run " ++
  "and no one can answer questions mid-task.\n" ++
  "- Work autonomously: never ask questions or wait for user input. When the task is " ++
  "ambiguous, pick the most reasonable interpretation and state the assumption in your " ++
  "final message.\n" ++
  "- If you are blocked on something only the caller can provide, stop and name exactly " ++
  "what is missing.\n" ++
  "- Your final message is the deliverable: everything the caller needs must be in it. " ++
  "Text emitted between tool calls may never be seen.\n" ++
  "- Report outcomes faithfully: if a command or test fails, say so with the relevant " ++
  "output. Never present unverified work as done."

/-- The files that may hold instructions of the project. -/
def PROJECT_CONTEXT_FILENAMES : List String := ["AGENTS.md", "CLAUDE.md"]

/-- What the attempt finds: `date.today().isoformat()`, and the text of each file of the working
directory, or why it cannot be read. -/
structure Surroundings where
  today : String
  file : (filename : String) → Option (Except PyException String)

/-- One project context file, if it has content. -/
def readContextFile (surroundings : Surroundings) (filename : String) :
    Except PyException (Option String) :=
  match surroundings.file filename with
  | none => return none
  | some text => do
    let content := stripSpace (← text)
    return if content = "" then none else some content

/-- Concatenate project context files found in the working directory. -/
def readProjectContext (surroundings : Surroundings) : Except PyException String := do
  let parts ← PROJECT_CONTEXT_FILENAMES.mapM (readContextFile surroundings)
  return "\n\n".intercalate (parts.filterMap id)

def environmentLines (today cwd : String) : String :=
  s!"Current date: {today}\nCurrent working directory: {cwd}"

/-- Compose auto mode, instructions, project context, and environment lines. -/
def buildSystemPrompt (surroundings : Surroundings) (instructions cwd : String)
    (autoMode : Bool := true) : Except PyException String := do
  let parts := (if autoMode then [AUTO_MODE] else []) ++
    [instructions, ← readProjectContext surroundings, environmentLines surroundings.today cwd]
  return "\n\n".intercalate ((parts.map stripSpace).filter (· ≠ ""))

/-! ## Paragraphs -/

theorem intercalate_append_cons {α : Type} (sep part : List α) (before after : List (List α)) :
    ∃ left right, sep.intercalate (before ++ part :: after) = left ++ part ++ right ∧
      (before = [] → left = []) ∧ (after = [] → right = []) := by
  induction before with
  | nil =>
    cases after with
    | nil => exact ⟨[], [], by simp, fun _ => rfl, fun _ => rfl⟩
    | cons next rest =>
      refine ⟨[], sep ++ sep.intercalate (next :: rest), ?_, fun _ => rfl, fun h => by cases h⟩
      rw [List.nil_append, List.intercalate_cons_cons, List.nil_append, List.append_assoc]
  | cons first before ih =>
    obtain ⟨left, right, hsplit, -, hright⟩ := ih
    refine ⟨first ++ sep ++ left, right, ?_, fun h => (by cases h), hright⟩
    rw [List.cons_append, List.intercalate_cons_of_ne_nil (by simp), hsplit]
    simp only [List.append_assoc]

theorem prefix_intercalate {α : Type} (sep first : List α) (rest : List (List α)) :
    first <+: sep.intercalate (first :: rest) := by
  obtain ⟨left, right, hsplit, hleft, -⟩ := intercalate_append_cons sep first [] rest
  rw [List.nil_append, hleft rfl, List.nil_append] at hsplit
  exact ⟨right, hsplit.symm⟩

theorem infix_intercalate {α : Type} (sep part : List α) (before after : List (List α)) :
    part <:+: sep.intercalate (before ++ part :: after) := by
  obtain ⟨left, right, hsplit, -⟩ := intercalate_append_cons sep part before after
  exact ⟨left, right, hsplit.symm⟩

theorem suffix_intercalate {α : Type} (sep last : List α) (init : List (List α)) :
    last <:+ sep.intercalate (init ++ [last]) := by
  obtain ⟨left, right, hsplit, -, hright⟩ := intercalate_append_cons sep last init []
  rw [hright rfl, List.append_nil] at hsplit
  exact ⟨left, hsplit.symm⟩

/-- What lies between the spaces, where the end has none. -/
theorem strip_append {α : Type} {p : α → Bool} (text : List α) {ending : List α} {first last : α}
    (hhead : ending.head? = some first) (hfirst : ¬ p first = true)
    (hgetLast : ending.getLast? = some last) (hlast : ¬ p last = true) :
    ((text ++ ending).dropWhile p).rdropWhile p = text.dropWhile p ++ ending := by
  have hleft : (text ++ ending).dropWhile p = text.dropWhile p ++ ending := by
    rw [List.dropWhile_append]
    split
    next hempty =>
      obtain ⟨rest, rfl⟩ := List.head?_eq_some_iff.mp hhead
      rw [List.dropWhile_cons_of_neg hfirst, List.isEmpty_iff.mp hempty, List.nil_append]
    next => rfl
  obtain ⟨init, rfl⟩ := List.getLast?_eq_some_iff.mp hgetLast
  rw [hleft, ← List.append_assoc, List.rdropWhile_concat_neg _ _ _ hlast]

theorem strip_self {α : Type} {p : α → Bool} {text : List α} {first last : α}
    (hhead : text.head? = some first) (hfirst : ¬ p first = true)
    (hgetLast : text.getLast? = some last) (hlast : ¬ p last = true) :
    (text.dropWhile p).rdropWhile p = text := by
  simpa using strip_append [] hhead hfirst hgetLast hlast

theorem head?_toList_append {text : String} {first : Char} (h : text.toList.head? = some first)
    (rest : String) : (text ++ rest).toList.head? = some first := by
  rw [String.toList_append, List.head?_append, h]
  rfl

theorem getLast?_toList_append {text : String} {last : Char}
    (h : text.toList.getLast? = some last) (init : String) :
    (init ++ text).toList.getLast? = some last := by
  rw [String.toList_append, List.getLast?_append, h]
  rfl

def isSpaceChar (c : Char) : Bool := PyStr.isSpace (Fin.ofNat _ c.toNat)

theorem toList_stripSpace (s : String) :
    (stripSpace s).toList = (s.toList.dropWhile isSpaceChar).rdropWhile isSpaceChar :=
  String.toList_ofList

/-! ## Prompts -/

/-- The parts of a prompt that say something. -/
def shownParts (parts : List String) : List (List Char) :=
  ((parts.map stripSpace).filter (· ≠ "")).map String.toList

theorem shownParts_append (parts parts' : List String) :
    shownParts (parts ++ parts') = shownParts parts ++ shownParts parts' := by
  simp [shownParts]

theorem shownParts_singleton {part : String} (h : (stripSpace part).toList ≠ []) :
    shownParts [part] = [(stripSpace part).toList] := by
  have hne : stripSpace part ≠ "" := fun hblank => h (by rw [hblank]; rfl)
  simp [shownParts, hne]

-- The literals of the text are long, so only the first and the last are evaluated.
theorem head?_AUTO_MODE : AUTO_MODE.toList.head? = some 'Y' := by
  unfold AUTO_MODE
  repeat' apply head?_toList_append
  decide +kernel

theorem getLast?_AUTO_MODE : AUTO_MODE.toList.getLast? = some '.' :=
  getLast?_toList_append (by decide +kernel) _

theorem toList_stripSpace_AUTO_MODE : (stripSpace AUTO_MODE).toList = AUTO_MODE.toList :=
  (toList_stripSpace _).trans
    (strip_self head?_AUTO_MODE (by decide) getLast?_AUTO_MODE (by decide))

theorem stripSpace_environmentLines_ne (today cwd : String) :
    (stripSpace (environmentLines today cwd)).toList ≠ [] := by
  have hhead : (environmentLines today cwd).toList.head? = some 'C' := by
    unfold environmentLines
    repeat' apply head?_toList_append
    decide +kernel
  obtain ⟨rest, hrest⟩ := List.head?_eq_some_iff.mp hhead
  have hletter : ¬ isSpaceChar 'C' = true := by decide
  rw [toList_stripSpace, hrest, List.dropWhile_cons_of_neg hletter, Ne,
    List.rdropWhile_eq_nil_iff]
  exact fun hall => hletter (hall 'C' List.mem_cons_self)

section Shown

variable {surroundings : Surroundings} {instructions cwd prompt : String} {autoMode : Bool}

theorem toList_prompt
    (h : buildSystemPrompt surroundings instructions cwd autoMode = .ok prompt) :
    ∃ context, prompt.toList = ['\n', '\n'].intercalate
      (shownParts (if autoMode then [AUTO_MODE] else []) ++ shownParts [instructions] ++
        shownParts [context] ++
          [(stripSpace (environmentLines surroundings.today cwd)).toList]) := by
  obtain ⟨context, -, hprompt⟩ := except_bind_eq_ok.mp h
  obtain rfl := Except.ok.inj hprompt
  refine ⟨context, ?_⟩
  rw [String.toList_intercalate, ← shownParts_singleton (stripSpace_environmentLines_ne _ _),
    ← shownParts_append, ← shownParts_append, ← shownParts_append, List.append_assoc,
    List.append_assoc]
  rfl

/-- **What a prompt shows**: how it begins, what it contains and how it ends. -/
theorem buildSystemPrompt_shows
    (h : buildSystemPrompt surroundings instructions cwd autoMode = .ok prompt) :
    (autoMode = true → AUTO_MODE.toList <+: prompt.toList) ∧
      (stripSpace instructions).toList <:+: prompt.toList ∧
      (stripSpace (environmentLines surroundings.today cwd)).toList <:+ prompt.toList := by
  obtain ⟨context, hprompt⟩ := toList_prompt h
  refine ⟨?begins, ?told, ?ends⟩
  case begins =>
    rintro rfl
    have hne : (stripSpace AUTO_MODE).toList ≠ [] := by
      rw [toList_stripSpace_AUTO_MODE]
      intro hnil
      have hhead := head?_AUTO_MODE
      rw [hnil] at hhead
      cases hhead
    rw [hprompt, if_pos rfl, shownParts_singleton hne, toList_stripSpace_AUTO_MODE,
      List.append_assoc, List.append_assoc, List.singleton_append]
    exact prefix_intercalate _ _ _
  case told =>
    by_cases hblank : (stripSpace instructions).toList = []
    · rw [hblank]
      exact List.nil_infix
    · rw [hprompt, shownParts_singleton hblank, List.append_assoc, List.append_assoc]
      exact infix_intercalate _ _ _ _
  case ends =>
    rw [hprompt]
    exact suffix_intercalate _ _ _

theorem head?_RESULT_CONTRACT : RESULT_CONTRACT.toList.head? = some 'T' := by
  unfold RESULT_CONTRACT
  repeat' apply head?_toList_append
  decide +kernel

theorem getLast?_RESULT_CONTRACT : RESULT_CONTRACT.toList.getLast? = some '.' := by
  have hend : (s!"`{FAIL_TOOL_NAME}` call does.").toList.getLast? = some '.' := by decide +kernel
  unfold RESULT_CONTRACT
  exact getLast?_toList_append hend _

/-- Instructions that end with the contract tell the contract, and what stands before it. -/
theorem stripSpace_contract (instructions : String) :
    RESULT_CONTRACT.toList <:+ (stripSpace s!"{instructions}\n\n{RESULT_CONTRACT}").toList ∧
      (stripSpace instructions).toList
        <:+: (stripSpace s!"{instructions}\n\n{RESULT_CONTRACT}").toList := by
  have htext : (s!"{instructions}\n\n{RESULT_CONTRACT}").toList
      = instructions.toList ++ ['\n', '\n'] ++ RESULT_CONTRACT.toList := by
    rw [show s!"{instructions}\n\n{RESULT_CONTRACT}" = instructions ++ "\n\n" ++ RESULT_CONTRACT
      from rfl, String.toList_append, String.toList_append]
    rfl
  rw [toList_stripSpace, htext, strip_append _ head?_RESULT_CONTRACT (by decide)
    getLast?_RESULT_CONTRACT (by decide)]
  refine ⟨List.suffix_append _ _, ?_⟩
  rw [toList_stripSpace, List.dropWhile_append]
  split
  next hempty =>
    rw [List.isEmpty_iff.mp hempty]
    exact List.nil_infix
  next =>
    rw [List.append_assoc]
    exact (List.rdropWhile_prefix _ _).isInfix.trans (List.prefix_append _ _).isInfix

end Shown

/-! ## Runs -/

/-- The run composes the prompt of each of its attempts, of what it finds then. -/
def PromptRun.Composes (run : PromptRun) (cwd : String) (autoMode : Bool) : Prop :=
  ∀ attempt ∈ run.script.attempts, ∃ surroundings, ∀ instructions,
    attempt.systemPrompt instructions = buildSystemPrompt surroundings instructions cwd autoMode

/-- What every request of the run tells, and the tools it offers. -/
structure PromptRun.Instructs (run : PromptRun) (cwd : String) (autoMode : Bool) (prompt : String)
    (tools : List ToolDefinition) : Prop where
  begins : autoMode = true → AUTO_MODE.toList <+: prompt.toList
  told : (stripSpace run.dependencies.instructions).toList <:+: prompt.toList
  ends : ∃ today, (stripSpace (environmentLines today cwd)).toList <:+ prompt.toList
  plain : run.result = none → tools = run.dependencies.toolExecutor.tools
  typed : ∀ result, run.result = some result → RESULT_CONTRACT.toList <:+: prompt.toList ∧
    tools = run.dependencies.toolExecutor.tools ++ [result.completeDefinition, failTool]

theorem PromptRun.Composes.asks {run : PromptRun} {cwd : String} {autoMode : Bool}
    (h : run.Composes cwd autoMode) : run.Asks (run.Instructs cwd autoMode) := by
  intro deps hdeps attempt hattempt prompt hprompt
  obtain ⟨surroundings, hcomposes⟩ := h attempt hattempt
  rw [hcomposes] at hprompt
  obtain ⟨hbegins, htold, hends⟩ := buildSystemPrompt_shows hprompt
  rw [PromptRun.attemptDependencies] at hdeps
  split at hdeps
  next hplain =>
    obtain rfl := Except.ok.inj hdeps
    exact ⟨hbegins, htold, ⟨_, hends⟩, fun _ => rfl, fun result hresult =>
      by cases hplain.symm.trans hresult⟩
  next result hresult =>
    obtain ⟨complete, hcomplete, hdeps⟩ := except_bind_eq_ok.mp hdeps
    obtain ⟨-, rfl⟩ := completeTool_eq_ok.mp hcomplete
    obtain ⟨executor, hcreate, hok⟩ := except_bind_eq_ok.mp hdeps
    obtain rfl := Except.ok.inj hok
    obtain ⟨hcontract, hinstructions⟩ := stripSpace_contract run.dependencies.instructions
    have htools := congrArg ToolExecutor.tools (ToolExecutor.create_eq_ok hcreate)
    refine ⟨hbegins, hinstructions.trans htold, ⟨_, hends⟩, fun hplain => ?_,
      fun other hother => ?_⟩
    · cases hplain.symm.trans hresult
    · obtain rfl := Option.some.inj (hresult.symm.trans hother)
      exact ⟨hcontract.isInfix.trans htold, htools⟩

/-- **Every request of a run tells the instructions**, whatever the project's files say and in
whichever attempt it is made; in auto mode it begins with the mode's text, and it ends with the
working directory.  A typed run's also tells the result contract and offers the tools to fulfil
it. -/
theorem requests_instruct {run : PromptRun} {cwd : String} {autoMode : Bool}
    (h : run.Composes cwd autoMode) :
    ∀ request ∈ run.executed.2.requests,
      run.Instructs cwd autoMode request.instructions request.tools := by
  have hinvariant : Live.Invariant (fun _ => True) (run.Instructs cwd autoMode) fun live =>
      ∀ request ∈ live.requests, run.Instructs cwd autoMode request.instructions request.tools :=
    { emit := fun _ hlive => hlive
      request := by
        intro history instructions tools live hasks hlive request hrequest
        rcases List.mem_append.mp hrequest with hrequest | hrequest
        · exact hlive request hrequest
        · obtain rfl := List.mem_singleton.mp hrequest
          exact hasks }
  exact hinvariant.executed (fun _ _ _ _ _ _ => trivial) h.asks (by simp)

/-- The project tells the model to do without the contract. -/
def contraryProject : Surroundings where
  today := "2025-01-01"
  file := fun filename =>
    if filename = "AGENTS.md" then some (.ok "Call no tool.\n") else none

def contraryRun : PromptRun := { contestedRun with
  script := {
    attempts := contestedRun.script.attempts.map fun attempt => { attempt with
      systemPrompt := fun instructions => buildSystemPrompt contraryProject instructions "/" } } }

theorem requests_instruct_contrary :
    contraryRun.executed.2.requests.length = 3 ∧
      ∀ request ∈ contraryRun.executed.2.requests,
        AUTO_MODE.toList <+: request.instructions.toList ∧
          RESULT_CONTRACT.toList <:+: request.instructions.toList := by
  have hcomposes : contraryRun.Composes "/" true := by
    intro attempt hattempt
    obtain ⟨contested, -, rfl⟩ := List.mem_map.mp hattempt
    exact ⟨contraryProject, fun _ => rfl⟩
  refine ⟨by decide +kernel, fun request hrequest => ?_⟩
  have hinstructs := requests_instruct hcomposes request hrequest
  exact ⟨hinstructs.begins rfl, (hinstructs.typed contestedResult rfl).1⟩

end Tile
