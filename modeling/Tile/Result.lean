import Tile.Types.Conversation

/-!
# Result — run outcomes

A run ends with `completed`, `failed` or `aborted`.  A completed typed run carries an instance of
the caller's result model, whose stored form is the JSON object it dumps to.
-/

namespace Tile

/-- A validated instance of a caller's result model.  `dump` is the JSON object the model
serializes to, absent when serialization raises. -/
structure ModelInstance where
  typeName : String
  dump : Option JsonObject
  deriving Repr, DecidableEq

/-- What a completed run returns: the text of a plain run, the instance of a typed one, or the
object that was stored of it. -/
inductive CompletedValue where
  | text (text : String)
  | object (object : JsonObject)
  | model (value : ModelInstance)
  deriving Repr, DecidableEq

/-- Where an exception came from: the provider's turn, or anything else of the run. -/
inductive ExecutionFailureOrigin where
  | turn | execution
  deriving Repr, DecidableEq

/-- Why a run was aborted. -/
inductive AbortReason where
  | cancelled
  deriving Repr, DecidableEq, Inhabited

/-- Why a run failed: the agent said so, or an exception ended it. -/
inductive FailureCause where
  | agentFailure (reason : String)
  | executionFailure (origin : ExecutionFailureOrigin) (exceptionType message : String)
  deriving Repr, DecidableEq

/-- What is stored of the end of a run. -/
inductive RunOutcome where
  | completed (value : CompletedValue)
  | failed (cause : FailureCause)
  | aborted (reason : AbortReason)
  deriving Repr, DecidableEq

/-- The documented plain-JSON form of an outcome: a typed value is read back as the JSON object it
was stored as. -/
def RunOutcome.plain : RunOutcome → RunOutcome
  | .completed (.model m) => .completed (m.dump.elim (.model m) .object)
  | outcome => outcome

theorem RunOutcome.plain_plain (outcome : RunOutcome) : outcome.plain.plain = outcome.plain := by
  match outcome with
  | .completed (.text _) | .completed (.object _) | .failed _ | .aborted _ => rfl
  | .completed (.model m) => cases hdump : m.dump <;> simp [plain, hdump]

/-- The tool that ends a typed run with a result. -/
def COMPLETE_TOOL_NAME : String := "complete"

/-- The tool that ends a typed run without one. -/
def FAIL_TOOL_NAME : String := "fail"

/-- How often a typed run is asked again for its result. -/
def MAX_RESULT_FOLLOW_UPS : Nat := 8

/-- What the instructions of a typed run end with. -/
def RESULT_CONTRACT : String :=
  s!"This run must end with a result tool call.\n" ++
  s!"- When the task is complete, call `{COMPLETE_TOOL_NAME}` with your final result as " ++
  s!"its arguments. The arguments are validated against the required schema; validation " ++
  s!"errors come back as tool errors you can correct.\n" ++
  s!"- If you cannot complete the task or cannot produce a conforming result, call " ++
  s!"`{FAIL_TOOL_NAME}` with a clear `reason`.\n" ++
  s!"- Plain text does not end the run. Only a `{COMPLETE_TOOL_NAME}` or " ++
  s!"`{FAIL_TOOL_NAME}` call does."

/-- The message that asks for the result again. -/
def RESULT_FOLLOW_UP : String :=
  s!"You ended your turn without calling `{COMPLETE_TOOL_NAME}` or " ++
  s!"`{FAIL_TOOL_NAME}`. Call `{COMPLETE_TOOL_NAME}` with your final result, " ++
  s!"or `{FAIL_TOOL_NAME}` with a reason if you cannot."

/-- Why a typed run failed that gave no result. -/
def NO_RESULT_REASON : String :=
  s!"The model ended the run without calling `{COMPLETE_TOOL_NAME}` or " ++
  s!"`{FAIL_TOOL_NAME}`."

end Tile
