import Tile.Library.Signature
import Tile.Runtime.Execution

/-!
# Runtime/Harness — the tools of a harness

    tools ──reserved names──▸ ──bind the cwd──▸ ──unique names, signatures──▸ executor

A harness is created once and runs many prompts, so what could go wrong with its tools is checked
when it is created.  **It accepts just the tools that its executor can always call**
(`harness_accepts_iff`), and **each prompt finds each tool, and a typed prompt whose result model
has an object schema those of its output contract** (`harness_serves`).
-/

namespace Tile

/-- A tool, as the caller gives it to a harness. -/
structure RegisteredTool where
  definition : ToolDefinition
  /-- The names of the properties in the schema of its input model. -/
  properties : List String := []
  /-- The parameters of its function. -/
  signature : Signature
  /-- The name is not empty and has no whitespace around it. -/
  clean : definition.name ≠ "" ∧ stripSpace definition.name = definition.name

/-- The name a tool is registered under. -/
def RegisteredTool.name (tool : RegisteredTool) : String := tool.definition.name

/-- `ValueError(message)`. -/
def valueError (message : String) : PyException := { typeName := "ValueError", message }

/-! ## The executor's own checks -/

section Executor

-- `str.lower`, and the message of the `TypeError` of a call that does not bind
variable (lower : String → String) (bindMessage : Signature → String)

/-- Reject case-insensitive duplicate tool names. -/
def requireUniqueName (tool : RegisteredTool) (seen : List String) : Except PyException Unit :=
  if lower tool.name ∈ seen then .error (valueError s!"Duplicate tool name: {tool.name}")
  else .ok ()

/-- Reject functions that cannot receive one validated input model. -/
def requireInvocableSignature (tool : RegisteredTool) : Except PyException Unit :=
  if tool.signature.Binds 1 [] then .ok ()
  else .error (valueError
    (s!"Tool '{tool.name}' function must accept one validated input model " ++
      s!"as a positional argument: {bindMessage tool.signature}"))

/-- The loop over the tools, with the lower-case names seen so far. -/
def checkTools : List RegisteredTool → (seen : List String) → Except PyException Unit
  | [], _ => .ok ()
  | tool :: tools, seen => do
    requireUniqueName lower tool seen
    requireInvocableSignature bindMessage tool
    checkTools tools (seen ++ [lower tool.name])

/-- Create an executor with model-callable tool definitions. -/
def ToolExecutor.init (tools : List RegisteredTool) : Except PyException ToolExecutor := do
  checkTools lower bindMessage tools []
  return { lower, tools := tools.map (·.definition) }

end Executor

/-! ## The harness -/

/-- The names of the output contract's tools. -/
def RESERVED_TOOL_NAMES : List String := [COMPLETE_TOOL_NAME, FAIL_TOOL_NAME]

/-- Reject caller tools whose names the output contract reserves. -/
def rejectReservedToolNames (lower : String → String) :
    List RegisteredTool → Except PyException Unit
  | [] => .ok ()
  | tool :: tools =>
    if lower tool.name ∈ RESERVED_TOOL_NAMES then
      .error (valueError
        (s!"Tool name '{tool.name}' is reserved by the harness for " ++
          "output contracts; rename the tool."))
    else rejectReservedToolNames lower tools

/-- Return whether a tool function declares an explicit cwd parameter. -/
def expectsCwd (signature : Signature) : Bool :=
  "cwd" ∈ Parameter.names (signature.positionalOrKeyword ++ signature.keywordOnly)

/-- Reject a schema that would expose the harness-injected cwd. -/
def rejectCwdSchemaProperty (tool : RegisteredTool) : Except PyException Unit :=
  if "cwd" ∈ tool.properties then
    .error (valueError
      (s!"Tool '{tool.name}' declares cwd in its input schema; cwd is " ++
        "harness-injected and must not be model-visible."))
  else .ok ()

/-- Return a tool copy whose function receives the harness cwd. -/
def bindCwd (tool : RegisteredTool) : Except PyException RegisteredTool := do
  rejectCwdSchemaProperty tool
  return { tool with signature := tool.signature.fix "cwd" }

/-- Bind the harness cwd into every tool declaring a cwd parameter. -/
def bindCwdTools (tools : List RegisteredTool) : Except PyException (List RegisteredTool) :=
  tools.mapM fun tool => if expectsCwd tool.signature then bindCwd tool else .ok tool

/-- Configure a harness with tools; `normalizedCwd` is what `normalize_cwd` gives. -/
def AgentHarness.create (lower : String → String) (bindMessage : Signature → String)
    (normalizedCwd : Except PyException Unit) (tools : List RegisteredTool) :
    Except PyException ToolExecutor := do
  rejectReservedToolNames lower tools
  normalizedCwd
  let bound ← bindCwdTools tools
  ToolExecutor.init lower bindMessage bound

/-! ## What is accepted -/

/-- The executor's call binds: one validated input model, with the cwd if the function asks for it.
-/
def RegisteredTool.Callable (tool : RegisteredTool) : Prop :=
  tool.signature.Binds 1 (if expectsCwd tool.signature then ["cwd"] else [])

/-- The tool that the executor gets. -/
def RegisteredTool.bound (tool : RegisteredTool) : RegisteredTool :=
  if expectsCwd tool.signature then { tool with signature := tool.signature.fix "cwd" } else tool

@[simp] theorem RegisteredTool.bound_definition (tool : RegisteredTool) :
    tool.bound.definition = tool.definition := by
  rw [bound]
  split <;> rfl

section Accepted

variable {lower : String → String} {bindMessage : Signature → String}

theorem RegisteredTool.callable_iff (tool : RegisteredTool) :
    tool.Callable ↔ tool.bound.signature.Binds 1 [] := by
  rw [Callable, bound]
  split
  next hcwd => exact (Signature.binds_fix_iff (of_decide_eq_true hcwd)).symm
  next => rfl

theorem requireUniqueName_eq_ok {tool : RegisteredTool} {seen : List String} {done : Unit} :
    requireUniqueName lower tool seen = .ok done ↔ lower tool.name ∉ seen := by
  rw [requireUniqueName]
  split <;> simp_all

theorem requireInvocableSignature_eq_ok {tool : RegisteredTool} {done : Unit} :
    requireInvocableSignature bindMessage tool = .ok done ↔ tool.signature.Binds 1 [] := by
  rw [requireInvocableSignature]
  split <;> simp_all

theorem checkTools_eq_ok {tools : List RegisteredTool} {seen : List String} {done : Unit} :
    checkTools lower bindMessage tools seen = .ok done ↔
      (∀ tool ∈ tools, lower tool.name ∉ seen) ∧ (tools.map (lower ·.name)).Nodup ∧
        ∀ tool ∈ tools, tool.signature.Binds 1 [] := by
  induction tools generalizing seen with
  | nil => simp [checkTools]
  | cons tool tools ih =>
    have hseen : (∀ other ∈ tools, lower other.name ∉ seen ++ [lower tool.name]) ↔
        (∀ other ∈ tools, lower other.name ∉ seen) ∧
          lower tool.name ∉ tools.map (lower ·.name) := by
      simp only [List.mem_append, List.mem_singleton, not_or, List.mem_map, not_exists, not_and,
        forall_and]
    rw [checkTools, except_bind_eq_ok]
    simp only [requireUniqueName_eq_ok, exists_and_left, except_bind_eq_ok,
      requireInvocableSignature_eq_ok, ih, hseen, List.forall_mem_cons, List.map_cons,
      List.nodup_cons]
    tauto

theorem rejectReservedToolNames_eq_ok {tools : List RegisteredTool} {done : Unit} :
    rejectReservedToolNames lower tools = .ok done ↔
      ∀ tool ∈ tools, lower tool.name ∉ RESERVED_TOOL_NAMES := by
  induction tools with
  | nil => simp [rejectReservedToolNames]
  | cons tool tools ih =>
    rw [rejectReservedToolNames, List.forall_mem_cons, ← ih]
    split <;> simp_all

/-- The cwd must not be a property of a tool that gets it from the harness. -/
def RegisteredTool.HidesCwd (tool : RegisteredTool) : Prop :=
  expectsCwd tool.signature = true → "cwd" ∉ tool.properties

theorem bindCwd_eq_ok {tool bound : RegisteredTool} :
    (if expectsCwd tool.signature then bindCwd tool else .ok tool) = .ok bound ↔
      tool.HidesCwd ∧ tool.bound = bound := by
  rw [RegisteredTool.bound, RegisteredTool.HidesCwd]
  split
  next hcwd =>
    rw [bindCwd, rejectCwdSchemaProperty]
    split <;> simp_all [pure, Except.pure, bind, Except.bind]
  next hcwd => simp [hcwd]

theorem bindCwdTools_eq_ok {tools bound : List RegisteredTool} :
    bindCwdTools tools = .ok bound ↔
      (∀ tool ∈ tools, tool.HidesCwd) ∧ tools.map (·.bound) = bound := by
  rw [bindCwdTools]
  induction tools generalizing bound with
  | nil => simp [pure, Except.pure]
  | cons tool tools ih =>
    simp only [List.mapM_cons, except_bind_eq_ok, bindCwd_eq_ok, ih, List.forall_mem_cons,
      List.map_cons]
    constructor
    · rintro ⟨_, ⟨hhides, rfl⟩, _, ⟨hall, rfl⟩, hbound⟩
      exact ⟨⟨hhides, hall⟩, Except.ok.inj hbound⟩
    · rintro ⟨⟨hhides, hall⟩, rfl⟩
      exact ⟨_, ⟨hhides, rfl⟩, _, ⟨hall, rfl⟩, rfl⟩

theorem RegisteredTool.map_bound_names (tools : List RegisteredTool) :
    (tools.map (·.bound)).map (lower ·.name) = tools.map (lower ·.name) := by
  simp [RegisteredTool.name, Function.comp_def]

theorem RegisteredTool.map_bound_definition (tools : List RegisteredTool) :
    (tools.map (·.bound)).map (·.definition) = tools.map (·.definition) := by
  simp [Function.comp_def]

/-- What a harness asks of its tools: none has a reserved name, the name of another, or the cwd as
a property beside its parameter, and each takes the executor's call. -/
structure Acceptable (lower : String → String) (tools : List RegisteredTool) : Prop where
  free : ∀ tool ∈ tools, lower tool.name ∉ RESERVED_TOOL_NAMES
  unique : (tools.map (lower ·.name)).Nodup
  hidesCwd : ∀ tool ∈ tools, tool.HidesCwd
  callable : ∀ tool ∈ tools, tool.Callable

theorem forall_bound_binds_iff {tools : List RegisteredTool} :
    (∀ tool ∈ tools.map (·.bound), tool.signature.Binds 1 []) ↔
      ∀ tool ∈ tools, tool.Callable := by
  simp [RegisteredTool.callable_iff]

theorem acceptable_of_create {normalizedCwd : Except PyException Unit}
    {tools : List RegisteredTool} {executor : ToolExecutor}
    (h : AgentHarness.create lower bindMessage normalizedCwd tools = .ok executor) :
    Acceptable lower tools ∧ executor = { lower, tools := tools.map (·.definition) } := by
  obtain ⟨_, hreserved, h⟩ := except_bind_eq_ok.mp h
  obtain ⟨_, -, h⟩ := except_bind_eq_ok.mp h
  obtain ⟨_, hbound, hinit⟩ := except_bind_eq_ok.mp h
  obtain ⟨hhides, rfl⟩ := bindCwdTools_eq_ok.mp hbound
  obtain ⟨_, hcheck, hexecutor⟩ := except_bind_eq_ok.mp hinit
  obtain ⟨-, hunique, hbinds⟩ := checkTools_eq_ok.mp hcheck
  rw [RegisteredTool.map_bound_names] at hunique
  refine ⟨⟨rejectReservedToolNames_eq_ok.mp hreserved, hunique, hhides,
    forall_bound_binds_iff.mp hbinds⟩, ?_⟩
  rw [← RegisteredTool.map_bound_definition]
  exact (Except.ok.inj hexecutor).symm

theorem create_of_acceptable {tools : List RegisteredTool} (h : Acceptable lower tools) :
    AgentHarness.create lower bindMessage (.ok ()) tools
      = .ok { lower, tools := tools.map (·.definition) } := by
  have hunique : ((tools.map (·.bound)).map (lower ·.name)).Nodup :=
    (RegisteredTool.map_bound_names tools).symm ▸ h.unique
  have hcheck : checkTools lower bindMessage (tools.map (·.bound)) [] = .ok () :=
    checkTools_eq_ok.mpr
      ⟨fun _ _ => List.not_mem_nil, hunique, forall_bound_binds_iff.mpr h.callable⟩
  refine except_bind_eq_ok.mpr ⟨(), rejectReservedToolNames_eq_ok.mpr h.free, ?_⟩
  refine except_bind_eq_ok.mpr ⟨(), rfl, ?_⟩
  refine except_bind_eq_ok.mpr ⟨_, bindCwdTools_eq_ok.mpr ⟨h.hidesCwd, rfl⟩, ?_⟩
  refine except_bind_eq_ok.mpr ⟨(), hcheck, ?_⟩
  rw [RegisteredTool.map_bound_definition]
  rfl

/-- **A harness accepts just the tools that its executor can always call**, and tells apart. -/
theorem harness_accepts_iff (lower : String → String) (bindMessage : Signature → String)
    (tools : List RegisteredTool) :
    (∃ executor, AgentHarness.create lower bindMessage (.ok ()) tools = .ok executor) ↔
      Acceptable lower tools :=
  ⟨fun ⟨_, h⟩ => (acceptable_of_create h).1, fun h => ⟨_, create_of_acceptable h⟩⟩

end Accepted

/-! ## What each prompt finds -/

/-- What the names rely on of `str.lower`. -/
structure IsLower (lower : String → String) : Prop where
  complete : lower COMPLETE_TOOL_NAME = COMPLETE_TOOL_NAME
  fail : lower FAIL_TOOL_NAME = FAIL_TOOL_NAME
  /-- A letter's lower case is no space. -/
  strip : ∀ name, stripSpace name = name → stripSpace (lower name) = lower name

theorem complete_clean :
    COMPLETE_TOOL_NAME ≠ "" ∧ stripSpace COMPLETE_TOOL_NAME = COMPLETE_TOOL_NAME := by
  decide +kernel

theorem fail_clean : FAIL_TOOL_NAME ≠ "" ∧ stripSpace FAIL_TOOL_NAME = FAIL_TOOL_NAME := by
  decide +kernel

/-- `async def fn(params)`. -/
def paramsSignature : Signature where
  positionalOrKeyword := [{ name := "params" }]

theorem paramsSignature_binds : paramsSignature.Binds 1 [] := by decide +kernel

/-- The tools of the output contract. -/
def contractTools (result : ResultModel) : List RegisteredTool :=
  [{ definition := result.completeDefinition
     signature := paramsSignature
     clean := complete_clean },
   { definition := failTool
     signature := paramsSignature
     clean := fail_clean }]

section Served

variable {lower : String → String} {bindMessage : Signature → String}
  {tools : List RegisteredTool}

theorem ToolExecutor.create_of_nodup {tools : List ToolDefinition}
    (h : (tools.map (lower ·.name)).Nodup) : create lower tools = .ok { lower, tools } := by
  simp only [create]
  split
  next tool index hduplicate =>
    have hget := List.mk_mem_zipIdx_iff_getElem?.mp (List.mem_of_find?_eq_some hduplicate)
    have hrepeats := List.find?_some hduplicate
    obtain ⟨earlier, hbefore, hsame⟩ := List.any_eq_true.mp hrepeats
    have htool : tool ∈ tools.drop index :=
      List.mem_of_getElem? (i := 0) (by rwa [List.getElem?_drop, Nat.add_zero])
    rw [← List.take_append_drop index tools, List.map_append] at h
    have hmem := List.mem_map_of_mem (f := (lower ·.name)) htool
    rw [← of_decide_eq_true hsame] at hmem
    exact (List.disjoint_of_nodup_append h (List.mem_map_of_mem hbefore) hmem).elim
  next => rfl

/-- A call finds the tool whose name it is, up to case and padding. -/
theorem ToolExecutor.getTool_of_mem {tools : List ToolDefinition}
    (h : (tools.map (lower ·.name)).Nodup) {tool : ToolDefinition} (htool : tool ∈ tools)
    {toolName : String} (hname : stripSpace (lower toolName) = lower tool.name) :
    getTool { lower, tools } toolName = some tool := by
  obtain ⟨before, after, rfl⟩ := List.append_of_mem htool
  rw [getTool, hname, List.find?_append, List.find?_eq_none.mpr, Option.none_or, List.find?_cons,
    decide_eq_true rfl]
  intro earlier hearlier hsame
  rw [List.map_append] at h
  have hmem : lower tool.name ∈ (tool :: after).map (lower ·.name) := List.mem_cons_self
  rw [← of_decide_eq_true hsame] at hmem
  exact List.disjoint_of_nodup_append h (List.mem_map_of_mem hearlier) hmem

/-- The names of the tools of a typed attempt differ, too. -/
theorem Acceptable.typed_nodup (h : Acceptable lower tools) (hlower : IsLower lower)
    (result : ResultModel) :
    ((tools.map (·.definition) ++ [result.completeDefinition, failTool]).map
      (lower ·.name)).Nodup := by
  have hnames : ((tools.map (·.definition)).map (lower ·.name)).Nodup := by
    simpa [RegisteredTool.name, Function.comp_def] using h.unique
  have hcontract : [result.completeDefinition, failTool].map (lower ·.name)
      = RESERVED_TOOL_NAMES :=
    congrArg₂ (fun a b => [a, b]) hlower.complete hlower.fail
  rw [List.map_append, hcontract, List.nodup_append]
  refine ⟨hnames, by decide, ?_⟩
  intro name hname reserved hreserved
  obtain ⟨definition, hdefinition, rfl⟩ := List.mem_map.mp hname
  obtain ⟨tool, htool, rfl⟩ := List.mem_map.mp hdefinition
  rintro rfl
  exact h.free tool htool hreserved

theorem Acceptable.init_contract (h : Acceptable lower tools) (hlower : IsLower lower)
    (bindMessage : Signature → String) (result : ResultModel) :
    ToolExecutor.init lower bindMessage (tools.map (·.bound) ++ contractTools result)
      = .ok {
          lower
          tools := tools.map (·.definition) ++ [result.completeDefinition, failTool] } := by
  have htyped := h.typed_nodup hlower result
  have hcheck : checkTools lower bindMessage (tools.map (·.bound) ++ contractTools result) []
      = .ok () := by
    refine checkTools_eq_ok.mpr ⟨fun _ _ => List.not_mem_nil, ?_, ?_⟩
    · rw [List.map_append, RegisteredTool.map_bound_names]
      rw [List.map_append, List.map_map] at htyped
      exact htyped
    · exact List.forall_mem_append.mpr ⟨forall_bound_binds_iff.mpr h.callable,
        List.forall_mem_cons.mpr ⟨paramsSignature_binds,
          List.forall_mem_singleton.mpr paramsSignature_binds⟩⟩
  refine except_bind_eq_ok.mpr ⟨(), hcheck, ?_⟩
  rw [List.map_append, RegisteredTool.map_bound_definition]
  rfl

/-- Once the complete tool is there, nothing is in the way of an attempt. -/
theorem typedAttemptDependencies_eq_ok_iff {deps typed : ExecutionDependencies}
    {result : ResultModel}
    (hnodup : ((deps.toolExecutor.tools ++ [result.completeDefinition, failTool]).map
      (deps.toolExecutor.lower ·.name)).Nodup) :
    typedAttemptDependencies deps result = .ok typed ↔ result.HasObjectSchema ∧
      typed = { instructions := s!"{deps.instructions}\n\n{RESULT_CONTRACT}", toolExecutor := {
        lower := deps.toolExecutor.lower
        tools := deps.toolExecutor.tools ++ [result.completeDefinition, failTool] } } := by
  rw [typedAttemptDependencies, except_bind_eq_ok]
  constructor
  · rintro ⟨complete, hcomplete, h⟩
    obtain ⟨hobject, rfl⟩ := completeTool_eq_ok.mp hcomplete
    rw [ToolExecutor.create_of_nodup hnodup] at h
    exact ⟨hobject, (Except.ok.inj h).symm⟩
  · rintro ⟨hobject, rfl⟩
    refine ⟨_, completeTool_eq_ok.mpr ⟨hobject, rfl⟩, ?_⟩
    rw [ToolExecutor.create_of_nodup hnodup]
    rfl

/-- **Each prompt of an accepted harness finds its tools.**  The executor of a typed prompt's
attempts is created just if its result model has an object schema, and the attempts find the tools
of its output contract beside the others. -/
theorem harness_serves (hlower : IsLower lower) {normalizedCwd : Except PyException Unit}
    {executor : ToolExecutor}
    (h : AgentHarness.create lower bindMessage normalizedCwd tools = .ok executor)
    (instructions : String) (result : ResultModel) :
    (∀ tool ∈ tools, stripSpace (lower tool.name) = lower tool.name ∧
      ∀ toolName, stripSpace (lower toolName) = lower tool.name →
        executor.getTool toolName = some tool.definition) ∧
    ((∃ typed, typedAttemptDependencies { instructions, toolExecutor := executor } result
      = .ok typed) ↔ result.HasObjectSchema) ∧
    ∀ typed,
      typedAttemptDependencies { instructions, toolExecutor := executor } result = .ok typed →
      ToolExecutor.init lower bindMessage (tools.map (·.bound) ++ contractTools result)
        = .ok typed.toolExecutor ∧
      (∀ tool ∈ tools, ∀ toolName, stripSpace (lower toolName) = lower tool.name →
        typed.toolExecutor.getTool toolName = some tool.definition) ∧
      typed.toolExecutor.getTool COMPLETE_TOOL_NAME = some result.completeDefinition ∧
      typed.toolExecutor.getTool FAIL_TOOL_NAME = some failTool := by
  obtain ⟨hacceptable, rfl⟩ := acceptable_of_create h
  have htyped := hacceptable.typed_nodup hlower result
  have hcreated : ∀ typed, typedAttemptDependencies
      { instructions, toolExecutor := ⟨lower, tools.map (·.definition)⟩ } result = .ok typed ↔ _ :=
    fun typed => typedAttemptDependencies_eq_ok_iff htyped
  have hnames : ((tools.map (·.definition)).map (lower ·.name)).Nodup :=
    .of_append_left (List.map_append ▸ htyped)
  have hdefinition : ∀ tool ∈ tools, tool.definition ∈ tools.map (·.definition) :=
    fun tool htool => List.mem_map_of_mem htool
  refine ⟨fun tool htool => ⟨hlower.strip _ tool.clean.2, fun toolName hname =>
    ToolExecutor.getTool_of_mem hnames (hdefinition tool htool) hname⟩, ?_, fun typed hok => ?_⟩
  · simp only [hcreated, exists_and_left, exists_eq, and_true]
  obtain ⟨-, rfl⟩ := (hcreated typed).mp hok
  refine ⟨hacceptable.init_contract hlower bindMessage result, fun tool htool toolName hname =>
    ToolExecutor.getTool_of_mem htyped (List.mem_append_left _ (hdefinition tool htool)) hname,
    ?_, ?_⟩
  · refine ToolExecutor.getTool_of_mem htyped (by simp) ?_
    rw [hlower.complete, complete_clean.2]
    exact hlower.complete.symm
  · refine ToolExecutor.getTool_of_mem htyped (by simp) ?_
    rw [hlower.fail, fail_clean.2]
    exact hlower.fail.symm

end Served

/-- A tool with a keyword-only cwd. -/
def readTool : RegisteredTool where
  definition := { name := "read", validate := fun _ => .invalid [] }
  properties := ["path"]
  signature := {
    positionalOrKeyword := [{ name := "params" }]
    keywordOnly := [{ name := "cwd" }] }
  clean := by decide +kernel

/-- A result model whose schema has this type. -/
def resultModel (type : String) : ResultModel where
  validate := fun _ => .invalid []
  jsonSchema := .ok [("type", .str type)]
  validationError := fun message => { typeName := "ValidationError", message }

/-- A call that pads its name finds the tool; an object can be asked for as a result, and a list
cannot. -/
theorem harness_serves_read : ∃ executor,
    AgentHarness.create id (fun _ => "") (.ok ()) [readTool] = .ok executor ∧
      executor.getTool " read" = some readTool.definition ∧
      (∃ typed, typedAttemptDependencies { instructions := "", toolExecutor := executor }
        (resultModel "object") = .ok typed) ∧
      ¬ ∃ typed, typedAttemptDependencies { instructions := "", toolExecutor := executor }
        (resultModel "array") = .ok typed := by
  have hacceptable : Acceptable id [readTool] :=
    ⟨by decide +kernel, by decide +kernel, List.forall_mem_singleton.mpr fun _ => by decide +kernel,
      List.forall_mem_singleton.mpr (by
        rw [RegisteredTool.callable_iff]
        decide +kernel)⟩
  have hcreate : AgentHarness.create id (fun _ => "") (.ok ()) [readTool]
      = .ok { lower := id, tools := [readTool.definition] } := create_of_acceptable hacceptable
  have hserves := harness_serves ⟨rfl, rfl, fun _ => id⟩ hcreate ""
  refine ⟨_, hcreate, ((hserves (resultModel "object")).1 readTool List.mem_cons_self).2 " read"
    (by decide +kernel), (hserves (resultModel "object")).2.1.mpr ⟨_, rfl, rfl⟩, ?_⟩
  rw [(hserves (resultModel "array")).2.1]
  rintro ⟨schema, hschema, htype⟩
  obtain rfl := Except.ok.inj hschema
  simp [JsonObject.get?] at htype

end Tile
