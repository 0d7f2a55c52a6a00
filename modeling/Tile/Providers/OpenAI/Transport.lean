import Tile.Library.AsyncGenerator
import Tile.Providers.OpenAI.Provider
import Tile.Providers.OpenAI.Replay

/-!
# Providers/OpenAI/Transport — the transport is closed once

    transport ──sdkStreamEvents──▸ ──normalizeLayer──▸ ──assembleLayer──▸ the agent's loop

The SDK stream owns a live response, which the innermost generator closes.  Each layer above
forwards its closure: **however the provider's stream is driven, the transport is closed exactly
once if the stream was started and left, and else not at all** (`transport_closed_once`); a stream
that is left before its first pull leaves its transport open.  The agent's loop over such chains
**is its loop over the events they play, and closes each transport it opened once**
(`openAIAgentLoop_closes`).
-/

namespace Tile

/-- What awaits something that has not come. -/
def isSuspended {ρ : Type} : Except Interrupt ρ → Bool
  | .error interrupt => interrupt = .pending
  | .ok _ => false

/-- An SDK stream: its events, how it ends behind them, and how closing it ends.  It fails or is
cancelled where it is awaited, if at all, and keeps nobody waiting for ever. -/
structure Transport where
  events : List ResponseStreamEvent
  ending : Except Interrupt Unit := .ok ()
  closing : Except Interrupt Unit := .ok ()
  ending_answers : isSuspended ending = false := by decide
  closing_answers : isSuspended closing = false := by decide

/-- Where a generator stands. -/
inductive GeneratorPhase where
  | unstarted | suspended | finished
  deriving DecidableEq

/-- The state of the innermost generator, with the transport's events that are left and the number
of times it was closed. -/
structure SdkStreamState where
  phase : GeneratorPhase := .unstarted
  rest : List ResponseStreamEvent
  closes : Nat := 0

namespace Transport

variable (transport : Transport)

/-- The `finally` of `_sdk_stream_events`, behind a body that ends like this. -/
def finish (ending : Except Interrupt Unit) (state : SdkStreamState) :
    Except Interrupt Unit × SdkStreamState :=
  (transport.closing >>= fun _ => ending,
    { state with phase := .finished, closes := state.closes + 1 })

/-- A pull takes the transport's next event, or finds how it ends and passes the `finally`. -/
def sdkAnext (state : SdkStreamState) : Pulled Interrupt ResponseStreamEvent × SdkStreamState :=
  match state.phase, state.rest with
  | .finished, _ => (.stopped, state)
  | .unstarted, event :: rest | .suspended, event :: rest =>
    (.item event, { state with phase := .suspended, rest })
  | .unstarted, [] | .suspended, [] =>
    (.last (transport.finish transport.ending state).1,
      (transport.finish transport.ending state).2)

/-- A closure passes the `finally` of a generator that was started. -/
def sdkAclose (state : SdkStreamState) : Except Interrupt Unit × SdkStreamState :=
  match state.phase with
  | .unstarted => (.ok (), { state with phase := .finished })
  | .suspended => transport.finish (.ok ()) state
  | .finished => (.ok (), state)

/-- The exception is raised where the generator is suspended, and passes the `finally`. -/
def sdkAthrow (error : Interrupt) (state : SdkStreamState) :
    Except Interrupt Unit × SdkStreamState :=
  match state.phase with
  | .unstarted => (.error error, { state with phase := .finished })
  | .suspended => transport.finish (.error error) state
  | .finished => (.ok (), state)

/-- Yield SDK events, closing the transport stream on every exit. -/
def sdkStreamEvents : AsyncGenerator Interrupt ResponseStreamEvent where
  State := SdkStreamState
  anext := transport.sdkAnext
  aclose := transport.sdkAclose
  athrow := transport.sdkAthrow
  size state := state.rest.length
  size_lt := by
    intro state event state' h
    unfold sdkAnext at h
    split at h
    · simp at h
    · obtain ⟨-, rfl⟩ := Prod.mk.inj h
      simp_all
    · obtain ⟨-, rfl⟩ := Prod.mk.inj h
      simp_all
    · cases hfinish : (transport.finish transport.ending state).1 <;>
        simp [hfinish, Pulled.last] at h
    · cases hfinish : (transport.finish transport.ending state).1 <;>
        simp [hfinish, Pulled.last] at h

end Transport

/-- `normalize_sdk_events`, as a layer. -/
def normalizeLayer (loads : String → Option Json) (dumps : Json → String) :
    Layer Interrupt ResponseStreamEvent NormalizedEvent where
  Locals := Unit
  body _ event :=
    match normalizeSdkEvent loads dumps event with
    | some normalized => (.yield normalized false, ())
    | none => (.next, ())

/-- `assemble_stream`, as a layer: behind a terminal event it returns. -/
def assembleLayer : Layer Interrupt NormalizedEvent ProviderStreamEvent where
  Locals := StreamAssemblyState
  body state event :=
    match yieldStreamEvent state event with
    | (some adapted, state') => (.yield adapted event.isTerminal, state')
    | (none, state') => (if event.isTerminal then .leave else .next, state')

section Chain

variable (loads : String → Option Json) (dumps : Json → String) (model : String)
  (transport : Transport)

/-- What `OpenAIProvider.stream` returns, over one transport. -/
def openAIGenerator : AsyncGenerator Interrupt ProviderStreamEvent :=
  Layer.wrap (Layer.wrap transport.sdkStreamEvents (normalizeLayer loads dumps)) assembleLayer

/-- It is returned before anything was pulled. -/
def openAIStart : (openAIGenerator loads dumps transport).State :=
  .unstarted (.unstarted { rest := transport.events } ())
    { source := { provider := "openai", model := some model } }

/-- How often the transport was closed. -/
def transportCloses (state : (openAIGenerator loads dumps transport).State) : Nat :=
  SdkStreamState.closes (Layer.inner (Layer.inner state))

/-! ## What the chain plays -/

section Plays

theorem plays_sdkStreamEvents (events : List ResponseStreamEvent) {state : SdkStreamState}
    (hrest : state.rest = events) (hphase : state.phase ≠ .finished) :
    Plays transport.sdkStreamEvents transport.closing events
      (transport.closing >>= fun _ => transport.ending) state := by
  induction events generalizing state with
  | nil =>
    have hnext : transport.sdkAnext state = (.last (transport.finish transport.ending state).1,
        (transport.finish transport.ending state).2) := by
      unfold Transport.sdkAnext
      rw [hrest]
      cases hstate : state.phase with
      | finished => exact absurd hstate hphase
      | _ => rfl
    exact .last hnext ⟨rfl, rfl⟩
  | cons event rest ih =>
    have hnext : transport.sdkAnext state
        = (.item event, { state with phase := .suspended, rest }) := by
      unfold Transport.sdkAnext
      rw [hrest]
      cases hstate : state.phase with
      | finished => exact absurd hstate hphase
      | _ => rfl
    have hclose : transport.sdkAclose { state with phase := .suspended, rest }
        = (transport.closing, { state with
          phase := .finished, rest, closes := state.closes + 1 }) := by
      unfold Transport.sdkAclose Transport.finish
      cases transport.closing <;> rfl
    exact .item hnext hclose ⟨rfl, rfl⟩ (ih rfl (by simp))

theorem normalizeLayer_body_of_some {event : ResponseStreamEvent} {normalized : NormalizedEvent}
    (h : normalizeSdkEvent loads dumps event = some normalized) :
    (normalizeLayer loads dumps).body () event = (.yield normalized false, ()) := by
  simp [normalizeLayer, h]

theorem normalizeLayer_body_of_none {event : ResponseStreamEvent}
    (h : normalizeSdkEvent loads dumps event = none) :
    (normalizeLayer loads dumps).body () event = (.next, ()) := by
  simp [normalizeLayer, h]

theorem yields_normalizeLayer (events : List ResponseStreamEvent) :
    Layer.yields (normalizeLayer loads dumps) () events
      = normalizeSdkEvents loads dumps events := by
  induction events with
  | nil => rfl
  | cons event rest ih =>
    rw [normalizeSdkEvents, List.filterMap_cons]
    cases hevent : normalizeSdkEvent loads dumps event with
    | none =>
      exact (Layer.yields_of_next (normalizeLayer_body_of_none loads dumps hevent) rest).trans ih
    | some normalized =>
      have hbody := normalizeLayer_body_of_some loads dumps hevent
      exact (Layer.yields_of_yield hbody rest).trans (congrArg (normalized :: ·) ih)

theorem ends_normalizeLayer (ending closing : Except Interrupt Unit)
    (events : List ResponseStreamEvent) :
    Layer.ends (normalizeLayer loads dumps) ending closing () events = ending := by
  induction events with
  | nil => rfl
  | cons event rest ih =>
    cases hevent : normalizeSdkEvent loads dumps event with
    | none =>
      have hbody := normalizeLayer_body_of_none loads dumps hevent
      exact (Layer.ends_of_next hbody ending closing rest).trans ih
    | some normalized =>
      have hbody := normalizeLayer_body_of_some loads dumps hevent
      exact (Layer.ends_of_yield hbody ending closing rest).trans ih

/-- A terminal event yields. -/
theorem assembleLayer_body_of_terminal (state : StreamAssemblyState) {event : NormalizedEvent}
    (h : event.isTerminal = true) : ∃ last, (yieldStreamEvent state event).1 = some last ∧
      last.finalBlocks.isSome = true ∧
      assembleLayer.body state event = (.yield last true, (yieldStreamEvent state event).2) := by
  obtain ⟨last, hyield, hblocks, -⟩ := yieldStreamEvent_finalBlocks state h
  refine ⟨last, hyield, by rw [hblocks]; rfl, ?_⟩
  rcases hassembly : yieldStreamEvent state event with ⟨yielded, state'⟩
  rw [hassembly] at hyield
  obtain rfl : yielded = some last := hyield
  simp [assembleLayer, hassembly, h]

theorem assembleLayer_body_of_some (state : StreamAssemblyState) {event : NormalizedEvent}
    (h : event.isTerminal = false) {next : ProviderStreamEvent}
    (hyield : (yieldStreamEvent state event).1 = some next) :
    assembleLayer.body state event = (.yield next false, (yieldStreamEvent state event).2) := by
  rcases hassembly : yieldStreamEvent state event with ⟨yielded, state'⟩
  rw [hassembly] at hyield
  obtain rfl : yielded = some next := hyield
  simp [assembleLayer, hassembly, h]

theorem assembleLayer_body_of_none (state : StreamAssemblyState) {event : NormalizedEvent}
    (h : event.isTerminal = false) (hyield : (yieldStreamEvent state event).1 = none) :
    assembleLayer.body state event = (.next, (yieldStreamEvent state event).2) := by
  rcases hassembly : yieldStreamEvent state event with ⟨yielded, state'⟩
  rw [hassembly] at hyield
  obtain rfl : yielded = none := hyield
  simp [assembleLayer, hassembly, h]

/-- **The layer plays the assembled stream**, and ends where a terminal event ends it. -/
theorem assembleLayer_plays (ending closing : Except Interrupt Unit)
    (events : List NormalizedEvent) (state : StreamAssemblyState) :
    Layer.yields assembleLayer state events = assembleFrom state events ∧
      Layer.ends assembleLayer ending closing state events
        = (if events.any (·.isTerminal) then closing else ending) ∧
      (assembleFrom state events).any (·.finalBlocks.isSome) = events.any (·.isTerminal) := by
  induction events generalizing state with
  | nil => exact ⟨rfl, rfl, rfl⟩
  | cons event rest ih =>
    rw [assembleFrom, List.any_cons]
    cases hterminal : event.isTerminal with
    | true =>
      obtain ⟨last, hyield, hblocks, hbody⟩ := assembleLayer_body_of_terminal state hterminal
      rw [Layer.yields_of_yield hbody, Layer.ends_of_yield hbody, hyield]
      exact ⟨rfl, rfl, by simp [hblocks]⟩
    | false =>
      obtain ⟨hyields, hends, hany⟩ := ih (yieldStreamEvent state event).2
      have hfinal := yieldStreamEvent_of_not_terminal state hterminal
      cases hyield : (yieldStreamEvent state event).1 with
      | none =>
        have hbody := assembleLayer_body_of_none state hterminal hyield
        rw [Layer.yields_of_next hbody, Layer.ends_of_next hbody, hyields, hends]
        exact ⟨rfl, rfl, by simpa using hany⟩
      | some next =>
        have hbody := assembleLayer_body_of_some state hterminal hyield
        have hplain : next.finalBlocks = none := hfinal next hyield
        rw [Layer.yields_of_yield hbody, Layer.ends_of_yield hbody]
        refine ⟨congrArg (next :: ·) hyields, hends, ?_⟩
        simpa [hplain] using hany

/-- Whether the events of the transport end the assembled stream. -/
def Transport.ends (transport : Transport) : Bool :=
  (normalizeSdkEvents loads dumps transport.events).any (·.isTerminal)

theorem plays_openAIGenerator :
    Plays (openAIGenerator loads dumps transport) transport.closing
      (openAIStream loads dumps model transport.events)
      (if transport.ends loads dumps then transport.closing
        else transport.closing >>= fun _ => transport.ending)
      (openAIStart loads dumps model transport) := by
  have hsdk := plays_sdkStreamEvents transport transport.events
    (show ({ rest := transport.events } : SdkStreamState).rest = _ from rfl) (by simp)
  have hnormalized := Layer.plays_wrap (normalizeLayer loads dumps) hsdk ()
  rw [yields_normalizeLayer, ends_normalizeLayer] at hnormalized
  have hassembled := Layer.plays_wrap assembleLayer hnormalized
    { source := { provider := "openai", model := some model } }
  obtain ⟨hyields, hends, -⟩ := assembleLayer_plays
    (transport.closing >>= fun _ => transport.ending) transport.closing
    (normalizeSdkEvents loads dumps transport.events)
    { source := { provider := "openai", model := some model } }
  rw [hyields, hends] at hassembled
  exact hassembled

end Plays

/-! ## Closure -/

/-- Where the innermost generator stands. -/
def SdkStreamState.At (state : SdkStreamState) (phase : GeneratorPhase) (closes : Nat) : Prop :=
  state.phase = phase ∧ state.closes = closes

/-- The innermost generator guards the transport. -/
def guardedSdkStreamEvents : Guarded transport.sdkStreamEvents where
  At phase state :=
    match phase with
    | .fresh => state.At .unstarted 0
    | .opened => state.At .suspended 0
    | .released => state.At .finished 1
    | .abandoned => state.At .finished 0
  closes state := state.closes
  closes_eq := by
    intro phase state h
    cases phase <;> exact h.2
  at_anext := by
    intro phase state h
    obtain ⟨statePhase, rest, closes⟩ := state
    cases phase <;> obtain ⟨rfl, rfl⟩ := h <;> cases rest <;>
      simp [Transport.sdkStreamEvents, Transport.sdkAnext, Transport.finish, SdkStreamState.At,
        GuardPhase.afterPull]
  at_aclose := by
    intro phase state h
    obtain ⟨statePhase, rest, closes⟩ := state
    cases phase <;> obtain ⟨rfl, rfl⟩ := h <;>
      simp [Transport.sdkStreamEvents, Transport.sdkAclose, Transport.finish, SdkStreamState.At,
        GuardPhase.afterClose]
  at_athrow := by
    intro phase state error h
    obtain ⟨statePhase, rest, closes⟩ := state
    cases phase <;> obtain ⟨rfl, rfl⟩ := h <;>
      simp [Transport.sdkStreamEvents, Transport.sdkAthrow, Transport.finish, SdkStreamState.At,
        GuardPhase.afterClose]

/-- The provider's stream guards its transport. -/
def guardedOpenAIGenerator : Guarded (openAIGenerator loads dumps transport) :=
  ((guardedSdkStreamEvents transport).wrap (normalizeLayer loads dumps)).wrap assembleLayer

theorem guardedOpenAIGenerator_start :
    (guardedOpenAIGenerator loads dumps transport).At .fresh
      (openAIStart loads dumps model transport) :=
  And.intro rfl rfl

/-- **The transport is closed once**, if the provider's stream was started and left, however it was
driven, and else not at all. -/
theorem transport_closed_once (calls : List (GeneratorCall Interrupt)) :
    (Left calls ((openAIGenerator loads dumps transport).drive calls
        (openAIStart loads dumps model transport)).1 →
      transportCloses loads dumps transport ((openAIGenerator loads dumps transport).drive calls
        (openAIStart loads dumps model transport)).2 = 1) ∧
    (¬ Left calls ((openAIGenerator loads dumps transport).drive calls
        (openAIStart loads dumps model transport)).1 →
      transportCloses loads dumps transport ((openAIGenerator loads dumps transport).drive calls
        (openAIStart loads dumps model transport)).2 = 0) :=
  (guardedOpenAIGenerator loads dumps transport).closes_drive
    (guardedOpenAIGenerator_start loads dumps model transport) calls

/-! ## The agent's turn -/

variable (executor : ToolExecutor) (instructions : String) (runHistory : List ConversationItem)
  (opening : Except Interrupt Unit) (answers : List ToolAnswer)

/-- Leave the loop over the stream, closing the stream on every exit.  A suspended loop has not
exited. -/
def leaveLoop {ρ : Type} (g : AsyncGenerator Interrupt ProviderStreamEvent)
    (loop : Except Interrupt ρ × Live × g.State) : Except Interrupt ρ × Live × g.State :=
  if isSuspended loop.1 then loop else closeBehind g loop

/-- The body of `_run_provider_turn` behind the request. -/
def consumeGenerator (live : Live) :
    Except Interrupt (Option TurnResult) × Live × (openAIGenerator loads dumps transport).State :=
  leaveLoop (openAIGenerator loads dumps transport)
    (forEach (openAIGenerator loads dumps transport) (handleStreamEvent executor answers)
      (openAIStart loads dumps model transport) live)

/-- `_run_provider_turn` over the OpenAI provider: its end, and how often the transport was closed
in it.  Where opening the stream fails, there is none to close. -/
def openAIProviderTurn (live : Live) : (Except Interrupt TurnResult × Live) × Option Nat :=
  match opening with
  | .error interrupt =>
    ((.error interrupt, Live.request runHistory instructions executor.tools live), none)
  | .ok _ =>
    match consumeGenerator loads dumps model transport executor answers
      (Live.request runHistory instructions executor.tools live) with
    | (.ok (some result), live', state) =>
      ((.ok result, live'), some (transportCloses loads dumps transport state))
    | (.ok none, live', state) =>
      ((.error (.raised providerStreamProtocolError), live'),
        some (transportCloses loads dumps transport state))
    | (.error interrupt, live', state) =>
      ((.error interrupt, live'), some (transportCloses loads dumps transport state))

/-- What the turn sees of the transport. -/
def Transport.script : TurnScript where
  opening := opening
  events := openAIStream loads dumps model transport.events
  ending := if transport.ends loads dumps then transport.closing
    else transport.closing >>= fun _ => transport.ending
  tools := answers
  closing := if transport.ends loads dumps then transport.closing else .ok ()

theorem handleStreamEvent_stops (event : ProviderStreamEvent) (live : Live) :
    (handleStreamEvent executor answers event live).1 ≠ .ok none ↔
      event.finalBlocks.isSome = true := by
  cases event with
  | streamStart _ _ =>
    exact iff_of_false (fun h => h rfl) (by simp [ProviderStreamEvent.finalBlocks])
  | update _ => exact iff_of_false (fun h => h rfl) (by simp [ProviderStreamEvent.finalBlocks])
  | error _ => exact iff_of_true (fun h => by cases h) rfl
  | done event =>
    refine iff_of_true (fun h => ?_) rfl
    rcases hdone : handleStreamDoneEvent executor answers event live with ⟨_ | result, live'⟩
    · rw [handleStreamEvent, Effect.bind_of_error hdone] at h
      cases h
    · rw [handleStreamEvent, Effect.bind_of_ok hdone] at h
      cases h

theorem consumeStream_eq (script : TurnScript) (events : List ProviderStreamEvent) :
    consumeStream executor script events
      = forItems (handleStreamEvent executor script.tools) script.ending events := by
  induction events with
  | nil => rfl
  | cons event rest ih =>
    rw [consumeStream, forItems, ih]
    refine congrArg (handleStreamEvent executor script.tools event >>= ·) (funext fun result => ?_)
    cases result <;> rfl

theorem aclosing_eq {ρ : Type} {closing : Except Interrupt Unit} {body : AgentRun ρ}
    {r : Except Interrupt ρ} {live live' : Live} (hbody : body live = (r, live')) :
    aclosing closing body live
      = (if isSuspended r then r else closing >>= fun _ => r, live') := by
  unfold aclosing
  rw [hbody]
  split
  next heq =>
    obtain ⟨rfl, rfl⟩ := Prod.mk.inj heq
    rfl
  next hne heq =>
    obtain ⟨rfl, rfl⟩ := Prod.mk.inj heq
    have hgoes : isSuspended r = false := by
      cases r with
      | ok _ => rfl
      | error interrupt => exact decide_eq_false fun h => hne (congrArg Except.error h)
    rw [hgoes]
    cases closing <;> rfl

theorem leaveLoop_eq {ρ : Type} {g : AsyncGenerator Interrupt ProviderStreamEvent}
    {closing : Except Interrupt Unit} {state state' : g.State}
    (hclose : g.aclose state = (closing, state')) (r : Except Interrupt ρ) (live : Live) :
    leaveLoop g (r, live, state)
      = (if isSuspended r then r else closing >>= fun _ => r, live,
          if isSuspended r then state else state') := by
  rw [leaveLoop, closeBehind_eq hclose]
  cases isSuspended r <;> rfl

theorem isSuspended_bind {ρ : Type} {closing : Except Interrupt Unit} {r : Except Interrupt ρ}
    (hclosing : isSuspended closing = false) (hr : isSuspended r = false) :
    isSuspended (closing >>= fun _ => r) = false := by
  cases closing with
  | ok _ => exact hr
  | error interrupt => exact hclosing

/-- A stream over a transport answers as that does. -/
theorem isSuspended_script :
    isSuspended (transport.script loads dumps model opening answers).ending = false ∧
      isSuspended (transport.script loads dumps model opening answers).closing = false := by
  simp only [Transport.script]
  split
  · exact ⟨transport.closing_answers, transport.closing_answers⟩
  · exact ⟨isSuspended_bind transport.closing_answers transport.ending_answers, rfl⟩

/-- The loop over the chain is the loop over what it plays; it closes the transport once, unless it
is suspended. -/
theorem consumeGenerator_script {script : TurnScript}
    (hscript : transport.script loads dumps model opening answers = script) (live : Live) :
    ∃ r live' state, consumeGenerator loads dumps model transport executor answers live
        = (r, live', state) ∧
      aclosing script.closing (consumeStream executor script script.events) live = (r, live') ∧
      transportCloses loads dumps transport state = if isSuspended r then 0 else 1 := by
  let guarded := guardedOpenAIGenerator loads dumps transport
  have hfresh := guardedOpenAIGenerator_start loads dumps model transport
  have hplays := plays_openAIGenerator loads dumps model transport
  obtain ⟨state, state', hloop, hclose⟩ := forEach_of_plays hplays
    (handleStreamEvent executor answers) (·.finalBlocks.isSome)
    (handleStreamEvent_stops executor answers) live
  have hclosed := guarded.closes_closeBehind hfresh (handleStreamEvent executor answers) live
  have hopen := guarded.at_forEach_of_plays hplays hfresh GuardPhase.fresh_afterPull
    (handleStreamEvent executor answers) live
  have hends : (openAIStream loads dumps model transport.events).any (·.finalBlocks.isSome)
      = transport.ends loads dumps :=
    (assembleLayer_plays transport.closing transport.closing
      (normalizeSdkEvents loads dumps transport.events)
      { source := { provider := "openai", model := some model } }).2.2
  rcases hstream : consumeStream executor script script.events live with ⟨r, live'⟩
  obtain ⟨hendingScript, hclosingScript⟩ :=
    isSuspended_script loads dumps model transport opening answers
  have hitems : forItems (handleStreamEvent executor answers)
      (transport.script loads dumps model opening answers).ending
      (openAIStream loads dumps model transport.events) live = (r, live') := by
    rw [← hstream, consumeStream_eq, ← hscript]
    rfl
  have hloop' : forEach (openAIGenerator loads dumps transport) (handleStreamEvent executor answers)
      (openAIStart loads dumps model transport) live = (r, live', state) := by
    rw [hloop]
    exact congrArg (fun p => (p.1, p.2, state)) hitems
  have hclose' : (openAIGenerator loads dumps transport).aclose state
      = (script.closing, state') := by
    rw [hclose, hends, ← hscript]
    rfl
  have hleave := leaveLoop_eq hclose' r live'
  rw [consumeGenerator, hloop', aclosing_eq hstream, hleave]
  refine ⟨_, _, _, rfl, rfl, ?_⟩
  rw [hloop'] at hclosed hopen
  rw [hscript] at hendingScript hclosingScript
  cases hsuspended : isSuspended r with
  | true =>
    rcases hopen with hat | hlast
    · have hopened : transportCloses loads dumps transport state = 0 := guarded.closes_eq hat
      simpa [hsuspended] using hopened
    · have hnot : isSuspended r = false := by
        have hscriptEnding : r = script.ending.map fun _ => none := by
          rw [← hscript]
          exact hlast
        rw [hscriptEnding]
        cases hcases : script.ending with
        | ok _ => rfl
        | error interrupt =>
          rw [hcases] at hendingScript
          exact hendingScript
      exact absurd hsuspended (by simp [hnot])
  | false =>
    rw [closeBehind_eq hclose'] at hclosed
    have hreleased : transportCloses loads dumps transport state' = 1 := hclosed
    simpa [hsuspended, isSuspended_bind hclosingScript hsuspended] using hreleased

/-- The agent's turn over the chain is its turn over the events the chain plays, and the transport
is closed once in it: not if it was not opened, and not yet if the turn is suspended. -/
theorem openAIProviderTurn_script (live : Live) :
    ∃ r live', openAIProviderTurn loads dumps model transport executor instructions runHistory
        opening answers live
        = ((r, live'), opening.toOption.map fun _ => if isSuspended r then 0 else 1) ∧
      runProviderTurn executor instructions runHistory
        (transport.script loads dumps model opening answers) live = (r, live') := by
  cases opening with
  | error interrupt => exact ⟨_, _, rfl, rfl⟩
  | ok _ =>
    obtain ⟨r, live', state, hgenerator, hstream, hcloses⟩ := consumeGenerator_script loads dumps
      model transport executor (.ok ()) answers rfl
      (Live.request runHistory instructions executor.tools live)
    -- the turn closes the stream, and then returns its result
    obtain ⟨finish, hturn, hnone, hsome⟩ : ∃ finish : Option TurnResult → AgentRun TurnResult,
        runProviderTurn executor instructions runHistory
            (transport.script loads dumps model (.ok ()) answers) live
          = (aclosing (transport.script loads dumps model (.ok ()) answers).closing
              (consumeStream executor (transport.script loads dumps model (.ok ()) answers)
                (transport.script loads dumps model (.ok ()) answers).events) >>= finish)
            (Live.request runHistory instructions executor.tools live) ∧
        finish none = Effect.raise (.raised providerStreamProtocolError) ∧
        ∀ result, finish (some result) = pure result := ⟨_, rfl, rfl, fun _ => rfl⟩
    rw [hturn]
    rcases r with interrupt | _ | result
    · rw [Effect.bind_of_error hstream]
      exact ⟨_, _, by simp only [openAIProviderTurn, hgenerator, hcloses]; rfl, rfl⟩
    · rw [Effect.bind_of_ok hstream, hnone]
      exact ⟨_, _, by simp only [openAIProviderTurn, hgenerator, hcloses]; rfl, rfl⟩
    · rw [Effect.bind_of_ok hstream, hsome]
      exact ⟨_, _, by simp only [openAIProviderTurn, hgenerator, hcloses]; rfl, rfl⟩

end Chain

/-! ## The agent's loop -/

/-- What the environment does in one turn over the OpenAI provider. -/
structure OpenAITurn where
  opening : Except Interrupt Unit := .ok ()
  transport : Transport
  answers : List ToolAnswer := []

section Loop

variable (loads : String → Option Json) (dumps : Json → String) (model : String)
  (executor : ToolExecutor) (instructions : String)

/-- What the loop sees of a turn. -/
def OpenAITurn.script (turn : OpenAITurn) : TurnScript :=
  turn.transport.script loads dumps model turn.opening turn.answers

/-- `_run_agent_loop` over the OpenAI provider, with how often the transport of each turn was
closed, if it was opened. -/
def openAIAgentLoop : List OpenAITurn → List ConversationItem → List ToolExecutionOutcome → Live →
    (Except Interrupt AgentResult × Live) × List (Option Nat)
  | [], _, _, live => ((.error .pending, live), [])
  | turn :: rest, runHistory, toolExecutions, live =>
    match openAIProviderTurn loads dumps model turn.transport executor instructions runHistory
      turn.opening turn.answers live with
    | ((.ok result, live'), closes) =>
      if result.shouldContinue then
        let (ended, more) := openAIAgentLoop rest (runHistory ++ result.conversationItems)
          (toolExecutions ++ result.toolExecutions) live'
        (ended, closes :: more)
      else
        ((.ok { lastTurn := result.assistantTurn
                toolExecutions := toolExecutions ++ result.toolExecutions }, live'), [closes])
    | ((.error interrupt, live'), closes) => ((.error interrupt, live'), [closes])

/-- **The agent's loop over the chains of its turns is its loop over the events they play, and
closes each transport it opened exactly once**, but for that of a turn it is suspended in. -/
theorem openAIAgentLoop_closes (turns : List OpenAITurn) (runHistory : List ConversationItem)
    (toolExecutions : List ToolExecutionOutcome) (live : Live) :
    ∃ r live' closes, openAIAgentLoop loads dumps model executor instructions turns runHistory
        toolExecutions live = ((r, live'), closes) ∧
      runAgentLoop executor instructions (turns.map (·.script loads dumps model)) runHistory
        toolExecutions live = (r, live') ∧
      (∀ n, .some n ∈ closes.dropLast → n = 1) ∧
      (∀ n, closes.getLast? = some (some n) → n = 1 ∨ n = 0 ∧ isSuspended r = true) := by
  induction turns generalizing runHistory toolExecutions live with
  | nil => exact ⟨_, _, _, rfl, rfl, by simp, by simp⟩
  | cons turn rest ih =>
    obtain ⟨r, live', hgenerator, hscript⟩ := openAIProviderTurn_script loads dumps model
      turn.transport executor instructions runHistory turn.opening turn.answers live
    simp only [openAIAgentLoop, hgenerator, List.map_cons, runAgentLoop]
    have hcloses : ∀ n,
        turn.opening.toOption.map (fun _ => if isSuspended r then 0 else 1) = some n →
        n = if isSuspended r then 0 else 1 := by
      intro n hn
      obtain ⟨_, -, rfl⟩ := Option.map_eq_some_iff.mp hn
      rfl
    cases r with
    | error interrupt =>
      refine ⟨_, _, _, rfl, Effect.bind_of_error hscript _, by simp, fun n hn => ?_⟩
      have hn := hcloses n (Option.some.inj hn)
      cases hsuspended : isSuspended (.error interrupt : Except Interrupt TurnResult) with
      | true => exact .inr ⟨by simpa [hsuspended] using hn, hsuspended⟩
      | false => exact .inl (by simpa [hsuspended] using hn)
    | ok result =>
      have hbind := Effect.bind_of_ok hscript fun result =>
        if result.shouldContinue then
          runAgentLoop executor instructions (rest.map (·.script loads dumps model))
            (runHistory ++ result.conversationItems) (toolExecutions ++ result.toolExecutions)
        else pure { lastTurn := result.assistantTurn
                    toolExecutions := toolExecutions ++ result.toolExecutions }
      have hclosed : ∀ n, some n = turn.opening.toOption.map (fun _ => 1) → n = 1 :=
        fun n hn => hcloses n hn.symm
      cases hcontinue : result.shouldContinue with
      | false =>
        refine ⟨_, _, [turn.opening.toOption.map fun _ => 1], by simp only [hcontinue]; rfl,
          hbind.trans (by simp only [hcontinue]; rfl), by simp, fun n hn => .inl ?_⟩
        exact hclosed n (Option.some.inj hn).symm
      | true =>
        obtain ⟨r, live'', closes, hloop, hrun, hinit, hlast⟩ := ih
          (runHistory ++ result.conversationItems) (toolExecutions ++ result.toolExecutions) live'
        refine ⟨r, live'', (turn.opening.toOption.map fun _ => 1) :: closes,
          by simp only [hcontinue, hloop]; rfl,
          hbind.trans (by simp only [hcontinue]; exact hrun), ?_, ?_⟩
        · intro n hn
          cases closes with
          | nil => simp at hn
          | cons next closes =>
            rcases List.mem_cons.mp hn with hn | hn
            · exact hclosed n hn
            · exact hinit n hn
        · intro n hn
          cases closes with
          | nil => exact .inl (hclosed n (Option.some.inj hn).symm)
          | cons next closes => exact hlast n hn

end Loop

/-- A turn that calls a tool, and one whose response is cancelled behind its first event. -/
def cancelledTurns : List OpenAITurn :=
  let call : ResponseOutputItem :=
    .functionCall { callId := "c1", name := "ls", arguments := "\x7b\x7d" }
  [{ transport := { events := [.created "r1", .outputItemAdded call,
      .functionCallArgumentsDone "\x7b\x7d", .outputItemDone call, .completed [call]] } },
    { transport := { events := [.created "r2"], ending := .error .cancelled } }]

theorem openAIAgentLoop_closes_cancelled : ∃ live' closes,
    openAIAgentLoop (fun text => if text = "\x7b\x7d" then some (.obj []) else none)
        (fun _ => "null") "model" ⟨id, []⟩ "" cancelledTurns [] []
        { execution := .init ⟨"r", "s", "prompt", 2, "model", "openai"⟩ [] }
      = ((.error .cancelled, live'), closes) ∧
    (∀ n, .some n ∈ closes.dropLast → n = 1) ∧ ∀ n, closes.getLast? = some (some n) → n = 1 := by
  obtain ⟨r, live', closes, hloop, hrun, hinit, hlast⟩ := openAIAgentLoop_closes
    (fun text => if text = "\x7b\x7d" then some (.obj []) else none) (fun _ => "null") "model"
    ⟨id, []⟩ "" cancelledTurns [] []
    { execution := .init ⟨"r", "s", "prompt", 2, "model", "openai"⟩ [] }
  obtain rfl : .error .cancelled = r := (Prod.mk.inj hrun).1
  exact ⟨live', closes, hloop, hinit,
    fun n hn => (hlast n hn).resolve_right (by simp [isSuspended])⟩

end Tile
