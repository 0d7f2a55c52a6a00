import Tile.Runtime.Phases

/-!
# Runtime/Subscribers — the event subscriptions of a run

Any number of `events` generators share the one `changed` event of a run, and each clears it.  On a
single-threaded loop a generator runs from one suspension to the next without interruption: it
clears the event, drains the log, and waits only when it has drained it.  So no wake-up is lost, and
**a subscription yields the log, in order, to its end** (`subscription_loses_nothing`).
-/

namespace Tile

/-! ## Subscriptions -/

/-- Where a generator stands: not started, suspended at its `yield` or in `changed.wait`, or
over. -/
inductive SubscriptionState where
  | created | yielding | waiting | returned | closed
  deriving Repr, DecidableEq

/-- One `events` generator, and what it has yielded. -/
structure Subscription where
  state : SubscriptionState := .created
  index : Nat := 0
  yielded : List AgentEvent := []

/-- Act on the `changed` event of a run. -/
def RunExecution.onChanged (act : AsyncEvent Nat → AsyncEvent Nat) (execution : RunExecution) :
    RunExecution :=
  { execution with changed := act execution.changed }

/-- The generator `i` drains the log, up to its next suspension.  A wait for an event that is set
does not suspend, and the loop starts again with the event cleared. -/
def Subscription.drain (i : Nat) (subscription : Subscription) (execution : RunExecution) :
    Subscription × RunExecution :=
  match execution.events[subscription.index]? with
  | some event =>
    ({ subscription with state := .yielding, yielded := subscription.yielded ++ [event] },
      execution)
  | none =>
    if execution.finalized then ({ subscription with state := .returned }, execution)
    else if execution.changed.isSet then drain i subscription (execution.onChanged .clear)
    else ({ subscription with state := .waiting }, execution.onChanged (·.park i))
  termination_by execution.changed.isSet.toNat
  decreasing_by simp_all [RunExecution.onChanged]

/-- A run and its subscriptions. -/
structure Watched where
  execution : RunExecution
  subscriptions : Nat → Subscription := fun _ => {}

/-- A step of the loop: the run logs an event or is finalized, or a generator is started, resumed at
its `yield`, resumed after its wait, or closed. -/
inductive WatchAct where
  | emit (event : AgentEvent)
  | finalize (result : RunResult)
  | start (i : Nat)
  | resume (i : Nat)
  | wake (i : Nat)
  | close (i : Nat)

namespace Watched

/-- The generator `i` runs on. -/
def advance (i : Nat) (subscription : Subscription) (execution : RunExecution) (watched : Watched) :
    Watched where
  execution := (subscription.drain i execution).2
  subscriptions := Function.update watched.subscriptions i (subscription.drain i execution).1

/-- One step of the loop; a step that is not possible does nothing. -/
def act (watched : Watched) : WatchAct → Watched
  | .emit event =>
    if watched.execution.finalized then watched
    else { watched with execution := watched.execution.emit event }
  | .finalize result =>
    if watched.execution.finalized then watched
    else { watched with execution := watched.execution.heal.conclude result }
  | .start i => match (watched.subscriptions i).state with
    | .created => watched.advance i (watched.subscriptions i) (watched.execution.onChanged .clear)
    | _ => watched
  | .resume i => match (watched.subscriptions i).state with
    | .yielding =>
      let subscription := watched.subscriptions i
      watched.advance i { subscription with index := subscription.index + 1 } watched.execution
    | _ => watched
  | .wake i =>
    if watched.execution.changed.parked i = some true then
      watched.advance i (watched.subscriptions i)
        ((watched.execution.onChanged (·.leave i)).onChanged .clear)
    else watched
  | .close i =>
    if (watched.subscriptions i).state = .returned then watched
    else {
      execution := watched.execution.onChanged (·.leave i)
      subscriptions := Function.update watched.subscriptions i
        { watched.subscriptions i with state := .closed } }

/-- The steps of a schedule, from a state without subscriptions on. -/
def play (execution : RunExecution) (schedule : List WatchAct) : Watched :=
  schedule.foldl act { execution }

end Watched

/-! ## What a subscription knows -/

/-- A closed log ends with the terminal event of the result. -/
def RunExecution.LogClosed (execution : RunExecution) : Prop :=
  execution.finalized = true → ∃ result, execution.wait = some result ∧
    execution.events.getLast? = some result.terminalEvent

/-- The subscription `i` of a run: it has yielded the log up to its index, it sleeps only when that
is all of a log still open, and it returns only when that is all of a closed one. -/
structure Subscription.Keeps (i : Nat) (subscription : Subscription) (execution : RunExecution) :
    Prop where
  yielded : subscription.yielded <+: execution.events
  yielding : subscription.state = .yielding → subscription.yielded.length = subscription.index + 1
  index : subscription.state = .created ∨ subscription.state = .waiting →
    subscription.yielded.length = subscription.index
  parked : (execution.changed.parked i).isSome = true ↔ subscription.state = .waiting
  asleep : execution.changed.Asleep i →
    subscription.yielded = execution.events ∧ execution.finalized = false
  returned : subscription.state = .returned →
    subscription.yielded = execution.events ∧ execution.finalized = true

/-- The run looks the same to every subscription but `i`. -/
structure RunExecution.SameBut (i : Nat) (execution execution' : RunExecution) : Prop where
  events : execution'.events = execution.events
  finalized : execution'.finalized = execution.finalized
  result : execution'.result = execution.result
  parked : ∀ j, j ≠ i → execution'.changed.parked j = execution.changed.parked j

namespace RunExecution.SameBut

variable {i : Nat} {execution execution' execution'' : RunExecution}

theorem refl (i : Nat) (execution : RunExecution) : SameBut i execution execution :=
  ⟨rfl, rfl, rfl, fun _ _ => rfl⟩

theorem trans (h : SameBut i execution execution') (h' : SameBut i execution' execution'') :
    SameBut i execution execution'' :=
  ⟨h'.events.trans h.events, h'.finalized.trans h.finalized, h'.result.trans h.result,
    fun j hj => (h'.parked j hj).trans (h.parked j hj)⟩

theorem clear (i : Nat) (execution : RunExecution) :
    SameBut i execution (execution.onChanged .clear) := ⟨rfl, rfl, rfl, fun _ _ => rfl⟩

theorem park (i : Nat) (execution : RunExecution) :
    SameBut i execution (execution.onChanged (·.park i)) :=
  ⟨rfl, rfl, rfl, fun _ hj => Function.update_of_ne hj _ _⟩

theorem leave (i : Nat) (execution : RunExecution) :
    SameBut i execution (execution.onChanged (·.leave i)) :=
  ⟨rfl, rfl, rfl, fun _ hj => Function.update_of_ne hj _ _⟩

theorem logClosed (h : SameBut i execution execution') (hlog : execution.LogClosed) :
    execution'.LogClosed := by
  rw [RunExecution.LogClosed, RunExecution.wait, h.events, h.finalized, h.result]
  exact hlog

/-- What a generator does is nothing to another subscription. -/
theorem keeps (h : SameBut i execution execution') {j : Nat} (hj : j ≠ i)
    {subscription : Subscription} (hkeeps : subscription.Keeps j execution) :
    subscription.Keeps j execution' where
  yielded := h.events ▸ hkeeps.yielded
  yielding := hkeeps.yielding
  index := hkeeps.index
  parked := h.parked j hj ▸ hkeeps.parked
  asleep := by
    rw [AsyncEvent.Asleep, h.parked j hj, h.events, h.finalized]
    exact hkeeps.asleep
  returned := by
    rw [h.events, h.finalized]
    exact hkeeps.returned

end RunExecution.SameBut

/-! ## One step -/

theorem prefix_snoc_of_getElem? {α : Type} {l l' : List α} {a : α} (h : l <+: l')
    (ha : l'[l.length]? = some a) : l ++ [a] <+: l' := by
  obtain ⟨rest, rfl⟩ := h
  rw [List.getElem?_append_right le_rfl, Nat.sub_self] at ha
  cases rest with
  | nil => simp at ha
  | cons first rest =>
    obtain rfl := Option.some.inj ha
    exact ⟨rest, by rw [List.append_assoc, List.singleton_append]⟩

theorem eq_of_prefix_of_getElem? {α : Type} {l l' : List α} (h : l <+: l')
    (hnone : l'[l.length]? = none) : l = l' :=
  h.eq_of_length_le (List.getElem?_eq_none_iff.mp hnone)

/-- **A drain**: the generator, not waiting, has yielded the log up to its index. -/
theorem Subscription.drain_keeps (i : Nat) (subscription : Subscription) (execution : RunExecution)
    (hyielded : subscription.yielded <+: execution.events)
    (hindex : subscription.yielded.length = subscription.index)
    (hparked : execution.changed.parked i = none) :
    (subscription.drain i execution).1.Keeps i (subscription.drain i execution).2 ∧
      execution.SameBut i (subscription.drain i execution).2 := by
  fun_induction drain with
  | case1 execution event hevent =>
    refine ⟨⟨?_, ?_, by simp, ?_, ?_, by simp⟩, .refl i execution⟩
    · exact prefix_snoc_of_getElem? hyielded (hindex ▸ hevent)
    · simp [hindex]
    · simp [hparked]
    · simp [AsyncEvent.Asleep, hparked]
  | case2 execution hnone hfinalized =>
    have hall := eq_of_prefix_of_getElem? hyielded (hindex ▸ hnone)
    refine ⟨⟨hyielded, by simp, by simp, ?_, ?_, fun _ => ⟨hall, hfinalized⟩⟩, .refl i execution⟩
    · simp [hparked]
    · simp [AsyncEvent.Asleep, hparked]
  | case3 execution hnone hfinalized hset ih =>
    obtain ⟨hkeeps, hsame⟩ := ih hyielded hparked
    exact ⟨hkeeps, (RunExecution.SameBut.clear i execution).trans hsame⟩
  | case4 execution hnone hfinalized hset =>
    have hall := eq_of_prefix_of_getElem? hyielded (hindex ▸ hnone)
    refine ⟨⟨hyielded, by simp, fun _ => hindex, ?_, ?_, by simp⟩, .park i execution⟩
    · simp [RunExecution.onChanged, AsyncEvent.park]
    · exact fun _ => ⟨hall, Bool.eq_false_iff.mpr hfinalized⟩

/-- **An event is logged**: every parked generator wakes. -/
theorem Subscription.Keeps.announce {i : Nat} {subscription : Subscription}
    {execution execution' : RunExecution} (h : subscription.Keeps i execution)
    (hopen : execution.finalized = false) (hevents : execution.events <+: execution'.events)
    (hchanged : execution'.changed = execution.changed.set) :
    subscription.Keeps i execution' where
  yielded := h.yielded.trans hevents
  yielding := h.yielding
  index := h.index
  parked := by
    rw [hchanged, AsyncEvent.set, Option.isSome_map]
    exact h.parked
  asleep := fun hasleep => absurd (hchanged ▸ hasleep) (AsyncEvent.not_asleep_set _ i)
  returned := fun hreturned => absurd (h.returned hreturned).2 (by simp [hopen])

/-- The invariant of a run and its subscriptions. -/
structure Watched.Keeps (watched : Watched) : Prop where
  log : watched.execution.LogClosed
  subscriptions : ∀ i, (watched.subscriptions i).Keeps i watched.execution

namespace Watched

variable {watched : Watched}

theorem Keeps.init {execution : RunExecution} (hopen : execution.finalized = false)
    (hparked : ∀ i, execution.changed.parked i = none) : Keeps { execution } where
  log := fun hfinalized => by simp [hopen] at hfinalized
  subscriptions := fun i =>
    { yielded := List.nil_prefix
      yielding := nofun
      index := fun _ => rfl
      parked := by simp [hparked]
      asleep := by simp [AsyncEvent.Asleep, hparked]
      returned := nofun }

/-- The generator `i` does something, after which it keeps its invariant. -/
theorem Keeps.update (h : watched.Keeps) {i : Nat} {subscription : Subscription}
    {execution : RunExecution} (hkeeps : subscription.Keeps i execution)
    (hsame : watched.execution.SameBut i execution) :
    Keeps { execution, subscriptions := Function.update watched.subscriptions i subscription } where
  log := hsame.logClosed h.log
  subscriptions := fun j => by
    by_cases hj : j = i
    · subst hj
      simpa using hkeeps
    · simpa [hj] using hsame.keeps hj (h.subscriptions j)

theorem Keeps.advance (h : watched.Keeps) {i : Nat} {subscription : Subscription}
    {execution : RunExecution} (hsame : watched.execution.SameBut i execution)
    (hyielded : subscription.yielded <+: execution.events)
    (hindex : subscription.yielded.length = subscription.index)
    (hparked : execution.changed.parked i = none) :
    (watched.advance i subscription execution).Keeps :=
  let ⟨hkeeps, hdrain⟩ := subscription.drain_keeps i execution hyielded hindex hparked
  h.update hkeeps (hsame.trans hdrain)

/-- A generator that does not wait is not parked. -/
theorem Keeps.parked_eq_none (h : watched.Keeps) {i : Nat}
    (hstate : (watched.subscriptions i).state ≠ .waiting) :
    watched.execution.changed.parked i = none :=
  Option.not_isSome_iff_eq_none.mp fun hparked => hstate ((h.subscriptions i).parked.mp hparked)

/-- **Every step keeps the invariant.** -/
theorem Keeps.act (h : watched.Keeps) (act : WatchAct) : (watched.act act).Keeps := by
  cases act with
  | emit event =>
    rw [Watched.act]
    split
    · exact h
    · rename_i hopen
      have hopen := Bool.eq_false_iff.mpr hopen
      exact ⟨fun hfinalized => absurd hfinalized (by simp [hopen]), fun i =>
        (h.subscriptions i).announce hopen (List.prefix_append _ _) rfl⟩
  | finalize result =>
    rw [Watched.act]
    split
    · exact h
    · rename_i hopen
      have hopen := Bool.eq_false_iff.mpr hopen
      exact ⟨fun _ => ⟨result, rfl, List.getLast?_concat⟩, fun i =>
        (h.subscriptions i).announce hopen (List.prefix_append _ _) rfl⟩
  | start i =>
    rw [Watched.act]
    split
    next hcreated =>
      have hkeeps := h.subscriptions i
      exact h.advance (.clear i _) hkeeps.yielded (hkeeps.index (.inl hcreated))
        (h.parked_eq_none (by simp [hcreated]))
    next => exact h
  | resume i =>
    rw [Watched.act]
    split
    next hyielding =>
      have hkeeps := h.subscriptions i
      exact h.advance (.refl i _) hkeeps.yielded (hkeeps.yielding hyielding)
        (h.parked_eq_none (by simp [hyielding]))
    next => exact h
  | wake i =>
    rw [Watched.act]
    split
    next hwoken =>
      have hkeeps := h.subscriptions i
      have hwaiting := hkeeps.parked.mp (by rw [hwoken]; rfl)
      exact h.advance ((RunExecution.SameBut.leave i _).trans (.clear i _)) hkeeps.yielded
        (hkeeps.index (.inr hwaiting)) (Function.update_self ..)
    next => exact h
  | close i =>
    rw [Watched.act]
    split
    · exact h
    · have hkeeps := h.subscriptions i
      have hleft : (watched.execution.onChanged (·.leave i)).changed.parked i = none :=
        Function.update_self ..
      refine h.update ⟨hkeeps.yielded, nofun, nofun, ?_, ?_, nofun⟩ (.leave i _)
      · simp [hleft]
      · simp [AsyncEvent.Asleep, hleft]

/-- **Every reachable state keeps the invariant.** -/
theorem keeps_play {execution : RunExecution} (hopen : execution.finalized = false)
    (hparked : ∀ i, execution.changed.parked i = none) (schedule : List WatchAct) :
    (play execution schedule).Keeps := by
  induction schedule using List.reverseRecOn with
  | nil => exact .init hopen hparked
  | append_singleton schedule act ih =>
    rw [play, List.foldl_append]
    exact ih.act act

end Watched

theorem Watched.execution_emits (inner : List AgentEvent) : ∀ watched : Watched,
    watched.execution.finalized = false →
      ((inner.map WatchAct.emit).foldl act watched).execution
        = watched.execution.emitAll inner := by
  induction inner with
  | nil => exact fun _ _ => rfl
  | cons event inner ih =>
    intro watched hopen
    rw [List.map_cons, List.foldl_cons, act, if_neg (by simp [hopen])]
    exact ih _ hopen

/-- What execution does to a run is a schedule of emissions. -/
theorem PromptRun.executed_eq_play (run : PromptRun) :
    ∃ inner : List AgentEvent, run.executed.2.execution =
      (Watched.play (.init run.record run.committedHistory) (inner.map .emit)).execution := by
  obtain ⟨inner, -, hinner⟩ := executePrompt_emits run.dependencies run.result run.script
    { execution := .init run.record run.committedHistory }
  have hplay := Watched.execution_emits inner
    { execution := .init run.record run.committedHistory } rfl
  exact ⟨inner, hinner.trans hplay.symm⟩

/-- **Event subscription loses nothing.**  Whatever the schedule of a run and its subscriptions, the
events a subscription has yielded are a prefix of the log; a subscription that waits and was not
woken has yielded all of it, and the run is not finalized; and one that has returned has yielded the
complete log, which ends with the terminal event of the run's result. -/
theorem subscription_loses_nothing (record : ActiveRun) (committedHistory : List HistoryItem)
    (schedule : List WatchAct) (i : Nat) :
    let watched := Watched.play (.init record committedHistory) schedule
    let subscription := watched.subscriptions i
    let log := watched.execution.events
    subscription.yielded <+: log ∧
      (subscription.state = .waiting → watched.execution.changed.parked i ≠ some true →
        subscription.yielded = log ∧ watched.execution.finalized = false) ∧
      (subscription.state = .returned → subscription.yielded = log ∧
        ∃ result, watched.execution.wait = some result ∧
          log.getLast? = some result.terminalEvent) := by
  intro watched subscription log
  have h : watched.Keeps := Watched.keeps_play rfl (fun _ => rfl) schedule
  have hkeeps := h.subscriptions i
  refine ⟨hkeeps.yielded, fun hwaiting hwoken => hkeeps.asleep ?_, fun hreturned => ?_⟩
  · obtain ⟨woken, hparked⟩ := Option.isSome_iff_exists.mp (hkeeps.parked.mpr hwaiting)
    cases woken with
    | false => exact hparked
    | true => exact absurd hparked hwoken
  · obtain ⟨hall, hfinalized⟩ := hkeeps.returned hreturned
    exact ⟨hall, h.log hfinalized⟩

end Tile
