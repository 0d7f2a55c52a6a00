import Tile.Library.Effect

/-!
# Library/AsyncGenerator — asynchronous generators in layers

A generator runs when it is pulled (`anext`), to its next item, its end or an exception, and ends
when it is closed (`aclose`) or an exception is thrown into it (`athrow`); one that was not started
yet ends then without having run.  A `Layer` is what a generator does that iterates over another one
and forwards its closure:

    async with aclosing(inner):
        async for item in inner: ...

* **What a layer plays** is a function of what the inner generator plays: its items, how it ends and
  what closing it in between gives (`Plays.wrap`).
* **Closure reaches the innermost generator**: if that one guards a resource, so does each layer
  over it, and once it is started, however it is left, the resource is released exactly once
  (`Guarded.closes_drive`, `Guarded.closes_closeBehind`).
-/

namespace Tile

/-- What comes of pulling a generator. -/
inductive Pulled (ε α : Type) where
  | item (a : α)
  | stopped
  | raised (error : ε)

/-- An asynchronous generator over finitely many items, which handles no exception. -/
structure AsyncGenerator (ε α : Type) where
  State : Type
  anext : State → Pulled ε α × State
  aclose : State → Except ε Unit × State
  /-- What awaiting `athrow` comes to: nothing, if it had ended before. -/
  athrow : ε → State → Except ε Unit × State
  /-- A bound of the items that are left. -/
  size : State → Nat
  size_lt : ∀ {s a s'}, anext s = (.item a, s') → size s' < size s

/-! ## What a generator plays -/

variable {ε α β : Type}

/-- The pull that finds no item left. -/
def Pulled.last {ε α : Type} : Except ε Unit → Pulled ε α
  | .ok _ => .stopped
  | .error error => .raised error

/-- The generator has ended, and neither pulling nor closing it does anything. -/
structure Over (g : AsyncGenerator ε α) (s : g.State) : Prop where
  anext_eq : g.anext s = (.stopped, s)
  aclose_eq : g.aclose s = (.ok (), s)

/-- It gives these items, then ends like this; closed behind an item, it ends with `closing`. -/
inductive Plays (g : AsyncGenerator ε α) (closing : Except ε Unit) :
    List α → Except ε Unit → g.State → Prop
  | last {s s' : g.State} {ending : Except ε Unit} (hnext : g.anext s = (.last ending, s'))
      (hover : Over g s') : Plays g closing [] ending s
  | item {s s' s'' : g.State} {a : α} {items : List α} {ending : Except ε Unit}
      (hnext : g.anext s = (.item a, s')) (hclose : g.aclose s' = (closing, s''))
      (hover : Over g s'') (hrest : Plays g closing items ending s') :
      Plays g closing (a :: items) ending s

/-! ## Layers -/

/-- How the body of a layer's loop ends, for one item: it yields and, once resumed, goes on or
returns; or it goes on, returns or raises without having yielded. -/
inductive BodyEnd (ε β : Type) where
  | yield (b : β) (leaves : Bool)
  | next
  | leave
  | raise (error : ε)

/-- The body of a loop over the items of another generator, with its local variables. -/
structure Layer (ε α β : Type) where
  Locals : Type
  body : Locals → α → BodyEnd ε β × Locals

/-- Where a layer stands, with the generator underneath. -/
inductive LayerState (σ locals : Type) where
  | unstarted (inner : σ) (locals : locals)
  /-- Suspended at a `yield`, behind which it returns if it `leaves`. -/
  | suspended (inner : σ) (locals : locals) (leaves : Bool)
  | finished (inner : σ)

namespace Layer

variable {ε α β : Type} (g : AsyncGenerator ε α) (layer : Layer ε α β)

/-- The state of the generator underneath. -/
def inner {g : AsyncGenerator ε α} {layer : Layer ε α β} :
    LayerState g.State layer.Locals → g.State
  | .unstarted inner _ | .suspended inner _ _ | .finished inner => inner

/-- Leave the `async with`: the generator underneath is closed, and what its closing raises takes
the place of the body's own end. -/
def exit (inner : g.State) (ending : Pulled ε β) :
    Pulled ε β × LayerState g.State layer.Locals :=
  match g.aclose inner with
  | (.ok _, inner') => (ending, .finished inner')
  | (.error error, inner') => (.raised error, .finished inner')

/-- The `async for`, up to the next `yield`. -/
def loop (inner : g.State) (locals : layer.Locals) :
    Pulled ε β × LayerState g.State layer.Locals :=
  match h : g.anext inner with
  | (.item a, inner') =>
    have := g.size_lt h
    match layer.body locals a with
    | (.yield b leaves, locals') => (.item b, .suspended inner' locals' leaves)
    | (.next, locals') => loop inner' locals'
    | (.leave, _) => exit g layer inner' .stopped
    | (.raise error, _) => exit g layer inner' (.raised error)
  | (.stopped, inner') => exit g layer inner' .stopped
  | (.raised error, inner') => exit g layer inner' (.raised error)
termination_by g.size inner

def anext : LayerState g.State layer.Locals → Pulled ε β × LayerState g.State layer.Locals
  | .unstarted inner locals | .suspended inner locals false => loop g layer inner locals
  | .suspended inner _ true => exit g layer inner .stopped
  | .finished inner => (.stopped, .finished inner)

/-- A layer that was not started is closed without a look at the generator underneath. -/
def aclose : LayerState g.State layer.Locals → Except ε Unit × LayerState g.State layer.Locals
  | .unstarted inner _ | .finished inner => (.ok (), .finished inner)
  | .suspended inner _ _ =>
    let (result, inner') := g.aclose inner
    (result, .finished inner')

/-- Thrown in at a `yield`, an exception leaves the `async with`. -/
def athrow (error : ε) :
    LayerState g.State layer.Locals → Except ε Unit × LayerState g.State layer.Locals
  | .unstarted inner _ => (.error error, .finished inner)
  | .finished inner => (.ok (), .finished inner)
  | .suspended inner _ _ =>
    match g.aclose inner with
    | (.ok _, inner') => (.error error, .finished inner')
    | (.error error', inner') => (.error error', .finished inner')

theorem athrow_suspended (error : ε) (i : g.State) (locals : layer.Locals) (leaves : Bool) :
    (athrow g layer error (.suspended i locals leaves)).2 = .finished (g.aclose i).2 := by
  rw [athrow]
  split <;> next hclose => rw [hclose]

theorem exit_fst (inner : g.State) {ending : Pulled ε β} (h : ∀ b, ending ≠ .item b) (b : β) :
    (exit g layer inner ending).1 ≠ .item b := by
  unfold exit
  split
  · exact h b
  · simp

/-- How the loop ends: it has yielded, with fewer items left, or it has left. -/
theorem loop_cases (inner : g.State) (locals : layer.Locals) :
    (∃ b inner' locals' leaves,
      loop g layer inner locals = (.item b, .suspended inner' locals' leaves) ∧
        g.size inner' < g.size inner) ∨
    ∃ inner' ending, (∀ b, ending ≠ .item b) ∧
      loop g layer inner locals = exit g layer inner' ending := by
  induction hsize : g.size inner using Nat.strongRecOn generalizing inner locals with
  | ind n ih =>
    subst hsize
    unfold loop
    split
    next a inner' h =>
      have hlt := g.size_lt h
      split
      next b leaves locals' hbody => exact .inl ⟨b, inner', locals', leaves, rfl, hlt⟩
      next locals' hbody =>
        rcases ih _ hlt inner' locals' rfl with ⟨b, i, l, leaves, hloop, hsize⟩ | hleft
        · exact .inl ⟨b, i, l, leaves, hloop, Nat.lt_trans hsize hlt⟩
        · exact .inr hleft
      next => exact .inr ⟨inner', _, by simp, rfl⟩
      next => exact .inr ⟨inner', _, by simp, rfl⟩
    next inner' h => exact .inr ⟨inner', _, by simp, rfl⟩
    next inner' h => exact .inr ⟨inner', _, by simp, rfl⟩

/-- The generator that a layer makes of another one. -/
def wrap : AsyncGenerator ε β where
  State := LayerState g.State layer.Locals
  anext := anext g layer
  aclose := aclose g layer
  athrow := athrow g layer
  size state := g.size (inner state)
  size_lt := by
    intro state b state' h
    have hloop : ∀ i locals, loop g layer i locals = (.item b, state') →
        g.size (inner state') < g.size i := by
      intro i locals hloop
      rcases loop_cases g layer i locals with
        ⟨b', i', locals', leaves, heq, hlt⟩ | ⟨i', ending, hending, heq⟩
      · obtain ⟨-, rfl⟩ := Prod.mk.inj (heq.symm.trans hloop)
        exact hlt
      · exact absurd (congrArg Prod.fst (heq.symm.trans hloop)) (exit_fst g layer i' hending b)
    match state with
    | .unstarted i locals => exact hloop i locals h
    | .suspended i locals false => exact hloop i locals h
    | .suspended i locals true =>
      exact absurd (congrArg Prod.fst h) (exit_fst g layer i (by simp) b)
    | .finished i => simp [anext] at h

/-! ## What a layer plays -/

/-- What the body yields for these items, up to where it leaves. -/
def yields (locals : layer.Locals) : List α → List β
  | [] => []
  | a :: rest =>
    match layer.body locals a with
    | (.yield b leaves, locals') => b :: if leaves then [] else yields locals' rest
    | (.next, locals') => yields locals' rest
    | (.leave, _) | (.raise _, _) => []

/-- How a layer ends over a generator that ends with `ending`, or with `closing` where it is
closed. -/
def ends (ending closing : Except ε Unit) (locals : layer.Locals) : List α → Except ε Unit
  | [] => ending
  | a :: rest =>
    match layer.body locals a with
    | (.yield _ leaves, locals') =>
      if leaves then closing else ends ending closing locals' rest
    | (.next, locals') => ends ending closing locals' rest
    | (.leave, _) => closing
    | (.raise error, _) => closing >>= fun _ => .error error

variable {layer} in
theorem yields_of_yield {locals locals' : layer.Locals} {a : α} {b : β} {leaves : Bool}
    (hbody : layer.body locals a = (.yield b leaves, locals')) (rest : List α) :
    yields layer locals (a :: rest) = b :: if leaves then [] else yields layer locals' rest := by
  rw [yields, hbody]

variable {layer} in
theorem yields_of_next {locals locals' : layer.Locals} {a : α}
    (hbody : layer.body locals a = (.next, locals')) (rest : List α) :
    yields layer locals (a :: rest) = yields layer locals' rest := by
  rw [yields, hbody]

variable {layer} in
theorem ends_of_yield {locals locals' : layer.Locals} {a : α} {b : β} {leaves : Bool}
    (hbody : layer.body locals a = (.yield b leaves, locals')) (ending closing : Except ε Unit)
    (rest : List α) :
    ends layer ending closing locals (a :: rest)
      = if leaves then closing else ends layer ending closing locals' rest := by
  rw [ends, hbody]

variable {layer} in
theorem ends_of_next {locals locals' : layer.Locals} {a : α}
    (hbody : layer.body locals a = (.next, locals')) (ending closing : Except ε Unit)
    (rest : List α) :
    ends layer ending closing locals (a :: rest) = ends layer ending closing locals' rest := by
  rw [ends, hbody]

variable {g} {closing ending : Except ε Unit} {items : List α}

/-- Left, a layer is over, and so is the generator underneath. -/
theorem exit_eq {i i' : g.State} (hclose : g.aclose i = (closing, i')) (last : Except ε Unit) :
    exit g layer i (.last last) = (.last (closing >>= fun _ => last), .finished i') := by
  unfold exit
  rw [hclose]
  cases closing <;> rfl

theorem over_finished (i : g.State) : Over (wrap g layer) (.finished i) :=
  ⟨rfl, rfl⟩

theorem loop_of_last {i i' : g.State} (hnext : g.anext i = (.last ending, i'))
    (locals : layer.Locals) : loop g layer i locals = exit g layer i' (.last ending) := by
  rw [loop]
  split
  next h => cases ending <;> simp [hnext, Pulled.last] at h
  next h =>
    cases ending with
    | ok _ => rw [← (Prod.mk.inj (hnext.symm.trans h)).2]; rfl
    | error error => simp [hnext, Pulled.last] at h
  next h =>
    cases ending with
    | ok _ => simp [hnext, Pulled.last] at h
    | error error =>
      obtain ⟨hlast, rfl⟩ := Prod.mk.inj (hnext.symm.trans h)
      obtain rfl : error = _ := by simpa [Pulled.last] using hlast
      rfl

theorem loop_of_item {i i' : g.State} {a : α} (hnext : g.anext i = (.item a, i'))
    (locals : layer.Locals) :
    loop g layer i locals =
      match layer.body locals a with
      | (.yield b leaves, locals') => (.item b, .suspended i' locals' leaves)
      | (.next, locals') => loop g layer i' locals'
      | (.leave, _) => exit g layer i' .stopped
      | (.raise error, _) => exit g layer i' (.raised error) := by
  rw [loop]
  split
  next h =>
    obtain ⟨ha, rfl⟩ := Prod.mk.inj (hnext.symm.trans h)
    obtain rfl : a = _ := by simpa using ha
    rfl
  next h => simp [hnext] at h
  next h => simp [hnext] at h

/-- **A layer plays what its body makes of the items underneath**, one by one. -/
theorem plays_loop {i : g.State} (h : Plays g closing items ending i) (locals : layer.Locals)
    {state : (wrap g layer).State} (hstate : (wrap g layer).anext state = loop g layer i locals) :
    Plays (wrap g layer) closing (yields layer locals items)
      (ends layer ending closing locals items)
      state := by
  induction h generalizing locals state with
  | @last s s' ending hnext hover =>
    rw [loop_of_last layer hnext, exit_eq layer hover.aclose_eq] at hstate
    exact .last hstate (over_finished layer s')
  | @item s s' s'' a items ending hnext hclose hover hrest ih =>
    rw [loop_of_item layer hnext] at hstate
    rw [yields, ends]
    have hleave : ∀ last, (wrap g layer).anext state = exit g layer s' (.last last) →
        Plays (wrap g layer) closing [] (closing >>= fun _ => last) state := by
      intro last hleave
      rw [exit_eq layer hclose] at hleave
      exact .last hleave (over_finished layer s'')
    split at hstate
    next b leaves locals' hbody =>
      have hclosed : (wrap g layer).aclose (.suspended s' locals' leaves)
          = (closing, .finished s'') := by
        simp [wrap, aclose, hclose]
      refine .item hstate hclosed (over_finished layer s'') ?_
      cases leaves with
      | false => exact ih locals' rfl
      | true =>
        have hexit := exit_eq layer hclose (.ok ())
        exact .last (hexit.trans (by cases closing <;> rfl)) (over_finished layer s'')
    next locals' hbody => exact ih locals' hstate
    next hbody =>
      have h := hleave (.ok ()) hstate
      cases closing <;> exact h
    next error _ _ => exact hleave (.error error) hstate

theorem plays_wrap {i : g.State} (h : Plays g closing items ending i) (locals : layer.Locals) :
    Plays (wrap g layer) closing (yields layer locals items)
      (ends layer ending closing locals items)
      (.unstarted i locals) :=
  plays_loop layer h locals rfl

end Layer

/-! ## Consuming a generator -/

section Consume

variable {σ ρ : Type}

/-- An `async for` of a program, up to where its body returns: what it ends with, and the states of
the program and of the generator. -/
def forEach (g : AsyncGenerator ε α) (body : α → Effect σ ε (Option ρ)) (s : g.State) (state : σ) :
    Except ε (Option ρ) × σ × g.State :=
  match h : g.anext s with
  | (.item a, s') =>
    have := g.size_lt h
    match body a state with
    | (.ok none, state') => forEach g body s' state'
    | (.ok (some r), state') => (.ok (some r), state', s')
    | (.error error, state') => (.error error, state', s')
  | (.stopped, s') => (.ok none, state, s')
  | (.raised error, s') => (.error error, state, s')
termination_by g.size s

/-- Leave the `async with aclosing(g)` around a loop. -/
def closeBehind (g : AsyncGenerator ε α) (loop : Except ε ρ × σ × g.State) :
    Except ε ρ × σ × g.State :=
  match g.aclose loop.2.2 with
  | (.ok _, s') => (loop.1, loop.2.1, s')
  | (.error error, s') => (.error error, loop.2.1, s')

/-- The same loop over a list of items that ends with `ending`. -/
def forItems (body : α → Effect σ ε (Option ρ)) (ending : Except ε Unit) :
    List α → Effect σ ε (Option ρ)
  | [] => do
    Effect.lift fun _ => ending
    return none
  | a :: rest => do
    match ← body a with
    | some r => return some r
    | none => forItems body ending rest

variable {g : AsyncGenerator ε α} {closing ending : Except ε Unit} {items : List α} {s s' : g.State}

theorem closeBehind_eq (hclose : g.aclose s = (closing, s')) (r : Except ε ρ) (state : σ) :
    closeBehind g (r, state, s) = (closing >>= fun _ => r, state, s') := by
  unfold closeBehind
  rw [hclose]
  cases closing <;> rfl

theorem forEach_of_last (hnext : g.anext s = (.last ending, s'))
    (body : α → Effect σ ε (Option ρ)) (state : σ) :
    forEach g body s state = (ending.map fun _ => none, state, s') := by
  rw [forEach]
  split
  next h => cases ending <;> simp [hnext, Pulled.last] at h
  next h =>
    cases ending with
    | ok _ => rw [← (Prod.mk.inj (hnext.symm.trans h)).2]; rfl
    | error error => simp [hnext, Pulled.last] at h
  next h =>
    cases ending with
    | ok _ => simp [hnext, Pulled.last] at h
    | error error =>
      obtain ⟨hlast, rfl⟩ := Prod.mk.inj (hnext.symm.trans h)
      obtain rfl : error = _ := by simpa [Pulled.last] using hlast
      rfl

theorem forEach_of_item {a : α} (hnext : g.anext s = (.item a, s'))
    (body : α → Effect σ ε (Option ρ)) (state : σ) :
    forEach g body s state =
      match body a state with
      | (.ok none, state') => forEach g body s' state'
      | (.ok (some r), state') => (.ok (some r), state', s')
      | (.error error, state') => (.error error, state', s') := by
  rw [forEach]
  split
  next h =>
    obtain ⟨ha, rfl⟩ := Prod.mk.inj (hnext.symm.trans h)
    obtain rfl : a = _ := by simpa using ha
    rfl
  next h => simp [hnext] at h
  next h => simp [hnext] at h

/-- **A loop over a generator does what the loop over the items it plays does**, and closing the
generator behind it gives `closing` where the body returned before the last item. -/
theorem forEach_of_plays (h : Plays g closing items ending s) (body : α → Effect σ ε (Option ρ))
    (stops : α → Bool) (hstops : ∀ a state, (body a state).1 ≠ .ok none ↔ stops a = true)
    (state : σ) :
    ∃ s' s'', forEach g body s state
        = ((forItems body ending items state).1, (forItems body ending items state).2, s') ∧
      g.aclose s' = (if items.any stops then closing else .ok (), s'') := by
  induction h generalizing state with
  | @last s s' ending hnext hover =>
    refine ⟨s', s', ?_, hover.aclose_eq⟩
    rw [forEach_of_last hnext]
    cases ending <;> rfl
  | @item s s' s'' a items ending hnext hclose hover hrest ih =>
    have hstop := hstops a state
    rw [forEach_of_item hnext]
    rcases hbody : body a state with ⟨_ | _ | r, state'⟩
    · rw [hbody] at hstop
      have hstopped : stops a = true := hstop.mp (by simp)
      refine ⟨s', s'', ?_, by simpa [hstopped] using hclose⟩
      rw [forItems, Effect.bind_of_error hbody]
    · rw [hbody] at hstop
      have hgoes : stops a = false := by simpa using hstop
      obtain ⟨t, t', hloop, ht⟩ := ih state'
      refine ⟨t, t', ?_, by simpa [hgoes] using ht⟩
      rw [forItems, Effect.bind_of_ok hbody]
      exact hloop
    · rw [hbody] at hstop
      have hstopped : stops a = true := hstop.mp (by simp)
      refine ⟨s', s'', ?_, by simpa [hstopped] using hclose⟩
      rw [forItems, Effect.bind_of_ok hbody]
      rfl

end Consume

/-! ## Closure -/

/-- Where a generator that guards a resource stands. -/
inductive GuardPhase where
  | fresh | opened | released
  /-- Closed before it was started: its resource is not released. -/
  | abandoned
  deriving DecidableEq

namespace GuardPhase

def closes : GuardPhase → Nat
  | released => 1
  | fresh | opened | abandoned => 0

def afterPull : GuardPhase → (isItem : Bool) → GuardPhase
  | fresh, true | opened, true => opened
  | fresh, false | opened, false => released
  | released, _ => released
  | abandoned, _ => abandoned

def afterClose : GuardPhase → GuardPhase
  | fresh | abandoned => abandoned
  | opened | released => released

theorem fresh_afterPull (isItem : Bool) : fresh.afterPull isItem = opened.afterPull isItem := by
  cases isItem <;> rfl

end GuardPhase

/-- The pull gave an item. -/
def Pulled.isItem {ε α : Type} : Pulled ε α → Bool
  | .item _ => true
  | .stopped | .raised _ => false

@[simp] theorem Pulled.isItem_item {ε α : Type} (a : α) :
    (Pulled.item a : Pulled ε α).isItem = true := rfl

@[simp] theorem Pulled.isItem_stopped {ε α : Type} : (Pulled.stopped : Pulled ε α).isItem = false :=
  rfl

@[simp] theorem Pulled.isItem_last {ε α : Type} (ending : Except ε Unit) :
    (Pulled.last ending : Pulled ε α).isItem = false := by
  cases ending <;> rfl

/-- The generator guards a resource, of which it counts the releases. -/
structure Guarded (g : AsyncGenerator ε α) where
  At : GuardPhase → g.State → Prop
  closes : g.State → Nat
  closes_eq : ∀ {phase s}, At phase s → closes s = phase.closes
  at_anext : ∀ {phase s}, At phase s → At (phase.afterPull (g.anext s).1.isItem) (g.anext s).2
  at_aclose : ∀ {phase s}, At phase s → At phase.afterClose (g.aclose s).2
  at_athrow : ∀ {phase s} error, At phase s → At phase.afterClose (g.athrow error s).2

namespace Guarded

variable {g : AsyncGenerator ε α} (guarded : Guarded g) (layer : Layer ε α β)

/-- Where a layer over the generator stands. -/
def AtLayer : GuardPhase → LayerState g.State layer.Locals → Prop
  | .fresh, .unstarted i _ => guarded.At .fresh i
  | .opened, .suspended i _ _ => guarded.At .opened i
  | .released, .finished i => guarded.At .released i
  | .abandoned, .finished i => guarded.At .fresh i ∨ guarded.At .abandoned i
  | _, _ => False

/-- What leaves a started generator, releases its resource, or leaves it released. -/
theorem at_exit {phase : GuardPhase} {i : g.State} (h : guarded.At phase i)
    (hphase : phase.afterClose = .released) (ending : Pulled ε β)
    (hending : ending.isItem = false) :
    (Layer.exit g layer i ending).1.isItem = false ∧
      guarded.AtLayer layer .released (Layer.exit g layer i ending).2 := by
  have hclosed := guarded.at_aclose h
  rw [hphase] at hclosed
  unfold Layer.exit
  split
  next hclose => exact ⟨hending, by rwa [hclose] at hclosed⟩
  next hclose => exact ⟨rfl, by rwa [hclose] at hclosed⟩

/-- One turn of the loop, up to the next yield: the resource is held, or it is released. -/
theorem at_loop {phase : GuardPhase} {i : g.State} (h : guarded.At phase i)
    (hphase : ∀ isItem, phase.afterPull isItem = GuardPhase.opened.afterPull isItem)
    (locals : layer.Locals) :
    guarded.AtLayer layer (GuardPhase.opened.afterPull (Layer.loop g layer i locals).1.isItem)
      (Layer.loop g layer i locals).2 := by
  induction hsize : g.size i using Nat.strongRecOn generalizing phase i locals with
  | ind n ih =>
    subst hsize
    have hpull := guarded.at_anext h
    rw [hphase] at hpull
    have hexit : ∀ {i' : g.State} {phase' : GuardPhase} {ending : Pulled ε β},
        guarded.At phase' i' → phase'.afterClose = .released → ending.isItem = false →
        guarded.AtLayer layer (GuardPhase.opened.afterPull (Layer.exit g layer i' ending).1.isItem)
          (Layer.exit g layer i' ending).2 := by
      intro i' phase' ending h' hphase' hending
      obtain ⟨hitem, hreleased⟩ := guarded.at_exit layer h' hphase' _ hending
      rwa [hitem]
    unfold Layer.loop
    split
    next a i' hnext =>
      rw [hnext] at hpull
      split
      next => exact hpull
      next locals' _ => exact ih _ (g.size_lt hnext) hpull (fun _ => rfl) locals' rfl
      next => exact hexit hpull rfl rfl
      next => exact hexit hpull rfl rfl
    next i' hnext =>
      rw [hnext] at hpull
      exact hexit hpull rfl rfl
    next i' hnext =>
      rw [hnext] at hpull
      exact hexit hpull rfl rfl

/-- **A layer guards what the generator underneath guards.** -/
def wrap : Guarded (Layer.wrap g layer) where
  At := guarded.AtLayer layer
  closes state := guarded.closes (Layer.inner state)
  closes_eq := by
    intro phase state h
    cases phase <;> cases state <;> first
      | exact guarded.closes_eq h
      | exact h.elim
      | exact h.elim guarded.closes_eq guarded.closes_eq
  at_anext := by
    intro phase state h
    cases phase <;> cases state <;> first
      | exact h.elim
      | skip
    next i locals =>
      rw [GuardPhase.fresh_afterPull]
      exact guarded.at_loop layer h GuardPhase.fresh_afterPull locals
    next i locals leaves =>
      cases leaves with
      | false => exact guarded.at_loop layer h (fun _ => rfl) locals
      | true =>
        obtain ⟨hitem, hreleased⟩ := guarded.at_exit layer h rfl .stopped rfl
        show guarded.AtLayer layer
          (GuardPhase.opened.afterPull (Layer.exit g layer i .stopped).1.isItem) _
        rw [hitem]
        exact hreleased
    · exact h
    · exact h
  at_aclose := by
    intro phase state h
    cases phase <;> cases state <;> first
      | exact h.elim
      | skip
    · exact .inl h
    · exact guarded.at_aclose h
    · exact h
    · exact h
  at_athrow := by
    intro phase state error h
    cases phase <;> cases state <;> first
      | exact h.elim
      | skip
    · exact .inl h
    next i locals leaves =>
      rw [show ((Layer.wrap g layer).athrow error (.suspended i locals leaves)).2 = _ from
        Layer.athrow_suspended g layer error i locals leaves]
      exact guarded.at_aclose h
    · exact h
    · exact h

end Guarded

namespace Guarded

variable {σ ρ : Type} {g : AsyncGenerator ε α} (guarded : Guarded g)

/-- Behind a loop, the resource is held or released. -/
theorem at_forEach {phase : GuardPhase} {s : g.State} (h : guarded.At phase s)
    (hphase : ∀ isItem, phase.afterPull isItem = GuardPhase.opened.afterPull isItem)
    (body : α → Effect σ ε (Option ρ)) (state : σ) :
    guarded.At .opened (forEach g body s state).2.2 ∨
      guarded.At .released (forEach g body s state).2.2 := by
  induction hsize : g.size s using Nat.strongRecOn generalizing phase s state with
  | ind n ih =>
    subst hsize
    have hpull := guarded.at_anext h
    rw [hphase] at hpull
    unfold forEach
    split
    next a s' hnext =>
      rw [hnext] at hpull
      split
      next state' _ => exact ih _ (g.size_lt hnext) hpull (fun _ => rfl) state' rfl
      next => exact .inl hpull
      next => exact .inl hpull
    next s' hnext =>
      rw [hnext] at hpull
      exact .inr hpull
    next s' hnext =>
      rw [hnext] at hpull
      exact .inr hpull

/-- A loop that ends otherwise than its generator does, holds the resource. -/
theorem at_forEach_of_plays {closing ending : Except ε Unit} {items : List α} {s : g.State}
    (hplays : Plays g closing items ending s) {phase : GuardPhase} (h : guarded.At phase s)
    (hphase : ∀ isItem, phase.afterPull isItem = GuardPhase.opened.afterPull isItem)
    (body : α → Effect σ ε (Option ρ)) (state : σ) :
    guarded.At .opened (forEach g body s state).2.2 ∨
      (forEach g body s state).1 = ending.map fun _ => none := by
  induction hplays generalizing phase state with
  | last hnext hover =>
    rw [forEach_of_last hnext]
    exact .inr rfl
  | item hnext hclose hover hrest ih =>
    have hpull := guarded.at_anext h
    rw [hphase, hnext] at hpull
    rw [forEach_of_item hnext]
    split
    next state' _ => exact ih hpull (fun _ => rfl) state'
    next => exact .inl hpull
    next => exact .inl hpull

/-- **A loop that is left with its generator closed behind it, releases the resource once.** -/
theorem closes_closeBehind {s : g.State} (h : guarded.At .fresh s)
    (body : α → Effect σ ε (Option ρ)) (state : σ) :
    guarded.closes (closeBehind g (forEach g body s state)).2.2 = 1 := by
  have hreleased : guarded.At .released (g.aclose (forEach g body s state).2.2).2 := by
    rcases guarded.at_forEach h GuardPhase.fresh_afterPull body state with hat | hat
    · exact guarded.at_aclose hat
    · exact guarded.at_aclose hat
  have hstate : (closeBehind g (forEach g body s state)).2.2
      = (g.aclose (forEach g body s state).2.2).2 := by
    unfold closeBehind
    split <;> next hclose => rw [hclose]
  rw [hstate]
  exact guarded.closes_eq hreleased

end Guarded

/-! ## Whoever drives a generator -/

/-- A call of a generator. -/
inductive GeneratorCall (ε : Type) where
  | anext
  | aclose
  | athrow (error : ε)

/-- Drive a generator by some calls: what its pulls gave, and the state it is left in. -/
def AsyncGenerator.drive (g : AsyncGenerator ε α) :
    List (GeneratorCall ε) → g.State → List (Pulled ε α) × g.State
  | [], s => ([], s)
  | .anext :: calls, s =>
    let (pulled, s') := g.anext s
    let (more, s'') := g.drive calls s'
    (pulled :: more, s'')
  | .aclose :: calls, s => g.drive calls (g.aclose s).2
  | .athrow error :: calls, s => g.drive calls (g.athrow error s).2

/-- The first call pulled the generator. -/
def Started (calls : List (GeneratorCall ε)) : Prop := calls.head? = some .anext

/-- It was started, and then closed, thrown into or pulled to its end. -/
def Left (calls : List (GeneratorCall ε)) (pulls : List (Pulled ε α)) : Prop :=
  Started calls ∧ ((∃ call ∈ calls, call ≠ .anext) ∨ ∃ pulled ∈ pulls, pulled.isItem = false)

namespace Guarded

variable {g : AsyncGenerator ε α} (guarded : Guarded g)

/-- A released or abandoned generator stays so. -/
theorem at_drive_of_over (phase : GuardPhase) (hpull : ∀ isItem, phase.afterPull isItem = phase)
    (hclose : phase.afterClose = phase) : ∀ (calls : List (GeneratorCall ε)) {s : g.State},
      guarded.At phase s → guarded.At phase (g.drive calls s).2
  | [], _, h => h
  | .anext :: calls, _, h => by
    have hnext := guarded.at_anext h
    rw [hpull] at hnext
    exact at_drive_of_over phase hpull hclose calls hnext
  | .aclose :: calls, _, h => by
    have hnext := guarded.at_aclose h
    rw [hclose] at hnext
    exact at_drive_of_over phase hpull hclose calls hnext
  | .athrow error :: calls, _, h => by
    have hnext := guarded.at_athrow error h
    rw [hclose] at hnext
    exact at_drive_of_over phase hpull hclose calls hnext

theorem at_drive_of_opened : ∀ (calls : List (GeneratorCall ε)) {s : g.State},
    guarded.At .opened s →
      (guarded.At .released (g.drive calls s).2 ∧
        ((∃ call ∈ calls, call ≠ .anext) ∨ ∃ pulled ∈ (g.drive calls s).1, pulled.isItem = false)) ∨
      guarded.At .opened (g.drive calls s).2 ∧
        (∀ call ∈ calls, call = .anext) ∧ ∀ pulled ∈ (g.drive calls s).1, pulled.isItem = true
  | [], _, h => .inr ⟨h, by simp, by simp [AsyncGenerator.drive]⟩
  | .aclose :: calls, s, h => by
    have hnext := guarded.at_aclose h
    exact .inl ⟨guarded.at_drive_of_over GuardPhase.released (fun _ => rfl) rfl calls hnext,
      .inl ⟨_, List.mem_cons_self, by simp⟩⟩
  | .athrow error :: calls, s, h => by
    have hnext := guarded.at_athrow error h
    exact .inl ⟨guarded.at_drive_of_over GuardPhase.released (fun _ => rfl) rfl calls hnext,
      .inl ⟨_, List.mem_cons_self, by simp⟩⟩
  | .anext :: calls, s, h => by
    have hnext := guarded.at_anext h
    cases hitem : (g.anext s).1.isItem with
    | false =>
      rw [hitem] at hnext
      exact .inl ⟨guarded.at_drive_of_over GuardPhase.released (fun _ => rfl) rfl calls hnext,
        .inr ⟨_, List.mem_cons_self, hitem⟩⟩
    | true =>
      rw [hitem] at hnext
      rcases at_drive_of_opened calls hnext with ⟨hat, hleft⟩ | ⟨hat, hno, hall⟩
      · refine .inl ⟨hat, hleft.imp ?_ ?_⟩
        · rintro ⟨call, hmem, hleaves⟩
          exact ⟨call, List.mem_cons_of_mem _ hmem, hleaves⟩
        · rintro ⟨pulled, hmem, hnot⟩
          exact ⟨pulled, List.mem_cons_of_mem _ hmem, hnot⟩
      · exact .inr
          ⟨hat, List.forall_mem_cons.mpr ⟨rfl, hno⟩, List.forall_mem_cons.mpr ⟨hitem, hall⟩⟩

/-- A generator that is left before it was started keeps its resource. -/
theorem closes_drive_of_abandoned {s : g.State} (h : guarded.At .abandoned s)
    (calls : List (GeneratorCall ε)) : guarded.closes (g.drive calls s).2 = 0 :=
  guarded.closes_eq
    (guarded.at_drive_of_over GuardPhase.abandoned (fun _ => rfl) rfl calls h)

/-- **However a generator is driven, its resource is released once, if it was started and left, and
else not at all.** -/
theorem closes_drive {s : g.State} (h : guarded.At .fresh s) (calls : List (GeneratorCall ε)) :
    (Left calls (g.drive calls s).1 → guarded.closes (g.drive calls s).2 = 1) ∧
      (¬ Left calls (g.drive calls s).1 → guarded.closes (g.drive calls s).2 = 0) := by
  match calls with
  | [] =>
    have hnot : ¬ Left [] (g.drive [] s).1 := by simp [Left, Started]
    exact ⟨fun hleft => absurd hleft hnot, fun _ => guarded.closes_eq h⟩
  | .aclose :: calls =>
    exact ⟨fun hleft => absurd hleft.1 (by simp [Started]),
      fun _ => guarded.closes_drive_of_abandoned (guarded.at_aclose h) calls⟩
  | .athrow error :: calls =>
    exact ⟨fun hleft => absurd hleft.1 (by simp [Started]),
      fun _ => guarded.closes_drive_of_abandoned (guarded.at_athrow error h) calls⟩
  | .anext :: calls =>
    have hnext := guarded.at_anext h
    cases hitem : (g.anext s).1.isItem with
    | false =>
      rw [hitem] at hnext
      have hat := guarded.at_drive_of_over GuardPhase.released (fun _ => rfl) rfl calls hnext
      exact ⟨fun _ => guarded.closes_eq hat,
        fun hnot => absurd ⟨rfl, .inr ⟨_, List.mem_cons_self, hitem⟩⟩ hnot⟩
    | true =>
      rw [hitem] at hnext
      rcases guarded.at_drive_of_opened calls hnext with ⟨hat, hleft⟩ | ⟨hat, hno, hall⟩
      · refine ⟨fun _ => guarded.closes_eq hat, fun hnot => absurd ⟨rfl, hleft.imp ?_ ?_⟩ hnot⟩
        · rintro ⟨call, hmem, hleaves⟩
          exact ⟨call, List.mem_cons_of_mem _ hmem, hleaves⟩
        · rintro ⟨pulled, hmem, hnotItem⟩
          exact ⟨pulled, List.mem_cons_of_mem _ hmem, hnotItem⟩
      · refine ⟨fun ⟨_, hleft⟩ => ?_, fun _ => guarded.closes_eq hat⟩
        rcases hleft with ⟨call, hmem, hleaves⟩ | ⟨pulled, hmem, hnotItem⟩
        · rcases List.mem_cons.mp hmem with rfl | hmem
          · exact absurd rfl hleaves
          · exact absurd (hno call hmem) hleaves
        · rcases List.mem_cons.mp hmem with rfl | hmem
          · simp [hitem] at hnotItem
          · simp [hall pulled hmem] at hnotItem

end Guarded

end Tile
