import Mathlib.Logic.Function.Basic

/-!
# Library/AsyncEvent — an event that tasks wait on

The state of an `asyncio.Event` on a single-threaded loop: a flag, and the tasks parked on it.
Setting it wakes every parked task, and a woken task runs on whatever happens to the flag before its
turn.  Clearing it wakes nobody and puts nobody back to sleep.
-/

namespace Tile

/-- `parked i` is `none` when the task does not wait, else whether it was woken. -/
structure AsyncEvent (ι : Type) where
  isSet : Bool := false
  parked : ι → Option Bool := fun _ => none

namespace AsyncEvent

variable {ι : Type}

/-- The task waits, and nothing has woken it yet. -/
def Asleep (event : AsyncEvent ι) (i : ι) : Prop := event.parked i = some false

def set (event : AsyncEvent ι) : AsyncEvent ι where
  isSet := true
  parked := fun i => (event.parked i).map fun _ => true

def clear (event : AsyncEvent ι) : AsyncEvent ι := { event with isSet := false }

@[simp] theorem isSet_clear (event : AsyncEvent ι) : event.clear.isSet = false := rfl

/-- **Setting an event leaves nobody asleep.** -/
theorem not_asleep_set (event : AsyncEvent ι) (i : ι) : ¬ event.set.Asleep i := by
  rw [Asleep, set]
  cases event.parked i <;> simp

variable [DecidableEq ι]

/-- The task suspends until the event is set. -/
def park (event : AsyncEvent ι) (i : ι) : AsyncEvent ι :=
  { event with parked := Function.update event.parked i (some false) }

/-- The task no longer waits: it was woken and runs on, or it gave up. -/
def leave (event : AsyncEvent ι) (i : ι) : AsyncEvent ι :=
  { event with parked := Function.update event.parked i none }

end AsyncEvent

end Tile
