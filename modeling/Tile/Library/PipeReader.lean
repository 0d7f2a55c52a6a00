import Mathlib.Data.List.Basic

/-!
# Library/PipeReader — an event loop's reader of a bounded pipe

    writer ──▸ pipe ──feed──▸ buffer ──read──▸ coroutine

The event loop feeds a reader's buffer with what it finds in the pipe.  It stops when more than
twice the limit is buffered, and goes on when a read has brought the buffer down to the limit; **the
end of a pipe is seen while feeding**, hence not while the pipe is paused.  A pipe that is read can
always go on (`Pipe.Sound.moves`); one that is paused and that nobody reads stays as it is.
-/

namespace Tile

/-- A pipe and its reader. -/
structure Pipe (α : Type u) where
  /-- What was written and is not yet fed. -/
  inPipe : List α := []
  buffer : List α := []
  paused : Bool := false
  /-- The end of the pipe was seen, and the reader was told. -/
  disconnected : Bool := false

namespace Pipe

variable {α : Type u} {limit size n : Nat} {closed closed' : Prop} {p : Pipe α}

/-- The writer's end. -/
def write (p : Pipe α) (a : α) : Pipe α := { p with inPipe := p.inPipe ++ [a] }

/-- `StreamReader.feed_data`. -/
def feed (limit size : Nat) (p : Pipe α) : Pipe α :=
  let buffer := p.buffer ++ p.inPipe.take size
  { p with inPipe := p.inPipe.drop size, buffer, paused := p.paused || 2 * limit < buffer.length }

/-- `StreamReader.read(n)` of what is buffered, which it returns. -/
def read (limit n : Nat) (p : Pipe α) : Pipe α :=
  let buffer := p.buffer.drop n
  { p with buffer, paused := p.paused && limit < buffer.length }

/-- `connection_lost`, with `StreamReader.feed_eof`. -/
def disconnect (p : Pipe α) : Pipe α := { p with disconnected := true }

/-- The event loop takes this much at once. -/
def CanFeed (most size : Nat) (p : Pipe α) : Prop :=
  p.paused = false ∧ 0 < size ∧ size ≤ p.inPipe.length ∧ size ≤ most

theorem CanFeed.ne_nil {most : Nat} (h : p.CanFeed most size) : p.inPipe ≠ [] := fun hempty => by
  obtain ⟨-, hpositive, hle, -⟩ := h
  rw [hempty, List.length_nil] at hle
  omega

/-- The event loop sees that the pipe is empty and closed. -/
def CanDisconnect (p : Pipe α) : Prop :=
  p.paused = false ∧ p.inPipe.length = 0 ∧ p.disconnected = false

instance (most size : Nat) (p : Pipe α) : Decidable (p.CanFeed most size) :=
  inferInstanceAs (Decidable (_ ∧ _))

instance (p : Pipe α) : Decidable p.CanDisconnect := inferInstanceAs (Decidable (_ ∧ _))

/-- A read finds the end of the stream. -/
def AtEnd (p : Pipe α) : Prop := p.buffer.length = 0 ∧ p.disconnected = true

instance (p : Pipe α) : Decidable p.AtEnd := inferInstanceAs (Decidable (_ ∧ _))

/-! ## What a pipe holds -/

/-- What was written and not read, in order. -/
def content (p : Pipe α) : List α := p.buffer ++ p.inPipe

@[simp] theorem content_write (p : Pipe α) (a : α) : (p.write a).content = p.content ++ [a] :=
  (List.append_assoc ..).symm

@[simp] theorem content_feed (limit size : Nat) (p : Pipe α) :
    (p.feed limit size).content = p.content := by
  rw [content, feed, List.append_assoc, List.take_append_drop, content]

@[simp] theorem content_disconnect (p : Pipe α) : p.disconnect.content = p.content := rfl

theorem length_content_read_le (limit n : Nat) (p : Pipe α) :
    (p.read limit n).content.length ≤ p.content.length := by
  simp only [content, read, List.length_append, List.length_drop]
  omega

/-- **A read takes from the front.** -/
theorem take_append_content_read (limit n : Nat) (p : Pipe α) :
    p.buffer.take n ++ (p.read limit n).content = p.content := by
  rw [content, read, ← List.append_assoc, List.take_append_drop, content]

/-- What holds of a pipe at any time, whose writing end is `closed` or not. -/
structure Sound (limit : Nat) (closed : Prop) (p : Pipe α) : Prop where
  paused : p.paused = true → limit < p.buffer.length
  disconnected : p.disconnected = true → p.inPipe = [] ∧ closed

namespace Sound

theorem start (limit : Nat) (closed : Prop) : Sound limit closed ({} : Pipe α) where
  paused hpaused := by cases hpaused
  disconnected hdisconnected := by cases hdisconnected

theorem mono (h : p.Sound limit closed) (himp : closed → closed') : p.Sound limit closed' :=
  ⟨h.paused, fun hdisconnected => (h.disconnected hdisconnected).imp_right himp⟩

theorem write (h : p.Sound limit closed) (hopen : ¬ closed) (a : α) :
    (p.write a).Sound limit closed :=
  ⟨h.paused, fun hdisconnected => absurd (h.disconnected hdisconnected).2 hopen⟩

theorem feed (h : p.Sound limit closed) {most : Nat} (hfeed : p.CanFeed most size) :
    (p.feed limit size).Sound limit closed where
  paused hpaused := by
    have hlength : 2 * limit < (p.buffer ++ p.inPipe.take size).length := by
      simpa [Pipe.feed, hfeed.1] using hpaused
    show limit < (p.buffer ++ p.inPipe.take size).length
    omega
  disconnected hdisconnected := absurd (h.disconnected hdisconnected).1 hfeed.ne_nil

theorem read (h : p.Sound limit closed) (n : Nat) : (p.read limit n).Sound limit closed where
  paused hpaused := of_decide_eq_true (Bool.and_eq_true_iff.mp hpaused).2
  disconnected := h.disconnected

theorem disconnect (h : p.Sound limit closed) (hend : p.CanDisconnect) (hclosed : closed) :
    p.disconnect.Sound limit closed :=
  ⟨h.paused, fun _ => ⟨List.eq_nil_of_length_eq_zero hend.2.1, hclosed⟩⟩

/-- At the end of the stream, all was read. -/
theorem content_of_atEnd (h : p.Sound limit closed) (hend : p.AtEnd) : p.content = [] := by
  rw [content, List.eq_nil_of_length_eq_zero hend.1, (h.disconnected hend.2).1, List.append_nil]

theorem not_canFeed (h : p.Sound limit closed) (hend : p.AtEnd) {most : Nat} :
    ¬ p.CanFeed most size :=
  fun hfeed => hfeed.ne_nil (h.disconnected hend.2).1

/-- **Nothing blocks a reader that reads**: what is buffered can be read, and if nothing is, the
pipe is fed, or it is empty and its end is seen. -/
theorem moves (h : p.Sound limit closed) (most : Nat) (hmost : 0 < most) :
    p.buffer.length ≠ 0 ∨ p.CanFeed most 1 ∨ p.content = [] ∧ (p.CanDisconnect ∨ p.AtEnd) := by
  by_cases hbuffer : p.buffer.length = 0
  · right
    have hpaused : p.paused = false := Bool.eq_false_iff.mpr fun hpaused => by
      have hlt := h.paused hpaused
      omega
    by_cases hempty : p.inPipe.length = 0
    · refine .inr ⟨by simp [content, List.eq_nil_of_length_eq_zero, hbuffer, hempty], ?_⟩
      cases hdisconnected : p.disconnected with
      | false => exact .inl ⟨hpaused, hempty, hdisconnected⟩
      | true => exact .inr ⟨hbuffer, hdisconnected⟩
    · exact .inl ⟨hpaused, Nat.one_pos, Nat.one_le_iff_ne_zero.mpr hempty, hmost⟩
  · exact .inl hbuffer

end Sound

/-! ## What is left to do -/

/-- A byte in the pipe is fed and read; its end is seen. -/
def left (p : Pipe α) : Nat :=
  2 * p.inPipe.length + p.buffer.length + (!p.disconnected).toNat

theorem left_write (p : Pipe α) (a : α) : (p.write a).left = p.left + 2 := by
  simp only [left, write, List.length_append, List.length_singleton]
  omega

theorem left_feed {most : Nat} (h : p.CanFeed most size) : (p.feed limit size).left < p.left := by
  obtain ⟨-, hpositive, hle, -⟩ := h
  simp only [left, feed, List.length_append, List.length_drop, List.length_take]
  omega

theorem left_read (hn : 0 < n) (h : p.buffer.length ≠ 0) : (p.read limit n).left < p.left := by
  simp only [left, read, List.length_drop]
  omega

theorem left_disconnect (h : p.CanDisconnect) : p.disconnect.left < p.left := by
  simp [left, disconnect, h.2.2]

end Pipe

end Tile
