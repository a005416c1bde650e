import Mathlib.Tactic

/-!
# Lib/BoundedQueue — a queue of bounded length, with its history

A `BoundedQueue α cap` holds at most `cap` entries.  What is put in goes to the back, as far as
there is room; what is taken out comes from the front.  A `Ledger` is such a queue together with all
that ever entered it and left it, and the law that it is first in, first out.
-/

/-- A queue of at most `cap` entries. -/
structure BoundedQueue (α : Type*) (cap : ℕ) where
  entries : List α := []
  length_le : entries.length ≤ cap := by simp

namespace BoundedQueue

variable {α : Type*} {cap : ℕ}

def room (q : BoundedQueue α cap) : ℕ := cap - q.entries.length

/-- Put in what there is room for. -/
def put (q : BoundedQueue α cap) (xs : List α) : BoundedQueue α cap where
  entries := q.entries ++ xs.take q.room
  length_le := by
    have hle := q.length_le
    rw [List.length_append, List.length_take, room]
    omega

/-- Take out `n` entries, or all there are. -/
def remove (q : BoundedQueue α cap) (n : ℕ) : BoundedQueue α cap where
  entries := q.entries.drop n
  length_le := by
    have hle := q.length_le
    rw [List.length_drop]
    omega

/-- **A queue and its history**: what has entered is what has left, followed by what is there. -/
structure Ledger (α : Type*) (cap : ℕ) where
  queue : BoundedQueue α cap := {}
  entered : List α := []
  left : List α := []
  fifo : left ++ queue.entries = entered := by simp

namespace Ledger

def put (l : Ledger α cap) (xs : List α) : Ledger α cap where
  queue := l.queue.put xs
  entered := l.entered ++ xs.take l.queue.room
  left := l.left
  fifo := by rw [BoundedQueue.put, ← List.append_assoc, l.fifo]

def remove (l : Ledger α cap) (n : ℕ) : Ledger α cap where
  queue := l.queue.remove n
  entered := l.entered
  left := l.left ++ l.queue.entries.take n
  fifo := by rw [BoundedQueue.remove, List.append_assoc, List.take_append_drop, l.fifo]

end Ledger

end BoundedQueue
