import Mathlib

/-!
# Queues with a history

A first-in first-out queue is what has ever been pushed and the number of elements that have been
dropped. `contents` is what is left; `contents_push` and `contents_drop` say what the operations
do to it.
-/

structure Fifo (α : Type*) where
  pushed : List α := []
  dropped : ℕ := 0

namespace Fifo

variable {α : Type*} {fifo : Fifo α} {n : ℕ}

def contents (fifo : Fifo α) : List α := fifo.pushed.drop fifo.dropped

def push (fifo : Fifo α) (elements : List α) : Fifo α :=
  { fifo with pushed := fifo.pushed ++ elements }

def drop (fifo : Fifo α) (n : ℕ) : Fifo α := { fifo with dropped := fifo.dropped + n }

/-- No more has been dropped than pushed. -/
def Proper (fifo : Fifo α) : Prop := fifo.dropped ≤ fifo.pushed.length

theorem length_contents (fifo : Fifo α) :
    fifo.contents.length = fifo.pushed.length - fifo.dropped :=
  List.length_drop

theorem contents_push (h : fifo.Proper) (elements : List α) :
    (fifo.push elements).contents = fifo.contents ++ elements :=
  List.drop_append_of_le_length h

theorem contents_drop (fifo : Fifo α) (n : ℕ) : (fifo.drop n).contents = fifo.contents.drop n := by
  rw [contents, contents, List.drop_drop]
  rfl

theorem Proper.push (h : fifo.Proper) (elements : List α) : (fifo.push elements).Proper := by
  unfold Proper at h ⊢
  simp only [Fifo.push, List.length_append]
  omega

theorem Proper.drop (h : fifo.Proper) (hn : n ≤ fifo.contents.length) : (fifo.drop n).Proper := by
  rw [length_contents] at hn
  unfold Proper at h ⊢
  simp only [Fifo.drop]
  omega

end Fifo
