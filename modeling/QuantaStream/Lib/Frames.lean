import Mathlib.Data.List.Basic

/-!
# Messages in frames

A transport whose frames hold a bounded number of bytes carries a longer message in several of
them: full frames, and one that is not full, possibly empty, that ends the message.
-/

namespace Frames

variable {α : Type*}

/-- The frames of a message: full ones, and a shorter one that ends it. -/
def split (m : ℕ) (l : List α) : List (List α) :=
  if 0 < m ∧ m ≤ l.length then l.take m :: split m (l.drop m) else [l]
termination_by l.length
decreasing_by
  rw [List.length_drop]
  omega

variable {m : ℕ}

/-- A short message is one frame. -/
theorem split_of_lt {l : List α} (h : l.length < m) : split m l = [l] := by
  rw [split, if_neg (by omega)]

/-- A long message starts with a full frame. -/
theorem split_of_le {l : List α} (hm : 0 < m) (h : m ≤ l.length) :
    split m l = l.take m :: split m (l.drop m) := by
  rw [split, if_pos ⟨hm, h⟩]

theorem split_ne_nil (m : ℕ) (l : List α) : split m l ≠ [] := by
  rw [split]
  split <;> simp

/-- Frames read one after the other give the message back: a property of what can be read that
passes over a full frame and holds at the last one holds of the whole message. -/
theorem split_induction (hm : 0 < m) {P : List α → List (List α) → Prop}
    (last : ∀ l : List α, l.length < m → P l [l])
    (full : ∀ frame l, frame.length = m → P l (split m l) → P (frame ++ l) (frame :: split m l))
    (l : List α) : P l (split m l) := by
  fun_induction split m l with
  | case1 l hlen ih =>
    have h := full (l.take m) (l.drop m) (List.length_take_of_le hlen.2) ih
    rwa [List.take_append_drop] at h
  | case2 l hlen => exact last l (by omega)

end Frames
