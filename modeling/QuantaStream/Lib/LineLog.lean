import QuantaStream.Lib.GoString

/-!
# Files of lines

A file that is written line by line and may end in the middle of one.  Reading it gives the
complete lines, with their newlines, and the unterminated rest.
-/

namespace LineLog

open List

/-- The complete lines of a file, each with its newline, and what follows the last newline. -/
def splitLines : GoString → List GoString × GoString
  | [] => ([], [])
  | c :: rest =>
    if c = 10 then ([10] :: (splitLines rest).1, (splitLines rest).2)
    else
      match (splitLines rest).1 with
      | [] => ([], c :: (splitLines rest).2)
      | line :: lines => ((c :: line) :: lines, (splitLines rest).2)

def line (text : GoString) : GoString := text ++ [10]

theorem splitLines_of_no_newline {text : GoString} (h : 10 ∉ text) :
    splitLines text = ([], text) := by
  induction text with
  | nil => rfl
  | cons c rest ih =>
    rw [mem_cons, not_or] at h
    have hc : c ≠ 10 := fun heq => h.1 heq.symm
    simp [splitLines, hc, ih h.2]

theorem splitLines_line {text : GoString} (h : 10 ∉ text) (rest : GoString) :
    splitLines (line text ++ rest) =
      (line text :: (splitLines rest).1, (splitLines rest).2) := by
  unfold line
  induction text with
  | nil => simp [splitLines]
  | cons c text ih =>
    rw [mem_cons, not_or] at h
    have hc : c ≠ 10 := fun heq => h.1 heq.symm
    have hih := ih h.2
    simp only [cons_append, splitLines, hc, if_false] at hih ⊢
    rw [hih]

/-- Complete lines are read back in order, followed by the lines of the rest. -/
theorem splitLines_flatMap {texts : List GoString} (h : ∀ text ∈ texts, 10 ∉ text)
    (rest : GoString) :
    splitLines (texts.flatMap line ++ rest) =
      (texts.map line ++ (splitLines rest).1, (splitLines rest).2) := by
  induction texts with
  | nil => rfl
  | cons text texts ih =>
    have hrest := ih fun t ht => h t (mem_cons_of_mem _ ht)
    rw [flatMap_cons, append_assoc, splitLines_line (h text mem_cons_self), hrest]
    rfl

end LineLog
