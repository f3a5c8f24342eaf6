import QuantaStream.Bridge.Expression

/-!
# The residual LIKE

What a filter on bitmaps leaves over is decided row by row: a pattern of LIKE is translated
character by character into a regular expression, in which no dot takes a line break and no
backslash escapes.

- `residualLike_iff`: the patterns that are decided as SQL defines.
-/

namespace QuantaStream.Runtime

open List Bridge

/-! ## Patterns -/

/-- The wildcards and the escape of LIKE. -/
structure Wildcards (α : Type) where
  many : α
  one : α
  escape : α
  distinct : escape ≠ many ∧ escape ≠ one

/-- A piece of a pattern: a character, or as regular expressions `.` and `.*`. -/
inductive LikePiece (α : Type) where
  | char (c : α)
  | one
  | many
  deriving DecidableEq

section

variable {α : Type} [DecidableEq α]

/-- Whether the pieces match a whole text, when the wildcards take the characters of `dot`. -/
def matchPieces (dot : α → Bool) : List (LikePiece α) → List α → Bool
  | [], v => v.isEmpty
  | .char c :: ps, d :: v => c = d && matchPieces dot ps v
  | .one :: ps, c :: v => dot c && matchPieces dot ps v
  | .many :: ps, [] => matchPieces dot ps []
  | .many :: ps, c :: v => matchPieces dot ps (c :: v) || dot c && matchPieces dot (.many :: ps) v
  | _ :: _, [] => false
  termination_by ps v => ps.length + v.length

variable (k : Wildcards α)

/-- The piece of a character that nothing escapes. -/
def likePiece (c : α) : LikePiece α :=
  if c = k.many then .many else if c = k.one then .one else .char c

/-- The pieces of a pattern of SQL: the escape is followed by a character that stands for itself. -/
def sqlPieces : List α → List (LikePiece α)
  | [] => []
  | [c] => [likePiece k c]
  | c :: d :: p =>
    if c = k.escape then .char d :: sqlPieces p else likePiece k c :: sqlPieces (d :: p)

/-- LIKE as SQL defines it. -/
def sqlLike (value pattern : List α) : Bool :=
  matchPieces (fun _ => true) (sqlPieces k pattern) value

/-! ## Matching -/

variable {dot : α → Bool} {ps : List (LikePiece α)} {v p : List α}

/-- A text that matches holds every character of the pieces. -/
theorem count_le_of_match (d : α) (h : matchPieces dot ps v) :
    ps.count (.char d) ≤ v.count d := by
  fun_induction matchPieces dot ps v <;> grind

/-- When the wildcards take every character but one, a text matches if all its occurrences of that
character stand in the pieces. -/
theorem matchPieces_ne_iff (d : α) : matchPieces (· ≠ d) ps v ↔
    matchPieces (fun _ => true) ps v ∧ v.count d = ps.count (.char d) := by
  have hle := fun ps v => @count_le_of_match α _ (fun _ => true) ps v d
  fun_induction matchPieces (fun c => decide (c ≠ d)) ps v <;> grind [matchPieces]

/-- The pieces match a text that holds only their characters and `c`. -/
theorem exists_match (c : α) (ps : List (LikePiece α)) : ∃ v : List α,
    matchPieces (fun _ => true) ps v ∧ ∀ d ≠ c, v.count d = ps.count (.char d) := by
  induction ps with
  | nil => exact ⟨[], by simp [matchPieces], by simp⟩
  | cons p ps ih =>
    obtain ⟨v, hv, hcount⟩ := ih
    cases p with
    | char d => exact ⟨d :: v, by simp [matchPieces, hv], by grind⟩
    | one => exact ⟨c :: v, by simp [matchPieces, hv], by grind⟩
    | many =>
      refine ⟨v, ?_, by grind⟩
      cases v <;> simp [matchPieces, hv]

/-! ## Escapes -/

theorem sqlPieces_eq_map (h : k.escape ∉ p.dropLast) : sqlPieces k p = p.map (likePiece k) := by
  fun_induction sqlPieces k p <;> grind

theorem count_map_likePiece {d : α} (h : d ≠ k.many ∧ d ≠ k.one) :
    (p.map (likePiece k)).count (.char d) = p.count d := by
  induction p <;> grind [likePiece]

theorem count_sqlPieces {d : α} (h : d ≠ k.many ∧ d ≠ k.one ∧ d ≠ k.escape) :
    (sqlPieces k p).count (.char d) = p.count d := by
  fun_induction sqlPieces k p <;> grind [likePiece]

/-- Every escape takes a character away. -/
theorem count_escape_le : (sqlPieces k p).count (.char k.escape) +
    (if k.escape ∈ p.dropLast then 1 else 0) ≤ p.count k.escape := by
  fun_induction sqlPieces k p <;> grind [likePiece]

/-- A pattern with an escape is met by a text that it does not match without the escape. -/
theorem exists_of_escape (h : k.escape ∈ p.dropLast) : ∃ v : List α, sqlLike k v p ∧
    ¬ matchPieces (fun _ => true) (p.map (likePiece k)) v ∧
      ∀ d, d ≠ k.many ∧ d ≠ k.one ∧ d ≠ k.escape → v.count d = p.count d := by
  obtain ⟨v, hv, hcount⟩ := exists_match k.many (sqlPieces k p)
  refine ⟨v, hv, fun hmatch => ?_, fun d hd => ?_⟩
  · have hle := count_le_of_match k.escape hmatch
    rw [count_map_likePiece k k.distinct, hcount _ k.distinct.1] at hle
    have hlt := @count_escape_le α _ k p
    rw [if_pos h] at hlt
    omega
  · rw [hcount d hd.1, count_sqlPieces k hd]

/-! ## Literal texts -/

theorem matchPieces_literal (h : k.many ∉ p ∧ k.one ∉ p) :
    matchPieces dot (p.map (likePiece k) ++ ps) v ↔ ∃ w, v = p ++ w ∧ matchPieces dot ps w := by
  induction p generalizing v with
  | nil => simp
  | cons c p ih =>
    have hc : likePiece k c = .char c := by grind [likePiece]
    cases v <;> grind [matchPieces]

theorem matchPieces_many : matchPieces (fun _ => true) (.many :: ps) v ↔
    ∃ w, w <:+ v ∧ matchPieces (fun _ => true) ps w := by
  induction v with
  | nil => simp [matchPieces]
  | cons c v ih => simp [matchPieces, ih, suffix_cons_iff, or_and_right, exists_or]

theorem matchPieces_leading (h : k.many ∉ p ∧ k.one ∉ p) :
    matchPieces (fun _ => true) (p.map (likePiece k) ++ [.many]) v ↔ p <+: v := by
  have hall (w : List α) : matchPieces (fun _ => true) [.many] w :=
    matchPieces_many.mpr ⟨[], nil_suffix, by simp [matchPieces]⟩
  simp [matchPieces_literal k h, hall, IsPrefix, eq_comm]

end

/-! ## The residual LIKE -/

/-- The wildcards among the characters. -/
def onChars : Wildcards Char := ⟨'%', '_', '\\', by decide⟩

/-- `directBitmapResidualLike`: a dot takes every character but the line break. -/
def directBitmapResidualLike (value pattern : List Char) : Bool :=
  matchPieces (· ≠ '\n') (pattern.map (likePiece onChars)) value

/-- The wildcards among the bytes. -/
def onBytes : Wildcards UInt8 := ⟨37, 95, 92, by decide⟩

/-- The strings that a class of `simpleLikePattern` stands for. -/
def DenotesLike (pattern value : GoString) : LikePattern → Prop
  | .exact => value = pattern
  | .leading => pattern.dropLast <+: value
  | .contains => pattern.tail.dropLast <:+: value
  | .unsupported => False

/-- A class stands for the strings that its pattern matches when nothing escapes. -/
theorem denotesLike_iff {p v : GoString} (h : simpleLikePattern p ≠ .unsupported) :
    DenotesLike p v (simpleLikePattern p) ↔
      matchPieces (fun _ => true) (p.map (likePiece onBytes)) v := by
  revert h
  fun_cases simpleLikePattern p <;> intro h
  next => exact absurd rfl h
  next h₁ h₂ =>
    have := @matchPieces_literal _ _ onBytes (fun _ => true) [] v p ⟨h₂, by simp_all [onBytes]⟩
    simpa [DenotesLike, matchPieces] using this.symm
  next h₁ h₂ h₃ =>
    rw [Bool.and_eq_true, decide_eq_true_eq, decide_eq_true_eq] at h₃
    rcases getLast?_eq_some_iff.mp h₃.1 with ⟨l, rfl⟩
    rw [dropLast_concat] at h₃
    have := @matchPieces_leading _ _ onBytes v l ⟨h₃.2, by simp_all [onBytes]⟩
    simpa [DenotesLike, likePiece, onBytes] using this.symm
  next h₁ h₂ h₃ h₄ =>
    simp only [Bool.and_eq_true, decide_eq_true_eq] at h₄
    rcases getLast?_eq_some_iff.mp h₄.1.2 with ⟨l, rfl⟩
    cases l with
    | nil => simp at h₄
    | cons c l =>
      cases h₄.1.1.2
      have hl : 37 ∉ l := by simpa using h₄.2
      have hmap : (37 :: l ++ [37]).map (likePiece onBytes) =
          .many :: (l.map (likePiece onBytes) ++ [.many]) := by simp [likePiece, onBytes]
      rw [hmap, matchPieces_many]
      simp only [matchPieces_leading onBytes ⟨hl, by simp_all [onBytes]⟩]
      simp [DenotesLike, infix_iff_prefix_suffix, and_comm]
  next => exact absurd rfl h

/-- On a pattern without an escape the residual LIKE decides as SQL does unless the text matches
with more line breaks than the pattern has; on a pattern with an escape it does not, also for a text
without other line breaks.  The classes of `simpleLikePattern` are right without an escape;
they have no `_`, so bytes can stand for characters there. -/
theorem residualLike_iff (p : List Char) (text : GoString) :
    ('\\' ∉ p.dropLast → ∀ v, (directBitmapResidualLike v p = sqlLike onChars v p ↔
        (sqlLike onChars v p → v.count '\n' ≤ p.count '\n'))) ∧
      ('\\' ∈ p.dropLast → ∃ v : List Char, v.count '\n' ≤ p.count '\n' ∧
        directBitmapResidualLike v p ≠ sqlLike onChars v p) ∧
      (simpleLikePattern text ≠ .unsupported →
        ((∀ v, DenotesLike text v (simpleLikePattern text) ↔ sqlLike onBytes v text) ↔
          92 ∉ text.dropLast)) := by
  have hlike (v : List Char) : directBitmapResidualLike v p ↔
      matchPieces (fun _ => true) (p.map (likePiece onChars)) v ∧
        v.count '\n' = p.count '\n' := by
    rw [directBitmapResidualLike, matchPieces_ne_iff, count_map_likePiece _ (by decide)]
  refine ⟨fun hp v => ?_, fun hp => ?_, fun hc => ⟨fun h hp => ?_, fun h v => ?_⟩⟩
  · rw [Bool.eq_iff_iff, hlike, sqlLike, sqlPieces_eq_map _ hp, and_iff_left_iff_imp]
    refine forall_congr' fun hmatch => ⟨Eq.le, fun hle => hle.antisymm ?_⟩
    have hge := count_le_of_match '\n' hmatch
    rwa [count_map_likePiece _ (by decide)] at hge
  · obtain ⟨v, hsql, hcode, hcount⟩ := exists_of_escape onChars hp
    exact ⟨v, (hcount _ (by decide)).le, fun heq => hcode ((hlike v).mp (heq ▸ hsql)).1⟩
  · obtain ⟨v, hsql, hcode, _⟩ := exists_of_escape onBytes hp
    exact hcode ((denotesLike_iff hc).mp ((h v).mpr hsql))
  · rw [denotesLike_iff hc, sqlLike, sqlPieces_eq_map _ h]

/-- A wildcard does not take a line break, and an escaped `%` is no `%`. -/
theorem residualLike_differs :
    (sqlLike onChars ['\n'] ['_'] = true ∧ directBitmapResidualLike ['\n'] ['_'] = false) ∧
      (sqlLike onChars ['%'] ['\\', '%'] = true ∧
        directBitmapResidualLike ['%'] ['\\', '%'] = false) ∧
      simpleLikePattern [97, 92, 37] = .leading ∧
        sqlLike onBytes [97, 92] [97, 92, 37] = false := by
  refine ⟨?_, ?_, by decide, ?_⟩ <;>
    simp [sqlLike, directBitmapResidualLike, sqlPieces, likePiece, matchPieces, onChars,
      onBytes]

end QuantaStream.Runtime
