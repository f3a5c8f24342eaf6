import QuantaStream.Lib.GoString

/-!
# Keys of retried events

A retried event is recognised by a key, the source and the event ID with a colon between them.  The
parts may have colons themselves, so the key can be cut in more than one place.
-/

namespace QuantaStream.Core

open GoString List

def buildIngestDedupKey (source eventID : GoString) : Except String GoString :=
  if trimSpace source = [] then .error "dedup source is required"
  else if trimSpace eventID = [] then .error "dedup event id is required"
  else .ok (ascii "dedup:" ++ (trimSpace source ++ 58 :: trimSpace eventID))

structure IngestDedupRecord where
  dedupKey : GoString
  payloadHash : UInt64

inductive IngestDedupDecision where
  | new
  | duplicate
  | conflict
  deriving DecidableEq

def classifyIngestDedup (existing : Option IngestDedupRecord) (incoming : IngestDedupRecord) :
    IngestDedupDecision :=
  match existing with
  | none => .new
  | some existing =>
    if existing.dedupKey ≠ incoming.dedupKey then .new
    else if existing.payloadHash = incoming.payloadHash then .duplicate
    else .conflict

/-- The second source begins with the first one and a colon, and the first event ID is what follows
there, with a colon and the second event ID behind it. -/
abbrev CutLater (source eventID source' eventID' : GoString) : Prop :=
  source ++ [58] <+: source' ∧ eventID = source'.drop (source.length + 1) ++ 58 :: eventID'

variable {s e s' e' : GoString}

theorem exists_cut_iff : (∃ text, s' = s ++ text ∧ 58 :: e = text ++ 58 :: e') ↔
    (s = s' ∧ e = e') ∨ CutLater s e s' e' := by
  constructor
  · rintro ⟨_ | ⟨b, text⟩, rfl, he⟩
    · exact .inl ⟨by simp, (cons.inj he).2⟩
    · obtain ⟨rfl, rfl⟩ := cons.inj he
      exact .inr ⟨⟨text, by simp⟩, by simp⟩
  · rintro (⟨rfl, rfl⟩ | ⟨⟨text, rfl⟩, rfl⟩)
    · exact ⟨[], by simp⟩
    · exact ⟨58 :: text, by simp⟩

/-- A text that is joined by a colon can be cut at another one. -/
theorem joined_eq_iff : s ++ 58 :: e = s' ++ 58 :: e' ↔
    (s = s' ∧ e = e') ∨ CutLater s e s' e' ∨ CutLater s' e' s e := by
  rw [append_eq_append_iff, exists_cut_iff, exists_cut_iff, eq_comm, eq_comm]
  tauto

theorem CutLater.source_ne (h : CutLater s e s' e') : s ≠ s' := by
  rintro rfl
  have hle := h.1.length_le
  rw [length_append, length_singleton] at hle
  omega

/-- Two events have one key only if they are one event, and an event of another source is new,
exactly if the key of the two can not be cut in two places. -/
theorem dedupKey_separates_iff {source eventID source' eventID' key key' : GoString}
    (h : buildIngestDedupKey source eventID = .ok key)
    (h' : buildIngestDedupKey source' eventID' = .ok key') :
    ((key = key' → trimSpace source = trimSpace source' ∧ trimSpace eventID = trimSpace eventID') ∧
        (trimSpace source ≠ trimSpace source' → ∀ hash hash',
          classifyIngestDedup (some ⟨key, hash⟩) ⟨key', hash'⟩ = .new)) ↔
      ¬ CutLater (trimSpace source) (trimSpace eventID) (trimSpace source') (trimSpace eventID') ∧
        ¬ CutLater (trimSpace source') (trimSpace eventID') (trimSpace source) (trimSpace eventID) := by
  unfold buildIngestDedupKey at h h'
  split_ifs at h h'
  cases h
  cases h'
  rw [append_cancel_left_eq, joined_eq_iff]
  constructor
  · rintro ⟨hsame, -⟩
    exact ⟨fun hcut => hcut.source_ne (hsame (.inr (.inl hcut))).1,
      fun hcut => hcut.source_ne (hsame (.inr (.inr hcut))).1.symm⟩
  · rintro ⟨hcut, hcut'⟩
    have hsame : _ → trimSpace source = trimSpace source' ∧ trimSpace eventID = trimSpace eventID' :=
      fun heq => Or.resolve_right heq (not_or.mpr ⟨hcut, hcut'⟩)
    refine ⟨hsame, fun hsource hash hash' => if_pos fun hkey => hsource ?_⟩
    exact (hsame (joined_eq_iff.mp (append_cancel_left hkey))).1

theorem dedupKey_separates_orders :
    buildIngestDedupKey (ascii "orders") (ascii "1:2") = .ok (ascii "dedup:orders:1:2") ∧
      (ascii "dedup:orders:1:2" = ascii "dedup:bills:2" →
        trimSpace (ascii "orders") = trimSpace (ascii "bills") ∧
          trimSpace (ascii "1:2") = trimSpace (ascii "2")) :=
  ⟨by decide, ((@dedupKey_separates_iff (ascii "orders") (ascii "1:2") (ascii "bills") (ascii "2") _ _
    (by decide) (by decide)).mpr (by decide)).1⟩

/-- The source "a:b" with the event ID "c", and the source "a" with the event ID "b:c". -/
theorem dedupKey_shared :
    buildIngestDedupKey (ascii "a:b") (ascii "c") = .ok (ascii "dedup:a:b:c") ∧
      buildIngestDedupKey (ascii "a") (ascii "b:c") = .ok (ascii "dedup:a:b:c") ∧
      classifyIngestDedup (some ⟨ascii "dedup:a:b:c", 7⟩) ⟨ascii "dedup:a:b:c", 7⟩ = .duplicate := by
  decide

end QuantaStream.Core
