import Mathlib.Algebra.Group.Nat.Defs
import StackDeck.Claude.Conversation
import StackDeck.Proofs.Diagnosis.Chunk
import StackDeck.Proofs.Diagnosis.Utterance

namespace StackDeck

namespace Diagnosis

namespace Normalizer

variable {n : Normalizer} {c : Chunk}

/-! ### No piece is empty -/

theorem emit_text_ne {kind : ChunkKind} {text source : String} (hc : c ∈ (n.emit kind text source).2) :
    c.text ≠ "" := by
  unfold emit at hc
  split at hc
  next => simp at hc
  next hne =>
    have hcut : c.text = text := congrArg Chunk.text (List.mem_singleton.mp hc)
    rw [hcut]
    intro he
    exact hne (String.isEmpty_iff.mpr he)

theorem addBlock_text_ne {kind text : String} (hc : c ∈ (n.addBlock kind text).2) : c.text ≠ "" := by
  unfold addBlock at hc
  dsimp only at hc
  split at hc
  · exact emit_text_ne hc
  · simp at hc

theorem addBlocks_text_ne {kind : String} {texts : List String} (hc : c ∈ (addBlocks kind texts n).2) :
    c.text ≠ "" := by
  induction texts generalizing n with
  | nil => simp [addBlocks] at hc
  | cons text r ih =>
    rcases List.mem_append.mp hc with hfirst | hrest
    · exact addBlock_text_ne hfirst
    · exact ih hrest

theorem apply_text_ne {e : ProviderEvent} (hc : c ∈ (n.apply e).2) : c.text ≠ "" := by
  cases e with
  | thinking text => exact emit_text_ne hc
  | answer text => exact emit_text_ne hc
  | toolStart name => simp [apply] at hc
  | toolInput fragment => simp [apply] at hc
  | blockStop =>
    simp only [apply, endBlock] at hc
    split at hc
    · simp at hc
    · exact emit_text_ne hc
  | message kind texts error => exact addBlocks_text_ne hc
  | result subtype text isError error =>
    simp only [apply] at hc
    split at hc <;> simp at hc

/-! ### A whole turn -/

theorem take_numbers (u : Utterance) (n : Normalizer) : n.Numbers (n.take u).1 (n.take u).2 := by
  cases u with
  | event e => exact apply_numbers e n
  | diagnostic line => exact .silent rfl

theorem takeAll_numbers (us : List Utterance) (n : Normalizer) : n.Numbers (n.takeAll us).1 (n.takeAll us).2 := by
  induction us generalizing n with
  | nil => exact .silent rfl
  | cons u r ih => exact (take_numbers u n).trans (ih (n.take u).1)

theorem takeAll_text_ne {us : List Utterance} (hc : c ∈ (n.takeAll us).2) : c.text ≠ "" := by
  induction us generalizing n with
  | nil => simp [takeAll] at hc
  | cons u r ih =>
    rcases List.mem_append.mp hc with hfirst | hrest
    · cases u with
      | event e => exact apply_text_ne hfirst
      | diagnostic line => simp at hfirst
    · exact ih hrest

end Normalizer

end Diagnosis

/-! ### The output of the Claude command -/

namespace Claude

open Diagnosis

/-- What a normalizer is given of the output of the Claude command. -/
def heardAs : Shell.Observation → List Utterance
  | .line true text => [.diagnostic text]
  | .line false text =>
    match Message.ofLine? text with
    | some m => m.events.map .event
    | none => if Text.isBlank text then [] else [.diagnostic text]
  | .closed _ => []

/-- A turn has shown what its normalizer gave for what it was given. -/
def Turn.Follows (start : Normalizer) (us : List Utterance) (t : Turn) : Prop :=
  t.normalizer = (start.takeAll us).1 ∧ t.shown = (start.takeAll us).2

section

variable {start : Normalizer} {us : List Utterance} {t : Turn}

theorem Turn.Follows.observe (h : t.Follows start us) (o : Shell.Observation) :
    (t.observe o).Follows start (us ++ heardAs o) := by
  have more (vs : List Utterance) : start.takeAll (us ++ vs) =
      ((t.normalizer.takeAll vs).1, t.shown ++ (t.normalizer.takeAll vs).2) := by
    rw [Normalizer.takeAll_append, h.1, h.2]
  unfold Turn.Follows
  rw [more]
  cases o with
  | closed b => exact ⟨rfl, (List.append_nil _).symm⟩
  | line stderr text =>
    cases stderr with
    | true => exact ⟨rfl, (List.append_nil _).symm⟩
    | false =>
      simp only [Turn.observe, Turn.hear, heardAs]
      cases Message.ofLine? text with
      | some m =>
        rw [Normalizer.takeAll_events]
        exact ⟨rfl, rfl⟩
      | none =>
        simp only
        split
        · exact ⟨rfl, (List.append_nil _).symm⟩
        · exact ⟨rfl, (List.append_nil _).symm⟩

/-- A turn hears its output up to where it is interrupted. -/
theorem Turn.Follows.listen (h : t.Follows start us) (interruptAfter : Option Nat)
    (os : List Shell.Observation) :
    ∃ heard, heard <+: os ∧ (t.listen interruptAfter os).1.Follows start (us ++ heard.flatMap heardAs) := by
  induction os generalizing t us with
  | nil => exact ⟨[], List.prefix_rfl, by simpa [Turn.listen] using h⟩
  | cons o r ih =>
    unfold Turn.listen
    split
    · exact ⟨[], List.nil_prefix, by simpa using h⟩
    · obtain ⟨heard, hpre, hf⟩ := ih (h.observe o)
      refine ⟨o :: heard, List.cons_prefix_cons.mpr ⟨rfl, hpre⟩, ?_⟩
      rw [List.flatMap_cons, ← List.append_assoc]
      exact hf

end

end Claude

namespace Diagnosis

/-- Whatever a turn is given, the pieces it shows are numbered 1, 2, and so on, none of them is empty, and the last
number is their count; what shows nothing leaves it as it is. A turn of the Claude command is given no more than
what its output says. -/
theorem chunks_count_from_one (timeoutSecs : Nat) (us : List Utterance) :
    let n := ((Normalizer.start timeoutSecs).takeAll us).1
    let shown := ((Normalizer.start timeoutSecs).takeAll us).2
    shown.map Chunk.seq = (List.range' 1 shown.length).map UInt64.ofNat ∧
    (shown.length < 2 ^ 64 → shown.map (fun c => c.seq.toNat) = List.range' 1 shown.length) ∧
    n.seq = shown.length ∧
    (∀ c ∈ shown, c.text ≠ "") ∧
    (∀ u, (n.take u).1.seq = n.seq + (n.take u).2.length ∧ ((n.take u).2 = [] → (n.take u).1.seq = n.seq)) ∧
    ∀ resumable interruptAfter os,
      let t : Claude.Turn := { normalizer := .start timeoutSecs, resumable }
      ∃ heard, heard <+: os ∧
        (t.listen interruptAfter os).1.Follows (.start timeoutSecs) (heard.flatMap Claude.heardAs) := by
  intro n shown
  have h : (Normalizer.start timeoutSecs).Numbers n shown := Normalizer.takeAll_numbers us _
  have hseq : shown.map Chunk.seq = (List.range' 1 shown.length).map UInt64.ofNat := h.chunks
  refine ⟨hseq, fun hlt => ?_, ?_, fun c hc => Normalizer.takeAll_text_ne hc, fun u => ?_, ?_⟩
  · have hnat : shown.map (fun c => c.seq.toNat) = (shown.map Chunk.seq).map UInt64.toNat := by
      rw [List.map_map]
      rfl
    rw [hnat, hseq, List.map_map]
    refine (List.map_congr_left fun k hk => ?_).trans (List.map_id _)
    have hbound : k < 2 ^ 64 := by
      have := List.mem_range'_1.mp hk
      omega
    exact UInt64.toNat_ofNat_of_lt' hbound
  · have hcount : n.seq = 0 + shown.length := h.seq
    omega
  · have hu := (Normalizer.take_numbers u n).seq
    refine ⟨hu, fun hnone => ?_⟩
    rw [hu, hnone, List.length_nil, Nat.add_zero]
  · intro resumable interruptAfter os t
    have hstart : t.Follows (.start timeoutSecs) [] := ⟨rfl, rfl⟩
    exact hstart.listen interruptAfter os

end Diagnosis

end StackDeck
