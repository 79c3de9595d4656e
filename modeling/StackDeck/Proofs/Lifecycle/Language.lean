import Mathlib.Data.List.Infix
import StackDeck.Proofs.Lifecycle.Chronicle

namespace StackDeck.Lifecycle

variable {β : Type}

/-- How an operation ends. -/
inductive Ending where
  | done
  | failed
  deriving DecidableEq

def Ending.told (success : Signal) : Ending → Entry
  | .done => .told success
  | .failed => .told .failed

/-- One operation from its call to its outcome, perhaps with a cancel on the way. -/
inductive Block where
  | up (e : Ending)
  | upCancelled (e : Ending)
  | down (e : Ending)
  | restartFailed
  | restart (e : Ending)
  | restartCancelled (e : Ending)
  deriving DecidableEq

namespace Block

def call : Block → Call
  | .up _ | .upCancelled _ => .up
  | .down _ => .down
  | .restartFailed | .restart _ | .restartCancelled _ => .restart

def entries : Block → List Entry
  | .up e => [.call .up, .told .starting, e.told .started]
  | .upCancelled e => [.call .up, .told .starting, .call .cancel, .told .stopping, e.told .stopped]
  | .down e => [.call .down, .told .stopping, e.told .stopped]
  | .restartFailed => [.call .restart, .told .stopping, .told .failed]
  | .restart e => [.call .restart, .told .stopping, .told .starting, e.told .started]
  | .restartCancelled e =>
    [.call .restart, .told .stopping, .told .starting, .call .cancel, .told .stopping, e.told .stopped]

/-- What an operation tells. -/
def word (b : Block) : List Signal := b.entries.filterMap Entry.signal?

/-- A boot is followed by another stop exactly if it was cancelled. -/
theorem cancel_mem_iff (b : Block) : .call .cancel ∈ b.entries ↔ [.starting, .stopping] <:+: b.word := by
  cases b with
  | restartFailed => decide
  | up e | upCancelled e | down e | restart e | restartCancelled e => cases e <;> decide

/-- A cancelled boot is not told to have succeeded. -/
theorem started_not_mem (b : Block) (h : .call .cancel ∈ b.entries) : .started ∉ b.word := by
  revert h
  cases b with
  | restartFailed => decide
  | up e | upCancelled e | down e | restart e | restartCancelled e => cases e <;> decide

/-- No stop is told between the two halves of a restart. -/
theorem stopped_last (b : Block) : ¬ [.stopped, .starting] <:+: b.word := by
  cases b with
  | restartFailed => decide
  | up e | upCancelled e | down e | restart e | restartCancelled e => cases e <;> decide

end Block

/-- The operations that were accepted, without cancels. -/
def Entry.operation? : Entry → Option Call
  | .call .cancel => none
  | .call c => some c
  | .told _ => none

namespace Situation

def bootOpening : Bool → List Entry
  | false => [.call .up, .told .starting]
  | true => [.call .restart, .told .stopping, .told .starting]

/-- What was written down since the stack last was at rest. -/
def opening : Situation → List Entry
  | .rest => []
  | .booting again => bootOpening again
  | .stopping => [.call .down, .told .stopping]
  | .restarting => [.call .restart, .told .stopping]
  | .awaiting again | .reverting again => bootOpening again ++ [.call .cancel, .told .stopping]

/-- A step goes on with the operation or brings it to its end. -/
theorem Step.opening_eq {q r : Situation} {es : List Entry} (h : Step q es r) :
    q.opening ++ es = r.opening ∨ r = .rest ∧ ∃ b : Block, q.opening ++ es = b.entries := by
  cases h with
  | up | down | restart | boot | cancel => exact .inl rfl
  | revert => exact .inl (List.append_nil _)
  | started again =>
    cases again with
    | false => exact .inr ⟨rfl, .up .done, rfl⟩
    | true => exact .inr ⟨rfl, .restart .done, rfl⟩
  | bootFailed again =>
    cases again with
    | false => exact .inr ⟨rfl, .up .failed, rfl⟩
    | true => exact .inr ⟨rfl, .restart .failed, rfl⟩
  | stopped hq =>
    cases hq with
    | stopping => exact .inr ⟨rfl, .down .done, rfl⟩
    | reverting again =>
      cases again with
      | false => exact .inr ⟨rfl, .upCancelled .done, rfl⟩
      | true => exact .inr ⟨rfl, .restartCancelled .done, rfl⟩
  | teardownFailed hq =>
    cases hq with
    | stopping => exact .inr ⟨rfl, .down .failed, rfl⟩
    | restarting => exact .inr ⟨rfl, .restartFailed, rfl⟩
    | reverting again =>
      cases again with
      | false => exact .inr ⟨rfl, .upCancelled .failed, rfl⟩
      | true => exact .inr ⟨rfl, .restartCancelled .failed, rfl⟩

theorem Steps.blocks {q r : Situation} {es : List Entry} (h : q.Steps es r) :
    ∃ blocks : List Block, q.opening ++ es = blocks.flatMap Block.entries ++ r.opening := by
  induction h with
  | refl q => exact ⟨[], by simp⟩
  | @next q r s es fs step _ ih =>
    obtain ⟨blocks, hb⟩ := ih
    rcases step.opening_eq with ho | ⟨rfl, b, ho⟩
    · exact ⟨blocks, by rw [← List.append_assoc, ho, hb]⟩
    · refine ⟨b :: blocks, ?_⟩
      rw [← List.append_assoc, ho, List.flatMap_cons, List.append_assoc, ← hb]
      rfl

/-- An operation in progress can end as one of the blocks. -/
theorem opening_prefix {q : Situation} (hq : q ≠ .rest) :
    ∃ b : Block, ∃ es, es ≠ [] ∧ q.opening ++ es = b.entries ∧
      q.opening.filterMap Entry.operation? = [b.call] := by
  cases q with
  | rest => exact absurd rfl hq
  | booting again =>
    cases again with
    | false => exact ⟨.up .done, [.told .started], by simp, rfl, rfl⟩
    | true => exact ⟨.restart .done, [.told .started], by simp, rfl, rfl⟩
  | stopping => exact ⟨.down .done, [.told .stopped], by simp, rfl, rfl⟩
  | restarting => exact ⟨.restartFailed, [.told .failed], by simp, rfl, rfl⟩
  | awaiting again | reverting again =>
    cases again with
    | false => exact ⟨.upCancelled .done, [.told .stopped], by simp, rfl, rfl⟩
    | true => exact ⟨.restartCancelled .done, [.told .stopped], by simp, rfl, rfl⟩

end Situation

/-- A stack at rest stays there until an operation is accepted. -/
theorem Situation.Steps.of_rest {q : Situation} {es : List Entry} (h : Situation.Steps .rest es q)
    (ho : es.filterMap Entry.operation? = []) : es = [] ∧ q = .rest := by
  cases h with
  | refl => exact ⟨rfl, rfl⟩
  | next step _ =>
    cases step with
    | up | down | restart => simp [Entry.operation?] at ho
    | stopped hq | teardownFailed hq => cases hq

theorem operations_entries (blocks : List Block) :
    (blocks.flatMap Block.entries).filterMap Entry.operation? = blocks.map Block.call := by
  induction blocks with
  | nil => rfl
  | cons b r ih =>
    rw [List.flatMap_cons, List.filterMap_append, ih, List.map_cons]
    have hb : b.entries.filterMap Entry.operation? = [b.call] := by
      cases b with
      | restartFailed => rfl
      | up e | upCancelled e | down e | restart e | restartCancelled e => cases e <;> rfl
    rw [hb]
    rfl

/-- In every run the signals are those of the accepted operations, one block after the other in the order of
their calls. Only the last block may be unfinished, and it is exactly while the stack is not at rest. -/
theorem signals_form_blocks (backend : Backend β) (world : β) (teardownTimeout : Nat)
    (moves : List (Move β)) :
    let s := (Scene.start backend world teardownTimeout).run moves
    ∃ blocks : List Block,
      s.chronicle <+: blocks.flatMap Block.entries ∧
      blocks.dropLast.flatMap Block.entries <+: s.chronicle ∧
      (s.machine.controller.phase = .idle ↔ s.chronicle = blocks.flatMap Block.entries) ∧
      s.chronicle.filterMap Entry.operation? = blocks.map Block.call ∧
      signals s.machine.notices = s.chronicle.filterMap Entry.signal? ∧
      signals s.machine.notices <+: blocks.flatMap Block.word ∧
      ∀ b ∈ blocks, (.call .cancel ∈ b.entries ↔ [.starting, .stopping] <:+: b.word) ∧
        (.call .cancel ∈ b.entries → .started ∉ b.word) ∧ ¬ [.stopped, .starting] <:+: b.word := by
  intro s
  obtain ⟨q, h⟩ := (Scene.start_lawful backend world teardownTimeout).run moves
  change s.Lawful q at h
  obtain ⟨blocks, hb⟩ := h.steps.blocks
  have hp : s.machine.controller.phase = q.phase := h.inside.phase
  have forms : ∀ b : Block, (.call .cancel ∈ b.entries ↔ [.starting, .stopping] <:+: b.word) ∧
      (.call .cancel ∈ b.entries → .started ∉ b.word) ∧ ¬ [.stopped, .starting] <:+: b.word :=
    fun b => ⟨b.cancel_mem_iff, b.started_not_mem, b.stopped_last⟩
  have words {bs : List Block} (hc : s.chronicle <+: bs.flatMap Block.entries) :
      signals s.machine.notices <+: bs.flatMap Block.word := by
    rw [← h.told, show bs.flatMap Block.word = (bs.flatMap Block.entries).filterMap Entry.signal? from
      List.filterMap_flatMap.symm]
    exact hc.filterMap _
  by_cases hq : q = .rest
  · subst hq
    have hc : s.chronicle = blocks.flatMap Block.entries := by simpa [Situation.opening] using hb
    have hle : blocks.dropLast.flatMap Block.entries <+: blocks.flatMap Block.entries := by
      obtain ⟨r, hr⟩ := blocks.dropLast_prefix
      exact ⟨r.flatMap Block.entries, by rw [← List.flatMap_append, hr]⟩
    refine ⟨blocks, hc ▸ List.prefix_rfl, hc ▸ hle, ?_, ?_, h.told.symm, words (hc ▸ List.prefix_rfl),
      fun b _ => forms b⟩
    · simp [hp, hc, Situation.phase]
    · rw [hc, operations_entries]
  · obtain ⟨b, es, hes, hbe, hop⟩ := Situation.opening_prefix hq
    have hc : s.chronicle = blocks.flatMap Block.entries ++ q.opening := hb
    have hw : (blocks ++ [b]).flatMap Block.entries = s.chronicle ++ es := by
      rw [List.flatMap_append, List.flatMap_singleton, ← hbe, hc, List.append_assoc]
    have hpre : s.chronicle <+: (blocks ++ [b]).flatMap Block.entries := ⟨es, hw.symm⟩
    have hne : q.phase ≠ .idle := by cases q <;> simp_all [Situation.phase]
    refine ⟨blocks ++ [b], hpre, ?_, ?_, ?_, h.told.symm, words hpre, fun b _ => forms b⟩
    · rw [List.dropLast_concat, hc]
      exact List.prefix_append _ _
    · rw [hw, hp]
      simp [hne, hes]
    · rw [hc, List.filterMap_append, operations_entries, hop, List.map_append]
      rfl

end StackDeck.Lifecycle
