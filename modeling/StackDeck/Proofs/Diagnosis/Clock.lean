import StackDeck.Proofs.Diagnosis.Asking
import StackDeck.Proofs.Diagnosis.Run

/-!
The clock plays runs: what is proved of every run holds of sessions that are left to themselves for some time.
-/

namespace StackDeck.Diagnosis

namespace Manager

variable {P : Manager → Prop}

theorem pollFor_keeps (poll : ∀ m, P m → P m.poll) (fuel : Nat) {m : Manager} (h : P m) : P (m.pollFor fuel) := by
  induction fuel generalizing m with
  | zero => exact h
  | succ fuel ih =>
    unfold pollFor
    split
    · exact h
    · exact ih (poll m h)

theorem tickTo_keeps (poll : ∀ m, P m → P m.poll) (wake : ∀ now m, P m → P (m.wakeAt now)) (target fuel : Nat)
    {m : Manager} (h : P m) : P (m.tickTo target fuel) := by
  have tick (now : Nat) {m : Manager} (h : P m) : P (m.tick now) := pollFor_keeps poll _ (wake now m h)
  induction fuel generalizing m with
  | zero => exact tick target h
  | succ fuel ih =>
    unfold tickTo
    split
    · exact ih (tick _ h)
    · exact tick target h

/-- What steps of turns and the passing of time keep is kept while some time passes. -/
theorem advance_keeps (poll : ∀ m, P m → P m.poll) (wake : ∀ now m, P m → P (m.wakeAt now)) (ms : Nat)
    {m : Manager} (h : P m) : P (m.advance ms) :=
  tickTo_keeps poll wake _ ms (pollFor_keeps poll _ h)

end Manager

namespace Scene

theorem pollFor_run (fuel : Nat) (s : Scene) :
    ∃ moves, (s.run moves).manager = s.manager.pollFor fuel ∧ (s.run moves).manager.now = s.manager.now := by
  induction fuel generalizing s with
  | zero => exact ⟨[], rfl, rfl⟩
  | succ fuel ih =>
    unfold Manager.pollFor
    by_cases hr : s.manager.ready.isEmpty = true
    · rw [if_pos hr]
      exact ⟨[], rfl, rfl⟩
    · rw [if_neg hr]
      obtain ⟨moves, hm, hn⟩ := ih (s.move .poll)
      exact ⟨.poll :: moves, hm, hn.trans s.manager.poll_keeps.now⟩

theorem settle_run (s : Scene) :
    ∃ moves, (s.run moves).manager = s.manager.settle ∧ (s.run moves).manager.now = s.manager.now :=
  pollFor_run _ s

theorem tick_run {now : Nat} (s : Scene) (h : s.manager.now ≤ now) :
    ∃ moves, (s.run moves).manager = s.manager.tick now ∧ (s.run moves).manager.now = now := by
  have hp : (s.move (.pass (now - s.manager.now))).manager = s.manager.wakeAt now := by
    simp only [move, become]
    rw [Nat.add_sub_cancel' h]
  obtain ⟨moves, hm, hn⟩ := settle_run (s.move (.pass (now - s.manager.now)))
  rw [hp] at hm hn
  exact ⟨.pass (now - s.manager.now) :: moves, hm, hn⟩

theorem tickTo_run {target : Nat} (fuel : Nat) (s : Scene) (h : s.manager.now ≤ target) :
    ∃ moves, (s.run moves).manager = s.manager.tickTo target fuel := by
  have last (s : Scene) (h : s.manager.now ≤ target) : ∃ moves, (s.run moves).manager = s.manager.tick target := by
    obtain ⟨moves, hm, _⟩ := tick_run s h
    exact ⟨moves, hm⟩
  induction fuel generalizing s with
  | zero => exact last s h
  | succ fuel ih =>
    unfold Manager.tickTo
    cases hd : s.manager.nextDue? target with
    | none => exact last s h
    | some due =>
      have hm := List.min?_mem hd
      simp only [List.mem_filter, Bool.and_eq_true, decide_eq_true_eq] at hm
      obtain ⟨_, hlt, hle⟩ := hm
      obtain ⟨ms, hms, hnow⟩ := tick_run s (Nat.le_of_lt hlt)
      obtain ⟨ns, hns⟩ := ih (s.run ms) (hnow ▸ hle)
      exact ⟨ms ++ ns, by rw [run_append, hns, hms]⟩

/-- Letting time pass is a run. -/
theorem advance_run (ms : Nat) (s : Scene) : ∃ moves, (s.run moves).manager = s.manager.advance ms := by
  obtain ⟨moves, hm, hn⟩ := settle_run s
  have hle : (s.run moves).manager.now ≤ s.manager.now + ms := by omega
  obtain ⟨ns, hns⟩ := tickTo_run ms (s.run moves) hle
  exact ⟨moves ++ ns, by rw [run_append, hns, hm]; rfl⟩

end Scene

end StackDeck.Diagnosis
