import StackDeck.Lifecycle.Clock
import StackDeck.Proofs.Lifecycle.Step

/-!
The clock plays runs: what is proved of every run holds of a stack that is left to itself for some time.
-/

namespace StackDeck.Lifecycle

variable {β : Type}

namespace Machine

theorem finish_now (epoch : Nat) (r : Except BackendError Unit) (success : Notice) (m : Machine β) :
    (m.finish epoch r success).now = m.now := by
  unfold finish
  split <;> rfl

theorem pollBoot_now (id epoch token : Nat) (op : Operation β) (m : Machine β) :
    (m.pollBoot id epoch token op).now = m.now := by
  rcases op.poll_ended_or_underway m.now (m.cancelled.contains token) m.world with ⟨r, hr⟩ | hu
  · rw [pollBoot_ended hr]
    exact (finish_now epoch r .started _).trans (work_now ..)
  · rw [pollBoot_underway rfl hu]
    exact work_now ..

theorem afterTeardown_now (id epoch : Nat) (r : Except BackendError Unit) (thenBoot : Bool) (m : Machine β) :
    (m.afterTeardown id epoch r thenBoot).now = m.now := by
  unfold afterTeardown
  split
  · split
    · exact pollBoot_now ..
    · rfl
  · exact finish_now ..

theorem pollTeardown_now (id epoch : Nat) (deadline : Option Nat) (op : Operation β) (thenBoot : Bool)
    (m : Machine β) : (m.pollTeardown id epoch deadline op thenBoot).now = m.now := by
  rcases op.poll_ended_or_underway m.now false m.world with ⟨r, hr⟩ | hu
  · rw [pollTeardown_ended hr]
    exact (afterTeardown_now ..).trans (work_now ..)
  · by_cases hd : deadline.getD (m.now + m.teardownTimeout) ≤ m.now
    · rw [pollTeardown_late rfl hu hd]
      exact (afterTeardown_now ..).trans (work_now ..)
    · rw [pollTeardown_underway rfl hu hd]
      exact work_now ..

/-- A step takes no time. -/
theorem poll_now (id : Nat) (m : Machine β) : (m.poll id).now = m.now := by
  unfold poll
  split
  · rfl
  · split
    · exact pollBoot_now ..
    · exact pollTeardown_now ..
    · unfold pollAwait
      dsimp only
      split
      · exact pollTeardown_now ..
      · split
        · exact pollTeardown_now ..
        · rfl
    · rfl

theorem settle_now (m : Machine β) : m.settle.now = m.now := by
  have polls (ids : List Nat) (m : Machine β) : (ids.foldl (fun m id => m.poll id) m).now = m.now := by
    induction ids generalizing m with
    | nil => rfl
    | cons id r ih => exact (ih _).trans (poll_now id m)
  exact polls _ m

end Machine

namespace Scene

theorem run_polls (ids : List Nat) (s : Scene β) :
    (s.run (ids.map .poll)).machine = ids.foldl (fun m id => m.poll id) s.machine := by
  induction ids generalizing s with
  | nil => rfl
  | cons id r ih => exact ih (s.move (.poll id))

theorem tick_run {now : Nat} (s : Scene β) (h : s.machine.now ≤ now) :
    ∃ moves, (s.run moves).machine = s.machine.tick now := by
  have hp : (s.move (.pass (now - s.machine.now))).machine = { s.machine with now } := by
    simp only [move]
    rw [Nat.add_sub_cancel' h]
  refine ⟨.pass (now - s.machine.now) :: (s.machine.tasks.map Task.id).map .poll, ?_⟩
  show ((s.move (.pass (now - s.machine.now))).run _).machine = _
  rw [run_polls, hp]
  rfl

theorem tickTo_run {target : Nat} (fuel : Nat) (s : Scene β) (h : s.machine.now ≤ target) :
    ∃ moves, (s.run moves).machine = s.machine.tickTo target fuel := by
  induction fuel generalizing s with
  | zero => exact tick_run s h
  | succ fuel ih =>
    unfold Machine.tickTo
    cases hd : s.machine.nextDue? target with
    | none => exact tick_run s h
    | some due =>
      have hm := List.min?_mem hd
      simp only [List.mem_filter, Bool.and_eq_true, decide_eq_true_eq] at hm
      obtain ⟨_, hlt, hle⟩ := hm
      obtain ⟨ms, hms⟩ := tick_run s (Nat.le_of_lt hlt)
      have hnow : (s.run ms).machine.now ≤ target := by
        rw [hms, Machine.tick, Machine.settle_now]
        exact hle
      obtain ⟨ns, hns⟩ := ih (s.run ms) hnow
      exact ⟨ms ++ ns, by rw [run_append, hns, hms]⟩

/-- Letting time pass is a run. -/
theorem advance_run (ms : Nat) (s : Scene β) : ∃ moves, (s.run moves).machine = s.machine.advance ms := by
  have hs := run_polls (s.machine.tasks.map Task.id) s
  have hnow : (s.run ((s.machine.tasks.map Task.id).map .poll)).machine.now ≤ s.machine.now + ms := by
    rw [hs]
    exact Nat.le_trans (Nat.le_of_eq s.machine.settle_now) (Nat.le_add_right _ _)
  obtain ⟨ns, hns⟩ := tickTo_run ms _ hnow
  refine ⟨(s.machine.tasks.map Task.id).map .poll ++ ns, ?_⟩
  rw [run_append, hns, hs]
  rfl

end Scene

end StackDeck.Lifecycle
