import Mathlib.Data.List.DropRight
import Mathlib.Data.List.Induction
import StackDeck.Stack.Context

/-!
The history of a stack holds the last lines that were pushed since it was cleared, as many as it has room for.
-/

namespace StackDeck.Log

namespace History

/-- What is done to a history. -/
inductive Change where
  | push (l : Line)
  | clear

namespace Change

def apply : Change → History → History
  | .push l, h => h.push l
  | .clear, h => h.clear

def line? : Change → Option Line
  | .push l => some l
  | .clear => none

end Change

def run (cs : List Change) (h : History) : History := cs.foldl (fun h c => c.apply h) h

/-- The lines pushed since the last clear. -/
def pushed (cs : List Change) : List Line :=
  (cs.rtakeWhile fun c => c.line?.isSome).filterMap Change.line?

variable {cs : List Change} {h : History}

theorem run_concat (cs : List Change) (c : Change) (h : History) : run (cs ++ [c]) h = c.apply (run cs h) :=
  List.foldl_concat _ _ _ _

theorem pushed_push (cs : List Change) (l : Line) : pushed (cs ++ [.push l]) = pushed cs ++ [l] := by
  rw [pushed, List.rtakeWhile_concat_pos _ _ _ rfl, List.filterMap_append]
  rfl

theorem pushed_clear (cs : List Change) : pushed (cs ++ [.clear]) = [] := by
  rw [pushed, List.rtakeWhile_concat_neg _ _ _ (by simp [Change.line?])]
  rfl

theorem capacity_run : (run cs h).capacity = h.capacity := by
  induction cs using List.reverseRecOn with
  | nil => rfl
  | append_singleton cs c ih =>
    rw [run_concat]
    cases c <;> exact ih

theorem rtake_rtake {α : Type} (m n : Nat) (xs : List α) : (xs.rtake m).rtake n = xs.rtake (min n m) := by
  simp only [List.rtake_eq_reverse_take_reverse, List.reverse_reverse, List.take_take]

/-- The room that a line needs is made by the oldest ones. -/
theorem lines_push {c : Nat} {p : List Line} (hc : h.capacity = c + 1) (hp : h.lines = p.rtake (c + 1)) (l : Line) :
    (h.push l).lines = (p ++ [l]).rtake (c + 1) := by
  have hdrop : h.lines.drop (h.lines.length + 1 - (c + 1)) = h.lines.rtake c := by
    rw [List.rtake, Nat.add_sub_add_right]
  rw [push, hc, hdrop, hp, rtake_rtake, List.rtake_concat_succ, Nat.min_eq_left (Nat.le_succ c)]

/-- What one change after another has left is the end of what was pushed since the last clear. -/
theorem lines_run (capacity : Nat) (cs : List Change) :
    (run cs (empty capacity)).lines = (pushed cs).rtake (max capacity 1) := by
  obtain ⟨c, hc⟩ : ∃ c, max capacity 1 = c + 1 := ⟨max capacity 1 - 1, by omega⟩
  have hroom (cs : List Change) : (run cs (empty capacity)).capacity = c + 1 := capacity_run.trans hc
  rw [hc]
  induction cs using List.reverseRecOn with
  | nil => simp [run, empty, pushed]
  | append_singleton cs change ih =>
    rw [run_concat]
    cases change with
    | push l => rw [pushed_push, Change.apply, lines_push (hroom cs) ih]
    | clear => simp [pushed_clear, Change.apply, clear]

/-! ### What is read -/

theorem snapshot_some (n : Nat) (h : History) : h.snapshot (some n) = h.lines.rtake n := rfl

/-- Looking from the end finds the same lines in the same order as looking from the front. -/
theorem forService_all (s : String) (h : History) :
    h.forService s none = h.lines.filter fun l => l.service == s := by
  rw [forService, List.filter_reverse, List.reverse_reverse]

theorem forService_some (s : String) (n : Nat) (h : History) :
    h.forService s (some n) = (h.lines.filter fun l => l.service == s).rtake n := by
  rw [forService, List.filter_reverse, List.rtake_eq_reverse_take_reverse]

end History

end StackDeck.Log

namespace StackDeck.Stack.Context

variable {β : Type}

theorem logHistory_all (limit : Option Nat) (x : Context β) :
    x.logHistory none limit = x.manager.history.snapshot limit := rfl

/-- A blank name stands for no name. -/
theorem logHistory_named (s : String) (limit : Option Nat) (x : Context β) :
    x.logHistory (some s) limit =
      if Text.isBlank s then x.manager.history.snapshot limit else x.manager.history.forService s limit := by
  unfold logHistory
  cases hs : Text.isBlank s <;> simp [Option.filter, hs]

end StackDeck.Stack.Context

namespace StackDeck.Log.History

/-- After any changes a history of room `c` shows the last `c` of the lines pushed since the last clear, fewer on
demand, and those of one service among them; it never holds more. The log of a stack is read from it, for one
service if a name is given that is not blank. -/
theorem shows_last_lines {β : Type} (capacity : Nat) (cs : List Change) :
    let h := run cs (empty capacity)
    let c := max capacity 1
    let p := pushed cs
    (h.snapshot none = p.rtake c ∧ ∀ n, h.snapshot (some n) = p.rtake (min n c)) ∧
    (∀ s, (∀ n, h.forService s (some n) = ((h.snapshot none).filter fun l => l.service == s).rtake n) ∧
      h.forService s none = (h.snapshot none).filter fun l => l.service == s) ∧
    (h.size = min p.length c ∧ h.size ≤ c ∧ h.capacity = c) ∧
    ∀ (x : Stack.Context β) (limit : Option Nat),
      x.logHistory none limit = x.manager.history.snapshot limit ∧
      ∀ s, x.logHistory (some s) limit =
        if Text.isBlank s then x.manager.history.snapshot limit else x.manager.history.forService s limit := by
  intro h c p
  have hl : h.lines = p.rtake c := lines_run capacity cs
  have hsize : h.size = min p.length c := by
    rw [size, hl, List.rtake, List.length_drop]
    omega
  refine ⟨⟨hl, fun n => ?_⟩, fun s => ⟨fun n => forService_some s n h, forService_all s h⟩, ⟨hsize, ?_, ?_⟩,
    fun x limit => ⟨x.logHistory_all limit, fun s => x.logHistory_named s limit⟩⟩
  · rw [snapshot_some, hl, rtake_rtake]
  · rw [hsize]
    exact Nat.min_le_right _ _
  · exact capacity_run

/-- The room is used up by the fourth line, and a limit counts from the end. -/
example (l : String → Line) : ((run (["a", "b", "c", "d"].map fun s => .push (l s)) (empty 3)).snapshot (some 2)) =
    [l "c", l "d"] := rfl

end StackDeck.Log.History
