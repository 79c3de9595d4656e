import Mathlib.Data.List.DropRight
import StackDeck.Proofs.Health.Watch

/-!
What the reader of the snapshots finds. A snapshot that waits for the reader keeps its place, so a reader that falls behind finds
the first one since it looked last, and misses those that came after it.
-/

namespace StackDeck.Health

/-- The snapshots that cycles left, in the order in which they ended. -/
def left (es : List Entry) : List Snapshot := es.filterMap Entry.snapshot?

/-- The snapshots since the reader looked last. -/
def unseen (es : List Entry) : List Snapshot := left (es.rtakeWhile fun e => e.snapshot?.isSome)

/-- The snapshots that the reader found. -/
def found (es : List Entry) : List Snapshot := es.filterMap Entry.found?

variable {es : List Entry}

theorem left_applied (es : List Entry) (r : Report) (s : Snapshot) : left (es ++ [.applied r s]) = left es ++ [s] := by
  rw [left, List.filterMap_append]
  rfl

theorem left_looked (es : List Entry) (s : Option Snapshot) : left (es ++ [.looked s]) = left es := by
  rw [left, List.filterMap_append]
  exact List.append_nil _

theorem unseen_applied (es : List Entry) (r : Report) (s : Snapshot) : unseen (es ++ [.applied r s]) = unseen es ++ [s] := by
  rw [unseen, List.rtakeWhile_concat_pos _ _ _ rfl, left_applied]
  rfl

theorem unseen_looked (es : List Entry) (s : Option Snapshot) : unseen (es ++ [.looked s]) = [] := by
  rw [unseen, List.rtakeWhile_concat_neg _ _ _ Bool.false_ne_true]
  rfl

theorem found_applied (es : List Entry) (r : Report) (s : Snapshot) : found (es ++ [.applied r s]) = found es := by
  rw [found, List.filterMap_append]
  exact List.append_nil _

theorem found_looked (es : List Entry) (s : Option Snapshot) : found (es ++ [.looked s]) = found es ++ s.toList := by
  rw [found, List.filterMap_append]
  cases s <;> rfl

/-- What the reader has not seen yet is the newest. -/
theorem unseen_suffix (es : List Entry) : unseen es <:+ left es := by
  obtain ⟨before, hsplit⟩ := List.rtakeWhile_suffix (fun e : Entry => e.snapshot?.isSome) es
  refine ⟨left before, ?_⟩
  rw [unseen, left, left, ← List.filterMap_append, hsplit]
  rfl

/-- One that looks between any two cycles finds the newest. -/
theorem head?_unseen (h : (unseen es).length = 1) : (unseen es).head? = (left es).getLast? := by
  obtain ⟨s, hs⟩ := List.length_eq_one_iff.mp h
  obtain ⟨before, hbefore⟩ := unseen_suffix es
  rw [← hbefore, hs, List.getLast?_concat, List.head?_singleton]

/-- In every look so far the reader found the first snapshot since the look before. -/
def Behind (es : List Entry) : Prop :=
  ∀ before s after, es = before ++ .looked s :: after → s = (unseen before).head?

theorem Behind.applied (h : Behind es) (r : Report) (s : Snapshot) : Behind (es ++ [.applied r s]) := by
  intro before s' after hes
  cases after using List.reverseRecOn with
  | nil => exact nomatch (List.append_inj' hes rfl).2
  | append_singleton after e =>
    rw [← List.cons_append, ← List.append_assoc] at hes
    exact h before s' after (List.append_inj' hes rfl).1

theorem Behind.looked (h : Behind es) : Behind (es ++ [.looked (unseen es).head?]) := by
  intro before s after hes
  cases after using List.reverseRecOn with
  | nil =>
    obtain ⟨rfl, he⟩ := List.append_inj' hes rfl
    cases he
    rfl
  | append_singleton after e =>
    rw [← List.cons_append, ← List.append_assoc] at hes
    exact h before s after (List.append_inj' hes rfl).1

namespace Watch

variable {w w' : Watch}

/-- What the reader finds, and has found. -/
structure Serves (w : Watch) : Prop where
  published : w.monitor.published = (unseen w.journal).head?
  latest : w.monitor.latest = (left w.journal).getLast?.getD {}
  behind : Behind w.journal
  inOrder : (found w.journal ++ w.monitor.published.toList).Sublist (left w.journal)

theorem serves_start (interval probeTimeout : Nat) : (start interval probeTimeout).Serves :=
  ⟨rfl, rfl, fun _ _ _ h => (List.append_ne_nil_of_right_ne_nil _ (List.cons_ne_nil _ _) h.symm).elim, List.Sublist.refl _⟩

theorem Serves.same (h : w.Serves) (hmonitor : w'.monitor = w.monitor) (hjournal : w'.journal = w.journal) : w'.Serves := by
  obtain ⟨hpublished, hlatest, hbehind, horder⟩ := h
  rw [← hmonitor, ← hjournal] at hpublished hlatest horder
  exact ⟨hpublished, hlatest, hjournal ▸ hbehind, horder⟩

/-- A cycle leaves its snapshot, and publishes it unless one waits. -/
theorem Serves.ends (h : w.Serves) {k : Nat} {c : Cycle} (hc : w.ready? k = some c) (now : Instant) :
    (w.move (.ends k now)).Serves := by
  obtain ⟨s, hpublished, hlatest, hjournal⟩ : ∃ s,
      (w.move (.ends k now)).monitor.published = some (w.monitor.published.getD s) ∧
      (w.move (.ends k now)).monitor.latest = s ∧
      (w.move (.ends k now)).journal = w.journal ++ [.applied ⟨k, now, c.checks⟩ s] := by
    rw [move_ends hc]
    exact ⟨_, rfl, rfl, rfl⟩
  refine ⟨?_, ?_, hjournal ▸ h.behind.applied _ s, ?_⟩
  · rw [hpublished, hjournal, unseen_applied, h.published]
    cases unseen w.journal <;> rfl
  · rw [hlatest, hjournal, left_applied, List.getLast?_concat, Option.getD_some]
  · rw [hpublished, hjournal, found_applied, left_applied]
    cases hp : w.monitor.published with
    | none =>
      have horder := h.inOrder
      rw [hp, Option.toList_none, List.append_nil] at horder
      exact horder.append (List.Sublist.refl [s])
    | some waiting =>
      have horder := h.inOrder
      rw [hp] at horder
      exact horder.trans (List.sublist_append_left _ _)

/-- The reader takes what waits for it. -/
theorem Serves.looks (h : w.Serves) : (w.move .looks).Serves := by
  have hjournal : (w.move .looks).journal = w.journal ++ [.looked w.monitor.published] := rfl
  refine ⟨?_, ?_, ?_, ?_⟩
  · rw [hjournal, unseen_looked]
    rfl
  · rw [hjournal, left_looked]
    exact h.latest
  · rw [hjournal, h.published]
    exact h.behind.looked
  · rw [hjournal, found_looked, left_looked]
    exact (List.append_nil _).symm ▸ h.inOrder

theorem Serves.move (h : w.Serves) (mv : Move) : (w.move mv).Serves := by
  cases mv with
  | begins services => cases services <;> exact h.same rfl rfl
  | hears k i n => exact h.same rfl rfl
  | drops k => exact h.same rfl rfl
  | looks => exact h.looks
  | ends k now =>
    cases hc : w.ready? k with
    | none => exact h.same (by rw [move_ends_none hc]) (by rw [move_ends_none hc])
    | some c => exact h.ends hc now

end Watch

/-- The reader finds the oldest snapshot since its last look, whatever cycles and looks there were: what it misses is newer than
what it finds. It finds the newest when only one cycle ended since, it finds every snapshot at most once and in their order, and
the next look goes the way of all before. -/
theorem reader_finds_oldest_unseen (interval probeTimeout : Nat) (ms : List Watch.Move) :
    let w := (Watch.start interval probeTimeout).run ms
    (∀ before s after, w.journal = before ++ .looked s :: after →
      s = (unseen before).head? ∧ unseen before <:+ left before ∧
      ((unseen before).length = 1 → s = (left before).getLast?)) ∧
    (found w.journal).Sublist (left w.journal) ∧
    w.monitor.receive.1 = (unseen w.journal).head? ∧
    w.monitor.latest = (left w.journal).getLast?.getD {} := by
  intro w
  have h : w.Serves := Watch.run_keeps (fun _ mv h => h.move mv) (Watch.serves_start interval probeTimeout) ms
  refine ⟨fun before s after hsplit => ?_, (List.sublist_append_left _ _).trans h.inOrder, h.published, h.latest⟩
  obtain rfl := h.behind before s after hsplit
  exact ⟨rfl, unseen_suffix before, head?_unseen⟩

/-- A reader that comes after two cycles finds the first failure of a service, where the second is known. -/
theorem late_reader_finds_stale_snapshot : ¬ ∀ (interval probeTimeout : Nat) (ms : List Watch.Move) (s : Snapshot),
    ((Watch.start interval probeTimeout).run ms).monitor.receive.1 = some s →
      s = ((Watch.start interval probeTimeout).run ms).monitor.latest := by
  intro hall
  have hstale := hall 5000 2000 [.begins (.ok [⟨"db", true, "running", some 1, none⟩]), .hears 0 0 .unreachable,
    .ends 0 ⟨0, 0⟩, .begins (.ok [⟨"db", true, "running", some 1, none⟩]), .hears 1 0 .unreachable, .ends 1 ⟨5, 0⟩] _ rfl
  revert hstale
  decide +kernel

end StackDeck.Health
