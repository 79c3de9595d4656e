import StackDeck.Proofs.Lifecycle.Run

/-!
One waiting call in a run. Calls that end make the later ones move up, so the place of a call changes while it
waits. A call to boot that is never accepted leaves no trace: the other moves alone lead to the same stack.
-/

namespace StackDeck.Lifecycle

variable {β : Type}

/-- The place of an entry once the entry at `j` is taken out. -/
def closeUp (j k : Nat) : Nat := if j < k then k - 1 else k

section closeUp

variable {α : Type} {j k : Nat}

theorem getElem?_closeUp (xs : List α) (h : j ≠ k) : (xs.eraseIdx j)[closeUp j k]? = xs[k]? := by
  rw [List.getElem?_eraseIdx, closeUp]
  by_cases hlt : j < k
  · rw [if_pos hlt, if_neg (by omega)]
    congr 1
    omega
  · rw [if_neg hlt, if_pos (by omega)]

theorem eraseIdx_eraseIdx_of_lt (xs : List α) (h : j < k) :
    (xs.eraseIdx j).eraseIdx (k - 1) = (xs.eraseIdx k).eraseIdx j := by
  refine List.ext_getElem? fun i => ?_
  simp only [List.getElem?_eraseIdx]
  rcases Nat.lt_or_ge i j with hi | hi
  · simp [hi, show i < k - 1 by omega, show i < k by omega]
  · by_cases hk : i < k - 1
    · simp [show ¬ i < j by omega, hk, show i + 1 < k by omega]
    · simp [show ¬ i < j by omega, show ¬ i + 1 < j by omega, hk, show ¬ i + 1 < k by omega]

theorem eraseIdx_closeUp (xs : List α) (h : j ≠ k) :
    (xs.eraseIdx j).eraseIdx (closeUp j k) = (xs.eraseIdx k).eraseIdx (closeUp k j) := by
  simp only [closeUp]
  rcases Nat.lt_or_gt_of_ne h with hlt | hlt
  · rw [if_pos hlt, if_neg (by omega), eraseIdx_eraseIdx_of_lt xs hlt]
  · rw [if_neg (by omega), if_pos hlt, eraseIdx_eraseIdx_of_lt xs hlt]

theorem eraseIdx_set_closeUp (xs : List α) (a : α) (h : j ≠ k) :
    (xs.set j a).eraseIdx k = (xs.eraseIdx k).set (closeUp k j) a := by
  rw [closeUp]
  by_cases hlt : k < j
  · rw [if_pos hlt, List.eraseIdx_set_lt hlt]
  · rw [if_neg hlt, List.eraseIdx_set_gt (by omega)]

end closeUp

namespace Scene

/-- What a caller is told by a move. A call that waits on is told nothing yet. -/
def reply? (s : Scene β) : Move β → Option (Except Fault Unit)
  | .arrive r =>
    match s.machine.arrive r with
    | .ok _ => none
    | .error e => some (.error e)
  | .attend k => s.visits[k]?.bind fun v =>
    match (s.machine.attend v).1 with
    | .waiting _ => none
    | .answered r => some r
  | .down => some s.machine.down.1
  | .restart => some s.machine.restart.1
  | .cancel => some s.machine.cancel.1
  | _ => none

/-- The place of the waiting call that a move takes out. -/
def ends? (s : Scene β) : Move β → Option Nat
  | .attend k => (s.reply? (.attend k)).map fun _ => k
  | .leave k => some k
  | _ => none

/-- The place of the call at `k` after a move, if it waits on. -/
def follow (k : Nat) (s : Scene β) (mv : Move β) : Option Nat :=
  match s.ends? mv with
  | none => some k
  | some j => if j = k then none else some (closeUp j k)

def track (k : Nat) (s : Scene β) : List (Move β) → Option Nat
  | [] => some k
  | mv :: r => (s.follow k mv).bind fun k => (s.move mv).track k r

/-- What the waiting call at `k` is told in the end. -/
def outcome? (k : Nat) (s : Scene β) : List (Move β) → Option (Except Fault Unit)
  | [] => none
  | mv :: r =>
    match s.follow k mv with
    | some k => (s.move mv).outcome? k r
    | none => s.reply? mv

end Scene

/-- A move as it is without the call at `k`, whose own moves are left out. -/
def Move.without (k : Nat) : Move β → List (Move β)
  | .attend j => if j = k then [] else [.attend (closeUp k j)]
  | .leave j => if j = k then [] else [.leave (closeUp k j)]
  | mv => [mv]

namespace Scene

/-- A list of moves as it is without the call at `k`. -/
def others (k : Nat) (s : Scene β) : List (Move β) → List (Move β)
  | [] => []
  | mv :: r =>
    match s.follow k mv with
    | some k' => mv.without k ++ (s.move mv).others k' r
    | none => r

/-- The scene without a call that may still wait. -/
def forget (k : Option Nat) (s : Scene β) : Scene β :=
  match k with
  | some k => s.move (.leave k)
  | none => s

variable {s : Scene β} {k k' : Nat} {v : Visit β} {mv : Move β}

theorem become_same (s : Scene β) : s.become [] s.machine = s := by
  simp [become, signals]

/-! ### One move -/

theorem attend_none (h : s.visits[k]? = none) : s.attend k = s := by
  simp [attend, h]

theorem attend_waiting (h : s.visits[k]? = some v) {u : Visit β} (ha : (s.machine.attend v).1 = .waiting u) :
    s.attend k = { s with visits := s.visits.set k u }.become [] (s.machine.attend v).2 := by
  simp only [attend, h]
  split
  next he => rw [he] at ha ⊢; cases ha; rfl
  next he => rw [he] at ha; cases ha

theorem attend_answered (h : s.visits[k]? = some v) {r : Except Fault Unit}
    (ha : (s.machine.attend v).1 = .answered r) :
    s.attend k = { s with visits := s.visits.eraseIdx k }.become (v.accepted r) (s.machine.attend v).2 := by
  simp only [attend, h]
  split
  next he => rw [he] at ha; cases ha
  next he => rw [he] at ha ⊢; cases ha; rfl

theorem reply?_attend (h : s.visits[k]? = some v) : s.reply? (.attend k) =
    match (s.machine.attend v).1 with
    | .waiting _ => none
    | .answered r => some r := by
  simp [reply?, h]

theorem follow_of_ne (h : s.visits[k]? = some v) (hne : mv ≠ .attend k) (hf : s.follow k mv = some k') :
    (s.move mv).visits[k']? = some v ∧ (s.move (.leave k)).run (mv.without k) = (s.move mv).move (.leave k') := by
  have hlt : k < s.visits.length := (List.getElem?_eq_some_iff.mp h).1
  cases mv with
  | attend j =>
    have hj : j ≠ k := fun he => hne (he ▸ rfl)
    -- Without the call at `k` the same call is found at its new place.
    have at_j : (s.move (.leave k)).visits[closeUp k j]? = s.visits[j]? := getElem?_closeUp _ hj.symm
    simp only [Move.without, if_neg hj, run, List.foldl_cons, List.foldl_nil]
    cases hu : s.visits[j]? with
    | none =>
      have hk : k' = k := by simpa [follow, ends?, reply?, hu] using hf.symm
      subst hk
      simp only [move, attend_none hu, h, true_and]
      exact attend_none (at_j.trans hu)
    | some u =>
      cases ha : (s.machine.attend u).1 with
      | waiting u' =>
        have hk : k' = k := by simpa [follow, ends?, reply?_attend hu, ha] using hf.symm
        subst hk
        simp only [move, attend_waiting hu ha]
        refine ⟨by simpa [become, List.getElem?_set, hj] using h, ?_⟩
        refine (attend_waiting (at_j.trans hu) ha).trans ?_
        simp only [become, move, eraseIdx_set_closeUp _ _ hj]
      | answered r =>
        have hk : k' = closeUp j k := by simpa [follow, ends?, reply?_attend hu, ha, hj] using hf.symm
        subst hk
        simp only [move, attend_answered hu ha]
        refine ⟨(getElem?_closeUp _ hj).trans h, ?_⟩
        refine (attend_answered (at_j.trans hu) ha).trans ?_
        simp only [become, move, eraseIdx_closeUp _ hj]
  | leave j =>
    by_cases hj : j = k
    · simp [follow, ends?, hj] at hf
    · have hk : k' = closeUp j k := by simpa [follow, ends?, hj] using hf.symm
      subst hk
      refine ⟨(getElem?_closeUp _ hj).trans h, ?_⟩
      simp only [Move.without, if_neg hj, run, List.foldl_cons, List.foldl_nil, move, eraseIdx_closeUp _ hj]
  | arrive r =>
    have hk : k' = k := by simpa [follow, ends?] using hf.symm
    subst hk
    simp only [Move.without, run, List.foldl_cons, List.foldl_nil, move]
    cases s.machine.arrive r with
    | error e => exact ⟨h, rfl⟩
    | ok u =>
      refine ⟨by rw [List.getElem?_append_left hlt, h], ?_⟩
      simp only [List.eraseIdx_append_of_lt_length hlt]
  | down | restart | cancel | poll id | pass ms | touch f =>
    have hk : k' = k := by simpa [follow, ends?] using hf.symm
    subst hk
    exact ⟨h, rfl⟩

/-- A call to boot that waits. -/
def Boots (k : Nat) (s : Scene β) : Prop := s.visits[k]? = some .asking ∨ ∃ n, s.visits[k]? = some (.counted n)

/-- The query of a call that asks is answered by the number of services that run. -/
theorem attend_asking (h : s.visits[k]? = some .asking) : s.follow k (.attend k) = some k ∧
    (s.attend k).visits[k]? = some (.counted s.machine.runningCount) ∧
    (s.attend k).move (.leave k) = s.move (.leave k) := by
  have hlt : k < s.visits.length := (List.getElem?_eq_some_iff.mp h).1
  refine ⟨by simp [follow, ends?, reply?_attend h, Machine.attend], ?_⟩
  rw [attend_waiting h (u := .counted s.machine.runningCount) rfl]
  refine ⟨by simp [become, hlt], ?_⟩
  simp [move, become, Machine.attend, List.eraseIdx_set_eq, signals]

theorem attend_counted {n : Nat} (h : s.visits[k]? = some (.counted n)) :
    s.reply? (.attend k) = some (s.machine.beginBoot n).1 ∧ s.follow k (.attend k) = none ∧
    (s.attend k) = (s.move (.leave k)).become (accepted .up (s.machine.beginBoot n).1)
      (s.machine.beginBoot n).2 := by
  have hr : s.reply? (.attend k) = some (s.machine.beginBoot n).1 := by simp [reply?_attend h, Machine.attend]
  refine ⟨hr, by simp [follow, ends?, hr], ?_⟩
  rw [attend_answered h (r := (s.machine.beginBoot n).1) rfl]
  rfl

/-- While a call to boot waits on, a move is the move without it. -/
theorem Boots.follow (h : s.Boots k) (hf : s.follow k mv = some k') : (s.move mv).Boots k' ∧
    (s.move (.leave k)).run (mv.without k) = (s.move mv).move (.leave k') := by
  by_cases hm : mv = .attend k
  · subst hm
    rcases h with ha | ⟨n, hc⟩
    · obtain ⟨hk, hv, he⟩ := attend_asking ha
      cases hk.symm.trans hf
      refine ⟨.inr ⟨_, hv⟩, ?_⟩
      simp only [Move.without, if_true, run, List.foldl_nil]
      exact he.symm
    · rw [(attend_counted hc).2.1] at hf
      cases hf
  · rcases h with ha | ⟨n, hc⟩
    · exact ⟨.inl (follow_of_ne ha hm hf).1, (follow_of_ne ha hm hf).2⟩
    · exact ⟨.inr ⟨n, (follow_of_ne hc hm hf).1⟩, (follow_of_ne hc hm hf).2⟩

theorem ends?_of_follow (hf : s.follow k mv = none) : s.ends? mv = some k := by
  unfold Scene.follow at hf
  cases he : s.ends? mv with
  | none => simp [he] at hf
  | some j =>
    by_cases hj : j = k
    · rw [hj]
    · simp [he, hj] at hf

theorem eq_of_ends? (he : s.ends? mv = some k) : mv = .leave k ∨ mv = .attend k := by
  cases mv with
  | attend j =>
    obtain ⟨_, _, rfl⟩ := Option.map_eq_some_iff.mp he
    exact .inr rfl
  | leave j =>
    cases he
    exact .inl rfl
  | arrive r | down | restart | cancel | poll id | pass ms | touch f => cases he

theorem Boots.ends (h : s.Boots k) (hf : s.follow k mv = none) : mv = .leave k ∨
    mv = .attend k ∧ ∃ n, s.visits[k]? = some (.counted n) := by
  rcases eq_of_ends? (ends?_of_follow hf) with rfl | rfl
  · exact .inl rfl
  · rcases h with ha | hc
    · rw [(attend_asking ha).1] at hf
      cases hf
    · exact .inr ⟨rfl, hc⟩

/-! ### Runs -/

variable {moves : List (Move β)} {j n : Nat} {r : Except Fault Unit}

theorem track_cons (hf : s.follow k mv = some k') : s.track k (mv :: moves) = (s.move mv).track k' moves := by
  rw [track, hf]
  rfl

theorem track_cons_none (hf : s.follow k mv = none) : s.track k (mv :: moves) = none := by
  rw [track, hf]
  rfl

theorem counted_track (h : s.visits[k]? = some (.counted n)) (ht : s.track k moves = some j) :
    (s.run moves).visits[j]? = some (.counted n) := by
  induction moves generalizing s k with
  | nil =>
    cases ht
    exact h
  | cons mv r ih =>
    cases hf : s.follow k mv with
    | none =>
      rw [track_cons_none hf] at ht
      cases ht
    | some k' =>
      rw [track_cons hf] at ht
      have hm : mv ≠ .attend k := by
        rintro rfl
        rw [(attend_counted h).2.1] at hf
        cases hf
      exact ih (follow_of_ne h hm hf).1 ht

/-- A waiting call to boot asks for the services after these moves, among all the moves. -/
def Asks (k : Nat) (s : Scene β) (asked moves : List (Move β)) : Prop :=
  ∃ j, s.track k asked = some j ∧ (s.run asked).visits[j]? = some .asking ∧ asked ++ [.attend j] <+: moves

theorem Asks.cons {asked : List (Move β)} (hf : s.follow k mv = some k') (h : (s.move mv).Asks k' asked moves) :
    s.Asks k (mv :: asked) (mv :: moves) := by
  obtain ⟨j, ht, hv, hp⟩ := h
  exact ⟨j, (track_cons hf).trans ht, hv, List.cons_prefix_cons.mpr ⟨rfl, hp⟩⟩

/-- A call that waits on has yet to ask, or it knows how many services ran when it asked. -/
theorem asking_track (h : s.visits[k]? = some .asking) (ht : s.track k moves = some j) :
    (s.run moves).visits[j]? = some .asking ∨ ∃ asked, s.Asks k asked moves ∧
      (s.run moves).visits[j]? = some (.counted (s.run asked).machine.runningCount) := by
  induction moves generalizing s k with
  | nil =>
    cases ht
    exact .inl h
  | cons mv r ih =>
    cases hf : s.follow k mv with
    | none =>
      rw [track_cons_none hf] at ht
      cases ht
    | some k' =>
      rw [track_cons hf] at ht
      by_cases hm : mv = .attend k
      · subst hm
        obtain ⟨hk, hv, _⟩ := attend_asking h
        cases hk.symm.trans hf
        have hp : [Move.attend k] <+: .attend k :: r := List.cons_prefix_cons.mpr ⟨rfl, List.nil_prefix⟩
        exact .inr ⟨[], ⟨k, rfl, h, hp⟩, counted_track (s := s.attend k) hv ht⟩
      · rcases ih (follow_of_ne h hm hf).1 ht with ha | ⟨asked, hp, hc⟩
        · exact .inl ha
        · exact .inr ⟨mv :: asked, hp.cons hf, hc⟩

/-- A call is told in the end what it is told by the move that answers it. -/
theorem outcome?_eq_some (ho : s.outcome? k moves = some r) : ∃ before j after,
    moves = before ++ .attend j :: after ∧ s.track k before = some j ∧
      (s.run before).reply? (.attend j) = some r ∧ s.track k moves = none := by
  induction moves generalizing s k with
  | nil => cases ho
  | cons mv rest ih =>
    rw [outcome?] at ho
    cases hf : s.follow k mv with
    | none =>
      rw [hf] at ho
      rcases eq_of_ends? (ends?_of_follow hf) with rfl | rfl
      · cases ho
      · exact ⟨[], k, rest, rfl, rfl, ho, track_cons_none hf⟩
    | some k' =>
      rw [hf] at ho
      obtain ⟨before, j, after, rfl, ht, hr, hn⟩ := ih ho
      exact ⟨mv :: before, j, after, rfl, (track_cons hf).trans ht, hr, (track_cons hf).trans hn⟩

/-- The waiting call at `k` is told its result by the move that follows these, among all the moves. -/
def Hears (k : Nat) (s : Scene β) (answered moves : List (Move β)) : Prop :=
  ∃ j, s.track k answered = some j ∧ answered ++ [.attend j] <+: moves

/-- A call to boot is answered by what the stack does at that moment and by the number of services that ran when
it asked. -/
theorem asking_outcome (h : s.visits[k]? = some .asking) (ho : s.outcome? k moves = some r) :
    ∃ asked answered, s.Asks k asked answered ∧ s.Hears k answered moves ∧
      r = ((s.run answered).machine.beginBoot (s.run asked).machine.runningCount).1 := by
  obtain ⟨before, j, after, rfl, ht, hr, _⟩ := outcome?_eq_some ho
  rcases asking_track h ht with ha | ⟨asked, hp, hc⟩
  · rw [reply?_attend ha] at hr
    cases hr
  · rw [(attend_counted hc).1] at hr
    refine ⟨asked, before, hp, ⟨j, ht, ?_⟩, (Option.some.inj hr).symm⟩
    exact ⟨after, by simp⟩

end Scene

end StackDeck.Lifecycle
