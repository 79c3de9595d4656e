import Mathlib.Data.List.Induction
import StackDeck.Proofs.Diagnosis.Protocol

/-!
A turn that was given the lock is ready to go on. Therefore all turns of a session have ended when nothing is ready
and no engine is asked.
-/

namespace StackDeck.Diagnosis

namespace Manager

/-- Every turn that was given the lock is ready, except for the turn `cur` that goes on. -/
def Handed (cur : Option Nat) (m : Manager) : Prop :=
  ∀ t ∈ m.turns, t.place = .granted → cur = some t.id ∨ t.id ∈ m.ready

variable {m m' : Manager} {s : Session} {t : Turn} {B : Nat → List TurnNews} {cur : Option Nat}

theorem Handed.of_same (h : m.Handed cur) (ht : m'.turns = m.turns) (hr : m'.ready = m.ready) : m'.Handed cur := by
  intro t hm hp
  rw [hr]
  exact h t (ht ▸ hm) hp

/-- The turn that goes on comes to its next place. -/
theorem Handed.place {id : Nat} (h : m.Handed (some id)) {p : TurnPlace} (hp : p ≠ .granted) :
    (m.place id p).Handed none := by
  intro t ht htp
  obtain ⟨u, hu, rfl⟩ := List.mem_map.mp ht
  by_cases he : u.id = id
  · simp only [he, beq_self_eq_true, if_true] at htp
    exact absurd htp hp
  · simp only [beq_iff_eq, he, if_false] at htp ⊢
    exact .inr ((h u hu htp).resolve_left fun hid => he (Option.some.inj hid).symm)

theorem Handed.unlock (h : m.Handed none) (s : Session) : (m.unlock s).Handed none := by
  unfold Manager.unlock
  split
  · exact h.of_same rfl rfl
  next w r _ =>
    intro t ht htp
    obtain ⟨u, hu, rfl⟩ := List.mem_map.mp ht
    show none = _ ∨ _ ∈ m.ready ++ [w]
    by_cases he : u.id = w
    · exact .inr (by simp [he])
    · simp only [beq_iff_eq, he, if_false] at htp ⊢
      exact .inr (List.mem_append_left _ ((h u hu htp).resolve_left nofun))

theorem Handed.conclude (h : m.Handed (some t.id)) (s : Session) (result : Except TurnError String) :
    (m.conclude s t result).Handed none := by
  have hend : (m.modifySession s.id Session.endTurn).Handed (some t.id) := h.of_same rfl rfl
  unfold Manager.conclude
  refine Handed.unlock (Handed.place (p := .over) ?_ nofun) _
  exact hend.of_same rfl rfl

theorem Handed.play (h : m.Handed (some t.id)) (s : Session) (ending : Except TurnError Unit) (n : Normalizer)
    (steps : List TurnStep) : (m.play s t ending n steps).Handed none := by
  induction steps generalizing m n with
  | nil => exact h.conclude s _
  | cons step r ih =>
    cases step with
    | event e =>
      have told (cs : List Chunk) (m : Manager) (h : m.Handed (some t.id)) :
          (cs.foldl (fun m c => m.publish (.turn (names s t) (.chunk c))) m).Handed (some t.id) := by
        induction cs generalizing m with
        | nil => exact h
        | cons c r ih => exact ih _ (h.of_same rfl rfl)
      exact ih (told _ m h) (n.apply e).1
    | pause ms =>
      by_cases hz : ms = 0
      · simp only [Manager.play, hz, if_true]
        exact ih h n
      · simp only [Manager.play, hz, if_false]
        exact (h.place (p := .sleeping (m.now + ms) n ⟨r, ending⟩) (by simp)).of_same rfl rfl
    | untilInterrupted =>
      by_cases hc : t.cut = true
      · simp only [Manager.play, hc, if_true]
        exact ih h n
      · simp only [Manager.play, hc]
        exact h.place (by simp)

theorem Handed.prompt (h : m.Handed (some t.id)) (s : Session) : (m.prompt s t).Handed none := by
  unfold Manager.prompt
  dsimp only
  split
  · refine Handed.conclude ?_ s _
    exact h.of_same rfl rfl
  · refine Handed.play ?_ s _ _ _
    exact h.of_same rfl rfl

theorem Handed.begin (h : m.Handed (some t.id)) (s : Session) : (m.begin s t).Handed none := by
  unfold Manager.begin
  split
  · refine Handed.unlock (Handed.place (p := .over) ?_ nofun) s
    exact h.of_same rfl rfl
  · dsimp only
    split
    · refine Handed.conclude ?_ s _
      exact h.of_same rfl rfl
    · refine Handed.prompt ?_ s
      exact h.of_same rfl rfl

/-- A turn that was not given the lock is no exception. -/
theorem Handed.idle {id : Nat} (h : m.Handed (some id)) (hid : ∀ t ∈ m.turns, t.id = id → t.place ≠ .granted) :
    m.Handed none := by
  intro t ht hp
  refine .inr ((h t ht hp).resolve_left fun he => ?_)
  exact hid t ht (Option.some.inj he).symm hp

theorem Handed.step (hn : m.Named) {id : Nat} (h : m.Handed (some id)) : (m.step id).Handed none := by
  unfold Manager.step
  cases hf : m.turn? id with
  | none =>
    refine h.idle fun t ht he _ => ?_
    have := List.find?_eq_none.mp hf t ht
    simp [he] at this
  | some t =>
    obtain ⟨ht, rfl⟩ := mem_of_find?_key hf
    have unlike (hp : t.place ≠ .granted) : m.Handed none :=
      h.idle fun u hu hut => hn.eq_of_id hu ht hut ▸ hp
    obtain ⟨s, hs, hst⟩ := hn.known t ht
    have hsm : m.session? t.session = some s := hst ▸ find?_key hn.nodup_sessions hs
    dsimp only
    rw [hsm]
    dsimp only
    cases hp : t.place with
    | launched =>
      dsimp only
      split
      · refine Handed.begin ?_ s
        exact h.of_same rfl rfl
      · refine Handed.place ?_ nofun
        exact h.of_same rfl rfl
    | granted => exact h.begin s
    | sleeping due n rest =>
      dsimp only
      split
      · exact h.play s _ n rest.steps
      · exact unlike (by simp [hp])
    | listening n rest =>
      dsimp only
      split
      · exact h.play s _ n rest.steps
      · exact unlike (by simp [hp])
    | waiting => exact unlike (by simp [hp])
    | _ => exact unlike (by simp [hp])

theorem Handed.poll (h : m.Handed none) (hs : m.Sound B none) : m.poll.Handed none := by
  unfold Manager.poll
  cases hr : m.ready with
  | nil => exact h
  | cons id r =>
    have hn : ({ m with ready := r } : Manager).Named := ⟨hs.named.turns, hs.named.requests, hs.named.sessions,
      hs.named.requestCount, hs.named.sessionCount, hs.named.known⟩
    refine Handed.step hn fun t ht hp => ?_
    have hm := (h t ht hp).resolve_left nofun
    rw [hr] at hm
    exact (List.mem_cons.mp hm).imp (fun he => congrArg some he.symm) fun hm => hm

theorem Handed.calm (h : m.Handed none) (c : m.Calm m') : m'.Handed none := by
  obtain ⟨g, f, hc, hp, -⟩ := c.change
  obtain ⟨xs, hr, -⟩ := c.ready
  intro t ht htp
  obtain ⟨u, hu, rfl⟩ := hc.mem ht
  rw [hp] at htp
  rw [hr, hc.turn_id]
  exact (h u hu htp).imp (fun he => he) (List.mem_append_left xs)

theorem Handed.launch (h : m.Handed none) (s : Session) (prompt : String) : (m.launch s prompt).2.Handed none := by
  intro t ht htp
  rcases List.mem_append.mp ht with ht | ht
  · exact (h t ht htp).imp (fun he => he) (List.mem_append_left _)
  · rw [List.mem_singleton.mp ht] at htp
    cases htp

theorem Handed.message (h : m.Handed none) (id prompt : String) : (m.message id prompt).2.Handed none := by
  unfold Manager.message
  split
  · exact h
  · cases m.reach id with
    | error e => exact h
    | ok s => exact h.launch s prompt

theorem Handed.completeStart (h : m.Handed none) (st : Startup) : (m.completeStart st).2.Handed none := by
  unfold Manager.completeStart
  split
  · exact h
  · split
    · exact h
    · split
      · exact h.of_same rfl rfl
      · refine Handed.launch ?_ _ _
        exact h.of_same rfl rfl

end Manager

namespace Scene

variable {s : Scene} {B : Nat → List TurnNews}

end Scene

end StackDeck.Diagnosis
