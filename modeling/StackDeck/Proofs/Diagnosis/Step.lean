import StackDeck.Proofs.Diagnosis.Lock

namespace StackDeck.Diagnosis

theorem Outcome.isFinal_news (o : Outcome) : o.news.isFinal = true := by
  cases o <;> rfl

theorem grow_nil (B : Nat → List TurnNews) (id : Nat) : grow B id [] = B := by
  funext k
  simp [grow]

theorem grow_grow (B : Nat → List TurnNews) (id : Nat) (ns ms : List TurnNews) :
    grow (grow B id ns) id ms = grow B id (ns ++ ms) := by
  funext k
  by_cases h : k = id <;> simp [grow, h]

namespace Manager

variable {m : Manager} {s : Session} {t : Turn} {B : Nat → List TurnNews} {cs : List Chunk}

/-! ### The turn that has the lock -/

theorem Held.unlock (h : m.Held B s t) (ht : TurnPlace.over.Tells (B t.id)) (hb : B t.id = [] → s.closed = true)
    {v : Session} (hid : v.id = s.id) (hw : v.waiters = s.waiters) :
    ((m.place t.id .over).unlock v).Sound B none := by
  unfold Manager.unlock
  rw [hw, hid]
  cases hs : s.waiters with
  | nil => exact h.finish_free ht hb hs
  | cons w r => exact h.finish_next ht hb hs

/-- The session is still known, and the same turns wait for its lock. -/
theorem Held.current (h : m.Held B s t) :
    ((m.session? s.id).getD s).id = s.id ∧ ((m.session? s.id).getD s).waiters = s.waiters := by
  obtain ⟨s', hs', hid, hw, -⟩ := h.line
  have hf : m.session? s'.id = some s' := find?_key h.sound.named.nodup_sessions hs'
  rw [hid] at hf
  rw [hf]
  exact ⟨hid, hw⟩

theorem Held.conclude (h : m.Held B s t) (hb : B t.id = .started :: cs.map .chunk) (hn : NumberedFrom 0 cs)
    (result : Except TurnError String) : ∃ B', (m.conclude s t result).Sound B' none := by
  have hc := modifySession_calm s.id (f := Session.endTurn) (fun _ => ⟨rfl, rfl, rfl, fun h => h⟩) m
  have hf := Outcome.isFinal_news (Outcome.ofResult result ((m.session? s.id).any Session.interrupted))
  have hh := (h.calm hc).tell (Outcome.ofResult result ((m.session? s.id).any Session.interrupted)).news
  refine ⟨_, hh.unlock (.inr ⟨cs, _, ?_, hn, hf⟩) ?_ hh.current.1 hh.current.2⟩
  · rw [grow_self, hb]
  · intro he
    simp [grow_self] at he

theorem Held.tellAll (h : m.Held B s t) (cs : List Chunk) :
    (cs.foldl (fun m c => m.publish (.turn (names s t) (.chunk c))) m).Held (grow B t.id (cs.map .chunk)) s t := by
  induction cs generalizing m B with
  | nil =>
    rw [List.map_nil, grow_nil]
    exact h
  | cons c r ih =>
    have hr := ih (h.tell (.chunk c))
    rw [grow_grow] at hr
    exact hr

theorem Held.play {n : Normalizer} (h : m.Held B s t) (hb : B t.id = .started :: cs.map .chunk)
    (hn : NumberedFrom 0 cs) (hseq : n.seq = cs.length) (ending : Except TurnError Unit) (steps : List TurnStep) :
    ∃ B', (m.play s t ending n steps).Sound B' none := by
  -- The block grows with the script; the normaliser has numbered as many chunks as were told.
  induction steps generalizing m B n cs with
  | nil => exact h.conclude hb hn _
  | cons step r ih =>
    cases step with
    | event e =>
      have hnum := n.apply_numbers e
      have happ : NumberedFrom 0 (cs ++ (n.apply e).2) := by
        refine hn.append ?_
        rw [Nat.zero_add, ← hseq]
        exact hnum.chunks
      refine ih (n := (n.apply e).1) (h.tellAll (n.apply e).2) ?_ happ ?_
      · rw [grow_self, hb, List.map_append]
        rfl
      · rw [hnum.seq, hseq, List.length_append]
    | pause ms =>
      by_cases hz : ms = 0
      · simp only [Manager.play, hz, if_true]
        exact ih h hb hn hseq
      · simp only [Manager.play, hz, if_false]
        have hst := h.stay (p := .sleeping (m.now + ms) n ⟨r, ending⟩) rfl ⟨cs, hb, hn, hseq⟩
        exact ⟨B, hst.calm (.of_same rfl rfl rfl rfl rfl rfl)⟩
    | untilInterrupted =>
      by_cases hc : t.cut = true
      · simp only [Manager.play, hc, if_true]
        exact ih h hb hn hseq
      · simp only [Manager.play, hc]
        exact ⟨B, h.stay (p := .listening n ⟨r, ending⟩) rfl ⟨cs, hb, hn, hseq⟩⟩

theorem Held.prompt (h : m.Held B s t) (hb : B t.id = [.started]) (hna : t.id ∉ m.asked) :
    ∃ B', (m.prompt s t).Sound B' none := by
  have hc := h.calm (modifySession_calm s.id (f := fun s => { s with current := some t.id })
    (fun _ => ⟨rfl, rfl, rfl, fun h => h⟩) m)
  have hb' : B t.id = .started :: ([] : List Chunk).map .chunk := hb
  unfold Manager.prompt
  dsimp only
  split
  · exact hc.conclude hb' rfl _
  next e _ =>
    have he : (setEngine s.engine (e.hear t.prompt).2 (m.modifySession s.id fun s =>
        { s with current := some t.id })).Held B s t := hc.calm (.of_same rfl rfl rfl rfl rfl rfl)
    exact (he.ask hna (by simp [hb])).play hb' rfl rfl _ _

theorem Held.begin (h : m.Held B s t) (hb : B t.id = []) : ∃ B', (m.begin s t).Sound B' none := by
  have hna : t.id ∉ m.asked := fun hm => (h.sound.asked t.id hm).2 hb
  unfold Manager.begin
  by_cases hcl : s.closed = true
  · simp only [hcl, if_true]
    have hc := modifySession_calm s.id (f := Session.endTurn) (fun _ => ⟨rfl, rfl, rfl, fun h => h⟩) m
    exact ⟨B, (h.calm hc).unlock (.inl hb) (fun _ => hcl) rfl rfl⟩
  · simp only [hcl]
    have hc := modifySession_calm s.id (f := fun s => { s with turns := s.turns + 1 })
      (fun _ => ⟨rfl, rfl, rfl, fun h => h⟩) m
    have hh := (h.calm hc).tell .started
    have hg : grow B t.id [.started] t.id = .started :: ([] : List Chunk).map .chunk := by
      rw [grow_self, hb, List.nil_append]
      rfl
    by_cases hi : s.interrupted = true
    · simp only [hi, if_true]
      exact hh.conclude hg rfl _
    · simp only [hi]
      exact hh.prompt hg hna

/-! ### The turn that is ready -/

theorem Named.turn?_of_mem (h : m.Named) (ht : t ∈ m.turns) : m.turn? t.id = some t := find?_key h.nodup ht

theorem Sound.step (h : m.Sound B none) {id : Nat} {r : List Nat} (hr : m.ready = id :: r) :
    ∃ B', (({ m with ready := r } : Manager).step id).Sound B' none := by
  have idle (hno : ∀ u ∈ m.turns, u.id = id → u.place ≠ .launched) : ({ m with ready := r } : Manager).Sound B none :=
    h.pop hr fun u hu he hp => absurd hp (hno u hu he)
  cases hf : m.turn? id with
  | none =>
    have he : ({ m with ready := r } : Manager).step id = { m with ready := r } := by
      have hf' : ({ m with ready := r } : Manager).turn? id = none := hf
      simp [Manager.step, hf']
    rw [he]
    refine ⟨B, idle fun u hu he => ?_⟩
    rw [← he, h.named.turn?_of_mem hu] at hf
    cases hf
  | some t =>
    obtain ⟨ht, rfl⟩ := mem_of_find?_key hf
    obtain ⟨s, hs, hst⟩ := h.named.known t ht
    have hf' : ({ m with ready := r } : Manager).turn? t.id = some t := hf
    have hsf : ({ m with ready := r } : Manager).session? t.session = some s := by
      rw [← hst]
      exact find?_key h.named.nodup_sessions hs
    have only {p : TurnPlace} (hp : t.place = p) (hpl : p ≠ .launched) :
        ∀ u ∈ m.turns, u.id = t.id → u.place ≠ .launched := by
      intro u hu he
      rw [h.named.eq_of_id hu ht he, hp]
      exact hpl
    have htells := h.tells t ht nofun
    simp only [Manager.step, hf', hsf]
    cases hp : t.place with
    | launched =>
      rw [hp] at htells
      cases hh : s.holder with
      | none => exact (h.take ht hp hr hs hst hh).begin htells
      | some k => exact ⟨B, h.wait ht hp hr hs hst (by simp [hh])⟩
    | granted =>
      rw [hp] at htells
      exact (h.held ht (by rw [hp]; rfl) hr hs hst).begin htells
    | sleeping due n rest =>
      rw [hp] at htells
      obtain ⟨cs, hb, hn, hseq⟩ := htells
      dsimp only
      split
      · exact (h.held ht (by rw [hp]; rfl) hr hs hst).play hb hn hseq _ _
      · exact ⟨B, idle (only hp (by simp))⟩
    | listening n rest =>
      rw [hp] at htells
      obtain ⟨cs, hb, hn, hseq⟩ := htells
      dsimp only
      split
      · exact (h.held ht (by rw [hp]; rfl) hr hs hst).play hb hn hseq _ _
      · exact ⟨B, idle (only hp (by simp))⟩
    | waiting => exact ⟨B, idle (only hp (by simp))⟩
    | _ => exact ⟨B, idle (only hp (by simp))⟩

theorem Sound.poll (h : m.Sound B none) : ∃ B', m.poll.Sound B' none := by
  unfold Manager.poll
  cases hr : m.ready with
  | nil => exact ⟨B, h⟩
  | cons id r => exact h.step hr

end Manager

end StackDeck.Diagnosis
