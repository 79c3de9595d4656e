import StackDeck.Proofs.Diagnosis.Hold

/-!
How a turn that has become ready comes by the lock of its session, or gets in line for it.
-/

namespace StackDeck.Diagnosis.Manager

variable {m m' : Manager} {s : Session} {t : Turn} {B : Nat → List TurnNews} {olds acts waits fresh : List Turn}
  {r : List Nat}

/-- The turn that was ready for longest is taken out. If it was only launched it has to go on. -/
theorem Sound.pop (h : m.Sound B none) {id : Nat} (hr : m.ready = id :: r) {cur : Option Nat}
    (hcur : ∀ u ∈ m.turns, u.id = id → u.place = .launched → cur = some id) :
    ({ m with ready := r } : Manager).Sound B cur := by
  have hk := h.ready.known
  have hf := h.ready.fifo
  rw [hr] at hk hf
  refine ⟨h.named.of_same rfl rfl rfl, ?_, ⟨fun k hm => hk k (List.mem_cons_of_mem id hm), hf.tail, ?_⟩, h.told,
    fun u hu _ => h.tells u hu nofun, fun u hu _ => h.silent u hu nofun, h.once, h.asked⟩
  · intro v hv
    obtain ⟨olds, acts, waits, fresh, hl, ha⟩ := h.queued v hv
    exact ⟨olds, acts, waits, fresh, hl.of_same rfl, fun u hu => .inr ((ha u hu).resolve_left nofun)⟩
  · intro u hu hc hp
    have hm := h.ready.launched u hu nofun hp
    rw [hr] at hm
    rcases List.mem_cons.mp hm with he | hm
    · exact absurd (he ▸ hcur u hu he hp) hc
    · exact hm

theorem Named.ascending (h : m.Named) (sid : String) : (m.turnsOf sid).Pairwise fun t u => t.id < u.id := by
  have hp : (m.turns.map Turn.id).Pairwise (· < ·) := by
    rw [h.turns]
    exact List.pairwise_lt_range
  exact (List.pairwise_map.mp hp).sublist List.filter_sublist

/-- A turn that was launched and is ready for longest is the next one to get in line. -/
theorem Sound.first_fresh (h : m.Sound B none) (ht : t ∈ m.turns) (hp : t.place = .launched)
    (hr : m.ready = t.id :: r) (hl : m.Line s olds acts waits fresh) (ha : ∀ u ∈ acts, u.place.isActive = true)
    (hs : s.id = t.session) : ∃ rest, fresh = t :: rest := by
  have hasc := h.named.ascending s.id
  have hm : t ∈ m.turnsOf s.id := mem_turnsOf.mpr ⟨ht, hs.symm⟩
  rw [hl.turns] at hm hasc
  simp only [List.mem_append] at hm
  have hfresh : t ∈ fresh := by
    rcases hm with hm | hm | hm | hm
    · have := hl.ended t hm
      rw [hp] at this
      cases this
    · have := ha t hm
      rw [hp] at this
      cases this
    · have := hl.waiting t hm
      rw [hp] at this
      cases this
    · exact hm
  obtain ⟨before, rest, rfl⟩ := List.append_of_mem hfresh
  cases before with
  | nil => exact ⟨rest, rfl⟩
  | cons u us =>
    -- A turn in front of it would have become ready before.
    exfalso
    have hlt : u.id < t.id := by
      simp only [List.pairwise_append] at hasc
      exact hasc.2.1.2.1.2.1.2.2 u (by simp) t (by simp)
    have hu := (hl.mem (t := u) (by simp)).1
    have hup := hl.launched u (by simp)
    have hrd := h.ready.launched u hu nofun hup
    have hf := h.ready.fifo
    rw [hr] at hrd hf
    rcases List.mem_cons.mp hrd with he | hrd
    · omega
    · have := (List.pairwise_cons.mp hf).1 u.id hrd u hu rfl hup
      omega

theorem Line.acts_eq (h : m.Line s olds acts waits fresh) (ht : t ∈ acts) : acts = [t] := by
  have hh := h.holder
  cases acts with
  | nil => cases ht
  | cons u us =>
    cases hs : s.holder with
    | none => simp [hs] at hh
    | some k =>
      have hus : us = [] := by
        rw [hs] at hh
        simpa using (List.cons.inj hh).2
      rw [hus] at ht ⊢
      rw [List.mem_singleton.mp ht]

/-- A turn that was given the lock before goes on. -/
theorem Sound.held (h : m.Sound B none) (ht : t ∈ m.turns) (hp : t.place.isActive = true)
    (hr : m.ready = t.id :: r) (hs : s ∈ m.sessions) (hst : s.id = t.session) :
    ({ m with ready := r } : Manager).Held B s t := by
  obtain ⟨olds, acts, waits, fresh, hl, ha⟩ := h.queued s hs
  have hm : t ∈ m.turnsOf s.id := mem_turnsOf.mpr ⟨ht, hst.symm⟩
  rw [hl.turns] at hm
  simp only [List.mem_append] at hm
  have hact : t ∈ acts := by
    rcases hm with hm | hm | hm | hm
    · rw [hl.ended t hm] at hp
      cases hp
    · exact hm
    · rw [hl.waiting t hm] at hp
      cases hp
    · rw [hl.launched t hm] at hp
      cases hp
  have he := hl.acts_eq hact
  subst he
  exact ⟨h.pop hr fun _ _ _ _ => rfl, s, hs, rfl, rfl, fun hc => hc, olds, t, waits, fresh, hl.of_same rfl, rfl⟩

/-- A turn that was launched finds the lock free and takes it. -/
theorem Sound.take (h : m.Sound B none) (ht : t ∈ m.turns) (hp : t.place = .launched) (hr : m.ready = t.id :: r)
    (hs : s ∈ m.sessions) (hst : s.id = t.session) (hfree : s.holder = none) :
    (({ m with ready := r } : Manager).modifySession s.id fun s => { s with holder := some t.id }).Held B s t := by
  have hpop : ({ m with ready := r } : Manager).Sound B (some t.id) := h.pop hr fun _ _ _ _ => rfl
  obtain ⟨olds, acts, waits, fresh, hl, ha⟩ := h.queued s hs
  obtain ⟨rest, rfl⟩ := h.first_fresh ht hp hr hl (fun u hu => (ha u hu).resolve_left nofun) hst
  have hno : acts = [] := by simpa [hfree] using hl.holder
  subst hno
  -- Nobody waits for a lock that is free.
  have hnw : waits = [] := hl.free rfl
  subst hnw
  have line : (({ m with ready := r } : Manager).modifySession s.id fun s => { s with holder := some t.id }).Line
      { s with holder := some t.id } olds [t] [] rest :=
    ⟨hl.turns, hl.ended, by simp, fun u hu => hl.launched u (List.mem_cons_of_mem t hu), rfl, hl.waiters, by simp⟩
  have c := modifySession_change s.id (f := fun s => { s with holder := some t.id }) (fun _ => rfl)
    ({ m with ready := r } : Manager)
  refine ⟨hpop.change c ⟨[], (List.append_nil _).symm, by simp⟩ (fun u _ hl => ⟨hl, fun hc => hc⟩) ?_ hpop.tells ?_,
    { s with holder := some t.id }, ?_, rfl, rfl, fun hc => hc, olds, t, [], rest, line, rfl⟩
  · intro v hv
    by_cases he : v.id = s.id
    · have hvs := h.named.session_eq hv hs he
      subst hvs
      rw [Session.changed_self rfl]
      refine ⟨olds, [t], [], rest, line, ?_⟩
      intro u hu
      rw [List.mem_singleton.mp hu]
      exact .inl rfl
    · exact hpop.elsewhere ht rfl c (fun _ _ _ => rfl) hv (hst ▸ he) (Session.changed_other he _)
  · intro u hu hc hov hb v hv hvu
    rw [Session.changed_closed]
    · exact hpop.silent u hu hc hov hb v hv hvu
    · exact fun _ => rfl
  · refine List.mem_map.mpr ⟨s, hs, ?_⟩
    simp

/-- A turn gets in line behind those that wait. -/
theorem Line.join {rest : List Turn} (h : m.Line s olds acts waits (t :: rest)) (hn : m.Named) (hne : acts ≠ []) :
    (m.place t.id .waiting).Line { s with waiters := s.waiters ++ [t.id] } olds acts
      (waits ++ [{ t with place := .waiting }]) rest := by
  have hu : olds ++ (acts ++ (waits ++ t :: rest)) = olds ++ (acts ++ waits) ++ t :: rest := by simp
  refine ⟨?_, h.ended, ?_, fun u hu => h.launched u (List.mem_cons_of_mem t hu), h.holder, ?_, fun he => absurd he hne⟩
  · show (m.place t.id .waiting).turnsOf s.id = _
    rw [h.turnsOf_place hn hu rfl .waiting]
    simp
  · intro u hu
    rcases List.mem_append.mp hu with hu | hu
    · exact h.waiting u hu
    · rw [List.mem_singleton.mp hu]
  · simp [h.waiters]

/-- A turn that was launched finds the lock taken and waits for it. -/
theorem Sound.wait (h : m.Sound B none) (ht : t ∈ m.turns) (hp : t.place = .launched) (hr : m.ready = t.id :: r)
    (hs : s ∈ m.sessions) (hst : s.id = t.session) (htaken : s.holder ≠ none) :
    ((({ m with ready := r } : Manager).modifySession s.id fun s => { s with waiters := s.waiters ++ [t.id] }).place
      t.id .waiting).Sound B none := by
  have hpop : ({ m with ready := r } : Manager).Sound B (some t.id) := h.pop hr fun _ _ _ _ => rfl
  obtain ⟨olds, acts, waits, fresh, hl, ha⟩ := h.queued s hs
  obtain ⟨rest, rfl⟩ := h.first_fresh ht hp hr hl (fun u hu => (ha u hu).resolve_left nofun) hst
  have hne : acts ≠ [] := by
    rintro rfl
    have hh := hl.holder
    cases hk : s.holder with
    | none => exact htaken hk
    | some k => simp [hk] at hh
  have c := (modifySession_change s.id (f := fun s => { s with waiters := s.waiters ++ [t.id] }) (fun _ => rfl)
    ({ m with ready := r } : Manager)).trans (place_change t.id .waiting _)
  have cur {u : Turn} (he : u.id ≠ t.id) : some t.id ≠ some u.id := fun hc => he (Option.some.inj hc).symm
  refine hpop.change c ⟨[], (List.append_nil _).symm, by simp⟩ ?_ ?_ ?_ ?_
  · intro u hu hul
    by_cases he : u.id = t.id
    · rw [Turn.placed_self he] at hul
      cases hul
    · rw [Turn.placed_other he] at hul
      exact ⟨hul, fun _ => cur he⟩
  · intro v hv
    by_cases he : v.id = s.id
    · have hvs := h.named.session_eq hv hs he
      subst hvs
      rw [Session.changed_self rfl]
      exact ⟨olds, acts, _, rest, (hl.join h.named hne).of_same rfl, fun u hu => .inr ((ha u hu).resolve_left nofun)⟩
    · refine hpop.elsewhere ht rfl c ?_ hv (hst ▸ he) (Session.changed_other he _)
      intro u hu hne
      exact Turn.placed_other (h.named.id_ne ht hu hne) .waiting
  · intro u hu _
    by_cases he : u.id = t.id
    · have hut := h.named.eq_of_id hu ht he
      have hb := h.tells t ht nofun
      rw [hp] at hb
      rw [Turn.placed_self he, hut]
      exact hb
    · rw [Turn.placed_other he]
      exact hpop.tells u hu (cur he)
  · intro u hu _ hov hb v hv hvu
    by_cases he : u.id = t.id
    · rw [Turn.placed_self he] at hov
      cases hov
    · rw [Turn.placed_other he] at hov
      rw [Session.changed_closed]
      · exact hpop.silent u hu (cur he) hov hb v hv hvu
      · exact fun _ => rfl

end StackDeck.Diagnosis.Manager
