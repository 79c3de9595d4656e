import StackDeck.Proofs.Diagnosis.Handover
import StackDeck.Proofs.Diagnosis.Interrupt
import StackDeck.Proofs.Diagnosis.Release

/-!
What is left of a session that was closed: the turn that an engine is asked for may say the rest of its block, and the
others end without a word.
-/

namespace StackDeck.Diagnosis

namespace Manager

variable {m m' m'' : Manager} {s v : Session} {t u : Turn} {e : Episode} {B : Nat → List TurnNews} {sid : String}

/-- No turn of a session is launched and no engine asked for one. The turns for which none is asked say no more. -/
structure Fades (sid : String) (m m' : Manager) : Prop where
  turns : ∃ g, m'.turnsOf sid = (m.turnsOf sid).map g ∧ (∀ t, (g t).tag = t.tag) ∧
    ∀ t ∈ m.turnsOf sid, t.place.isAsking = false → (g t).place.isAsking = false ∧ m'.newsOf (g t) = m.newsOf t
  asked : ∀ t ∈ m.turnsOf sid, t.id ∈ m'.asked → t.id ∈ m.asked

/-- A session that was closed cannot be reached. -/
structure Gone (sid : String) (m : Manager) : Prop where
  registry : sid ∉ m.registry
  session : ∃ v ∈ m.sessions, v.id = sid ∧ v.closed = true

theorem Fades.of_same (hturns : m'.turnsOf sid = m.turnsOf sid) (htold : m'.told sid = m.told sid)
    (hasked : m'.asked = m.asked) : Fades sid m m' := by
  refine ⟨⟨fun t => t, by rw [hturns, List.map_id'], fun _ => rfl, fun t ht hp => ⟨hp, newsOf_congr rfl ?_⟩⟩,
    fun t _ ht => hasked ▸ ht⟩
  rw [(mem_turnsOf.mp ht).2, htold]

theorem Fades.trans (h : Fades sid m m') (h' : Fades sid m' m'') : Fades sid m m'' := by
  obtain ⟨g, hg, htag, hplace⟩ := h.turns
  obtain ⟨g', hg', htag', hplace'⟩ := h'.turns
  have hid (t : Turn) : (g t).id = t.id := congrArg Prod.fst (htag t)
  refine ⟨⟨fun t => g' (g t), by rw [hg', hg, List.map_map]; rfl, fun t => (htag' _).trans (htag t), ?_⟩, ?_⟩
  · intro t ht hp
    obtain ⟨hp', hn⟩ := hplace t ht hp
    obtain ⟨hp'', hn'⟩ := hplace' (g t) (hg ▸ List.mem_map_of_mem ht) hp'
    exact ⟨hp'', hn'.trans hn⟩
  · intro t ht hm
    rw [← hid t] at hm
    have := h'.asked (g t) (hg ▸ List.mem_map_of_mem ht) hm
    rw [hid] at this
    exact h.asked t ht this

theorem launch_fades (hs : s.id ≠ sid) (prompt : String) : Fades sid m (m.launch s prompt).2 := by
  refine .of_same ?_ rfl rfl
  unfold turnsOf Manager.launch
  dsimp only [wake, modifySession]
  rw [List.filter_append]
  simp [hs]

/-! ### A closed session stays closed -/

theorem Gone.changed (h : m.Gone sid) {f : Session → Session} (hsessions : m'.sessions = m.sessions.map f)
    (hf : ∀ v, (f v).id = v.id ∧ (v.closed = true → (f v).closed = true))
    (hregistry : ∀ id ∈ m'.registry, id ∈ m.registry) : m'.Gone sid := by
  obtain ⟨v, hv, hvs, hc⟩ := h.session
  exact ⟨fun hm => h.registry (hregistry sid hm), f v, by rw [hsessions]; exact List.mem_map_of_mem hv,
    (hf v).1.trans hvs, (hf v).2 hc⟩

theorem Gone.calm (h : m.Gone sid) (c : m.Calm m') (hregistry : ∀ id ∈ m'.registry, id ∈ m.registry) :
    m'.Gone sid := by
  obtain ⟨g, f, hc, -, hs⟩ := c.change
  exact h.changed hc.sessions (fun v => ⟨hc.id v, (hs v).2.2⟩) hregistry

theorem Gone.launch (h : m.Gone sid) (s : Session) (prompt : String) : (m.launch s prompt).2.Gone sid := by
  refine h.changed (f := Session.changed s.id fun s => { s with pending := s.pending + 1 }) rfl (fun v => ?_)
    fun _ hid => hid
  unfold Session.changed
  split <;> exact ⟨rfl, fun h => h⟩

theorem Gone.message (h : m.Gone sid) (id prompt : String) :
    (m.message id prompt).2.Gone sid ∧ Fades sid m (m.message id prompt).2 := by
  unfold Manager.message
  split
  · exact ⟨h, .of_same rfl rfl rfl⟩
  · cases hr : m.reach id with
    | error e => exact ⟨h, .of_same rfl rfl rfl⟩
    | ok s =>
      obtain ⟨-, hid, hreg⟩ := reach_ok hr
      refine ⟨h.launch s prompt, launch_fades (fun hs => h.registry ?_) prompt⟩
      rw [← hs, hid]
      exact hreg

theorem Named.not_blank (h : m.Named) (hv : v ∈ m.sessions) : Text.isBlank v.id = false := by
  have hm : v.id ∈ m.sessions.map Session.id := List.mem_map_of_mem hv
  rw [h.sessions] at hm
  obtain ⟨k, -, hk⟩ := List.mem_map.mp hm
  rw [← hk, Text.isBlank, String.toList_append, List.all_append]
  exact Bool.and_eq_false_imp.mpr fun hs => absurd hs (by decide)

end Manager

namespace Scene

variable {s : Scene} {B : Nat → List TurnNews} {sid : String}

end Scene

end StackDeck.Diagnosis
