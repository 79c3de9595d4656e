import StackDeck.Proofs.Log.Roster
import StackDeck.Proofs.Registry

/-!
A service has a registered tail exactly as long as one of its tails was neither told to stop nor has ended, and then
it is this one: a tail that ends late never unregisters its successor.
-/

namespace StackDeck.Log

namespace Pipeline

variable {p p' p'' : Pipeline} {t u : Tail} {id : Nat} {service : String}

/-! ### What holds of the registry -/

/-- A change of a tail that leaves it its number and its service. -/
def Keeps (f : Tail → Tail) : Prop := ∀ u, (f u).id = u.id ∧ (f u).service = u.service

theorem Keeps.when {f : Tail → Tail} (h : Keeps f) (c : Tail → Bool) : Keeps fun u => if c u then f u else u := by
  intro u
  dsimp only
  split
  · exact h u
  · exact ⟨rfl, rfl⟩

theorem keeps_told : Keeps fun u => { u with cancelled := true } := fun _ => ⟨rfl, rfl⟩

theorem keeps_place (q : TailPlace) : Keeps fun u => { u with place := q } := fun _ => ⟨rfl, rfl⟩

/-- Tails are numbered in their order, and registered are those that were neither told to stop nor have ended. -/
structure Enlisted (p : Pipeline) : Prop where
  sorted : p.registry.Sorted
  ascending : (p.tails.map Tail.id).Pairwise (· < ·)
  issued : ∀ t ∈ p.tails, t.id ≤ p.issued
  listed : ∀ s id, p.tailId? s = some id ↔ ∃ t ∈ p.tails, t.id = id ∧ t.service = s ∧ t.isLive = true

theorem Enlisted.same (h : p.Enlisted) (hs : p.Same p') : p'.Enlisted := by
  obtain ⟨hr, ht, hi⟩ := hs
  refine ⟨hr ▸ h.sorted, ht ▸ h.ascending, ht ▸ hi ▸ h.issued, fun s id => ?_⟩
  rw [tailId?, hr, ht]
  exact h.listed s id

theorem Enlisted.nodup (h : p.Enlisted) : (p.tails.map Tail.id).Nodup := h.ascending.imp Nat.ne_of_lt

theorem Enlisted.eq_of_id (h : p.Enlisted) (ht : t ∈ p.tails) (hu : u ∈ p.tails) (hid : t.id = u.id) : t = u :=
  List.inj_on_of_nodup_map h.nodup ht hu hid

/-- A change of the tails that keeps their names, and of the registry with them. -/
theorem Enlisted.retail (h : p.Enlisted) {f : Tail → Tail} (hf : Keeps f) (hsorted : p'.registry.Sorted)
    (htails : p'.tails = p.tails.map f) (hissued : p'.issued = p.issued) (hlisted : ∀ s id, p'.tailId? s = some id ↔
      ∃ u ∈ p.tails, u.id = id ∧ u.service = s ∧ (f u).isLive = true) : p'.Enlisted := by
  refine ⟨hsorted, ?_, ?_, fun s id => (hlisted s id).trans ?_⟩
  · have hids : (p.tails.map f).map Tail.id = p.tails.map Tail.id := by
      rw [List.map_map]
      exact List.map_congr_left fun u _ => (hf u).1
    rw [htails, hids]
    exact h.ascending
  · rw [htails, hissued]
    intro v hv
    obtain ⟨u, hu, rfl⟩ := List.mem_map.mp hv
    rw [(hf u).1]
    exact h.issued u hu
  · simp only [htails, List.mem_map, exists_exists_and_eq_and, hf _]

/-- One tail is live no longer, and its entry goes if it is still its own. -/
theorem Enlisted.retire (h : p.Enlisted) {f : Tail → Tail} (ht : t ∈ p.tails) (hf : Keeps f)
    (hlive : ∀ u ∈ p.tails, (f u).isLive = true ↔ u.isLive = true ∧ u.id ≠ t.id)
    (hsorted : p'.registry.Sorted) (htails : p'.tails = p.tails.map f) (hissued : p'.issued = p.issued)
    (hids : ∀ s, p'.tailId? s = if s = t.service ∧ p.tailId? s = some t.id then none else p.tailId? s) :
    p'.Enlisted := by
  refine h.retail hf hsorted htails hissued fun s id => ?_
  rw [hids]
  constructor
  · intro hs
    split at hs
    · cases hs
    next hkeep =>
      obtain ⟨u, hu, rfl, rfl, hl⟩ := (h.listed s id).mp hs
      refine ⟨u, hu, rfl, rfl, (hlive u hu).mpr ⟨hl, fun hut => hkeep ?_⟩⟩
      obtain rfl := h.eq_of_id hu ht hut
      exact ⟨rfl, hs⟩
  · rintro ⟨u, hu, rfl, rfl, hl⟩
    obtain ⟨hl, hut⟩ := (hlive u hu).mp hl
    have hs : p.tailId? u.service = some u.id := (h.listed _ _).mpr ⟨u, hu, rfl, rfl, hl⟩
    rw [hs, if_neg]
    rintro ⟨-, he⟩
    exact hut (Option.some.inj he)

/-! ### Calls -/

theorem isTailing_iff : p.isTailing service = true ↔ ∃ id, p.tailId? service = some id := Registry.contains_iff

/-- A refused start has used up a number, and nothing else. -/
theorem start_refused (h : p.tailId? service = some id) (source : Source) :
    p.start service source = (false, { p with issued := p.issued + 1 }) :=
  if_pos (isTailing_iff.mpr ⟨id, h⟩)

theorem start_accepted (h : p.tailId? service = none) (source : Source) :
    p.start service source = (true, { p with
      issued := p.issued + 1
      registry := p.registry.insert service (p.issued + 1)
      tails := p.tails ++ [{ id := p.issued + 1, service := service, source := source }] }) := by
  refine if_neg fun hc => ?_
  obtain ⟨id, hid⟩ := isTailing_iff.mp hc
  exact nomatch h.symm.trans hid

theorem start_iff (service : String) (source : Source) (p : Pipeline) :
    (p.start service source).1 = true ↔ p.tailId? service = none := by
  cases h : p.tailId? service with
  | none => simp [start_accepted h]
  | some id => simp [start_refused h]

theorem Enlisted.start (h : p.Enlisted) (service : String) (source : Source) :
    (p.start service source).2.Enlisted := by
  have hle : ∀ t ∈ p.tails, t.id < p.issued + 1 := fun t ht => Nat.lt_succ_of_le (h.issued t ht)
  cases hs : p.tailId? service with
  | some id =>
    rw [start_refused hs]
    exact ⟨h.sorted, h.ascending, fun t ht => (hle t ht).le, h.listed⟩
  | none =>
    rw [start_accepted hs]
    refine ⟨h.sorted.insert _ _, ?_, ?_, fun s id => ?_⟩
    · refine List.map_append ▸ List.pairwise_append.mpr ⟨h.ascending, List.pairwise_singleton _ _, ?_⟩
      intro j hj k hk
      obtain ⟨t, ht, rfl⟩ := List.mem_map.mp hj
      rw [List.mem_singleton.mp hk]
      exact hle t ht
    · intro t ht
      rcases List.mem_append.mp ht with ht | ht
      · exact (hle t ht).le
      · rw [List.mem_singleton.mp ht]
    · have hlive : ∀ t ∈ p.tails, t.service = service → t.isLive = true → False := by
        intro t ht hts hl
        exact nomatch hs.symm.trans ((h.listed service t.id).mpr ⟨t, ht, rfl, hts, hl⟩)
      rw [tailId?, Registry.get?_insert]
      constructor
      · intro hid
        split at hid
        next he =>
          exact ⟨_, List.mem_append_right _ (List.mem_singleton_self _), Option.some.inj hid, he.symm, rfl⟩
        next =>
          obtain ⟨t, ht, hrest⟩ := (h.listed s id).mp hid
          exact ⟨t, List.mem_append_left _ ht, hrest⟩
      · rintro ⟨t, ht, rfl, rfl, hl⟩
        rcases List.mem_append.mp ht with ht | ht
        · rw [if_neg fun he => hlive t ht he hl]
          exact (h.listed _ _).mpr ⟨t, ht, rfl, rfl, hl⟩
        · rw [List.mem_singleton.mp ht, if_pos rfl]

theorem stop_none (h : p.tailId? service = none) : p.stop service = (false, p) := by
  rw [stop, h]

theorem stop_some (h : p.tailId? service = some id) :
    p.stop service = (true, { p with registry := p.registry.erase service }.cancel id) := by
  rw [stop, h]

theorem stop_tailId? (service s : String) (p : Pipeline) :
    (p.stop service).2.tailId? s = if s = service then none else p.tailId? s := by
  cases h : p.tailId? service with
  | none =>
    rw [stop_none h]
    split
    next he => rw [he, h]
    next => rfl
  | some id =>
    rw [stop_some h]
    exact Registry.get?_erase service s p.registry

theorem Enlisted.stop (h : p.Enlisted) (service : String) : (p.stop service).2.Enlisted := by
  cases hs : p.tailId? service with
  | none =>
    rw [stop_none hs]
    exact h
  | some id =>
    obtain ⟨t, ht, rfl, rfl, -⟩ := (h.listed service id).mp hs
    have hids := stop_tailId? t.service
    rw [stop_some hs]
    refine h.retire (f := fun u => if u.id == t.id then { u with cancelled := true } else u) ht
      (keeps_told.when _) ?_ (h.sorted.erase _) rfl rfl fun s => ?_
    · intro u _
      by_cases hu : u.id = t.id <;> simp [hu, Tail.isLive]
    · have hid := hids s p
      rw [stop_some hs] at hid
      rw [hid]
      by_cases he : s = t.service
      · rw [if_pos he, if_pos ⟨he, he ▸ hs⟩]
      · rw [if_neg he, if_neg fun hc => he hc.1]

/-- Telling many tails to stop tells each of them. -/
theorem cancelAll_eq (ids : List Nat) (p : Pipeline) : ids.foldl (fun p id => p.cancel id) p =
    { p with tails := p.tails.map fun t => if ids.contains t.id then { t with cancelled := true } else t } := by
  induction ids generalizing p with
  | nil => simp
  | cons id r ih =>
    rw [List.foldl_cons, ih]
    simp only [cancel, modify, List.map_map]
    congr 1
    refine List.map_congr_left fun t _ => ?_
    by_cases ht : t.id = id <;> by_cases hr : t.id ∈ r <;> simp [ht, hr]

theorem stopAll_eq (p : Pipeline) : p.stopAll = { p with
    registry := {}
    tails := p.tails.map fun t =>
      if (p.registry.entries.map Prod.snd).contains t.id then { t with cancelled := true } else t } :=
  cancelAll_eq _ _

theorem stopAll_tailId? (s : String) (p : Pipeline) : p.stopAll.tailId? s = none := by
  rw [stopAll_eq]
  rfl

/-- The number of a registered tail is among those that are told to stop. -/
theorem contains_of_tailId? (h : p.tailId? service = some id) :
    (p.registry.entries.map Prod.snd).contains id = true :=
  List.contains_iff_mem.mpr (List.mem_map_of_mem (f := Prod.snd) (Registry.mem_of_get? h))

theorem Enlisted.stopAll (h : p.Enlisted) : p.stopAll.Enlisted := by
  rw [stopAll_eq]
  refine h.retail (f := fun u => if (p.registry.entries.map Prod.snd).contains u.id then
    { u with cancelled := true } else u) (keeps_told.when _) Registry.sorted_empty rfl rfl fun s id => ?_
  refine iff_of_false nofun ?_
  rintro ⟨u, hu, -, -, hl⟩
  split at hl
  next => simp [Tail.isLive] at hl
  next hc => exact hc (contains_of_tailId? ((h.listed _ _).mpr ⟨u, hu, rfl, rfl, hl⟩))

/-! ### Steps of a tail -/

theorem exit_tails (t : Tail) (p : Pipeline) : (p.exit t).tails = (p.place t.id .over).tails := by
  unfold Pipeline.exit removeIfCurrent
  split <;> rfl

theorem exit_issued (t : Tail) (p : Pipeline) : (p.exit t).issued = p.issued := by
  unfold Pipeline.exit removeIfCurrent
  split <;> rfl

/-- A tail that ends takes away the entry of its service if it is still its own, and no other. -/
theorem exit_tailId? (t : Tail) (s : String) (p : Pipeline) :
    (p.exit t).tailId? s = if s = t.service ∧ p.tailId? s = some t.id then none else p.tailId? s := by
  unfold Pipeline.exit removeIfCurrent
  have hreg : (p.place t.id .over).tailId? t.service = p.tailId? t.service := rfl
  rw [hreg]
  by_cases hc : p.tailId? t.service = some t.id
  · rw [if_pos hc]
    refine (Registry.get?_erase t.service s p.registry).trans ?_
    by_cases hs : s = t.service
    · rw [if_pos hs, if_pos ⟨hs, hs ▸ hc⟩]
    · rw [if_neg hs, if_neg fun h => hs h.1]
      rfl
  · rw [if_neg hc, if_neg]
    · rfl
    · rintro ⟨rfl, h⟩
      exact hc h

theorem exit_sorted (h : p.registry.Sorted) (t : Tail) : (p.exit t).registry.Sorted := by
  unfold Pipeline.exit removeIfCurrent
  split
  · exact h.erase _
  · exact h

theorem Enlisted.exit (h : p.Enlisted) (ht : t ∈ p.tails) : (p.exit t).Enlisted := by
  refine h.retire (f := fun u => if u.id == t.id then { u with place := .over } else u) ht
    ((keeps_place .over).when _) ?_ (exit_sorted h.sorted t) (exit_tails t p) (exit_issued t p)
    fun s => exit_tailId? t s p
  intro u _
  by_cases hu : u.id = t.id <;> simp [hu, Tail.isLive, Tail.isOver]

theorem isOver_of_place {q : TailPlace} (hq : q ≠ .over) (t : Tail) : ({ t with place := q } : Tail).isOver = false := by
  unfold Tail.isOver
  split
  next h => exact absurd h hq
  next => rfl

theorem Enlisted.goesOn (h : p.Enlisted) (ht : t ∈ p.tails) (hover : t.isOver = false) {q : TailPlace}
    (hq : q ≠ .over) : (p.place t.id q).Enlisted := by
  refine h.retail (f := fun u => if u.id == t.id then { u with place := q } else u)
    ((keeps_place q).when _) h.sorted rfl rfl fun s id => (h.listed s id).trans ?_
  refine exists_congr fun u => and_congr_right fun hu => ?_
  have hl : (if u.id == t.id then { u with place := q } else u).isLive = u.isLive := by
    by_cases hut : u.id = t.id
    · obtain rfl := h.eq_of_id hu ht hut
      simp [Tail.isLive, isOver_of_place hq, hover]
    · simp [hut]
  rw [hl]

/-- Whatever anybody does, the registry lists the live tails. -/
theorem Enlisted.deed (h : p.Enlisted) (d : p.Deed p') : p'.Enlisted := by
  cases d with
  | idle hs => exact h.same hs
  | start service source he => exact he ▸ h.start service source
  | stop service he => exact he ▸ h.stop service
  | stopAll he => exact he ▸ h.stopAll
  | goesOn t q ht hover hq hs => exact (h.goesOn (tail?_id ht).1 hover hq).same hs
  | ends t ht _ hs => exact (h.exit (tail?_id ht).1).same hs

/-! ### What stays -/

/-- Tails are only added, and none forgets that it was told to stop. -/
structure Grows (p p' : Pipeline) : Prop where
  ids : p.tails.map Tail.id <+: p'.tails.map Tail.id
  told : ∀ t ∈ p.tails, ∃ u ∈ p'.tails, u.id = t.id ∧ u.service = t.service ∧ (t.cancelled = true → u.cancelled = true)

theorem Grows.refl (p : Pipeline) : p.Grows p := ⟨List.prefix_rfl, fun t ht => ⟨t, ht, rfl, rfl, id⟩⟩

theorem Grows.trans (h : p.Grows p') (h' : p'.Grows p'') : p.Grows p'' := by
  refine ⟨h.ids.trans h'.ids, fun t ht => ?_⟩
  obtain ⟨u, hu, hid, hs, hc⟩ := h.told t ht
  obtain ⟨v, hv, hid', hs', hc'⟩ := h'.told u hu
  exact ⟨v, hv, hid'.trans hid, hs'.trans hs, hc' ∘ hc⟩

theorem grows_of_map {f : Tail → Tail} (hf : Keeps f) (htold : ∀ u, u.cancelled = true → (f u).cancelled = true)
    (htails : p'.tails = p.tails.map f) : p.Grows p' := by
  refine ⟨?_, fun t ht => ⟨f t, htails ▸ List.mem_map_of_mem ht, (hf t).1, (hf t).2, htold t⟩⟩
  rw [htails, List.map_map]
  exact List.map_congr_left (fun u _ => (hf u).1.symm) ▸ List.prefix_rfl

/-- A step adds a tail or changes each for itself, and none is over afterwards that was not but one that ends. -/
theorem Deed.tails_cases (d : p.Deed p') : (∃ t : Tail, t.isOver = false ∧ p'.tails = p.tails ++ [t]) ∨
    ∃ f, Keeps f ∧ (∀ u, u.cancelled = true → (f u).cancelled = true) ∧ p'.tails = p.tails.map f ∧
      ∀ u, (f u).isOver = true → u.isOver = true ∨ ∃ t ∈ p.tails, u.id = t.id ∧ (p.exit t).Same p' := by
  have hidle {p' : Pipeline} (h : p'.tails = p.tails) : ∃ f, Keeps f ∧ (∀ u, u.cancelled = true → (f u).cancelled = true) ∧
      p'.tails = p.tails.map f ∧ ∀ u, (f u).isOver = true → u.isOver = true ∨ ∃ t ∈ p.tails, u.id = t.id ∧ (p.exit t).Same p' :=
    ⟨id, fun _ => ⟨rfl, rfl⟩, fun _ => id, h.trans (List.map_id _).symm, fun _ => .inl⟩
  cases d with
  | idle hs => exact .inr (hidle hs.tails)
  | start service source he =>
    subst he
    cases hs : p.tailId? service with
    | some id =>
      rw [start_refused hs]
      exact .inr (hidle rfl)
    | none =>
      rw [start_accepted hs]
      exact .inl ⟨_, rfl, rfl⟩
  | stop service he =>
    subst he
    cases hs : p.tailId? service with
    | none =>
      rw [stop_none hs]
      exact .inr (hidle rfl)
    | some id =>
      rw [stop_some hs]
      exact .inr ⟨_, keeps_told.when fun u => u.id == id, fun u hu => by split <;> trivial, rfl,
        fun u hu => .inl (by split at hu <;> exact hu)⟩
  | stopAll he =>
    subst he
    rw [stopAll_eq]
    exact .inr ⟨_, keeps_told.when fun u => (p.registry.entries.map Prod.snd).contains u.id,
      fun u hu => by split <;> trivial, rfl, fun u hu => .inl (by split at hu <;> exact hu)⟩
  | goesOn t q _ _ hq hs =>
    refine .inr ⟨_, (keeps_place q).when fun u => u.id == t.id, fun u hu => by split <;> exact hu, hs.tails, fun u hu => .inl ?_⟩
    split at hu
    · rw [isOver_of_place hq] at hu
      cases hu
    · exact hu
  | ends t ht _ hs =>
    refine .inr ⟨_, (keeps_place .over).when fun u => u.id == t.id, fun u hu => by split <;> exact hu,
      hs.tails.trans (exit_tails t p), fun u hu => ?_⟩
    split at hu
    next hid => exact .inr ⟨t, (tail?_id ht).1, beq_iff_eq.mp hid, hs⟩
    next => exact .inl hu

theorem Deed.grows (d : p.Deed p') : p.Grows p' := by
  rcases d.tails_cases with ⟨t, -, he⟩ | ⟨f, hf, htold, he, -⟩
  · refine ⟨?_, fun u hu => ⟨u, he ▸ List.mem_append_left _ hu, rfl, rfl, id⟩⟩
    rw [he, List.map_append]
    exact List.prefix_append _ _
  · exact grows_of_map hf htold he

theorem Enlisted.eq_map (h : p.Enlisted) {f : Tail → Tail} (hf : Keeps f) (ht : t ∈ p.tails)
    (hu : u ∈ p.tails.map f) (he : u.id = t.id) : u = f t := by
  obtain ⟨v, hv, rfl⟩ := List.mem_map.mp hu
  rw [h.eq_of_id hv ht ((hf v).1.symm.trans he)]

/-- However the task of a tail comes to its end, the entry of its service goes if it is still its own, and no other
entry goes or comes. -/
theorem Enlisted.ended (h : p.Enlisted) (d : p.Deed p') (ht : t ∈ p.tails) (hover : t.isOver = false)
    (hu : u ∈ p'.tails) (he : u.id = t.id) (hend : u.isOver = true) (s : String) :
    p'.tailId? s = if s = t.service ∧ p.tailId? s = some t.id then none else p.tailId? s := by
  rcases d.tails_cases with ⟨v, hv, htails⟩ | ⟨f, hf, -, htails, hends⟩
  · rw [htails] at hu
    rcases List.mem_append.mp hu with hu | hu
    · rw [h.eq_of_id hu ht he, hover] at hend
      cases hend
    · rw [List.mem_singleton.mp hu, hv] at hend
      cases hend
  · rw [htails] at hu
    rw [h.eq_map hf ht hu he] at hend
    rcases hends t hend with hend | ⟨v, hv, hid, hs⟩
    · rw [hover] at hend
      cases hend
    · obtain rfl := h.eq_of_id ht hv hid
      rw [tailId?, hs.registry]
      exact exit_tailId? t s p

/-- The tail was told to stop. -/
def Told (id : Nat) (p : Pipeline) : Prop := ∃ t ∈ p.tails, t.id = id ∧ t.cancelled = true

theorem Told.grows (h : p.Told id) (hg : p.Grows p') : p'.Told id := by
  obtain ⟨t, ht, rfl, hc⟩ := h
  obtain ⟨u, hu, hid, -, hcu⟩ := hg.told t ht
  exact ⟨u, hu, hid, hcu hc⟩

theorem Enlisted.told_stop (h : p.Enlisted) (hs : p.tailId? service = some id) : (p.stop service).2.Told id := by
  obtain ⟨t, ht, rfl, -, -⟩ := (h.listed service id).mp hs
  rw [stop_some hs]
  exact ⟨_, List.mem_map_of_mem ht, by simp, by simp⟩

theorem Enlisted.told_stopAll (h : p.Enlisted) (hs : p.tailId? service = some id) : p.stopAll.Told id := by
  obtain ⟨t, ht, rfl, -, -⟩ := (h.listed service id).mp hs
  have hc := contains_of_tailId? hs
  rw [stopAll_eq]
  refine ⟨{ t with cancelled := true }, ?_, rfl, rfl⟩
  exact List.mem_map.mpr ⟨t, ht, if_pos hc⟩

/-- An entry goes only when its tail is told to stop or has ended. -/
theorem Enlisted.gone (h : p.Enlisted) (h' : p'.Enlisted) (hg : p.Grows p') (hs : p.tailId? service = some id)
    (hs' : p'.tailId? service ≠ some id) :
    ∃ u ∈ p'.tails, u.id = id ∧ u.service = service ∧ (u.cancelled = true ∨ u.isOver = true) := by
  obtain ⟨t, ht, rfl, rfl, -⟩ := (h.listed service id).mp hs
  obtain ⟨u, hu, hid, hservice, -⟩ := hg.told t ht
  refine ⟨u, hu, hid, hservice, ?_⟩
  by_contra hn
  refine hs' ((h'.listed _ _).mpr ⟨u, hu, hid, hservice, ?_⟩)
  simpa [Tail.isLive] using hn

end Pipeline

namespace Roster

open Pipeline

theorem start_enlisted (runtime : String) (backlog capacity : Nat) (now : Instant) :
    (start runtime backlog capacity now).pipeline.Enlisted :=
  ⟨Registry.sorted_empty, List.Pairwise.nil, nofun, fun _ _ => iff_of_false nofun nofun⟩

theorem run_enlisted {r : Roster} (h : r.pipeline.Enlisted) (ms : List Move) : (r.run ms).pipeline.Enlisted := by
  induction ms generalizing r with
  | nil => exact h
  | cons mv ms ih => exact ih (h.deed (move_deed mv r))

theorem run_grows (ms : List Move) (r : Roster) : r.pipeline.Grows (r.run ms).pipeline := by
  induction ms generalizing r with
  | nil => exact .refl _
  | cons mv ms ih => exact (move_deed mv r).grows.trans (ih (r.move mv))

/-- In whatever order tails are started, stopped, found by reconciles and come to their ends: a service has one
registered tail at most, no two tails ever have one number, and registered are exactly the tails that were neither
told to stop nor have ended. A start succeeds for a service without a tail and else leaves tail and number alone; who
is stopped has been told so for good; a tail that ends takes its own entry away and no other. The reconciles are those
that the stack makes. -/
theorem registry_lists_live_tails (runtime : String) (backlog capacity : Nat) (now : Instant) (ms : List Move) :
    let r := (start runtime backlog capacity now).run ms
    let p := r.pipeline
    p.registry.names.Nodup ∧
    ((p.tails.map Tail.id).Nodup ∧ ∀ ms', p.tails.map Tail.id <+: (r.run ms').pipeline.tails.map Tail.id) ∧
    (∀ s id, p.tailId? s = some id ↔
      ∃ t ∈ p.tails, t.id = id ∧ t.service = s ∧ t.cancelled = false ∧ t.isOver = false) ∧
    (∀ s source, ((p.start s source).1 = true ↔ p.tailId? s = none) ∧
      match p.tailId? s with
      | some _ => (p.start s source).2 = { p with issued := p.issued + 1 }
      | none => (∀ s', (p.start s source).2.tailId? s' = if s' = s then some (p.issued + 1) else p.tailId? s') ∧
        ∀ t ∈ p.tails, t.id ≠ p.issued + 1) ∧
    (∀ s id, p.tailId? s = some id → ∀ ms',
      ((r.move (.stop s)).run ms').pipeline.Told id ∧ ((r.move .stopAll).run ms').pipeline.Told id) ∧
    ((∀ s s', (p.stop s).2.tailId? s' = if s' = s then none else p.tailId? s') ∧ ∀ s, p.stopAll.tailId? s = none) ∧
    (∀ mv s id, p.tailId? s = some id → (r.move mv).pipeline.tailId? s ≠ some id →
      ∃ t ∈ (r.move mv).pipeline.tails, t.id = id ∧ t.service = s ∧ (t.cancelled = true ∨ t.isOver = true)) ∧
    (∀ mv, ∀ t ∈ p.tails, t.isOver = false →
      (∃ u ∈ (r.move mv).pipeline.tails, u.id = t.id ∧ u.isOver = true) → ∀ s, (r.move mv).pipeline.tailId? s =
        if s = t.service ∧ p.tailId? s = some t.id then none else p.tailId? s) ∧
    ∀ sourceOf services, ∃ n,
      (⟨p, []⟩ : Roster).run (.reconcile (runningNames services) :: List.replicate n (.goOn 0 sourceOf)) =
        ⟨p.reconcile sourceOf services, [.over]⟩ := by
  intro r p
  have h : p.Enlisted := run_enlisted (start_enlisted runtime backlog capacity now) ms
  have hmove (mv : Move) : p.Deed (r.move mv).pipeline := move_deed mv r
  refine ⟨h.sorted.nodup, ⟨h.nodup, fun ms' => (run_grows ms' r).ids⟩, fun s id => (h.listed s id).trans ?_,
    fun s source => ⟨start_iff s source p, ?_⟩, fun s id hs ms' => ⟨?_, ?_⟩,
    ⟨fun s s' => stop_tailId? s s' p, fun s => stopAll_tailId? s p⟩, fun mv s id hs hs' => ?_, ?_, ?_⟩
  · simp only [Tail.isLive, Bool.and_eq_true, Bool.not_eq_true']
  · cases hs : p.tailId? s with
    | some id => exact congrArg Prod.snd (start_refused hs source)
    | none =>
      refine ⟨fun s' => ?_, fun t ht => Nat.ne_of_lt (Nat.lt_succ_of_le (h.issued t ht))⟩
      rw [start_accepted hs]
      exact Registry.get?_insert s s' _ p.registry
  · exact (h.told_stop hs).grows (run_grows ms' (r.move (.stop s)))
  · exact (h.told_stopAll hs).grows (run_grows ms' (r.move .stopAll))
  · exact h.gone (h.deed (hmove mv)) (hmove mv).grows hs hs'
  · rintro mv t ht hover ⟨u, hu, he, hend⟩ s
    exact h.ended (hmove mv) ht hover hu he hend s
  · exact fun sourceOf services => reconcile_run services p

end Roster

end StackDeck.Log
