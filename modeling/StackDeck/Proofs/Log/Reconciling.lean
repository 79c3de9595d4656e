import StackDeck.Proofs.Log.TailRegistry

/-!
A reconcile makes the tailed services those that run. It looks at the services in any order, asks a backend for each
that has no tail, and waits for the answer while tails and their reader go on; what it makes of the tails depends on
none of this, but on the services that run, the tails there were and the answers alone.
-/

namespace StackDeck.Log

/-- What only calls decide about a tail: its number, its service, its source, and whether it was told to stop. -/
def Tail.charge (t : Tail) : Nat × String × Source × Bool := (t.id, t.service, t.source, t.cancelled)

namespace Sweep

/-- The answer that a reconcile gets with its next step. -/
def told (sourceOf : String → Except BackendError Source) : Sweep → List (String × Except BackendError Source)
  | .asking s _ => [(s, sourceOf s)]
  | _ => []

/-- Steps that are left of a reconcile, at most. -/
def left : Sweep → Nat
  | .clearing running tailed => tailed.length + 2 * running.length + 2
  | .filling rest => 2 * rest.length + 1
  | .asking _ rest => 2 * rest.length + 2
  | .over => 0

theorem left_step (sourceOf : String → Except BackendError Source) (w : Sweep) (p : Pipeline) :
    (w.step sourceOf p).1.left ≤ w.left - 1 := by
  cases w with
  | clearing running tailed =>
    cases tailed with
    | nil => simp [step, left]
    | cons s tailed =>
      simp only [step, left, List.length_cons]
      omega
  | filling rest =>
    cases rest with
    | nil => exact Nat.le_refl _
    | cons s rest =>
      simp only [step]
      split
      all_goals
        simp only [left, List.length_cons]
        omega
  | asking s rest => exact Nat.le_refl _
  | _ => exact Nat.le_refl _

theorem eq_over {w : Sweep} (h : w.left = 0) : w = .over := by
  cases w with
  | clearing | filling | asking => exact absurd h (Nat.succ_ne_zero _)
  | _ => rfl

end Sweep

namespace Pipeline

variable {p p' p'' : Pipeline} {s : String} {id : Nat} {running tailed rest : List String}
variable {sourceOf : String → Except BackendError Source} {answers : List (String × Except BackendError Source)}

/-! ### What calls have to do with -/

/-- No tail was started or told to stop, and none has left the registry. -/
structure Rests (p p' : Pipeline) : Prop where
  registry : p'.registry = p.registry
  issued : p'.issued = p.issued
  charges : p'.tails.map Tail.charge = p.tails.map Tail.charge

theorem Rests.refl (p : Pipeline) : p.Rests p := ⟨rfl, rfl, rfl⟩

theorem Rests.trans (h : p.Rests p') (h' : p'.Rests p'') : p.Rests p'' :=
  ⟨h'.registry.trans h.registry, h'.issued.trans h.issued, h'.charges.trans h.charges⟩

theorem Rests.tailId? (h : p.Rests p') (s : String) : p'.tailId? s = p.tailId? s :=
  congrArg (Registry.get? s) h.registry

/-- No tail has ended that had not before. -/
def NoneEnds (p p' : Pipeline) : Prop :=
  ∀ t ∈ p.tails, t.isOver = false → ∀ u ∈ p'.tails, u.id = t.id → u.isOver = false

theorem Drift.rests (d : p.Drift p') (hnone : p.NoneEnds p') : p.Rests p' := by
  cases d with
  | idle h => exact ⟨h.registry, h.issued, by rw [h.tails]⟩
  | goesOn t q _ _ _ h =>
    refine ⟨h.registry, h.issued, ?_⟩
    rw [h.tails, place, modify, List.map_map]
    refine List.map_congr_left fun u _ => ?_
    by_cases hu : u.id = t.id <;> simp [hu, Tail.charge]
  | ends t ht hover h =>
    have hend : ({ t with place := .over } : Tail) ∈ p'.tails := by
      rw [h.tails, exit_tails, place, modify]
      exact List.mem_map.mpr ⟨t, (tail?_id ht).1, by simp⟩
    have hstill : ({ t with place := .over } : Tail).isOver = false := hnone t (tail?_id ht).1 hover _ hend rfl
    cases hstill

/-! ### Stages of a reconcile -/

/-- What has been since: the tails that left the registry were told to stop. -/
structure Since (p p' : Pipeline) : Prop where
  enlisted : p'.Enlisted
  issued : p.issued ≤ p'.issued
  told : ∀ s id, p.tailId? s = some id → p'.tailId? s = none → p'.Told id

theorem Since.refl (h : p.Enlisted) : p.Since p :=
  ⟨h, Nat.le_refl _, fun _ _ hs hnone => nomatch hs.symm.trans hnone⟩

theorem Since.rests (h : p.Since p') (d : p'.Drift p'') (hr : p'.Rests p'') : p.Since p'' := by
  refine ⟨h.enlisted.deed d.deed, h.issued.trans hr.issued.ge, fun s id hs hnone => ?_⟩
  rw [hr.tailId?] at hnone
  exact (h.told s id hs hnone).grows d.deed.grows

/-- Services that run have their tails as before; of the others only those may have one that are still to be looked
at. -/
structure Cleared (p p' : Pipeline) (running tailed : List String) : Prop where
  kept : ∀ s ∈ running, p'.tailId? s = p.tailId? s
  left : ∀ s id, p'.tailId? s = some id → p.tailId? s = some id ∧ (s ∈ running ∨ s ∈ tailed)

/-- The services that run have been looked at up to the rest, and the answers are about those that had no tail. -/
structure Filled (p p' : Pipeline) (running rest : List String)
    (answers : List (String × Except BackendError Source)) : Prop where
  asked : ∃ done, running = done ++ rest ∧ answers.map Prod.fst = done.filter fun s => !p.isTailing s
  kept : ∀ s ∈ running, ∀ id, p.tailId? s = some id → p'.tailId? s = some id
  gone : ∀ s, s ∉ running → p'.tailId? s = none
  found : ∀ s id, p.tailId? s = none → p'.tailId? s = some id → p.issued < id ∧
    ∃ source, (s, .ok source) ∈ answers ∧ (id, s, source, false) ∈ p'.tails.map Tail.charge
  started : ∀ s source, (s, .ok source) ∈ answers → ∃ id, p'.tailId? s = some id

/-- What a reconcile has done when it has come to a place. -/
def Stage (p p' : Pipeline) (running : List String) (answers : List (String × Except BackendError Source)) :
    Sweep → Prop
  | .clearing looked tailed => looked = running ∧ answers = [] ∧ Cleared p p' running tailed
  | .filling rest => Filled p p' running rest answers
  | .asking s rest => p.tailId? s = none ∧ Filled p p' running (s :: rest) answers
  | .over => Filled p p' running [] answers

theorem Filled.rests (h : Filled p p' running rest answers) (hr : p'.Rests p'') :
    Filled p p'' running rest answers where
  asked := h.asked
  kept s hs id hid := (hr.tailId? s).trans (h.kept s hs id hid)
  gone s hs := (hr.tailId? s).trans (h.gone s hs)
  found s id hs hid := by
    rw [hr.charges]
    exact h.found s id hs ((hr.tailId? s).symm.trans hid)
  started s source hs := by
    rw [hr.tailId?]
    exact h.started s source hs

theorem Stage.rests {w : Sweep} (h : Stage p p' running answers w) (hr : p'.Rests p'') :
    Stage p p'' running answers w := by
  cases w with
  | clearing looked tailed =>
    obtain ⟨hlooked, hanswers, hcleared⟩ := h
    refine ⟨hlooked, hanswers, fun s hs => (hr.tailId? s).trans (hcleared.kept s hs), fun s id hid => ?_⟩
    exact hcleared.left s id ((hr.tailId? s).symm.trans hid)
  | filling rest => exact Filled.rests h hr
  | asking s rest => exact ⟨h.1, h.2.rests hr⟩
  | _ => exact Filled.rests h hr

theorem isTailing_eq_false (h : p.tailId? s = none) : p.isTailing s = false := by
  rw [← Bool.not_eq_true, isTailing_iff]
  rintro ⟨id, hid⟩
  exact nomatch h.symm.trans hid

/-- Before anything is looked at, every tail is there. -/
theorem cleared_active (p : Pipeline) (running : List String) : Cleared p p running p.active where
  kept _ _ := rfl
  left _ id hid := ⟨hid, .inr (Registry.mem_names_iff.mpr ⟨id, hid⟩)⟩

/-- A service that does not run is looked at. -/
theorem Cleared.stop (h : Cleared p p' running (s :: tailed)) (hs : s ∉ running) :
    Cleared p (p'.stop s).2 running tailed where
  kept u hu := by
    have hne : u ≠ s := fun he => hs (he ▸ hu)
    rw [stop_tailId?, if_neg hne]
    exact h.kept u hu
  left u id hid := by
    rw [stop_tailId?] at hid
    split at hid
    · cases hid
    next hne =>
      obtain ⟨hbefore, hwhere⟩ := h.left u id hid
      exact ⟨hbefore, hwhere.imp_right fun hmem => (List.mem_cons.mp hmem).resolve_left hne⟩

/-- A service that runs is looked at. -/
theorem Cleared.skip (h : Cleared p p' running (s :: tailed)) (hs : s ∈ running) : Cleared p p' running tailed where
  kept := h.kept
  left u id hid := by
    obtain ⟨hbefore, hwhere⟩ := h.left u id hid
    refine ⟨hbefore, hwhere.elim .inl fun hmem => ?_⟩
    rcases List.mem_cons.mp hmem with rfl | hmem
    · exact .inl hs
    · exact .inr hmem

theorem Since.stop (h : p.Since p') (hc : Cleared p p' running tailed) (s : String) : p.Since (p'.stop s).2 := by
  have hgrows : p'.Grows (p'.stop s).2 := (Deed.stop s rfl).grows
  refine ⟨h.enlisted.stop s, ?_, fun u id hu hnone => ?_⟩
  · cases hs : p'.tailId? s with
    | none =>
      rw [stop_none hs]
      exact h.issued
    | some id =>
      rw [stop_some hs]
      exact h.issued
  · cases hid : p'.tailId? u with
    | none => exact (h.told u id hu hid).grows hgrows
    | some id' =>
      obtain rfl : u = s := by
        rw [stop_tailId?, hid] at hnone
        by_contra hne
        rw [if_neg hne] at hnone
        cases hnone
      obtain rfl : id = id' := Option.some.inj (hu.symm.trans (hc.left u id' hid).1)
      exact h.enlisted.told_stop hid

/-- When every tail has been looked at, none is left of a service that does not run. -/
theorem Cleared.filled (h : Cleared p p' running []) : Filled p p' running running [] where
  asked := ⟨[], rfl, rfl⟩
  kept s hs id hid := (h.kept s hs).trans hid
  gone s hs := by
    refine Option.eq_none_iff_forall_ne_some.mpr fun id hid => ?_
    exact (h.left s id hid).2.elim hs List.not_mem_nil
  found s id hs hid := nomatch hs.symm.trans (h.left s id hid).1
  started s source hs := by cases hs

/-- A name that is still to be looked at has not been answered for. -/
theorem Filled.unanswered (h : Filled p p' running (s :: rest) answers) (hn : running.Nodup)
    (answer : Except BackendError Source) : (s, answer) ∉ answers := by
  obtain ⟨done, hdone, hasked⟩ := h.asked
  intro hmem
  have hs : s ∈ answers.map Prod.fst := List.mem_map_of_mem hmem
  rw [hasked] at hs
  rw [hdone] at hn
  exact List.disjoint_of_nodup_append hn (List.mem_of_mem_filter hs) List.mem_cons_self

theorem Filled.mem (h : Filled p p' running (s :: rest) answers) : s ∈ running := by
  obtain ⟨done, hdone, -⟩ := h.asked
  simp [hdone]

/-- A service without a tail that is still to be looked at has none yet. -/
theorem Filled.untailed (h : Filled p p' running (s :: rest) answers) (hn : running.Nodup) (hs : p.tailId? s = none) :
    p'.tailId? s = none := by
  cases hid : p'.tailId? s with
  | none => rfl
  | some id =>
    obtain ⟨-, source, hmem, -⟩ := h.found s id hs hid
    exact absurd hmem (h.unanswered hn _)

/-- A service that has its tail is passed over. -/
theorem Filled.skip (h : Filled p p' running (s :: rest) answers) (hn : running.Nodup)
    (ht : p'.isTailing s = true) : Filled p p' running rest answers := by
  have hbefore : p.isTailing s = true := by
    by_contra hb
    have hnone : p.tailId? s = none := by
      cases hid : p.tailId? s with
      | none => rfl
      | some id => exact absurd (isTailing_iff.mpr ⟨id, hid⟩) hb
    rw [isTailing_eq_false (h.untailed hn hnone)] at ht
    cases ht
  obtain ⟨done, hdone, hasked⟩ := h.asked
  exact { h with asked := ⟨done ++ [s], by simp [hdone], by simp [hasked, hbefore]⟩ }

/-- A service without a tail is asked about, whatever the answer is. -/
theorem Filled.answered (h : Filled p p' running (s :: rest) answers) (hs : p.tailId? s = none)
    (answer : Except BackendError Source) : ∃ done, running = done ++ rest ∧
      (answers ++ [(s, answer)]).map Prod.fst = done.filter fun s => !p.isTailing s := by
  obtain ⟨done, hdone, hasked⟩ := h.asked
  exact ⟨done ++ [s], by simp [hdone], by simp [hasked, isTailing_eq_false hs]⟩

/-- A source that is not found leaves everything as it was. -/
theorem Filled.refused (h : Filled p p' running (s :: rest) answers) (hs : p.tailId? s = none) (e : BackendError) :
    Filled p p' running rest (answers ++ [(s, .error e)]) where
  asked := h.answered hs _
  kept := h.kept
  gone := h.gone
  found u id hu hid := by
    obtain ⟨hlt, source, hmem, hcharge⟩ := h.found u id hu hid
    exact ⟨hlt, source, List.mem_append_left _ hmem, hcharge⟩
  started u source hu := by
    rcases List.mem_append.mp hu with hu | hu
    · exact h.started u source hu
    · cases List.mem_singleton.mp hu

/-- A source that is found is tailed under a number that nobody had before. -/
theorem Filled.start (h : Filled p p' running (s :: rest) answers) (hn : running.Nodup) (hs : p.tailId? s = none)
    (hle : p.issued ≤ p'.issued) (source : Source) :
    Filled p (p'.start s source).2 running rest (answers ++ [(s, .ok source)]) := by
  have hnone := h.untailed hn hs
  have hids (u : String) : (p'.start s source).2.tailId? u = if u = s then some (p'.issued + 1) else p'.tailId? u := by
    rw [start_accepted hnone]
    exact Registry.get?_insert s u _ p'.registry
  have hcharges : (p'.start s source).2.tails.map Tail.charge =
      p'.tails.map Tail.charge ++ [(p'.issued + 1, s, source, false)] := by
    rw [start_accepted hnone, List.map_append]
    rfl
  constructor
  case asked => exact h.answered hs _
  case kept =>
    intro u hu id hid
    have hne : u ≠ s := by
      rintro rfl
      exact nomatch hs.symm.trans hid
    rw [hids, if_neg hne]
    exact h.kept u hu id hid
  case gone =>
    intro u hu
    have hne : u ≠ s := fun he => hu (he ▸ h.mem)
    rw [hids, if_neg hne]
    exact h.gone u hu
  case found =>
    intro u id hu hid
    rw [hids] at hid
    rw [hcharges]
    split at hid
    next he =>
      subst he
      obtain rfl := Option.some.inj hid
      exact ⟨Nat.lt_succ_of_le hle, source, List.mem_append_right _ List.mem_cons_self,
        List.mem_append_right _ List.mem_cons_self⟩
    next =>
      obtain ⟨hlt, source', hmem, hcharge⟩ := h.found u id hu hid
      exact ⟨hlt, source', List.mem_append_left _ hmem, List.mem_append_left _ hcharge⟩
  case started =>
    intro u source' hu
    rw [hids]
    by_cases he : u = s
    · exact ⟨_, if_pos he⟩
    · rcases List.mem_append.mp hu with hu | hu
      · rw [if_neg he]
        exact h.started u source' hu
      · exact absurd (congrArg Prod.fst (List.mem_singleton.mp hu)) he

theorem Since.start (h : p.Since p') (s : String) (source : Source) : p.Since (p'.start s source).2 := by
  have hgrows : p'.Grows (p'.start s source).2 := (Deed.start s source rfl).grows
  refine ⟨h.enlisted.start s source, ?_, fun u id hu hnone => ?_⟩
  · have hissued : (p'.start s source).2.issued = p'.issued + 1 := by
      cases hs : p'.tailId? s with
      | none => rw [start_accepted hs]
      | some id => rw [start_refused hs]
    have := h.issued
    omega
  · refine (h.told u id hu ?_).grows hgrows
    cases hs : p'.tailId? s with
    | none =>
      rw [start_accepted hs] at hnone
      have hins := (Registry.get?_insert s u (p'.issued + 1) p'.registry).symm.trans hnone
      split at hins
      · cases hins
      · exact hins
    | some id =>
      rw [start_refused hs] at hnone
      exact hnone

/-- What holds of a reconcile is kept by each of its steps. -/
theorem Stage.step {w : Sweep} (h : Stage p p' running answers w) (hs : p.Since p') (hn : running.Nodup)
    (sourceOf : String → Except BackendError Source) : p.Since (w.step sourceOf p').2 ∧
      Stage p (w.step sourceOf p').2 running (answers ++ w.told sourceOf) (w.step sourceOf p').1 := by
  cases w with
  | clearing looked tailed =>
    obtain ⟨rfl, rfl, hcleared⟩ := h
    cases tailed with
    | nil => exact ⟨hs, hcleared.filled⟩
    | cons s tailed =>
      simp only [Sweep.step]
      split
      next hc => exact ⟨hs, rfl, rfl, hcleared.skip (List.contains_iff_mem.mp hc)⟩
      next hc => exact ⟨hs.stop hcleared s, rfl, rfl, hcleared.stop fun hmem => hc (List.contains_iff_mem.mpr hmem)⟩
  | filling rest =>
    have hfilled : Filled p p' running rest answers := h
    cases rest with
    | nil => exact ⟨hs, (List.append_nil answers).symm ▸ hfilled⟩
    | cons s rest =>
      simp only [Sweep.step, Sweep.told, List.append_nil]
      split
      next ht => exact ⟨hs, hfilled.skip hn ht⟩
      next ht =>
        refine ⟨hs, ?_, hfilled⟩
        refine Option.eq_none_iff_forall_ne_some.mpr fun id hid => ?_
        exact ht (isTailing_iff.mpr ⟨id, hfilled.kept s hfilled.mem id hid⟩)
  | asking s rest =>
    obtain ⟨hnone, hfilled⟩ := h
    simp only [Sweep.step, Sweep.told]
    split
    next source hsource =>
      rw [hsource]
      exact ⟨hs.start s source, hfilled.start hn hnone hs.issued source⟩
    next e hsource =>
      rw [hsource]
      exact ⟨hs, hfilled.refused hnone e⟩
  | _ =>
    have hfilled : Filled p p' running [] answers := h
    exact ⟨hs, (List.append_nil answers).symm ▸ hfilled⟩

/-! ### What a reconcile makes of the tails -/

/-- Something runs under the name. -/
def Runs (services : List Service) (s : String) : Prop := ∃ e ∈ services, e.name = s ∧ e.running = true

/-- What a reconcile makes of the tails, by the services that run and the answers that it got. -/
structure Reconciled (p p' : Pipeline) (services : List Service)
    (answers : List (String × Except BackendError Source)) : Prop where
  /-- Tailed are the services that run and had a tail or have a source. -/
  tailed : ∀ s, (∃ id, p'.tailId? s = some id) ↔
    Runs services s ∧ ((∃ id, p.tailId? s = some id) ∨ ∃ source, (s, .ok source) ∈ answers)
  /-- A service that runs keeps its tail. -/
  kept : ∀ s id, Runs services s → p.tailId? s = some id →
    p'.tailId? s = some id ∧ ∃ t ∈ p'.tails, t.id = id ∧ t.service = s ∧ t.cancelled = false
  /-- The tail of any other is told to stop. -/
  stopped : ∀ s id, ¬Runs services s → p.tailId? s = some id → p'.tailId? s = none ∧ p'.Told id
  /-- A new tail has a number that no tail ever had, and follows the source that was found. -/
  fresh : ∀ s id, p.tailId? s = none → p'.tailId? s = some id → (∀ t ∈ p.tails, t.id ≠ id) ∧
    ∃ t ∈ p'.tails, t.id = id ∧ t.service = s ∧ t.cancelled = false ∧ (s, .ok t.source) ∈ answers
  /-- No two services have one number. -/
  distinct : ∀ s s' id, p'.tailId? s = some id → p'.tailId? s' = some id → s = s'
  /-- Each service that runs without a tail is asked about once, and no other is. -/
  asked : (answers.map Prod.fst).Nodup ∧
    ∀ s, s ∈ answers.map Prod.fst ↔ Runs services s ∧ p.tailId? s = none

theorem Enlisted.service_eq (h : p.Enlisted) {s' : String} (hs : p.tailId? s = some id)
    (hs' : p.tailId? s' = some id) : s = s' := by
  obtain ⟨t, ht, hid, rfl, -⟩ := (h.listed s id).mp hs
  obtain ⟨t', ht', hid', rfl, -⟩ := (h.listed s' id).mp hs'
  rw [h.eq_of_id ht ht' (hid.trans hid'.symm)]

theorem Filled.reconciled {services : List Service} (h : Filled p p' running [] answers) (hs : p.Since p')
    (hp : p.Enlisted) (hn : running.Nodup) (hruns : ∀ s, s ∈ running ↔ Runs services s) :
    p.Reconciled p' services answers := by
  obtain ⟨done, hdone, hasked⟩ := h.asked
  obtain rfl : running = done := by rw [hdone, List.append_nil]
  have hname (s : String) : s ∈ answers.map Prod.fst ↔ Runs services s ∧ p.tailId? s = none := by
    rw [hasked, List.mem_filter, hruns, Bool.not_eq_true', ← Bool.not_eq_true, isTailing_iff, not_exists,
      Option.eq_none_iff_forall_ne_some]
  constructor
  case tailed =>
    intro s
    constructor
    · rintro ⟨id, hid⟩
      have hmem : s ∈ running := by
        by_contra hmem
        exact nomatch hid.symm.trans (h.gone s hmem)
      refine ⟨(hruns s).mp hmem, ?_⟩
      cases hbefore : p.tailId? s with
      | some id' => exact .inl ⟨id', rfl⟩
      | none =>
        obtain ⟨-, source, hsource, -⟩ := h.found s id hbefore hid
        exact .inr ⟨source, hsource⟩
    · rintro ⟨hrun, ⟨id, hid⟩ | ⟨source, hsource⟩⟩
      · exact ⟨id, h.kept s ((hruns s).mpr hrun) id hid⟩
      · exact h.started s source hsource
  case kept =>
    intro s id hrun hid
    have hafter := h.kept s ((hruns s).mpr hrun) id hid
    obtain ⟨t, ht, htid, hservice, hlive⟩ := (hs.enlisted.listed s id).mp hafter
    refine ⟨hafter, t, ht, htid, hservice, ?_⟩
    simp only [Tail.isLive, Bool.and_eq_true, Bool.not_eq_true'] at hlive
    exact hlive.1
  case stopped =>
    intro s id hrun hid
    have hnone := h.gone s fun hmem => hrun ((hruns s).mp hmem)
    exact ⟨hnone, hs.told s id hid hnone⟩
  case fresh =>
    intro s id hnone hid
    obtain ⟨hlt, source, hsource, hcharge⟩ := h.found s id hnone hid
    obtain ⟨t, ht, he⟩ := List.mem_map.mp hcharge
    simp only [Tail.charge, Prod.mk.injEq] at he
    obtain ⟨htid, hservice, hfollows, htold⟩ := he
    refine ⟨fun u hu => Nat.ne_of_lt ((hp.issued u hu).trans_lt hlt), t, ht, htid, hservice, htold, ?_⟩
    rw [hfollows]
    exact hsource
  case distinct => exact fun s s' id hid hid' => hs.enlisted.service_eq hid hid'
  case asked => exact ⟨hasked ▸ hn.filter _, hname⟩

/-! ### Nothing to do -/

/-- Nothing of what a reconcile still looks at makes it do anything. -/
def Content (p : Pipeline) : Sweep → Prop
  | .clearing running tailed => (∀ s ∈ tailed, s ∈ running) ∧ ∀ s ∈ running, p.isTailing s = true
  | .filling rest => ∀ s ∈ rest, p.isTailing s = true
  | .asking .. => False
  | .over => True

theorem Content.rests {w : Sweep} (h : Content p w) (hr : p.Rests p') : Content p' w := by
  have htailing (s : String) : p'.isTailing s = p.isTailing s := by
    rw [isTailing, isTailing, hr.registry]
  cases w with
  | clearing running tailed => exact ⟨h.1, fun s hs => (htailing s).trans (h.2 s hs)⟩
  | filling rest => exact fun s hs => (htailing s).trans (h s hs)
  | asking s rest => exact h
  | _ => exact h

theorem Content.step {w : Sweep} (h : Content p w) (sourceOf : String → Except BackendError Source) :
    (w.step sourceOf p).2 = p ∧ Content p (w.step sourceOf p).1 ∧ w.told sourceOf = [] := by
  cases w with
  | clearing running tailed =>
    cases tailed with
    | nil => exact ⟨rfl, h.2, rfl⟩
    | cons s tailed =>
      obtain ⟨hs, htailed⟩ := List.forall_mem_cons.mp h.1
      exact ⟨if_pos (List.contains_iff_mem.mpr hs), ⟨htailed, h.2⟩, rfl⟩
  | filling rest =>
    cases rest with
    | nil => exact ⟨rfl, trivial, rfl⟩
    | cons s rest =>
      obtain ⟨hs, hrest⟩ := List.forall_mem_cons.mp h
      simp only [Sweep.step, if_pos hs]
      exact ⟨trivial, hrest, rfl⟩
  | asking s rest => exact h.elim
  | _ => exact ⟨rfl, trivial, rfl⟩

/-- A reconcile that finds nothing to do is no change at all. -/
theorem reconcile_content {services : List Service} (h : Content p (.clearing (runningNames services) p.active))
    (sourceOf : String → Except BackendError Source) : p.reconcile sourceOf services = p := by
  obtain ⟨htailed, hrunning⟩ := h
  have hdrop : p.dropStopped (runningNames services) = p := by
    have hnone : (p.active.filter fun name => !(runningNames services).contains name) = [] := by
      refine List.filter_eq_nil_iff.mpr fun s hs => ?_
      rw [List.contains_iff_mem.mpr (htailed s hs)]
      exact Bool.false_ne_true
    rw [dropStopped, hnone]
    rfl
  rw [reconcile, hdrop]
  generalize runningNames services = running at hrunning
  induction running with
  | nil => rfl
  | cons s rest ih =>
    obtain ⟨hs, hrest⟩ := List.forall_mem_cons.mp hrunning
    have hkeep : p.adopt sourceOf s = p := if_pos hs
    rw [List.foldl_cons, hkeep]
    exact ih hrest

/-- Where all have been found, tailed are the services that run. -/
theorem Reconciled.tailed_iff {services : List Service} (h : p.Reconciled p' services answers)
    (hall : ∀ a ∈ answers, ∃ source, a.2 = .ok source) (s : String) :
    p'.isTailing s = true ↔ Runs services s := by
  rw [isTailing_iff, h.tailed]
  refine and_iff_left_of_imp fun hrun => ?_
  cases hid : p.tailId? s with
  | some id => exact .inl ⟨id, rfl⟩
  | none =>
    obtain ⟨a, ha, rfl⟩ := List.mem_map.mp ((h.asked.2 s).mpr ⟨hrun, hid⟩)
    obtain ⟨source, hsource⟩ := hall a ha
    exact .inr ⟨source, hsource ▸ ha⟩

theorem Reconciled.content {services : List Service} (h : p.Reconciled p' services answers)
    (hall : ∀ a ∈ answers, ∃ source, a.2 = .ok source) (hruns : ∀ s, s ∈ running ↔ Runs services s) :
    Content p' (.clearing running p'.active) := by
  refine ⟨fun s hs => ?_, fun s hs => (h.tailed_iff hall s).mpr ((hruns s).mp hs)⟩
  have htailed : p'.isTailing s = true := isTailing_iff.mpr (Registry.mem_names_iff.mp hs)
  exact (hruns s).mpr ((h.tailed_iff hall s).mp htailed)

end Pipeline

namespace Roster

open Pipeline

variable {r r' : Roster} {k n : Nat} {running : List String}
variable {answers : List (String × Except BackendError Source)}

/-- What the next step of a reconcile is told. -/
def told (k : Nat) (sourceOf : String → Except BackendError Source) (r : Roster) :
    List (String × Except BackendError Source) :=
  match r.sweeps[k]? with
  | none => []
  | some w => w.told sourceOf

/-- What may happen while one reconcile is the only call: it takes its steps, `n` so far, each time with what the
backend answers then, and otherwise tails and their reader go on without any tail ending. -/
inductive Course (k : Nat) (r : Roster) : Nat → List (String × Except BackendError Source) → Roster → Prop
  | begin : Course k r 0 [] r
  | own {m : Nat} {as : List (String × Except BackendError Source)} {q : Roster} (h : Course k r m as q)
      (sourceOf : String → Except BackendError Source) :
      Course k r (m + 1) (as ++ q.told k sourceOf) (q.move (.goOn k sourceOf))
  | aside {m : Nat} {as : List (String × Except BackendError Source)} {q : Roster} (h : Course k r m as q) (mv : Move)
      (hmv : mv.isAside = true) (hnone : q.pipeline.NoneEnds (q.move mv).pipeline) : Course k r m as (q.move mv)

theorem goOn_eq {w : Sweep} (h : r.sweeps[k]? = some w) (sourceOf : String → Except BackendError Source) :
    (r.move (.goOn k sourceOf)).pipeline = (w.step sourceOf r.pipeline).2 ∧
      (r.move (.goOn k sourceOf)).sweeps[k]? = some (w.step sourceOf r.pipeline).1 ∧
        r.told k sourceOf = w.told sourceOf := by
  have hlt : k < r.sweeps.length := (List.getElem?_eq_some_iff.mp h).1
  rw [move, told, h]
  exact ⟨rfl, List.getElem?_set_self hlt, rfl⟩

/-- A reconcile gets on with every step, and what holds of it stays. -/
theorem Course.stage (h : Course k r n answers r') (hk : r.sweeps[k]? = some (.clearing running r.pipeline.active))
    (hp : r.pipeline.Enlisted) (hn : running.Nodup) :
    ∃ w, r'.sweeps[k]? = some w ∧ w.left + n ≤ max n (r.pipeline.active.length + 2 * running.length + 2) ∧
      r.pipeline.Since r'.pipeline ∧ Stage r.pipeline r'.pipeline running answers w := by
  induction h with
  | begin =>
    exact ⟨_, hk, Nat.le_max_right _ _, .refl hp, rfl, rfl, cleared_active r.pipeline running⟩
  | @own m as q h sourceOf ih =>
    obtain ⟨w, hw, hleft, hsince, hstage⟩ := ih
    obtain ⟨hpipeline, hsweep, htold⟩ := goOn_eq hw sourceOf
    obtain ⟨hsince', hstage'⟩ := hstage.step hsince hn sourceOf
    have hless := w.left_step sourceOf q.pipeline
    refine ⟨_, hsweep, ?_, ?_, ?_⟩
    · omega
    · rw [hpipeline]
      exact hsince'
    · rw [hpipeline, htold]
      exact hstage'
  | aside h mv hmv hnone ih =>
    obtain ⟨w, hw, hleft, hsince, hstage⟩ := ih
    obtain ⟨hsweeps, hdrift⟩ := move_drift hmv _
    have hrests := hdrift.rests hnone
    exact ⟨w, by rw [hsweeps, hw], hleft, hsince.rests hdrift hrests, hstage.rests hrests⟩

/-- A reconcile that finds nothing to do asks nothing and leaves the tails to themselves. -/
theorem Course.content {w : Sweep} (h : Course k r n answers r') (hk : r.sweeps[k]? = some w)
    (hw : Content r.pipeline w) : answers = [] ∧ r.pipeline.Rests r'.pipeline ∧
      ∃ w', r'.sweeps[k]? = some w' ∧ Content r'.pipeline w' := by
  induction h with
  | begin => exact ⟨rfl, .refl _, w, hk, hw⟩
  | own h sourceOf ih =>
    obtain ⟨rfl, hrests, w', hw', hcontent⟩ := ih
    obtain ⟨hpipeline, hsweep, htold⟩ := goOn_eq hw' sourceOf
    obtain ⟨hsame, hcontent', hsilent⟩ := hcontent.step sourceOf
    rw [hsame] at hpipeline
    rw [htold, hsilent, hpipeline]
    exact ⟨rfl, hrests, _, hsweep, hcontent'⟩
  | aside h mv hmv hnone ih =>
    obtain ⟨rfl, hrests, w', hw', hcontent⟩ := ih
    obtain ⟨hsweeps, hdrift⟩ := move_drift hmv _
    have hrests' := hdrift.rests hnone
    exact ⟨rfl, hrests.trans hrests', w', by rw [hsweeps, hw'], hcontent.rests hrests'⟩

/-- The reconcile that nothing comes between, with a backend that does not change, is one of these courses. -/
theorem exists_course (sourceOf : String → Except BackendError Source) (services : List Service) (p : Pipeline) :
    ∃ n answers, Course 0 ((⟨p, []⟩ : Roster).move (.reconcile (runningNames services))) n answers
      ⟨p.reconcile sourceOf services, [.over]⟩ ∧ ∀ a ∈ answers, a.2 = sourceOf a.1 := by
  have hsteps (r : Roster) (n : Nat) : ∃ answers, Course 0 r n answers (r.run (List.replicate n (.goOn 0 sourceOf))) ∧
      ∀ a ∈ answers, a.2 = sourceOf a.1 := by
    induction n with
    | zero => exact ⟨[], .begin, nofun⟩
    | succ n ih =>
      obtain ⟨answers, hcourse, hanswers⟩ := ih
      refine ⟨answers ++ (r.run (List.replicate n (.goOn 0 sourceOf))).told 0 sourceOf, ?_, ?_⟩
      · rw [List.replicate_succ', run_append]
        exact hcourse.own sourceOf
      · intro a ha
        rcases List.mem_append.mp ha with ha | ha
        · exact hanswers a ha
        · rw [told] at ha
          split at ha
          · cases ha
          next w _ =>
            cases w with
            | asking s rest =>
              obtain rfl := List.mem_singleton.mp ha
              rfl
            | _ => cases ha
  obtain ⟨n, hn⟩ := @reconcile_run sourceOf services p
  obtain ⟨answers, hcourse, hanswers⟩ :=
    hsteps ((⟨p, []⟩ : Roster).move (.reconcile (runningNames services))) n
  exact ⟨n, answers, hn ▸ hcourse, hanswers⟩

/-- Where all the steps of a reconcile have been taken, the tails are those of the services that run. -/
theorem Course.reconciled {services : List Service} (h : Course k r n answers r')
    (hk : r.sweeps[k]? = some (.clearing running r.pipeline.active)) (hp : r.pipeline.Enlisted) (hn : running.Nodup)
    (hruns : ∀ s, s ∈ running ↔ Runs services s) (hover : r'.sweeps[k]? = some .over) :
    r.pipeline.Reconciled r'.pipeline services answers := by
  obtain ⟨w, hw, -, hsince, hstage⟩ := h.stage hk hp hn
  obtain rfl : w = .over := Option.some.inj (hw.symm.trans hover)
  have hfilled : Filled r.pipeline r'.pipeline running [] answers := hstage
  exact hfilled.reconciled hsince hp hn hruns

end Roster

namespace Pipeline

theorem nodup_eraseDups (l : List String) : l.eraseDups.Nodup := by
  induction hn : l.length using Nat.strong_induction_on generalizing l with
  | _ n ih =>
    cases l with
    | nil => exact List.nodup_nil
    | cons s r =>
      rw [List.eraseDups_cons, List.nodup_cons, List.mem_eraseDups]
      refine ⟨by simp, ih _ ?_ _ rfl⟩
      have hle := List.length_filter_le (fun u => !u == s) r
      rw [List.length_cons] at hn
      omega

theorem nodup_runningNames (services : List Service) : (runningNames services).Nodup := nodup_eraseDups _

theorem mem_runningNames {services : List Service} {s : String} : s ∈ runningNames services ↔ Runs services s := by
  simp only [runningNames, List.mem_eraseDups, List.mem_map, List.mem_filter, Runs]
  exact exists_congr fun e => by tauto

end Pipeline

namespace Roster

open Pipeline

/-- A reconcile reaches exactly the services that run. Begun on any tails that calls, tails and other reconciles have
led to, it ends after as many steps as it has names to look at, asks included, whatever order it takes the services
that run in, whatever the backend answers each time, and whatever tails and their reader do meanwhile, as long as no
other call is made and no tail ends. Then tailed are the services that run and had a tail or were found: who had one
and runs keeps it, who does not run has been told to stop, a new tail has a new number, each service that runs without
a tail was asked about once, and an answer decides about its own service alone. When all were found, a second
reconcile with the same services asks nothing and changes nothing. So does the reconcile that runs. -/
theorem reconcile_reaches_running_services (runtime : String) (backlog capacity : Nat) (now : Instant)
    (earlier : List Move) (services : List Service) :
    let r := (start runtime backlog capacity now).run earlier
    let p := r.pipeline
    let k := r.sweeps.length
    (∀ order : List String, order.Nodup → (∀ s, s ∈ order ↔ Runs services s) →
      ∀ n answers r', Course k (r.move (.reconcile order)) n answers r' →
        (p.active.length + 2 * order.length + 2 ≤ n → r'.sweeps[k]? = some .over) ∧
        (r'.sweeps[k]? = some .over → p.Reconciled r'.pipeline services answers ∧
          ((∀ a ∈ answers, ∃ source, a.2 = .ok source) →
            ∀ order' : List String, (∀ s, s ∈ order' ↔ Runs services s) →
              ∀ n' answers' r'', Course r'.sweeps.length (r'.move (.reconcile order')) n' answers' r'' →
                answers' = [] ∧ r'.pipeline.Rests r''.pipeline ∧
                  ∀ sourceOf, (r''.move (.goOn r'.sweeps.length sourceOf)).pipeline = r''.pipeline))) ∧
    ∀ sourceOf, (∃ answers, p.Reconciled (p.reconcile sourceOf services) services answers ∧
        ∀ a ∈ answers, a.2 = sourceOf a.1) ∧
      ((∀ s, Runs services s → ∃ source, sourceOf s = .ok source) →
        ∀ sourceOf', (p.reconcile sourceOf services).reconcile sourceOf' services = p.reconcile sourceOf services) := by
  intro r p k
  have hp : p.Enlisted := run_enlisted (start_enlisted runtime backlog capacity now) earlier
  refine ⟨fun order hn hruns n answers r' hcourse => ?_, fun sourceOf => ?_⟩
  · have hk : (r.move (.reconcile order)).sweeps[k]? = some (.clearing order p.active) := List.getElem?_concat_length
    refine ⟨fun hbound => ?_, fun hover => ?_⟩
    · obtain ⟨w, hw, hleft, -, -⟩ := hcourse.stage hk hp hn
      have hnone : w.left + n ≤ n := hleft.trans (max_eq_left hbound).le
      have hzero : w.left = 0 := by omega
      rw [hw, Sweep.eq_over hzero]
    · have hreconciled := hcourse.reconciled hk hp hn hruns hover
      refine ⟨hreconciled, fun hall order' hruns' n' answers' r'' hcourse' => ?_⟩
      have hk' : (r'.move (.reconcile order')).sweeps[r'.sweeps.length]? =
          some (.clearing order' r'.pipeline.active) := List.getElem?_concat_length
      obtain ⟨hanswers, hrests, w, hw, hcontent⟩ := hcourse'.content hk' (hreconciled.content hall hruns')
      refine ⟨hanswers, hrests, fun sourceOf => ?_⟩
      rw [(goOn_eq hw sourceOf).1, (hcontent.step sourceOf).1]
  · obtain ⟨n, answers, hcourse, hanswers⟩ := exists_course sourceOf services p
    have hreconciled := hcourse.reconciled rfl hp (nodup_runningNames services) (fun _ => mem_runningNames) rfl
    refine ⟨⟨answers, hreconciled, hanswers⟩, fun hfound sourceOf' => ?_⟩
    have hall : ∀ a ∈ answers, ∃ source, a.2 = .ok source := by
      intro a ha
      obtain ⟨hrun, -⟩ := (hreconciled.asked.2 a.1).mp (List.mem_map_of_mem ha)
      rw [hanswers a ha]
      exact hfound a.1 hrun
    exact reconcile_content (hreconciled.content hall fun _ => mem_runningNames) sourceOf'

/-- Of two services that run one keeps its tail and the other gets one; the third does not run, and its tail is told to
stop. Another reconcile asks for nothing. -/
theorem found_service_joins_tails :
    let sourceOf : String → Except BackendError Source := fun s => .ok (.container s)
    let services : List Service := [.plain "db" false, .plain "api" false, .plain "api" true, .plain "cache" true]
    let r := (start "docker" 100 1024 ⟨0, 0⟩).run [.start "api" (.file "api.log"), .start "db" (.file "db.log")]
    let p := r.pipeline.reconcile sourceOf services
    (∃ n answers, Course 0 (r.move (.reconcile (runningNames services))) n answers ⟨p, [.over]⟩) ∧
      p.tailId? "api" = some 1 ∧ (∃ id, p.tailId? "cache" = some id) ∧ p.tailId? "db" = none ∧ p.Told 2 ∧
      p.Rests (((⟨p, [.over]⟩ : Roster).move (.reconcile ["cache", "api"])).move (.goOn 1 sourceOf)).pipeline := by
  intro sourceOf services r p
  have hnames : runningNames services = ["api", "cache"] := by decide +kernel
  have hruns : ∀ s, s ∈ ["cache", "api"] ↔ Runs services s := by
    intro s
    rw [← mem_runningNames, hnames]
    simp only [List.mem_cons, List.not_mem_nil, or_false]
    exact or_comm
  obtain ⟨n, answers, hcourse, hanswers⟩ := exists_course sourceOf services r.pipeline
  have hreached := (reconcile_reaches_running_services "docker" 100 1024 ⟨0, 0⟩
    [.start "api" (.file "api.log"), .start "db" (.file "db.log")] services).1 (runningNames services)
    (nodup_runningNames services) (fun _ => mem_runningNames) n answers ⟨p, [.over]⟩ hcourse
  obtain ⟨hreconciled, hrepeat⟩ := hreached.2 rfl
  have hall : ∀ a ∈ answers, ∃ source, a.2 = .ok source := fun a ha => ⟨_, hanswers a ha⟩
  have hagain := hrepeat hall ["cache", "api"] hruns 1 _ _ (Course.begin.own sourceOf)
  have hcache : ∃ source, ("cache", .ok source) ∈ answers := by
    obtain ⟨⟨_, answer⟩, ha, rfl⟩ := List.mem_map.mp
      ((hreconciled.asked.2 "cache").mpr ⟨(hruns _).mp List.mem_cons_self, by decide +kernel⟩)
    obtain ⟨source, rfl⟩ := hall _ ha
    exact ⟨source, ha⟩
  have hdb : ¬Runs services "db" := fun h => absurd ((hruns _).mpr h) (by decide)
  have hstopped := hreconciled.stopped "db" 2 hdb (by decide +kernel)
  refine ⟨⟨n, answers, hcourse⟩, ?_, ?_, hstopped.1, hstopped.2, hagain.2.1⟩
  · exact (hreconciled.kept "api" 1 ((hruns _).mp (by decide)) (by decide +kernel)).1
  · exact (hreconciled.tailed "cache").mpr ⟨(hruns _).mp List.mem_cons_self, .inr hcache⟩

end Roster

end StackDeck.Log
