import StackDeck.Proofs.Diagnosis.Call
import StackDeck.Proofs.Diagnosis.Episode

/-!
Interrupts and turns. An interrupt is meant for the oldest turn of its session that has not ended; that turn ends
interrupted, and no other one does.
-/

namespace StackDeck.Diagnosis

/-- The script by which the engine of a turn answers its prompt. -/
def Manager.scriptFor? (id : Nat) (m : Manager) : Option (Nat × TurnScript) := do
  let t ← m.turn? id
  let v ← m.session? t.session
  let x ← m.engines[v.engine]?
  return (id, (x.hear t.prompt).1)

namespace Scene

/-- The turn that an interrupt is meant for, as it is when the interrupt comes. -/
def meant (s : Scene) : Move → List Turn
  | .interrupt id =>
    match (s.manager.interrupt id).1 with
    | .ok () => (s.manager.live id).head?.toList
    | .error _ => []
  | _ => []

/-- The scripts by which engines answer the prompts that they are sent in a move. -/
def heard (s : Scene) (mv : Move) : List (Nat × TurnScript) :=
  ((s.move mv).manager.asked.drop s.manager.asked.length).filterMap fun id => s.manager.scriptFor? id

end Scene

/-- The block of a turn that has ended tells what its engine answered, as an interruption if one was meant for it. A
turn for which no engine was asked has nothing to tell. -/
def Turn.Settled (A : List Turn) (H : List (Nat × TurnScript)) (t : Turn) (ns : List TurnNews) : Prop :=
  ∃ (cs : List Chunk) (result : Except TurnError String),
    ns = .started :: cs.map .chunk ++ [(Outcome.ofResult result (decide (t.id ∈ A.map Turn.id))).news] ∧
    ((∃ script, (t.id, script) ∈ H ∧ result = Engine.reply script) ∨
      (∀ script, (t.id, script) ∉ H) ∧ cs = [] ∧ ∃ e, result = .error e)

structure Turn.Fair (A : List Turn) (H : List (Nat × TurnScript)) (v : Session) (ns : List TurnNews) (t : Turn) :
    Prop where
  queued : t.place.isQueued = true → t.cut = false
  asking : t.place.isAsking = true → v.current = some t.id ∧ (t.cut = true ↔ t.id ∈ A.map Turn.id ∨ v.closed = true) ∧
    ∃ script, (t.id, script) ∈ H ∧ t.place.answer? = some (Engine.reply script)
  settled : t.place = .over → ns ≠ [] → t.Settled A H ns

/-- Of the turns of a session that have not ended only the oldest may have been meant by an interrupt, and the session
knows of it. -/
structure Session.Fair (A : List Turn) (H : List (Nat × TurnScript)) (m : Manager) (v : Session) : Prop where
  pending : v.pending = (m.live v.id).length
  flagged : v.interrupted = true → m.live v.id ≠ []
  current : ∀ id, v.current = some id → ∃ t ∈ m.turnsOf v.id, t.id = id ∧ t.place.isQueued = false
  marked : ∀ t ∈ m.live v.id, t.id ∈ A.map Turn.id ↔ v.interrupted = true ∧ (m.live v.id).head? = some t
  turns : ∀ t ∈ m.turnsOf v.id, t.Fair A H v (m.newsOf t)

/-- Interrupts were meant for the turns `A`, and the prompts of turns were answered by the scripts `H`. -/
structure Manager.Attributed (A : List Turn) (H : List (Nat × TurnScript)) (m : Manager) : Prop where
  heard : H.map Prod.fst = m.asked
  reached : ∀ t ∈ A, t.id ∈ m.asked ↔ t.place.isAsking = true
  known : ∀ t ∈ A, t.id < m.turns.length
  sessions : ∀ v ∈ m.sessions, v.Fair A H m

theorem Turn.Fair.congr {A A' : List Turn} {H H' : List (Nat × TurnScript)} {v v' : Session} {t : Turn}
    {ns : List TurnNews} (h : t.Fair A H v ns) (hA : t.id ∈ A'.map Turn.id ↔ t.id ∈ A.map Turn.id)
    (hH : ∀ script, (t.id, script) ∈ H' ↔ (t.id, script) ∈ H) (hc : v'.current = v.current)
    (hcl : v'.closed = v.closed) : t.Fair A' H' v' ns := by
  refine ⟨h.queued, fun hp => ?_, fun hp hn => ?_⟩
  · obtain ⟨hcur, hcut, script, hs, ha⟩ := h.asking hp
    exact ⟨hc.trans hcur, by rw [hcut, hA, hcl], script, (hH script).mpr hs, ha⟩
  · obtain ⟨cs, result, hns, hr⟩ := h.settled hp hn
    refine ⟨cs, result, by rw [hns, decide_eq_decide.mpr hA], ?_⟩
    rcases hr with ⟨script, hs, hr⟩ | ⟨hs, hcs, hr⟩
    · exact .inl ⟨script, (hH script).mpr hs, hr⟩
    · exact .inr ⟨fun script hm => hs script ((hH script).mp hm), hcs, hr⟩

namespace Manager

variable {m m' : Manager} {s v : Session} {t u : Turn} {e : Episode} {B : Nat → List TurnNews}
  {A A' : List Turn} {H H' X : List (Nat × TurnScript)}

theorem mem_live {sid : String} : t ∈ m.live sid ↔ t ∈ m.turnsOf sid ∧ t.place.isOver = false := by
  simp [live]

theorem Named.eq_of_turnsOf (hn : m.Named) {sid : String} (ht : t ∈ m.turnsOf sid) (hu : u ∈ m.turnsOf sid)
    (he : t.id = u.id) : t = u :=
  hn.eq_of_id (mem_turnsOf.mp ht).1 (mem_turnsOf.mp hu).1 he

theorem Sound.nodup_live (h : m.Sound B none) (sid : String) : ((m.live sid).map Turn.id).Nodup :=
  h.named.nodup.sublist ((List.filter_sublist.trans List.filter_sublist).map _)

/-- A turn is told of under names that stay. -/
theorem newsOf_congr {t' : Turn} (h : t'.tag = t.tag) (ht : m'.told t.session = m.told t.session) :
    m'.newsOf t' = m.newsOf t := by
  have hs : t'.session = t.session := congrArg (fun x => x.2.1) h
  have hr : t'.requestId = t.requestId := congrArg (fun x => x.2.2) h
  rw [newsOf, newsOf, hs, hr, ht]

theorem live_map {g : Turn → Turn} {sid : String} (h : m'.turnsOf sid = (m.turnsOf sid).map g)
    (hg : ∀ u ∈ m.turnsOf sid, (g u).place.isOver = u.place.isOver) : m'.live sid = (m.live sid).map g := by
  unfold live
  rw [h, List.filter_map]
  congr 1
  refine List.filter_congr fun u hu => ?_
  simp only [Function.comp_apply, hg u hu]

/-- Where names are told apart, the first one after a change is the first one changed. -/
theorem head?_map_iff {us : List Turn} {g : Turn → Turn} (hg : ∀ t, (g t).id = t.id) (hnd : (us.map Turn.id).Nodup)
    (hu : u ∈ us) : (us.map g).head? = some (g u) ↔ us.head? = some u := by
  rw [List.head?_map]
  refine ⟨fun hh => ?_, fun hh => by rw [hh]; rfl⟩
  obtain ⟨w, hw, hwu⟩ := Option.map_eq_some_iff.mp hh
  have he : w.id = u.id := by rw [← hg w, hwu, hg]
  rw [hw, List.inj_on_of_nodup_map hnd (List.mem_of_head? hw) hu he]

end Manager

section

variable {m m' : Manager} {v : Session} {A A' : List Turn} {H H' : List (Nat × TurnScript)}

open Manager

theorem Session.Fair.frame (h : v.Fair A H m) {v' : Session} (hid : v'.id = v.id)
    (hc : v'.control = v.control) (hcl : v'.closed = v.closed) (hts : m'.turnsOf v.id = m.turnsOf v.id)
    (hnews : ∀ t ∈ m.turnsOf v.id, m'.newsOf t = m.newsOf t)
    (hA : ∀ t ∈ m.turnsOf v.id, t.id ∈ A'.map Turn.id ↔ t.id ∈ A.map Turn.id)
    (hH : ∀ t ∈ m.turnsOf v.id, ∀ script, (t.id, script) ∈ H' ↔ (t.id, script) ∈ H) : v'.Fair A' H' m' := by
  have hp : v'.pending = v.pending := congrArg Control.pending hc
  have hi : v'.interrupted = v.interrupted := congrArg Control.interrupted hc
  have hcur : v'.current = v.current := congrArg Control.current hc
  have hlive : m'.live v'.id = m.live v.id := by
    rw [live, hid, hts, live]
  refine ⟨by rw [hp, hlive, h.pending], by rw [hi, hlive]; exact h.flagged, ?_, ?_, ?_⟩
  · rw [hcur, hid, hts]
    exact h.current
  · rw [hlive, hi]
    intro t ht
    rw [hA t (mem_live.mp ht).1]
    exact h.marked t ht
  · rw [hid, hts]
    intro t ht
    rw [hnews t ht]
    exact (h.turns t ht).congr (hA t ht) (hH t ht) hcur hcl

end

namespace Manager

variable {m m' : Manager} {s v : Session} {t u : Turn} {e : Episode} {B : Nat → List TurnNews}
  {A A' : List Turn} {H H' X : List (Nat × TurnScript)}

/-! ### A turn goes on -/

/-- What a turn tells in an episode is told of this turn alone. -/
theorem Plays.newsOf (h : Plays s t e m m') (hn : m.Named) (ht : t ∈ m.turns) (hst : s.id = t.session)
    (hu : u ∈ m.turns) : m'.newsOf u = m.newsOf u ++ if u.id = t.id then e.news else [] := by
  have htold : m'.told u.session = m.told u.session ++ (e.news.map (Notice.turn (names s t))).filterMap
      (Notice.of? u.session) := by
    rw [Manager.told, h.notices, List.filterMap_append]
    rfl
  unfold Manager.newsOf
  rw [htold, List.filterMap_append, List.filterMap_map]
  by_cases he : u.id = t.id
  · have hut := hn.eq_of_id hu ht he
    subst hut
    have hown : (Notice.of? u.session ∘ Notice.turn (names s u)) = fun n => some (u.requestId, n) := by
      funext n
      simp [Notice.of?, names, hst]
    rw [hown, if_pos rfl, List.filterMap_filterMap]
    simp
  · rw [if_neg he]
    congr 1
    refine List.filterMap_eq_nil_iff.mpr fun x hx => ?_
    obtain ⟨n, hn', hx⟩ := List.mem_filterMap.mp hx
    simp only [Function.comp_apply, Notice.of?, names] at hx
    split at hx
    next hsu =>
      cases Option.some.inj hx
      rw [if_neg]
      intro hr
      exact he (congrArg Turn.id (List.inj_on_of_nodup_map hn.nodup_requests hu ht hr.symm))
    next => cases hx

/-- What an episode has to answer for. -/
structure Honest (A : List Turn) (H X : List (Nat × TurnScript)) (m : Manager) (s : Session) (t : Turn) (e : Episode)
    (p : TurnPlace) : Prop where
  place : e.place = some p
  alive : t.place.isOver = false
  begun : t.place.isQueued = false → p.isQueued = false
  first : p.isQueued = false → (m.live s.id).head? = some t
  pending : (e.control s.control).pending = if p.isOver then s.pending - 1 else s.pending
  interrupted : (e.control s.control).interrupted = (s.interrupted && !p.isOver)
  current : (e.control s.control).current = s.current ∨
    (e.control s.control).current = some t.id ∧ p.isQueued = false
  asked : X.map Prod.fst = e.asked
  own : ∀ x ∈ X, x.1 = t.id ∧ t.id ∉ A.map Turn.id
  turn : ∀ v, v.current = (e.control s.control).current → v.closed = s.closed →
    (t.moved e.place).Fair A (H ++ X) v (m.newsOf t ++ e.news)

/-- Of the other turns at most one that waited is given the lock, and it is of the same session. -/
theorem Plays.others (hp : Plays s t e m m') (h : m.Sound B none) (hs : s ∈ m.sessions) :
    ∃ g, m'.turns = m.turns.map g ∧ (∀ u, (g u).tag = u.tag) ∧ (∀ u, u.id = t.id → g u = u.moved e.place) ∧
      ∀ u ∈ m.turns, u.id ≠ t.id →
        g u = u ∨ (u.session = s.id ∧ u.place = .waiting ∧ g u = { u with place := .granted }) := by
  obtain ⟨g, hg, hself, hother⟩ := hp.turns
  refine ⟨g, hg, fun u => ?_, hself, fun u hu hne => ?_⟩
  · by_cases hu : u.id = t.id
    · rw [hself u hu]
      cases e.place <;> rfl
    · rcases hother u hu with hgu | ⟨_, hgu⟩
      · rw [hgu]
      · rw [hgu]
        rfl
  · rcases hother u hne with hgu | ⟨hw, hgu⟩
    · exact .inl hgu
    · obtain ⟨w, hwm, hwu, hws, hwp⟩ := h.waiter hs hw
      rw [← h.named.eq_of_id hwm hu hwu]
      rw [← h.named.eq_of_id hwm hu hwu] at hgu
      exact .inr ⟨hws, hwp, hgu⟩

theorem Honest.frame {p : TurnPlace} (o : Honest A H X m s t e p) (h : m.Sound B none) (hs : s ∈ m.sessions)
    (ht : t ∈ m.turns) (hst : s.id = t.session) (hp : Plays s t e m m') (hne : v.id ≠ s.id) (f : v.Fair A H m) :
    v.Fair A (H ++ X) m' := by
  obtain ⟨g, hg, htag, -, hother⟩ := hp.others h hs
  have apart {u : Turn} (hu : u ∈ m.turnsOf v.id) : u.id ≠ t.id := by
    obtain ⟨hm, hus⟩ := mem_turnsOf.mp hu
    exact h.named.id_ne ht hm (by rw [hus, ← hst]; exact hne)
  have hts : m'.turnsOf v.id = m.turnsOf v.id := by
    rw [turnsOf_map hg htag]
    conv_rhs => rw [← List.map_id' (m.turnsOf v.id)]
    refine List.map_congr_left fun u hu => ?_
    obtain ⟨hm, hus⟩ := mem_turnsOf.mp hu
    exact (hother u hm (apart hu)).resolve_right fun hw => hne (hus.symm.trans hw.1)
  refine f.frame rfl rfl rfl hts ?_ (fun _ _ => Iff.rfl) ?_
  · intro u hu
    rw [hp.newsOf h.named ht hst (mem_turnsOf.mp hu).1, if_neg (apart hu), List.append_nil]
  · intro u hu script
    refine ⟨fun hm => (List.mem_append.mp hm).resolve_right fun hx => ?_, List.mem_append_left X⟩
    exact apart hu (o.own _ hx).1

section own

variable {p : TurnPlace} {g : Turn → Turn}

/-- The turns of the session that have not ended, after the episode of one of them. -/
theorem Honest.live (o : Honest A H X m s t e p) (h : m.Sound B none) (ht : t ∈ m.turns) (hst : s.id = t.session)
    (hself : ∀ u, u.id = t.id → g u = u.moved e.place)
    (hother : ∀ u ∈ m.turns, u.id ≠ t.id →
      g u = u ∨ (u.session = s.id ∧ u.place = .waiting ∧ g u = { u with place := .granted }))
    (hts : m'.turnsOf s.id = (m.turnsOf s.id).map g) :
    if p.isOver then ∃ rest, m.live s.id = t :: rest ∧ m'.live s.id = rest.map g
    else m'.live s.id = (m.live s.id).map g := by
  have gself : (g t).place = p := by
    rw [hself t rfl, o.place]
    rfl
  have gother {u : Turn} (hu : u ∈ m.turnsOf s.id) (hne : u.id ≠ t.id) : (g u).place.isOver = u.place.isOver := by
    rcases hother u (mem_turnsOf.mp hu).1 hne with hgu | ⟨-, hw, hgu⟩
    · rw [hgu]
    · rw [hgu, hw]
      rfl
  have hmem : t ∈ m.turnsOf s.id := mem_turnsOf.mpr ⟨ht, hst.symm⟩
  cases hpo : p.isOver with
  | false =>
    refine live_map hts fun u hu => ?_
    by_cases hne : u.id = t.id
    · rw [h.named.eq_of_turnsOf hu hmem hne, gself, hpo, o.alive]
    · exact gother hu hne
  | true =>
    have hq : p.isQueued = false := by
      rw [TurnPlace.isOver_iff] at hpo
      rw [hpo]
      rfl
    obtain ⟨rest, hrest⟩ := List.head?_eq_some_iff.mp (o.first hq)
    refine ⟨rest, hrest, ?_⟩
    have hnd := h.nodup_live s.id
    rw [hrest, List.map_cons, List.nodup_cons] at hnd
    have hfilter : (m.turnsOf s.id).filter (fun u => !(g u).place.isOver) =
        (m.live s.id).filter fun u => u.id ≠ t.id := by
      rw [Manager.live, List.filter_filter]
      refine List.filter_congr fun u hu => ?_
      by_cases hne : u.id = t.id
      · rw [h.named.eq_of_turnsOf hu hmem hne, gself, hpo]
        simp
      · rw [gother hu hne]
        simp [hne]
    have hrest' : (m.live s.id).filter (fun u => decide (u.id ≠ t.id)) = rest := by
      rw [hrest, List.filter_cons_of_neg (by simp)]
      refine List.filter_eq_self.mpr fun u hu => ?_
      have hne : u.id ≠ t.id := fun he => hnd.1 (he ▸ List.mem_map_of_mem hu)
      simpa using hne
    have hmap : m'.live s.id = ((m.turnsOf s.id).filter fun u => !(g u).place.isOver).map g := by
      rw [Manager.live, hts, List.filter_map]
      rfl
    rw [hmap, hfilter, hrest']

/-- The turn that an interrupt was meant for stays the oldest one until it ends. -/
theorem Sound.marked_after (h : m.Sound B none) (f : s.Fair A H m) (htag : ∀ u, (g u).tag = u.tag) {flag : Bool}
    (hint : flag = (s.interrupted && !p.isOver))
    (hlive : if p.isOver then ∃ rest, m.live s.id = t :: rest ∧ m'.live s.id = rest.map g
      else m'.live s.id = (m.live s.id).map g) :
    ∀ w ∈ m'.live s.id, w.id ∈ A.map Turn.id ↔ flag = true ∧ (m'.live s.id).head? = some w := by
  have gid (u : Turn) : (g u).id = u.id := congrArg Prod.fst (htag u)
  have hnd := h.nodup_live s.id
  intro w hw
  cases hpo : p.isOver with
  | true =>
    rw [hpo] at hlive hint
    obtain ⟨rest, hl, hl'⟩ := hlive
    rw [hl'] at hw
    obtain ⟨u, hu, rfl⟩ := List.mem_map.mp hw
    have hm := f.marked u (by rw [hl]; exact List.mem_cons_of_mem t hu)
    rw [hl, List.map_cons, List.nodup_cons] at hnd
    rw [gid, hm, hint, hl]
    refine iff_of_false (fun hh => ?_) (by simp)
    have hut : t = u := Option.some.inj hh.2
    exact hnd.1 (hut ▸ List.mem_map_of_mem hu)
  | false =>
    rw [hpo, Bool.not_false, Bool.and_true] at hint
    rw [hpo] at hlive
    have hl : m'.live s.id = (m.live s.id).map g := hlive
    rw [hl] at hw ⊢
    obtain ⟨u, hu, rfl⟩ := List.mem_map.mp hw
    rw [gid, f.marked u hu, hint, head?_map_iff gid hnd hu]

theorem length_live_after (hlive : if p.isOver then ∃ rest, m.live s.id = t :: rest ∧ m'.live s.id = rest.map g
      else m'.live s.id = (m.live s.id).map g) :
    (m'.live s.id).length = if p.isOver then (m.live s.id).length - 1 else (m.live s.id).length := by
  cases hpo : p.isOver with
  | true =>
    rw [hpo] at hlive
    obtain ⟨rest, hl, hl'⟩ := hlive
    rw [hl, hl', List.length_map]
    rfl
  | false =>
    rw [hpo] at hlive
    have hl : m'.live s.id = (m.live s.id).map g := hlive
    rw [hl, List.length_map]
    rfl

/-- The token of the session still belongs to a turn that has begun. -/
theorem Honest.current_after (o : Honest A H X m s t e p) (h : m.Sound B none) (f : s.Fair A H m)
    (hmem : t ∈ m.turnsOf s.id) (gid : ∀ u, (g u).id = u.id) (hself : ∀ u, u.id = t.id → g u = u.moved e.place)
    (hother : ∀ u ∈ m.turns, u.id ≠ t.id →
      g u = u ∨ (u.session = s.id ∧ u.place = .waiting ∧ g u = { u with place := .granted }))
    {id : Nat} (hc : (e.control s.control).current = some id) :
    ∃ w ∈ (m.turnsOf s.id).map g, w.id = id ∧ w.place.isQueued = false := by
  have gself : (g t).place = p := by
    rw [hself t rfl, o.place]
    rfl
  rcases o.current with hsame | ⟨harm, hq⟩
  · obtain ⟨w, hw, rfl, hwq⟩ := f.current id (hsame.symm.trans hc)
    refine ⟨g w, List.mem_map_of_mem hw, gid w, ?_⟩
    by_cases hne : w.id = t.id
    · rw [h.named.eq_of_turnsOf hw hmem hne] at hwq ⊢
      rw [gself]
      exact o.begun hwq
    · rcases hother w (mem_turnsOf.mp hw).1 hne with hgw | ⟨-, hwp, -⟩
      · rw [hgw, hwq]
      · rw [hwp] at hwq
        cases hwq
  · have he : t.id = id := Option.some.inj (harm.symm.trans hc)
    exact ⟨g t, List.mem_map_of_mem hmem, (gid t).trans he, gself ▸ hq⟩

/-- Another turn of the session is told of as before. -/
theorem Honest.other_after (o : Honest A H X m s t e p) (h : m.Sound B none) (hu : u ∈ m.turnsOf s.id)
    (hne : u.id ≠ t.id) (fu : u.Fair A H s (m.newsOf u)) (hcur : v.current = (e.control s.control).current)
    (hcl : v.closed = s.closed) : u.Fair A (H ++ X) v (m.newsOf u) := by
  obtain ⟨hum, hus⟩ := mem_turnsOf.mp hu
  have hH (script : TurnScript) : (u.id, script) ∈ H ++ X ↔ (u.id, script) ∈ H :=
    ⟨fun hm => (List.mem_append.mp hm).resolve_right fun hx => hne (o.own _ hx).1, List.mem_append_left X⟩
  -- Only a turn that gets in line leaves another one to its engine.
  cases hq : p.isQueued with
  | true =>
    have hsame := o.current.resolve_right fun hh => by simp [hq] at hh
    exact fu.congr Iff.rfl hH (hcur.trans hsame) hcl
  | false =>
    have hidle : u.place.isAsking = true → False := by
      intro ha
      have hfirst := h.active_first hum (isActive_of_isAsking ha)
      rw [hus, o.first hq] at hfirst
      exact hne (congrArg Turn.id (Option.some.inj hfirst).symm)
    have hcongr : u.Fair A (H ++ X) s (m.newsOf u) := fu.congr Iff.rfl hH rfl rfl
    exact ⟨hcongr.queued, fun ha => (hidle ha).elim, hcongr.settled⟩

end own

theorem Honest.fair {p : TurnPlace} (o : Honest A H X m s t e p) (h : m.Sound B none) (hs : s ∈ m.sessions)
    (ht : t ∈ m.turns) (hst : s.id = t.session) (hp : Plays s t e m m') (f : s.Fair A H m) (hid : v.id = s.id)
    (hc : v.control = e.control s.control) (hcl : v.closed = s.closed) : v.Fair A (H ++ X) m' := by
  obtain ⟨g, hg, htag, hself, hother⟩ := hp.others h hs
  have gid (u : Turn) : (g u).id = u.id := congrArg Prod.fst (htag u)
  have hts := turnsOf_map hg htag s.id
  have hlive := o.live h ht hst hself hother hts
  have hmem : t ∈ m.turnsOf s.id := mem_turnsOf.mpr ⟨ht, hst.symm⟩
  have hpend : v.pending = _ := (congrArg Control.pending hc).trans o.pending
  have hint : v.interrupted = _ := (congrArg Control.interrupted hc).trans o.interrupted
  have hcur : v.current = _ := congrArg Control.current hc
  refine ⟨?_, ?_, ?_, ?_, ?_⟩
  · rw [hid, hpend, f.pending, length_live_after hlive]
  · rw [hint, hid]
    intro hi hnone
    simp only [Bool.and_eq_true, Bool.not_eq_true'] at hi
    rw [hi.2] at hlive
    have hl : m'.live s.id = (m.live s.id).map g := hlive
    rw [hl] at hnone
    exact f.flagged hi.1 (List.map_eq_nil_iff.mp hnone)
  · rw [hid, hts]
    exact fun id hv => o.current_after h f hmem gid hself hother (hcur.symm.trans hv)
  · rw [hid]
    exact h.marked_after f htag hint hlive
  · rw [hid, hts]
    intro w hw
    obtain ⟨u, hu, rfl⟩ := List.mem_map.mp hw
    have hum := (mem_turnsOf.mp hu).1
    have fu := f.turns u hu
    rw [newsOf_congr (m := m') (htag u) rfl, hp.newsOf h.named ht hst hum]
    by_cases hne : u.id = t.id
    · rw [h.named.eq_of_turnsOf hu hmem hne, if_pos rfl, hself t rfl]
      exact o.turn v hcur hcl
    · rw [if_neg hne, List.append_nil]
      rcases hother u hum hne with hgu | ⟨-, hwp, hgu⟩
      · rw [hgu]
        exact o.other_after h hu hne fu hcur hcl
      · rw [hgu]
        exact ⟨fun _ => fu.queued (by rw [hwp]; rfl), nofun, nofun⟩

theorem Honest.attributed {p : TurnPlace} (o : Honest A H X m s t e p) (h : m.Sound B none) (hs : s ∈ m.sessions)
    (ht : t ∈ m.turns) (hst : s.id = t.session) (hp : Plays s t e m m') (a : m.Attributed A H) :
    m'.Attributed A (H ++ X) := by
  obtain ⟨k, hk, hkv⟩ := hp.sessions
  refine ⟨by rw [List.map_append, a.heard, o.asked, hp.asked], ?_, ?_, ?_⟩
  · intro t₀ ht₀
    rw [hp.asked, List.mem_append, ← a.reached t₀ ht₀]
    refine or_iff_left fun hx => ?_
    rw [← o.asked] at hx
    obtain ⟨x, hx, he⟩ := List.mem_map.mp hx
    obtain ⟨hxt, hno⟩ := o.own x hx
    exact hno (hxt ▸ he ▸ List.mem_map_of_mem ht₀)
  · intro t₀ ht₀
    obtain ⟨g, hg, -⟩ := hp.turns
    rw [hg, List.length_map]
    exact a.known t₀ ht₀
  · intro v hv
    rw [hk] at hv
    obtain ⟨w, hw, rfl⟩ := List.mem_map.mp hv
    by_cases hws : w.id = s.id
    · rw [Session.changed_self hws, h.named.session_eq hw hs hws]
      obtain ⟨hface, hcontrol⟩ := hkv s
      have hid := congrArg Session.id hface
      have hcl := congrArg Session.closed hface
      exact o.fair h hs ht hst hp (a.sessions s hs) hid hcontrol hcl
    · rw [Session.changed_other hws]
      exact o.frame h hs ht hst hp hws (a.sessions w hw)

/-! ### Every episode is honest -/

/-- Whether an interrupt was meant for the oldest turn shows in its session. -/
theorem meant_first (f : s.Fair A H m) (hf : (m.live s.id).head? = some t) :
    decide (t.id ∈ A.map Turn.id) = s.interrupted := by
  have hm := f.marked t (List.mem_of_head? hf)
  cases hi : s.interrupted with
  | true => exact decide_eq_true (hm.mpr ⟨hi, hf⟩)
  | false => exact decide_eq_false fun hh => by simp [(hm.mp hh).1] at hi

theorem Sound.untold (h : m.Sound B none) (ht : t ∈ m.turns) (hp : t.place.isQueued = true) : m.newsOf t = [] := by
  have htells := h.tells t ht nofun
  rw [h.newsOf_eq ht]
  revert hp htells
  cases t.place <;> simp [TurnPlace.isQueued, TurnPlace.Tells]

theorem Sound.unasked (h : m.Sound B none) (a : m.Attributed A H) (ht : t ∈ m.turns) (hp : t.place.isQueued = true)
    (script : TurnScript) : (t.id, script) ∉ H := by
  intro hm
  have hasked : t.id ∈ m.asked := a.heard ▸ List.mem_map_of_mem (f := Prod.fst) hm
  have hnone := h.untold ht hp
  rw [h.newsOf_eq ht] at hnone
  exact (h.asked t.id hasked).2 hnone

theorem Sound.underway (h : m.Sound B none) (ht : t ∈ m.turns) (hp : t.place.isAsking = true) :
    ∃ cs : List Chunk, m.newsOf t = .started :: cs.map .chunk := by
  have htells := h.tells t ht nofun
  rw [h.newsOf_eq ht]
  revert hp htells
  cases t.place with
  | sleeping due n rest => exact fun _ ⟨cs, hb, _⟩ => ⟨cs, hb⟩
  | listening n rest => exact fun _ ⟨cs, hb, _⟩ => ⟨cs, hb⟩
  | _ => simp [TurnPlace.isAsking]

theorem Sound.scriptFor?_eq (h : m.Sound B none) (hs : s ∈ m.sessions) (ht : t ∈ m.turns) (hst : s.id = t.session)
    {x : Engine} (hx : m.engines[s.engine]? = some x) : m.scriptFor? t.id = some (t.id, (x.hear t.prompt).1) := by
  have hsm : m.session? t.session = some s := hst ▸ find?_key h.named.nodup_sessions hs
  simp [scriptFor?, h.named.turn?_of_mem ht, hsm, hx]

theorem isQueued_of_answer {p : TurnPlace} {r : Except TurnError String} (h : p.answer? = some r) :
    p.isQueued = false ∧ p.isOver = false := by
  cases p <;> simp_all [TurnPlace.answer?, TurnPlace.isQueued, TurnPlace.isOver]

theorem isOver_of_isQueued {p : TurnPlace} (h : p.isQueued = true) : p.isOver = false := by
  cases p <;> simp_all [TurnPlace.isQueued, TurnPlace.isOver]

theorem isAsking_of_isQueued {p : TurnPlace} (h : p.isQueued = true) : p.isAsking = false := by
  cases p <;> simp_all [TurnPlace.isQueued, TurnPlace.isAsking]

/-- The block of the oldest turn, told to its end. -/
theorem settled_first (f : s.Fair A H m) (hf : (m.live s.id).head? = some t) (cs : List Chunk)
    (result : Except TurnError String) (H' : List (Nat × TurnScript))
    (hr : (∃ script, (t.id, script) ∈ H' ∧ result = Engine.reply script) ∨
      (∀ script, (t.id, script) ∉ H') ∧ cs = [] ∧ ∃ e, result = .error e) :
    (t.moved (some .over)).Settled A H'
      (.started :: cs.map .chunk ++ [(Outcome.ofResult result s.interrupted).news]) := by
  have hid : (t.moved (some .over)).id = t.id := rfl
  unfold Turn.Settled
  rw [hid, meant_first f hf]
  exact ⟨cs, result, rfl, hr⟩

/-- An episode that ends a turn. -/
theorem Honest.of_ends (hp : e.place = some .over) (ha : t.place.isOver = false) (hf : (m.live s.id).head? = some t)
    (hc : e.control = Control.endTurn ∨ e.control = Control.endTurn ∘ Control.count ∨
      e.control = Control.endTurn ∘ Control.arm t.id ∘ Control.count)
    (hx : X.map Prod.fst = e.asked) (hown : ∀ x ∈ X, x.1 = t.id ∧ t.id ∉ A.map Turn.id)
    (hs : m.newsOf t ++ e.news ≠ [] → (t.moved e.place).Settled A (H ++ X) (m.newsOf t ++ e.news)) :
    Honest A H X m s t e .over := by
  have hturn : (t.moved e.place).place = .over := by
    rw [hp]
    rfl
  refine ⟨hp, ha, fun _ => rfl, fun _ => hf, ?_, ?_, ?_, hx, hown, fun v _ _ => ⟨?_, ?_, fun _ => hs⟩⟩
  · rcases hc with hc | hc | hc <;> rw [hc] <;> rfl
  · rcases hc with hc | hc | hc <;> rw [hc] <;> exact (Bool.and_false _).symm
  · rcases hc with hc | hc | hc <;> rw [hc]
    · exact .inl rfl
    · exact .inl rfl
    · exact .inr ⟨rfl, rfl⟩
  · rw [hturn]
    nofun
  · rw [hturn]
    nofun

/-- An episode after which the engine still answers. -/
theorem Honest.of_answers {r : Except TurnError String} (hp : e.place = some p) (hr : p.answer? = some r)
    (ha : t.place.isOver = false) (hf : (m.live s.id).head? = some t)
    (hc : e.control = id ∨ e.control = Control.arm t.id ∘ Control.count)
    (hx : X.map Prod.fst = e.asked) (hown : ∀ x ∈ X, x.1 = t.id ∧ t.id ∉ A.map Turn.id)
    (hcur : (e.control s.control).current = some t.id) (hcut : t.cut = true ↔ t.id ∈ A.map Turn.id ∨ s.closed = true)
    (hs : ∃ script, (t.id, script) ∈ H ++ X ∧ r = Engine.reply script) : Honest A H X m s t e p := by
  obtain ⟨hpq, hpo⟩ := isQueued_of_answer hr
  have hturn : (t.moved e.place).place = p := by
    rw [hp]
    rfl
  have hsame : (t.moved e.place).id = t.id ∧ (t.moved e.place).cut = t.cut := by
    rw [hp]
    exact ⟨rfl, rfl⟩
  refine ⟨hp, ha, fun _ => hpq, fun _ => hf, ?_, ?_, .inr ⟨hcur, hpq⟩, hx, hown, fun v hv hcl => ⟨?_, ?_, ?_⟩⟩
  · rw [hpo]
    rcases hc with hc | hc <;> rw [hc] <;> rfl
  · rw [hpo]
    rcases hc with hc | hc <;> rw [hc] <;> exact (Bool.and_true _).symm
  · rw [hturn, hpq]
    nofun
  · obtain ⟨script, hm, he⟩ := hs
    rw [hturn, hsame.1, hsame.2, hcl]
    exact fun _ => ⟨hv.trans hcur, hcut, script, hm, he ▸ hr⟩
  · rw [hturn]
    intro hh
    rw [hh] at hpo
    cases hpo

theorem Sound.honest (h : m.Sound B none) (a : m.Attributed A H) (hs : s ∈ m.sessions) (ht : t ∈ m.turns)
    (hst : s.id = t.session) (o : Onward m.engines[s.engine]? s t e)
    (hf : e.place = some .waiting ∨ (m.live s.id).head? = some t) :
    ∃ p, Honest A H (e.asked.filterMap fun id => m.scriptFor? id) m s t e p := by
  have f := a.sessions s hs
  have ft := f.turns t (mem_turnsOf.mpr ⟨ht, hst.symm⟩)
  -- Before a turn began nothing was told of it and no engine asked for it.
  have fresh (hp : t.place.isQueued = true) : m.newsOf t = [] ∧ ∀ script, (t.id, script) ∉ H ++ [] := by
    rw [List.append_nil]
    exact ⟨h.untold ht hp, h.unasked a ht hp⟩
  have unmeant (hfirst : (m.live s.id).head? = some t) (hi : s.interrupted = false) : t.id ∉ A.map Turn.id := by
    have hm := meant_first f hfirst
    rw [hi] at hm
    exact of_decide_eq_false hm
  have heard {x : Engine} (hx : m.engines[s.engine]? = some x) :
      [t.id].filterMap (fun id => m.scriptFor? id) = [(t.id, (x.hear t.prompt).1)] := by
    rw [List.filterMap_cons, h.scriptFor?_eq hs ht hst hx]
    rfl
  have unanswered (err : TurnError) (hp : t.place.isQueued = true) (hfirst : (m.live s.id).head? = some t) :
      (t.moved (some .over)).Settled A (H ++ [])
        (m.newsOf t ++ [.started, (Outcome.ofResult (.error err) s.interrupted).news]) := by
    rw [(fresh hp).1]
    exact settled_first f hfirst [] (.error err) (H ++ []) (.inr ⟨(fresh hp).2, rfl, _, rfl⟩)
  cases o with
  | wait hp =>
    have hq : t.place.isQueued = true := by
      rw [hp]
      rfl
    exact ⟨.waiting, rfl, isOver_of_isQueued hq, by simp [hq], nofun, rfl, (Bool.and_true _).symm, .inl rfl, rfl, nofun,
      fun v _ _ => ⟨fun _ => ft.queued hq, nofun, nofun⟩⟩
  | skip hp hc =>
    refine ⟨_, .of_ends rfl (isOver_of_isQueued hp) (hf.resolve_left nofun) (.inl rfl) rfl nofun fun hn => ?_⟩
    exact absurd (by rw [(fresh hp).1]; rfl) hn
  | refuse hp hc hi =>
    have hfirst := hf.resolve_left nofun
    refine ⟨_, .of_ends rfl (isOver_of_isQueued hp) hfirst (.inr (.inl rfl)) rfl nofun fun _ => ?_⟩
    have hset := unanswered .cancelled hp hfirst
    rw [hi] at hset
    exact hset
  | miss hp hc hi hx =>
    have hfirst := hf.resolve_left nofun
    refine ⟨_, .of_ends rfl (isOver_of_isQueued hp) hfirst (.inr (.inr rfl)) rfl nofun fun _ => ?_⟩
    have hset := unanswered .streamClosed hp hfirst
    rw [hi] at hset
    exact hset
  | @ask hp hc hi x hx p cs ha =>
    have hfirst := hf.resolve_left (by rintro he; cases Option.some.inj he; cases ha)
    have hnew := unmeant hfirst hi
    have hcut : t.cut = false := ft.queued hp
    rw [heard hx]
    refine ⟨p, .of_answers rfl ha (isOver_of_isQueued hp) hfirst (.inr rfl) rfl ?_ rfl ?_ ?_⟩
    · intro y hy
      rw [List.mem_singleton.mp hy]
      exact ⟨rfl, hnew⟩
    · rw [hcut, hc]
      simp [hnew]
    · exact ⟨_, List.mem_append_right H (List.mem_singleton_self _), rfl⟩
  | @reply hp hc hi x hx cs =>
    have hfirst := hf.resolve_left nofun
    rw [heard hx]
    refine ⟨_, .of_ends rfl (isOver_of_isQueued hp) hfirst (.inr (.inr rfl)) rfl ?_ fun _ => ?_⟩
    · intro y hy
      rw [List.mem_singleton.mp hy]
      exact ⟨rfl, unmeant hfirst hi⟩
    · have hset := settled_first f hfirst cs _ (H ++ [(t.id, (x.hear t.prompt).1)])
        (.inl ⟨_, List.mem_append_right H (List.mem_singleton_self _), rfl⟩)
      rw [hi] at hset
      rw [(fresh hp).1]
      exact hset
  | @resume r hp p cs ha =>
    have hfirst := hf.resolve_left (by rintro he; cases Option.some.inj he; cases ha)
    obtain ⟨hcur, hcut, script, hm, hans⟩ := ft.asking (TurnPlace.isAsking_of_answer hp)
    have hr : r = Engine.reply script := Option.some.inj (hp.symm.trans hans)
    exact ⟨p, .of_answers rfl ha (isQueued_of_answer hp).2 hfirst (.inl rfl) rfl nofun hcur hcut
      ⟨script, List.mem_append_left [] hm, hr⟩⟩
  | @finish r hp cs =>
    have hfirst := hf.resolve_left nofun
    obtain ⟨-, -, script, hm, hans⟩ := ft.asking (TurnPlace.isAsking_of_answer hp)
    obtain ⟨ds, hds⟩ := h.underway ht (TurnPlace.isAsking_of_answer hp)
    refine ⟨_, .of_ends rfl (isQueued_of_answer hp).2 hfirst (.inl rfl) rfl nofun fun _ => ?_⟩
    have hr : r = Engine.reply script := Option.some.inj (hp.symm.trans hans)
    have hset := settled_first f hfirst (ds ++ cs) r (H ++ [])
      (.inl ⟨script, List.mem_append_left [] hm, hr⟩)
    rw [List.map_append, ← List.cons_append, List.append_assoc] at hset
    rw [hds]
    exact hset

theorem Attributed.of_same (a : m.Attributed A H) (ht : m'.turns = m.turns) (hs : m'.sessions = m.sessions)
    (ha : m'.asked = m.asked) (hn : ∀ sid, m'.told sid = m.told sid) : m'.Attributed A H := by
  refine ⟨by rw [ha, a.heard], by rw [ha]; exact a.reached, by rw [ht]; exact a.known, ?_⟩
  intro v hv
  rw [hs] at hv
  refine (a.sessions v hv).frame rfl rfl rfl ?_ ?_ (fun _ _ => Iff.rfl) (fun _ _ _ => Iff.rfl)
  · rw [turnsOf, ht, turnsOf]
  · exact fun t _ => newsOf_congr rfl (hn t.session)

theorem Sound.poll_attributed (h : m.Sound B none) (a : m.Attributed A H) :
    m.poll.Attributed A (H ++ (m.poll.asked.drop m.asked.length).filterMap fun id => m.scriptFor? id) := by
  rcases h.poll_steps with hidle | ⟨t, ht, s, hs, hst, e, ho, hp, hf⟩
  · have hasked : m.poll.asked = m.asked := by rw [hidle]
    rw [hasked, List.drop_length, List.filterMap_nil, List.append_nil]
    rw [hidle]
    exact a.of_same rfl rfl rfl fun _ => rfl
  · have hasked : m.poll.asked.drop m.asked.length = e.asked := by
      rw [hp.asked, List.drop_left]
    rw [hasked]
    obtain ⟨p, o⟩ := h.honest a hs ht hst ho hf
    exact o.attributed h hs ht hst hp a

/-! ### Calls -/

/-- The token of a session belongs to one of its turns, which has begun. -/
theorem Attributed.owned (a : m.Attributed A H) (h : m.Sound B none) (hs : s ∈ m.sessions) (hu : u ∈ m.turns)
    (hc : s.current = some u.id) : u ∈ m.turnsOf s.id ∧ u.place.isQueued = false := by
  obtain ⟨w, hw, hwu, hq⟩ := (a.sessions s hs).current u.id hc
  rw [← h.named.eq_of_id (mem_turnsOf.mp hw).1 hu hwu]
  exact ⟨hw, hq⟩

/-- A turn whose token was used if it is the one of its session. -/
theorem fair_reached (fu : u.Fair A H s (m.newsOf u)) (hcur : v.current = s.current)
    (howned : s.current = some u.id → u.place.isQueued = false)
    (hA : u.place = .over → (u.id ∈ A'.map Turn.id ↔ u.id ∈ A.map Turn.id))
    (hasking : u.place.isAsking = true → u.id ∈ A'.map Turn.id ∨ v.closed = true) :
    (u.reached s.current).Fair A' H v (m.newsOf u) := by
  have hid : (u.reached s.current).id = u.id := congrArg Prod.fst (Turn.reached_tag s.current u)
  refine ⟨?_, ?_, ?_⟩
  · rw [Turn.reached_place]
    intro hq
    rw [Turn.reached_other]
    · exact fu.queued hq
    · intro hc
      rw [howned hc] at hq
      cases hq
  · rw [Turn.reached_place, hid]
    intro hp
    obtain ⟨hc, -, script, hm, ha⟩ := fu.asking hp
    refine ⟨hcur.trans hc, iff_of_true ?_ (hasking hp), script, hm, ha⟩
    rw [Turn.reached_self hc]
  · rw [Turn.reached_place]
    intro hp hn
    obtain ⟨cs, result, hns, hr⟩ := fu.settled hp hn
    refine ⟨cs, result, ?_, by rw [hid]; exact hr⟩
    rw [hid, hns, decide_eq_decide.mpr (hA hp)]

/-- The token of the turn that has the lock is used, and what its session knows is changed. -/
theorem Attributed.cuts (h : m.Sound B none) (a : m.Attributed A H) (hs : s ∈ m.sessions) {f : Session → Session}
    (hf : ∀ v, (f v).id = v.id ∧ (f v).pending = v.pending ∧ (f v).current = v.current)
    (hsessions : m'.sessions = m.sessions.map (Session.changed s.id f))
    (hturns : m'.turns = m.turns.map (Turn.reached s.current)) (hasked : m'.asked = m.asked)
    (htold : ∀ sid, m'.told sid = m.told sid)
    (hreached : ∀ t ∈ A', t.id ∈ m.asked ↔ t.place.isAsking = true) (hknown : ∀ t ∈ A', t.id < m.turns.length)
    (hA : ∀ u ∈ m.turns, u ∉ m.live s.id → (u.id ∈ A'.map Turn.id ↔ u.id ∈ A.map Turn.id))
    (hflagged : (f s).interrupted = true → m.live s.id ≠ [])
    (hmarked : ∀ u ∈ m.live s.id, u.id ∈ A'.map Turn.id ↔ (f s).interrupted = true ∧ (m.live s.id).head? = some u)
    (hasking : ∀ u ∈ m.turnsOf s.id, u.place.isAsking = true → u.id ∈ A'.map Turn.id ∨ (f s).closed = true) :
    m'.Attributed A' H := by
  have hts (sid : String) : m'.turnsOf sid = (m.turnsOf sid).map (Turn.reached s.current) :=
    turnsOf_map hturns (Turn.reached_tag s.current) sid
  have hid (u : Turn) : (u.reached s.current).id = u.id := congrArg Prod.fst (Turn.reached_tag s.current u)
  have fs := a.sessions s hs
  have hlive : m'.live s.id = (m.live s.id).map (Turn.reached s.current) :=
    live_map (hts s.id) fun u _ => by rw [Turn.reached_place]
  have hnews (u : Turn) : m'.newsOf (u.reached s.current) = m.newsOf u :=
    newsOf_congr (Turn.reached_tag s.current u) (htold u.session)
  refine ⟨by rw [hasked, a.heard], by rw [hasked]; exact hreached, by rw [hturns, List.length_map]; exact hknown, ?_⟩
  intro v hv
  rw [hsessions] at hv
  obtain ⟨w, hw, rfl⟩ := List.mem_map.mp hv
  by_cases hws : w.id = s.id
  · rw [Session.changed_self hws, h.named.session_eq hw hs hws]
    obtain ⟨hfid, hfp, hfc⟩ := hf s
    refine ⟨?_, ?_, ?_, ?_, ?_⟩
    · rw [hfp, hfid, hlive, List.length_map, fs.pending]
    · rw [hfid, hlive]
      exact fun hi hn => hflagged hi (List.map_eq_nil_iff.mp hn)
    · rw [hfc, hfid, hts]
      intro id hc
      obtain ⟨u, hu, hue, hq⟩ := fs.current id hc
      exact ⟨_, List.mem_map_of_mem hu, (hid u).trans hue, by rw [Turn.reached_place]; exact hq⟩
    · rw [hfid, hlive]
      intro x hx
      obtain ⟨u, hu, rfl⟩ := List.mem_map.mp hx
      rw [hid, hmarked u hu, head?_map_iff hid (h.nodup_live s.id) hu]
    · rw [hfid, hts]
      intro x hx
      obtain ⟨u, hu, rfl⟩ := List.mem_map.mp hx
      have hum := (mem_turnsOf.mp hu).1
      have hover (hp : u.place = .over) : u ∉ m.live s.id := by
        intro hl
        have hlives := (mem_live.mp hl).2
        rw [hp] at hlives
        cases hlives
      rw [hnews]
      exact fair_reached (fs.turns u hu) hfc (fun hc => (a.owned h hs hum hc).2) (fun hp => hA u hum (hover hp))
        (hasking u hu)
  · rw [Session.changed_other hws]
    have still {u : Turn} (hu : u ∈ m.turnsOf w.id) : u ∉ m.turnsOf s.id :=
      fun hm => hws ((mem_turnsOf.mp hu).2.symm.trans (mem_turnsOf.mp hm).2)
    have hsame : m'.turnsOf w.id = m.turnsOf w.id := by
      rw [hts]
      conv_rhs => rw [← List.map_id' (m.turnsOf w.id)]
      exact List.map_congr_left fun u hu =>
        Turn.reached_other fun hc => still hu (a.owned h hs (mem_turnsOf.mp hu).1 hc).1
    refine (a.sessions w hw).frame rfl rfl rfl hsame (fun u hu => newsOf_congr rfl (htold u.session)) ?_
      fun _ _ _ => Iff.rfl
    exact fun u hu => hA u (mem_turnsOf.mp hu).1 fun hl => still hu (mem_live.mp hl).1

theorem Releases.attributed (hr : Releases s m m') (h : m.Sound B none) (a : m.Attributed A H) (hs : s ∈ m.sessions) :
    m'.Attributed A H := by
  have fs := a.sessions s hs
  refine Attributed.cuts h a hs (f := fun s => { s with closed := true }) (fun _ => ⟨rfl, rfl, rfl⟩) hr.sessions
    hr.turns hr.asked ?_ a.reached a.known (fun _ _ _ => Iff.rfl) fs.flagged fs.marked fun _ _ _ => .inr rfl
  intro sid
  rw [told, hr.notices, List.filterMap_append, told]
  simp [Notice.of?]

/-- An engine was asked for a turn that has not ended exactly if it still answers. -/
theorem Sound.asked_iff (h : m.Sound B none) (a : m.Attributed A H) (hs : s ∈ m.sessions) (ht : t ∈ m.turnsOf s.id)
    (ho : t.place.isOver = false) : t.id ∈ m.asked ↔ t.place.isAsking = true := by
  cases hq : t.place.isQueued with
  | true =>
    have hnone := h.unasked a (mem_turnsOf.mp ht).1 hq
    rw [isAsking_of_isQueued hq, ← a.heard]
    refine iff_of_false (fun hm => ?_) nofun
    obtain ⟨⟨id, script⟩, hm, rfl⟩ := List.mem_map.mp hm
    exact hnone script hm
  | false =>
    have hask : t.place.isAsking = true := by
      revert hq ho
      cases t.place <;> simp [TurnPlace.isQueued, TurnPlace.isOver, TurnPlace.isAsking]
    obtain ⟨-, -, script, hm, -⟩ := ((a.sessions s hs).turns t ht).asking hask
    exact iff_of_true (a.heard ▸ List.mem_map_of_mem (f := Prod.fst) hm) hask

/-- An interrupt is meant for the oldest turn that has not ended. -/
theorem Sound.interrupt_attributed (h : m.Sound B none) (a : m.Attributed A H) (hs : s ∈ m.sessions)
    (hp : s.pending ≠ 0) (hsessions : m'.sessions = m.sessions.map
      (Session.changed s.id fun s => { s with interrupted := true }))
    (hturns : m'.turns = m.turns.map (Turn.reached s.current)) (hasked : m'.asked = m.asked)
    (htold : ∀ sid, m'.told sid = m.told sid) : m'.Attributed (A ++ (m.live s.id).head?.toList) H := by
  have fs := a.sessions s hs
  obtain ⟨t, rest, hlive⟩ : ∃ t rest, m.live s.id = t :: rest := by
    cases hl : m.live s.id with
    | nil =>
      rw [fs.pending, hl] at hp
      exact absurd rfl hp
    | cons t rest => exact ⟨t, rest, rfl⟩
  obtain ⟨htm, hto⟩ := mem_live.mp (show t ∈ m.live s.id by simp [hlive])
  obtain ⟨ht, hts⟩ := mem_turnsOf.mp htm
  have hfirst : (m.live s.id).head? = some t := by
    rw [hlive]
    rfl
  rw [hfirst]
  have hmem (id : Nat) : id ∈ (A ++ (some t).toList).map Turn.id ↔ id ∈ A.map Turn.id ∨ id = t.id := by
    simp
  have hasking := h.asked_iff a hs htm hto
  refine Attributed.cuts h a hs (f := fun s => { s with interrupted := true }) (fun _ => ⟨rfl, rfl, rfl⟩) hsessions
    hturns hasked htold ?_ ?_ ?_ ?_ ?_ ?_
  · intro t₀ ht₀
    rcases List.mem_append.mp ht₀ with ht₀ | ht₀
    · exact a.reached t₀ ht₀
    · rw [show t₀ = t by simpa using ht₀]
      exact hasking
  · intro t₀ ht₀
    rcases List.mem_append.mp ht₀ with ht₀ | ht₀
    · exact a.known t₀ ht₀
    · rw [show t₀ = t by simpa using ht₀]
      exact h.named.id_lt ht
  · intro u hu hl
    rw [hmem]
    refine or_iff_left fun he => hl ?_
    rw [h.named.eq_of_id hu ht he, hlive]
    exact List.mem_cons_self
  · intro _ hn
    rw [hlive] at hn
    cases hn
  · intro u hu
    rw [hmem, fs.marked u hu, hfirst]
    refine ⟨?_, fun hh => .inr (congrArg Turn.id (Option.some.inj hh.2).symm)⟩
    rintro (hh | he)
    · exact ⟨rfl, hh.2⟩
    · exact ⟨rfl, by rw [h.named.eq_of_id (mem_turnsOf.mp (mem_live.mp hu).1).1 ht he]⟩
  · intro u hu hask
    have hum := mem_turnsOf.mp hu
    have hfu := h.active_first hum.1 (isActive_of_isAsking hask)
    rw [hum.2, hfirst] at hfu
    exact .inl ((hmem u.id).mpr (.inr (congrArg Turn.id (Option.some.inj hfu).symm)))

end Manager

end StackDeck.Diagnosis
