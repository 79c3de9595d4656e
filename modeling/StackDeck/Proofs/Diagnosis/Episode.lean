import StackDeck.Proofs.Diagnosis.Protocol

/-!
What a turn does in one go, said once for the whole state: where it comes to, what it leaves in its session, what
it tells and whether an engine is asked. Whatever holds of every step of a turn is derived from here.
-/

namespace StackDeck.Diagnosis

/-- What the turns of a session leave for one another. -/
structure Control where
  pending : Nat
  interrupted : Bool
  current : Option Nat
  turns : Nat

namespace Control

def endTurn (c : Control) : Control := { c with pending := c.pending - 1, interrupted := false }

def count (c : Control) : Control := { c with turns := c.turns + 1 }

def arm (id : Nat) (c : Control) : Control := { c with current := some id }

end Control

namespace Session

def control (s : Session) : Control := ⟨s.pending, s.interrupted, s.current, s.turns⟩

/-- What no turn changes in a session. -/
def face (s : Session) : Session :=
  { s with pending := 0, interrupted := false, current := none, holder := none, waiters := [], turns := 0 }

end Session

/-- What no turn changes in an engine. -/
def Engine.face (e : Engine) : Engine := { e with scripts := [], prompts := [] }

/-- Everything that a script says. -/
def TurnScript.said (s : TurnScript) : List ProviderEvent :=
  s.steps.filterMap fun step => match step with
    | .event e => some e
    | _ => none

/-- What a script comes to that goes on from what a normalizer has seen. -/
def Normalizer.answer (n : Normalizer) (s : TurnScript) : Except TurnError String :=
  (n.applyAll s.said).1.finish s.ending

namespace TurnPlace

/-- What the engine of a turn will have answered. -/
def answer? : TurnPlace → Option (Except TurnError String)
  | .sleeping _ n rest => some (n.answer rest)
  | .listening n rest => some (n.answer rest)
  | _ => none

def isOver : TurnPlace → Bool
  | .over => true
  | _ => false

/-- The turn has not begun. -/
def isQueued : TurnPlace → Bool
  | .launched => true
  | .waiting => true
  | .granted => true
  | _ => false

theorem isOver_iff {p : TurnPlace} : p.isOver = true ↔ p = .over := by
  cases p <;> simp [isOver]

theorem isAsking_of_answer {p : TurnPlace} {r : Except TurnError String} (h : p.answer? = some r) :
    p.isAsking = true := by
  cases p <;> simp_all [answer?, isAsking]

end TurnPlace

/-- A turn that comes to a place, or stays where it is. -/
def Turn.moved (p : Option TurnPlace) (t : Turn) : Turn :=
  match p with
  | none => t
  | some p => { t with place := p }

structure Episode where
  place : Option TurnPlace := none
  control : Control → Control := id
  news : List TurnNews := []
  asked : List Nat := []

def Episode.andThen (a b : Episode) : Episode :=
  ⟨b.place <|> a.place, b.control ∘ a.control, a.news ++ b.news, a.asked ++ b.asked⟩

namespace Manager

/-- The turns of a session that have not ended, in the order in which they were launched. -/
def live (sid : String) (m : Manager) : List Turn := (m.turnsOf sid).filter fun t => !t.place.isOver

/-- What no turn changes. -/
def frame (m : Manager) : Manager :=
  { m with engines := [], sessions := [], turns := [], ready := [], sleepers := [], asked := [], notices := [] }

/-- Turn `t` of session `s` goes through an episode. A turn that waits may be given the lock. -/
structure Plays (s : Session) (t : Turn) (e : Episode) (m m' : Manager) : Prop where
  turns : ∃ g, m'.turns = m.turns.map g ∧ (∀ u, u.id = t.id → g u = u.moved e.place) ∧
    ∀ u, u.id ≠ t.id → g u = u ∨ (u.id ∈ s.waiters ∧ g u = { u with place := .granted })
  sessions : ∃ k, m'.sessions = m.sessions.map (Session.changed s.id k) ∧
    ∀ v, (k v).face = v.face ∧ (k v).control = e.control v.control
  notices : m'.notices = m.notices ++ e.news.map (.turn (names s t))
  asked : m'.asked = m.asked ++ e.asked
  engines : m'.engines.map Engine.face = m.engines.map Engine.face
  frame : m'.frame = m.frame

variable {m m' m'' : Manager} {s v : Session} {t : Turn} {e e' : Episode} {B : Nat → List TurnNews}

theorem Plays.of_same (ht : m'.turns = m.turns) (hs : m'.sessions = m.sessions) (hn : m'.notices = m.notices)
    (ha : m'.asked = m.asked) (he : m'.engines = m.engines) (hf : m'.frame = m.frame) : Plays s t {} m m' := by
  refine ⟨⟨fun u => u, by rw [ht, List.map_id'], fun _ _ => rfl, fun _ _ => .inl rfl⟩, ⟨fun v => v, ?_, fun _ => ⟨rfl, rfl⟩⟩,
    by rw [hn]; exact (List.append_nil _).symm, by rw [ha]; exact (List.append_nil _).symm, by rw [he], hf⟩
  rw [hs]
  conv_lhs => rw [← List.map_id' m.sessions]
  refine List.map_congr_left fun v _ => ?_
  simp [Session.changed]

theorem Plays.trans (h : Plays s t e m m') (h' : Plays s t e' m' m'') : Plays s t (e.andThen e') m m'' := by
  obtain ⟨g, hg, gt, go⟩ := h.turns
  obtain ⟨g', hg', gt', go'⟩ := h'.turns
  obtain ⟨k, hk, kv⟩ := h.sessions
  obtain ⟨k', hk', kv'⟩ := h'.sessions
  refine ⟨⟨fun u => g' (g u), by rw [hg', hg, List.map_map]; rfl, ?_, ?_⟩, ⟨fun v => k' (k v), ?_, ?_⟩, ?_, ?_,
    h'.engines.trans h.engines, h'.frame.trans h.frame⟩
  · intro u hu
    have hid : (g u).id = t.id := by
      rw [gt u hu]
      cases e.place <;> exact hu
    show g' (g u) = _
    rw [gt' _ hid, gt u hu]
    cases hp' : e'.place <;> cases hp : e.place <;> simp [Episode.andThen, hp, hp', Turn.moved]
  · intro u hu
    show g' (g u) = u ∨ _ ∧ g' (g u) = _
    rcases go u hu with hgu | ⟨hw, hgu⟩
    · rw [hgu]
      exact go' u hu
    · refine .inr ⟨hw, ?_⟩
      have hid : (g u).id ≠ t.id := by
        rw [hgu]
        exact hu
      rcases go' _ hid with hgu' | ⟨_, hgu'⟩
      · rw [hgu', hgu]
      · rw [hgu', hgu]
  · rw [hk', hk, List.map_map]
    refine List.map_congr_left fun v _ => ?_
    by_cases hv : v.id = s.id
    · have hid : (k v).id = s.id := (congrArg Session.id (kv v).1).trans hv
      rw [Function.comp_apply, Session.changed_self hv, Session.changed_self hid, Session.changed_self hv]
    · rw [Function.comp_apply, Session.changed_other hv, Session.changed_other hv, Session.changed_other hv]
  · intro v
    refine ⟨(kv' _).1.trans (kv v).1, ?_⟩
    rw [(kv' _).2, (kv v).2]
    rfl
  · rw [h'.notices, h.notices, List.append_assoc, ← List.map_append]
    rfl
  · rw [h'.asked, h.asked, List.append_assoc]
    rfl

/-! ### Parts of an episode -/

theorem publish_plays (n : TurnNews) (m : Manager) : Plays s t { news := [n] } m (m.publish (.turn (names s t) n)) := by
  have h : Plays s t {} m m := .of_same rfl rfl rfl rfl rfl rfl
  exact ⟨h.turns, h.sessions, rfl, h.asked, h.engines, rfl⟩

theorem tellAll_eq (cs : List Chunk) (m : Manager) :
    cs.foldl (fun m c => m.publish (.turn (names s t) (.chunk c))) m =
      { m with notices := m.notices ++ cs.map fun c => .turn (names s t) (.chunk c) } := by
  induction cs generalizing m with
  | nil => simp
  | cons c r ih =>
    rw [List.foldl_cons, ih]
    simp [publish]

theorem tellAll_plays (cs : List Chunk) (m : Manager) : Plays s t { news := cs.map .chunk } m
    (cs.foldl (fun m c => m.publish (.turn (names s t) (.chunk c))) m) := by
  have h : Plays s t {} m m := .of_same rfl rfl rfl rfl rfl rfl
  rw [tellAll_eq]
  refine ⟨h.turns, h.sessions, ?_, h.asked, h.engines, rfl⟩
  rw [List.map_map]
  rfl

theorem modifySession_plays {f : Session → Session} {c : Control → Control}
    (hf : ∀ v, (f v).face = v.face ∧ (f v).control = c v.control) (m : Manager) :
    Plays s t { control := c } m (m.modifySession s.id f) := by
  have h : Plays s t {} m m := .of_same rfl rfl rfl rfl rfl rfl
  exact ⟨h.turns, ⟨f, rfl, hf⟩, h.notices, h.asked, h.engines, rfl⟩

theorem place_plays (p : TurnPlace) (m : Manager) : Plays s t { place := some p } m (m.place t.id p) := by
  have h : Plays s t {} m m := .of_same rfl rfl rfl rfl rfl rfl
  refine ⟨⟨Turn.placed t.id p, rfl, fun u hu => ?_, fun u hu => .inl (Turn.placed_other hu p)⟩, h.sessions, h.notices,
    h.asked, h.engines, rfl⟩
  rw [Turn.placed_self hu]
  rfl

theorem unlock_plays (hid : v.id = s.id) (hw : v.waiters = s.waiters) (hn : t.id ∉ s.waiters) (m : Manager) :
    Plays s t {} m (m.unlock v) := by
  unfold unlock
  rw [hid, hw]
  cases hs : s.waiters with
  | nil => exact modifySession_plays (f := fun s => { s with holder := none }) (fun _ => ⟨rfl, rfl⟩) m
  | cons w r =>
    have hwt : t.id ≠ w := by
      rintro rfl
      exact hn (by simp [hs])
    have h := modifySession_plays (s := s) (t := t) (f := fun s => { s with holder := some w, waiters := r }) (c := id)
      (fun _ => ⟨rfl, rfl⟩) m
    refine ⟨⟨Turn.placed w .granted, rfl, fun u hu => ?_, fun u hu => ?_⟩, h.sessions, h.notices, h.asked, h.engines,
      h.frame⟩
    · exact Turn.placed_other (fun he => hwt (hu.symm.trans he)) .granted
    · by_cases he : u.id = w
      · exact .inr ⟨by simp [hs, he], Turn.placed_self he .granted⟩
      · exact .inl (Turn.placed_other he .granted)

theorem hear_plays {k : Nat} {x : Engine} (hx : m.engines[k]? = some x) (prompt : String) :
    Plays s t { asked := [t.id] } m ((m.setEngine k (x.hear prompt).2).noteAsked t.id) := by
  have h : Plays s t {} m m := .of_same rfl rfl rfl rfl rfl rfl
  have hface : (x.hear prompt).2.face = x.face := by
    unfold Engine.hear
    split <;> rfl
  refine ⟨h.turns, h.sessions, h.notices, rfl, ?_, rfl⟩
  show (m.engines.set k (x.hear prompt).2).map Engine.face = _
  rw [List.map_set, hface]
  obtain ⟨hk, rfl⟩ := List.getElem?_eq_some_iff.mp hx
  have hk' : k < (m.engines.map Engine.face).length := by simpa using hk
  have hget : m.engines[k].face = (m.engines.map Engine.face)[k] := by simp
  rw [hget, List.set_getElem_self]

theorem session?_modifySession {sid : String} {f : Session → Session} (hf : ∀ v, (f v).id = v.id) (m : Manager) :
    (m.modifySession sid f).session? sid = (m.session? sid).map f := by
  refine (find?_map_at hf).trans ?_
  simp only [beq_self_eq_true, if_true]
  rfl

theorem conclude_plays (hs : m.session? s.id = some v) (hw : v.waiters = s.waiters) (hn : t.id ∉ s.waiters)
    (result : Except TurnError String) :
    Plays s t ⟨some .over, Control.endTurn, [(Outcome.ofResult result v.interrupted).news], []⟩ m
      (m.conclude s t result) := by
  have hm : (m.modifySession s.id Session.endTurn).session? s.id = some v.endTurn := by
    rw [session?_modifySession, hs]
    · rfl
    · exact fun _ => rfl
  have hid : v.id = s.id := by simpa using List.find?_some hs
  have h := modifySession_plays (s := s) (t := t) (f := Session.endTurn) (c := Control.endTurn) (fun _ => ⟨rfl, rfl⟩) m
  unfold conclude
  have hv : ((((m.modifySession s.id Session.endTurn).publish (.turn (names s t)
      (Outcome.ofResult result ((m.session? s.id).any Session.interrupted)).news)).session? s.id).getD s) = v.endTurn := by
    show (((m.modifySession s.id Session.endTurn).session? s.id).getD s) = _
    rw [hm]
    rfl
  dsimp only
  rw [hv, hs]
  exact ((h.trans (publish_plays _ _)).trans (place_plays .over _)).trans
    (unlock_plays (v := v.endTurn) hid hw hn _)

/-- A script is played until it has to wait, or to its answer. -/
theorem play_plays (hs : m.session? s.id = some v) (hw : v.waiters = s.waiters) (hn : t.id ∉ s.waiters)
    (ending : Except TurnError Unit) (n : Normalizer) (steps : List TurnStep) :
    ∃ cs : List Chunk,
      (∃ p : TurnPlace, p.answer? = some (n.answer ⟨steps, ending⟩) ∧
        Plays s t ⟨some p, id, cs.map .chunk, []⟩ m (m.play s t ending n steps)) ∨
      Plays s t ⟨some .over, Control.endTurn,
        cs.map .chunk ++ [(Outcome.ofResult (n.answer ⟨steps, ending⟩) v.interrupted).news], []⟩ m
        (m.play s t ending n steps) := by
  induction steps generalizing m n with
  | nil => exact ⟨[], .inr (conclude_plays hs hw hn _)⟩
  | cons step r ih =>
    cases step with
    | event x =>
      have htell := tellAll_plays (s := s) (t := t) (n.apply x).2 m
      have hs' : ((n.apply x).2.foldl (fun m c => m.publish (.turn (names s t) (.chunk c))) m).session? s.id = some v := by
        rw [tellAll_eq]
        exact hs
      obtain ⟨cs, h⟩ := ih hs' (n.apply x).1
      refine ⟨(n.apply x).2 ++ cs, ?_⟩
      rcases h with ⟨p, hp, h⟩ | h
      · refine .inl ⟨p, hp, ?_⟩
        rw [List.map_append]
        exact htell.trans h
      · refine .inr ?_
        rw [List.map_append, List.append_assoc]
        exact htell.trans h
    | pause ms =>
      by_cases hz : ms = 0
      · simp only [play, hz, if_true]
        exact ih hs n
      · simp only [play, hz, if_false]
        have h := place_plays (s := s) (t := t) (.sleeping (m.now + ms) n ⟨r, ending⟩) m
        exact ⟨[], .inl ⟨_, rfl, h.turns, h.sessions, h.notices, h.asked, h.engines, rfl⟩⟩
    | untilInterrupted =>
      by_cases hc : t.cut = true
      · simp only [play, hc, if_true]
        exact ih hs n
      · simp only [play, hc]
        exact ⟨[], .inl ⟨_, rfl, place_plays (.listening n ⟨r, ending⟩) m⟩⟩

theorem prompt_plays (hs : m.session? s.id = some v) (hw : v.waiters = s.waiters) (hi : v.interrupted = false)
    (hn : t.id ∉ s.waiters) :
    (m.engines[s.engine]? = none ∧
      Plays s t ⟨some .over, Control.endTurn ∘ Control.arm t.id, [.failed .streamClosed], []⟩ m (m.prompt s t)) ∨
    ∃ x, m.engines[s.engine]? = some x ∧ ∃ cs : List Chunk,
      (∃ p : TurnPlace, p.answer? = some (Engine.reply (x.hear t.prompt).1) ∧
        Plays s t ⟨some p, Control.arm t.id, cs.map .chunk, [t.id]⟩ m (m.prompt s t)) ∨
      Plays s t ⟨some .over, Control.endTurn ∘ Control.arm t.id,
        cs.map .chunk ++ [(Outcome.ofResult (Engine.reply (x.hear t.prompt).1) false).news], [t.id]⟩ m (m.prompt s t) := by
  have harm := modifySession_plays (s := s) (t := t) (f := fun s => { s with current := some t.id })
    (c := Control.arm t.id) (fun _ => ⟨rfl, rfl⟩) m
  have hm : (m.modifySession s.id fun s => { s with current := some t.id }).session? s.id =
      some { v with current := some t.id } := by
    rw [session?_modifySession, hs]
    · rfl
    · exact fun _ => rfl
  have hx : (m.modifySession s.id fun s => { s with current := some t.id }).engines[s.engine]? =
      m.engines[s.engine]? := rfl
  unfold Manager.prompt
  dsimp only
  rw [hx]
  cases he : m.engines[s.engine]? with
  | none =>
    have hend := conclude_plays (t := t) hm hw hn (.error .streamClosed)
    rw [hi] at hend
    exact .inl ⟨rfl, harm.trans hend⟩
  | some x =>
    have hasked := harm.trans (hear_plays (t := t) (hx.trans he) t.prompt)
    refine .inr ⟨x, rfl, ?_⟩
    obtain ⟨cs, h⟩ := play_plays (m := ((m.modifySession s.id fun s => { s with current := some t.id }).setEngine
      s.engine (x.hear t.prompt).2).noteAsked t.id) (t := t) hm hw hn (x.hear t.prompt).1.ending
      (.start Engine.turnTimeoutSecs) (x.hear t.prompt).1.steps
    refine ⟨cs, ?_⟩
    rcases h with ⟨p, hp, h⟩ | h
    · exact .inl ⟨p, hp, hasked.trans h⟩
    · rw [hi] at h
      exact .inr (hasked.trans h)

/-! ### What a turn may do -/

/-- The ways in which turn `t` of session `s` goes on. -/
inductive Onward (x? : Option Engine) (s : Session) (t : Turn) : Episode → Prop
  | wait (hp : t.place = .launched) : Onward x? s t { place := some .waiting }
  | skip (hp : t.place.isQueued = true) (hc : s.closed = true) :
    Onward x? s t { place := some .over, control := Control.endTurn }
  | refuse (hp : t.place.isQueued = true) (hc : s.closed = false) (hi : s.interrupted = true) :
    Onward x? s t ⟨some .over, Control.endTurn ∘ Control.count, [.started, .interrupted none], []⟩
  /-- The engine of the session is gone. -/
  | miss (hp : t.place.isQueued = true) (hc : s.closed = false) (hi : s.interrupted = false)
      (hx : x? = none) :
    Onward x? s t ⟨some .over, Control.endTurn ∘ Control.arm t.id ∘ Control.count, [.started, .failed .streamClosed], []⟩
  | ask (hp : t.place.isQueued = true) (hc : s.closed = false) (hi : s.interrupted = false) {x : Engine}
      (hx : x? = some x) {p : TurnPlace} (cs : List Chunk)
      (ha : p.answer? = some (Engine.reply (x.hear t.prompt).1)) :
    Onward x? s t ⟨some p, Control.arm t.id ∘ Control.count, .started :: cs.map .chunk, [t.id]⟩
  | reply (hp : t.place.isQueued = true) (hc : s.closed = false) (hi : s.interrupted = false) {x : Engine}
      (hx : x? = some x) (cs : List Chunk) :
    Onward x? s t ⟨some .over, Control.endTurn ∘ Control.arm t.id ∘ Control.count, .started :: cs.map .chunk ++
      [(Outcome.ofResult (Engine.reply (x.hear t.prompt).1) false).news], [t.id]⟩
  | resume {r : Except TurnError String} (hp : t.place.answer? = some r) {p : TurnPlace} (cs : List Chunk)
      (ha : p.answer? = some r) :
    Onward x? s t ⟨some p, id, cs.map .chunk, []⟩
  | finish {r : Except TurnError String} (hp : t.place.answer? = some r) (cs : List Chunk) :
    Onward x? s t ⟨some .over, Control.endTurn, cs.map .chunk ++ [(Outcome.ofResult r s.interrupted).news], []⟩

theorem begin_plays (hs : m.session? s.id = some v) (hw : v.waiters = s.waiters) (hi : v.interrupted = s.interrupted)
    (hn : t.id ∉ s.waiters) (hp : t.place.isQueued = true) :
    ∃ e, Onward m.engines[s.engine]? s t e ∧ Plays s t e m (m.begin s t) := by
  unfold begin
  cases hc : s.closed with
  | true =>
    have h := modifySession_plays (s := s) (t := t) (f := Session.endTurn) (c := Control.endTurn) (fun _ => ⟨rfl, rfl⟩) m
    exact ⟨_, .skip hp hc, (h.trans (place_plays .over _)).trans (unlock_plays rfl rfl hn _)⟩
  | false =>
    have h := modifySession_plays (s := s) (t := t) (f := fun s => { s with turns := s.turns + 1 }) (c := Control.count)
      (fun _ => ⟨rfl, rfl⟩) m
    have hm : (m.modifySession s.id fun s => { s with turns := s.turns + 1 }).session? s.id =
        some { v with turns := v.turns + 1 } := by
      rw [session?_modifySession, hs]
      · rfl
      · exact fun _ => rfl
    have htold := h.trans (publish_plays .started _)
    simp only [Bool.false_eq_true, if_false]
    cases his : s.interrupted with
    | true =>
      have hend := conclude_plays (m := (m.modifySession s.id fun s => { s with turns := s.turns + 1 }).publish
        (.turn (names s t) .started)) hm hw hn (.error .cancelled)
      rw [show ({ v with turns := v.turns + 1 } : Session).interrupted = true from hi.trans his] at hend
      exact ⟨_, .refuse hp hc his, htold.trans hend⟩
    | false =>
      have hasked := prompt_plays (m := (m.modifySession s.id fun s => { s with turns := s.turns + 1 }).publish
        (.turn (names s t) .started)) hm hw (hi.trans his) hn
      rcases hasked with ⟨hx, h⟩ | ⟨x, hx, cs, ⟨p, ha, h⟩ | h⟩
      · exact ⟨_, .miss hp hc his hx, htold.trans h⟩
      · exact ⟨_, .ask hp hc his hx cs ha, htold.trans h⟩
      · exact ⟨_, .reply hp hc his hx cs, htold.trans h⟩

/-! ### The turn that is ready -/

/-- Who waits for the lock of a session is a turn of it. -/
theorem Sound.waiter (h : m.Sound B none) (hs : s ∈ m.sessions) {id : Nat} (hid : id ∈ s.waiters) :
    ∃ u ∈ m.turns, u.id = id ∧ u.session = s.id ∧ u.place = .waiting := by
  obtain ⟨olds, acts, waits, fresh, hl, -⟩ := h.queued s hs
  rw [← hl.waiters] at hid
  obtain ⟨u, hu, rfl⟩ := List.mem_map.mp hid
  obtain ⟨hm, hus⟩ := hl.mem (t := u) (by simp [hu])
  exact ⟨u, hm, rfl, hus, hl.waiting u hu⟩

theorem Line.live {olds acts waits fresh : List Turn} (h : m.Line s olds acts waits fresh)
    (ha : ∀ t ∈ acts, t.place.isActive = true) : m.live s.id = acts ++ (waits ++ fresh) := by
  have gone : olds.filter (fun t => !t.place.isOver) = [] := by
    refine List.filter_eq_nil_iff.mpr fun t ht => ?_
    rw [h.ended t ht]
    simp [TurnPlace.isOver]
  have kept {ts : List Turn} (hts : ∀ t ∈ ts, t.place.isOver = false) : ts.filter (fun t => !t.place.isOver) = ts := by
    refine List.filter_eq_self.mpr fun t ht => ?_
    rw [hts t ht]
    rfl
  have hacts : ∀ t ∈ acts, t.place.isOver = false := by
    intro t ht
    have hat := ha t ht
    revert hat
    cases t.place <;> simp [TurnPlace.isActive, TurnPlace.isOver]
  unfold Manager.live
  rw [h.turns, List.filter_append, List.filter_append, List.filter_append, gone, kept hacts,
    kept fun t ht => by rw [h.waiting t ht]; rfl, kept fun t ht => by rw [h.launched t ht]; rfl, List.nil_append]

/-- The turn that has the lock is the oldest that has not ended. -/
theorem Sound.active_first (h : m.Sound B none) (ht : t ∈ m.turns) (hp : t.place.isActive = true) :
    (m.live t.session).head? = some t := by
  obtain ⟨s, hs, hst⟩ := h.named.known t ht
  obtain ⟨olds, acts, waits, fresh, hl, ha⟩ := h.queued s hs
  have hact : t ∈ acts := hl.mem_acts (mem_turnsOf.mpr ⟨ht, hst.symm⟩) hp
  rw [← hst, hl.live fun u hu => (ha u hu).resolve_left nofun, hl.acts_eq hact]
  rfl

theorem Sound.launched_first (h : m.Sound B none) (ht : t ∈ m.turns) (hp : t.place = .launched) {r : List Nat}
    (hr : m.ready = t.id :: r) (hs : s ∈ m.sessions) (hst : s.id = t.session) (hfree : s.holder = none) :
    (m.live t.session).head? = some t := by
  obtain ⟨olds, acts, waits, fresh, hl, ha⟩ := h.queued s hs
  have hact : ∀ u ∈ acts, u.place.isActive = true := fun u hu => (ha u hu).resolve_left nofun
  obtain ⟨rest, rfl⟩ := h.first_fresh ht hp hr hl hact hst
  have hno : acts = [] := by simpa [hfree] using hl.holder
  have hnw : waits = [] := hl.free hno
  rw [← hst, hl.live hact, hno, hnw]
  rfl

/-- A step of the turns: one of them goes on in one of the ways there are, or nothing happens. Unless it gets in line
it is the oldest turn of its session that has not ended. -/
def Steps (m m' : Manager) : Prop :=
  m' = { m with ready := m.ready.tail } ∨
    ∃ t ∈ m.turns, ∃ s ∈ m.sessions, s.id = t.session ∧ ∃ e, Onward m.engines[s.engine]? s t e ∧ Plays s t e m m' ∧
      (e.place = some .waiting ∨ (m.live s.id).head? = some t)

/-- That a turn was taken out of those that are ready does not show in what it does. -/
theorem Plays.steps {r : List Nat} (h : Plays s t e { m with ready := r } m') (ht : t ∈ m.turns) (hs : s ∈ m.sessions)
    (hst : s.id = t.session) (ho : Onward m.engines[s.engine]? s t e)
    (hf : e.place = some .waiting ∨ (m.live s.id).head? = some t) : m.Steps m' := by
  have hpop : Plays s t {} m { m with ready := r } := .of_same rfl rfl rfl rfl rfl rfl
  have he : ({} : Episode).andThen e = e := by
    simp [Episode.andThen]
  exact .inr ⟨t, ht, s, hs, hst, e, ho, he ▸ hpop.trans h, hf⟩

section step

variable {r : List Nat}

theorem Sound.not_waiting (h : m.Sound B none) (ht : t ∈ m.turns) (hs : s ∈ m.sessions) (hp : t.place ≠ .waiting) :
    t.id ∉ s.waiters := by
  intro hw
  obtain ⟨u, hu, hut, -, hup⟩ := h.waiter hs hw
  exact hp (h.named.eq_of_id hu ht hut ▸ hup)

theorem Sound.launched_steps (h : m.Sound B none) (ht : t ∈ m.turns) (hp : t.place = .launched)
    (hr : m.ready = t.id :: r) (hs : s ∈ m.sessions) (hst : s.id = t.session) (hfree : s.holder = none) :
    m.Steps ((({ m with ready := r } : Manager).modifySession s.id fun s => { s with holder := some t.id }).begin s t) := by
  have hsm : ({ m with ready := r } : Manager).session? s.id = some s := find?_key h.named.nodup_sessions hs
  have htake := modifySession_plays (s := s) (t := t) (f := fun s => { s with holder := some t.id }) (c := id)
    (fun _ => ⟨rfl, rfl⟩) { m with ready := r }
  have hst' : (({ m with ready := r } : Manager).modifySession s.id fun s => { s with holder := some t.id }).session?
      s.id = some { s with holder := some t.id } := by
    rw [session?_modifySession, hsm]
    · rfl
    · exact fun _ => rfl
  obtain ⟨e, ho, hb⟩ := begin_plays hst' rfl rfl (h.not_waiting ht hs (by simp [hp])) (t := t) (by rw [hp]; rfl)
  have he : ({ control := id } : Episode).andThen e = e := by
    simp [Episode.andThen]
  have hall := htake.trans hb
  rw [he] at hall
  exact hall.steps ht hs hst ho (.inr (hst ▸ h.launched_first ht hp hr hs hst hfree))

theorem Sound.granted_steps (h : m.Sound B none) (ht : t ∈ m.turns) (hp : t.place = .granted) (hs : s ∈ m.sessions)
    (hst : s.id = t.session) : m.Steps (({ m with ready := r } : Manager).begin s t) := by
  have hsm : ({ m with ready := r } : Manager).session? s.id = some s := find?_key h.named.nodup_sessions hs
  obtain ⟨e, ho, hb⟩ := begin_plays hsm rfl rfl (h.not_waiting ht hs (by simp [hp])) (t := t) (by rw [hp]; rfl)
  exact hb.steps ht hs hst ho (.inr (hst ▸ h.active_first ht (by rw [hp]; rfl)))

theorem Sound.asking_steps (h : m.Sound B none) (ht : t ∈ m.turns) {n : Normalizer} {rest : TurnScript}
    (ha : t.place.answer? = some (n.answer rest)) (hs : s ∈ m.sessions) (hst : s.id = t.session) :
    m.Steps (({ m with ready := r } : Manager).play s t rest.ending n rest.steps) := by
  have hsm : ({ m with ready := r } : Manager).session? s.id = some s := find?_key h.named.nodup_sessions hs
  have hask := TurnPlace.isAsking_of_answer ha
  have hfirst : (m.live s.id).head? = some t := hst ▸ h.active_first ht (isActive_of_isAsking hask)
  have hn : t.id ∉ s.waiters := by
    refine h.not_waiting ht hs fun hp => ?_
    simp [hp, TurnPlace.isAsking] at hask
  obtain ⟨cs, h⟩ := play_plays hsm rfl hn rest.ending n rest.steps
  rcases h with ⟨p, hp, h⟩ | h
  · exact h.steps ht hs hst (.resume ha cs hp) (.inr hfirst)
  · exact h.steps ht hs hst (.finish ha cs) (.inr hfirst)

theorem Sound.poll_steps (h : m.Sound B none) : m.Steps m.poll := by
  unfold Manager.poll
  cases hr : m.ready with
  | nil =>
    refine .inl ?_
    dsimp only
    rw [hr, List.tail_nil, ← hr]
  | cons id r =>
    have idle : m.Steps { m with ready := r } := by
      refine .inl ?_
      rw [hr, List.tail_cons]
    have hf : ({ m with ready := r } : Manager).turn? id = m.turn? id := rfl
    dsimp only
    unfold Manager.step
    rw [hf]
    cases hm : m.turn? id with
    | none => exact idle
    | some t =>
      obtain ⟨ht, rfl⟩ := mem_of_find?_key hm
      obtain ⟨s, hs, hst⟩ := h.named.known t ht
      have hsm : ({ m with ready := r } : Manager).session? s.id = some s := find?_key h.named.nodup_sessions hs
      dsimp only
      rw [← hst, hsm]
      dsimp only
      cases hp : t.place with
      | launched =>
        dsimp only
        cases hh : s.holder with
        | none => exact h.launched_steps ht hp hr hs hst hh
        | some k =>
          have hjoin := modifySession_plays (s := s) (t := t) (f := fun s => { s with waiters := s.waiters ++ [t.id] })
            (c := id) (fun _ => ⟨rfl, rfl⟩) { m with ready := r }
          exact (hjoin.trans (place_plays .waiting _)).steps ht hs hst (.wait hp) (.inl rfl)
      | granted => exact h.granted_steps ht hp hs hst
      | sleeping due n rest =>
        dsimp only
        split
        · exact h.asking_steps ht (by rw [hp]; rfl) hs hst
        · exact idle
      | listening n rest =>
        dsimp only
        split
        · exact h.asking_steps ht (by rw [hp]; rfl) hs hst
        · exact idle
      | waiting => exact idle
      | _ => exact idle

end step

end Manager

end StackDeck.Diagnosis
