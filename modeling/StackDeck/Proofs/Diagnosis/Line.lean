import StackDeck.Diagnosis.Clock
import StackDeck.Proofs.Diagnosis.Chunk
import StackDeck.Proofs.Keyed

/-!
The turns of a session stand in line in the order in which they were launched: those that are over, the one
that has the lock, those that wait for it and those that have not asked for it yet.
-/

namespace StackDeck.Diagnosis

/-- The turn has the lock. -/
def TurnPlace.isActive : TurnPlace → Bool
  | .granted => true
  | .sleeping .. => true
  | .listening .. => true
  | _ => false

/-- An engine was asked and its answer has not ended. -/
def TurnPlace.isAsking : TurnPlace → Bool
  | .sleeping .. => true
  | .listening .. => true
  | _ => false

def TurnNews.isFinal : TurnNews → Bool
  | .completed _ => true
  | .interrupted _ => true
  | .failed _ => true
  | _ => false

/-- What names a turn for good. -/
def Turn.tag (t : Turn) : Nat × String × String := (t.id, t.session, t.requestId)

/-- The news of a turn of a session, with its request. -/
def Notice.of? (sid : String) : Notice → Option (String × TurnNews)
  | .turn names news => if names.sessionId == sid then some (names.requestId, news) else none
  | .closed .. => none

/-- What may have been told of a turn that is where it is. -/
def TurnPlace.Tells : TurnPlace → List TurnNews → Prop
  | .launched, ns => ns = []
  | .waiting, ns => ns = []
  | .granted, ns => ns = []
  | .sleeping _ n _, ns => ∃ cs, ns = .started :: cs.map .chunk ∧ NumberedFrom 0 cs ∧ n.seq = cs.length
  | .listening n _, ns => ∃ cs, ns = .started :: cs.map .chunk ∧ NumberedFrom 0 cs ∧ n.seq = cs.length
  | .over, ns => ns = [] ∨ ∃ cs last, ns = .started :: cs.map .chunk ++ [last] ∧ NumberedFrom 0 cs ∧ last.isFinal

namespace Manager

/-- What names the turns, in the order in which they were launched. -/
def tags (m : Manager) : List (Nat × String × String) := m.turns.map Turn.tag

/-- The turns of a session, in the order in which they were launched. -/
def turnsOf (sid : String) (m : Manager) : List Turn := m.turns.filter fun t => t.session == sid

/-- Everything that was told of the turns of a session. -/
def told (sid : String) (m : Manager) : List (String × TurnNews) := m.notices.filterMap (Notice.of? sid)

/-- Turns, requests and sessions are named by counting. -/
structure Named (m : Manager) : Prop where
  turns : m.turns.map Turn.id = List.range m.turns.length
  requests : m.turns.map Turn.requestId = (List.range m.turns.length).map fun k => s!"r{k + 1}"
  sessions : m.sessions.map Session.id = (List.range m.sessions.length).map fun k => s!"s{k + 1}"
  requestCount : m.naming.requests = m.turns.length
  sessionCount : m.naming.sessions = m.sessions.length
  known : ∀ t ∈ m.turns, ∃ s ∈ m.sessions, s.id = t.session

/-- The turns of a session in line, and its lock. -/
structure Line (m : Manager) (s : Session) (olds acts waits fresh : List Turn) : Prop where
  turns : m.turnsOf s.id = olds ++ (acts ++ (waits ++ fresh))
  ended : ∀ t ∈ olds, t.place = .over
  waiting : ∀ t ∈ waits, t.place = .waiting
  launched : ∀ t ∈ fresh, t.place = .launched
  holder : acts.map Turn.id = s.holder.toList
  waiters : waits.map Turn.id = s.waiters
  free : acts = [] → waits = []

/-- A session whose turns are in line. Nothing is known of the place of the turn `cur` that goes on. -/
def Queued (cur : Option Nat) (m : Manager) (s : Session) : Prop :=
  ∃ olds acts waits fresh, m.Line s olds acts waits fresh ∧ ∀ t ∈ acts, cur = some t.id ∨ t.place.isActive

/-- Turns that were launched and not polled yet are ready in the order of their launch. -/
structure Ready (cur : Option Nat) (m : Manager) : Prop where
  known : ∀ id ∈ m.ready, id < m.turns.length
  fifo : m.ready.Pairwise fun a b => ∀ t ∈ m.turns, t.id = b → t.place = .launched → a < b
  launched : ∀ t ∈ m.turns, cur ≠ some t.id → t.place = .launched → t.id ∈ m.ready

/-- All turns are in line and have told what they may, in blocks `B` that follow one another in each session. -/
structure Sound (B : Nat → List TurnNews) (cur : Option Nat) (m : Manager) : Prop where
  named : m.Named
  queued : ∀ s ∈ m.sessions, m.Queued cur s
  ready : m.Ready cur
  told : ∀ sid, m.told sid = (m.turnsOf sid).flatMap fun t => (B t.id).map fun n => (t.requestId, n)
  tells : ∀ t ∈ m.turns, cur ≠ some t.id → t.place.Tells (B t.id)
  silent : ∀ t ∈ m.turns, cur ≠ some t.id → t.place = .over → B t.id = [] →
    ∀ s ∈ m.sessions, s.id = t.session → s.closed
  once : m.asked.Nodup
  asked : ∀ id ∈ m.asked, id < m.turns.length ∧ B id ≠ []

variable {m m' : Manager} {s : Session} {t : Turn} {B : Nat → List TurnNews} {cur : Option Nat}

/-! ### Names -/

theorem Named.nodup (h : m.Named) : (m.turns.map Turn.id).Nodup := by
  rw [h.turns]
  exact List.nodup_range

theorem Named.id_lt (h : m.Named) (ht : t ∈ m.turns) : t.id < m.turns.length := by
  have hm : t.id ∈ m.turns.map Turn.id := List.mem_map_of_mem ht
  rw [h.turns] at hm
  exact List.mem_range.mp hm

theorem Named.eq_of_id (h : m.Named) {u : Turn} (ht : t ∈ m.turns) (hu : u ∈ m.turns) (he : t.id = u.id) :
    t = u :=
  List.inj_on_of_nodup_map h.nodup ht hu he

theorem nodup_names (letter : String) (n : Nat) : ((List.range n).map fun k => letter ++ toString (k + 1)).Nodup := by
  refine List.Nodup.map_on ?_ List.nodup_range
  intro a _ b _ he
  have hr : Nat.repr (a + 1) = Nat.repr (b + 1) := (String.append_right_inj letter).mp he
  have hd := congrArg (fun s => Nat.ofDigitChars 10 s.toList 0) hr
  simp only [Nat.toList_repr, Nat.ofDigitChars_ten_toDigits] at hd
  omega

theorem Named.nodup_requests (h : m.Named) : (m.turns.map Turn.requestId).Nodup := by
  rw [h.requests]
  exact nodup_names "r" _

theorem Named.nodup_sessions (h : m.Named) : (m.sessions.map Session.id).Nodup := by
  rw [h.sessions]
  exact nodup_names "s" _

end Manager

end StackDeck.Diagnosis
