import Mathlib.Data.List.Forall2
import StackDeck.Proofs.Log.Feed
import StackDeck.Proofs.Log.TailRegistry

/-!
The task of one tail: what it reads of what it has seen, the lines it sends for that, and why it waits or ends.
-/

namespace StackDeck.Log

open Shell

namespace TailPlace

/-- What the task has seen and not read. -/
def unread : TailPlace → List Observation
  | .following _ unread => unread
  | .sending _ _ unread => unread
  | _ => []

/-- The line for which there was no room. -/
def held : TailPlace → List Line
  | .sending l _ _ => [l]
  | _ => []

def streams? : TailPlace → Option Streams
  | .following s _ => some s
  | .sending _ s _ => some s
  | _ => none

/-- More is there to be read, if the command runs. -/
def hear (os : List Observation) : TailPlace → TailPlace
  | .following s unread => .following s (unread ++ os)
  | .sending l s unread => .sending l s (unread ++ os)
  | q => q

theorem held_hear (os : List Observation) (q : TailPlace) : (q.hear os).held = q.held := by cases q <;> rfl

theorem streams?_hear (os : List Observation) (q : TailPlace) : (q.hear os).streams? = q.streams? := by cases q <;> rfl

theorem unread_hear {q : TailPlace} {s : Streams} (h : q.streams? = some s) (os : List Observation) :
    (q.hear os).unread = q.unread ++ os := by
  cases q <;> first | rfl | cases h

theorem ne_of_streams? {q : TailPlace} {s : Streams} (h : q.streams? = some s) : q ≠ .over ∧ q ≠ .waiting := by
  constructor
  · rintro rfl
    cases h
  · rintro rfl
    cases h

end TailPlace

/-- What the command of a tail shows at once if its next step starts it. -/
def Pipeline.opening? (id : Nat) (h : Host) (p : Pipeline) : Option Output :=
  match p.tail? id with
  | none => none
  | some t =>
    match t.place with
    | .waiting => (h.follow (t.source.command p.runtime p.backlog)).1.toOption
    | _ => none

/-- One line is sent for each line to be forwarded, in order. -/
def Carries (service : String) (source : Source) (read : List Observation) (ls : List Line) : Prop :=
  List.Forall₂ (fun raw l => ∃ now, l = parseLine now service raw) (read.filterMap source.forwarded?) ls

variable {service : String} {source : Source} {p p' : Pipeline} {t : Tail} {q : TailPlace}

namespace Carries

variable {read read' : List Observation} {ls ls' : List Line} {o : Observation}

theorem nil (service : String) (source : Source) : Carries service source [] [] := List.Forall₂.nil

theorem append (h : Carries service source read ls) (h' : Carries service source read' ls') :
    Carries service source (read ++ read') (ls ++ ls') := by
  rw [Carries, List.filterMap_append]
  exact List.rel_append h h'

theorem skip (ho : source.forwarded? o = none) (h : Carries service source read ls) :
    Carries service source (o :: read) ls := by
  rw [Carries, List.filterMap_cons_none ho]
  exact h

theorem send {raw : String} (ho : source.forwarded? o = some raw) (now : Instant) (h : Carries service source read ls) :
    Carries service source (o :: read) (parseLine now service raw :: ls) := by
  rw [Carries, List.filterMap_cons_some ho]
  exact List.Forall₂.cons ⟨now, rfl⟩ h

end Carries

namespace Pipeline

/-! ### A task that relays -/

/-- From one pipeline to another a task has read some of what it has seen, sent lines for it, and come to a place. -/
structure Relays (t : Tail) (s : Streams) (os : List Observation) (p p' : Pipeline) (q : TailPlace)
    (read rest : List Observation) (ls : List Line) : Prop where
  tails : p'.tails = (p.place t.id q).tails
  queue : p'.queue = p.queue ++ ls
  listening : p'.listening = p.listening
  split : os = read ++ q.unread ++ rest
  carries : Carries t.service t.source read (ls ++ q.held)
  streams : ∀ s', q.streams? = some s' → s' = read.foldl Streams.after s
  /-- Only a task that ends leaves something unread, and none ends without a reason. -/
  left : rest = [] ∨ q = .over
  ends : q = .over → t.cancelled = true ∨ p.listening = false ∨ (read.foldl Streams.after s).isOpen = false
  /-- It stops early only for want of room. -/
  room : p'.hasRoom = true → q.unread = [] ∧ q.held = []
  quiet : t.cancelled = true → ls = [] ∧ q.held = []
  begun : q ≠ .waiting

theorem exit_queue (t : Tail) (p : Pipeline) : (p.exit t).queue = p.queue := by
  unfold Pipeline.exit removeIfCurrent
  split <;> rfl

theorem exit_listening (t : Tail) (p : Pipeline) : (p.exit t).listening = p.listening := by
  unfold Pipeline.exit removeIfCurrent
  split <;> rfl

theorem Relays.exit {s : Streams} {os : List Observation} (h : t.cancelled = true ∨ p.listening = false ∨ s.isOpen = false) :
    Relays t s os p (p.exit t) .over [] os [] where
  tails := exit_tails t p
  queue := (exit_queue t p).trans (List.append_nil _).symm
  listening := exit_listening t p
  split := rfl
  carries := .nil _ _
  streams _ hs := nomatch hs
  left := .inr rfl
  ends _ := h
  room _ := ⟨rfl, rfl⟩
  quiet _ := ⟨rfl, rfl⟩
  begun := nofun

section

variable {s : Streams} {os read rest : List Observation} {o : Observation} {raw : String} {ls : List Line}

theorem Relays.pause (t : Tail) (s : Streams) (p : Pipeline) :
    Relays t s [] p (p.place t.id (.following s [])) (.following s []) [] [] [] where
  tails := rfl
  queue := (List.append_nil _).symm
  listening := rfl
  split := rfl
  carries := .nil _ _
  streams _ hs := (Option.some.inj hs).symm
  left := .inl rfl
  ends := nofun
  room _ := ⟨rfl, rfl⟩
  quiet _ := ⟨rfl, rfl⟩
  begun := nofun

theorem Relays.skip (ho : t.source.forwarded? o = none) (h : Relays t (s.after o) os p p' q read rest ls) :
    Relays t s (o :: os) p p' q (o :: read) rest ls :=
  { h with
    split := congrArg (o :: ·) h.split
    carries := h.carries.skip ho }

theorem Relays.send (ho : t.source.forwarded? o = some raw) (hlive : t.cancelled = false)
    (h : Relays t (s.after o) os { p with queue := p.queue ++ [parseLine p.now t.service raw] } p' q read rest ls) :
    Relays t s (o :: os) p p' q (o :: read) rest (parseLine p.now t.service raw :: ls) :=
  { h with
    queue := by
      rw [h.queue, List.append_assoc]
      rfl
    split := congrArg (o :: ·) h.split
    carries := h.carries.send ho p.now
    quiet := fun hc => nomatch hlive.symm.trans hc }

theorem Relays.wait (ho : t.source.forwarded? o = some raw) (hlive : t.cancelled = false) (hfull : ¬p.hasRoom = true)
    (os : List Observation) : Relays t s (o :: os) p
      (p.place t.id (.sending (parseLine p.now t.service raw) (s.after o) os))
      (.sending (parseLine p.now t.service raw) (s.after o) os) [o] [] [] where
  tails := rfl
  queue := (List.append_nil _).symm
  listening := rfl
  split := (List.append_nil _).symm
  carries := (Carries.nil _ _).send ho p.now
  streams _ hs := (Option.some.inj hs).symm
  left := .inl rfl
  ends := nofun
  room hroom := absurd hroom hfull
  quiet hc := nomatch hlive.symm.trans hc
  begun := nofun

end

/-- However far a task comes at one go, it has relayed what it read. -/
theorem relay_relays (t : Tail) (s : Streams) (os : List Observation) (p : Pipeline) :
    ∃ q read rest ls, Relays t s os p (p.relay t s os) q read rest ls := by
  -- By induction on what was seen. The streams and the queue change from one step to the next.
  induction os generalizing s p with
  | nil =>
    rw [relay]
    split
    next => exact ⟨_, _, _, _, .pause t s p⟩
    next hclosed => exact ⟨_, _, _, _, .exit (.inr (.inr (by simpa using hclosed)))⟩
  | cons o r ih =>
    rw [relay]
    split
    next hstop =>
      refine ⟨_, _, _, _, .exit ?_⟩
      rcases Bool.or_eq_true_iff.mp hstop with hc | hs
      · exact .inl hc
      · exact .inr (.inr (by simpa using hs))
    next hgo =>
      have hlive : t.cancelled = false := (Bool.or_eq_false_iff.mp (Bool.eq_false_iff.mpr hgo)).1
      split
      next ho =>
        obtain ⟨q, read, rest, ls, h⟩ := ih (s.after o) p
        exact ⟨q, _, rest, ls, h.skip ho⟩
      next raw ho =>
        dsimp only
        split
        next hdeaf => exact ⟨_, _, _, _, .exit (.inr (.inl (by simpa using hdeaf)))⟩
        next =>
          split
          next =>
            obtain ⟨q, read, rest, ls, h⟩ := ih (s.after o) { p with queue := p.queue ++ [parseLine p.now t.service raw] }
            exact ⟨q, _, rest, _, h.send ho hlive⟩
          next hfull => exact ⟨_, _, _, _, .wait ho hlive hfull r⟩

end Pipeline

/-- What is kept of a tail: it has read some of what it has seen, and what it sent is for that. Only one that was told to stop, or
that nobody hears, leaves anything behind, and any other ends with its streams. What is lost is the line that a task held when its
reader went away. -/
structure Tail.Reads (t : Tail) (f : Feed) (sent : List Line) (listening : Bool) (read rest : List Observation)
    (lost : List Line) : Prop where
  split : f.seen = read ++ t.place.unread ++ rest
  carries : Carries t.service t.source read (sent ++ t.place.held ++ lost)
  streams : ∀ s, t.place.streams? = some s → s = read.foldl Streams.after {}
  left : rest = [] ∧ lost = [] ∨ t.place = .over ∧ (t.cancelled = true ∨ listening = false)
  ends : t.place = .over →
    (t.cancelled = true ∨ listening = false) ∨ f.begun = false ∨ (read.foldl Streams.after {}).isOpen = false
  waiting : t.place = .waiting → f = {} ∧ sent = []

/-- Nothing is left behind while the command runs. -/
theorem Tail.Reads.running {f : Feed} {sent lost : List Line} {listening : Bool} {read rest : List Observation} {s : Streams}
    (h : t.Reads f sent listening read rest lost) (hs : t.place.streams? = some s) :
    f.seen = read ++ t.place.unread ∧ Carries t.service t.source read (sent ++ t.place.held) ∧
      s = read.foldl Streams.after {} := by
  obtain ⟨rfl, rfl⟩ := h.left.resolve_right fun hl => (TailPlace.ne_of_streams? hs).1 hl.1
  exact ⟨h.split.trans (List.append_nil _), List.append_nil (sent ++ t.place.held) ▸ h.carries, h.streams s hs⟩

namespace Pipeline

/-- The task of a tail has come to a place, and sent lines. -/
structure Goes (t : Tail) (q : TailPlace) (ls : List Line) (p p' : Pipeline) : Prop where
  own : p'.tail? t.id = some { t with place := q }
  others : ∀ id, id ≠ t.id → p'.tail? id = p.tail? id
  queue : p'.queue = p.queue ++ ls
  listening : p'.listening = p.listening

theorem place_tail? (id j : Nat) (q : TailPlace) (p : Pipeline) :
    (p.place id q).tail? j = (p.tail? j).map fun t => if id == j then { t with place := q } else t :=
  find?_map_at fun _ => rfl

theorem Goes.of_tails {ls : List Line} {q₀ : TailPlace} (h₀ : p.tail? t.id = some { t with place := q₀ })
    (htails : p'.tails = (p.place t.id q).tails) (hqueue : p'.queue = p.queue ++ ls)
    (hlistening : p'.listening = p.listening) : Goes t q ls p p' := by
  have htail (j : Nat) : p'.tail? j = (p.tail? j).map fun u => if t.id == j then { u with place := q } else u := by
    rw [tail?, htails]
    exact place_tail? t.id j q p
  refine ⟨?_, fun id hid => ?_, hqueue, hlistening⟩
  · rw [htail, h₀]
    simp
  · rw [htail, beq_eq_false_iff_ne.mpr hid.symm]
    exact Option.map_id'

/-- A step of the task of a tail, with what is kept of it. -/
structure Steps (t : Tail) (f : Feed) (sent : List Line) (p p' : Pipeline) (q : TailPlace) (ls : List Line) : Prop
    extends Goes t q ls p p' where
  reads : ∃ read rest lost, ({ t with place := q } : Tail).Reads f (sent ++ ls) p.listening read rest lost
  room : p'.hasRoom = true → q.unread = [] ∧ q.held = []
  quiet : t.cancelled = true → ls ++ q.held <+: t.place.held

section

variable {f : Feed} {read rest : List Observation} {sent lost : List Line} {s : Streams} {os : List Observation} {q₀ : TailPlace}

/-- A task ends that was told to, that nobody hears, or whose command does not start. -/
theorem exit_steps (h₀ : p.tail? t.id = some { t with place := q₀ }) (h : t.Reads f sent p.listening read rest lost)
    (hwhy : (t.cancelled = true ∨ p.listening = false) ∨ t.place = .waiting) : Steps t f sent p (p.exit t) .over [] where
  toGoes := .of_tails h₀ (exit_tails t p) ((exit_queue t p).trans (List.append_nil _).symm) (exit_listening t p)
  reads := by
    refine ⟨read, t.place.unread ++ rest, t.place.held ++ lost, ?_, ?_, nofun, ?_, fun _ => ?_, nofun⟩
    · rw [h.split, List.append_assoc, List.append_assoc]
      rfl
    · have hcarries := h.carries
      rw [List.append_assoc] at hcarries
      simpa [TailPlace.held] using hcarries
    · rcases hwhy with hwhy | hw
      · exact .inr ⟨rfl, hwhy⟩
      · rw [hw]
        exact h.left.imp id fun hl => ⟨rfl, hl.2⟩
    · exact hwhy.imp_right fun hw => .inl (congrArg Feed.begun (h.waiting hw).1)
  room _ := ⟨rfl, rfl⟩
  quiet _ := List.nil_prefix

/-- A task that goes on reads on, until both of its streams have ended or something stops it. -/
theorem relay_steps (h₀ : p.tail? t.id = some { t with place := q₀ }) (hsound : f.Sound) (hsplit : f.seen = read ++ os)
    (hcarries : Carries t.service t.source read sent) (hs : s = read.foldl Streams.after {}) :
    ∃ q ls, Steps t f sent p (p.relay t s os) q ls ∧ (t.cancelled = true → ls = [] ∧ q.held = []) := by
  obtain ⟨q, read', rest, ls, h⟩ := relay_relays t s os p
  have hfold : read'.foldl Streams.after s = (read ++ read').foldl Streams.after {} := by rw [hs, List.foldl_append]
  have hseen : f.seen = read ++ read' ++ q.unread ++ rest := by
    rw [hsplit, h.split]
    simp only [List.append_assoc]
  have hwhy (hover : q = .over) : (t.cancelled = true ∨ p.listening = false) ∨
      ((read ++ read').foldl Streams.after {}).isOpen = false := hfold ▸ or_assoc.mpr (h.ends hover)
  refine ⟨q, ls, ⟨.of_tails h₀ h.tails h.queue h.listening, ⟨read ++ read', rest, [], hseen, ?_, ?_, ?_, ?_, ?_⟩, h.room, ?_⟩,
    h.quiet⟩
  · have hall := hcarries.append h.carries
    rw [← List.append_assoc] at hall
    exact (List.append_nil _).symm ▸ hall
  · exact fun s' hs' => hfold ▸ h.streams s' hs'
  · rcases h.left with hrest | rfl
    · exact .inl ⟨hrest, rfl⟩
    · rcases hwhy rfl with hwhy | hclosed
      · exact .inr ⟨rfl, hwhy⟩
      -- Here both streams were seen to end, and nothing is seen of a stream after its end.
      · refine .inl ⟨hsound.nothing_after ?_ hclosed, rfl⟩
        rw [hseen]
        exact congrArg (· ++ rest) (List.append_nil _)
  · exact fun hover => (hwhy hover).imp_right .inr
  · exact fun hw => absurd hw h.begun
  · intro hc
    obtain ⟨rfl, hheld⟩ := h.quiet hc
    rw [hheld]
    exact List.nil_prefix

theorem Steps.stay (h₀ : p.tail? t.id = some t) (h : t.Reads f sent p.listening read rest lost)
    (hroom : p.hasRoom = true → t.place.unread = [] ∧ t.place.held = []) : Steps t f sent p p t.place [] where
  own := h₀
  others _ _ := rfl
  queue := (List.append_nil _).symm
  listening := rfl
  reads := ⟨read, rest, lost, (List.append_nil sent).symm ▸ h⟩
  room := hroom
  quiet _ := List.prefix_rfl

/-- A line for which there is room now has waited to be sent. -/
theorem Steps.sends {l : Line} {ls : List Line} (hheld : t.place.held = [l])
    (h : Steps t f (sent ++ [l]) { p with queue := p.queue ++ [l] } p' q ls)
    (hquiet : t.cancelled = true → ls = [] ∧ q.held = []) : Steps t f sent p p' q (l :: ls) where
  own := h.own
  others := h.others
  queue := by
    rw [h.queue, List.append_assoc]
    rfl
  listening := h.listening
  reads := by
    have hreads := h.reads
    rwa [List.append_assoc] at hreads
  room := h.room
  quiet hc := by
    obtain ⟨rfl, hq⟩ := hquiet hc
    rw [hq, hheld]
    exact List.prefix_rfl

theorem follow_steps {unread : List Observation} (h₀ : p.tail? t.id = some { t with place := q₀ })
    (hplace : t.place = .following s unread) (h : t.Reads f sent p.listening read rest lost) (hsound : f.Sound) :
    ∃ q ls, Steps t f sent p (p.resume t) q ls := by
  have hresume : p.resume t = if t.cancelled then p.exit t else p.relay t s unread := by rw [resume, hplace]
  rw [hresume]
  split
  next hc => exact ⟨_, _, exit_steps h₀ h (.inl (.inl hc))⟩
  next =>
    obtain ⟨hsplit, hcarries, hs⟩ := h.running (s := s) (by rw [hplace]; rfl)
    rw [hplace] at hsplit hcarries
    obtain ⟨q, ls, hsteps, -⟩ := relay_steps h₀ hsound hsplit (List.append_nil sent ▸ hcarries) hs
    exact ⟨q, ls, hsteps⟩

theorem send_steps {l : Line} {unread : List Observation} (h₀ : p.tail? t.id = some t) (hplace : t.place = .sending l s unread)
    (h : t.Reads f sent p.listening read rest lost) (hsound : f.Sound) : ∃ q ls, Steps t f sent p (p.resume t) q ls := by
  have hresume : p.resume t = if !p.listening then p.exit t
      else if p.hasRoom then { p with queue := p.queue ++ [l] }.relay t s unread else p := by rw [resume, hplace]
  rw [hresume]
  split
  next hdeaf => exact ⟨_, _, exit_steps h₀ h (.inl (.inr (by simpa using hdeaf)))⟩
  next =>
    split
    next =>
      obtain ⟨hsplit, hcarries, hs⟩ := h.running (s := s) (by rw [hplace]; rfl)
      rw [hplace] at hsplit hcarries
      obtain ⟨q, ls, hsteps, hquiet⟩ := relay_steps (p := { p with queue := p.queue ++ [l] }) h₀ hsound hsplit hcarries hs
      exact ⟨q, _, hsteps.sends (by rw [hplace]; rfl) hquiet⟩
    next hfull => exact ⟨_, _, .stay h₀ h fun hroom => absurd hroom hfull⟩

/-- The next step of the task of a tail. The first one starts the command, and what it shows is seen. -/
theorem poll_steps (h₀ : p.tail? t.id = some t) (h : t.Reads f sent p.listening read rest lost)
    (hsound : f.Sound) (host : Host) :
    ∃ q ls, Steps t ((p.opening? t.id host).elim f Feed.opening) sent p (p.poll t.id host).2 q ls := by
  unfold poll opening?
  rw [h₀]
  dsimp only
  cases hplace : t.place with
  | waiting =>
    obtain ⟨rfl, rfl⟩ := h.waiting hplace
    dsimp only
    rcases host.follow (t.source.command p.runtime p.backlog) with ⟨_ | output, host'⟩
    · exact ⟨_, _, exit_steps h₀ h (.inr hplace)⟩
    · let t' : Tail := { t with place := .following {} output.observations }
      have hreads : t'.Reads (Feed.opening output) [] p.listening [] [] [] :=
        ⟨(List.append_nil _).symm, .nil _ _, fun s hs => (Option.some.inj hs).symm, .inl ⟨rfl, rfl⟩, nofun, nofun⟩
      obtain ⟨q, ls, hsteps⟩ := follow_steps (t := t') h₀ rfl hreads (Feed.sound_opening output)
      exact ⟨q, ls, ⟨hsteps.own, hsteps.others, hsteps.queue, hsteps.listening⟩, hsteps.reads, hsteps.room,
        hplace ▸ hsteps.quiet⟩
  | following s unread => exact follow_steps h₀ hplace h hsound
  | sending l s unread => exact send_steps h₀ hplace h hsound
  | _ =>
    have hresume : p.resume t = p := by rw [resume, hplace]
    refine ⟨.over, [], ?_⟩
    dsimp only
    rw [hresume, ← hplace]
    exact .stay h₀ h fun _ => by rw [hplace]; exact ⟨rfl, rfl⟩

end

end Pipeline

namespace Tail.Reads

variable {f : Feed} {read rest : List Observation} {sent lost : List Line} {listening listening' : Bool}

/-- More is seen while the command runs. -/
theorem hear {s : Streams} (h : t.Reads f sent listening read rest lost) (hs : t.place.streams? = some s) (isError : Bool)
    (c : Channel) :
    ({ t with place := t.place.hear (f.news isError c) } : Tail).Reads (f.hear isError c) sent listening read [] [] := by
  obtain ⟨hover, hwaiting⟩ := TailPlace.ne_of_streams? ((TailPlace.streams?_hear (f.news isError c) t.place).trans hs)
  obtain ⟨hsplit, hcarries, -⟩ := h.running hs
  refine ⟨?_, ?_, ?_, .inl ⟨rfl, rfl⟩, fun hq => absurd hq hover, fun hq => absurd hq hwaiting⟩
  · rw [TailPlace.unread_hear hs, Feed.hear, hsplit, List.append_nil, List.append_assoc]
  · rw [TailPlace.held_hear, List.append_nil]
    exact hcarries
  · rw [TailPlace.streams?_hear]
    exact h.streams

theorem deafen (h : t.Reads f sent listening read rest lost) (hl : listening' = true → listening = true) :
    t.Reads f sent listening' read rest lost := by
  have hdeaf (hd : listening = false) : listening' = false := Bool.eq_false_iff.mpr fun ht => Bool.eq_false_iff.mp hd (hl ht)
  exact ⟨h.split, h.carries, h.streams, h.left.imp_right (And.imp_right (Or.imp_right hdeaf)),
    fun hover => (h.ends hover).imp_left (Or.imp_right hdeaf), h.waiting⟩

theorem told (h : t.Reads f sent listening read rest lost) :
    ({ t with cancelled := true } : Tail).Reads f sent listening read rest lost :=
  ⟨h.split, h.carries, h.streams, h.left.imp_right (And.imp_right fun _ => .inl rfl), fun _ => .inl (.inl rfl), h.waiting⟩

/-- A tail that waits for its first step has done nothing. -/
theorem fresh (h : t.place = .waiting) : t.Reads {} [] listening [] [] [] := by
  obtain ⟨id, service, source, cancelled, place⟩ := t
  obtain rfl : place = .waiting := h
  exact ⟨rfl, .nil _ _, nofun, .inl ⟨rfl, rfl⟩, nofun, fun _ => ⟨rfl, rfl⟩⟩

end Tail.Reads

end StackDeck.Log
