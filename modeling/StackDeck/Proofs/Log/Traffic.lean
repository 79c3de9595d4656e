import StackDeck.Proofs.Log.Relaying

/-!
Log tails at work: their commands write to both streams in whatever order, callers start and stop tails, a reader takes lines
out of the queue, and in between the tasks of the tails go on. What the tasks have seen and sent is kept.
-/

namespace StackDeck.Log

open Shell

structure Traffic where
  pipeline : Pipeline
  /-- What was seen of the commands, by the numbers of their tails. -/
  feeds : Nat → Feed := fun _ => {}
  /-- The lines that were sent, with the numbers of their tails. -/
  sent : List (Nat × Line) := []
  /-- The lines that came out of the queue. -/
  received : List Line := []

namespace Traffic

inductive Move where
  | start (service : String) (source : Source)
  | stop (service : String)
  | stopAll
  /-- The task of a tail goes on, on a machine. -/
  | poll (id : Nat) (h : Host)
  /-- The command of a tail writes to a stream. -/
  | writes (id : Nat) (isError : Bool) (octets : List UInt8)
  /-- The command of a tail ends a stream. -/
  | closes (id : Nat) (isError : Bool)
  | receive
  | abandon
  | clock (now : Instant)

/-- A stream of the command of a tail changes, if the command runs. -/
def change (id : Nat) (isError : Bool) (f : Channel → Channel) (w : Traffic) : Traffic :=
  match w.pipeline.tail? id with
  | none => w
  | some t =>
    match t.place.streams? with
    | none => w
    | some _ =>
      let c := f ((w.feeds id).channel isError)
      { w with
        pipeline := w.pipeline.place id (t.place.hear ((w.feeds id).news isError c))
        feeds := Function.update w.feeds id ((w.feeds id).hear isError c) }

def move (w : Traffic) : Move → Traffic
  | .start service source => { w with pipeline := (w.pipeline.start service source).2 }
  | .stop service => { w with pipeline := (w.pipeline.stop service).2 }
  | .stopAll => { w with pipeline := w.pipeline.stopAll }
  | .poll id h =>
    let p := (w.pipeline.poll id h).2
    { w with
      pipeline := p
      feeds := match w.pipeline.opening? id h with
        | some output => Function.update w.feeds id (.opening output)
        | none => w.feeds
      sent := w.sent ++ (p.queue.drop w.pipeline.queue.length).map fun l => (id, l) }
  | .writes id isError octets => w.change id isError (Channel.write octets)
  | .closes id isError => w.change id isError Channel.close
  | .receive =>
    let (l, p) := w.pipeline.receive
    { w with pipeline := p, received := w.received ++ l.toList }
  | .abandon => { w with pipeline := w.pipeline.abandon }
  | .clock now => { w with pipeline := { w.pipeline with now } }

def run (ms : List Move) (w : Traffic) : Traffic := ms.foldl move w

/-- Nothing was tailed yet. -/
def start (runtime : String) (backlog capacity : Nat) (now : Instant) : Traffic :=
  { pipeline := { runtime, backlog, capacity, now } }

/-- The lines that a tail has sent. -/
def sentBy (id : Nat) (w : Traffic) : List Line := (w.sent.filter fun e => e.1 == id).map Prod.snd

theorem run_keeps {P : Traffic → Prop} {w : Traffic} (hstep : ∀ w mv, P w → P (w.move mv)) (h : P w) (ms : List Move) :
    P (w.run ms) := by
  induction ms generalizing w with
  | nil => exact h
  | cons mv r ih => exact ih (hstep w mv h)

end Traffic

variable {p p' : Pipeline} {t : Tail}

/-! ### What others do to a tail -/

/-- A tail that others deal with stays as it is, is told to stop, or begins. -/
inductive Spares : Option Tail → Option Tail → Prop
  | same (o : Option Tail) : Spares o o
  | told (t : Tail) : Spares (some t) (some { t with cancelled := true })
  | begins (t : Tail) (h : t.place = .waiting) : Spares none (some t)

namespace Pipeline

theorem spares_map {f : Tail → Tail} (hf : ∀ t, (f t).id = t.id) (hcases : ∀ t, f t = t ∨ f t = { t with cancelled := true })
    (htails : p'.tails = p.tails.map f) (id : Nat) : Spares (p.tail? id) (p'.tail? id) := by
  have htail : p'.tail? id = (p.tail? id).map f := by
    rw [tail?, htails]
    exact find?_map_key hf
  rw [htail]
  cases p.tail? id with
  | none => exact .same none
  | some t =>
    rcases hcases t with he | he
    · rw [Option.map_some, he]
      exact .same _
    · rw [Option.map_some, he]
      exact .told t

theorem spares_start (service : String) (source : Source) (id : Nat) (p : Pipeline) :
    Spares (p.tail? id) ((p.start service source).2.tail? id) := by
  cases hs : p.tailId? service with
  | some j =>
    rw [start_refused hs]
    exact .same _
  | none =>
    rw [start_accepted hs, tail?, tail?, List.find?_append]
    cases p.tails.find? fun t => t.id == id with
    | some t => exact .same _
    | none =>
      rw [Option.none_or, List.find?_singleton]
      split
      · exact .begins _ rfl
      · exact .same _

theorem spares_stop (service : String) (id : Nat) (p : Pipeline) : Spares (p.tail? id) ((p.stop service).2.tail? id) := by
  cases hs : p.tailId? service with
  | none =>
    rw [stop_none hs]
    exact .same _
  | some j =>
    rw [stop_some hs]
    refine spares_map (f := fun t => if t.id == j then { t with cancelled := true } else t) (fun t => ?_) (fun t => ?_) rfl id
    · split <;> rfl
    · split
      · exact .inr rfl
      · exact .inl rfl

theorem spares_stopAll (id : Nat) (p : Pipeline) : Spares (p.tail? id) (p.stopAll.tail? id) := by
  rw [stopAll_eq]
  refine spares_map (f := fun t => if (p.registry.entries.map Prod.snd).contains t.id then { t with cancelled := true } else t)
    (fun t => ?_) (fun t => ?_) rfl id
  · split <;> rfl
  · split
    · exact .inr rfl
    · exact .inl rfl

/-- Who starts or stops a tail leaves the queue alone. -/
theorem start_queue (service : String) (source : Source) (p : Pipeline) :
    (p.start service source).2.queue = p.queue ∧ (p.start service source).2.listening = p.listening := by
  unfold start
  dsimp only
  split <;> exact ⟨rfl, rfl⟩

theorem stop_queue (service : String) (p : Pipeline) :
    (p.stop service).2.queue = p.queue ∧ (p.stop service).2.listening = p.listening := by
  unfold stop
  split <;> exact ⟨rfl, rfl⟩

theorem stopAll_queue (p : Pipeline) : p.stopAll.queue = p.queue ∧ p.stopAll.listening = p.listening := by
  rw [stopAll_eq]
  exact ⟨rfl, rfl⟩

end Pipeline

namespace Traffic

variable {w w' : Traffic} {id : Nat}

/-- What holds of one tail: its task has seen what its command showed, and has read and sent accordingly. -/
structure Serves (id : Nat) (w : Traffic) : Prop where
  sound : (w.feeds id).Sound
  unborn : w.pipeline.tail? id = none → w.feeds id = {} ∧ w.sentBy id = []
  reads : ∀ t, w.pipeline.tail? id = some t → ∃ read rest lost,
    t.Reads (w.feeds id) (w.sentBy id) w.pipeline.listening read rest lost

/-- What becomes of a tail in one step of anybody. -/
inductive Deals (id : Nat) (w w' : Traffic) : Prop
  | spared (htail : Spares (w.pipeline.tail? id) (w'.pipeline.tail? id)) (hfeed : w'.feeds id = w.feeds id)
      (hsent : w'.sentBy id = w.sentBy id) (hlistening : w'.pipeline.listening = true → w.pipeline.listening = true)
  | polled (t : Tail) (q : TailPlace) (ls : List Line) (h₀ : w.pipeline.tail? id = some t)
      (hsteps : Pipeline.Steps t (w'.feeds id) (w.sentBy id) w.pipeline w'.pipeline q ls)
      (hsent : w'.sentBy id = w.sentBy id ++ ls) (hsound : (w'.feeds id).Sound)
  | heard (t : Tail) (s : Streams) (isError : Bool) (c : Channel) (h₀ : w.pipeline.tail? id = some t)
      (hs : t.place.streams? = some s)
      (hc : ((w.feeds id).channel isError).observations isError <+: c.observations isError)
      (htail : w'.pipeline.tail? id = some { t with place := t.place.hear ((w.feeds id).news isError c) })
      (hfeed : w'.feeds id = (w.feeds id).hear isError c) (hsent : w'.sentBy id = w.sentBy id)
      (hlistening : w'.pipeline.listening = w.pipeline.listening)

theorem sentBy_append (id j : Nat) (sent : List (Nat × Line)) (ls : List Line) :
    ((sent ++ ls.map fun l => (j, l)).filter fun e => e.1 == id).map Prod.snd =
      (sent.filter fun e => e.1 == id).map Prod.snd ++ if j = id then ls else [] := by
  rw [List.filter_append, List.map_append, List.filter_map]
  congr 1
  split
  next h =>
    have hall : ((fun e : Nat × Line => e.1 == id) ∘ fun l => (j, l)) = fun _ => true := funext fun _ => beq_iff_eq.mpr h
    rw [hall, List.filter_true, List.map_map]
    exact List.map_id' _
  next h =>
    have hnone : ((fun e : Nat × Line => e.1 == id) ∘ fun l => (j, l)) = fun _ => false :=
      funext fun _ => beq_eq_false_iff_ne.mpr h
    rw [hnone, List.filter_false]
    rfl

theorem poll_none (h : w.pipeline.tail? id = none) (host : Host) : w.move (.poll id host) = w := by
  have hpoll : (w.pipeline.poll id host).2 = w.pipeline := by rw [Pipeline.poll, h]
  have hopening : w.pipeline.opening? id host = none := by rw [Pipeline.opening?, h]
  simp only [move, hpoll, hopening, List.drop_length, List.map_nil, List.append_nil]

/-- The next step of a task, and the line it adds to what was sent. -/
theorem poll_deals (h : w.Serves id) {t : Tail} (h₀ : w.pipeline.tail? id = some t) (host : Host) : ∃ q ls,
    Pipeline.Steps t ((w.move (.poll id host)).feeds id) (w.sentBy id) w.pipeline (w.move (.poll id host)).pipeline q ls ∧
    (w.move (.poll id host)).sent = w.sent ++ ls.map (fun l => (id, l)) ∧ ((w.move (.poll id host)).feeds id).Sound ∧
    ∀ j, j ≠ id → (w.move (.poll id host)).feeds j = w.feeds j := by
  obtain rfl := (Pipeline.tail?_id h₀).2
  obtain ⟨read, rest, lost, hreads⟩ := h.reads t h₀
  obtain ⟨q, ls, hsteps⟩ := Pipeline.poll_steps h₀ hreads h.sound host
  have hsent : (w.move (.poll t.id host)).sent = w.sent ++ ls.map fun l => (t.id, l) := by
    rw [move, hsteps.queue, List.drop_left]
  have hfeeds : (w.move (.poll t.id host)).feeds = match w.pipeline.opening? t.id host with
      | some output => Function.update w.feeds t.id (.opening output)
      | none => w.feeds := rfl
  cases ho : w.pipeline.opening? t.id host with
  | none =>
    rw [ho] at hfeeds hsteps
    rw [hfeeds]
    exact ⟨q, ls, hsteps, hsent, h.sound, fun _ _ => rfl⟩
  | some output =>
    rw [ho] at hfeeds hsteps
    dsimp only at hfeeds
    rw [hfeeds, Function.update_self]
    exact ⟨q, ls, hsteps, hsent, Feed.sound_opening output, fun _ hj => Function.update_of_ne hj _ _⟩

theorem change_deals {f : Channel → Channel} (hf : ∀ c isError, c.observations isError <+: (f c).observations isError)
    (id j : Nat) (isError : Bool) (w : Traffic) : Deals id w (w.change j isError f) := by
  unfold change
  split
  next => exact .spared (.same _) rfl rfl fun hl => hl
  next t h₀ =>
    split
    next => exact .spared (.same _) rfl rfl fun hl => hl
    next s hs =>
      by_cases hj : j = id
      · subst hj
        refine .heard t s isError _ h₀ hs (hf _ _) ?_ (Function.update_self ..) rfl rfl
        rw [Pipeline.place_tail?, h₀]
        simp
      · refine .spared ?_ (Function.update_of_ne (Ne.symm hj) _ _) rfl fun hl => hl
        have hsame := Pipeline.place_tail? j id (t.place.hear ((w.feeds j).news isError (f ((w.feeds j).channel isError)))) w.pipeline
        rw [beq_eq_false_iff_ne.mpr hj] at hsame
        rw [hsame]
        exact Option.map_id'.symm ▸ .same _

theorem move_deals (h : ∀ j, w.Serves j) (mv : Move) (id : Nat) : Deals id w (w.move mv) := by
  cases mv with
  | start service source =>
    exact .spared (Pipeline.spares_start service source id w.pipeline) rfl rfl
      (Pipeline.start_queue service source w.pipeline).2.symm.trans
  | stop service =>
    exact .spared (Pipeline.spares_stop service id w.pipeline) rfl rfl (Pipeline.stop_queue service w.pipeline).2.symm.trans
  | stopAll => exact .spared (Pipeline.spares_stopAll id w.pipeline) rfl rfl (Pipeline.stopAll_queue w.pipeline).2.symm.trans
  | writes j isError octets => exact change_deals (fun c e => c.observations_prefix_write e octets) id j isError w
  | closes j isError => exact change_deals (fun c e => c.observations_prefix_close e) id j isError w
  | receive =>
    have hpipeline : w.pipeline.receive.2.tails = w.pipeline.tails ∧
        w.pipeline.receive.2.listening = w.pipeline.listening := by
      unfold Pipeline.receive
      split <;> exact ⟨rfl, rfl⟩
    refine .spared ?_ rfl rfl hpipeline.2.symm.trans
    have htail : (w.move .receive).pipeline.tail? id = w.pipeline.tail? id := by
      rw [Pipeline.tail?, Pipeline.tail?, ← hpipeline.1]
      rfl
    exact htail ▸ .same _
  | abandon => exact .spared (.same _) rfl rfl fun hl => absurd hl Bool.false_ne_true
  | clock now => exact .spared (.same _) rfl rfl fun hl => hl
  | poll j host =>
    cases h₀ : w.pipeline.tail? j with
    | none =>
      rw [poll_none h₀]
      exact .spared (.same _) rfl rfl fun hl => hl
    | some t =>
      obtain ⟨q, ls, hsteps, hsent, hsound, hfeeds⟩ := poll_deals (h j) h₀ host
      have hsentBy : (w.move (.poll j host)).sentBy id = w.sentBy id ++ if j = id then ls else [] := by
        rw [sentBy, hsent]
        exact sentBy_append id j w.sent ls
      by_cases hj : j = id
      · subst hj
        rw [if_pos rfl] at hsentBy
        exact .polled t q ls h₀ hsteps hsentBy hsound
      · rw [if_neg hj, List.append_nil] at hsentBy
        obtain rfl := (Pipeline.tail?_id h₀).2
        refine .spared ?_ (hfeeds id (Ne.symm hj)) hsentBy hsteps.listening.symm.trans
        rw [hsteps.others id (Ne.symm hj)]
        exact .same _

/-! ### What holds of every run -/

theorem Serves.deals (h : w.Serves id) (d : Deals id w w') : w'.Serves id := by
  cases d with
  | spared htail hfeed hsent hlistening =>
    generalize ho : w.pipeline.tail? id = o at htail
    generalize ho' : w'.pipeline.tail? id = o' at htail
    have hkeep (hnone : w.pipeline.tail? id = none) : w'.feeds id = {} ∧ w'.sentBy id = [] := by
      rw [hfeed, hsent]
      exact h.unborn hnone
    refine ⟨hfeed.symm ▸ h.sound, fun hnone => ?_, fun t' ht' => ?_⟩
    · cases htail with
      | same => exact hkeep (ho.trans (ho'.symm.trans hnone))
      | told t => exact nomatch ho'.symm.trans hnone
      | begins t => exact nomatch ho'.symm.trans hnone
    · rw [ho'] at ht'
      cases htail with
      | same =>
        obtain ⟨read, rest, lost, hreads⟩ := h.reads t' (ho.trans ht')
        exact ⟨read, rest, lost, hfeed.symm ▸ hsent.symm ▸ hreads.deafen hlistening⟩
      | told t =>
        obtain rfl := Option.some.inj ht'
        obtain ⟨read, rest, lost, hreads⟩ := h.reads t ho
        exact ⟨read, rest, lost, hfeed.symm ▸ hsent.symm ▸ (hreads.deafen hlistening).told⟩
      | begins t hw =>
        obtain rfl := Option.some.inj ht'
        obtain ⟨hfeed', hsent'⟩ := hkeep ho
        rw [hfeed', hsent']
        exact ⟨[], [], [], .fresh hw⟩
  | polled t q ls h₀ hsteps hsent hsound =>
    obtain rfl := (Pipeline.tail?_id h₀).2
    refine ⟨hsound, fun hnone => (nomatch hnone.symm.trans hsteps.own), fun t' ht' => ?_⟩
    obtain rfl := Option.some.inj (hsteps.own.symm.trans ht')
    rw [hsent, hsteps.listening]
    exact hsteps.reads
  | heard t s isError c h₀ hs hc htail hfeed hsent hlistening =>
    obtain ⟨read, rest, lost, hreads⟩ := h.reads t h₀
    refine ⟨hfeed ▸ h.sound.hear hc, fun hnone => (nomatch hnone.symm.trans htail), fun t' ht' => ?_⟩
    obtain rfl := Option.some.inj (htail.symm.trans ht')
    rw [hfeed, hsent, hlistening]
    exact ⟨read, [], [], hreads.hear hs isError c⟩

/-- The queue brings the reader the lines that were sent, as long as there is one. -/
def Arrives (w : Traffic) : Prop :=
  w.pipeline.listening = true → w.received ++ w.pipeline.queue = w.sent.map Prod.snd

theorem Arrives.same (h : w.Arrives) (hqueue : w'.pipeline.queue = w.pipeline.queue ∧ w'.pipeline.listening = w.pipeline.listening)
    (hreceived : w'.received = w.received) (hsent : w'.sent = w.sent) : w'.Arrives := by
  rw [Arrives, hqueue.1, hqueue.2, hreceived, hsent]
  exact h

theorem Arrives.change (h : w.Arrives) (id : Nat) (isError : Bool) (f : Channel → Channel) : (w.change id isError f).Arrives := by
  unfold Traffic.change
  split
  next => exact h
  next =>
    split
    next => exact h
    next => exact h.same ⟨rfl, rfl⟩ rfl rfl

theorem Arrives.move (h : w.Arrives) (hserves : ∀ j, w.Serves j) (mv : Move) : (w.move mv).Arrives := by
  cases mv with
  | start service source => exact h.same (Pipeline.start_queue service source w.pipeline) rfl rfl
  | stop service => exact h.same (Pipeline.stop_queue service w.pipeline) rfl rfl
  | stopAll => exact h.same (Pipeline.stopAll_queue w.pipeline) rfl rfl
  | writes j isError octets => exact h.change j isError _
  | closes j isError => exact h.change j isError _
  | abandon => exact nofun
  | clock now => exact h.same ⟨rfl, rfl⟩ rfl rfl
  | receive =>
    cases hq : w.pipeline.queue with
    | nil =>
      have hreceive : w.pipeline.receive = (none, w.pipeline) := by rw [Pipeline.receive, hq]
      rw [Traffic.move, hreceive]
      exact h.same ⟨rfl, rfl⟩ (List.append_nil _) rfl
    | cons l r =>
      have hreceive : w.pipeline.receive = (some l, { w.pipeline with queue := r }) := by rw [Pipeline.receive, hq]
      rw [Traffic.move, hreceive]
      intro hl
      rw [← h hl, hq]
      exact List.append_assoc w.received [l] r
  | poll j host =>
    cases h₀ : w.pipeline.tail? j with
    | none => exact (poll_none h₀ host).symm ▸ h
    | some t =>
      obtain ⟨q, ls, hsteps, hsent, -⟩ := poll_deals (hserves j) h₀ host
      intro hl
      have hreceived : (w.move (.poll j host)).received = w.received := rfl
      have hlines : (ls.map fun l => (j, l)).map Prod.snd = ls := by
        rw [List.map_map]
        exact List.map_id' _
      rw [hreceived, hsteps.queue, hsent, List.map_append, hlines, ← h (hsteps.listening ▸ hl), List.append_assoc]

theorem start_forwards (runtime : String) (backlog capacity : Nat) (now : Instant) :
    (∀ j, (start runtime backlog capacity now).Serves j) ∧ (start runtime backlog capacity now).Arrives :=
  ⟨fun _ => ⟨Feed.sound_empty, fun _ => ⟨rfl, rfl⟩, nofun⟩, fun _ => rfl⟩

theorem run_forwards {w : Traffic} (h : (∀ j, w.Serves j) ∧ w.Arrives) (ms : List Move) :
    (∀ j, (w.run ms).Serves j) ∧ (w.run ms).Arrives :=
  run_keeps (P := fun w => (∀ j, w.Serves j) ∧ w.Arrives)
    (fun _ mv h => ⟨fun j => (h.1 j).deals (move_deals h.1 mv j), h.2.move h.1 mv⟩) h ms

/-- A tail was told to stop: it sends the line it holds, if any, and nothing after it. -/
def Winds (id : Nat) (due : List Line) (w : Traffic) : Prop :=
  ∃ t, w.pipeline.tail? id = some t ∧ t.cancelled = true ∧ w.sentBy id ++ t.place.held <+: due

theorem Winds.deals {due : List Line} (h : w.Winds id due) (d : Deals id w w') : w'.Winds id due := by
  obtain ⟨t, ht, hc, hdue⟩ := h
  cases d with
  | spared htail hfeed hsent hlistening =>
    rw [ht] at htail
    generalize ho' : w'.pipeline.tail? id = o' at htail
    cases htail with
    | same => exact ⟨t, ho', hc, hsent ▸ hdue⟩
    | told => exact ⟨_, ho', rfl, hsent ▸ hdue⟩
  | polled u q ls h₀ hsteps hsent hsound =>
    obtain rfl := Option.some.inj (ht.symm.trans h₀)
    obtain rfl := (Pipeline.tail?_id ht).2
    refine ⟨_, hsteps.own, hc, ?_⟩
    rw [hsent, List.append_assoc]
    exact ((List.prefix_append_right_inj _).mpr (hsteps.quiet hc)).trans hdue
  | heard u s isError c h₀ hs _ htail hfeed hsent hlistening =>
    obtain rfl := Option.some.inj (ht.symm.trans h₀)
    refine ⟨_, htail, hc, ?_⟩
    rw [hsent]
    exact (TailPlace.held_hear _ _).symm ▸ hdue

theorem Winds.run {due : List Line} (hserves : (∀ j, w.Serves j) ∧ w.Arrives) (h : w.Winds id due) (ms : List Move) :
    (w.run ms).Winds id due :=
  (run_keeps (P := fun w => ((∀ j, w.Serves j) ∧ w.Arrives) ∧ w.Winds id due)
    (fun _ mv h => ⟨run_forwards h.1 [mv], h.2.deals (move_deals h.1.1 mv id)⟩) ⟨hserves, h⟩ ms).2

end Traffic

end StackDeck.Log
