import StackDeck.Log.Pipeline
import StackDeck.Proofs.Keyed

/-!
The tails of a stack among everybody who starts and stops them: callers, reconciles that ask a backend between
their steps, and the tasks of the tails themselves, in any order.
-/

namespace StackDeck.Log

/-- The task of the tail has ended. -/
def Tail.isOver (t : Tail) : Bool :=
  match t.place with
  | .over => true
  | _ => false

/-- Neither told to stop nor ended. -/
def Tail.isLive (t : Tail) : Bool := !t.cancelled && !t.isOver

/-- Where a reconcile is. -/
inductive Sweep where
  /-- Looks at the tails that there were. -/
  | clearing (running tailed : List String)
  /-- Looks at the services that run. -/
  | filling (running : List String)
  /-- Waits to be told where the output of a service is found. -/
  | asking (service : String) (running : List String)
  | over

/-- The next step of a reconcile. Other things may happen before it, also while it asks. -/
def Sweep.step (sourceOf : String → Except BackendError Source) (s : Sweep) (p : Pipeline) : Sweep × Pipeline :=
  match s with
  | .clearing running [] => (.filling running, p)
  | .clearing running (name :: r) => (.clearing running r, if running.contains name then p else (p.stop name).2)
  | .filling [] => (.over, p)
  | .filling (name :: r) => (if p.isTailing name then .filling r else .asking name r, p)
  | .asking name r => (.filling r, match sourceOf name with
      | .ok source => (p.start name source).2
      | .error _ => p)
  | .over => (.over, p)

/-- The tails and the reconciles that were begun. -/
structure Roster where
  pipeline : Pipeline
  sweeps : List Sweep := []

namespace Roster

inductive Move where
  | start (service : String) (source : Source)
  | stop (service : String)
  | stopAll
  /-- A reconcile begins with the services that run, in whatever order. -/
  | reconcile (running : List String)
  /-- A reconcile takes its next step. -/
  | goOn (k : Nat) (sourceOf : String → Except BackendError Source)
  /-- The task of a tail goes on, on a machine. -/
  | poll (id : Nat) (h : Shell.Host)
  /-- What the task of a tail waits for has ended, and with it the task. -/
  | exit (id : Nat)
  | receive
  | abandon

def move (r : Roster) : Move → Roster
  | .start service source => { r with pipeline := (r.pipeline.start service source).2 }
  | .stop service => { r with pipeline := (r.pipeline.stop service).2 }
  | .stopAll => { r with pipeline := r.pipeline.stopAll }
  | .reconcile running => { r with sweeps := r.sweeps ++ [.clearing running r.pipeline.active] }
  | .goOn k sourceOf =>
    match r.sweeps[k]? with
    | none => r
    | some s => ⟨(s.step sourceOf r.pipeline).2, r.sweeps.set k (s.step sourceOf r.pipeline).1⟩
  | .poll id h => { r with pipeline := (r.pipeline.poll id h).2 }
  | .exit id =>
    match r.pipeline.tail? id with
    | none => r
    | some t => if t.isOver then r else { r with pipeline := r.pipeline.exit t }
  | .receive => { r with pipeline := r.pipeline.receive.2 }
  | .abandon => { r with pipeline := r.pipeline.abandon }

def run (ms : List Move) (r : Roster) : Roster := ms.foldl move r

/-- Nothing was tailed yet. -/
def start (runtime : String) (backlog capacity : Nat) (now : Instant) : Roster :=
  { pipeline := { runtime, backlog, capacity, now } }

theorem run_append (ms ms' : List Move) (r : Roster) : r.run (ms ++ ms') = (r.run ms).run ms' :=
  List.foldl_append

/-! ### A reconcile that nothing comes between -/

variable {sourceOf : String → Except BackendError Source}

/-- One more step of the only reconcile. -/
theorem run_goOn (n : Nat) (s : Sweep) (p : Pipeline) :
    (⟨p, [s]⟩ : Roster).run (List.replicate (n + 1) (.goOn 0 sourceOf)) =
      (⟨(s.step sourceOf p).2, [(s.step sourceOf p).1]⟩ : Roster).run (List.replicate n (.goOn 0 sourceOf)) := rfl

theorem run_filling (running : List String) (p : Pipeline) :
    ∃ n, (⟨p, [.filling running]⟩ : Roster).run (List.replicate n (.goOn 0 sourceOf)) =
      ⟨running.foldl (fun p name => p.adopt sourceOf name) p, [.over]⟩ := by
  induction running generalizing p with
  | nil => exact ⟨1, rfl⟩
  | cons name r ih =>
    obtain ⟨n, hn⟩ := ih (p.adopt sourceOf name)
    rw [List.foldl_cons]
    by_cases ht : p.isTailing name = true
    · have ha : p.adopt sourceOf name = p := if_pos ht
      refine ⟨n + 1, ?_⟩
      rw [run_goOn, Sweep.step, if_pos ht]
      rwa [ha] at hn ⊢
    · have ha : p.adopt sourceOf name = match sourceOf name with
          | .ok source => (p.start name source).2
          | .error _ => p := if_neg ht
      refine ⟨n + 2, ?_⟩
      rw [run_goOn, Sweep.step, if_neg ht, run_goOn, Sweep.step, ← ha]
      exact hn

theorem run_clearing (running tailed : List String) (p : Pipeline) :
    ∃ n, (⟨p, [.clearing running tailed]⟩ : Roster).run (List.replicate n (.goOn 0 sourceOf)) =
      ⟨running.foldl (fun p name => p.adopt sourceOf name)
        ((tailed.filter fun name => !running.contains name).foldl (fun p name => (p.stop name).2) p), [.over]⟩ := by
  induction tailed generalizing p with
  | nil =>
    obtain ⟨n, hn⟩ := run_filling running p
    exact ⟨n + 1, hn⟩
  | cons name r ih =>
    by_cases hr : running.contains name = true
    · obtain ⟨n, hn⟩ := ih p
      refine ⟨n + 1, ?_⟩
      rw [run_goOn, Sweep.step, if_pos hr, List.filter_cons_of_neg (by rw [hr]; exact Bool.false_ne_true)]
      exact hn
    · obtain ⟨n, hn⟩ := ih (p.stop name).2
      refine ⟨n + 1, ?_⟩
      rw [run_goOn, Sweep.step, if_neg hr, List.filter_cons_of_pos (by simpa using hr), List.foldl_cons]
      exact hn

/-- The steps of a reconcile, one after another, are the reconcile. -/
theorem reconcile_run (services : List Service) (p : Pipeline) :
    ∃ n, (⟨p, []⟩ : Roster).run
        (.reconcile (Pipeline.runningNames services) :: List.replicate n (.goOn 0 sourceOf)) =
      ⟨p.reconcile sourceOf services, [.over]⟩ :=
  run_clearing _ _ _

end Roster

namespace Pipeline

variable {p p' p'' : Pipeline} {t : Tail} {id : Nat}

/-- Only the queue may differ. -/
structure Same (p p' : Pipeline) : Prop where
  registry : p'.registry = p.registry
  tails : p'.tails = p.tails
  issued : p'.issued = p.issued

theorem Same.refl (p : Pipeline) : p.Same p := ⟨rfl, rfl, rfl⟩

theorem Same.trans (h : p.Same p') (h' : p'.Same p'') : p.Same p'' :=
  ⟨h'.registry.trans h.registry, h'.tails.trans h.tails, h'.issued.trans h.issued⟩

theorem Same.place (h : p.Same p') (id : Nat) (q : TailPlace) : (p.place id q).Same (p'.place id q) :=
  ⟨h.registry, congrArg (List.map _) h.tails, h.issued⟩

theorem Same.exit (h : p.Same p') (t : Tail) : (p.exit t).Same (p'.exit t) := by
  have hid : (p'.place t.id .over).tailId? t.service = (p.place t.id .over).tailId? t.service :=
    congrArg (Registry.get? t.service) h.registry
  unfold Pipeline.exit removeIfCurrent
  rw [hid]
  split
  · exact ⟨congrArg (Registry.erase t.service) h.registry, (h.place t.id .over).tails, h.issued⟩
  · exact h.place t.id .over

/-! ### What one step of anybody does -/

/-- The tails and their registry change by a start, a stop or a stop of all, by a tail that goes on or by one that
ends. -/
inductive Deed (p p' : Pipeline) : Prop where
  | idle (h : p.Same p')
  | start (service : String) (source : Source) (h : p' = (p.start service source).2)
  | stop (service : String) (h : p' = (p.stop service).2)
  | stopAll (h : p' = p.stopAll)
  | goesOn (t : Tail) (q : TailPlace) (ht : p.tail? t.id = some t) (hover : t.isOver = false) (hq : q ≠ .over)
      (h : (p.place t.id q).Same p')
  | ends (t : Tail) (ht : p.tail? t.id = some t) (hover : t.isOver = false) (h : (p.exit t).Same p')

/-- What nobody calls for: a tail goes on or comes to its end. -/
inductive Drift (p p' : Pipeline) : Prop where
  | idle (h : p.Same p')
  | goesOn (t : Tail) (q : TailPlace) (ht : p.tail? t.id = some t) (hover : t.isOver = false) (hq : q ≠ .over)
      (h : (p.place t.id q).Same p')
  | ends (t : Tail) (ht : p.tail? t.id = some t) (hover : t.isOver = false) (h : (p.exit t).Same p')

theorem Drift.deed (d : p.Drift p') : p.Deed p' := by
  cases d with
  | idle h => exact .idle h
  | goesOn t q ht hover hq h => exact .goesOn t q ht hover hq h
  | ends t ht hover h => exact .ends t ht hover h

/-- A tail that relays goes on or ends; of the others it changes nothing. -/
theorem relay_cases (t : Tail) (s : Streams) (os : List Shell.Observation) (p : Pipeline) :
    (∃ q, q ≠ .over ∧ (p.place t.id q).Same (p.relay t s os)) ∨ (p.exit t).Same (p.relay t s os) := by
  induction os generalizing s p with
  | nil =>
    rw [relay]
    split
    · exact .inl ⟨.following s [], nofun, .refl _⟩
    · exact .inr (.refl _)
  | cons o r ih =>
    rw [relay]
    split
    · exact .inr (.refl _)
    · split
      · exact ih _ _
      · next raw _ =>
        have hsame : p.Same { p with queue := p.queue ++ [parseLine p.now t.service raw] } := ⟨rfl, rfl, rfl⟩
        dsimp only
        split
        · exact .inr (.refl _)
        · split
          · rcases ih (s.after o) { p with queue := p.queue ++ [parseLine p.now t.service raw] } with ⟨q, hq, h⟩ | h
            · exact .inl ⟨q, hq, (hsame.place t.id q).trans h⟩
            · exact .inr ((hsame.exit t).trans h)
          · exact .inl ⟨.sending (parseLine p.now t.service raw) (s.after o) r, nofun, .refl _⟩

theorem resume_cases (t : Tail) (p : Pipeline) : p.resume t = p ∨ t.isOver = false ∧
    ((∃ q, q ≠ .over ∧ (p.place t.id q).Same (p.resume t)) ∨ (p.exit t).Same (p.resume t)) := by
  unfold resume Tail.isOver
  cases t.place with
  | following s unread =>
    refine .inr ⟨rfl, ?_⟩
    dsimp only
    split
    · exact .inr (.refl _)
    · exact relay_cases t s unread p
  | sending l s unread =>
    have hsame : p.Same { p with queue := p.queue ++ [l] } := ⟨rfl, rfl, rfl⟩
    dsimp only
    split
    · exact .inr ⟨rfl, .inr (.refl _)⟩
    · split
      · refine .inr ⟨rfl, ?_⟩
        rcases relay_cases t s unread { p with queue := p.queue ++ [l] } with ⟨q, hq, h⟩ | h
        · exact .inl ⟨q, hq, (hsame.place t.id q).trans h⟩
        · exact .inr ((hsame.exit t).trans h)
      · exact .inl rfl
  | _ => exact .inl rfl

theorem tail?_id (h : p.tail? id = some t) : t ∈ p.tails ∧ t.id = id := mem_of_find?_key h

theorem poll_drift (id : Nat) (host : Shell.Host) (p : Pipeline) : p.Drift (p.poll id host).2 := by
  unfold poll
  cases ht : p.tail? id with
  | none => exact .idle (.refl p)
  | some t =>
    obtain rfl := (tail?_id ht).2
    dsimp only
    split
    next hw =>
      have hover : t.isOver = false := by rw [Tail.isOver, hw]
      split
      next => exact .ends t ht hover (.refl _)
      next output _ _ =>
        rcases resume_cases { t with place := .following {} output.observations } p with he | ⟨-, ⟨q, hq, h⟩ | h⟩
        · rw [he]
          exact .idle (.refl p)
        · exact .goesOn t q ht hover hq h
        · exact .ends t ht hover h
    next =>
      rcases resume_cases t p with he | ⟨hover, ⟨q, hq, h⟩ | h⟩
      · rw [he]
        exact .idle (.refl p)
      · exact .goesOn t q ht hover hq h
      · exact .ends t ht hover h

theorem step_deed (sourceOf : String → Except BackendError Source) (s : Sweep) (p : Pipeline) :
    p.Deed (s.step sourceOf p).2 := by
  cases s with
  | clearing running tailed =>
    cases tailed with
    | nil => exact .idle (.refl p)
    | cons name r =>
      simp only [Sweep.step]
      split
      · exact .idle (.refl p)
      · exact .stop name rfl
  | filling running =>
    cases running with
    | nil => exact .idle (.refl p)
    | cons name r => exact .idle (.refl p)
  | asking name r =>
    simp only [Sweep.step]
    split
    next source _ => exact .start name source rfl
    next => exact .idle (.refl p)
  | _ => exact .idle (.refl p)

end Pipeline

namespace Roster

open Pipeline

/-- A move that is no call and no step of a reconcile: the task of a tail goes on or ends, or the reader of the queue
takes a line or goes away. -/
def Move.isAside : Move → Bool
  | .poll .. | .exit _ | .receive | .abandon => true
  | _ => false

theorem move_drift {mv : Move} (h : mv.isAside = true) (r : Roster) :
    (r.move mv).sweeps = r.sweeps ∧ r.pipeline.Drift (r.move mv).pipeline := by
  cases mv with
  | poll id host => exact ⟨rfl, poll_drift id host _⟩
  | exit id =>
    rw [move]
    cases ht : r.pipeline.tail? id with
    | none => exact ⟨rfl, .idle (.refl _)⟩
    | some t =>
      obtain rfl := (tail?_id ht).2
      dsimp only
      split
      · exact ⟨rfl, .idle (.refl _)⟩
      next hover => exact ⟨rfl, .ends t ht (by simpa using hover) (.refl _)⟩
  | receive =>
    refine ⟨rfl, ?_⟩
    simp only [move, receive]
    split <;> exact .idle ⟨rfl, rfl, rfl⟩
  | abandon => exact ⟨rfl, .idle ⟨rfl, rfl, rfl⟩⟩
  | _ => cases h

theorem move_deed (mv : Move) (r : Roster) : r.pipeline.Deed (r.move mv).pipeline := by
  cases mv with
  | start service source => exact .start service source rfl
  | stop service => exact .stop service rfl
  | stopAll => exact .stopAll rfl
  | reconcile running => exact .idle (.refl _)
  | goOn k sourceOf =>
    rw [move]
    split
    · exact .idle (.refl _)
    · exact step_deed sourceOf _ _
  | poll id host => exact (move_drift rfl r).2.deed
  | exit id => exact (move_drift rfl r).2.deed
  | receive => exact (move_drift rfl r).2.deed
  | abandon => exact (move_drift rfl r).2.deed

end Roster

end StackDeck.Log
