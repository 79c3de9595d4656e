import Mathlib.Data.List.DropRight
import StackDeck.Proofs.Health.Watch
import StackDeck.Proofs.Registry

/-!
What a monitor says of a service, read off what its cycles told: the last outcome, and the failures since the service was healthy
or not listed. Cycles that overlap count in the order in which they end.
-/

namespace StackDeck.Health

namespace Outcome

def status : Outcome → HealthStatus
  | .healthy => .healthy
  | .unhealthy _ => .unhealthy
  | .unknown => .unknown

def error? : Outcome → Option String
  | .unhealthy error => some error
  | _ => none

end Outcome

/-- What a cycle told of a service. Of outcomes under one name the last is told. -/
def Report.outcome? (name : String) (r : Report) : Option Outcome := r.checks.reverse.lookup name

/-- Told something of the service, and not that it is healthy. -/
def Report.prolongs (name : String) (r : Report) : Bool := (r.outcome? name).any (· ≠ .healthy)

/-- The cycles since the last that found the service healthy or was not told of it. -/
def streak (name : String) (rs : List Report) : List Report := rs.rtakeWhile (Report.prolongs name)

/-- How often the service failed in these cycles. -/
def failuresIn (name : String) (rs : List Report) : Nat :=
  (streak name rs).countP fun r => (r.outcome? name).any fun o => o.status = .unhealthy

/-- A count as it is kept. -/
def capped (n : Nat) : UInt32 := UInt32.ofNat (min n (2 ^ 32 - 1))

/-- What is known of a service after some cycles, if the last one was told of it. -/
def healthAfter (name : String) (rs : List Report) : Option ServiceHealth :=
  rs.getLast?.bind fun r => (r.outcome? name).map fun o => ⟨o.status, r.now, o.error?, capped (failuresIn name rs)⟩

variable {name : String}

theorem toNat_capped (n : Nat) : (capped n).toNat = min n (2 ^ 32 - 1) :=
  UInt32.toNat_ofNat_of_lt' (show min n (2 ^ 32 - 1) < 2 ^ 32 by omega)

theorem Report.outcome?_iff {r : Report} : (∃ o, r.outcome? name = some o) ↔ name ∈ r.checks.map Prod.fst := by
  rw [← Option.isSome_iff_exists, Report.outcome?, List.lookup_isSome_iff]
  simp

/-! ### One more cycle -/

theorem countFailure_capped (n : Nat) : Monitor.countFailure (capped n) = capped (n + 1) := by
  have hsize : UInt32.size = 2 ^ 32 := rfl
  have hone : (1 : UInt32).toNat = 1 := rfl
  rw [← UInt32.toNat_inj, Monitor.countFailure, toNat_capped, toNat_capped, hsize]
  split
  · rw [UInt32.toNat_add, toNat_capped, hone]
    omega
  · rw [toNat_capped]
    omega

theorem failuresIn_broken {r : Report} (h : r.prolongs name = false) (rs : List Report) : failuresIn name (rs ++ [r]) = 0 := by
  rw [failuresIn, streak, List.rtakeWhile_concat_neg _ _ _ (by simpa using h)]
  rfl

theorem failuresIn_prolonged {r : Report} (h : r.prolongs name = true) (rs : List Report) : failuresIn name (rs ++ [r]) =
    failuresIn name rs + if (r.outcome? name).any (fun o => o.status = .unhealthy) then 1 else 0 := by
  rw [failuresIn, streak, List.rtakeWhile_concat_pos _ _ _ h, List.countP_append, List.countP_singleton]
  rfl

/-- Nothing is counted for a service of which nothing is known. -/
theorem failuresIn_of_unknown {rs : List Report} (h : healthAfter name rs = none) : failuresIn name rs = 0 := by
  induction rs using List.reverseRecOn with
  | nil => rfl
  | append_singleton rs r _ =>
    rw [healthAfter, List.getLast?_concat, Option.bind_some, Option.map_eq_none_iff] at h
    refine failuresIn_broken ?_ rs
    rw [Report.prolongs, h]
    rfl

/-- The last cycle is judged by the failures before it. -/
theorem healthAfter_concat (rs : List Report) (r : Report) : healthAfter name (rs ++ [r]) =
    (r.outcome? name).map (Monitor.judge r.now (capped (failuresIn name rs))) := by
  rw [healthAfter, List.getLast?_concat, Option.bind_some]
  refine Option.map_congr fun o ho => ?_
  cases o with
  | healthy =>
    have hbroken : r.prolongs name = false := by simp [Report.prolongs, ho]
    rw [failuresIn_broken hbroken]
    rfl
  | unhealthy error =>
    have hlonger : r.prolongs name = true := by simp [Report.prolongs, ho]
    simp only [failuresIn_prolonged hlonger, ho, Monitor.judge, countFailure_capped]
    rfl
  | unknown =>
    have hlonger : r.prolongs name = true := by simp [Report.prolongs, ho]
    simp only [failuresIn_prolonged hlonger, ho, Monitor.judge]
    rfl

theorem lookup_map_value {β γ : Type} (f : String → β → γ) (es : List (String × β)) (name : String) :
    (es.map fun e => (e.1, f e.1 e.2)).lookup name = (es.lookup name).map (f name) := by
  induction es with
  | nil => rfl
  | cons e r ih =>
    rw [List.map_cons, List.lookup_cons, List.lookup_cons, ih]
    by_cases h : name = e.1
    · simp [h]
    · simp [beq_eq_false_iff_ne.mpr h]

/-- What a snapshot says of a service: the judgement on its last outcome, given what was said before. -/
theorem nextSnapshot_get? (now : Instant) (services : List Service) (outcomes : List Outcome) (previous : Snapshot) :
    (Monitor.nextSnapshot now services outcomes previous).get? name =
      (((services.map Service.name).zip outcomes).reverse.lookup name).map
        (Monitor.judge now (Monitor.failures name previous)) := by
  have hnamed : Monitor.nextSnapshot now services outcomes previous =
      .ofList (((services.map Service.name).zip outcomes).map fun e =>
        (e.1, Monitor.judge now (Monitor.failures e.1 previous) e.2)) := by
    rw [List.zip_map_left, List.map_map]
    rfl
  rw [hnamed, Registry.get?_ofList, ← List.map_reverse]
  exact lookup_map_value (fun n => Monitor.judge now (Monitor.failures n previous)) _ name

namespace Watch

variable {w : Watch}

/-! ### What the snapshot says -/

/-- The snapshot says of every service what the cycles told. -/
structure Tracks (w : Watch) : Prop where
  sorted : w.monitor.latest.Sorted
  told : ∀ name, w.monitor.latest.get? name = healthAfter name w.reports

theorem Tracks.failures (h : w.Tracks) (name : String) :
    Monitor.failures name w.monitor.latest = capped (failuresIn name w.reports) := by
  rw [Monitor.failures, h.told]
  cases hs : healthAfter name w.reports with
  | none =>
    rw [failuresIn_of_unknown hs]
    rfl
  | some health =>
    obtain ⟨r, -, hr⟩ := Option.bind_eq_some_iff.mp hs
    obtain ⟨o, -, rfl⟩ := Option.map_eq_some_iff.mp hr
    rfl

theorem Tracks.same {w' : Watch} (h : w.Tracks) (hlatest : w'.monitor.latest = w.monitor.latest)
    (hreports : w'.reports = w.reports) : w'.Tracks := by
  refine ⟨hlatest ▸ h.sorted, fun name => ?_⟩
  rw [hlatest, hreports]
  exact h.told name

theorem Tracks.move (h : w.Tracks) (mv : Move) : (w.move mv).Tracks := by
  cases mv with
  | begins services =>
    cases services with
    | error e => exact h
    | ok services => exact h.same rfl rfl
  | hears k i n => exact h.same rfl rfl
  | drops k => exact h.same rfl rfl
  | looks => exact h.same rfl (reports_looks w)
  | ends k now =>
    cases hc : w.ready? k with
    | none =>
      rw [move_ends_none hc]
      exact h
    | some c =>
      have hlatest : (w.move (.ends k now)).monitor.latest =
          Monitor.nextSnapshot now c.services c.found.reduceOption w.monitor.latest := by
        rw [move_ends hc]
        rfl
      refine ⟨?_, fun name => ?_⟩
      · rw [hlatest]
        exact Registry.Sorted.ofList _
      · rw [hlatest, reports_ends hc, nextSnapshot_get?, healthAfter_concat, h.failures]
        rfl

/-- The snapshot has the services that the last cycle was told of. -/
theorem Tracks.mem_names (h : w.Tracks) (name : String) :
    name ∈ w.monitor.latest.names ↔ ∃ r, w.reports.getLast? = some r ∧ name ∈ r.checks.map Prod.fst := by
  rw [Registry.mem_names_iff, ← Option.isSome_iff_exists, h.told, healthAfter]
  cases w.reports.getLast? with
  | none => simp
  | some r => simp [← Report.outcome?_iff, Option.isSome_iff_exists]

theorem tracks_start (interval probeTimeout : Nat) : (start interval probeTimeout).Tracks :=
  ⟨Registry.sorted_empty, fun _ => rfl⟩

end Watch

/-- After whatever cycles, one after another or overlapping, the snapshot has the services of the last list, and says of each its
last outcome and how often it failed since it was last healthy or not listed, in the order in which the cycles ended. Every
cycle counts once, with what the probes of its services told; a service with nothing to ask for is unknown from the start. A
cycle without a list leaves everything as it was, and a check is a cycle that nothing comes between. -/
theorem failures_count_since_healthy (interval probeTimeout : Nat) (ms : List Watch.Move) :
    let w := (Watch.start interval probeTimeout).run ms
    let latest := w.monitor.latest
    (latest.names.Nodup ∧
      ∀ name, name ∈ latest.names ↔ ∃ r, w.reports.getLast? = some r ∧ name ∈ r.checks.map Prod.fst) ∧
    (∀ name h, latest.get? name = some h →
      (∃ r o, w.reports.getLast? = some r ∧ r.outcome? name = some o ∧
        h.status = o.status ∧ h.lastError = o.error? ∧ h.lastCheck = r.now) ∧
      h.consecutiveFailures.toNat = min (failuresIn name w.reports) (2 ^ 32 - 1) ∧
      (h.lastError.isSome ↔ h.status = .unhealthy)) ∧
    ((w.reports.map Report.cycle).Nodup ∧
      (∀ r ∈ w.reports, ∃ c, w.cycles[r.cycle]? = some c ∧
        r.checks.map Prod.fst = c.services.map Service.name ∧ (r.checks.map Prod.snd).map some = c.found) ∧
      ∀ k c, w.cycles[k]? = some c →
        (k ∈ w.reports.map Report.cycle ↔ c.stage = .applied) ∧
        (∀ (i : Nat) s o, c.services[i]? = some s → c.found[i]? = some (some o) →
          ∃ n : Network, o = n.probe w.monitor.probeTimeout s) ∧
        (c.isReady → ∀ now, (w.move (.ends k now)).reports = w.reports ++ [⟨k, now, c.checks⟩])) ∧
    (∀ s : Service, s.running = false ∨ s.healthUrl = none ∧ s.port = none →
      (∀ services (i : Nat), services[i]? = some s → (Cycle.opening services).found[i]? = some (some .unknown)) ∧
      ∀ (n : Network) timeout, n.probe timeout s = .unknown) ∧
    (∀ e, w.move (.begins (.error e)) = w ∧ ∀ now n, w.monitor.check now n (.error e) = (latest, w.monitor)) ∧
    ∀ now n services, ∃ ms', (w.run ms').monitor = (w.monitor.check now n services).2 ∧
      (w.run ms').reports = w.reports ++ (w.report? now n services).toList := by
  intro w latest
  have ht : w.Tracks := Watch.run_keeps (fun _ mv h => h.move mv) (Watch.tracks_start interval probeTimeout) ms
  have ha : w.Accounted := Watch.run_keeps (fun _ mv h => h.move mv) (Watch.accounted_start interval probeTimeout) ms
  refine ⟨⟨ht.sorted.nodup, ht.mem_names⟩, ?_, ⟨ha.once, ?_, ?_⟩, ?_, fun e => ⟨rfl, fun _ _ => rfl⟩,
    fun now n services => Watch.check_run now n services w⟩
  · intro name h hh
    rw [ht.told] at hh
    obtain ⟨r, hr, hjudged⟩ := Option.bind_eq_some_iff.mp hh
    obtain ⟨o, ho, rfl⟩ := Option.map_eq_some_iff.mp hjudged
    exact ⟨⟨r, o, hr, ho, rfl, rfl, rfl⟩, toNat_capped _, by cases o <;> simp [Outcome.error?, Outcome.status]⟩
  · intro r hr
    obtain ⟨c, hc, hall, hchecks⟩ := ha.told r hr
    have hfound := Cycle.map_some_reduceOption hall
    have hlength : c.found.reduceOption.length = (c.services.map Service.name).length := by
      rw [List.length_map, ← (ha.fits c (List.mem_of_getElem? hc)).length, ← hfound, List.length_map, hfound]
    refine ⟨c, hc, ?_, ?_⟩
    · rw [hchecks, Cycle.checks, List.map_fst_zip hlength.ge]
    · rw [hchecks, Cycle.checks, List.map_snd_zip hlength.le, hfound]
  · intro k c hc
    refine ⟨?_, (ha.fits c (List.mem_of_getElem? hc)).asked, fun hready now => ?_⟩
    · rw [ha.applied, hc]
      refine ⟨?_, fun hs => ⟨c, rfl, hs⟩⟩
      rintro ⟨c', hc', hs⟩
      exact Option.some.inj hc' ▸ hs
    · exact Watch.reports_ends (Option.filter_eq_some_iff.mpr ⟨hc, hready⟩) now
  · intro s hs
    have hidle : s.isProbed = false := by
      rcases hs with hr | ⟨hu, hp⟩
      · simp [Service.isProbed, hr]
      · simp [Service.isProbed, hu, hp]
    refine ⟨fun services i hi => ?_, fun n timeout => Cycle.probe_idle hidle n timeout⟩
    rw [Cycle.opening, List.getElem?_map, hi, Option.map_some, hidle]
    rfl

/-- Failures before a cycle that was not told of the service are forgotten, a cycle that tells nothing of its health is not. -/
example (now : Instant) : failuresIn "db" [⟨0, now, [("db", .unhealthy "refused")]⟩, ⟨1, now, [("web", .healthy)]⟩,
    ⟨2, now, [("db", .unhealthy "refused")]⟩, ⟨3, now, [("db", .unknown)]⟩] = 1 := rfl

end StackDeck.Health
