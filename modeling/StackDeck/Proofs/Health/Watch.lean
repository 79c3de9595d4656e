import Mathlib.Data.List.Induction
import Mathlib.Data.List.ReduceOption
import StackDeck.Health.Monitor

/-!
A monitor whose cycles overlap. A cycle learns its services, its probes come back one by one and in any order, and then it ends;
others may begin, go on and end in between. The journal keeps what cycles told and what the reader of the snapshots found.
-/

namespace StackDeck

/-- Running, and with something to ask for. -/
def Service.isProbed (s : Service) : Bool := s.running && (s.healthUrl.isSome || s.port.isSome)

namespace Health

/-- How far a cycle is. -/
inductive Stage where
  | underway
  | applied
  | dropped
  deriving DecidableEq, Repr

structure Cycle where
  services : List Service
  /-- What is known of each service so far. -/
  found : List (Option Outcome)
  stage : Stage := .underway
  deriving DecidableEq, Repr

namespace Cycle

/-- A cycle that has its services. Those that are not probed are unknown already. -/
def opening (services : List Service) : Cycle where
  services
  found := services.map fun s => if s.isProbed then none else some .unknown

/-- One probe comes back. Each does so once. -/
def hear (timeout i : Nat) (n : Network) (c : Cycle) : Cycle :=
  match c.services[i]?, c.found[i]? with
  | some s, some none => { c with found := c.found.set i (some (n.probe timeout s)) }
  | _, _ => c

def drop (c : Cycle) : Cycle := if c.stage = .underway then { c with stage := .dropped } else c

/-- All probes are back. -/
def isReady (c : Cycle) : Bool := c.stage = .underway && c.found.all Option.isSome

/-- What a cycle has found out, by the names of its services. -/
def checks (c : Cycle) : List (String × Outcome) := (c.services.map Service.name).zip c.found.reduceOption

end Cycle

/-- What a cycle told when it ended. -/
structure Report where
  cycle : Nat
  now : Instant
  checks : List (String × Outcome)
  deriving DecidableEq, Repr

inductive Entry where
  /-- A cycle ended, and this is the snapshot of it. -/
  | applied (r : Report) (s : Snapshot)
  /-- The reader looked, and found a snapshot or none. -/
  | looked (found : Option Snapshot)

namespace Entry

def report? : Entry → Option Report
  | .applied r _ => some r
  | .looked _ => none

/-- The snapshot that a cycle left. -/
def snapshot? : Entry → Option Snapshot
  | .applied _ s => some s
  | .looked _ => none

/-- The snapshot that the reader found. -/
def found? : Entry → Option Snapshot
  | .applied .. => none
  | .looked found => found

end Entry

/-- A monitor, the cycles that were begun and what came of them, oldest first. -/
structure Watch where
  monitor : Monitor
  cycles : List Cycle := []
  journal : List Entry := []

namespace Watch

inductive Move where
  /-- A cycle begins: it was told the services, or it was not. -/
  | begins (services : Except BackendError (List Service))
  /-- The probe of one of its services comes back from the network. -/
  | hears (k i : Nat) (n : Network)
  | ends (k : Nat) (now : Instant)
  /-- The cycle is given up. -/
  | drops (k : Nat)
  /-- The reader of the snapshots looks for one. -/
  | looks

/-- The cycle of a number if it can end. -/
def ready? (k : Nat) (w : Watch) : Option Cycle := w.cycles[k]?.filter Cycle.isReady

def move (w : Watch) : Move → Watch
  | .begins (.error _) => w
  | .begins (.ok services) => { w with cycles := w.cycles ++ [.opening services] }
  | .hears k i n => { w with cycles := w.cycles.modify k (Cycle.hear w.monitor.probeTimeout i n) }
  | .ends k now =>
    match w.ready? k with
    | none => w
    | some c =>
      let (s, monitor) := w.monitor.record now c.services c.found.reduceOption
      { monitor
        cycles := w.cycles.set k { c with stage := .applied }
        journal := w.journal ++ [.applied ⟨k, now, c.checks⟩ s] }
  | .drops k => { w with cycles := w.cycles.modify k Cycle.drop }
  | .looks =>
    let (s, monitor) := w.monitor.receive
    { w with monitor, journal := w.journal ++ [.looked s] }

def run (ms : List Move) (w : Watch) : Watch := ms.foldl move w

def start (interval probeTimeout : Nat) : Watch := { monitor := { interval, probeTimeout } }

/-- What cycles told, in the order in which they ended. -/
def reports (w : Watch) : List Report := w.journal.filterMap Entry.report?

/-- What a cycle tells that nothing comes between. -/
def report? (now : Instant) (n : Network) (services : Except BackendError (List Service)) (w : Watch) : Option Report :=
  services.toOption.map fun services =>
    ⟨w.cycles.length, now, services.map fun s => (s.name, n.probe w.monitor.probeTimeout s)⟩

theorem run_append (ms ms' : List Move) (w : Watch) : w.run (ms ++ ms') = (w.run ms).run ms' := List.foldl_append

theorem run_keeps {P : Watch → Prop} {w : Watch} (hstep : ∀ w mv, P w → P (w.move mv)) (h : P w) (ms : List Move) :
    P (w.run ms) := by
  induction ms generalizing w with
  | nil => exact h
  | cons mv r ih => exact ih (hstep w mv h)

/-- A cycle that ends is applied, and noted with the snapshot that it leaves. -/
theorem move_ends {w : Watch} {k : Nat} {c : Cycle} (h : w.ready? k = some c) (now : Instant) :
    w.move (.ends k now) =
      { monitor := (w.monitor.record now c.services c.found.reduceOption).2
        cycles := w.cycles.set k { c with stage := .applied }
        journal := w.journal ++
          [.applied ⟨k, now, c.checks⟩ (w.monitor.record now c.services c.found.reduceOption).1] } := by
  rw [move, h]

theorem move_ends_none {w : Watch} {k : Nat} (h : w.ready? k = none) (now : Instant) : w.move (.ends k now) = w := by
  rw [move, h]

end Watch

/-! ### What becomes of a cycle -/

namespace Cycle

variable {timeout : Nat} {n : Network} {c : Cycle}

/-- What is known of a service was asked of the network, if it is one to be probed. -/
structure Fits (timeout : Nat) (c : Cycle) : Prop where
  length : c.found.length = c.services.length
  asked : ∀ (i : Nat) s o, c.services[i]? = some s → c.found[i]? = some (some o) →
    ∃ n : Network, o = n.probe timeout s

/-- A service that is not probed is unknown, whatever the network. -/
theorem probe_idle {s : Service} (h : s.isProbed = false) (n : Network) (timeout : Nat) : n.probe timeout s = .unknown := by
  obtain ⟨name, running, state, port, url⟩ := s
  cases running with
  | false => rfl
  | true => cases url <;> cases port <;> first | rfl | cases h

theorem fits_opening (services : List Service) : (opening services).Fits timeout := by
  refine ⟨List.length_map _, fun i s o hs ho => ?_⟩
  have hs' : services[i]? = some s := hs
  rw [opening, List.getElem?_map, hs', Option.map_some] at ho
  cases hp : s.isProbed with
  | true => simp [hp] at ho
  | false =>
    refine ⟨.unreachable, ?_⟩
    rw [probe_idle hp]
    simpa [hp] using ho.symm

theorem hear_services (timeout i : Nat) (n : Network) (c : Cycle) : (c.hear timeout i n).services = c.services := by
  unfold hear
  split <;> rfl

theorem hear_stage (timeout i : Nat) (n : Network) (c : Cycle) : (c.hear timeout i n).stage = c.stage := by
  unfold hear
  split <;> rfl

theorem Fits.hear (h : c.Fits timeout) (i : Nat) (n : Network) : (c.hear timeout i n).Fits timeout := by
  unfold Cycle.hear
  split
  next s hs ho =>
    refine ⟨by simpa using h.length, fun j s' o hs' ho' => ?_⟩
    rw [List.getElem?_set] at ho'
    split at ho'
    next hij =>
      subst hij
      obtain rfl : s = s' := Option.some.inj (hs.symm.trans hs')
      split at ho'
      next => exact ⟨n, (Option.some.inj (Option.some.inj ho')).symm⟩
      next => cases ho'
    next => exact h.asked j s' o hs' ho'
  next => exact h

/-- Nothing is added to a cycle whose probes are all back. -/
theorem hear_complete (h : c.found.all Option.isSome = true) (timeout i : Nat) (n : Network) : c.hear timeout i n = c := by
  unfold Cycle.hear
  split
  next s hs ho => exact nomatch List.all_eq_true.mp h none (List.mem_of_getElem? ho)
  next => rfl

theorem hear_other {i j : Nat} (h : j ≠ i) : (c.hear timeout i n).found[j]? = c.found[j]? := by
  unfold Cycle.hear
  split
  next => exact List.getElem?_set_ne (Ne.symm h)
  next => rfl

theorem hear_absent {i : Nat} (h : c.found[i]? = none) : c.hear timeout i n = c := by
  unfold Cycle.hear
  split
  next hi => exact nomatch h.symm.trans hi
  next => rfl

theorem hear_self {i : Nat} {s : Service} {o : Option Outcome} (hs : c.services[i]? = some s) (ho : c.found[i]? = some o) :
    (c.hear timeout i n).found[i]? = some (some (o.getD (n.probe timeout s))) := by
  have hlt : i < c.found.length := (List.getElem?_eq_some_iff.mp ho).1
  cases o with
  | none =>
    rw [Cycle.hear, hs, ho]
    exact List.getElem?_set_self hlt
  | some a =>
    rw [Cycle.hear, hs, ho]
    exact ho

theorem drop_found (c : Cycle) : c.drop.services = c.services ∧ c.drop.found = c.found := by
  unfold drop
  split <;> exact ⟨rfl, rfl⟩

theorem drop_applied (c : Cycle) : c.drop.stage = .applied ↔ c.stage = .applied := by
  unfold drop
  split
  next h => simp [h]
  next => rfl

theorem map_some_reduceOption {os : List (Option Outcome)} (h : os.all Option.isSome = true) :
    os.reduceOption.map some = os := by
  induction os with
  | nil => rfl
  | cons o r ih =>
    rw [List.all_cons, Bool.and_eq_true] at h
    obtain ⟨a, rfl⟩ := Option.isSome_iff_exists.mp h.1
    rw [List.reduceOption_cons_of_some, List.map_cons, ih h.2]

/-- A cycle goes on: what was told to it stays, and what it knew when it was complete. -/
structure Later (c c' : Cycle) : Prop where
  services : c'.services = c.services
  found : c.found.all Option.isSome = true → c'.found = c.found
  applied : c'.stage = .applied ↔ c.stage = .applied

theorem hear_later (timeout i : Nat) (n : Network) (c : Cycle) : c.Later (c.hear timeout i n) :=
  ⟨hear_services timeout i n c, fun h => congrArg Cycle.found (hear_complete h timeout i n),
    by rw [hear_stage]⟩

theorem drop_later (c : Cycle) : c.Later c.drop := ⟨c.drop_found.1, fun _ => c.drop_found.2, c.drop_applied⟩

theorem Later.checks {c' : Cycle} (h : c.Later c') (hc : c.found.all Option.isSome = true) : c'.checks = c.checks := by
  rw [Cycle.checks, Cycle.checks, h.services, h.found hc]

end Cycle

namespace Watch

variable {w w' : Watch}

/-- Every cycle that was applied told what it found out, once, and no other told anything. -/
structure Accounted (w : Watch) : Prop where
  fits : ∀ c ∈ w.cycles, c.Fits w.monitor.probeTimeout
  once : (w.reports.map Report.cycle).Nodup
  applied : ∀ k, k ∈ w.reports.map Report.cycle ↔ ∃ c, w.cycles[k]? = some c ∧ c.stage = .applied
  told : ∀ r ∈ w.reports, ∃ c, w.cycles[r.cycle]? = some c ∧ c.found.all Option.isSome = true ∧ r.checks = c.checks

theorem accounted_start (interval probeTimeout : Nat) : (start interval probeTimeout).Accounted :=
  ⟨by simp [start], List.nodup_nil, by simp [start, reports], by simp [start, reports]⟩

/-- A cycle goes on, and nothing is told. -/
theorem Accounted.goesOn (h : w.Accounted) {k : Nat} {f : Cycle → Cycle} (hlater : ∀ c : Cycle, c.Later (f c))
    (hfits : ∀ c : Cycle, c.Fits w.monitor.probeTimeout → (f c).Fits w.monitor.probeTimeout)
    (hcycles : w'.cycles = w.cycles.modify k f) (htimeout : w'.monitor.probeTimeout = w.monitor.probeTimeout)
    (hreports : w'.reports = w.reports) : w'.Accounted := by
  have hget (j : Nat) : w'.cycles[j]? = w.cycles[j]?.map fun c => if k = j then f c else c := by
    rw [hcycles, List.getElem?_modify]
    rfl
  have hat (j : Nat) (c : Cycle) : c.Later (if k = j then f c else c) := by
    split
    · exact hlater c
    · exact ⟨rfl, fun _ => rfl, .rfl⟩
  refine ⟨?_, hreports ▸ h.once, fun j => ?_, ?_⟩
  · intro c hc
    obtain ⟨j, hj⟩ := List.mem_iff_getElem?.mp hc
    rw [hget] at hj
    obtain ⟨c', hc', rfl⟩ := Option.map_eq_some_iff.mp hj
    have hold := h.fits c' (List.mem_of_getElem? hc')
    rw [htimeout]
    split
    · exact hfits c' hold
    · exact hold
  · rw [hreports, h.applied, hget]
    constructor
    · rintro ⟨c, hc, hs⟩
      exact ⟨_, by rw [hc, Option.map_some], (hat j c).applied.mpr hs⟩
    · rintro ⟨c, hc, hs⟩
      obtain ⟨c', hc', rfl⟩ := Option.map_eq_some_iff.mp hc
      exact ⟨c', hc', (hat j c').applied.mp hs⟩
  · rw [hreports]
    intro r hr
    obtain ⟨c, hc, hall, hchecks⟩ := h.told r hr
    refine ⟨_, by rw [hget, hc, Option.map_some], ?_, ?_⟩
    · rw [(hat r.cycle c).found hall]
      exact hall
    · rw [hchecks, (hat r.cycle c).checks hall]

theorem Accounted.opens (h : w.Accounted) (services : List Service)
    (hcycles : w'.cycles = w.cycles ++ [.opening services]) (htimeout : w'.monitor.probeTimeout = w.monitor.probeTimeout)
    (hreports : w'.reports = w.reports) : w'.Accounted := by
  refine ⟨?_, hreports ▸ h.once, fun k => ?_, ?_⟩
  · rw [hcycles, htimeout]
    intro c hc
    rcases List.mem_append.mp hc with hc | hc
    · exact h.fits c hc
    · exact List.mem_singleton.mp hc ▸ Cycle.fits_opening services
  · rw [hreports, h.applied, hcycles]
    refine exists_congr fun c => ?_
    rw [List.getElem?_append]
    split
    next => rfl
    next hk =>
      rw [List.getElem?_eq_none (Nat.not_lt.mp hk)]
      refine iff_of_false nofun ?_
      rintro ⟨hc, hs⟩
      rw [List.mem_singleton.mp (List.mem_of_getElem? hc)] at hs
      exact nomatch hs
  · rw [hreports, hcycles]
    intro r hr
    obtain ⟨c, hc, hrest⟩ := h.told r hr
    exact ⟨c, List.getElem?_append_left (List.getElem?_eq_some_iff.mp hc).1 ▸ hc, hrest⟩

theorem ready?_spec {k : Nat} {c : Cycle} (h : w.ready? k = some c) :
    w.cycles[k]? = some c ∧ c.stage = .underway ∧ c.found.all Option.isSome = true := by
  obtain ⟨hc, hready⟩ := Option.filter_eq_some_iff.mp h
  rw [Cycle.isReady, Bool.and_eq_true, decide_eq_true_eq] at hready
  exact ⟨hc, hready⟩

theorem reports_ends {k : Nat} {c : Cycle} (h : w.ready? k = some c) (now : Instant) :
    (w.move (.ends k now)).reports = w.reports ++ [⟨k, now, c.checks⟩] := by
  rw [move_ends h, reports, List.filterMap_append]
  rfl

theorem reports_looks (w : Watch) : (w.move .looks).reports = w.reports := by
  rw [move, reports, List.filterMap_append]
  exact List.append_nil _

/-- A cycle that ends tells what it found out, for the first time. -/
theorem Accounted.ends (h : w.Accounted) {k : Nat} {c : Cycle} (hc : w.ready? k = some c) (now : Instant) :
    (w.move (.ends k now)).Accounted := by
  obtain ⟨hk, hunderway, hall⟩ := ready?_spec hc
  have hlt : k < w.cycles.length := (List.getElem?_eq_some_iff.mp hk).1
  have hcycles : (w.move (.ends k now)).cycles = w.cycles.set k { c with stage := .applied } := by rw [move_ends hc]
  have htimeout : (w.move (.ends k now)).monitor.probeTimeout = w.monitor.probeTimeout := by
    rw [move_ends hc]
    rfl
  have hnew : k ∉ w.reports.map Report.cycle := by
    rw [h.applied]
    rintro ⟨c', hc', hs⟩
    obtain rfl : c = c' := Option.some.inj (hk.symm.trans hc')
    exact nomatch hunderway.symm.trans hs
  have hids : (w.move (.ends k now)).reports.map Report.cycle = w.reports.map Report.cycle ++ [k] := by
    rw [reports_ends hc, List.map_append]
    rfl
  refine ⟨?_, ?_, fun j => ?_, ?_⟩
  · rw [hcycles, htimeout]
    intro c' hc'
    rcases List.mem_or_eq_of_mem_set hc' with hc' | rfl
    · exact h.fits c' hc'
    · have hold := h.fits c (List.mem_of_getElem? hk)
      exact ⟨hold.length, hold.asked⟩
  · rw [hids, List.nodup_append]
    refine ⟨h.once, List.pairwise_singleton _ k, fun j hj j' hj' he => hnew ?_⟩
    rwa [← List.mem_singleton.mp hj', ← he]
  · rw [hids, List.mem_append, List.mem_singleton, h.applied, hcycles]
    by_cases hkj : k = j
    · subst hkj
      rw [List.getElem?_set_self hlt]
      exact iff_of_true (.inr rfl) ⟨_, rfl, rfl⟩
    · rw [List.getElem?_set_ne hkj, or_iff_left (Ne.symm hkj)]
  · rw [reports_ends hc, hcycles]
    intro r hr
    rcases List.mem_append.mp hr with hr | hr
    · obtain ⟨c', hc', hrest⟩ := h.told r hr
      have hne : k ≠ r.cycle := fun he => hnew (he ▸ List.mem_map_of_mem hr)
      exact ⟨c', (List.getElem?_set_ne hne).trans hc', hrest⟩
    · rw [List.mem_singleton.mp hr]
      exact ⟨_, List.getElem?_set_self hlt, hall, rfl⟩

theorem Accounted.move (h : w.Accounted) (mv : Move) : (w.move mv).Accounted := by
  cases mv with
  | begins services =>
    cases services with
    | error e => exact h
    | ok services => exact h.opens services rfl rfl rfl
  | hears k i n =>
    exact h.goesOn (Cycle.hear_later w.monitor.probeTimeout i n) (fun c hc => hc.hear i n) rfl rfl rfl
  | drops k =>
    refine h.goesOn Cycle.drop_later (fun c hc => ?_) rfl rfl rfl
    obtain ⟨hs, hf⟩ := c.drop_found
    exact ⟨hs ▸ hf ▸ hc.length, hs ▸ hf ▸ hc.asked⟩
  | looks =>
    have hreports := (reports_looks w).symm
    exact ⟨h.fits, hreports ▸ h.once, hreports ▸ h.applied, hreports ▸ h.told⟩
  | ends k now =>
    cases hc : w.ready? k with
    | none => exact (move_ends_none hc now).symm ▸ h
    | some c => exact h.ends hc now

/-! ### A cycle that nothing comes between -/

theorem reduceOption_map_some {α : Type} (as : List α) : (as.map some).reduceOption = as := by
  simp [List.reduceOption, List.filterMap_map]

/-- What is known when some of the probes are back. -/
theorem hears_run (n : Network) {w : Watch} {k : Nat} {c : Cycle} (is : List Nat) (hk : w.cycles[k]? = some c) :
    (w.run (is.map fun i => .hears k i n)).monitor = w.monitor ∧
    (w.run (is.map fun i => .hears k i n)).journal = w.journal ∧
    (w.run (is.map fun i => .hears k i n)).cycles[k]? =
      some (is.foldl (fun c i => c.hear w.monitor.probeTimeout i n) c) := by
  induction is generalizing w c with
  | nil => exact ⟨rfl, rfl, hk⟩
  | cons i r ih =>
    have hk' : (w.move (.hears k i n)).cycles[k]? = some (c.hear w.monitor.probeTimeout i n) := by
      rw [Watch.move, List.getElem?_modify, hk]
      simp
    exact ih hk'

theorem foldl_hear_services (n : Network) (timeout : Nat) (is : List Nat) (c : Cycle) :
    (is.foldl (fun c i => c.hear timeout i n) c).services = c.services := by
  induction is generalizing c with
  | nil => rfl
  | cons i r ih => exact (ih _).trans (Cycle.hear_services timeout i n c)

theorem foldl_hear_stage (n : Network) (timeout : Nat) (is : List Nat) (c : Cycle) :
    (is.foldl (fun c i => c.hear timeout i n) c).stage = c.stage := by
  induction is generalizing c with
  | nil => rfl
  | cons i r ih => exact (ih _).trans (Cycle.hear_stage timeout i n c)

/-- What is known of each service when some of the probes are back. -/
theorem foldl_hear (n : Network) (timeout : Nat) (services : List Service) (is : List Nat) : ∀ j : Nat,
    (is.foldl (fun c i => c.hear timeout i n) (Cycle.opening services)).found[j]? =
      services[j]?.map fun s => if s.isProbed ∧ j ∉ is then none else some (n.probe timeout s) := by
  induction is using List.reverseRecOn with
  | nil =>
    intro j
    rw [List.foldl_nil, Cycle.opening, List.getElem?_map]
    refine Option.map_congr fun s _ => ?_
    cases hp : s.isProbed with
    | true => simp
    | false => simp [Cycle.probe_idle hp]
  | append_singleton is i ih =>
    intro j
    rw [List.foldl_append, List.foldl_cons, List.foldl_nil]
    by_cases hij : j = i
    · subst hij
      have hknown := ih j
      cases hs : services[j]? with
      | none =>
        rw [hs] at hknown
        rw [Cycle.hear_absent hknown, hknown]
        rfl
      | some s =>
        rw [hs, Option.map_some] at hknown
        have hs' : (is.foldl (fun c i => c.hear timeout i n) (Cycle.opening services)).services[j]? = some s := by
          rw [foldl_hear_services]
          exact hs
        rw [Cycle.hear_self hs' hknown]
        split <;> simp
    · rw [Cycle.hear_other hij, ih j]
      simp [hij]

/-- The probes of a lone cycle come back one after another. -/
theorem foldl_hear_all (n : Network) (timeout : Nat) (services : List Service) :
    (List.range services.length).foldl (fun c i => c.hear timeout i n) (Cycle.opening services) =
      ⟨services, (services.map (n.probe timeout)).map some, .underway⟩ := by
  have hservices := foldl_hear_services n timeout (List.range services.length) (Cycle.opening services)
  have hstage := foldl_hear_stage n timeout (List.range services.length) (Cycle.opening services)
  have hfound : ((List.range services.length).foldl (fun c i => c.hear timeout i n) (Cycle.opening services)).found =
      (services.map (n.probe timeout)).map some := by
    refine List.ext_getElem? fun j => ?_
    rw [foldl_hear, List.map_map, List.getElem?_map]
    refine Option.map_congr fun s hs => ?_
    have hj : j ∈ List.range services.length := List.mem_range.mpr (List.getElem?_eq_some_iff.mp hs).1
    rw [if_neg fun h => h.2 hj]
    rfl
  exact congr (congrArg₂ Cycle.mk hservices hfound) hstage

/-- A cycle that nothing comes between is a check. -/
theorem check_run (now : Instant) (n : Network) (services : Except BackendError (List Service)) (w : Watch) :
    ∃ ms, (w.run ms).monitor = (w.monitor.check now n services).2 ∧
      (w.run ms).reports = w.reports ++ (w.report? now n services).toList := by
  cases services with
  | error e => exact ⟨[], rfl, (List.append_nil _).symm⟩
  | ok services =>
    have hk : (w.move (.begins (.ok services))).cycles[w.cycles.length]? = some (Cycle.opening services) := by
      simp [Watch.move]
    obtain ⟨hmonitor, hjournal, hcycle⟩ := hears_run n (List.range services.length) hk
    rw [foldl_hear_all] at hcycle
    have hready : ((w.move (.begins (.ok services))).run
        ((List.range services.length).map fun i => .hears w.cycles.length i n)).ready? w.cycles.length =
          some ⟨services, (services.map (n.probe w.monitor.probeTimeout)).map some, .underway⟩ :=
      Option.filter_eq_some_iff.mpr ⟨hcycle, by simp [Cycle.isReady]⟩
    have houtcomes : ((services.map (n.probe w.monitor.probeTimeout)).map some).reduceOption =
        services.map (n.probe w.monitor.probeTimeout) := reduceOption_map_some _
    refine ⟨(.begins (.ok services) :: (List.range services.length).map fun i => .hears w.cycles.length i n) ++
      [.ends w.cycles.length now], ?_, ?_⟩
    · rw [run_append]
      refine (congrArg Watch.monitor (move_ends hready now)).trans ?_
      dsimp only
      rw [hmonitor, houtcomes]
      rfl
    · rw [run_append]
      have hchecks : (⟨services, (services.map (n.probe w.monitor.probeTimeout)).map some, .underway⟩ : Cycle).checks =
          services.map fun s => (s.name, n.probe w.monitor.probeTimeout s) := by
        rw [Cycle.checks, houtcomes, List.zip_map']
      refine (reports_ends hready now).trans ?_
      rw [hchecks, reports, hjournal]
      rfl

end Watch

end Health

end StackDeck
