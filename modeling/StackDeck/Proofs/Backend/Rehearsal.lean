import StackDeck.Backend.Rehearsal
import StackDeck.Proofs.Keyed
import StackDeck.Proofs.Lifecycle.Outcome

namespace StackDeck.Rehearsal

/-- No two services have the same name. -/
def Distinct (w : Rehearsal) : Prop := (w.roster.map Service.name).Nodup

instance (w : Rehearsal) : Decidable w.Distinct := inferInstanceAs (Decidable (List.Nodup _))

def AllRunning (running : Bool) (w : Rehearsal) : Prop := ∀ s ∈ w.roster, s.running = running

variable {w : Rehearsal} {running : Bool}

theorem mark_names (name : String) (running : Bool) (services : List Service) :
    (mark name running services).map Service.name = services.map Service.name := by
  induction services with
  | nil => rfl
  | cons s r ih =>
    unfold mark
    split
    · rfl
    · rw [List.map_cons, List.map_cons, ih]

/-- Where names are told apart, the first service of a name is the only one. -/
theorem mark_eq_map {services : List Service} (h : (services.map Service.name).Nodup) (name : String)
    (running : Bool) : mark name running services =
      services.map fun s => if s.name == name then s.withRunning running else s := by
  induction services with
  | nil => rfl
  | cons s r ih =>
    obtain ⟨hs, hr⟩ := List.nodup_cons.mp h
    unfold mark
    by_cases he : s.name = name
    · have absent : ∀ t ∈ r, t.name ≠ name := by
        intro t ht hn
        exact hs (List.mem_map.mpr ⟨t, ht, hn.trans he.symm⟩)
      simp only [he, beq_self_eq_true, if_true, List.map_cons]
      rw [map_at_absent absent fun t => t.withRunning running]
    · simp [he, ih hr]

theorem setRunning_names (name : String) (running : Bool) (w : Rehearsal) :
    (w.setRunning name running).roster.map Service.name = w.roster.map Service.name :=
  mark_names name running w.roster

theorem Distinct.setRunning (h : w.Distinct) (name : String) (running : Bool) :
    (w.setRunning name running).Distinct := by
  unfold Distinct
  rw [setRunning_names]
  exact h

theorem Distinct.setNames (h : w.Distinct) (names : List String) (running : Bool) :
    (names.foldl (fun w name => w.setRunning name running) w).Distinct := by
  induction names generalizing w with
  | nil => exact h
  | cons name r ih => exact ih (h.setRunning name running)

/-- Once every name was set that is not as wanted, all services are. -/
theorem Distinct.allRunning_setNames (h : w.Distinct) {names : List String}
    (hn : ∀ s ∈ w.roster, s.name ∈ names ∨ s.running = running) :
    (names.foldl (fun w name => w.setRunning name running) w).AllRunning running := by
  induction names generalizing w with
  | nil =>
    intro s hs
    exact (hn s hs).resolve_left (by simp)
  | cons name r ih =>
    refine ih (h.setRunning name running) ?_
    intro s hs
    change s ∈ mark name running w.roster at hs
    rw [mark_eq_map h] at hs
    obtain ⟨t, ht, rfl⟩ := List.mem_map.mp hs
    by_cases he : t.name = name
    · simp [he, Service.withRunning]
    · have hne : t.name ∈ r ∨ t.running = running := by simpa [he] using hn t ht
      simpa [he] using hne

theorem Distinct.setAll (h : w.Distinct) (running : Bool) : (w.setAll running).Distinct :=
  h.setNames (w.roster.map Service.name) running

theorem Distinct.allRunning_setAll (h : w.Distinct) (running : Bool) :
    (w.setAll running).AllRunning running :=
  h.allRunning_setNames fun _ hs => .inl (List.mem_map_of_mem hs)

theorem Distinct.startFirst (h : w.Distinct) : w.startFirst.Distinct := by
  unfold Distinct Rehearsal.startFirst
  cases hr : w.roster with
  | nil => exact List.nodup_nil
  | cons s r =>
    unfold Distinct at h
    rw [hr] at h
    exact h

theorem ensures_conclude {P : Rehearsal → Prop} {change : Rehearsal → Rehearsal}
    (hc : ∀ w, Distinct w → (change w).Distinct ∧ P (change w)) (command : String) (fault : Option String)
    (h : w.Distinct) : (conclude command fault change).Ensures Distinct P w := by
  cases fault with
  | some detail => exact nofun
  | none => exact ⟨(hc w h).1, fun _ => (hc w h).2⟩

theorem ensures_boot (h : w.Distinct) : boot.Ensures Distinct (AllRunning true) w := by
  refine Script.ensures_pauseFor ?_ w.bootLag false h
  intro w h
  refine ⟨h, Script.ensures_reports ?_ _⟩
  split
  · exact ⟨Distinct.startFirst h, trivial⟩
  · refine Script.ensures_pauseFor ?_ _ true h
    intro w h
    exact ensures_conclude (fun w h => ⟨h.setAll true, h.allRunning_setAll true⟩) "up" _ h

theorem ensures_teardown (h : w.Distinct) : teardown.Ensures Distinct (AllRunning false) w := by
  refine Script.ensures_pauseFor ?_ w.teardownLag false h
  intro w h
  exact ⟨h, ensures_conclude (fun w h => ⟨h.setAll false, h.allRunning_setAll false⟩) "down" _ h⟩

theorem ensures_act (a : ServiceAction) (name : String) (h : w.Distinct) :
    (act a name).Ensures Distinct (fun _ => True) w := by
  simp only [act, Script.Ensures]
  cases w.actionFault with
  | some detail => exact nofun
  | none =>
    refine ⟨h, ?_⟩
    simp only [Script.Ensures]
    split
    · exact ⟨Distinct.setRunning h name _, fun _ => trivial⟩
    · exact nofun

/-- A played stack does not succeed without having done what it was asked. -/
theorem backend_honest : backend.Honest Distinct (AllRunning true) (AllRunning false) :=
  ⟨fun _ => ensures_boot, fun _ => ensures_teardown, fun a name _ => ensures_act a name⟩

end StackDeck.Rehearsal
