import StackDeck.Config.Reader
import StackDeck.Proofs.Keyed
import StackDeck.Proofs.Registry
import StackDeck.Stack.Plan

/-!
A configuration is accepted if it breaks no rule, and refused for the first that it breaks. The stacks of an accepted
one have names of their own, so that the registry has room for all of them.
-/

namespace StackDeck

namespace Config

/-- Every stack has a name of its own that is not blank. -/
structure WellNamed (ss : List StackConfig) : Prop where
  named : ∀ s ∈ ss, Text.isBlank s.name = false
  distinct : (ss.map StackConfig.name).Nodup

/-- What may be configured. -/
structure Valid (c : Config) : Prop where
  some_stack : c.stackConfigs ≠ []
  well_named : WellNamed c.stackConfigs
  history_capacity : c.logs.historyCapacity ≠ 0
  reconcile_interval : c.logs.reconcileIntervalSecs ≠ 0
  health_interval : c.health.intervalSecs ≠ 0
  probe_timeout : c.health.probeTimeoutSecs ≠ 0
  teardown_timeout : c.lifecycle.teardownTimeoutSecs ≠ 0
  turn_timeout : c.diagnose.turnTimeoutSecs ≠ 0
  startup_timeout : c.diagnose.startupTimeoutSecs ≠ 0

/-- The first rule that a configuration breaks, with the error that names it. Stacks are looked at one by one, each for
a blank name before a name that is taken, and numbers only where all names are good. -/
inductive Breaks (c : Config) : String → ConfigError → Prop where
  | noStacks (h : c.stackConfigs = []) : c.Breaks "at least one stack is required" .noStacks
  | blankName {before after : List StackConfig} {s : StackConfig} (h : c.stackConfigs = before ++ s :: after)
      (hbefore : WellNamed before) (hblank : Text.isBlank s.name = true) :
      c.Breaks "stack name must not be empty" .blankName
  | duplicateName {before after : List StackConfig} {s : StackConfig} (h : c.stackConfigs = before ++ s :: after)
      (hbefore : WellNamed before) (hnamed : Text.isBlank s.name = false) (htaken : ∃ t ∈ before, t.name = s.name) :
      c.Breaks ("duplicate stack name '" ++ s.name ++ "'") (.duplicateName s.name)
  | zero {before after : List (String × UInt64)} {field : String} (hstack : c.stackConfigs ≠ [])
      (hnames : WellNamed c.stackConfigs) (h : c.positiveFields = before ++ (field, 0) :: after)
      (hbefore : ∀ f ∈ before, f.2 ≠ 0) : c.Breaks (field ++ " must be greater than zero") (.zero field)

variable {c : Config} {seen : List String} {ss : List StackConfig} {e : ConfigError} {rule text name : String}

theorem Breaks.message (h : c.Breaks rule e) : e.message = "invalid config: " ++ rule := by
  cases h with
  | noStacks => decide +kernel
  | blankName => decide +kernel
  | @duplicateName before after s =>
    show "invalid config: duplicate stack name '" ++ s.name ++ "'" = _
    simp [← String.append_assoc]
  | @zero before after field =>
    show "invalid config: " ++ field ++ " must be greater than zero" = _
    rw [String.append_assoc]

/-! ### Names -/

theorem nameFault?_eq_none_iff :
    nameFault? seen ss = none ↔ WellNamed ss ∧ ∀ s ∈ ss, s.name ∉ seen := by
  induction ss generalizing seen with
  | nil => exact iff_of_true rfl ⟨⟨nofun, List.nodup_nil⟩, nofun⟩
  | cons s r ih =>
    rw [nameFault?]
    split
    next hblank => exact iff_of_false (by simp) fun h => by simp [h.1.named s List.mem_cons_self] at hblank
    next hnamed =>
      split
      next htaken => exact iff_of_false (by simp) fun h => h.2 s List.mem_cons_self (by simpa using htaken)
      next hfree =>
        rw [ih]
        constructor
        · rintro ⟨⟨hr, hdistinct⟩, hseen⟩
          refine ⟨⟨?_, List.nodup_cons.mpr ⟨fun hm => ?_, hdistinct⟩⟩, ?_⟩
          · exact List.forall_mem_cons.mpr ⟨by simpa using hnamed, hr⟩
          · obtain ⟨t, ht, hts⟩ := List.mem_map.mp hm
            exact hseen t ht (hts ▸ List.mem_cons_self)
          · exact List.forall_mem_cons.mpr ⟨by simpa using hfree, fun t ht hm => hseen t ht (List.mem_cons_of_mem _ hm)⟩
        · rintro ⟨⟨hss, hdistinct⟩, hseen⟩
          obtain ⟨hnew, hrest⟩ := List.nodup_cons.mp hdistinct
          refine ⟨⟨fun t ht => hss t (List.mem_cons_of_mem s ht), hrest⟩, fun t ht hm => ?_⟩
          rcases List.mem_cons.mp hm with heq | hm
          · exact hnew (heq ▸ List.mem_map_of_mem ht)
          · exact hseen t (List.mem_cons_of_mem s ht) hm

theorem nameFault?_append (before : List StackConfig) :
    nameFault? seen (before ++ ss) =
      (nameFault? seen before).or (nameFault? ((before.map StackConfig.name).reverse ++ seen) ss) := by
  induction before generalizing seen with
  | nil => rfl
  | cons s r ih =>
    rw [List.cons_append, nameFault?, nameFault?]
    split
    next => rfl
    next =>
      split
      next => rfl
      next => rw [ih, List.map_cons, List.reverse_cons, List.append_assoc, List.singleton_append]

/-- The stack whose name is not good comes after stacks whose names are. -/
theorem exists_of_nameFault? (h : nameFault? seen ss = some e) :
    ∃ before s after, ss = before ++ s :: after ∧ nameFault? seen before = none ∧
      nameFault? ((before.map StackConfig.name).reverse ++ seen) [s] = some e := by
  induction ss using List.reverseRecOn generalizing e with
  | nil => exact absurd h nofun
  | append_singleton r s ih =>
    rw [nameFault?_append] at h
    cases hr : nameFault? seen r with
    | none => exact ⟨r, s, [], rfl, hr, by simpa [hr] using h⟩
    | some e' =>
      obtain ⟨before, t, after, rfl, hbefore, ht⟩ := ih hr
      refine ⟨before, t, after ++ [s], by simp, hbefore, ?_⟩
      rw [ht, ← h, hr]
      rfl

theorem nameFault?_some_iff :
    nameFault? [] ss = some e ↔ ∃ before s after, ss = before ++ s :: after ∧ WellNamed before ∧
      (Text.isBlank s.name = true ∧ e = .blankName ∨
        Text.isBlank s.name = false ∧ (∃ t ∈ before, t.name = s.name) ∧ e = .duplicateName s.name) := by
  have hone (before : List StackConfig) (s : StackConfig) :
      nameFault? ((before.map StackConfig.name).reverse ++ []) [s] = some e ↔
        Text.isBlank s.name = true ∧ e = .blankName ∨
          Text.isBlank s.name = false ∧ (∃ t ∈ before, t.name = s.name) ∧ e = .duplicateName s.name := by
    rw [nameFault?, nameFault?]
    cases Text.isBlank s.name <;> simp [eq_comm]
  constructor
  · intro h
    obtain ⟨before, s, after, hss, hbefore, hs⟩ := exists_of_nameFault? h
    exact ⟨before, s, after, hss, (nameFault?_eq_none_iff.mp hbefore).1, (hone before s).mp hs⟩
  · rintro ⟨before, s, after, rfl, hbefore, hs⟩
    have hnone : nameFault? [] before = none := nameFault?_eq_none_iff.mpr ⟨hbefore, by simp⟩
    have hfault := (hone before s).mpr hs
    rw [← List.singleton_append, nameFault?_append, nameFault?_append, hnone, Option.none_or, hfault, Option.some_or]

/-! ### Rules -/

theorem fault?_of_stacks (h : c.stackConfigs ≠ []) :
    c.fault? = (nameFault? [] c.stackConfigs).or
      ((c.positiveFields.find? fun f => f.2 == 0).map fun f => .zero f.1) := by
  rw [fault?, if_neg (by simpa using h)]
  cases nameFault? [] c.stackConfigs <;> rfl

theorem Breaks.fault? (h : c.Breaks rule e) : c.fault? = some e := by
  have hne {before after : List StackConfig} {s : StackConfig} (h : c.stackConfigs = before ++ s :: after) :
      c.stackConfigs ≠ [] := by simp [h]
  cases h with
  | noStacks h => simp [Config.fault?, h]
  | blankName h hbefore hblank =>
    rw [fault?_of_stacks (hne h), nameFault?_some_iff.mpr ⟨_, _, _, h, hbefore, .inl ⟨hblank, rfl⟩⟩, Option.some_or]
  | duplicateName h hbefore hnamed htaken =>
    rw [fault?_of_stacks (hne h), nameFault?_some_iff.mpr ⟨_, _, _, h, hbefore, .inr ⟨hnamed, htaken, rfl⟩⟩,
      Option.some_or]
  | @zero before after field hstack hnames h hbefore =>
    have hfind : c.positiveFields.find? (fun f => f.2 == 0) = some (field, 0) :=
      List.find?_eq_some_iff_append.mpr ⟨rfl, before, after, h, fun f hf => by simpa using hbefore f hf⟩
    rw [fault?_of_stacks hstack, nameFault?_eq_none_iff.mpr ⟨hnames, by simp⟩, hfind]
    rfl

theorem Valid.stack? (hc : c.Valid) {s : StackConfig} (hs : s ∈ c.stackConfigs) : c.stack? s.name = some s :=
  find?_key hc.well_named.distinct hs

end Config

end StackDeck
