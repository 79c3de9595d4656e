import StackDeck.Proofs.Lifecycle.Language
import StackDeck.Proofs.Lifecycle.Waiting

/-!
Which calls a stack accepts. A call that is refused is told of a conflict and leaves no trace, also if it has
waited for its backend before.
-/

namespace StackDeck.Lifecycle

variable {β : Type}

theorem Controller.ensureIdle_cases (c : Controller) : (c.phase = .idle ∧ c.ensureIdle = .ok ()) ∨
    (c.phase ≠ .idle ∧ ∃ e, c.ensureIdle = .error e ∧ e.isConflict = true) := by
  unfold Controller.ensureIdle
  cases c.phase with
  | idle => exact .inl ⟨rfl, rfl⟩
  | starting => exact .inr ⟨by simp, _, rfl, rfl⟩
  | stopping => exact .inr ⟨by simp, _, rfl, rfl⟩

namespace Machine

/-- The backend knows of no service that runs. One that fails to tell knows of none. -/
def Quiet (m : Machine β) : Prop :=
  ∀ services, m.backend.services m.world = .ok services → ∀ v ∈ services, v.running = false

/-- A call is accepted where it fits, and leaves rest. Elsewhere it is told of a conflict and nothing changes. -/
structure Decides (m : Machine β) (fits : Prop) (x : Except Fault Unit × Machine β) : Prop where
  ok_iff : x.1 = .ok () ↔ fits
  leaves : x.1 = .ok () → x.2.controller.phase ≠ .idle
  refused : ∀ e, x.1 = .error e → e.isConflict = true ∧ x.2 = m

variable {m : Machine β} {fits : Prop} {x : Except Fault Unit × Machine β}

theorem runningCount_eq_zero : m.runningCount = 0 ↔ m.Quiet := by
  unfold runningCount Quiet
  cases m.backend.services m.world with
  | error e => simp
  | ok services => simp [Service.countRunning]

theorem Decides.cases (h : m.Decides fits x) : (fits ∧ x.1 = .ok ()) ∨
    ∃ e, ¬ fits ∧ x.1 = .error e ∧ e.isConflict = true ∧ x.2 = m := by
  cases hx : x.1 with
  | ok u => exact .inl ⟨h.ok_iff.mp hx, rfl⟩
  | error e =>
    refine .inr ⟨e, fun hf => ?_, rfl, h.refused e hx⟩
    rw [h.ok_iff.mpr hf] at hx
    cases hx

theorem decides_of_ok (hf : fits) (hx : x.1 = .ok ()) (hp : x.2.controller.phase ≠ .idle) : m.Decides fits x where
  ok_iff := iff_of_true hx hf
  leaves _ := hp
  refused e he := by
    rw [hx] at he
    cases he

theorem decides_of_error {e : Fault} (hf : ¬ fits) (he : e.isConflict = true) : m.Decides fits (.error e, m) where
  ok_iff := iff_of_false (by simp) hf
  leaves h := by cases h
  refused e' h := by
    cases h
    exact ⟨he, rfl⟩

theorem beginBoot_decides (n : Nat) : m.Decides (m.controller.phase = .idle ∧ n = 0) (m.beginBoot n) := by
  unfold beginBoot
  rcases m.controller.ensureIdle_cases with ⟨hp, hi⟩ | ⟨hp, e, hi, he⟩
  · simp only [hi]
    by_cases hn : 0 < n
    · rw [if_pos hn]
      exact decides_of_error (fun hf => by omega) rfl
    · rw [if_neg hn]
      exact decides_of_ok ⟨hp, by omega⟩ rfl (by simp [spawn, Controller.start])
  · simp only [hi]
    exact decides_of_error (fun hf => hp hf.1) he

theorem up_decides : m.Decides (m.controller.phase = .idle ∧ m.Quiet) m.up := by
  unfold up
  rcases m.controller.ensureIdle_cases with ⟨hp, hi⟩ | ⟨hp, e, hi, he⟩
  · simp only [hi]
    rw [← runningCount_eq_zero]
    exact beginBoot_decides _
  · simp only [hi]
    exact decides_of_error (fun hf => hp hf.1) he

theorem down_decides : m.Decides (m.controller.phase = .idle) m.down := by
  unfold down
  rcases m.controller.ensureIdle_cases with ⟨hp, hi⟩ | ⟨hp, e, hi, he⟩
  · simp only [hi]
    exact decides_of_ok hp rfl (by simp [spawn, Controller.start])
  · simp only [hi]
    exact decides_of_error hp he

theorem restart_decides : m.Decides (m.controller.phase = .idle) m.restart := by
  unfold restart
  rcases m.controller.ensureIdle_cases with ⟨hp, hi⟩ | ⟨hp, e, hi, he⟩
  · simp only [hi]
    exact decides_of_ok hp rfl (by simp [spawn, Controller.start])
  · simp only [hi]
    exact decides_of_error hp he

theorem cancel_decides : m.Decides (m.controller.phase = .starting) m.cancel := by
  unfold cancel
  cases hp : m.controller.phase with
  | starting => exact decides_of_ok rfl rfl (by simp [spawn, Controller.abandonBoot])
  | idle | stopping => exact decides_of_error (by simp) rfl

/-- A call that has to wait is let in by a stack at rest, and then goes to its backend. -/
theorem arrive_cases (r : Request) : (m.controller.phase = .idle ∧ m.arrive r = .ok (match r with
      | .up => .asking
      | .service name a => .acting name a (.fresh (m.backend.act a name)))) ∨
    (m.controller.phase ≠ .idle ∧ ∃ e, m.arrive r = .error e ∧ e.isConflict = true) := by
  unfold arrive
  rcases m.controller.ensureIdle_cases with ⟨hp, hi⟩ | ⟨hp, e, hi, he⟩
  · simp only [hi]
    exact .inl ⟨hp, by cases r <;> rfl⟩
  · simp only [hi]
    exact .inr ⟨hp, e, rfl, he⟩

theorem acting_no_conflict {name : String} {a : ServiceAction} {op : Operation β} {e : Fault}
    (h : (m.attend (.acting name a op)).1 = .answered (.error e)) : e.isConflict = false := by
  simp only [Machine.attend] at h
  cases hop : (op.poll m.now false m.world).2.2 with
  | ended result =>
    rw [hop] at h
    cases result with
    | ok u => cases h
    | error b =>
      cases h
      rfl
  | fresh | asleep | held =>
    rw [hop] at h
    cases h

end Machine

namespace Scene

variable {s s' : Scene β} {k : Nat} {mv : Move β} {moves : List (Move β)}

/-- A call that is let in changes nothing but who waits. -/
theorem arrive_keeps (r : Request) (s : Scene β) :
    (s.move (.arrive r)).machine = s.machine ∧ (s.move (.arrive r)).chronicle = s.chronicle := by
  simp only [move]
  cases s.machine.arrive r <;> exact ⟨rfl, rfl⟩

theorem become_refused {c : Call} {x : Except Fault Unit × Machine β} {e : Fault} (hx : x.1 = .error e)
    (hm : x.2 = s.machine) : s.become (accepted c x.1) x.2 = s := by
  rw [hx, hm]
  exact become_same s

/-- A refused call changes nothing; one that has waited is gone. -/
theorem move_refused {e : Fault} (hr : s.reply? mv = some (.error e)) (he : e.isConflict = true) :
    s.move mv = s ∨ ∃ k, mv = .attend k ∧ s.move mv = s.move (.leave k) := by
  cases mv with
  | arrive r =>
    simp only [reply?] at hr
    cases ha : s.machine.arrive r with
    | ok v => simp [ha] at hr
    | error e => simp [move, ha]
  | attend k =>
    refine .inr ⟨k, rfl, ?_⟩
    cases hv : s.visits[k]? with
    | none => simp [reply?, hv] at hr
    | some v =>
      cases v with
      | asking => simp [reply?_attend hv, Machine.attend] at hr
      | counted n =>
        obtain ⟨hb, _, hm⟩ := attend_counted hv
        have hx := Option.some.inj (hb.symm.trans hr)
        exact hm.trans (become_refused hx ((Machine.beginBoot_decides n).refused e hx).2)
      | acting name a op =>
        rw [reply?_attend hv] at hr
        split at hr
        · cases hr
        next ha =>
          rw [Option.some.inj hr] at ha
          rw [Machine.acting_no_conflict ha] at he
          cases he
  | down =>
    have hx := Option.some.inj hr
    exact .inl (become_refused hx (Machine.down_decides.refused e hx).2)
  | restart =>
    have hx := Option.some.inj hr
    exact .inl (become_refused hx (Machine.restart_decides.refused e hx).2)
  | cancel =>
    have hx := Option.some.inj hr
    exact .inl (become_refused hx (Machine.cancel_decides.refused e hx).2)
  | leave k | poll id | pass ms | touch f => cases hr

/-! ### A call to boot that is not accepted -/

theorem Boots.ends_refused (h : s.Boots k) (hf : s.follow k mv = none) (hr : s.reply? mv ≠ some (.ok ())) :
    s.move mv = s.move (.leave k) := by
  rcases h.ends hf with rfl | ⟨rfl, n, hc⟩
  · rfl
  · obtain ⟨hb, _, ha⟩ := attend_counted hc
    rcases (Machine.beginBoot_decides (m := s.machine) n).cases with ⟨_, hx⟩ | ⟨e, _, hx, _, hm⟩
    · exact absurd (hb.trans (by rw [hx])) hr
    · exact ha.trans (become_refused (s := s.move (.leave k)) hx hm)

/-- The other moves alone lead to the same scene without the call: each is made by a stack that differs only in who
waits, until the call is gone. -/
theorem Boots.run_others (h : s.Boots k) (hr : s.outcome? k moves ≠ some (.ok ())) :
    (s.move (.leave k)).run (s.others k moves) = (s.run moves).forget (s.track k moves) := by
  induction moves generalizing s k with
  | nil => rfl
  | cons mv r ih =>
    rw [outcome?] at hr
    rw [others]
    cases hf : s.follow k mv with
    | none =>
      rw [hf] at hr
      rw [track_cons_none hf, ← h.ends_refused hf hr]
      rfl
    | some k' =>
      rw [hf] at hr
      obtain ⟨hb, hw⟩ := h.follow hf
      rw [track_cons hf, run_append, hw]
      exact ih hb hr

theorem arrive_up (hi : s.machine.controller.phase = .idle) :
    (s.move (.arrive .up)).visits[s.visits.length]? = some .asking ∧
      (s.move (.arrive .up)).move (.leave s.visits.length) = s := by
  rcases s.machine.arrive_cases .up with ⟨_, ha⟩ | ⟨hne, _⟩
  · simp only [move, ha]
    refine ⟨by simp, ?_⟩
    simp [List.eraseIdx_append_of_length_le]
  · exact absurd hi hne

/-! ### How many operations are accepted -/

/-- The number of operations that were accepted. -/
def opened (s : Scene β) : Nat := (s.chronicle.filterMap Entry.operation?).length

end Scene

/-- Whether an operation is in progress, as a number. -/
def Machine.busy (m : Machine β) : Nat := if m.controller.phase = .idle then 0 else 1

namespace Scene

variable {s s' : Scene β} {q : Situation} {mv : Move β}

/-- How often the stack comes to rest. -/
def returns (s : Scene β) : List (Move β) → Nat
  | [] => 0
  | mv :: r =>
    (if s.machine.controller.phase ≠ .idle ∧ (s.move mv).machine.controller.phase = .idle then 1 else 0) +
      (s.move mv).returns r

theorem become_opened (calls : List Entry) (m : Machine β) (s : Scene β) :
    (s.become calls m).opened = s.opened + (calls.filterMap Entry.operation?).length := by
  have told (es : List Signal) : (es.map Entry.told).filterMap Entry.operation? = [] := by
    simp [Entry.operation?]
  simp [opened, become, told]

/-- What a move opens or closes shows in whether an operation is in progress. -/
def Balanced (s s' : Scene β) : Prop :=
  s'.opened + s.machine.busy = s.opened +
    (if s.machine.controller.phase ≠ .idle ∧ s'.machine.controller.phase = .idle then 1 else 0) + s'.machine.busy

theorem balanced_of_still (ho : s'.opened = s.opened)
    (hp : s.machine.controller.phase = .idle → s'.machine.controller.phase = .idle) : s.Balanced s' := by
  unfold Balanced Machine.busy
  by_cases hi : s.machine.controller.phase = .idle
  · simp [hi, hp hi, ho]
  · by_cases hi' : s'.machine.controller.phase = .idle <;> simp [hi, hi', ho]

theorem balanced_of_open (ho : s'.opened = s.opened + 1) (hi : s.machine.controller.phase = .idle)
    (hi' : s'.machine.controller.phase ≠ .idle) : s.Balanced s' := by
  simp [Balanced, Machine.busy, hi, hi', ho]

/-- A call that asks for an operation opens one, or changes nothing. -/
theorem become_cases {c : Call} {fits : Prop} {x : Except Fault Unit × Machine β}
    (hc : Entry.operation? (.call c) = some c) (hx : s.machine.Decides fits x) :
    (fits ∧ x.1 = .ok () ∧ (s.become (accepted c x.1) x.2).opened = s.opened + 1) ∨
      s.become (accepted c x.1) x.2 = s := by
  rcases hx.cases with ⟨hfit, hok⟩ | ⟨e, _, he, _, hm⟩
  · refine .inl ⟨hfit, hok, ?_⟩
    rw [become_opened, hok]
    simp [accepted, hc]
  · exact .inr (become_refused he hm)

theorem balanced_operation {c : Call} {fits : Prop} {x : Except Fault Unit × Machine β}
    (hc : Entry.operation? (.call c) = some c) (hx : s.machine.Decides fits x)
    (hf : fits → s.machine.controller.phase = .idle) : s.Balanced (s.become (accepted c x.1) x.2) := by
  rcases become_cases hc hx with ⟨hfit, hok, ho⟩ | hs
  · exact balanced_of_open ho (hf hfit) (hx.leaves hok)
  · rw [hs]
    exact balanced_of_still rfl id

theorem balanced_cancel (s : Scene β) : s.Balanced (s.move .cancel) := by
  have hx : s.machine.Decides (s.machine.controller.phase = .starting) s.machine.cancel := Machine.cancel_decides
  refine balanced_of_still ?_ fun hi => ?_
  · rw [move, become_opened]
    cases s.machine.cancel.1 <;> rfl
  · rcases hx.cases with ⟨hfit, _⟩ | ⟨e, _, he, _, hm⟩
    · rw [hi] at hfit
      cases hfit
    · rw [move, become_refused he hm]
      exact hi

theorem balanced_attend (k : Nat) (s : Scene β) : s.Balanced (s.attend k) := by
  cases hv : s.visits[k]? with
  | none =>
    rw [attend_none hv]
    exact balanced_of_still rfl id
  | some v =>
    cases v with
    | asking =>
      rw [attend_waiting hv (u := .counted s.machine.runningCount) rfl]
      exact balanced_of_still (become_opened ..) id
    | counted n =>
      rw [(attend_counted hv).2.2]
      exact balanced_operation (s := s.move (.leave k)) rfl (Machine.beginBoot_decides n) And.left
    | acting name a op =>
      have hc : (s.machine.attend (.acting name a op)).2.controller = s.machine.controller := by
        simp only [Machine.attend]
        split <;> rfl
      cases ha : (s.machine.attend (.acting name a op)).1 with
      | waiting v' =>
        rw [attend_waiting hv ha]
        exact balanced_of_still (become_opened ..) fun hi => hc ▸ hi
      | answered r =>
        rw [attend_answered hv ha]
        exact balanced_of_still (become_opened ..) fun hi => hc ▸ hi

theorem Lawful.balanced (h : s.Lawful q) (mv : Move β) : s.Balanced (s.move mv) := by
  cases mv with
  | arrive r =>
    obtain ⟨hm, hc⟩ := arrive_keeps r s
    exact balanced_of_still (by rw [opened, hc, opened]) fun hi => hm ▸ hi
  | attend k => exact balanced_attend k s
  | leave k | pass ms | touch f => exact balanced_of_still rfl id
  | down => exact balanced_operation rfl Machine.down_decides id
  | restart => exact balanced_operation rfl Machine.restart_decides id
  | cancel => exact balanced_cancel s
  | poll id =>
    refine balanced_of_still (become_opened ..) fun hi => ?_
    have hq : q = .rest := h.inside.eq_rest hi
    subst hq
    change (s.machine.poll id).controller.phase = .idle
    rw [h.inside.poll_rest id]
    exact hi

theorem opened_le_run (h : s.Lawful q) (moves : List (Move β)) : s.opened ≤ (s.run moves).opened := by
  obtain ⟨es, _, hc, _⟩ := h.run_steps moves
  simp [opened, hc]

/-- A stack at rest stays there, and tells nothing of itself, until an operation is accepted. -/
theorem Lawful.run_unopened (h : s.Lawful .rest) {moves : List (Move β)} (ho : (s.run moves).opened = s.opened) :
    (s.run moves).Lawful .rest ∧ (s.run moves).chronicle = s.chronicle := by
  obtain ⟨es, q', hc, hs, hl⟩ := h.run_steps moves
  have hz : es.filterMap Entry.operation? = [] := by
    refine List.eq_nil_of_length_eq_zero ?_
    simpa [opened, hc] using ho
  obtain ⟨rfl, rfl⟩ := hs.of_rest hz
  exact ⟨hl, by rw [hc, List.append_nil]⟩

/-- Every operation that is accepted brings the stack back to rest before the next one. -/
theorem Lawful.run_balanced (h : s.Lawful q) (moves : List (Move β)) :
    (s.run moves).opened + s.machine.busy = s.opened + s.returns moves + (s.run moves).machine.busy := by
  induction moves generalizing s q with
  | nil => rfl
  | cons mv r ih =>
    obtain ⟨es, q', g⟩ := move_goes h.sound h.inside mv
    have hs : s.Balanced (s.move mv) := h.balanced mv
    have hr := ih (g.lawful h)
    change ((s.move mv).run r).opened + s.machine.busy = _ + ((s.move mv).run r).machine.busy
    simp only [Balanced] at hs
    simp only [returns]
    omega

end Scene

/-- In every run a call is accepted exactly where it fits and a refused one is told of a conflict: it leaves the
stack as it is, and the run goes on as if the call had not been made, also if it has waited for the services in
the meantime. From one rest to the next one operation is accepted at most. -/
theorem refused_calls_leave_no_trace (backend : Backend β) (world : β) (teardownTimeout : Nat)
    (moves : List (Move β)) :
    let s := (Scene.start backend world teardownTimeout).run moves
    let m := s.machine
    (m.Decides (m.controller.phase = .idle) m.down ∧ m.Decides (m.controller.phase = .idle) m.restart ∧
      m.Decides (m.controller.phase = .starting) m.cancel ∧
      m.Decides (m.controller.phase = .idle ∧ m.Quiet) m.up) ∧
    (∀ name a,
      (m.controller.phase = .idle →
        m.arrive (.service name a) = .ok (.acting name a (.fresh (m.backend.act a name)))) ∧
      (m.controller.phase ≠ .idle → ∃ e, e.isConflict = true ∧ m.arrive (.service name a) = .error e ∧
        m.serviceAction name a = (.answered (.error e), m))) ∧
    (∀ mv e, s.reply? mv = some (.error e) → e.isConflict = true →
      s.move mv = s ∨ ∃ k, mv = .attend k ∧ s.move mv = s.move (.leave k)) ∧
    (m.controller.phase = .idle → let w := s.move (.arrive .up)
      let k := s.visits.length
      ∀ later,
        (w.outcome? k later ≠ some (.ok ()) →
          s.run (w.others k later) = (w.run later).forget (w.track k later)) ∧
        ∀ r, w.outcome? k later = some r → ∃ asked answered, w.Asks k asked answered ∧ w.Hears k answered later ∧
          (r = .ok () ↔ (w.run answered).machine.controller.phase = .idle ∧ (w.run asked).machine.Quiet) ∧
          ∀ e, r = .error e → e.isConflict = true ∧ s.run (w.others k later) = w.run later) ∧
    ∀ later, (s.run later).opened + m.busy = s.opened + s.returns later + (s.run later).machine.busy ∧
      (s.returns later = 0 → (s.run later).opened ≤ s.opened + 1) := by
  intro s m
  obtain ⟨q, h⟩ := (Scene.start_lawful backend world teardownTimeout).run moves
  change s.Lawful q at h
  refine ⟨⟨Machine.down_decides, Machine.restart_decides, Machine.cancel_decides, Machine.up_decides⟩, ?_,
    fun mv e => Scene.move_refused, ?_, ?_⟩
  · intro name a
    rcases m.arrive_cases (.service name a) with ⟨hp, ha⟩ | ⟨hp, e, ha, he⟩
    · exact ⟨fun _ => ha, fun hne => absurd hp hne⟩
    · refine ⟨fun hi => absurd hi hp, fun _ => ⟨e, he, ha, ?_⟩⟩
      rw [Machine.serviceAction, ha]
  · intro hi w k later
    obtain ⟨hv, hs⟩ := Scene.arrive_up hi
    have others (hne : w.outcome? k later ≠ some (.ok ())) :
        s.run (w.others k later) = (w.run later).forget (w.track k later) := by
      rw [← Scene.Boots.run_others (.inl hv) hne, hs]
    refine ⟨others, ?_⟩
    intro r ho
    obtain ⟨asked, answered, ha, hh, hr⟩ := Scene.asking_outcome hv ho
    have decides := Machine.beginBoot_decides (m := (w.run answered).machine) (w.run asked).machine.runningCount
    rw [Machine.runningCount_eq_zero] at decides
    refine ⟨asked, answered, ha, hh, hr ▸ decides.ok_iff, ?_⟩
    rintro e rfl
    obtain ⟨_, _, _, _, _, _, hn⟩ := Scene.outcome?_eq_some ho
    have hf := others (by rw [ho]; simp)
    rw [hn] at hf
    exact ⟨(decides.refused e hr.symm).1, hf⟩
  · intro later
    have hb := h.run_balanced later
    refine ⟨hb, fun hz => ?_⟩
    have hle : (s.run later).machine.busy ≤ 1 := by
      unfold Machine.busy
      split <;> omega
    omega

end StackDeck.Lifecycle
