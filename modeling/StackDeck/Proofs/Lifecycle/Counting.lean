import StackDeck.Backend.Rehearsal
import StackDeck.Proofs.Lifecycle.Refusal

/-!
What a call to boot knows of the services. It asks for them once; when it goes on it looks at the stack again, but
not at the services.
-/

namespace StackDeck.Lifecycle

variable {β : Type}

namespace Machine

variable {m : Machine β} {n : Nat}

/-- What a call to boot is told that has counted `n` running services. -/
theorem beginBoot_reply (m : Machine β) (n : Nat) : (m.beginBoot n).1 = match m.controller.phase with
    | .idle => if n = 0 then .ok () else .error (.alreadyRunning n)
    | .starting => .error .starting
    | .stopping => .error .stopping := by
  unfold beginBoot Controller.ensureIdle
  cases m.controller.phase with
  | starting | stopping => rfl
  | idle =>
    cases n with
    | zero => rfl
    | succ n => simp

/-- A boot begins in the world as the call finds it. -/
theorem beginBoot_accepted (h : (m.beginBoot n).1 = .ok ()) : (m.beginBoot n).2.controller.phase = .starting ∧
    (m.beginBoot n).2.world = m.world ∧ (m.beginBoot n).2.backend = m.backend := by
  obtain ⟨hp, rfl⟩ := (beginBoot_decides n).ok_iff.mp h
  simp [beginBoot, Controller.ensureIdle, hp, spawn, publish, Controller.start]

end Machine

def Visit.boots : Visit β → Bool
  | .acting .. => false
  | _ => true

/-- The move neither acts on a service nor changes the world from outside. -/
def Move.Tame : Move β → Prop
  | .arrive (.service ..) => False
  | .touch _ => False
  | _ => True

namespace Scene

variable {s : Scene β} {mv : Move β} {moves : List (Move β)}

/-- No call acts on a service. -/
def NoneActing (s : Scene β) : Prop := ∀ v ∈ s.visits, v.boots = true

theorem become_unopened {c : Call} {fits : Prop} {x : Except Fault Unit × Machine β}
    (hc : Entry.operation? (.call c) = some c) (hx : s.machine.Decides fits x)
    (ho : (s.become (accepted c x.1) x.2).opened = s.opened) : s.become (accepted c x.1) x.2 = s := by
  rcases become_cases hc hx with ⟨_, _, hop⟩ | hs
  · omega
  · exact hs

theorem attend_unopened {k : Nat} (hv : s.NoneActing) (ho : (s.attend k).opened = s.opened) :
    (s.attend k).machine = s.machine ∧ (s.attend k).NoneActing := by
  cases hk : s.visits[k]? with
  | none =>
    rw [attend_none hk]
    exact ⟨rfl, hv⟩
  | some v =>
    cases v with
    | asking =>
      rw [attend_waiting hk (u := .counted s.machine.runningCount) rfl]
      refine ⟨rfl, fun v hm => ?_⟩
      rcases List.mem_or_eq_of_mem_set hm with hm | rfl
      · exact hv v hm
      · rfl
    | counted n =>
      obtain ⟨_, _, he⟩ := attend_counted hk
      rw [he] at ho ⊢
      have refused : (s.move (.leave k)).become (accepted .up (s.machine.beginBoot n).1) (s.machine.beginBoot n).2 =
          s.move (.leave k) := become_unopened rfl (Machine.beginBoot_decides n) ho
      rw [refused]
      exact ⟨rfl, fun v hm => hv v (List.mem_of_mem_eraseIdx hm)⟩
    | acting name a op => cases hv _ (List.mem_of_getElem? hk)

/-- While nothing is accepted at rest, a tame move lets time pass at most. -/
theorem Lawful.move_tame (h : s.Lawful .rest) (hv : s.NoneActing) (ht : mv.Tame)
    (ho : (s.move mv).opened = s.opened) :
    (∃ now, (s.move mv).machine = { s.machine with now }) ∧ (s.move mv).NoneActing := by
  have same {s' : Scene β} (he : s' = s) : (∃ now, s'.machine = { s.machine with now }) ∧ s'.NoneActing := by
    rw [he]
    exact ⟨⟨_, rfl⟩, hv⟩
  cases mv with
  | arrive r =>
    cases r with
    | service name a => cases ht
    | up =>
      simp only [move]
      rcases s.machine.arrive_cases .up with ⟨_, ha⟩ | ⟨_, e, ha, _⟩
      · rw [ha]
        refine ⟨⟨_, rfl⟩, fun v hm => ?_⟩
        rcases List.mem_append.mp hm with hm | hm
        · exact hv v hm
        · rw [List.mem_singleton.mp hm]
          rfl
      · rw [ha]
        exact same rfl
  | attend k =>
    obtain ⟨hm, hn⟩ := attend_unopened hv ho
    exact ⟨⟨s.machine.now, hm⟩, hn⟩
  | leave k => exact ⟨⟨_, rfl⟩, fun v hm => hv v (List.mem_of_mem_eraseIdx hm)⟩
  | down => exact same (become_unopened rfl Machine.down_decides ho)
  | restart => exact same (become_unopened rfl Machine.restart_decides ho)
  | cancel =>
    rcases (Machine.cancel_decides (m := s.machine)).cases with ⟨hp, _⟩ | ⟨e, _, he, _, hm⟩
    · rw [h.inside.2.1] at hp
      cases hp
    · exact same (become_refused he hm)
  | poll id =>
    refine same ?_
    rw [move, Machine.In.poll_rest h.inside]
    exact become_same s
  | pass ms => exact ⟨⟨_, rfl⟩, hv⟩
  | touch f => cases ht

theorem Lawful.run_tame (h : s.Lawful .rest) (hv : s.NoneActing) (ht : ∀ mv ∈ moves, mv.Tame)
    (ho : (s.run moves).opened = s.opened) : ∃ now, (s.run moves).machine = { s.machine with now } := by
  induction moves generalizing s with
  | nil => exact ⟨_, rfl⟩
  | cons mv r ih =>
    -- What was opened only grows, so no single move has opened anything.
    obtain ⟨_, q', g⟩ := move_goes h.sound h.inside mv
    have before : s.opened ≤ (s.move mv).opened := opened_le_run h [mv]
    have after : (s.move mv).opened ≤ ((s.move mv).run r).opened := opened_le_run (g.lawful h) r
    change ((s.move mv).run r).opened = s.opened at ho
    have hone : (s.run [mv]).opened = s.opened := by
      change (s.move mv).opened = s.opened
      omega
    obtain ⟨⟨now, hm⟩, hv'⟩ := h.move_tame hv (ht mv List.mem_cons_self) hone
    have hl : (s.move mv).Lawful .rest := (h.run_unopened hone).1
    obtain ⟨later, hr⟩ := ih hl hv' (fun mv hmem => ht mv (List.mem_cons_of_mem _ hmem)) (by omega)
    exact ⟨later, hr.trans (by rw [hm])⟩

end Scene

/-- In every run a call to boot is told what the stack does when the call goes on and how many services ran when it
asked, where a backend that fails to tell counts as one without running services. An accepted one begins its boot in
the world as it is then. If it came to know that no service runs, none does, provided that from its question on
the stack was at rest, with no call that acts on a service, no operation accepted and no change from outside. -/
theorem accepted_boot_found_none_running (backend : Backend β) (world : β) (teardownTimeout : Nat)
    (moves : List (Move β)) :
    let s := (Scene.start backend world teardownTimeout).run moves
    ∀ k later r, s.visits[k]? = some .asking → s.outcome? k later = some r →
      ∃ asked answered j, s.Asks k asked answered ∧ s.track k answered = some j ∧
        answered ++ [.attend j] <+: later ∧
        let m₀ := (s.run asked).machine
        let m₁ := (s.run answered).machine
        let m₂ := (s.run (answered ++ [.attend j])).machine
        (r = match m₁.controller.phase with
          | .idle => if m₀.runningCount = 0 then .ok () else .error (.alreadyRunning m₀.runningCount)
          | .starting => .error .starting
          | .stopping => .error .stopping) ∧
        (r = .ok () → m₀.Quiet ∧ m₂.controller.phase = .starting ∧ m₂.world = m₁.world ∧
          m₂.backend = m₁.backend ∧
          ∀ window, answered = asked ++ window → m₀.controller.phase = .idle → (s.run asked).NoneActing →
            (∀ mv ∈ window, mv.Tame) → (s.run answered).opened = (s.run asked).opened →
            ∀ services, m₀.backend.services m₀.world = .ok services →
              m₂.backend.services m₂.world = .ok services ∧ ∀ v ∈ services, v.running = false) := by
  intro s k later r hv ho
  obtain ⟨answered, j, after, rfl, ht, hr, _⟩ := Scene.outcome?_eq_some ho
  rcases Scene.asking_track hv ht with ha | ⟨asked, asks, hc⟩
  · rw [Scene.reply?_attend ha] at hr
    cases hr
  · obtain ⟨hb, _, hm⟩ := Scene.attend_counted hc
    have hrb : r = ((s.run answered).machine.beginBoot (s.run asked).machine.runningCount).1 :=
      Option.some.inj (hr.symm.trans hb)
    refine ⟨asked, answered, j, asks, ht, ⟨after, by simp⟩, ?_⟩
    intro m₀ m₁ m₂
    have he : m₂ = (m₁.beginBoot m₀.runningCount).2 := by
      change (s.run (answered ++ [.attend j])).machine = _
      rw [Scene.run_append]
      exact congrArg Scene.machine hm
    refine ⟨hrb.trans (Machine.beginBoot_reply ..), ?_⟩
    rintro rfl
    obtain ⟨_, hz⟩ := (Machine.beginBoot_decides m₀.runningCount).ok_iff.mp hrb.symm
    have quiet : m₀.Quiet := Machine.runningCount_eq_zero.mp hz
    obtain ⟨hp, hw, hbk⟩ := Machine.beginBoot_accepted hrb.symm
    refine ⟨quiet, he ▸ hp, he ▸ hw, he ▸ hbk, ?_⟩
    intro window hwin hidle hna htame hop services hs
    obtain ⟨q, h⟩ := (Scene.start_lawful backend world teardownTimeout).run moves
    obtain ⟨q₀, h₀⟩ := h.run asked
    have hq : q₀ = .rest := h₀.inside.eq_rest hidle
    subst hq hwin
    rw [Scene.run_append] at hop
    obtain ⟨now, hsame⟩ := h₀.run_tame hna htame hop
    have hm₁ : m₁ = { m₀ with now } := by
      change (s.run (asked ++ window)).machine = _
      rw [Scene.run_append]
      exact hsame
    have seen : m₂.backend.services m₂.world = m₁.backend.services m₁.world := by rw [he, hw, hbk]
    refine ⟨?_, quiet services hs⟩
    rw [seen]
    exact (congrArg (fun m : Machine β => m.backend.services m.world) hm₁).trans hs

/-- A boot of one stopped service, for which nothing has happened in the meantime. -/
theorem quiet_boot_found_none_running :
    let s := (Scene.start Rehearsal.backend { roster := [.plain "web" false] } 120000).run [.arrive .up]
    s.visits[0]? = some .asking ∧ s.outcome? 0 [.attend 0, .attend 0] = some (.ok ()) ∧
      ∃ asked answered j, s.Asks 0 asked answered ∧ s.track 0 answered = some j ∧
        (s.run asked).machine.Quiet ∧ (s.run (answered ++ [.attend j])).machine.controller.phase = .starting := by
  intro s
  have asking : s.visits[0]? = some .asking := rfl
  have ok : s.outcome? 0 [.attend 0, .attend 0] = some (.ok ()) := rfl
  obtain ⟨asked, answered, j, ha, ht, _, _, hok⟩ := accepted_boot_found_none_running Rehearsal.backend
    { roster := [.plain "web" false] } 120000 [.arrive .up] 0 [.attend 0, .attend 0] (.ok ()) asking ok
  exact ⟨asking, ok, asked, answered, j, ha, ht, (hok rfl).1, (hok rfl).2.1⟩

/-- A boot is begun over running services where the backend fails to tell of them, and also by a call that asked
before another boot was accepted and goes on when that one is done. -/
theorem boot_over_running_services :
    (let s := (Scene.start Rehearsal.backend { roster := [.plain "web" false], servicesFault := some "daemon down" }
        120000).run [.arrive .up, .attend 0, .attend 0, .poll 0, .arrive .up, .attend 0];
      s.chronicle = [.call .up, .told .starting, .told .started] ∧ s.reply? (.attend 0) = some (.ok ()) ∧
        (s.move (.attend 0)).machine.controller.phase = .starting ∧
        (s.move (.attend 0)).machine.world.runningCount = 1) ∧
    (let s := (Scene.start Rehearsal.backend { roster := [.plain "web" false] } 120000).run
        [.arrive .up, .arrive .up, .attend 0, .attend 1, .attend 0, .poll 0];
      s.chronicle = [.call .up, .told .starting, .told .started] ∧ s.reply? (.attend 0) = some (.ok ()) ∧
        (s.move (.attend 0)).machine.controller.phase = .starting ∧
        (s.move (.attend 0)).machine.world.runningCount = 1) :=
  ⟨⟨rfl, rfl, rfl, rfl⟩, rfl, rfl, rfl, rfl⟩

end StackDeck.Lifecycle
