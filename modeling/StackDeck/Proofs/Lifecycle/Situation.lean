import StackDeck.Proofs.Lifecycle.Step

namespace StackDeck.Lifecycle

variable {β : Type}

/-- What a stack is doing. A boot is `again` if a restart brought it about. -/
inductive Situation where
  | rest
  | booting (again : Bool)
  | stopping
  | restarting
  | awaiting (again : Bool)
  | reverting (again : Bool)
  deriving DecidableEq

namespace Situation

/-- A teardown is going on; the flag says whether a boot follows it. -/
inductive TearsDown : Situation → Bool → Prop
  | stopping : TearsDown .stopping false
  | restarting : TearsDown .restarting true
  | reverting (again : Bool) : TearsDown (.reverting again) false

/-- The phase in which a situation shows. -/
def phase : Situation → Phase
  | .rest => .idle
  | .booting _ => .starting
  | _ => .stopping

/-- What may come next, and what is written down of it. -/
inductive Step : Situation → List Entry → Situation → Prop
  | up : Step .rest [.call .up, .told .starting] (.booting false)
  | down : Step .rest [.call .down, .told .stopping] .stopping
  | restart : Step .rest [.call .restart, .told .stopping] .restarting
  | cancel (again : Bool) : Step (.booting again) [.call .cancel, .told .stopping] (.awaiting again)
  | started (again : Bool) : Step (.booting again) [.told .started] .rest
  | bootFailed (again : Bool) : Step (.booting again) [.told .failed] .rest
  | stopped {q : Situation} : q.TearsDown false → Step q [.told .stopped] .rest
  | teardownFailed {q : Situation} {b : Bool} : q.TearsDown b → Step q [.told .failed] .rest
  | boot : Step .restarting [.told .starting] (.booting true)
  | revert (again : Bool) : Step (.awaiting again) [] (.reverting again)

inductive Steps : Situation → List Entry → Situation → Prop
  | refl (q : Situation) : Steps q [] q
  | next {q r s : Situation} {es fs : List Entry} : Step q es r → Steps r fs s → Steps q (es ++ fs) s

theorem Step.steps {q r : Situation} {es : List Entry} (h : Step q es r) : Steps q es r := by
  simpa using Steps.next h (.refl r)

theorem Steps.trans {q r s : Situation} {es fs : List Entry} (h : Steps q es r) (k : Steps r fs s) :
    Steps q (es ++ fs) s := by
  induction h with
  | refl => exact k
  | next step _ ih => simpa using Steps.next step (ih k)

end Situation

def AllOver (ts : List (Task β)) : Prop := ∀ t ∈ ts, t.place = .over

namespace Machine

/-- Tasks are numbered in the order of their epochs, and the newest one has the current epoch. -/
structure Sound (m : Machine β) : Prop where
  numbered : Numbered m.tasks
  ascending : (m.tasks.map Task.epoch).Pairwise (· < ·)
  newest : ∀ e, (m.tasks.map Task.epoch).getLast? = some e → e = m.controller.epoch

/-- The newest task tears the stack down. -/
def TearsDown (m : Machine β) (thenBoot : Bool) : Prop :=
  ∃ olds t d op, m.tasks = olds ++ [t] ∧ AllOver olds ∧ t.place = .teardown d op thenBoot ∧
    m.controller.phase = .stopping ∧ m.controller.cancel = none ∧
    m.controller.bootTask = if thenBoot then some t.id else none

/-- Only the newest task goes on, except for a boot that was cancelled, on which the newest one waits. -/
def In (m : Machine β) : Situation → Prop
  | .rest => AllOver m.tasks ∧ m.controller.phase = .idle ∧ m.controller.cancel = none ∧
      m.controller.bootTask = none
  | .booting _ => ∃ olds t op, m.tasks = olds ++ [t] ∧ AllOver olds ∧
      t.place = .boot m.controller.epoch op ∧ m.controller.phase = .starting ∧
      m.controller.cancel = some m.controller.epoch ∧ m.controller.bootTask = some t.id
  | .awaiting _ => ∃ olds b t d, m.tasks = olds ++ [b, t] ∧ AllOver olds ∧
      (b.place = .over ∨ ∃ token op, b.place = .boot token op) ∧ t.place = .await b.id d ∧
      m.controller.phase = .stopping ∧ m.controller.cancel = none ∧ m.controller.bootTask = none
  | .stopping => m.TearsDown false
  | .restarting => m.TearsDown true
  | .reverting _ => m.TearsDown false

theorem in_of_tearsDown {m : Machine β} {q : Situation} {b : Bool} (hq : q.TearsDown b) :
    m.In q ↔ m.TearsDown b := by
  cases hq <;> rfl

theorem In.phase {m : Machine β} {q : Situation} (h : m.In q) : m.controller.phase = q.phase := by
  cases q with
  | rest => exact h.2.1
  | booting again =>
    obtain ⟨_, _, _, _, _, _, hp, _⟩ := h
    exact hp
  | awaiting again =>
    obtain ⟨_, _, _, _, _, _, _, _, hp, _⟩ := h
    exact hp
  | stopping | restarting | reverting again =>
    obtain ⟨_, _, _, _, _, _, _, hp, _⟩ := h
    exact hp

/-- Only a stack at rest takes up a new operation. -/
theorem In.ensureIdle {m : Machine β} {q : Situation} (h : m.In q) :
    (q = .rest ∧ m.controller.ensureIdle = .ok ()) ∨ ∃ e, m.controller.ensureIdle = .error e := by
  have hp := h.phase
  cases q with
  | rest => exact .inl ⟨rfl, by simp [Controller.ensureIdle, hp, Situation.phase]⟩
  | booting again => exact .inr ⟨.starting, by simp [Controller.ensureIdle, hp, Situation.phase]⟩
  | awaiting again | stopping | restarting | reverting again =>
    exact .inr ⟨.stopping, by simp [Controller.ensureIdle, hp, Situation.phase]⟩

theorem In.eq_rest {m : Machine β} {q : Situation} (h : m.In q) (hp : m.controller.phase = .idle) : q = .rest := by
  have hq : q.phase = .idle := h.phase.symm.trans hp
  cases q with
  | rest => rfl
  | booting again | awaiting again | stopping | restarting | reverting again => cases hq

/-- At rest no task goes on. -/
theorem In.poll_rest {m : Machine β} (h : m.In .rest) (id : Nat) : m.poll id = m := by
  refine poll_of_isOver ?_
  cases ht : m.task? id with
  | none => simp [isOver, ht]
  | some t => simp [isOver, ht, Task.isOver_iff, h.1 t (mem_of_task? ht).1]

theorem Sound.le {m : Machine β} (h : m.Sound) {t : Task β} (ht : t ∈ m.tasks) :
    t.epoch ≤ m.controller.epoch := by
  rcases List.eq_nil_or_concat m.tasks with he | ⟨olds, u, he⟩
  · simp [he] at ht
  · rw [List.concat_eq_append] at he
    have hu := h.newest u.epoch (by simp [he])
    have ha := h.ascending
    simp only [he, List.map_append, List.pairwise_append, List.mem_map] at ha
    rw [he] at ht
    rcases List.mem_append.mp ht with hm | hm
    · have hlt := ha.2.2 t.epoch ⟨t, hm, rfl⟩ u.epoch (by simp)
      omega
    · rw [List.mem_singleton.mp hm]
      omega

/-- The newest task has a number, the current epoch is that of an operation, and the other tasks are over
and older. -/
structure Holds (m : Machine β) (olds : List (Task β)) (id epoch : Nat) : Prop where
  tasks : ∃ t, m.tasks = olds ++ [t] ∧ t.id = id
  current : m.controller.epoch = epoch
  numbered : Numbered m.tasks
  ascending : (olds.map Task.epoch).Pairwise (· < ·)
  below : ∀ t ∈ olds, t.epoch < epoch
  others : AllOver olds

theorem Sound.holds {m : Machine β} (h : m.Sound) {olds : List (Task β)} {t : Task β}
    (ht : m.tasks = olds ++ [t]) (ho : AllOver olds) : m.Holds olds t.id t.epoch := by
  have ha := h.ascending
  simp only [ht, List.map_append, List.pairwise_append, List.mem_map] at ha
  refine ⟨⟨t, ht, rfl⟩, (h.newest t.epoch (by simp [ht])).symm, h.numbered, ha.1, ?_, ho⟩
  intro u hu
  exact ha.2.2 u.epoch ⟨u, hu, rfl⟩ t.epoch (by simp)

/-- What a step from `m` to `m'` arrives at: the signals told on the way raise the epoch, and no superseded
task takes another epoch. -/
structure Arrives (m : Machine β) (es : List Signal) (m' : Machine β) (q : Situation) : Prop where
  sound : m'.Sound
  inside : m'.In q
  told : ∃ ns, m'.notices = m.notices ++ ns ∧ signals ns = es
  epoch : m'.controller.epoch = m.controller.epoch + es.countP (fun s => s = .starting ∨ s = .stopping)
  keeps : (m.tasks.map Task.epoch).dropLast <+: m'.tasks.map Task.epoch

/-- The machine goes from one situation to another, as the accepted calls and the signals tell. -/
def Advances (m : Machine β) (q : Situation) (calls : List Entry) (m' : Machine β) : Prop :=
  ∃ es q', q.Steps (calls ++ es.map .told) q' ∧ m.Arrives es m' q'

end Machine

end StackDeck.Lifecycle
