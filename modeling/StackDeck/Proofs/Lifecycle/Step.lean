import StackDeck.Proofs.Lifecycle.Run
import StackDeck.Proofs.Lifecycle.Task

namespace StackDeck.Lifecycle

variable {β : Type}

@[simp] theorem signals_append (ns ns' : List Notice) : signals (ns ++ ns') = signals ns ++ signals ns' :=
  List.filterMap_append

@[simp] theorem signals_progress (ps : List Progress) : signals (ps.map .progress) = [] := by
  simp [signals, Notice.signal?]

/-- What a finished operation tells. -/
def verdict (success : Notice) : Except BackendError Unit → Notice
  | .ok _ => success
  | .error e => .failed e.message

/-- An operation that is fresh is asked for by the task that lets it go on. -/
def asks (id : Nat) (d : Duty) : Operation β → List (Nat × Duty)
  | .fresh _ => [(id, d)]
  | _ => []

theorem asks_of_isUnderway {id : Nat} {d : Duty} {op : Operation β} (h : op.isUnderway) : asks id d op = [] := by
  cases op with
  | fresh s => cases h
  | asleep due heeds next => rfl
  | held => rfl
  | ended r => rfl

namespace Machine

variable {m : Machine β} {id epoch : Nat}

/-- The machine after its backend has changed the world and reported steps. -/
def heard (w : β) (ps : List Progress) (m : Machine β) : Machine β :=
  { m with
    world := w
    controller := { m.controller with progress := m.controller.progress ++ ps }
    notices := m.notices ++ ps.map .progress }

theorem reports_eq (ps : List Progress) (m : Machine β) (epoch : Nat) :
    ps.foldl (fun m p => m.reportProgress epoch p) m =
      if m.controller.epoch = epoch then m.heard m.world ps else m := by
  induction ps generalizing m with
  | nil => simp [heard]
  | cons p r ih =>
    rw [List.foldl_cons, ih]
    by_cases h : m.controller.epoch = epoch
    · simp [reportProgress, publish, heard, h]
    · simp [reportProgress, h]

/-- The machine after a task has let its operation go on. -/
def work (id : Nat) (d : Duty) (epoch : Nat) (cancelled : Bool) (op : Operation β) (m : Machine β) : Machine β :=
  ((m.ask id d op).drive epoch cancelled op).2

section work

variable (id : Nat) (d : Duty) (epoch : Nat) (cancelled : Bool) (op : Operation β) (m : Machine β)

theorem ask_eq : m.ask id d op = { m with asked := m.asked ++ asks id d op } := by
  cases op <;> simp [ask, asks]

theorem work_eq : m.work id d epoch cancelled op =
    { m with asked := m.asked ++ asks id d op }.heard (op.poll m.now cancelled m.world).2.1
      (if m.controller.epoch = epoch then (op.poll m.now cancelled m.world).1 else []) := by
  simp only [work, drive, ask_eq, reports_eq]
  split <;> simp [heard]

theorem drive_ask : (m.ask id d op).drive epoch cancelled op =
    ((op.poll m.now cancelled m.world).2.2, m.work id d epoch cancelled op) := by
  simp [work, drive, ask_eq]

@[simp] theorem work_tasks : (m.work id d epoch cancelled op).tasks = m.tasks := by rw [work_eq]; rfl
@[simp] theorem work_now : (m.work id d epoch cancelled op).now = m.now := by rw [work_eq]; rfl
@[simp] theorem work_backend : (m.work id d epoch cancelled op).backend = m.backend := by rw [work_eq]; rfl
@[simp] theorem work_asked : (m.work id d epoch cancelled op).asked = m.asked ++ asks id d op := by
  rw [work_eq]; rfl
@[simp] theorem work_world :
    (m.work id d epoch cancelled op).world = (op.poll m.now cancelled m.world).2.1 := by rw [work_eq]; rfl
@[simp] theorem work_epoch : (m.work id d epoch cancelled op).controller.epoch = m.controller.epoch := by
  rw [work_eq]; rfl
@[simp] theorem work_phase : (m.work id d epoch cancelled op).controller.phase = m.controller.phase := by
  rw [work_eq]; rfl
@[simp] theorem work_cancel : (m.work id d epoch cancelled op).controller.cancel = m.controller.cancel := by
  rw [work_eq]; rfl
@[simp] theorem work_bootTask :
    (m.work id d epoch cancelled op).controller.bootTask = m.controller.bootTask := by rw [work_eq]; rfl

theorem work_notices :
    ∃ ps : List Progress, (m.work id d epoch cancelled op).notices = m.notices ++ ps.map .progress :=
  ⟨_, by rw [work_eq]; rfl⟩

/-- What a superseded operation reports is dropped. -/
theorem work_superseded (h : m.controller.epoch ≠ epoch) :
    (m.work id d epoch cancelled op).controller = m.controller ∧
      (m.work id d epoch cancelled op).notices = m.notices := by
  rw [work_eq]
  simp [heard, h]

end work

theorem finish_current (h : m.controller.epoch = epoch) (r : Except BackendError Unit) (success : Notice) :
    m.finish epoch r success = { m with controller := m.controller.rest r }.publish (verdict success r) := by
  unfold finish
  rw [if_pos h]
  cases r <;> rfl

theorem finish_superseded (h : m.controller.epoch ≠ epoch) (r : Except BackendError Unit) (success : Notice) :
    m.finish epoch r success = m := by
  simp [finish, h]

section steps

variable {token : Nat} {op : Operation β} {deadline : Option Nat} {thenBoot : Bool} {r : Except BackendError Unit}

theorem pollBoot_ended (h : (op.poll m.now (m.cancelled.contains token) m.world).2.2 = .ended r) :
    m.pollBoot id epoch token op =
      ((m.work id .boot epoch (m.cancelled.contains token) op).finish epoch r .started).place id epoch .over := by
  simp only [pollBoot, drive_ask, h]

theorem pollBoot_underway {op' : Operation β}
    (h : (op.poll m.now (m.cancelled.contains token) m.world).2.2 = op') (hu : op'.isUnderway) :
    m.pollBoot id epoch token op =
      (m.work id .boot epoch (m.cancelled.contains token) op).place id epoch (.boot token op') := by
  simp only [pollBoot, drive_ask, h]
  cases op' with
  | fresh s => cases hu
  | ended r => cases hu
  | asleep due heeds next => rfl
  | held => rfl

theorem pollTeardown_ended (h : (op.poll m.now false m.world).2.2 = .ended r) :
    m.pollTeardown id epoch deadline op thenBoot =
      (m.work id .teardown epoch false op).afterTeardown id epoch r thenBoot := by
  simp only [pollTeardown, drive_ask, h]

theorem pollTeardown_late {op' : Operation β} (h : (op.poll m.now false m.world).2.2 = op')
    (hu : op'.isUnderway) (hd : deadline.getD (m.now + m.teardownTimeout) ≤ m.now) :
    m.pollTeardown id epoch deadline op thenBoot =
      (m.work id .teardown epoch false op).afterTeardown id epoch (.error (.timeout (m.teardownTimeout / 1000)))
        thenBoot := by
  have ht : (m.work id .teardown epoch false op).teardownTimeout = m.teardownTimeout := by rw [work_eq]; rfl
  simp only [pollTeardown, drive_ask, h]
  cases op' with
  | fresh s => cases hu
  | ended r => cases hu
  | asleep due heeds next => simp [hd, ht]
  | held => simp [hd, ht]

theorem pollTeardown_underway {op' : Operation β} (h : (op.poll m.now false m.world).2.2 = op')
    (hu : op'.isUnderway) (hd : ¬ deadline.getD (m.now + m.teardownTimeout) ≤ m.now) :
    m.pollTeardown id epoch deadline op thenBoot =
      (m.work id .teardown epoch false op).place id epoch
        (.teardown (some (deadline.getD (m.now + m.teardownTimeout))) op' thenBoot) := by
  simp only [pollTeardown, drive_ask, h]
  cases op' with
  | fresh s => cases hu
  | ended r => cases hu
  | asleep due heeds next => simp [hd]
  | held => simp [hd]

theorem afterTeardown_failed (e : BackendError) :
    m.afterTeardown id epoch (.error e) thenBoot = (m.finish epoch (.error e) .stopped).place id epoch .over := by
  simp [afterTeardown, Except.isOk, Except.toBool]

theorem afterTeardown_last : m.afterTeardown id epoch r false = (m.finish epoch r .stopped).place id epoch .over := by
  simp [afterTeardown]

theorem afterTeardown_boot (h : m.controller.epoch = epoch) :
    m.afterTeardown id epoch (.ok ()) true =
      ({ m with controller := m.controller.startBoot }.publish .starting).pollBoot id (epoch + 1) (epoch + 1)
        (.fresh m.backend.boot) := by
  subst h
  simp [afterTeardown, Except.isOk, Except.toBool, Controller.startBoot]

theorem afterTeardown_superseded (h : m.controller.epoch ≠ epoch) :
    m.afterTeardown id epoch (.ok ()) true = m.place id epoch .over := by
  simp [afterTeardown, Except.isOk, Except.toBool, h]

variable {target : Nat}

theorem pollAwait_over (h : m.isOver target = true) :
    m.pollAwait id epoch target deadline = m.pollTeardown id epoch none (.fresh m.backend.teardown) false := by
  simp [pollAwait, h]

theorem pollAwait_late (h : m.isOver target = false) (hd : deadline.getD (m.now + cancelGrace) ≤ m.now) :
    m.pollAwait id epoch target deadline =
      (m.abort target).pollTeardown id epoch none (.fresh m.backend.teardown) false := by
  simp [pollAwait, h, hd]

theorem pollAwait_waits (h : m.isOver target = false) (hd : ¬ deadline.getD (m.now + cancelGrace) ≤ m.now) :
    m.pollAwait id epoch target deadline =
      m.place id epoch (.await target (some (deadline.getD (m.now + cancelGrace)))) := by
  simp [pollAwait, h, hd]

end steps

end Machine

end StackDeck.Lifecycle
