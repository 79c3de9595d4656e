import Mathlib.Data.List.DropRight
import StackDeck.Proofs.Lifecycle.Chronicle

/-!
A journal of a stack: the accepted calls, the calls to the backend with the steps they report and their ends, and
what was told. Whatever the backend was given to report its steps may be used at any time, also after the call for
which it was made has ended.
-/

namespace StackDeck.Lifecycle

variable {β : Type}

/-- A call to the backend, with the task that makes it and the epoch for which it reports. -/
structure Errand where
  task : Nat
  duty : Duty
  epoch : Nat
  deriving DecidableEq

inductive Record where
  | accepted (c : Call)
  | asked (e : Errand)
  /-- A step, and the epoch that was current when it was reported. -/
  | reported (e : Errand) (current : Nat) (p : Progress)
  | concluded (e : Errand) (current : Nat) (r : Except BackendError Unit)
  | told (n : Notice)

def Notice.progress? : Notice → Option Progress
  | .progress p => some p
  | _ => none

/-- The duty that begins with a notice. -/
def Notice.duty? : Notice → Option Duty
  | .starting => some .boot
  | .stopping => some .teardown
  | _ => none

/-- How an operation ended, with the text of its error. -/
def Notice.outcome? : Notice → Option (Option String)
  | .started | .stopped => some none
  | .failed error => some (some error)
  | _ => none

def Entry.duty? : Entry → Option Duty
  | .told .starting => some .boot
  | .told .stopping => some .teardown
  | _ => none

def errorText : Except BackendError Unit → Option String
  | .ok _ => none
  | .error e => some e.message

namespace Record

def notice? : Record → Option Notice
  | .told n => some n
  | _ => none

def entry? : Record → Option Entry
  | .accepted c => some (.call c)
  | .told n => n.signal?.map .told
  | _ => none

def duty? : Record → Option Duty
  | .told n => n.duty?
  | _ => none

def errand? : Record → Option Errand
  | .asked e => some e
  | _ => none

/-- A step that counts: its call held the current epoch. -/
def step? : Record → Option (Errand × Progress)
  | .reported e current p => if current = e.epoch then some (e, p) else none
  | _ => none

/-- An end that counts. -/
def result? : Record → Option (Except BackendError Unit)
  | .concluded e current r => if current = e.epoch then some r else none
  | _ => none

/-- The epoch that a record names as current. -/
def current? : Record → Option Nat
  | .reported _ current _ | .concluded _ current _ => some current
  | _ => none

/-- The call whose step or end counts. -/
def holder? : Record → Option Errand
  | .reported e current _ | .concluded e current _ => if current = e.epoch then some e else none
  | _ => none

/-- A new operation was accepted. -/
def opens : Record → Bool
  | .accepted c => c ≠ .cancel
  | _ => false

end Record

section

variable (J : List Record)

def told : List Notice := J.filterMap Record.notice?
def duties : List Duty := J.filterMap Record.duty?
def errands : List Errand := J.filterMap Record.errand?
def counted : List (Errand × Progress) := J.filterMap Record.step?
def results : List (Except BackendError Unit) := J.filterMap Record.result?

/-- The steps of a call that count. -/
def steps (e : Errand) : List Progress := ((counted J).filter fun x => x.1 = e).map Prod.snd

/-- What was written down since the last operation was accepted, and what before. -/
def since : List Record := J.rtakeWhile fun r => !r.opens
def past : List Record := J.rdropWhile fun r => !r.opens

end

/-! ### What is written down -/

/-- A step is told if it counts. -/
def noted (e : Errand) (current : Nat) (p : Progress) : List Record :=
  .reported e current p :: if current = e.epoch then [.told (.progress p)] else []

namespace Machine

variable (m : Machine β)

/-- A task lets its operation go on. -/
def workLog (e : Errand) (cancelled : Bool) (op : Operation β) : List Record :=
  (asks e.task e.duty op).map (fun a => .asked ⟨a.1, a.2, e.epoch⟩) ++
    (op.poll m.now cancelled m.world).1.flatMap (noted e m.controller.epoch)

def finishLog (e : Errand) (r : Except BackendError Unit) (success : Notice) : List Record :=
  .concluded e m.controller.epoch r :: if m.controller.epoch = e.epoch then [.told (verdict success r)] else []

def bootLog (id epoch token : Nat) (op : Operation β) : List Record :=
  let cancelled := m.cancelled.contains token
  m.workLog ⟨id, .boot, epoch⟩ cancelled op ++
    match (op.poll m.now cancelled m.world).2.2 with
    | .ended r => (m.work id .boot epoch cancelled op).finishLog ⟨id, .boot, epoch⟩ r .started
    | _ => []

def afterTeardownLog (id epoch : Nat) (r : Except BackendError Unit) (thenBoot : Bool) : List Record :=
  if thenBoot && r.isOk then
    if m.controller.epoch = epoch then
      .told .starting :: ({ m with controller := m.controller.startBoot }.publish .starting).bootLog id (epoch + 1)
        (epoch + 1) (.fresh m.backend.boot)
    else []
  else m.finishLog ⟨id, .teardown, epoch⟩ r .stopped

def teardownLog (id epoch : Nat) (deadline : Option Nat) (op : Operation β) (thenBoot : Bool) : List Record :=
  let m' := m.work id .teardown epoch false op
  m.workLog ⟨id, .teardown, epoch⟩ false op ++
    match (op.poll m.now false m.world).2.2 with
    | .ended r => m'.afterTeardownLog id epoch r thenBoot
    | _ =>
      if deadline.getD (m.now + m.teardownTimeout) ≤ m.now then
        m'.afterTeardownLog id epoch (.error (.timeout (m.teardownTimeout / 1000))) thenBoot
      else []

def awaitLog (id epoch target : Nat) (deadline : Option Nat) : List Record :=
  if m.isOver target then m.teardownLog id epoch none (.fresh m.backend.teardown) false
  else if deadline.getD (m.now + cancelGrace) ≤ m.now then
    (m.abort target).teardownLog id epoch none (.fresh m.backend.teardown) false
  else []

/-- What a task does when it goes on. -/
def pollLog (id : Nat) : List Record :=
  match m.task? id with
  | none => []
  | some t =>
    match t.place with
    | .boot token op => m.bootLog id t.epoch token op
    | .teardown deadline op thenBoot => m.teardownLog id t.epoch deadline op thenBoot
    | .await target deadline => m.awaitLog id t.epoch target deadline
    | .over => []

end Machine

def Entry.call? : Entry → Option Call
  | .call c => some c
  | .told _ => none

/-- Some accepted calls, and what was told between two machines. -/
def Machine.news (calls : List Entry) (m m' : Machine β) : List Record :=
  (calls.filterMap Entry.call?).map .accepted ++ (m'.notices.drop m.notices.length).map .told

/-- What is written down of a move. -/
def Scene.log (s : Scene β) (mv : Move β) : List Record :=
  match mv with
  | .poll id => s.machine.pollLog id
  | mv => s.machine.news ((s.move mv).chronicle.drop s.chronicle.length) (s.move mv).machine

/-- A scene with its journal. -/
structure Account (β : Type) where
  scene : Scene β
  journal : List Record := []

inductive Turn (β : Type) where
  | move (mv : Move β)
  /-- A step is reported for one of the calls to the backend so far, whatever has become of it. -/
  | report (k : Nat) (p : Progress)

namespace Account

def start (backend : Backend β) (world : β) (teardownTimeout : Nat) : Account β :=
  { scene := .start backend world teardownTimeout }

def turn (a : Account β) : Turn β → Account β
  | .move mv => ⟨a.scene.move mv, a.journal ++ a.scene.log mv⟩
  | .report k p =>
    match (errands a.journal)[k]? with
    | none => a
    | some e =>
      ⟨{ a.scene with machine := a.scene.machine.reportProgress e.epoch p },
        a.journal ++ noted e a.scene.machine.controller.epoch p⟩

def run (turns : List (Turn β)) (a : Account β) : Account β := turns.foldl turn a

end Account

/-! ### Journals that grow -/

section

variable {J K : List Record} {r : Record} {e : Errand}

@[simp] theorem told_append (J K : List Record) : told (J ++ K) = told J ++ told K := List.filterMap_append
@[simp] theorem duties_append (J K : List Record) : duties (J ++ K) = duties J ++ duties K := List.filterMap_append
@[simp] theorem errands_append (J K : List Record) : errands (J ++ K) = errands J ++ errands K := List.filterMap_append

@[simp] theorem counted_append (J K : List Record) : counted (J ++ K) = counted J ++ counted K := List.filterMap_append
@[simp] theorem results_append (J K : List Record) : results (J ++ K) = results J ++ results K := List.filterMap_append

@[simp] theorem steps_append (J K : List Record) (e : Errand) : steps (J ++ K) e = steps J e ++ steps K e := by
  simp [steps]

theorem past_append_since (J : List Record) : past J ++ since J = J := List.rdropWhile_append_rtakeWhile

theorem errands_since (J : List Record) : (errands (since J)).Sublist (errands J) :=
  (List.rtakeWhile_suffix _ J).sublist.filterMap _

theorem counted_since (J : List Record) : (counted (since J)).Sublist (counted J) :=
  (List.rtakeWhile_suffix _ J).sublist.filterMap _

theorem since_concat (J : List Record) (r : Record) : since (J ++ [r]) = if r.opens then [] else since J ++ [r] := by
  rw [since, List.rtakeWhile_concat]
  cases r.opens <;> rfl

theorem past_concat (J : List Record) (r : Record) : past (J ++ [r]) = if r.opens then J ++ [r] else past J := by
  rw [past, List.rdropWhile_concat]
  cases r.opens <;> rfl

/-- No operation is accepted in a part of a journal. -/
def Within (K : List Record) : Prop := ∀ r ∈ K, r.opens = false

theorem Within.append {K L : List Record} (hK : Within K) (hL : Within L) : Within (K ++ L) := by
  intro r hr
  rcases List.mem_append.mp hr with hr | hr
  · exact hK r hr
  · exact hL r hr

theorem Within.since_append (hK : Within K) (J : List Record) : since (J ++ K) = since J ++ K := by
  induction K using List.reverseRecOn with
  | nil => simp
  | append_singleton K r ih =>
    have hr : r.opens = false := hK r (by simp)
    rw [← List.append_assoc, since_concat, hr, ih fun x hx => hK x (by simp [hx])]
    simp

theorem Within.past_append (hK : Within K) (J : List Record) : past (J ++ K) = past J := by
  have hwhole := past_append_since (J ++ K)
  rw [hK.since_append, ← List.append_assoc, List.append_cancel_right_eq] at hwhole
  have hJ := past_append_since J
  exact List.append_cancel_right (hwhole.trans hJ.symm)

/-- Nothing is accepted where only tasks go on. -/
def Background (K : List Record) : Prop := ∀ r ∈ K, ∀ c, r ≠ .accepted c

theorem Background.within (h : Background K) : Within K := by
  intro r hr
  cases r with
  | accepted c => exact absurd rfl (h _ hr c)
  | _ => rfl

theorem Background.append {L : List Record} (hK : Background K) (hL : Background L) : Background (K ++ L) := by
  intro r hr
  rcases List.mem_append.mp hr with hr | hr
  · exact hK r hr
  · exact hL r hr

theorem Background.mem_since (hK : Background K) {c : Call} (hc : .accepted c ∈ since (J ++ K)) :
    .accepted c ∈ since J := by
  rw [hK.within.since_append] at hc
  rcases List.mem_append.mp hc with hc | hc
  · exact hc
  · exact absurd rfl (hK _ hc c)

theorem background_one {r : Record} (hr : ∀ c, r ≠ .accepted c) : Background [r] := by
  intro x hx
  rw [List.mem_singleton.mp hx]
  exact hr

variable {call : Call} (hcall : call ≠ .cancel) (J : List Record) (n : Notice)
include hcall

theorem since_opened : since (J ++ [.accepted call, .told n]) = [.told n] := by
  have hopens : (Record.accepted call).opens = true := by simp [Record.opens, hcall]
  have hn : Within [.told n] := by simp [Within, Record.opens]
  have hsplit : J ++ [.accepted call, .told n] = (J ++ [.accepted call]) ++ [.told n] := by simp
  rw [hsplit, hn.since_append, since_concat, if_pos hopens]
  rfl

theorem past_opened : past (J ++ [.accepted call, .told n]) = J ++ [.accepted call] := by
  have hopens : (Record.accepted call).opens = true := by simp [Record.opens, hcall]
  have hn : Within [.told n] := by simp [Within, Record.opens]
  have hsplit : J ++ [.accepted call, .told n] = (J ++ [.accepted call]) ++ [.told n] := by simp
  rw [hsplit, hn.past_append, past_concat, if_pos hopens]

end

end StackDeck.Lifecycle
