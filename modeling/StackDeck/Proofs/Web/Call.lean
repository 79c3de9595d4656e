import StackDeck.Proofs.Diagnosis.Failure
import StackDeck.Proofs.Lifecycle.Refusal
import StackDeck.Web.Server

/-!
What a call does to the stack that it is made on. A call that is refused leaves no trace there, except that a
backend has been asked to act on a service which it then does not know.
-/

namespace StackDeck

namespace Lifecycle.Machine

variable {β : Type} {m : Machine β} {b : Backend β}

/-- The machine with another backend. -/
def withBackend (b : Backend β) (m : Machine β) : Machine β := { m with backend := b }

theorem runningCount_withBackend (hb : b.services = m.backend.services) : (m.withBackend b).runningCount = m.runningCount := by
  simp only [runningCount, withBackend, hb]

theorem beginBoot_withBackend (n : Nat) : ((m.withBackend b).beginBoot n).1 = (m.beginBoot n).1 := by
  simp only [beginBoot, withBackend]
  split
  · rfl
  · split <;> rfl

theorem up_withBackend (hb : b.services = m.backend.services) : (m.withBackend b).up.1 = m.up.1 := by
  rw [up, up, runningCount_withBackend hb]
  simp only [withBackend]
  split
  · rfl
  · exact beginBoot_withBackend m.runningCount

theorem down_withBackend : (m.withBackend b).down.1 = m.down.1 := by
  simp only [down, withBackend]
  split <;> rfl

theorem restart_withBackend : (m.withBackend b).restart.1 = m.restart.1 := by
  simp only [restart, withBackend]
  split <;> rfl

theorem cancel_withBackend : (m.withBackend b).cancel.1 = m.cancel.1 := by
  simp only [cancel, withBackend]
  split <;> rfl

end Lifecycle.Machine

namespace Diagnosis.Manager

variable {m : Manager} {id : String} {e : Fault}

theorem interrupt_error (h : (m.interrupt id).1 = .error e) : m.interrupt id = (.error e, m) := by
  rcases m.interrupt_cases id with (⟨e', -, hi⟩ | ⟨_, _, _, _, _, hi⟩) | ⟨_, _, _, _, _, _, hi⟩ <;> rw [hi] at h ⊢
  · exact Prod.ext h rfl
  · cases h
  · cases h

/-- A session that could not be closed was not found, unless its engine failed at it. -/
theorem close_error (h : (m.close id).1 = .error e) (hf : ∀ f, e ≠ .provider f) : m.close id = (.error e, m) := by
  rcases m.close_cases id with ⟨e', -, hc⟩ | ⟨s, -, -, -, -, hc⟩
  · rw [hc] at h ⊢
    exact Prod.ext h rfl
  · rw [hc] at h
    cases hr : (({ m with registry := m.registry.filter (· != id) } : Manager).release s).1 with
    | ok u =>
      rw [hr] at h
      cases h
    | error f =>
      rw [hr] at h
      exact absurd (Except.error.inj h).symm (hf f)

end Diagnosis.Manager

namespace Stack.Context

variable {α β : Type} {c : Context β} {b : Backend β}

/-- The stack with another backend. -/
def withBackend (b : Backend β) (c : Context β) : Context β := { c with machine := c.machine.withBackend b }

/-- Something done to a stack that leaves no trace: nothing of the stack changes, and that is so, with the same
answer, whatever its backend would do if it were asked for more than a list of the services. -/
def Traceless (f : Context β → α × Context β) (c : Context β) : Prop :=
  ∀ b : Backend β, b.services = c.machine.backend.services → f (c.withBackend b) = ((f c).1, c.withBackend b)

theorem Traceless.same {f : Context β → α × Context β} (h : Traceless f c) : (f c).2 = c :=
  congrArg Prod.snd (h c.machine.backend rfl)

theorem services_withBackend (hb : b.services = c.machine.backend.services) : (c.withBackend b).services = c.services :=
  congrFun hb c.machine.world

theorem admitDiagnosis_withBackend (hb : b.services = c.machine.backend.services) (service : String)
    (provider : Option String) :
    (c.withBackend b).admitDiagnosis service provider = c.admitDiagnosis service provider := by
  rw [admitDiagnosis, services_withBackend hb, admitDiagnosis]
  rfl

theorem onMachine_same {f : Lifecycle.Machine β → α × Lifecycle.Machine β} {a : α} (h : f c.machine = (a, c.machine)) :
    c.onMachine f = (a, c) := by
  simp only [onMachine, h, List.drop_length, List.map_nil, Nat.lt_irrefl, if_false, leave, List.append_nil]
  rfl

theorem callManager_same {f : Diagnosis.Manager → α × Diagnosis.Manager} {a : α} (h : f c.manager = (a, c.manager)) :
    c.callManager f = (a, c) := by
  simp only [callManager, onManager, h, List.drop_length, List.map_nil, Nat.sub_self, List.replicate_zero, leave,
    List.append_nil]
  rfl

/-- A call that the machine refuses whatever its backend is leaves no trace. -/
theorem onMachine_traceless {f : Lifecycle.Machine β → α × Lifecycle.Machine β} {a : α}
    (h : ∀ b : Backend β, b.services = c.machine.backend.services →
      f (c.machine.withBackend b) = (a, c.machine.withBackend b)) :
    Traceless (onMachine f) c := by
  intro b hb
  have hown : f c.machine = (a, c.machine) := h c.machine.backend rfl
  rw [onMachine_same hown]
  exact onMachine_same (h b hb)

theorem callManager_traceless {f : Diagnosis.Manager → α × Diagnosis.Manager} {a : α} (h : f c.manager = (a, c.manager)) :
    Traceless (callManager f) c := by
  intro b _
  rw [callManager_same h]
  exact callManager_same h

end Stack.Context

namespace Lifecycle.Machine

variable {β : Type} {m : Machine β}

/-- The backend, asked to act on a service, ends by saying that it does not know the service. -/
def Disowns (service : String) (a : ServiceAction) (op : Operation β) (m : Machine β) : Prop :=
  ∃ x, (m.attend (.acting service a op)).1 = .answered (.error (.backend (.serviceNotFound x)))

/-- An action is refused at its arrival, or its backend is asked. -/
theorem serviceAction_cases (service : String) (a : ServiceAction) (m : Machine β) :
    (∃ e, ∀ b : Backend β, (m.withBackend b).serviceAction service a = (.answered (.error e), m.withBackend b)) ∨
    m.serviceAction service a = m.attend (.acting service a (.fresh (m.backend.act a service))) := by
  rcases m.controller.ensureIdle_cases with ⟨-, hi⟩ | ⟨-, e, hi, -⟩
  · refine .inr ?_
    rw [serviceAction, arrive, hi]
  · refine .inl ⟨e, fun b => ?_⟩
    have hb : (m.withBackend b).controller.ensureIdle = .error e := hi
    rw [serviceAction, arrive, hb]

/-- What an action that goes on at its backend comes to. -/
theorem attend_acting_cases (service : String) (a : ServiceAction) (op : Operation β) (m : Machine β) :
    (∃ op', (m.attend (.acting service a op)).1 = .waiting (.acting service a op')) ∨
    (m.attend (.acting service a op)).1 = .answered (.ok ()) ∨
    ∃ e, (m.attend (.acting service a op)).1 = .answered (.error (.backend e)) := by
  simp only [attend]
  split
  next result _ =>
    cases result with
    | ok u => exact .inr (.inl rfl)
    | error e => exact .inr (.inr ⟨e, rfl⟩)
  next => exact .inl ⟨_, rfl⟩

end Lifecycle.Machine

namespace Web

/-- An answer that neither grants a request nor tells of a failure inside. -/
def Response.Refuses (r : Response) : Prop := ¬(200 ≤ r.status ∧ r.status < 300) ∧ r.status ≠ 500

theorem Response.not_refuses_of_ok {r : Response} (h : r.status = 200 ∨ r.status = 202 ∨ r.status = 500) : ¬r.Refuses := by
  rintro ⟨h2, h5⟩
  omega

/-- The part of a lifecycle reply that refuses is an error. -/
theorem Reply.ofLifecycle_refuses {status : String} {x : Except Lifecycle.Fault Unit}
    (h : (Reply.ofLifecycle status x).Refuses) : ∃ e, x = .error e := by
  cases x with
  | ok u => exact absurd h (Response.not_refuses_of_ok (.inl rfl))
  | error e => exact ⟨e, rfl⟩

theorem Reply.ofDiagnosis_refuses {α : Type} {good : α → Response} (hgood : ∀ a, (good a).status = 200 ∨ (good a).status = 202)
    {x : Except Diagnosis.Fault α} (h : (Reply.ofDiagnosis good x).Refuses) :
    ∃ e, x = .error e ∧ ∀ f, e ≠ .provider f := by
  cases x with
  | ok a => exact absurd h (Response.not_refuses_of_ok ((hgood a).imp_right .inl))
  | error e =>
    refine ⟨e, rfl, ?_⟩
    rintro f rfl
    exact absurd h (Response.not_refuses_of_ok (.inr (.inr rfl)))

namespace Reply

variable {β : Type} {m : Lifecycle.Machine β} {stack service : String} {a : ServiceAction} {op : Operation β} {r : Response}
  {w : Wait β}

/-- An action that went to its backend is refused only if the backend does not know the service. -/
theorem acting_refused (h : ofAttended stack (m.attend (.acting service a op)).1 = .answered r) (hr : r.Refuses) :
    r.status = 404 ∧ m.Disowns service a op := by
  rcases m.attend_acting_cases service a op with ⟨op', hop⟩ | hok | ⟨e, he⟩
  · rw [hop] at h
    cases h
  · rw [hok] at h
    obtain rfl := Reply.answered.inj h
    exact absurd hr (Response.not_refuses_of_ok (.inl rfl))
  · rw [he] at h
    obtain rfl := Reply.answered.inj h
    cases e with
    | serviceNotFound x => exact ⟨rfl, x, he⟩
    | _ => exact absurd hr (Response.not_refuses_of_ok (.inr (.inr rfl)))

/-- An action that waits goes on as the same action. -/
theorem acting_waits (h : ofAttended stack (m.attend (.acting service a op)).1 = .waiting w) :
    ∃ op', w = .action stack (.acting service a op') := by
  rcases m.attend_acting_cases service a op with ⟨op', hop⟩ | hok | ⟨e, he⟩
  · rw [hop] at h
    exact ⟨op', (Reply.waiting.inj h).symm⟩
  · rw [hok] at h
    cases h
  · rw [he] at h
    cases h

end Reply

/-- A call to the whole stack. -/
inductive Order where
  | up
  | down
  | restart
  | cancel
  deriving DecidableEq, Repr

namespace Order

open Stack.Context Lifecycle

variable {β : Type}

def call : Order → Call
  | .up => .up
  | .down => .down
  | .restart => .restart
  | .cancel => .cancel

/-- What the controller of a stack makes of an order. -/
def give : Order → Machine β → Except Fault Unit × Machine β
  | .up => Machine.up
  | .down => Machine.down
  | .restart => Machine.restart
  | .cancel => Machine.cancel

/-- What is said of an order that is granted. -/
def granted : Order → String
  | .up => "starting"
  | _ => "stopping"

theorem perform_eq (o : Order) (c : Stack.Context β) : o.call.perform c =
    Call.answer (Reply.ofLifecycle o.granted (c.onMachine o.give).1, (c.onMachine o.give).2) := by
  cases o <;> rfl

theorem give_decides (o : Order) (m : Machine β) : ∃ fits, m.Decides fits (o.give m) := by
  cases o with
  | up => exact ⟨_, Machine.up_decides⟩
  | down => exact ⟨_, Machine.down_decides⟩
  | restart => exact ⟨_, Machine.restart_decides⟩
  | cancel => exact ⟨_, Machine.cancel_decides⟩

/-- A refused order is refused whatever the backend is that would carry it out. -/
theorem give_error (o : Order) {m : Machine β} {e : Fault} (he : (o.give m).1 = .error e) (b : Backend β)
    (hb : b.services = m.backend.services) : o.give (m.withBackend b) = (.error e, m.withBackend b) := by
  have hown : (o.give (m.withBackend b)).1 = (o.give m).1 := by
    cases o with
    | up => exact Machine.up_withBackend hb
    | down => exact Machine.down_withBackend
    | restart => exact Machine.restart_withBackend
    | cancel => exact Machine.cancel_withBackend
  obtain ⟨fits, hdecides⟩ := o.give_decides (m.withBackend b)
  have hfst := hown.trans he
  exact Prod.ext hfst (hdecides.refused e hfst).2

theorem refused (o : Order) {c : Stack.Context β} {r : Response} (h : (o.call.perform c).1 = .answered r)
    (hr : r.Refuses) : Traceless o.call.perform c := by
  rw [perform_eq] at h
  obtain rfl : Reply.ofLifecycle o.granted (o.give c.machine).1 = r := Reply.answered.inj h
  obtain ⟨e, he⟩ := Reply.ofLifecycle_refuses hr
  have ht : Traceless (onMachine o.give) c := onMachine_traceless (o.give_error he)
  intro b hb
  rw [perform_eq, perform_eq, ht b hb]
  rfl

end Order

namespace Call

open Stack.Context Lifecycle

variable {β : Type} {call : Call} {c : Stack.Context β} {r : Response}

theorem traceless_of_manager {α : Type} {f : Diagnosis.Manager → α × Diagnosis.Manager} {good : α → Response} {x : α}
    (hcall : ∀ c : Stack.Context β, call.perform c = answer (good (c.callManager f).1, (c.callManager f).2))
    (h : f c.manager = (x, c.manager)) : Traceless call.perform c := by
  intro b hb
  rw [hcall, hcall, callManager_traceless h b hb]
  rfl

theorem start_traceless (service : String) (provider : Option String) (c : Stack.Context β) :
    Traceless (start service provider).perform c := by
  intro b hb
  simp only [perform, admitDiagnosis_withBackend hb]
  split <;> rfl

theorem perform_action {service action : String} {a : ServiceAction} (ha : actionOfName action = .ok a)
    (c : Stack.Context β) : (serviceAction service action).perform c =
      (Reply.ofAttended c.name (c.serviceAction service a).1, (c.serviceAction service a).2) := by
  simp only [perform, ha]
  rfl

/-- An action is answered at once with no trace, or comes to what its backend makes of it. -/
theorem action_cases (service : String) {action : String} {a : ServiceAction} (ha : actionOfName action = .ok a)
    (c : Stack.Context β) :
    (Traceless (serviceAction service action).perform c ∧ ∃ r, ((serviceAction service action).perform c).1 = .answered r) ∨
    ((serviceAction service action).perform c).1 =
      Reply.ofAttended c.name (c.machine.attend (.acting service a (.fresh (c.machine.backend.act a service)))).1 := by
  rcases c.machine.serviceAction_cases service a with ⟨e, hall⟩ | hattend
  · have ht : Traceless (Stack.Context.serviceAction service a) c := onMachine_traceless fun b _ => hall b
    have hfst : (c.serviceAction service a).1 = .answered (.error e) := congrArg Prod.fst (hall c.machine.backend)
    refine .inl ⟨fun b hb => ?_, ?_⟩
    · rw [perform_action ha, perform_action ha, ht b hb]
      rfl
    · rw [perform_action ha, hfst]
      exact ⟨_, rfl⟩
  · refine .inr ?_
    rw [perform_action ha]
    exact congrArg (fun x => Reply.ofAttended c.name x.1) hattend

/-- A call that is refused leaves no trace, or is an action on a service that its backend does not know. -/
theorem perform_refused (h : (call.perform c).1 = .answered r) (hr : r.Refuses) :
    Traceless call.perform c ∨ ∃ service action a, call = .serviceAction service action ∧ actionOfName action = .ok a ∧
      r.status = 404 ∧ c.machine.Disowns service a (.fresh (c.machine.backend.act a service)) := by
  have hgood {x : Response} (hx : x.status = 200) (hxr : (Reply.answered x : Reply β) = .answered r) : False :=
    Response.not_refuses_of_ok (.inl ((Reply.answered.inj hxr) ▸ hx)) hr
  cases call with
  | status => exact (hgood rfl h).elim
  | health => exact (hgood rfl h).elim
  | logs q => exact (hgood rfl h).elim
  | diagnoses => exact (hgood rfl h).elim
  | events => exact (hgood rfl h).elim
  | services =>
    simp only [perform] at h
    split at h
    · exact (hgood rfl h).elim
    · obtain rfl := Reply.answered.inj h
      exact absurd hr (Response.not_refuses_of_ok (.inr (.inr rfl)))
  | up => exact .inl (Order.up.refused h hr)
  | down => exact .inl (Order.down.refused h hr)
  | restart => exact .inl (Order.restart.refused h hr)
  | cancel => exact .inl (Order.cancel.refused h hr)
  | serviceAction service action =>
    cases ha : actionOfName action with
    | error e =>
      refine .inl fun b _ => ?_
      simp only [perform, ha]
      rfl
    | ok a =>
      rcases action_cases service ha c with ⟨ht, -⟩ | hreply
      · exact .inl ht
      · obtain ⟨h404, hdis⟩ := Reply.acting_refused (hreply.symm.trans h) hr
        exact .inr ⟨service, action, a, rfl, ha, h404, hdis⟩
  | start service provider => exact .inl (start_traceless service provider c)
  | message session prompt =>
    obtain rfl := Reply.answered.inj h
    obtain ⟨e, he, -⟩ := Reply.ofDiagnosis_refuses (fun _ => .inr rfl) hr
    exact .inl (traceless_of_manager (fun _ => rfl) (Prod.ext he (Diagnosis.Manager.message_error he).2))
  | interrupt session =>
    obtain rfl := Reply.answered.inj h
    obtain ⟨e, he, -⟩ := Reply.ofDiagnosis_refuses (fun _ => .inr rfl) hr
    exact .inl (traceless_of_manager (fun _ => rfl) (Diagnosis.Manager.interrupt_error he))
  | close session =>
    obtain rfl := Reply.answered.inj h
    obtain ⟨e, he, hf⟩ := Reply.ofDiagnosis_refuses (fun _ => .inl rfl) hr
    exact .inl (traceless_of_manager (fun _ => rfl) (Diagnosis.Manager.close_error he hf))

/-- A call that waits for an engine has left no trace yet; one that waits for its backend is an action. -/
theorem perform_waiting {w : Wait β} (h : (call.perform c).1 = .waiting w) :
    (∃ s, w = .engine c.name s ∧ Traceless call.perform c) ∨
      ∃ service action a op, call = .serviceAction service action ∧ actionOfName action = .ok a ∧
        w = .action c.name (.acting service a op) := by
  cases call with
  | start service provider =>
    have ht := start_traceless service provider c
    simp only [perform] at h
    split at h
    · cases h
    next s _ =>
      cases h
      exact .inl ⟨s, rfl, ht⟩
  | serviceAction service action =>
    cases ha : actionOfName action with
    | error e =>
      simp only [perform, ha] at h
      cases h
    | ok a =>
      rcases action_cases service ha c with ⟨-, r, hr⟩ | hreply
      · rw [hr] at h
        cases h
      · obtain ⟨op, rfl⟩ := Reply.acting_waits (hreply.symm.trans h)
        exact .inr ⟨service, action, a, op, rfl, ha, rfl⟩
  | services =>
    simp only [perform] at h
    split at h <;> cases h
  | _ => cases h

/-- Only an event stream is answered with one, and it is a stream of the stack that was called. -/
theorem perform_events {stack : String} {sub : Subscription} (h : (call.perform c).1 = .answered r)
    (hs : r.content = .events stack sub) : r.status = 200 ∧ stack = c.name := by
  have hlifecycle {status : String} {x : Except Fault Unit} (hx : Reply.ofLifecycle status x = r) : False := by
    subst hx
    cases x <;> cases hs
  have hdiagnosis {α : Type} {good : α → Response} {x : Except Diagnosis.Fault α}
      (hgood : ∀ a, ∃ j, (good a).content = .json j) (hx : Reply.ofDiagnosis good x = r) : False := by
    subst hx
    cases x with
    | ok a =>
      obtain ⟨j, hj⟩ := hgood a
      rw [Reply.ofDiagnosis, hj] at hs
      cases hs
    | error e => cases hs
  cases call with
  | events =>
    obtain rfl := Reply.answered.inj h
    cases hs
    exact ⟨rfl, rfl⟩
  | up => exact (hlifecycle (Reply.answered.inj h)).elim
  | down => exact (hlifecycle (Reply.answered.inj h)).elim
  | restart => exact (hlifecycle (Reply.answered.inj h)).elim
  | cancel => exact (hlifecycle (Reply.answered.inj h)).elim
  | message session prompt => exact (hdiagnosis (fun _ => ⟨_, rfl⟩) (Reply.answered.inj h)).elim
  | interrupt session => exact (hdiagnosis (fun _ => ⟨_, rfl⟩) (Reply.answered.inj h)).elim
  | close session => exact (hdiagnosis (fun _ => ⟨_, rfl⟩) (Reply.answered.inj h)).elim
  | serviceAction service action =>
    simp only [perform] at h
    split at h
    · obtain rfl := Reply.answered.inj h
      cases hs
    next a _ =>
      have h : Reply.ofAttended c.name (c.serviceAction service a).1 = .answered r := h
      cases hattended : (c.serviceAction service a).1 with
      | answered x =>
        rw [hattended] at h
        exact (hlifecycle (Reply.answered.inj h)).elim
      | waiting v =>
        rw [hattended] at h
        cases h
  | services =>
    simp only [perform] at h
    split at h
    · obtain rfl := Reply.answered.inj h
      cases hs
    · obtain rfl := Reply.answered.inj h
      cases hs
  | start service provider =>
    simp only [perform] at h
    split at h
    · obtain rfl := Reply.answered.inj h
      cases hs
    · cases h
  | status => obtain rfl := Reply.answered.inj h; cases hs
  | health => obtain rfl := Reply.answered.inj h; cases hs
  | logs q => obtain rfl := Reply.answered.inj h; cases hs
  | diagnoses => obtain rfl := Reply.answered.inj h; cases hs

theorem perform_name (call : Call) (c : Stack.Context β) : (call.perform c).2.name = c.name := by
  cases call with
  | serviceAction service action =>
    simp only [perform]
    split <;> rfl
  | services =>
    simp only [perform]
    split <;> rfl
  | start service provider =>
    simp only [perform]
    split <;> rfl
  | _ => rfl

end Call

end Web

end StackDeck
