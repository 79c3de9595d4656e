import StackDeck.Backend.Rehearsal
import StackDeck.Proofs.Web.Course

/-!
Requests that are refused. Whatever a request asks for, a refusal leaves every stack as it was, at once and also
when the request had to wait before it was refused; and a request that is granted reaches no stack but the one
that its path names.
-/

namespace StackDeck.Web

variable {β : Type}

namespace Server

variable {s : Server β}

theorem alter_self (key : String) (s : Server β) : s.alter key id = s := by
  have hmodify : s.contexts.modify key id = s.contexts := by
    refine congrArg Registry.mk ((List.map_congr_left fun e _ => ?_).trans (List.map_id _))
    split <;> rfl
  rw [alter, hmodify]

theorem PassesBy.same {f : Server β → Reply β × Server β} {key : String} (h : s.PassesBy f key) :
    (f s).2.contexts.get? key = s.contexts.get? key := by
  have hsame := (h id fun _ => rfl).2
  rw [alter_self] at hsame
  exact hsame

/-- The controller of the stack that the path of a request names. -/
def machine? (q : Request) (s : Server β) : Option (Lifecycle.Machine β) :=
  (q.stack?.bind fun name => s.contexts.get? name).map Stack.Context.machine

end Server

/-! ### Refusals -/

/-- A request asked a backend to act on a service, at once or when it went on, and the backend ended by saying that
it does not know the service. -/
def ServiceUnknown (q : Request) (es : List (Errand β × Server β)) : Prop :=
  ∃ name service action a, q.call? = some (name, .serviceAction service action) ∧
    Lifecycle.actionOfName action = .ok a ∧
    ∃ e s c op, (e, s) ∈ es ∧ s.contexts.get? name = some c ∧ c.machine.Disowns service a op ∧
      (e = .arrive q ∧ op = .fresh (c.machine.backend.act a service) ∨ e = .resume (.action name (.acting service a op)))

namespace Course

variable {q : Request} {es : List (Errand β × Server β)} {reply : Reply β} {r : Response} {s : Server β} {w : Wait β}

/-- A request that has waited and is refused then has left no trace, neither before nor now. -/
theorem Stands.refused (h : Stands q es w) {c : Stack.Context β} (hc : s.contexts.get? w.stack = some c)
    (hreply : (s.resume w).1 = .answered r) (hr : r.Refuses) :
    (∀ e ∈ es ++ [(.resume w, s)], e.2.Traceless e.1.run) ∨
      r.status = 404 ∧ ServiceUnknown q (es ++ [(.resume w, s)]) := by
  rw [Wait.resume_eq, Server.callOn_some hc] at hreply
  cases h with
  | @engine name st hq hes =>
    have ht : Stack.Context.Traceless (Wait.engine name st).go (c.numbered s.naming s.streams) :=
      Wait.engine_refused hreply hr
    have hcall : s.Traceless (Server.callOn name (Wait.engine name st).go) := Server.callOn_traceless fun c' hc' => by
      obtain rfl := Option.some.inj (hc.symm.trans hc')
      exact ht
    refine .inl fun e he => ?_
    rcases List.mem_append.mp he with he | he
    · exact hes e he
    · rw [List.mem_singleton.mp he]
      exact hcall
  | action hq ha =>
    -- Its backend has been asked, so that only the exception is left.
    obtain ⟨h404, hdis⟩ := Reply.acting_refused hreply hr
    exact .inr ⟨h404, _, _, _, _, hq, ha, _, s, c, _, List.mem_append_right _ List.mem_cons_self, hc, hdis, .inr rfl⟩

theorem refused (h : Course q es reply s) (hreply : reply = .answered r) (hr : r.Refuses) :
    (∀ e ∈ es, e.2.Traceless e.1.run) ∨ r.status = 404 ∧ ServiceUnknown q es := by
  cases h with
  | arrive hs =>
    rcases Server.arrive_refused hreply hr with ht | ⟨h404, name, service, action, a, c, hcall, ha, hc, hdis⟩
    · refine .inl fun e he => ?_
      rw [List.mem_singleton.mp he]
      exact ht
    · exact .inr ⟨h404, name, service, action, a, hcall, ha, _, _, c, _, List.mem_cons_self, hc, hdis, .inl ⟨rfl, rfl⟩⟩
  | resume hcourse hlater =>
    obtain ⟨hstands, c, hc⟩ := hcourse.stands
    obtain ⟨d, hd, -⟩ := hlater.sameStacks.get? hc
    exact hstands.refused hd hreply hr

end Course

/-! ### Orders -/

namespace Order

def resource : Order → Resource
  | .up => .up
  | .down => .down
  | .restart => .restart
  | .cancel => .cancel

/-- A request gives an order. -/
def Asked (o : Order) (q : Request) : Prop :=
  q.method = .post ∧ ∃ name, Route.ofPath? (Target.ofString q.target).path = some (.stack name o.resource)

variable {o : Order} {q : Request}

theorem decode?_resource (o : Order) (raw : String) : (Route.stack raw o.resource).decode? =
    (decodePart? raw.toList).map fun name => .stack name o.resource := by
  simp only [Route.decode?]
  cases decodePart? raw.toList <;> cases o <;> rfl

/-- An order whose stack is named comes to it. -/
theorem Asked.call? (h : o.Asked q) {name : String} (hn : q.stack? = some name) : q.call? = some (name, o.call) := by
  obtain ⟨hmethod, raw, hroute⟩ := h
  have htaken : q.taken? (.stack raw o.resource) = some q := by
    rw [Request.taken?, hmethod]
    cases o <;> rfl
  simp only [Request.stack?, hroute, Option.bind_some, decode?_resource] at hn
  simp only [Request.call?, hroute, htaken, decode?_resource]
  cases hraw : decodePart? raw.toList with
  | none =>
    rw [hraw] at hn
    cases hn
  | some text =>
    rw [hraw] at hn
    obtain rfl := Option.some.inj hn
    cases o <;> rfl

/-- An order whose stack is not named by a text is not read. -/
theorem Asked.unread (h : o.Asked q) (hn : q.stack? = none) (s : Server β) :
    s.arrive q = (.answered (.rejected .path), s) := by
  obtain ⟨hmethod, raw, hroute⟩ := h
  have hmethods : (Route.stack raw o.resource).methods.contains .post = true := by cases o <;> rfl
  have hdecode : (Route.stack raw o.resource).decode? = none := by
    rw [decode?_resource]
    simp only [Request.stack?, hroute, Option.bind_some, decode?_resource] at hn
    cases hraw : decodePart? raw.toList with
    | none => rfl
    | some text =>
      rw [hraw] at hn
      cases hn
  simp only [Server.arrive, hroute, hmethod, if_neg (show Method.post ≠ .options by decide), if_pos hmethods,
    Server.callRoute, hdecode]

theorem ofLifecycle_status (status : String) {x : Except Lifecycle.Fault Unit}
    (h : ∀ e, x = .error e → e.isConflict = true) :
    ((Reply.ofLifecycle status x).status = 200 ↔ x = .ok ()) ∧
      ((Reply.ofLifecycle status x).status = 409 ↔ ∃ e, x = .error e ∧ e.isConflict = true) := by
  cases x with
  | ok u => exact ⟨iff_of_true rfl rfl, iff_of_false (show 200 ≠ 409 by decide) (by simp)⟩
  | error e =>
    have he := h e rfl
    have hstatus : (Reply.ofLifecycle status (.error e)).status = 409 := by
      show e.httpStatus = 409
      cases e <;> first | rfl | cases he
    rw [hstatus]
    exact ⟨iff_of_false (by decide) (by simp), iff_of_true rfl ⟨e, rfl, he⟩⟩

/-- An order that comes to no stack is neither granted nor in conflict. -/
theorem astray {s : Server β} (hm : s.machine? q = none) {r : Response} (h200 : r.status ≠ 200) (h409 : r.status ≠ 409) :
    (r.status = 200 ↔ ∃ m, s.machine? q = some m ∧ (o.give m).1 = .ok ()) ∧
      (r.status = 409 ↔ ∃ m e, s.machine? q = some m ∧ (o.give m).1 = .error e ∧ e.isConflict = true) :=
  ⟨iff_of_false h200 (by simp [hm]), iff_of_false h409 (by simp [hm])⟩

/-- An order is answered at once, with what the controller of the stack says to it. -/
theorem Asked.answered (h : o.Asked q) (s : Server β) : ∃ r, (s.arrive q).1 = .answered r ∧
    ((r.status = 200 ↔ ∃ m, s.machine? q = some m ∧ (o.give m).1 = .ok ()) ∧
      (r.status = 409 ↔ ∃ m e, s.machine? q = some m ∧ (o.give m).1 = .error e ∧ e.isConflict = true)) ∧
    (s.arrive q).2.machine? q = (s.machine? q).map fun m => (o.give m).2 := by
  cases hn : q.stack? with
  | none =>
    have hm : s.machine? q = none := by
      rw [Server.machine?, hn]
      rfl
    rw [h.unread hn]
    refine ⟨_, rfl, astray hm (show 400 ≠ 200 by decide) (show 400 ≠ 409 by decide), ?_⟩
    rw [hm, Option.map_none]
  | some name =>
    have hm (s : Server β) : s.machine? q = (s.contexts.get? name).map Stack.Context.machine := by
      rw [Server.machine?, hn, Option.bind_some]
    have harrive : s.arrive q = s.callOn name o.call.perform := by
      rw [Server.arrive_call (h.call? hn), if_neg (by rw [h.1]; decide)]
    rw [harrive]
    cases hc : s.contexts.get? name with
    | none =>
      have hmachine : s.machine? q = none := by rw [hm, hc, Option.map_none]
      rw [Server.callOn_none hc]
      refine ⟨_, rfl, astray hmachine (show 404 ≠ 200 by decide) (show 404 ≠ 409 by decide), ?_⟩
      rw [hmachine, Option.map_none]
    | some c =>
      have hmachine : s.machine? q = some c.machine := by rw [hm, hc, Option.map_some]
      obtain ⟨fits, hdecides⟩ := o.give_decides c.machine
      have hrefused : ∀ e, (o.give c.machine).1 = .error e → e.isConflict = true := fun e he => (hdecides.refused e he).1
      obtain ⟨hok, hconflict⟩ := ofLifecycle_status o.granted hrefused
      rw [Server.callOn_some hc, perform_eq, hmachine, Option.map_some]
      refine ⟨_, rfl, ⟨hok.trans (by simp), hconflict.trans (by simp)⟩, ?_⟩
      rw [hm]
      show ((s.contexts.insert name _).get? name).map _ = _
      rw [Registry.get?_insert, if_pos rfl]
      rfl

end Order

end StackDeck.Web
