import StackDeck.Proofs.Registry
import StackDeck.Proofs.Web.Call

/-!
The arrival of a request. It comes to a call on the stack that the path names, or is answered without a look at
any stack; what leaves no trace on that stack leaves none on the server, and no other stack is reached.
-/

namespace StackDeck

namespace Stack.Context

variable {β : Type}

/-- The stack with the numbers that all stacks share. -/
def numbered (naming : Diagnosis.Naming) (issued : Nat) (c : Context β) : Context β :=
  { c with manager := { c.manager with naming }, hub := { c.hub with issued } }

end Stack.Context

namespace Web

open Stack.Context

/-! ### What a request asks for -/

namespace Request

/-- The stack that the path names. -/
def stack? (q : Request) : Option String :=
  match (Route.ofPath? (Target.ofString q.target).path).bind Route.decode? with
  | some (.stack name _) => some name
  | _ => none

/-- The request as its route takes it: one for a head is one whose body is not wanted. -/
def taken? (q : Request) (r : Route) : Option Request :=
  if q.method = .options then none
  else if r.methods.contains q.method then some q
  else if q.method = .head && r.methods.contains .get then some { q with method := .get }
  else none

/-- The call that the request makes on a stack, if it can be read. -/
def call? (q : Request) : Option (String × Call) :=
  match Route.ofPath? (Target.ofString q.target).path with
  | none => none
  | some r =>
    match q.taken? r, r.decode? with
    | some q', some (.stack name res) =>
      match Call.read res q' with
      | .ok call => some (name, call)
      | .error _ => none
    | _, _ => none

theorem stack?_of_call? {q : Request} {name : String} {call : Call} (h : q.call? = some (name, call)) :
    q.stack? = some name := by
  rw [call?] at h
  rw [stack?]
  split at h
  · cases h
  next r hr =>
    rw [hr, Option.bind_some]
    split at h
    next name' res _ hd =>
      split at h
      · obtain ⟨rfl, -⟩ := Prod.mk.inj (Option.some.inj h)
        rw [hd]
      · cases h
    · cases h

end Request

namespace Server

variable {α β : Type} {s s' : Server β} {name : String}

/-- Makes a call on a stack, if there is one of the name. -/
def callOn (name : String) (f : Stack.Context β → Reply β × Stack.Context β) (s : Server β) : Reply β × Server β :=
  (s.onStack name f).getD (.answered (.refused 404 ("Stack not found: " ++ name)), s)

theorem methods_head (r : Route) : r.methods.contains .head = false := by
  cases r with
  | stack name res => cases res <;> rfl
  | _ => rfl

theorem callRoute_call {r : Route} {res : Resource} {q : Request} {call : Call} (hd : r.decode? = some (.stack name res))
    (hc : Call.read res q = .ok call) (s : Server β) : s.callRoute r q = s.callOn name call.perform := by
  simp only [callRoute, hd, callStack, hc]
  rfl

/-- A request that makes a call makes it on its stack, and its body is dropped if only the head is wanted. -/
theorem arrive_call {q : Request} {call : Call} (h : q.call? = some (name, call)) (s : Server β) :
    s.arrive q = if q.method = .head then dropBody (s.callOn name call.perform) else s.callOn name call.perform := by
  rw [Request.call?] at h
  split at h
  · cases h
  next r hr =>
    split at h
    next name' res q' htaken hd =>
      split at h
      next call' hread =>
        obtain ⟨rfl, rfl⟩ := Prod.mk.inj (Option.some.inj h)
        rw [Request.taken?] at htaken
        simp only [arrive, hr]
        split at htaken
        · cases htaken
        next ho =>
          rw [if_neg ho]
          split at htaken
          next hm =>
            obtain rfl := Option.some.inj htaken
            -- No resource lists the method for a head: it is taken as one whose body is dropped.
            have hh : q.method ≠ .head := by
              intro hh
              rw [hh, methods_head] at hm
              cases hm
            rw [if_pos hm, if_neg hh, callRoute_call hd hread]
          next hm =>
            split at htaken
            next hg =>
              obtain rfl := Option.some.inj htaken
              have hh : q.method = .head := beq_iff_eq.mp (Bool.and_eq_true_iff.mp hg).1
              rw [if_neg hm, if_pos hg, if_pos hh, callRoute_call hd hread]
            next => cases htaken
      next => cases h
    next => cases h

/-- A route on which a request makes no call is answered with no look at the stacks but at their names. -/
theorem callRoute_other {r : Route} {q : Request}
    (h : ∀ name res, r.decode? = some (.stack name res) → ∃ e, Call.read res q = .error e) (s : Server β) :
    ∃ a : Response, (∀ stack sub, a.content ≠ .events stack sub) ∧
      ∀ s' : Server β, s'.contexts.names = s.contexts.names → s'.callRoute r q = (.answered a, s') := by
  cases hd : r.decode? with
  | none => exact ⟨.rejected .path, nofun, fun s' _ => by simp only [callRoute, hd]⟩
  | some r' =>
    cases r' with
    | health =>
      exact ⟨.ok (.object [("status", .str "ok"), ("version", .str version)]), nofun, fun s' _ => by simp only [callRoute, hd]⟩
    | stackNames =>
      refine ⟨.ok (.arr (s.contexts.names.map .str)), nofun, fun s' hs => ?_⟩
      simp only [callRoute, hd, hs]
    | stack name res =>
      obtain ⟨e, he⟩ := h name res hd
      refine ⟨.rejected e, nofun, fun s' _ => ?_⟩
      simp only [callRoute, hd, callStack, he]

theorem dropBody_eq_answered {x : Reply β × Server β} {r : Response} (h : (dropBody x).1 = .answered r) :
    ∃ a, x.1 = .answered a ∧ a.headOnly = r := by
  obtain ⟨y, t⟩ := x
  cases y with
  | answered a => exact ⟨a, rfl, Reply.answered.inj h⟩
  | waiting w => cases h

theorem dropBody_eq_waiting {x : Reply β × Server β} {w : Wait β} (h : (dropBody x).1 = .waiting w) :
    x.1 = .waiting w := by
  obtain ⟨y, t⟩ := x
  cases y with
  | answered a => cases h
  | waiting w' => exact h

theorem dropBody_answered {a : Response} (h : ∀ stack sub, a.content ≠ .events stack sub) (s : Server β) :
    dropBody (.answered a, s) = (.answered a.headOnly, s) := by
  rw [dropBody]
  split
  next stack sub hc => exact absurd hc (h stack sub)
  next => rfl

/-- A request that makes no call is answered at once, with no look at the stacks but at their names. -/
theorem arrive_other {q : Request} (h : q.call? = none) (s : Server β) :
    ∃ a : Response, ∀ s' : Server β, s'.contexts.names = s.contexts.names → s'.page = s.page →
      s'.arrive q = (.answered a, s') := by
  rw [Request.call?] at h
  split at h
  next hr =>
    refine ⟨fallback q.method (Target.ofString q.target).path s.page, fun s' _ hp => ?_⟩
    simp only [arrive, hr, hp]
  next r hr =>
    by_cases ho : q.method = .options
    · refine ⟨.blank 200, fun s' _ _ => ?_⟩
      simp only [arrive, hr, if_pos ho]
    · have hread {q' : Request} (hq : q.taken? r = some q') (name : String) (res : Resource)
          (hd : r.decode? = some (.stack name res)) : ∃ e, Call.read res q' = .error e := by
        rw [hq, hd] at h
        dsimp only at h
        split at h
        · cases h
        next e he => exact ⟨e, he⟩
      by_cases hm : r.methods.contains q.method = true
      · have htaken : q.taken? r = some q := by rw [Request.taken?, if_neg ho, if_pos hm]
        obtain ⟨a, -, ha⟩ := callRoute_other (hread htaken) s
        refine ⟨a, fun s' hs _ => ?_⟩
        simp only [arrive, hr, if_neg ho, if_pos hm, ha s' hs]
      · by_cases hg : (q.method = .head && r.methods.contains .get) = true
        · have htaken : q.taken? r = some { q with method := .get } := by
            rw [Request.taken?, if_neg ho, if_neg hm, if_pos hg]
          obtain ⟨a, hevents, ha⟩ := callRoute_other (hread htaken) s
          refine ⟨a.headOnly, fun s' hs _ => ?_⟩
          simp only [arrive, hr, if_neg ho, if_neg hm, if_pos hg, ha s' hs, dropBody_answered hevents]
        · refine ⟨.blank 405, fun s' _ _ => ?_⟩
          simp only [arrive, hr, if_neg ho, if_neg hm, if_neg hg]

/-! ### Nothing happens -/

/-- The server is as it was. Only the numbers that all stacks share may have been handed on to a stack. -/
structure Untouched (s s' : Server β) : Prop where
  page : s'.page = s.page
  naming : s'.naming = s.naming
  streams : s'.streams = s.streams
  contexts : ∀ name, ∃ naming issued, s'.contexts.get? name = (s.contexts.get? name).map (numbered naming issued)

theorem Untouched.refl (s : Server β) : s.Untouched s where
  page := rfl
  naming := rfl
  streams := rfl
  contexts name := by
    cases hc : s.contexts.get? name with
    | none => exact ⟨{}, 0, rfl⟩
    | some c => exact ⟨c.manager.naming, c.hub.issued, rfl⟩

/-- The server with another backend for each of its stacks. -/
def exchange (g : Stack.Context β → Backend β) (s : Server β) : Server β :=
  { s with contexts := s.contexts.map fun c => c.withBackend (g c) }

/-- The backends list the same services. -/
def SameListing (g : Stack.Context β → Backend β) : Prop := ∀ c, (g c).services = c.machine.backend.services

/-- Something done to a server that leaves no trace: no stack changes, and that is so, with the same answer,
whatever the backends would do if they were asked for more than a list of the services. -/
def Traceless (f : Server β → Reply β × Server β) (s : Server β) : Prop :=
  ∀ g, SameListing g → (f (s.exchange g)).1 = (f s).1 ∧ (s.exchange g).Untouched (f (s.exchange g)).2

theorem onStack_none {f : Stack.Context β → α × Stack.Context β} (h : s.contexts.get? name = none) :
    s.onStack name f = none := by
  rw [onStack, h, Option.map_none]

theorem onStack_some {f : Stack.Context β → α × Stack.Context β} {c : Stack.Context β}
    (h : s.contexts.get? name = some c) :
    s.onStack name f = some ((f (c.numbered s.naming s.streams)).1, { s with
      contexts := s.contexts.insert name (f (c.numbered s.naming s.streams)).2
      naming := (f (c.numbered s.naming s.streams)).2.manager.naming
      streams := (f (c.numbered s.naming s.streams)).2.hub.issued }) := by
  rw [onStack, h, Option.map_some]
  rfl

theorem callOn_none {f : Stack.Context β → Reply β × Stack.Context β} (h : s.contexts.get? name = none) :
    s.callOn name f = (.answered (.refused 404 ("Stack not found: " ++ name)), s) := by
  rw [callOn, onStack_none h, Option.getD_none]

theorem callOn_some {f : Stack.Context β → Reply β × Stack.Context β} {c : Stack.Context β}
    (h : s.contexts.get? name = some c) :
    s.callOn name f = ((f (c.numbered s.naming s.streams)).1, { s with
      contexts := s.contexts.insert name (f (c.numbered s.naming s.streams)).2
      naming := (f (c.numbered s.naming s.streams)).2.manager.naming
      streams := (f (c.numbered s.naming s.streams)).2.hub.issued }) := by
  rw [callOn, onStack_some h, Option.getD_some]

theorem callOn_same {f : Stack.Context β → Reply β × Stack.Context β} {c : Stack.Context β} {r : Reply β}
    (h : s.contexts.get? name = some c) (hf : f (c.numbered s.naming s.streams) = (r, c.numbered s.naming s.streams)) :
    (s.callOn name f).1 = r ∧ s.Untouched (s.callOn name f).2 := by
  rw [callOn_some h, hf]
  refine ⟨rfl, rfl, rfl, rfl, fun key => ?_⟩
  rw [Registry.get?_insert]
  by_cases hk : key = name
  · subst hk
    exact ⟨s.naming, s.streams, by rw [if_pos rfl, h]; rfl⟩
  · rw [if_neg hk]
    exact (Untouched.refl s).contexts key

theorem get?_exchange (g : Stack.Context β → Backend β) (s : Server β) (name : String) :
    (s.exchange g).contexts.get? name = (s.contexts.get? name).map fun c => c.withBackend (g c) :=
  Registry.get?_map _ _ _

/-- What leaves no trace on a stack leaves none on the server. -/
theorem callOn_traceless {f : Stack.Context β → Reply β × Stack.Context β}
    (h : ∀ c, s.contexts.get? name = some c → Stack.Context.Traceless f (c.numbered s.naming s.streams)) :
    s.Traceless (callOn name f) := by
  intro g hg
  have hget := get?_exchange g s name
  cases hc : s.contexts.get? name with
  | none =>
    rw [hc, Option.map_none] at hget
    rw [callOn_none hc, callOn_none hget]
    exact ⟨rfl, .refl _⟩
  | some c =>
    rw [hc, Option.map_some] at hget
    have hsame := callOn_same hget (h c hc (g c) (hg c))
    rw [callOn_some hc]
    exact hsame

/-- An answer without its body: the reply is changed, the server is not. -/
theorem Traceless.dropBody {f : Server β → Reply β × Server β} {y z : Reply β} (h : s.Traceless f) (hy : (f s).1 = y)
    (hdrop : ∀ t : Server β, Server.dropBody (y, t) = (z, t)) : s.Traceless fun s => Server.dropBody (f s) := by
  intro g hg
  obtain ⟨hreply, hsame⟩ := h g hg
  rw [hy] at hreply
  have hx {x : Reply β × Server β} (hx : x.1 = y) : Server.dropBody x = (z, x.2) := by
    obtain ⟨a, t⟩ := x
    obtain rfl : a = y := hx
    exact hdrop t
  show (Server.dropBody (f (s.exchange g))).1 = (Server.dropBody (f s)).1 ∧
    (s.exchange g).Untouched (Server.dropBody (f (s.exchange g))).2
  rw [hx hreply, hx hy]
  exact ⟨rfl, hsame⟩

/-! ### Arrivals -/

/-- The call of a request, made on a server. -/
theorem arrive_fun {q : Request} {call : Call} (h : q.call? = some (name, call)) :
    (arrive q : Server β → Reply β × Server β) =
      if q.method = .head then fun s => dropBody (s.callOn name call.perform) else callOn name call.perform := by
  funext s
  rw [arrive_call h]
  split <;> rfl

theorem arrive_traceless_of_other {q : Request} (h : q.call? = none) : s.Traceless (arrive q) := by
  intro g _
  obtain ⟨a, ha⟩ := arrive_other h s
  rw [ha s rfl rfl, ha (s.exchange g) (Registry.names_map _ _) rfl]
  exact ⟨rfl, .refl _⟩

/-- A backend was asked to act on a service and does not know it. -/
def Disowned (q : Request) (s : Server β) : Prop :=
  ∃ name service action a c, q.call? = some (name, .serviceAction service action) ∧
    Lifecycle.actionOfName action = .ok a ∧ s.contexts.get? name = some c ∧
    c.machine.Disowns service a (.fresh (c.machine.backend.act a service))

theorem callOn_events {call : Call} {a : Response} {stack : String} {sub : Subscription}
    (h : (s.callOn name call.perform).1 = .answered a) (ha : a.content = .events stack sub) :
    a.status = 200 ∧ ∃ c, s.contexts.get? name = some c ∧ stack = c.name := by
  cases hc : s.contexts.get? name with
  | none =>
    rw [callOn_none hc] at h
    obtain rfl := Reply.answered.inj h
    cases ha
  | some c =>
    rw [callOn_some hc] at h
    obtain ⟨hstatus, hstack⟩ := Call.perform_events h ha
    exact ⟨hstatus, c, rfl, hstack⟩

theorem arrive_refused {q : Request} {r : Response} (h : (s.arrive q).1 = .answered r) (hr : r.Refuses) :
    s.Traceless (arrive q) ∨ r.status = 404 ∧ s.Disowned q := by
  cases hcall : q.call? with
  | none => exact .inl (arrive_traceless_of_other hcall)
  | some x =>
    obtain ⟨name, call⟩ := x
    have hmade {a : Response} (ha : (s.callOn name call.perform).1 = .answered a) (har : a.Refuses) :
        s.Traceless (callOn name call.perform) ∨ a.status = 404 ∧ s.Disowned q := by
      cases hc : s.contexts.get? name with
      | none => exact .inl (callOn_traceless fun c hc' => by rw [hc] at hc'; cases hc')
      | some c =>
        rw [callOn_some hc] at ha
        rcases Call.perform_refused ha har with ht | ⟨service, action, a', rfl, ha', hstatus, hdis⟩
        · refine .inl (callOn_traceless fun c' hc' => ?_)
          rw [hc] at hc'
          obtain rfl := Option.some.inj hc'
          exact ht
        · exact .inr ⟨hstatus, name, service, action, a', c, hcall, ha', hc, hdis⟩
    rw [arrive_fun hcall] at h ⊢
    by_cases hh : q.method = .head
    · rw [if_pos hh] at h ⊢
      obtain ⟨a, ha, rfl⟩ := dropBody_eq_answered h
      have hevents : ∀ stack sub, a.content ≠ .events stack sub := fun stack sub hs =>
        Response.not_refuses_of_ok (.inl (callOn_events ha hs).1) hr
      rcases hmade ha hr with ht | hd
      · exact .inl (ht.dropBody ha (dropBody_answered hevents))
      · exact .inr hd
    · rw [if_neg hh] at h ⊢
      exact hmade h hr

/-- A request that waits for an engine has left no trace yet; one that waits for its backend asked it for an action. -/
theorem arrive_waiting {q : Request} {w : Wait β} (h : (s.arrive q).1 = .waiting w) :
    ∃ name call c, q.call? = some (name, call) ∧ s.contexts.get? name = some c ∧
      ((∃ st, w = .engine c.name st ∧ s.Traceless (arrive q)) ∨
        ∃ service action a op, call = .serviceAction service action ∧ Lifecycle.actionOfName action = .ok a ∧
          w = .action c.name (.acting service a op)) := by
  cases hcall : q.call? with
  | none =>
    obtain ⟨a, ha⟩ := arrive_other hcall s
    rw [ha s rfl rfl] at h
    cases h
  | some x =>
    obtain ⟨name, call⟩ := x
    have hreply : (s.callOn name call.perform).1 = .waiting w := by
      rw [arrive_fun hcall] at h
      by_cases hh : q.method = .head
      · rw [if_pos hh] at h
        exact dropBody_eq_waiting h
      · rw [if_neg hh] at h
        exact h
    cases hc : s.contexts.get? name with
    | none =>
      rw [callOn_none hc] at hreply
      cases hreply
    | some c =>
      refine ⟨name, call, c, rfl, hc, ?_⟩
      have hperform := hreply
      rw [callOn_some hc] at hperform
      rcases Call.perform_waiting hperform with ⟨st, rfl, ht⟩ | ⟨service, action, a, op, rfl, ha, rfl⟩
      · refine .inl ⟨st, rfl, ?_⟩
        have htrace : s.Traceless (callOn name call.perform) := callOn_traceless fun c' hc' => by
          rw [hc] at hc'
          obtain rfl := Option.some.inj hc'
          exact ht
        rw [arrive_fun hcall]
        split
        · exact htrace.dropBody hreply fun t => rfl
        · exact htrace
      · exact .inr ⟨service, action, a, op, rfl, ha, rfl⟩

/-! ### Other stacks -/

/-- Every stack is called by its name. -/
def Named (s : Server β) : Prop := ∀ name c, s.contexts.get? name = some c → c.name = name

/-- The server with one of its stacks changed. -/
def alter (key : String) (h : Stack.Context β → Stack.Context β) (s : Server β) : Server β :=
  { s with contexts := s.contexts.modify key h }

theorem get?_alter (key : String) (h : Stack.Context β → Stack.Context β) (s : Server β) (name : String) :
    (s.alter key h).contexts.get? name =
      if name = key then (s.contexts.get? name).map h else s.contexts.get? name :=
  Registry.get?_modify _ _ _ _

/-- Something done to a server that does not reach a stack: whatever the stack is, it stays so, and the answer is
the same. -/
def PassesBy (f : Server β → Reply β × Server β) (key : String) (s : Server β) : Prop :=
  ∀ h : Stack.Context β → Stack.Context β, (∀ c, (h c).name = c.name) →
    (f (s.alter key h)).1 = (f s).1 ∧ (f (s.alter key h)).2.contexts.get? key = (s.alter key h).contexts.get? key

theorem Named.alter (hs : s.Named) {key : String} {h : Stack.Context β → Stack.Context β}
    (hh : ∀ c, (h c).name = c.name) : (s.alter key h).Named := by
  intro name d hd
  rw [get?_alter] at hd
  split at hd
  · obtain ⟨c, hc, rfl⟩ := Option.map_eq_some_iff.mp hd
    rw [hh, hs name c hc]
  · exact hs name d hd

end Server

end Web

end StackDeck
