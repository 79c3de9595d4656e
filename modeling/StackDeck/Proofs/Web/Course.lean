import Mathlib.Logic.Relation
import StackDeck.Proofs.Web.Arrival

/-!
The course of a request that waits: it arrives at a server, other things happen there, and it goes on.
-/

namespace StackDeck

namespace Stack.Context

variable {α β : Type} {c : Context β}

/-! ### Names -/

theorem name_foldl_pushLog (ls : List Log.Line) (c : Context β) :
    (ls.foldl (fun c l => c.pushLog l) c).name = c.name := by
  induction ls generalizing c with
  | nil => rfl
  | cons l r ih => exact ih (c.pushLog l)

theorem name_run (j : Job) (c : Context β) : (c.run j).name = c.name := by
  cases j with
  | lifecycle => rfl
  | turn => rfl
  | reconcile =>
    simp only [run, runReconcile, reconcile]
    split
    · rfl
    · split
      · rfl
      · split <;> rfl
  | probe =>
    simp only [run, runProbe]
    split
    · rfl
    · split <;> rfl

theorem name_runJobs (fuel : Nat) (c : Context β) : (c.runJobs fuel).name = c.name := by
  induction fuel generalizing c with
  | zero => rfl
  | succ fuel ih =>
    rw [runJobs]
    split
    · rfl
    next j r _ => exact (ih _).trans (name_run j { c with jobs := r })

theorem name_settle (c : Context β) : c.settle.name = c.name := by
  have hforward (c : Context β) : c.forward.name = c.name := by
    simp only [forward]
    split
    · rfl
    · exact name_foldl_pushLog _ _
  exact (hforward _).trans (name_runJobs _ c)

theorem name_tickTo (target fuel : Nat) (c : Context β) : (c.tickTo target fuel).name = c.name := by
  have htick (now : Nat) (c : Context β) : (c.tick now).name = c.name := name_settle _
  induction fuel generalizing c with
  | zero => exact htick target c
  | succ fuel ih =>
    rw [tickTo]
    split
    next due _ => exact (ih (c.tick due)).trans (htick due c)
    next => exact htick target c

theorem name_advance (ms : Nat) (c : Context β) : (c.advance ms).name = c.name :=
  (name_tickTo _ ms c.settle).trans (name_settle c)

end Stack.Context

namespace Web

variable {β : Type}

/-! ### Going on -/

namespace Wait

/-- The stack at which a request waits. -/
def stack : Wait β → String
  | .engine stack _ => stack
  | .action stack _ => stack

/-- How a request goes on there. -/
def go (w : Wait β) (c : Stack.Context β) : Reply β × Stack.Context β :=
  match w with
  | .engine _ st =>
    let (r, c) := c.completeDiagnosis st
    (.answered (Reply.ofDiagnosis (fun t => .accepted t.toJson) r), c)
  | .action stack v =>
    let (r, c) := c.onMachine fun m => m.attend v
    (Reply.ofAttended stack r, c)

theorem resume_eq (w : Wait β) (s : Server β) : s.resume w = s.callOn w.stack w.go := by
  cases w <;> rfl

variable {stack : String} {st : Diagnosis.Startup} {c : Stack.Context β} {r : Response}

theorem go_name (w : Wait β) (c : Stack.Context β) : (w.go c).2.name = c.name := by
  cases w <;> rfl

theorem engine_answers : ∃ r, ((Wait.engine stack st : Wait β).go c).1 = .answered r := ⟨_, rfl⟩

/-- A start whose engine did not come up leaves no trace. -/
theorem engine_refused (h : ((Wait.engine stack st : Wait β).go c).1 = .answered r) (hr : r.Refuses) :
    Stack.Context.Traceless (Wait.engine stack st : Wait β).go c := by
  obtain rfl := Reply.answered.inj h
  obtain ⟨e, he, hf⟩ := Reply.ofDiagnosis_refuses (fun _ => .inr rfl) hr
  have hfst : (c.manager.completeStart st).1 = .error e := he
  have hsame : (c.manager.completeStart st).2 = c.manager := by
    rcases Diagnosis.Manager.completeStart_error hfst with ⟨hm, -⟩ | ⟨_, f, -, -, rfl, -⟩
    · exact hm
    · exact absurd rfl (hf f)
  have ht : Stack.Context.Traceless (Stack.Context.callManager fun m => m.completeStart st) c :=
    Stack.Context.callManager_traceless (Prod.ext hfst hsame)
  intro b hb
  have hown := ht b hb
  simp only [go, Stack.Context.completeDiagnosis, hown]

end Wait

/-! ### Runs -/

namespace Server

variable {s s' t : Server β}

/-- A server with some stacks, each under its name. -/
def opened (cs : List (Stack.Context β)) (page : Option String) : Server β where
  contexts := cs.foldl (fun g c => g.insert c.name c) {}
  page := page

/-- What may happen to a server: a request arrives or goes on, time passes, somebody looks at an event stream or gives
it up, or something happens within one stack. -/
inductive Happens : Server β → Server β → Prop where
  | arrive (q : Request) (s : Server β) : Happens s (s.arrive q).2
  | resume (w : Wait β) (s : Server β) : Happens s (s.resume w).2
  | settle (s : Server β) : Happens s s.settle
  | advance (ms : Nat) (s : Server β) : Happens s (s.advance ms)
  | look (name : String) (sub : Subscription) (s : Server β) : Happens s (s.look name sub).2.2
  | leave (name : String) (sub : Subscription) (s : Server β) : Happens s (s.leave name sub)
  | within (name : String) (h : Stack.Context β → Stack.Context β) (hh : ∀ c, (h c).name = c.name) (s : Server β) :
      Happens s (s.alter name h)

/-- The server after some time. -/
def Later : Server β → Server β → Prop := Relation.ReflTransGen Happens

def Reachable (s : Server β) : Prop := ∃ cs page, Later (opened cs page) s

/-- The servers have the same stacks, by their names. -/
def SameStacks (s s' : Server β) : Prop :=
  ∀ key, (s'.contexts.get? key).map Stack.Context.name = (s.contexts.get? key).map Stack.Context.name

theorem SameStacks.refl (s : Server β) : s.SameStacks s := fun _ => rfl

theorem SameStacks.trans (h : s.SameStacks s') (h' : s'.SameStacks t) : s.SameStacks t := fun key => (h' key).trans (h key)

theorem SameStacks.get? (h : s.SameStacks s') {name : String} {c : Stack.Context β} (hc : s.contexts.get? name = some c) :
    ∃ d, s'.contexts.get? name = some d ∧ d.name = c.name := by
  have hd := h name
  rw [hc] at hd
  exact Option.map_eq_some_iff.mp hd

theorem SameStacks.named (h : s.SameStacks s') (hs : s.Named) : s'.Named := by
  intro key d hd
  have hc := h key
  rw [hd] at hc
  obtain ⟨c, hc, hname⟩ := Option.map_eq_some_iff.mp hc.symm
  rw [← hname, hs key c hc]

theorem sameStacks_insert {name : String} {c d : Stack.Context β} {naming : Diagnosis.Naming} {streams : Nat}
    (hc : s.contexts.get? name = some c) (hd : d.name = c.name) :
    s.SameStacks { s with contexts := s.contexts.insert name d, naming, streams } := by
  intro key
  show ((s.contexts.insert name d).get? key).map _ = _
  rw [Registry.get?_insert]
  split
  next hk => rw [hk, hc, Option.map_some, Option.map_some, hd]
  next => rfl

theorem sameStacks_map {h : Stack.Context β → Stack.Context β} (hh : ∀ c, (h c).name = c.name) :
    s.SameStacks { s with contexts := s.contexts.map h } := by
  intro key
  show ((s.contexts.map h).get? key).map _ = _
  rw [Registry.get?_map, Option.map_map]
  exact congrArg (Option.map · _) (funext hh)

theorem sameStacks_alter {name : String} {h : Stack.Context β → Stack.Context β} (hh : ∀ c, (h c).name = c.name) :
    s.SameStacks (s.alter name h) := by
  intro key
  rw [get?_alter]
  split
  · rw [Option.map_map]
    exact congrArg (Option.map · _) (funext hh)
  · rfl

theorem sameStacks_callOn {name : String} {f : Stack.Context β → Reply β × Stack.Context β}
    (hf : ∀ c, (f c).2.name = c.name) : s.SameStacks (s.callOn name f).2 := by
  cases hc : s.contexts.get? name with
  | none =>
    rw [callOn_none hc]
    exact .refl s
  | some c =>
    rw [callOn_some hc]
    exact sameStacks_insert hc (hf _)

theorem sameStacks_dropBody (x : Reply β × Server β) : x.2.SameStacks (dropBody x).2 := by
  obtain ⟨y, t⟩ := x
  cases y with
  | waiting w => exact .refl t
  | answered a =>
    rw [dropBody]
    split
    · exact sameStacks_alter fun _ => rfl
    · exact .refl t

theorem sameStacks_arrive (q : Request) (s : Server β) : s.SameStacks (s.arrive q).2 := by
  cases hcall : q.call? with
  | none =>
    obtain ⟨a, ha⟩ := arrive_other hcall s
    rw [ha s rfl rfl]
    exact .refl s
  | some x =>
    obtain ⟨name, call⟩ := x
    have hmade : s.SameStacks (s.callOn name call.perform).2 := sameStacks_callOn call.perform_name
    rw [arrive_call hcall]
    split
    · exact hmade.trans (sameStacks_dropBody _)
    · exact hmade

theorem sameStacks_resume (w : Wait β) (s : Server β) : s.SameStacks (s.resume w).2 := by
  rw [Wait.resume_eq]
  exact sameStacks_callOn w.go_name

/-- Stacks are neither added nor lost. -/
theorem Happens.sameStacks (h : Happens s s') : s.SameStacks s' := by
  cases h with
  | arrive q => exact sameStacks_arrive q s
  | resume w => exact sameStacks_resume w s
  | settle => exact sameStacks_map Stack.Context.name_settle
  | advance ms => exact sameStacks_map (Stack.Context.name_advance ms)
  | look name sub =>
    rw [Server.look]
    split
    · exact .refl s
    next c hc => exact sameStacks_insert hc rfl
  | leave name sub => exact sameStacks_alter fun _ => rfl
  | within name h hh => exact sameStacks_alter hh

theorem Later.sameStacks (h : Later s s') : s.SameStacks s' := by
  induction h with
  | refl => exact .refl s
  | tail _ hstep ih => exact ih.trans hstep.sameStacks

theorem named_opened (cs : List (Stack.Context β)) (page : Option String) : (opened cs page).Named := by
  have hfold (g : Registry (Stack.Context β)) (hg : ∀ key c, g.get? key = some c → c.name = key) :
      ∀ key c, (cs.foldl (fun g c => g.insert c.name c) g).get? key = some c → c.name = key := by
    induction cs generalizing g with
    | nil => exact hg
    | cons c r ih =>
      refine ih _ fun key d hd => ?_
      rw [Registry.get?_insert] at hd
      split at hd
      next hk =>
        obtain rfl := Option.some.inj hd
        exact hk.symm
      next => exact hg key d hd
  intro key c hc
  exact hfold {} (fun _ _ he => by rw [Registry.get?_empty] at he; cases he) key c hc

/-- Every stack that is reached is called by its name. -/
theorem Reachable.named (h : s.Reachable) : s.Named := by
  obtain ⟨cs, page, hlater⟩ := h
  exact hlater.sameStacks.named (named_opened cs page)

theorem Reachable.later (h : s.Reachable) (hl : Later s s') : s'.Reachable := by
  obtain ⟨cs, page, hlater⟩ := h
  exact ⟨cs, page, hlater.trans hl⟩

end Server

/-! ### The course of a request -/

/-- What a request does at a time. -/
inductive Errand (β : Type) where
  | arrive (q : Request)
  | resume (w : Wait β)

def Errand.run : Errand β → Server β → Reply β × Server β
  | .arrive q => Server.arrive q
  | .resume w => Server.resume w

/-- The course of a request: it arrives at a server, and as long as it waits it goes on at a later one. Each errand
is listed with the server that it found; the last server is the one that the last errand has left. -/
inductive Course (q : Request) : List (Errand β × Server β) → Reply β → Server β → Prop where
  | arrive {s : Server β} (hs : s.Reachable) : Course q [(.arrive q, s)] (s.arrive q).1 (s.arrive q).2
  | resume {es : List (Errand β × Server β)} {w : Wait β} {s s' : Server β} (h : Course q es (.waiting w) s)
      (hs : Server.Later s s') : Course q (es ++ [(.resume w, s')]) (s'.resume w).1 (s'.resume w).2

namespace Course

variable {q : Request} {es : List (Errand β × Server β)} {reply : Reply β} {s s' : Server β} {w : Wait β}

/-- Where a request stands that has not been answered, and what it has done so far. -/
inductive Stands (q : Request) (es : List (Errand β × Server β)) : Wait β → Prop where
  | engine {name : String} {st : Diagnosis.Startup} (hq : q.stack? = some name)
      (hes : ∀ e ∈ es, e.2.Traceless e.1.run) : Stands q es (.engine name st)
  | action {name service action : String} {a : ServiceAction} {op : Operation β}
      (hq : q.call? = some (name, .serviceAction service action)) (ha : Lifecycle.actionOfName action = .ok a) :
      Stands q es (.action name (.acting service a op))

/-- A request waits at the stack that its path names. -/
theorem Stands.stack? (h : Stands q es w) : q.stack? = some w.stack := by
  cases h with
  | engine hq => exact hq
  | action hq => exact Request.stack?_of_call? hq

theorem stands_arrive (hs : s.Named) (h : (s.arrive q).1 = .waiting w) :
    Stands q [(.arrive q, s)] w ∧ ∃ c, s.contexts.get? w.stack = some c := by
  obtain ⟨name, call, c, hcall, hc, hcase⟩ := Server.arrive_waiting h
  obtain rfl := hs name c hc
  rcases hcase with ⟨st, rfl, ht⟩ | ⟨service, action, a, op, rfl, ha, rfl⟩
  · refine ⟨.engine (Request.stack?_of_call? hcall) fun e he => ?_, c, hc⟩
    rw [List.mem_singleton.mp he]
    exact ht
  · exact ⟨.action hcall ha, c, hc⟩

theorem Stands.resume {w' : Wait β} (h : Stands q es w) {c : Stack.Context β} (hc : s.contexts.get? w.stack = some c)
    (hreply : (s.resume w).1 = .waiting w') : Stands q (es ++ [(.resume w, s)]) w' ∧ w'.stack = w.stack := by
  rw [Wait.resume_eq, Server.callOn_some hc] at hreply
  cases h with
  | engine hq hes =>
    obtain ⟨r, hr⟩ := Wait.engine_answers
    rw [hr] at hreply
    cases hreply
  | action hq ha =>
    obtain ⟨op', rfl⟩ := Reply.acting_waits hreply
    exact ⟨.action hq ha, rfl⟩

/-- A request that waits is a diagnosis to be started, which has left no trace yet, or an action on a service; and it
waits at a stack that there is. -/
theorem stands (h : Course q es (.waiting w) s) : Stands q es w ∧ ∃ c, s.contexts.get? w.stack = some c := by
  generalize hreply : Reply.waiting w = reply at h
  induction h generalizing w with
  | arrive hs =>
    obtain ⟨hstands, c, hc⟩ := stands_arrive hs.named hreply.symm
    obtain ⟨d, hd, -⟩ := (Server.sameStacks_arrive q _).get? hc
    exact ⟨hstands, d, hd⟩
  | resume _ hlater ih =>
    obtain ⟨hstands, c, hc⟩ := ih rfl
    -- Much may have happened in the meantime, but the stack is still there.
    obtain ⟨d, hd, -⟩ := hlater.sameStacks.get? hc
    obtain ⟨hstands', hstack⟩ := hstands.resume hd hreply.symm
    obtain ⟨d', hd', -⟩ := (Server.sameStacks_resume _ _).get? hd
    exact ⟨hstands', d', hstack ▸ hd'⟩

/-- Every errand of a request arrives with it or goes on at the stack that its path names, and finds a server where
every stack is called by its name. -/
theorem errands (h : Course q es reply s) :
    s.Reachable ∧ ∀ e ∈ es, e.2.Reachable ∧ (e.1 = .arrive q ∨ ∃ w, e.1 = .resume w ∧ q.stack? = some w.stack) := by
  induction h with
  | arrive hs =>
    refine ⟨hs.later (.single (.arrive q _)), fun e he => ?_⟩
    rw [List.mem_singleton.mp he]
    exact ⟨hs, .inl rfl⟩
  | resume hcourse hlater ih =>
    have hs' := ih.1.later hlater
    refine ⟨hs'.later (.single (.resume _ _)), fun e he => ?_⟩
    rcases List.mem_append.mp he with he | he
    · exact ih.2 e he
    · rw [List.mem_singleton.mp he]
      exact ⟨hs', .inr ⟨_, rfl, hcourse.stands.1.stack?⟩⟩

end Course

end Web

end StackDeck
