import StackDeck.Diagnosis.Clock

/-!
Runs of the diagnosis of a stack. A run is a list of moves in any order: calls, starts that come up or are
given up, steps of the turns, the passing of time, and changes of what the sessions read.
-/

namespace StackDeck.Diagnosis

structure Scene where
  manager : Manager
  /-- The starts that wait for their engines. -/
  startups : List Startup := []

inductive Move where
  | start (service : String) (provider : Option String)
  /-- A start has waited for its engine, or its caller gives it up. -/
  | complete (k : Nat)
  | leave (k : Nat)
  | message (session prompt : String)
  | interrupt (session : String)
  | close (session : String)
  | closeAll
  | poll
  | pass (ms : Nat)
  /-- The engines and the log change by themselves. -/
  | touch (engines : List Engine) (history : Log.History)

namespace Scene

def start (engines : List Engine) (history : Log.History) (startupTimeout promptLines : Nat) : Scene :=
  { manager := { engines, history, startupTimeout, promptLines } }

def become (m : Manager) (s : Scene) : Scene := { s with manager := m }

def complete (k : Nat) (s : Scene) : Scene :=
  match s.startups[k]? with
  | none => s
  | some st => { manager := (s.manager.completeStart st).2, startups := s.startups.eraseIdx k }

def move (s : Scene) : Move → Scene
  | .start service provider =>
    match s.manager.admitStart service provider with
    | .ok st => { s with startups := s.startups ++ [st] }
    | .error _ => s
  | .complete k => s.complete k
  | .leave k => { s with startups := s.startups.eraseIdx k }
  | .message id prompt => s.become (s.manager.message id prompt).2
  | .interrupt id => s.become (s.manager.interrupt id).2
  | .close id => s.become (s.manager.close id).2
  | .closeAll => s.become s.manager.closeAll
  | .poll => s.become s.manager.poll
  | .pass ms => s.become (s.manager.wakeAt (s.manager.now + ms))
  | .touch engines history => s.become { s.manager with engines, history }

def run (moves : List Move) (s : Scene) : Scene := moves.foldl move s

theorem run_append (ms ns : List Move) (s : Scene) : s.run (ms ++ ns) = (s.run ms).run ns :=
  List.foldl_append

/-- What every move keeps holds in every run. -/
theorem run_keeps {P : Scene → Prop} (step : ∀ s mv, P s → P (s.move mv)) {s : Scene} (h : P s)
    (moves : List Move) : P (s.run moves) := by
  induction moves generalizing s with
  | nil => exact h
  | cons mv r ih => exact ih (step s mv h)

/-- What is noted move by move along a run. -/
def observe {α : Type} (note : Scene → Move → List α) (s : Scene) : List Move → List α
  | [] => []
  | mv :: r => note s mv ++ (s.move mv).observe note r

theorem observe_append {α : Type} (note : Scene → Move → List α) (ms ns : List Move) (s : Scene) :
    s.observe note (ms ++ ns) = s.observe note ms ++ (s.run ms).observe note ns := by
  induction ms generalizing s with
  | nil => rfl
  | cons mv r ih =>
    have hr := ih (s.move mv)
    simp only [List.cons_append, observe, hr, List.append_assoc]
    rfl

theorem observe_concat {α : Type} (note : Scene → Move → List α) (ms : List Move) (mv : Move) (s : Scene) :
    s.observe note (ms ++ [mv]) = s.observe note ms ++ note (s.run ms) mv := by
  rw [observe_append]
  simp [observe]

theorem run_concat (ms : List Move) (mv : Move) (s : Scene) : s.run (ms ++ [mv]) = (s.run ms).move mv := by
  rw [run_append]
  rfl

end Scene

end StackDeck.Diagnosis
