import StackDeck.Diagnosis.Normalizer

namespace StackDeck.Diagnosis

/-- What a normalizer is given in a turn: an event, or a line of diagnostic output. -/
inductive Utterance where
  | event (e : ProviderEvent)
  | diagnostic (line : String)

namespace Utterance

def event? : Utterance → Option ProviderEvent
  | .event e => some e
  | .diagnostic _ => none

end Utterance

/-- The events among what a normalizer is given. -/
def eventsOf (us : List Utterance) : List ProviderEvent := us.filterMap Utterance.event?

namespace Normalizer

def take (u : Utterance) (n : Normalizer) : Normalizer × List Chunk :=
  match u with
  | .event e => n.apply e
  | .diagnostic line => (n.recordDiagnostic line, [])

def takeAll : List Utterance → Normalizer → Normalizer × List Chunk
  | [], n => (n, [])
  | u :: r, n =>
    let (n, shown) := n.take u
    let (n, rest) := takeAll r n
    (n, shown ++ rest)

theorem takeAll_append (us vs : List Utterance) (n : Normalizer) : n.takeAll (us ++ vs) =
    (((n.takeAll us).1.takeAll vs).1, (n.takeAll us).2 ++ ((n.takeAll us).1.takeAll vs).2) := by
  induction us generalizing n with
  | nil => rfl
  | cons u r ih => simp only [List.cons_append, takeAll, ih, List.append_assoc]

theorem takeAll_concat (us : List Utterance) (u : Utterance) (n : Normalizer) :
    (n.takeAll (us ++ [u])).1 = ((n.takeAll us).1.take u).1 := by
  rw [takeAll_append]
  rfl

/-- Without diagnostic output there are only the events. -/
theorem takeAll_events (es : List ProviderEvent) (n : Normalizer) : n.takeAll (es.map .event) = n.applyAll es := by
  induction es generalizing n with
  | nil => rfl
  | cons e r ih => simp only [List.map_cons, takeAll, applyAll, take, ih]

theorem applyAll_append (es fs : List ProviderEvent) (n : Normalizer) : n.applyAll (es ++ fs) =
    (((n.applyAll es).1.applyAll fs).1, (n.applyAll es).2 ++ ((n.applyAll es).1.applyAll fs).2) := by
  simp only [← takeAll_events, List.map_append, takeAll_append]

theorem applyAll_concat (es : List ProviderEvent) (e : ProviderEvent) (n : Normalizer) :
    n.applyAll (es ++ [e]) =
      (((n.applyAll es).1.apply e).1, (n.applyAll es).2 ++ ((n.applyAll es).1.apply e).2) := by
  simp only [applyAll_append, applyAll, List.append_nil]

end Normalizer

end StackDeck.Diagnosis
