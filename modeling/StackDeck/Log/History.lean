import StackDeck.Log.Line

namespace StackDeck.Log

/-- The most recent lines of a stack, oldest first, never more than its capacity. -/
structure History where
  capacity : Nat
  lines : List Line

namespace History

def defaultCapacity : Nat := 1000

def empty (capacity : Nat) : History := ⟨max capacity 1, []⟩

/-- Adds a line; the oldest ones make room. -/
def push (l : Line) (h : History) : History :=
  { h with lines := h.lines.drop (h.lines.length + 1 - h.capacity) ++ [l] }

/-- The last `limit` lines, or all of them. -/
def snapshot (limit : Option Nat) (h : History) : List Line :=
  match limit with
  | none => h.lines
  | some n => h.lines.drop (h.lines.length - n)

/-- The last `limit` lines of a service, or all of them, looked for from the end. -/
def forService (service : String) (limit : Option Nat) (h : History) : List Line :=
  let found := h.lines.reverse.filter fun l => l.service == service
  (match limit with
    | none => found
    | some n => found.take n).reverse

def clear (h : History) : History := { h with lines := [] }

def size (h : History) : Nat := h.lines.length

end History

end StackDeck.Log
