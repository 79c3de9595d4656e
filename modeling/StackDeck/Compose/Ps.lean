import StackDeck.Json.Record
import StackDeck.Text.Blank
import StackDeck.Text.Line

/-!
The service list that Compose prints: one JSON array, or one object a line.
-/

namespace StackDeck.Compose

open StackDeck.Json (Tree)
open StackDeck.Json.Tree

structure PsEntry where
  service : String
  state : String
  ports : List UInt16
  deriving DecidableEq, Repr

namespace PsEntry

def portOf? (t : Tree) : Option UInt16 := do
  match ← slots? ["PublishedPort"] t with
  | [port] => port.withDefault 0 uint16?
  | _ => none

def ofTree? (t : Tree) : Option PsEntry := do
  match ← slots? ["Service", "State", "Publishers"] t with
  | [service, state, publishers] =>
    some {
      service := ← service.withDefault "" string?
      state := ← state.withDefault "" string?
      ports := ← publishers.withDefault [] (list? portOf?) }
  | _ => none

def ofText? (s : List Char) : Option PsEntry := do ofTree? (← Tree.parse? s)

/-- Reads the whole list. -/
def listOfText? (s : String) : Option (List PsEntry) :=
  let text := Text.trim s.toList
  match text with
  | [] => some []
  | '[' :: _ => do list? ofTree? (← Tree.parse? text)
  | _ => ((Text.lines text).filter fun l => !l.all Text.isSpace).mapM ofText?

end PsEntry

end StackDeck.Compose
