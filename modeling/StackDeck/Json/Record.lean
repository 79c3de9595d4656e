import StackDeck.Json.Tree

/-!
Reading records out of JSON text. A record is an object read by name, unknown names being passed
over, or a list read by position. A field that is named twice spoils the record.
-/

namespace StackDeck.Json.Tree

/-- What a record holds for a field: no such name, no such position, or a value. -/
inductive Slot where
  | absent
  | cut
  | given (t : Tree)

def slot? (fields : List (Option String × Tree)) (name : String) : Option Slot :=
  match fields.filter fun f => f.1 == some name with
  | [] => some .absent
  | [f] => some (.given f.2)
  | _ => none

def positions : List String → List Tree → List Slot
  | [], _ => []
  | _ :: names, [] => .cut :: positions names []
  | _ :: names, t :: r => .given t :: positions names r

/-- The fields of a record, in the order of their names. -/
def slots? (names : List String) : Tree → Option (List Slot)
  | .obj fields =>
    if fields.any fun f => f.1.isNone then none else names.mapM (slot? fields)
  | .arr items => if names.length < items.length then none else some (positions names items)
  | _ => none

def string? : Tree → Option String
  | .str s => s
  | _ => none

def boolean? : Tree → Option Bool
  | .bool b => some b
  | _ => none

/-- A whole number below a limit. -/
def natBelow? (limit : Nat) : Tree → Option Nat
  | .num (some (.int n)) => if 0 ≤ n && n.toNat < limit then some n.toNat else none
  | _ => none

def uint16? (t : Tree) : Option UInt16 := (natBelow? UInt16.size t).map UInt16.ofNat

def uint32? (t : Tree) : Option UInt32 := (natBelow? UInt32.size t).map UInt32.ofNat

def uint64? (t : Tree) : Option UInt64 := (natBelow? UInt64.size t).map UInt64.ofNat

def list? {α : Type} (read : Tree → Option α) : Tree → Option (List α)
  | .arr items => items.mapM read
  | _ => none

def isNull : Tree → Bool
  | .null => true
  | _ => false

/-- One of some names, written as a string or as an object whose only value is null. -/
def choice? {α : Type} (names : List (String × α)) : Tree → Option α
  | .str (some s) => (names.find? fun n => n.1 == s).map Prod.snd
  | .obj [(some s, .null)] => (names.find? fun n => n.1 == s).map Prod.snd
  | _ => none

/-- How a tagged record names its kind: by name, or by the place of the name in the list of kinds. -/
def kind? (kinds : List String) : Tree → Option String
  | .str s => s
  | .num (some (.int n)) => if 0 ≤ n then some (kinds.getD n.toNat "") else none
  | _ => none

/-- Splits a tagged record into its tag, which is the first item of a list and the `type` of an object,
and the rest. -/
def untag? : Tree → Option (Tree × Tree)
  | .obj fields =>
    match fields.filter fun f => f.1 == some "type" with
    | [(_, tag)] => some (tag, .obj (fields.filter fun f => f.1 != some "type"))
    | _ => none
  | .arr (tag :: r) => some (tag, .arr r)
  | _ => none

/-- A tagged record whose tag is a name. -/
def tagged? (t : Tree) : Option (String × Tree) := do
  let (tag, rest) ← untag? t
  some (← tag.string?, rest)

/-- A record without fields to read: an object of anything or an empty list. -/
def isUnit : Tree → Bool
  | .obj _ => true
  | .arr [] => true
  | _ => false

/-- A tree that the strict reading accepts. -/
def isSound (t : Tree) : Bool := (t.value? depthLimit).isSome

namespace Slot

variable {α : Type}

def required (read : Tree → Option α) : Slot → Option α
  | .given t => read t
  | _ => none

def nullable (read : Tree → Option α) (t : Tree) : Option (Option α) :=
  if t.isNull then some none else (read t).map some

/-- A field that may be left out of an object. -/
def optional (read : Tree → Option α) : Slot → Option (Option α)
  | .absent => some none
  | .cut => none
  | .given t => nullable read t

/-- A field that may be left out anywhere. -/
def optionalAnywhere (read : Tree → Option α) : Slot → Option (Option α)
  | .given t => nullable read t
  | _ => some none

def withDefault (a : α) (read : Tree → Option α) : Slot → Option α
  | .given t => read t
  | _ => some a

end Slot

end StackDeck.Json.Tree
