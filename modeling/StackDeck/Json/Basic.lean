namespace StackDeck

/-- A whole number, or a decimal `digits * 10 ^ exponent` that was written with a fraction or an
exponent. -/
inductive Json.Number where
  | int (n : Int)
  | decimal (negative : Bool) (digits : Nat) (exponent : Int)
  deriving DecidableEq, Repr

inductive Json where
  | null
  | bool (b : Bool)
  | num (n : Json.Number)
  | str (s : String)
  | arr (items : List Json)
  | obj (fields : List (String × Json))

namespace Json

instance : Inhabited Json := ⟨.null⟩

/-- Puts a field where its name sorts, in place of one of the same name. -/
def insertField (key : String) (v : Json) : List (String × Json) → List (String × Json)
  | [] => [(key, v)]
  | f :: r =>
    if key < f.1 then (key, v) :: f :: r
    else if key == f.1 then (key, v) :: r
    else f :: insertField key v r

/-- The object with these fields: ascending names, and the last field of a name counts. -/
def object (fields : List (String × Json)) : Json :=
  .obj (fields.foldl (fun acc f => insertField f.1 f.2 acc) [])

def nat (n : Nat) : Json := .num (.int n)

def ofOption {α : Type} (f : α → Json) : Option α → Json
  | none => .null
  | some a => f a

/-- A field that is left out when there is nothing to say. -/
def optionalField {α : Type} (key : String) (f : α → Json) : Option α → List (String × Json)
  | none => []
  | some a => [(key, f a)]

def field? (key : String) : Json → Option Json
  | .obj fields => (fields.find? fun f => f.1 == key).map Prod.snd
  | _ => none

def str? : Json → Option String
  | .str s => some s
  | _ => none

def nat? : Json → Option Nat
  | .num (.int n) => if 0 ≤ n then some n.toNat else none
  | _ => none

def bool? : Json → Option Bool
  | .bool b => some b
  | _ => none

def items : Json → List Json
  | .arr items => items
  | _ => []

end Json

end StackDeck
