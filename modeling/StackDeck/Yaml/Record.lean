import StackDeck.Yaml.Node

/-!
Reading records out of YAML documents. A plain scalar is taken for what is asked of it: the same text can
be a number, a name or nothing at all. An empty value stands for an empty collection.
-/

namespace StackDeck.Yaml

namespace Node

def isEmpty : Node → Bool
  | .scalar _ .plain "" => true
  | _ => false

end Node

def nullNames : List String := ["null", "Null", "NULL", "~"]

def nullTag : String := "tag:yaml.org,2002:null"

def intTag : String := "tag:yaml.org,2002:int"

/-- The value of a digit, letters of either case counting on from ten. -/
def digitValue? (base : Nat) (c : Char) : Option Nat :=
  (Json.hexDigit? c).filter (· < base)

def digits? (base : Nat) (cs : List Char) : Option Nat :=
  if cs.isEmpty then none
  else cs.foldlM (fun n c => (digitValue? base c).map (n * base + ·)) 0

/-- A whole number, after an optional plus sign: decimal without leading zeros, or in the base of its
prefix. -/
def natural? (s : String) : Option Nat :=
  let cs := match s.toList with
    | '+' :: r => r
    | r => r
  match cs with
  | '0' :: 'x' :: r => digits? 16 r
  | '0' :: 'o' :: r => digits? 8 r
  | '0' :: 'b' :: r => digits? 2 r
  | '0' :: _ :: _ => none
  | cs => digits? 10 cs

namespace Document

def text? (d : Document) (n : Node) : Option String := do
  match ← d.resolve n with
  | .scalar _ _ s => some s
  | _ => none

/-- A number is plain, or a literal scalar that is tagged as one. -/
def natBelow? (limit : Nat) (d : Document) (n : Node) : Option Nat := do
  match ← d.resolve n with
  | .scalar tag style s =>
    if style == .plain || (style == .literal && tag == some intTag) then
      (natural? s).filter (· < limit)
    else none
  | _ => none

def uint16? (d : Document) (n : Node) : Option UInt16 := (d.natBelow? UInt16.size n).map UInt16.ofNat

def uint64? (d : Document) (n : Node) : Option UInt64 := (d.natBelow? UInt64.size n).map UInt64.ofNat

/-- Whether a node says that there is nothing. A tag that says so must be on a name for nothing. -/
def isNothing? (d : Document) (n : Node) : Option Bool := do
  match ← d.resolve n with
  | .scalar tag .plain s =>
    if tag == some nullTag then
      if nullNames.contains s then some true else none
    else some (tag.isNone && (s == "" || nullNames.contains s))
  | _ => some false

def option? {α : Type} (read : Document → Node → Option α) (d : Document) (n : Node) :
    Option (Option α) := do
  if ← d.isNothing? n then some none else (read d n).map some

def list? {α : Type} (read : Document → Node → Option α) (d : Document) (n : Node) :
    Option (List α) := do
  match ← d.resolve n with
  | .seq items => items.mapM (read d)
  | node => if node.isEmpty then some [] else none

/-- The entries of a mapping whose keys are texts. -/
def entries? (d : Document) (n : Node) : Option (List (String × Node)) := do
  match ← d.resolve n with
  | .map entries => entries.mapM fun e => do some (← d.text? e.1, e.2)
  | node => if node.isEmpty then some [] else none

/-- A field of a record, which may be left out but not given twice. -/
def field? {α : Type} (d : Document) (entries : List (String × Node)) (name : String) (default : α)
    (read : Document → Node → Option α) : Option α :=
  match entries.filter fun e => e.1 == name with
  | [] => some default
  | [e] => read d e.2
  | _ => none

end Document

end StackDeck.Yaml
