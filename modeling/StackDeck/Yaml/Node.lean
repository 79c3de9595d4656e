import StackDeck.Yaml.Token

/-!
The nodes of a YAML document. An alias is kept as a reference: `Document.resolve` gives the node it
stands for, which is never an alias.
-/

namespace StackDeck.Yaml

/-- A scalar keeps its full tag. A collection's tag says nothing that is asked for and is dropped. -/
inductive Node where
  | alias (number : Nat)
  | scalar (tag : Option String) (style : Style) (text : String)
  | seq (items : List Node)
  | map (entries : List (Node × Node))

def Node.empty : Node := .scalar none .plain ""

/-- Names, anchors and nodes met so far. An anchor's number is the count of the names known before it, so
that a new name after a repeated one takes over the number of the repetition. -/
structure Anchors where
  names : List (String × Nat) := []
  /-- For each number the anchored nodes that had it, newest first. -/
  places : List (Nat × Nat) := []
  nodes : List (Nat × Node) := []

/-- Makes a name stand for the next anchored node, whose place is given back. -/
def Anchors.declare (name : String) (a : Anchors) : Nat × Anchors :=
  let number := a.names.length
  let place := a.places.length
  (place, { a with
    names := (name, number) :: a.names.filter fun n => n.1 != name
    places := (number, place) :: a.places })

structure Document where
  root : Option Node
  anchors : Anchors

namespace Document

def resolve (d : Document) : Node → Option Node
  | .alias number => do d.anchors.nodes.lookup (← d.anchors.places.lookup number)
  | node => some node

end Document

/-! ### From tokens to nodes -/

structure Composer where
  tokens : List Token
  handles : List (String × String)
  anchors : Anchors := {}

abbrev Compose := StateT Composer Option

namespace Compose

def peek : Compose (Option Token) := do return (← get).tokens.head?

def skip : Compose Unit := modify fun c => { c with tokens := c.tokens.tail }

def fail {α : Type} : Compose α := fun _ => none

/-- Passes a token if it is the next one. -/
def accept (t : Token) : Compose Bool := do
  if (← peek) == some t then do
    skip
    return true
  return false

def expect (t : Token) : Compose Unit := do if !(← accept t) then fail

def nextIs (ts : List Token) : Compose Bool := do
  return match ← peek with
    | some t => ts.contains t
    | none => false

def anchor? : Compose (Option String) := do
  match ← peek with
  | some (.anchor name) => skip; return some name
  | _ => return none

def tag? : Compose (Option String) := do
  match ← peek with
  | some (.tag t) =>
    skip
    if t.handle.isEmpty then return some t.suffix
    match (← get).handles.lookup t.handle with
    | some start => return some (start ++ t.suffix)
    | none => fail
  | _ => return none

/-- An anchor and a tag, in either order. -/
def properties : Compose (Option String × Option String) := do
  match ← anchor? with
  | some name => return (some name, ← tag?)
  | none =>
    let tag ← tag?
    return (← anchor?, tag)

def declare (name : Option String) : Compose (Option Nat) := do
  match name with
  | none => return none
  | some name =>
    let c ← get
    let (place, anchors) := c.anchors.declare name
    set { c with anchors }
    return some place

def settle (place : Option Nat) (node : Node) : Compose Node := do
  match place with
  | none => return node
  | some p =>
    modify fun c => { c with anchors := { c.anchors with nodes := (p, node) :: c.anchors.nodes } }
    return node

def entryEnds : List Token := [.blockEntry, .blockEnd]

def pairEnds : List Token := [.key, .value, .blockEnd]

mutual

/-- A node. A block collection begins only where one may, a sequence without indentation of its own only
as a part of a mapping. The fuel is twice the number of tokens. -/
def node (block bare : Bool) : Nat → Compose Node
  | 0 => fail
  | fuel + 1 => do
    match ← peek with
    | some (.alias name) =>
      skip
      match (← get).anchors.names.lookup name with
      | some number => return .alias number
      | none => fail
    | _ =>
      let (name, tag) ← properties
      let place ← declare name
      match ← peek with
      | some (.scalar style text) => skip; settle place (.scalar tag style text)
      | some .flowSequence => skip; settle place (.seq (← flowItems true fuel))
      | some .flowMapping => skip; settle place (.map (← flowPairs true fuel))
      | some .blockEntry =>
        if bare then settle place (.seq (← bareItems fuel))
        else if name.isSome || tag.isSome then settle place (.scalar tag .plain "")
        else fail
      | some .blockSequence =>
        if block then skip; settle place (.seq (← blockItems fuel))
        else if name.isSome || tag.isSome then settle place (.scalar tag .plain "")
        else fail
      | some .blockMapping =>
        if block then skip; settle place (.map (← blockPairs fuel))
        else if name.isSome || tag.isSome then settle place (.scalar tag .plain "")
        else fail
      | _ => if name.isSome || tag.isSome then settle place (.scalar tag .plain "") else fail

def blockItems : Nat → Compose (List Node)
  | 0 => fail
  | fuel + 1 => do
    if ← accept .blockEnd then return []
    expect .blockEntry
    let item ← if ← nextIs entryEnds then pure .empty else node true false fuel
    return item :: (← blockItems fuel)

def bareItems : Nat → Compose (List Node)
  | 0 => fail
  | fuel + 1 => do
    if !(← accept .blockEntry) then return []
    let item ← if ← nextIs (.blockEntry :: pairEnds) then pure .empty else node true false fuel
    return item :: (← bareItems fuel)

def blockPairs : Nat → Compose (List (Node × Node))
  | 0 => fail
  | fuel + 1 => do
    if ← accept .blockEnd then return []
    expect .key
    let k ← if ← nextIs pairEnds then pure .empty else node true true fuel
    let v ← if ← accept .value then
        if ← nextIs pairEnds then pure .empty else node true true fuel
      else pure .empty
    return (k, v) :: (← blockPairs fuel)

def flowItems (first : Bool) : Nat → Compose (List Node)
  | 0 => fail
  | fuel + 1 => do
    if ← accept .flowSequenceEnd then return []
    if !first then expect .flowEntry
    if ← accept .key then
      let bare ← nextIs [.value, .flowEntry, .flowSequenceEnd]
      let k ← if bare then skip; pure .empty else node false false fuel
      let v ← if ← accept .value then
          if ← nextIs [.flowEntry, .flowSequenceEnd] then pure .empty else node false false fuel
        else pure .empty
      return .map [(k, v)] :: (← flowItems false fuel)
    if ← accept .flowSequenceEnd then return []
    let item ← node false false fuel
    return item :: (← flowItems false fuel)

def flowPairs (first : Bool) : Nat → Compose (List (Node × Node))
  | 0 => fail
  | fuel + 1 => do
    if ← accept .flowMappingEnd then return []
    if !first then expect .flowEntry
    if ← accept .key then
      let k ← if ← nextIs [.value, .flowEntry, .flowMappingEnd] then pure .empty else node false false fuel
      let v ← if ← accept .value then
          if ← nextIs [.flowEntry, .flowMappingEnd] then pure .empty else node false false fuel
        else pure .empty
      return (k, v) :: (← flowPairs false fuel)
    if ← accept .flowMappingEnd then return []
    let k ← node false false fuel
    return (k, .empty) :: (← flowPairs false fuel)

end

end Compose

/-! ### Documents -/

def standardHandles : List (String × String) := [("!", "!"), ("!!", "tag:yaml.org,2002:")]

/-- The directives in front of a document: at most one version, which is 1.1 or 1.2, and at most one
meaning for a handle. -/
def directives? (version : Bool) (handles : List (String × String)) :
    List Token → Option (List (String × String) × List Token)
  | .directive (.version major minor) :: r =>
    if version || major != 1 || !(minor == 1 || minor == 2) then none else directives? true handles r
  | .directive (.tag handle start) :: r =>
    if (handles.lookup handle).isSome then none else directives? version ((handle, start) :: handles) r
  | r => some (handles, r)

/-- Whether a document has no content of its own before this token. -/
def Token.isOutside : Token → Bool
  | .directive _ => true
  | .documentStart => true
  | .documentEnd => true
  | _ => false

/-- The only document of a text. An empty stream is a document without a root. -/
def Document.ofText? (s : String) : Option Document := do
  let tokens ← Token.ofText? s
  let (handles, rest) ← directives? false [] tokens
  let isMarked := rest.head? == some .documentStart
  if !isMarked && rest.length != tokens.length then none
  let content := if isMarked then rest.tail else rest
  let start : Composer := { tokens := content, handles := handles ++ standardHandles }
  if tokens.isEmpty then return ⟨none, {}⟩
  let (root, c) ←
    if isMarked && content.head?.all Token.isOutside then some (.empty, start)
    else (Compose.node true false (2 * content.length + 2)).run start
  if c.tokens.all (· == .documentEnd) then some ⟨some root, c.anchors⟩ else none

end StackDeck.Yaml
