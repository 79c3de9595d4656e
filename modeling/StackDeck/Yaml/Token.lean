import StackDeck.Yaml.Scalar
import StackDeck.Yaml.Tag

/-!
The tokens of a YAML stream. Where a line begins something that a colon may turn into a key, its place is
kept, and the token that announces the key is put there once the colon is found.
-/

namespace StackDeck.Yaml

inductive Token where
  | directive (d : Directive)
  | documentStart
  | documentEnd
  | blockSequence
  | blockMapping
  | blockEnd
  | flowSequence
  | flowSequenceEnd
  | flowMapping
  | flowMappingEnd
  | blockEntry
  | flowEntry
  | key
  | value
  | alias (name : String)
  | anchor (name : String)
  | tag (t : Tag)
  | scalar (style : Style) (text : String)
  deriving DecidableEq, Repr

/-- Where a key may have begun: the number of tokens before it and its place in the text. In a block whose
entries begin there it has to turn out to be one. -/
structure KeyCandidate where
  position : Nat
  line : Nat
  column : Nat
  required : Bool

/-- The tokens read so far and the collections that are open. -/
structure Scanner where
  tokens : Array Token := #[]
  /-- Columns of the open block collections, innermost first. -/
  indents : List Nat := []
  keyAllowed : Bool := true
  candidate : Option KeyCandidate := none
  /-- The candidates around the open brackets, innermost first. -/
  outer : List (Option KeyCandidate) := []

namespace Scanner

def inFlow (s : Scanner) : Bool := !s.outer.isEmpty

def emit (t : Token) (s : Scanner) : Scanner := { s with tokens := s.tokens.push t }

def insert (position : Nat) (t : Token) (s : Scanner) : Scanner :=
  { s with tokens := s.tokens.insertIdxIfInBounds position t }

def allowKey (b : Bool) (s : Scanner) : Scanner := { s with keyAllowed := b }

/-- Gives up the candidate, which a required one does not bear. -/
def dropCandidate (s : Scanner) : Option Scanner :=
  if s.candidate.any KeyCandidate.required then none else some { s with candidate := none }

/-- A key stands on one line and is at most 1024 characters long. -/
def isStale (here : Spot) (k : KeyCandidate) : Bool :=
  k.line < here.line || k.column + 1024 < here.column

def dropStale (here : Spot) (s : Scanner) : Option Scanner :=
  if (s.candidate :: s.outer).any fun k => k.any fun k => isStale here k && k.required then none
  else some { s with
    candidate := s.candidate.filter fun k => !isStale here k
    outer := s.outer.map fun k => k.filter fun k => !isStale here k }

/-- Notes that a key may begin here. -/
def saveCandidate (here : Spot) (s : Scanner) : Option Scanner :=
  if s.keyAllowed then do
    let s ← s.dropCandidate
    let required := !s.inFlow && s.indents.head? == some here.column
    some { s with candidate := some ⟨s.tokens.size, here.line, here.column, required⟩ }
  else some s

/-- Opens a block collection if none is open as far to the right. -/
def openBlock (column : Nat) (t : Token) (position : Nat) (s : Scanner) : Scanner :=
  if s.inFlow || s.indents.head?.any (column ≤ ·) then s
  else { s.insert position t with indents := column :: s.indents }

/-- Closes the block collections to the right of a column. -/
def closeBlocks (keep : Nat → Bool) (s : Scanner) : Scanner :=
  if s.inFlow then s
  else
    { s with
      tokens := s.tokens ++ (s.indents.takeWhile fun n => !keep n).map fun _ => Token.blockEnd
      indents := s.indents.dropWhile fun n => !keep n }

/-- A line that belongs to no collection. -/
def leaveBlocks (s : Scanner) : Option Scanner := do
  let s ← (s.closeBlocks fun _ => false).dropCandidate
  some (s.allowKey false)

/-- Passes blanks, comments and line breaks. A tab may not stand where a key may. -/
def gap (flow : Bool) (keyAllowed comment : Bool) : List Spot → Bool × List Spot
  | [] => (keyAllowed, [])
  | s :: r =>
    if s.isBreakHere then gap flow (keyAllowed || !flow) false r
    else if comment || s.char == '#' then gap flow keyAllowed true r
    else if s.char == ' ' || (s.char == '\t' && (flow || !keyAllowed)) then gap flow keyAllowed false r
    else (keyAllowed, s :: r)

def openFlow (here : Spot) (t : Token) (s : Scanner) : Option Scanner := do
  let s ← s.saveCandidate here
  some ({ s with outer := s.candidate :: s.outer, candidate := none, keyAllowed := true }.emit t)

def closeFlow (t : Token) (s : Scanner) : Option Scanner := do
  let s ← s.dropCandidate
  let s := match s.outer with
    | k :: outer => { s with candidate := k, outer }
    | [] => s
  some ((s.allowKey false).emit t)

/-- A mark that begins an entry or a key of a block collection. -/
def blockMark (here : Spot) (collection t : Token) (s : Scanner) : Option Scanner := do
  let s ← if s.inFlow then some s
    else if s.keyAllowed then some (s.openBlock here.column collection s.tokens.size)
    else none
  some (s.emit t)

/-- A colon: it makes a key of the candidate, or gives the value of a key that was announced. -/
def colon (here : Spot) (s : Scanner) : Option Scanner :=
  match s.candidate with
  | some k =>
    let s := (s.insert k.position .key).openBlock k.column .blockMapping k.position
    some (({ s with candidate := none }.allowKey false).emit .value)
  | none => do
    let s ← s.blockMark here .blockMapping .value
    some (s.allowKey !s.inFlow)

def anchorName? (input : List Spot) : Option (String × List Spot) :=
  let (name, rest) := names input
  let closes := match rest with
    | [] => true
    | t :: _ => Spot.endsWord rest || "?:,]\x7d%@`".toList.contains t.char
  if name.isEmpty || !closes then none else some (name, rest)

def isIndicator (c : Char) : Bool := "-?:,[]\x7b\x7d#&*!|>'\"%@`".toList.contains c

def startsPlain (flow : Bool) (here : Spot) (r : List Spot) : Bool :=
  !(Spot.endsWord (here :: r) || isIndicator here.char) ||
    (here.char == '-' && !(r.head?.any Spot.isBlankHere)) ||
    (!flow && (here.char == '?' || here.char == ':') && !Spot.endsWord r)

/-- A node's own tokens may turn out to be a key, which no key may follow directly. -/
def nodeStart (here : Spot) (s : Scanner) : Option Scanner := do
  let s ← s.saveCandidate here
  some (s.allowKey false)

/-- Reads one token at its first character. -/
def token (here : Spot) (r : List Spot) (s : Scanner) : Option (Scanner × List Spot) := do
  let input := here :: r
  if here.column == 0 && here.char == '%' then
    let s ← s.leaveBlocks
    let (d, rest) ← Directive.read? r
    return (s.emit (.directive d), rest)
  if Spot.isDocumentMark '-' input then return ((← s.leaveBlocks).emit .documentStart, r.drop 2)
  if Spot.isDocumentMark '.' input then return ((← s.leaveBlocks).emit .documentEnd, r.drop 2)
  match here.char with
  | '[' => return (← s.openFlow here .flowSequence, r)
  | '{' => return (← s.openFlow here .flowMapping, r)
  | ']' => return (← s.closeFlow .flowSequenceEnd, r)
  | '}' => return (← s.closeFlow .flowMappingEnd, r)
  | ',' => return (((← s.dropCandidate).allowKey true).emit .flowEntry, r)
  | '*' =>
    let (name, rest) ← anchorName? r
    return ((← s.nodeStart here).emit (.alias name), rest)
  | '&' =>
    let (name, rest) ← anchorName? r
    return ((← s.nodeStart here).emit (.anchor name), rest)
  | '!' =>
    let (tag, rest) ← Tag.read? s.inFlow input
    return ((← s.nodeStart here).emit (.tag tag), rest)
  | '\'' =>
    let (text, rest) ← singleQuoted? {} r
    return ((← s.nodeStart here).emit (.scalar .singleQuoted text), rest)
  | '"' =>
    let (text, rest) ← doubleQuoted? {} .none r
    return ((← s.nodeStart here).emit (.scalar .doubleQuoted text), rest)
  | c =>
    if c == '-' && Spot.endsWord r then
      let s ← (← s.blockMark here .blockSequence .blockEntry).dropCandidate
      return (s.allowKey true, r)
    if c == '?' && (s.inFlow || Spot.endsWord r) then
      let s ← (← s.blockMark here .blockMapping .key).dropCandidate
      return (s.allowKey !s.inFlow, r)
    if c == ':' && (s.inFlow || Spot.endsWord r) then return (← s.colon here, r)
    if (c == '|' || c == '>') && !s.inFlow then
      let (text, rest) ← blockScalar? (c == '|') s.indents.head? r
      let style := if c == '|' then Style.literal else Style.folded
      return (((← s.dropCandidate).allowKey true).emit (.scalar style text), rest)
    if startsPlain s.inFlow here r then
      let indent := match s.indents with
        | n :: _ => n + 1
        | [] => 0
      let (text, broken, rest) ← plain? s.inFlow indent {} input
      return (((← s.nodeStart here).allowKey broken).emit (.scalar .plain text), rest)
    none

/-- Reads all tokens, each of which takes a character at least. -/
def run : Nat → Scanner → List Spot → Option (List Token)
  | 0, _, _ => none
  | fuel + 1, s, input =>
    let (keyAllowed, rest) := gap s.inFlow s.keyAllowed false input
    let s := s.allowKey keyAllowed
    match rest with
    | [] => do some (← s.leaveBlocks).tokens.toList
    | here :: r => do
      let s ← s.dropStale here
      let (s, rest) ← (s.closeBlocks fun n => n ≤ here.column).token here r
      run fuel s rest

end Scanner

/-- The tokens of a text. -/
def Token.ofText? (s : String) : Option (List Token) := do
  let input ← Spot.ofText? s
  Scanner.run (input.length + 1) {} input

end StackDeck.Yaml
