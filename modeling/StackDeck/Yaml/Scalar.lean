import StackDeck.Json.Tree
import StackDeck.Yaml.Spot

/-!
The texts of YAML scalars. Each reader takes the places after the opening mark and gives the text with the
places that follow it.
-/

namespace StackDeck.Yaml

inductive Style where
  | plain
  | singleQuoted
  | doubleQuoted
  | literal
  | folded
  deriving DecidableEq, Repr

/-- What blanks between two visible characters stand for. A single line break folds to a space, of several
the first is dropped. -/
def foldBlanks (blanks : List Char) : List Char :=
  match blanks.filter isBreak with
  | [] => blanks
  | ['\n'] => [' ']
  | '\n' :: more => more
  | breaks => breaks

/-! ### Quoted scalars -/

/-- The part of a quoted scalar that was read, newest character first, and the blanks since its last
visible character. An escaped line break joins its lines without a space. -/
structure Quoted where
  text : List Char := []
  blanks : List Char := []
  joined : Bool := false

namespace Quoted

def settle (q : Quoted) : Quoted :=
  let blanks := q.blanks.reverse
  { text := (if q.joined then blanks.filter isBreak else foldBlanks blanks).reverse ++ q.text }

def push (c : Char) (q : Quoted) : Quoted := { q.settle with text := c :: q.settle.text }

def result (q : Quoted) : String := String.ofList q.settle.text.reverse

end Quoted

def singleQuoted? (q : Quoted) : List Spot → Option (String × List Spot)
  | [] => none
  | s :: r =>
    if Spot.isDocumentEdge (s :: r) then none
    else if s.isBlankHere || s.isBreakHere then singleQuoted? { q with blanks := s.char :: q.blanks } r
    else if s.char != '\'' then singleQuoted? (q.push s.char) r
    else
      match r with
      | t :: r' => if t.char == '\'' then singleQuoted? (q.push '\'') r' else some (q.result, r)
      | [] => some (q.result, [])

/-- Where the reader of a double-quoted scalar stands: in the text, after a backslash, or within the
digits of a character's number. -/
inductive Escaping where
  | none
  | opened
  | digits (left value : Nat)

def simpleEscapes : List (Char × Char) :=
  [('0', '\x00'), ('a', '\x07'), ('b', '\x08'), ('t', '\t'), ('\t', '\t'), ('n', '\n'), ('v', '\x0b'),
   ('f', '\x0c'), ('r', '\r'), ('e', '\x1b'), (' ', ' '), ('"', '"'), ('/', '/'), ('\\', '\\'),
   ('N', '\u0085'), ('_', '\u00a0'), ('L', '\u2028'), ('P', '\u2029')]

def escapeDigits : List (Char × Nat) := [('x', 2), ('u', 4), ('U', 8)]

/-- The character of a number, which no surrogate and nothing beyond the last plane has. -/
def charOfNumber? (n : Nat) : Option Char := if n.isValidChar then some (Char.ofNat n) else none

def doubleQuoted? (q : Quoted) (e : Escaping) : List Spot → Option (String × List Spot)
  | [] => none
  | s :: r =>
    match e with
    | .none =>
      if Spot.isDocumentEdge (s :: r) then none
      else if s.isBlankHere || s.isBreakHere then
        doubleQuoted? { q with blanks := s.char :: q.blanks } .none r
      else if s.char == '"' then some (q.result, r)
      else if s.char == '\\' then doubleQuoted? q.settle .opened r
      else doubleQuoted? (q.push s.char) .none r
    | .opened =>
      if s.isBreakHere then doubleQuoted? { q with joined := true } .none r
      else
        match simpleEscapes.lookup s.char, escapeDigits.lookup s.char with
        | some c, _ => doubleQuoted? (q.push c) .none r
        | none, some n => doubleQuoted? q (.digits n 0) r
        | none, none => none
    | .digits left value =>
      match Json.hexDigit? s.char with
      | none => none
      | some d =>
        let value := value * 16 + d
        if 1 < left then doubleQuoted? q (.digits (left - 1) value) r
        else
          match charOfNumber? value with
          | some c => doubleQuoted? (q.push c) .none r
          | none => none

/-! ### Plain scalars -/

structure Plain where
  text : List Char := []
  blanks : List Char := []
  /-- A line break was met since the last visible character. -/
  broken : Bool := false

namespace Plain

def push (c : Char) (p : Plain) : Plain :=
  { text := c :: ((foldBlanks p.blanks.reverse).reverse ++ p.text) }

def result (p : Plain) : String := String.ofList p.text.reverse

end Plain

def isFlowMark (c : Char) : Bool := c == ',' || c == '[' || c == ']' || c == '{' || c == '}'

/-- A plain scalar ends where a line is indented too little, at a comment, at an edge of the document, at a
colon before a blank and, within brackets, at a bracket or a comma. -/
def Plain.endsAt (flow : Bool) (indent : Nat) (p : Plain) (input : List Spot) : Bool :=
  match input with
  | [] => true
  | s :: r =>
    (!p.blanks.isEmpty && ((!flow && s.column < indent) || Spot.isDocumentEdge input || s.char == '#')) ||
      (s.char == ':' && Spot.endsWord r) || (flow && isFlowMark s.char)

/-- Within brackets a colon may not stand before a mark of the collection. -/
def isStrayColon : List Spot → Bool
  | a :: b :: _ => a.char == ':' && (b.char == '?' || isFlowMark b.char)
  | _ => false

/-- Gives the text, whether a line break was passed at its end, and what follows. -/
def plain? (flow : Bool) (indent : Nat) (p : Plain) : List Spot → Option (String × Bool × List Spot)
  | [] => some (p.result, p.broken, [])
  | s :: r =>
    if s.isBlankHere then
      if p.broken && s.column < indent && s.char == '\t' then none
      else plain? flow indent { p with blanks := s.char :: p.blanks } r
    else if s.isBreakHere then
      plain? flow indent { p with blanks := s.char :: p.blanks, broken := true } r
    else if flow && isStrayColon (s :: r) then none
    else if p.endsAt flow indent (s :: r) then some (p.result, p.broken, s :: r)
    else plain? flow indent (p.push s.char) r

/-! ### Block scalars -/

/-- What becomes of the line breaks at the end. -/
inductive Chomping where
  | strip
  | clip
  | keep

def chomping? (c : Char) : Option Chomping :=
  if c == '+' then some .keep else if c == '-' then some .strip else none

def increment? (c : Char) : Option Nat := if c.isDigit then some (c.toNat - 48) else none

/-- The header of a block scalar: how it ends and how far its lines are indented, in either order. -/
def blockHeader : List Spot → Chomping × Option Nat × List Spot
  | [] => (.clip, none, [])
  | a :: r =>
    let second := r.head?.map Spot.char
    match chomping? a.char, increment? a.char with
    | some how, _ =>
      match second.bind increment? with
      | some n => (how, some n, r.tail)
      | none => (how, none, r)
    | none, some n =>
      match second.bind chomping? with
      | some how => (how, some n, r.tail)
      | none => (.clip, some n, r)
    | none, none => (.clip, none, a :: r)

/-- The widest margin before the first visible character. A tab may not stand in it. -/
def margin? (widest : Nat) : List Spot → Option Nat
  | [] => some widest
  | s :: r =>
    if s.char == ' ' then margin? (max widest (s.column + 1)) r
    else if s.char == '\t' then none
    else if s.isBreakHere then margin? widest r
    else some widest

/-- The part of a block scalar that was read, newest character first; the line break that ended the last
line, those of the empty lines since, and whether that line began with a blank. -/
structure Block where
  text : List Char := []
  lead : List Char := []
  trail : List Char := []
  indented : Bool := false

namespace Block

/-- Begins a line. A folded scalar joins two lines that both begin with a visible character. -/
def beginLine (literal : Bool) (c : Char) (b : Block) : Block :=
  let folds := !literal && b.lead == ['\n'] && !b.indented && !isBlank c
  let text := if folds then (if b.trail.isEmpty then ' ' :: b.text else b.text) else b.lead ++ b.text
  { text := c :: (b.trail ++ text), indented := isBlank c }

def result (how : Chomping) (b : Block) : String :=
  String.ofList (match how with
    | .strip => b.text
    | .clip => b.lead ++ b.text
    | .keep => b.trail ++ b.lead ++ b.text).reverse

end Block

def blockLines? (literal : Bool) (indent : Nat) (b : Block) (within : Bool) :
    List Spot → Option (Block × List Spot)
  | [] => some (b, [])
  | s :: r =>
    if within then
      if s.isBreakHere then blockLines? literal indent { b with lead := [s.char] } false r
      else blockLines? literal indent { b with text := s.char :: b.text } true r
    else if s.column < indent && s.char == ' ' then blockLines? literal indent b false r
    else if s.column < indent && s.char == '\t' then none
    else if s.isBreakHere then blockLines? literal indent { b with trail := s.char :: b.trail } false r
    else if s.column == indent then blockLines? literal indent (b.beginLine literal s.char) true r
    else some (b, s :: r)

/-- A literal or folded scalar within a collection that is indented to `parent`. -/
def blockScalar? (literal : Bool) (parent : Option Nat) (input : List Spot) :
    Option (String × List Spot) := do
  let (how, increment, rest) := blockHeader input
  let lines ← Spot.endOfLine? rest
  let least := match parent with
    | some n => n + 1
    | none => 1
  let indent ← match increment with
    | some 0 => none
    | some n => some (parent.getD 0 + n)
    | none => (margin? 0 lines).map (max least)
  let (b, rest) ← blockLines? literal indent {} false lines
  some (b.result how, rest)

end StackDeck.Yaml
