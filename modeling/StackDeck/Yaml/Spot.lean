/-!
The text of a YAML stream as a list of characters, each with its place. Line breaks are made alike
beforehand: a carriage return, a pair of return and feed and a next-line character all become a line
feed; the two Unicode separators stay what they are.
-/

namespace StackDeck.Yaml

def isBreak (c : Char) : Bool := c == '\n' || c == '\u2028' || c == '\u2029'

def isBlank (c : Char) : Bool := c == ' ' || c == '\t'

/-- The characters of names: of anchors, directives and tag handles. -/
def isNameChar (c : Char) : Bool := c.isAlphanum || c == '_' || c == '-'

/-- The characters that a stream may hold. -/
def isAllowed (c : Char) : Bool :=
  c == '\t' || c == '\n' || c == '\r' || c == '\u0085' || (' ' ≤ c && c ≤ '~') ||
    ('\u00a0' ≤ c && c ≤ '\ufffd') || '\uffff' < c

structure Spot where
  char : Char
  line : Nat
  column : Nat

namespace Spot

def unifyBreaks : List Char → List Char
  | [] => []
  | '\r' :: '\n' :: r => '\n' :: unifyBreaks r
  | c :: r => (if c == '\r' || c == '\u0085' then '\n' else c) :: unifyBreaks r

def placed (line column : Nat) : List Char → List Spot
  | [] => []
  | c :: r =>
    ⟨c, line, column⟩ :: if isBreak c then placed (line + 1) 0 r else placed line (column + 1) r

/-- The places of a text, less a leading byte order mark. -/
def ofText? (s : String) : Option (List Spot) :=
  let cs := match s.toList with
    | '\ufeff' :: r => r
    | r => r
  if cs.all isAllowed then some (placed 0 0 (unifyBreaks cs)) else none

def isBreakHere (s : Spot) : Bool := isBreak s.char

def isBlankHere (s : Spot) : Bool := isBlank s.char

/-- The text is over, or a blank or a line break follows. -/
def endsWord : List Spot → Bool
  | [] => true
  | s :: _ => s.isBlankHere || s.isBreakHere

/-- Three equal marks at the start of a line that separate documents. -/
def isDocumentMark (mark : Char) : List Spot → Bool
  | a :: b :: c :: r => a.column == 0 && a.char == mark && b.char == mark && c.char == mark && endsWord r
  | _ => false

def isDocumentEdge (input : List Spot) : Bool := isDocumentMark '-' input || isDocumentMark '.' input

/-- What is left after the blanks and the comment that end a line, if nothing else stands there. -/
def endOfLine? (input : List Spot) : Option (List Spot) :=
  let rest := input.dropWhile isBlankHere
  let rest := match rest with
    | s :: r => if s.char == '#' then r.dropWhile fun (t : Spot) => !t.isBreakHere else rest
    | [] => []
  match rest with
  | [] => some []
  | s :: r => if s.isBreakHere then some r else none

end Spot

end StackDeck.Yaml
