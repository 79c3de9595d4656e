import StackDeck.Log.Line
import StackDeck.Text.Word

/-!
Lines of `key=value` pairs. A pair may start anywhere in a line; its key reaches to the equals sign,
its value is quoted or ends at white space.
-/

namespace StackDeck.Log.Logfmt

open StackDeck.Text

def isKeyStart (c : Char) : Bool := c.isAlpha || c == '_'

def isKeyChar (c : Char) : Bool := isWord c || c == '.' || c == '-'

/-- The rest of a quoted value up to its closing quote, with what follows. A backslash takes the
character after it along, unless that is a line feed. -/
def quotedBody : List Char → Option (List Char × List Char)
  | [] => none
  | '"' :: r => some ([], r)
  | '\\' :: c :: r =>
    if c == '\n' then none else (quotedBody r).map fun p => ('\\' :: c :: p.1, p.2)
  | '\\' :: [] => none
  | c :: r => (quotedBody r).map fun p => (c :: p.1, p.2)

/-- Replaces one two-character sequence by its last character, from left to right. -/
def unescape (mark : Char) : List Char → List Char
  | '\\' :: c :: r => if c == mark then mark :: unescape mark r else '\\' :: unescape mark (c :: r)
  | c :: r => c :: unescape mark r
  | [] => []
  termination_by s => s.length

/-- A value between quotes stands for its text with quotes, and then backslashes, unescaped. -/
def unquote (v : List Char) : List Char :=
  match v with
  | '"' :: r =>
    match r.reverse with
    | '"' :: inner => unescape '\\' (unescape '"' inner.reverse)
    | _ => v
  | _ => v

/-- A value and what follows it. -/
def value (s : List Char) : List Char × List Char :=
  let bare := (s.takeWhile fun c => !isSpace c, s.dropWhile fun c => !isSpace c)
  match s with
  | '"' :: r =>
    match quotedBody r with
    | some (body, rest) => ('"' :: (body ++ ['"']), rest)
    | none => bare
  | _ => bare

/-- A pair at the very front. -/
def pair? (s : List Char) : Option ((String × String) × List Char) :=
  match s with
  | [] => none
  | c :: r =>
    if !isKeyStart c then none
    else
      match r.dropWhile isKeyChar with
      | '=' :: rest =>
        let key := (c :: r.takeWhile isKeyChar).map Char.toLower
        let (v, rest) := value rest
        some ((String.ofList key, String.ofList (unquote v)), rest)
      | _ => none

/-- All pairs from left to right; `fuel` is at least the length of the line. Where a key might start but no
equals sign follows it, no other key can start before its end. -/
def pairsFrom : Nat → List Char → List (String × String)
  | 0, _ => []
  | _, [] => []
  | fuel + 1, c :: r =>
    match pair? (c :: r) with
    | some (p, rest) => p :: pairsFrom fuel rest
    | none => pairsFrom fuel (if isKeyStart c then r.dropWhile isKeyChar else r)

def pairs (s : List Char) : List (String × String) := pairsFrom s.length s

/-- Of pairs with one key the last counts. -/
def lookup? (key : String) (ps : List (String × String)) : Option String :=
  (ps.reverse.find? fun p => p.1 == key).map Prod.snd

/-- The value of the first key that is there. -/
def firstOf? (keys : List String) (ps : List (String × String)) : Option String :=
  keys.findSome? fun key => lookup? key ps

def timeKeys : List String := ["time", "ts", "timestamp"]
def levelKeys : List String := ["level", "lvl", "severity"]
def messageKeys : List String := ["msg", "message"]

/-- What a line says when it has a time and a level that is known. A time that cannot be read is no
time. -/
def read? (line : List Char) : Option (Option Instant × Level × List Char) := do
  let ps := pairs line
  let time ← firstOf? timeKeys ps
  let level ← (firstOf? levelKeys ps).bind Level.ofName?
  let message := ((firstOf? messageKeys ps).map String.toList).getD line
  some (Instant.ofLogText? time, level, message)

end StackDeck.Log.Logfmt
