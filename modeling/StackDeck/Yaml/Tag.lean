import StackDeck.Json.Tree
import StackDeck.Text.Utf8
import StackDeck.Yaml.Spot

/-!
Tags, which give a node its type, and the directives in front of a document.
-/

namespace StackDeck.Yaml

/-- A tag as it is written: a handle that stands for a beginning, and the rest of the name. -/
structure Tag where
  handle : String
  suffix : String
  deriving DecidableEq, Repr

inductive Directive where
  | version (major minor : Nat)
  | tag (handle start : String)
  deriving DecidableEq, Repr

def tagMarks : List Char :=
  [';', '/', '?', ':', '@', '&', '=', '+', '$', '.', '!', '~', '*', '\'', '(', ')']

def isTagChar (uri : Bool) (c : Char) : Bool :=
  isNameChar c || tagMarks.contains c || (uri && (c == ',' || c == '[' || c == ']'))

/-- The octets of a tag name. A percent sign and two digits stand for one octet. -/
def tagOctets (uri : Bool) : List Spot → Option (List UInt8 × List Spot)
  | [] => some ([], [])
  | s :: r =>
    if s.char == '%' then
      match r with
      | a :: b :: r' => do
        let high ← Json.hexDigit? a.char
        let low ← Json.hexDigit? b.char
        let (more, rest) ← tagOctets uri r'
        some (UInt8.ofNat (high * 16 + low) :: more, rest)
      | _ => none
    else if isTagChar uri s.char then do
      let (more, rest) ← tagOctets uri r
      some (s.char.toString.toUTF8.toList ++ more, rest)
    else some ([], s :: r)

def tagName? (uri : Bool) (input : List Spot) : Option (String × List Spot) := do
  let (octets, rest) ← tagOctets uri input
  some (← Text.Utf8.decode? octets, rest)

def names (input : List Spot) : String × List Spot :=
  (String.ofList ((input.takeWhile fun s => isNameChar s.char).map Spot.char),
    input.dropWhile fun s => isNameChar s.char)

/-- A handle: an exclamation mark, or a name between two of them. Gives the name and whether the second
mark is there. -/
def handle? : List Spot → Option (String × Bool × List Spot)
  | s :: r =>
    if s.char != '!' then none
    else
      let (name, rest) := names r
      match rest with
      | t :: rest' => if t.char == '!' then some (name, true, rest') else some (name, false, rest)
      | [] => some (name, false, [])
  | [] => none

/-- A tag at its exclamation mark. -/
def Tag.read? (flow : Bool) (input : List Spot) : Option (Tag × List Spot) := do
  let (tag, rest) ← match input with
    | _ :: b :: r =>
      if b.char == '<' then do
        let (name, rest) ← tagName? true r
        match rest with
        | t :: rest => if t.char == '>' && !name.isEmpty then some (⟨"", name⟩, rest) else none
        | [] => none
      else named input
    | _ => named input
  match rest with
  | t :: _ => if (flow && t.char == ',') || Spot.endsWord rest then some (tag, rest) else none
  | [] => some (tag, rest)
where
  named (input : List Spot) : Option (Tag × List Spot) := do
    let (name, closed, rest) ← handle? input
    let (suffix, rest) ← tagName? false rest
    if closed then
      if suffix.isEmpty then none else some (⟨"!" ++ name ++ "!", suffix⟩, rest)
    else if name.isEmpty && suffix.isEmpty then some (⟨"", "!"⟩, rest)
    else some (⟨"!", name ++ suffix⟩, rest)

/-- A number of at most nine digits. -/
def versionNumber? (input : List Spot) : Option (Nat × List Spot) :=
  let digits := (input.takeWhile fun s => s.char.isDigit).map Spot.char
  if digits.isEmpty || 9 < digits.length then none
  else some (digits.foldl (fun n c => n * 10 + (c.toNat - 48)) 0, input.dropWhile fun s => s.char.isDigit)

/-- A directive after its percent sign, to the end of its line. -/
def Directive.read? (input : List Spot) : Option (Directive × List Spot) := do
  let (name, rest) := names input
  if !Spot.endsWord rest then none
  let rest := rest.dropWhile Spot.isBlankHere
  let (directive, rest) ← match name with
    | "YAML" => do
      let (major, rest) ← versionNumber? rest
      match rest with
      | s :: rest =>
        if s.char == '.' then do
          let (minor, rest) ← versionNumber? rest
          some (Directive.version major minor, rest)
        else none
      | [] => none
    | "TAG" => do
      let (name, closed, rest) ← handle? rest
      if !closed && !name.isEmpty then none
      if !(rest.head?.any Spot.isBlankHere) then none
      let (start, rest) ← tagName? true (rest.dropWhile Spot.isBlankHere)
      if start.isEmpty || !Spot.endsWord rest then none
      some (Directive.tag ("!" ++ name ++ if closed then "!" else "") start, rest)
    | _ => none
  some (directive, ← Spot.endOfLine? rest)

end StackDeck.Yaml
