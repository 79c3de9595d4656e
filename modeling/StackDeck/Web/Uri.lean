import StackDeck.Json.Tree
import StackDeck.Text.Utf8

/-!
The target of a request: a path, a query behind `?`, and nothing of what follows `#`. Octets may be written
as `%` and two hexadecimal digits.
-/

namespace StackDeck.Web

/-- A target as it was written. -/
structure Target where
  path : List Char
  query : Option (List Char)
  deriving DecidableEq, Repr

def Target.ofString (s : String) : Target :=
  let cs := s.toList.takeWhile (· != '#')
  match cs.dropWhile (· != '?') with
  | [] => ⟨cs, none⟩
  | _ :: query => ⟨cs.takeWhile (· != '?'), some query⟩

/-- The pieces between the separators; one more than there are separators. -/
def splitAt (sep : Char) : List Char → List (List Char)
  | [] => [[]]
  | c :: r =>
    match splitAt sep r with
    | [] => [[c]]
    | piece :: more => if c == sep then [] :: piece :: more else (c :: piece) :: more

/-- The octets that a text stands for. A `%` without two digits stands for itself. -/
def octets : List Char → List UInt8
  | [] => []
  | '%' :: a :: b :: r =>
    match Json.hexDigit? a, Json.hexDigit? b with
    | some x, some y => UInt8.ofNat (x * 16 + y) :: octets r
    | _, _ => UInt8.ofNat 37 :: octets (a :: b :: r)
  | c :: r => (String.singleton c).toUTF8.toList ++ octets r

/-- A part of a path; none if it stands for no text. -/
def decodePart? (s : List Char) : Option String := Text.Utf8.decode? (octets s)

/-- A name or a value in a query, where `+` is a blank. -/
def decodeForm (s : List Char) : String :=
  Text.Utf8.decodeLossy (octets (s.map fun c => if c == '+' then ' ' else c))

/-- The fields of a query in the order in which they were written. -/
def formFields (query : List Char) : List (String × String) :=
  ((splitAt '&' query).filter fun piece => !piece.isEmpty).map fun piece =>
    (decodeForm (piece.takeWhile (· != '=')), decodeForm ((piece.dropWhile (· != '=')).drop 1))

end StackDeck.Web
