import StackDeck.Json.Basic

/-!
Writing JSON: no blanks, fields in the order the value holds them, and only what must be escaped is
escaped.
-/

namespace StackDeck.Json

def hexChar (n : Nat) : Char := Char.ofNat (if n < 10 then 48 + n else 87 + n)

def escapeChar (c : Char) : List Char :=
  match c with
  | '"' => ['\\', '"']
  | '\\' => ['\\', '\\']
  | '\x08' => ['\\', 'b']
  | '\x0c' => ['\\', 'f']
  | '\n' => ['\\', 'n']
  | '\r' => ['\\', 'r']
  | '\t' => ['\\', 't']
  | c =>
    if c.toNat < 0x20 then ['\\', 'u', '0', '0', hexChar (c.toNat / 16), hexChar (c.toNat % 16)]
    else [c]

def renderString (s : String) : List Char := '"' :: (s.toList.flatMap escapeChar ++ ['"'])

def zeros (n : Nat) : List Char := List.replicate n '0'

/-- A decimal that is neither very large nor very small is written with a point, any other with an
exponent. -/
def renderDecimal (negative : Bool) (digits : Nat) (exponent : Int) : List Char :=
  let ds := Nat.toDigits 10 digits
  let point := (ds.length : Int) + exponent
  let body :=
    if digits == 0 then ['0', '.', '0']
    else if 0 ≤ exponent && point ≤ 16 then ds ++ zeros exponent.toNat ++ ['.', '0']
    else if 0 < point && point ≤ 16 then ds.take point.toNat ++ '.' :: ds.drop point.toNat
    else if -5 < point && point ≤ 0 then '0' :: '.' :: (zeros (-point).toNat ++ ds)
    else
      let mantissa := if ds.length == 1 then ds else ds.take 1 ++ '.' :: ds.drop 1
      mantissa ++ 'e' :: (toString (point - 1)).toList
  if negative then '-' :: body else body

def Number.render : Number → List Char
  | .int n => (toString n).toList
  | .decimal negative digits exponent => renderDecimal negative digits exponent

mutual

def renderChars : Json → List Char
  | .null => "null".toList
  | .bool true => "true".toList
  | .bool false => "false".toList
  | .num n => n.render
  | .str s => renderString s
  | .arr [] => ['[', ']']
  | .arr (v :: r) => '[' :: (renderChars v ++ renderItems r)
  | .obj [] => ['\x7b', '\x7d']
  | .obj ((key, v) :: r) => '\x7b' :: (renderString key ++ ':' :: (renderChars v ++ renderFields r))

def renderItems : List Json → List Char
  | [] => [']']
  | v :: r => ',' :: (renderChars v ++ renderItems r)

def renderFields : List (String × Json) → List Char
  | [] => ['\x7d']
  | (key, v) :: r => ',' :: (renderString key ++ ':' :: (renderChars v ++ renderFields r))

end

def render (v : Json) : String := String.ofList (renderChars v)

end StackDeck.Json
