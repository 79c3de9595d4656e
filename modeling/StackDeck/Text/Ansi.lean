/-!
Terminal escape sequences.

`Place` says where a reader of terminal output stands, `step` what one more character does: it moves
the place and lets some characters through. `strip` keeps what was let through. A sequence that the
end of the text leaves unfinished lets nothing through.
-/

namespace StackDeck.Text.Ansi

inductive Place where
  | ground
  | escape
  | escapeIntermediate
  | csiEntry
  | csiParam
  | csiIntermediate
  | csiIgnore
  | osc
  | dcsEntry
  | dcsParam
  | dcsIntermediate
  | dcsData
  /-- A string that only a cancel or another escape ends. -/
  | ignored
  deriving DecidableEq, Repr

def between (n lo hi : Nat) : Bool := lo ≤ n && n ≤ hi

/-- The octets of a character's UTF-8 form after the first. -/
def continuation (n : Nat) : List Nat :=
  if n < 0x80 then []
  else if n < 0x800 then [0x80 + n % 64]
  else if n < 0x10000 then [0x80 + n / 64 % 64, 0x80 + n % 64]
  else [0x80 + n / 4096 % 64, 0x80 + n / 64 % 64, 0x80 + n % 64]

/-- What plain text lets through: everything but control characters, of which line feeds stay. -/
def printed (c : Char) : List Char :=
  if c == '\n' then [c]
  else if c.toNat < 0x20 || between c.toNat 0x80 0x9F then []
  else [c]

/-- A line feed takes effect even inside a sequence that carries control characters. -/
def executed (c : Char) : List Char := if c == '\n' then [c] else []

/-- What every sequence does with an octet it has no rule for. -/
def anywhere (p : Place) (n : Nat) : Place :=
  if n == 0x18 || n == 0x1A then .ground else if n == 0x1B then .escape else p

def afterEscape (n : Nat) : Place :=
  if n == 0x1B then .escape
  else if n == 0x18 || n == 0x1A then .ground
  else if between n 0x20 0x2F then .escapeIntermediate
  else if n == 0x50 then .dcsEntry
  else if n == 0x5B then .csiEntry
  else if n == 0x5D then .osc
  else if n == 0x58 || n == 0x5E || n == 0x5F then .ignored
  else if between n 0x30 0x7E then .ground
  else .escape

/-- A device control string ends at the octet 0x9C, even when that octet sits inside a character.
The rest of such a character is no longer text: an octet up to 0x9F is a control and vanishes, a
higher one shows as a replacement character. -/
def dcsCharacter (n : Nat) : Place × List Char :=
  let rest := (continuation n).dropWhile (· != 0x9C)
  if rest.isEmpty then (.dcsData, [])
  else (.ground, (rest.drop 1).filterMap fun b => if b ≤ 0x9F then none else some '\uFFFD')

def step (p : Place) (c : Char) : Place × List Char :=
  let n := c.toNat
  match p with
  | .ground => if n == 0x1B then (.escape, []) else (.ground, printed c)
  | .escape => (afterEscape n, executed c)
  | .escapeIntermediate =>
    if between n 0x30 0x7E then (.ground, []) else (anywhere p n, executed c)
  | .csiEntry =>
    if between n 0x40 0x7E then (.ground, [])
    else if between n 0x20 0x2F then (.csiIntermediate, [])
    else if between n 0x30 0x3F then (.csiParam, [])
    else (anywhere p n, executed c)
  | .csiParam =>
    if between n 0x40 0x7E then (.ground, [])
    else if between n 0x20 0x2F then (.csiIntermediate, [])
    else if between n 0x3C 0x3F then (.csiIgnore, [])
    else (anywhere p n, executed c)
  | .csiIntermediate =>
    if between n 0x40 0x7E then (.ground, [])
    else if between n 0x30 0x3F then (.csiIgnore, [])
    else (anywhere p n, executed c)
  | .csiIgnore =>
    if between n 0x40 0x7E then (.ground, []) else (anywhere p n, executed c)
  | .osc => if n == 0x07 then (.ground, []) else (anywhere p n, [])
  | .dcsEntry =>
    if between n 0x40 0x7E then (.dcsData, [])
    else if between n 0x20 0x2F then (.dcsIntermediate, [])
    else if between n 0x30 0x3F then (.dcsParam, [])
    else (anywhere p n, [])
  | .dcsParam =>
    if between n 0x40 0x7E then (.dcsData, [])
    else if between n 0x20 0x2F then (.dcsIntermediate, [])
    else if between n 0x3C 0x3F then (.ignored, [])
    else (anywhere p n, [])
  | .dcsIntermediate =>
    if between n 0x40 0x7E then (.dcsData, [])
    else if between n 0x30 0x3F then (.ignored, [])
    else (anywhere p n, [])
  | .dcsData => if n < 0x80 then (anywhere p n, []) else dcsCharacter n
  | .ignored => (anywhere p n, [])

/-- What a text lets through when read from a place. -/
def stripFrom (p : Place) : List Char → List Char
  | [] => []
  | c :: r => (step p c).2 ++ stripFrom (step p c).1 r

/-- A text without its terminal escape sequences and control characters. -/
def strip (s : List Char) : List Char := stripFrom .ground s

end StackDeck.Text.Ansi
