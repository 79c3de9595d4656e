import StackDeck.Json.Basic

/-!
JSON text as it was written. A `Tree` keeps every field of an object, repeated ones too, and keeps
the place of a number that is too large and of a string with a lone surrogate: a reader that passes
over such a part never notices. `value?` is the strict reading, which wants every part sound.

Text is cut into tokens by one pass over the characters, and the tokens are put together by one pass
over them with a stack of unfinished containers, so neither can run forever.
-/

namespace StackDeck.Json

inductive Tree where
  | null
  | bool (b : Bool)
  | num (n : Option Number)
  | str (s : Option String)
  | arr (items : List Tree)
  | obj (fields : List (Option String × Tree))

inductive Token where
  | openArr
  | closeArr
  | openObj
  | closeObj
  | comma
  | colon
  | null
  | bool (b : Bool)
  | num (n : Option Number)
  | str (s : Option String)

/-! ### Numbers -/

def digitsValue (ds : List Char) : Nat :=
  ds.foldl (fun n c => n * 10 + (c.toNat - 48)) 0

/-- Drops trailing zeros of the digits into the exponent. -/
def stripZeros : Nat → Nat → Int → Nat × Int
  | 0, m, e => (m, e)
  | fuel + 1, m, e => if m % 10 == 0 && m != 0 then stripZeros fuel (m / 10) (e + 1) else (m, e)

/-- Half a step above the largest binary64 number: from here on a number is out of range. -/
def binary64Limit : Nat := Nat.pow 2 1024 - Nat.pow 2 970

/-- A decimal in its shortest form; `none` when it is out of range. A number too small to tell from
zero is zero. -/
def Number.ofDecimal (negative : Bool) (m : Nat) (e : Int) : Option Number :=
  let width : Int := (Nat.toDigits 10 m).length
  if m == 0 || width + e < -330 then some (.decimal negative 0 0)
  else if width + e > 310 then none
  else if binary64Limit * Nat.pow 10 (-e).toNat ≤ m * Nat.pow 10 e.toNat then none
  else
    let (m, e) := stripZeros width.toNat m e
    some (.decimal negative m e)

/-- Takes the digits in front. -/
def takeDigits (s : List Char) : List Char × List Char :=
  (s.takeWhile Char.isDigit, s.dropWhile Char.isDigit)

def signedExponent : List Char → Option Int
  | '-' :: r => if r.isEmpty || !r.all Char.isDigit then none else some (-(digitsValue r : Int))
  | '+' :: r => if r.isEmpty || !r.all Char.isDigit then none else some (digitsValue r : Int)
  | r => if r.isEmpty || !r.all Char.isDigit then none else some (digitsValue r : Int)

/-- Reads a number token: `none` is no number at all, `some none` one that is out of range. A whole
number of 64 bits is exact. -/
def Number.read? (s : List Char) : Option (Option Number) :=
  let (negative, s) := match s with
    | '-' :: r => (true, r)
    | s => (false, s)
  let (whole, s) := takeDigits s
  if whole.isEmpty || (whole.head? == some '0' && whole.length > 1) then none
  else
    let (point, fraction, s) := match s with
      | '.' :: r => (true, (takeDigits r).1, (takeDigits r).2)
      | s => (false, [], s)
    if point && fraction.isEmpty then none
    else
      let m := digitsValue (whole ++ fraction)
      match s with
      | [] =>
        if !point && !negative && m < UInt64.size then some (some (.int m))
        else if !point && negative && 0 < m && 2 * m ≤ UInt64.size then some (some (.int (-(m : Int))))
        else some (Number.ofDecimal negative m (-(fraction.length : Int)))
      | c :: r =>
        if c == 'e' || c == 'E' then
          (signedExponent r).map fun e => Number.ofDecimal negative m (e - fraction.length)
        else none

/-! ### Tokens -/

/-- Where the reader of characters stands. Characters gathered so far are in reverse. Inside a
string, `sound` says that no lone surrogate was met, and `high` holds an escaped high surrogate
that waits for its low one. -/
inductive Mode where
  | idle
  | word (gathered : List Char)
  | number (gathered : List Char)
  | text (gathered : List Char) (sound : Bool) (high : Option Nat)
  | escape (gathered : List Char) (sound : Bool) (high : Option Nat)
  | hex (gathered : List Char) (sound : Bool) (high : Option Nat) (left : Nat) (code : Nat)

def hexDigit? (c : Char) : Option Nat :=
  if '0' ≤ c && c ≤ '9' then some (c.toNat - 48)
  else if 'a' ≤ c && c ≤ 'f' then some (c.toNat - 87)
  else if 'A' ≤ c && c ≤ 'F' then some (c.toNat - 55)
  else none

def isNumberChar (c : Char) : Bool :=
  c.isDigit || c == '-' || c == '+' || c == '.' || c == 'e' || c == 'E'

def punctuation? (c : Char) : Option Token :=
  match c with
  | '[' => some .openArr
  | ']' => some .closeArr
  | '\x7b' => some .openObj
  | '\x7d' => some .closeObj
  | ',' => some .comma
  | ':' => some .colon
  | _ => none

def isBlankChar (c : Char) : Bool := c == ' ' || c == '\n' || c == '\r' || c == '\t'

def word? (s : List Char) : Option Token :=
  if s == "null".toList then some .null
  else if s == "true".toList then some (.bool true)
  else if s == "false".toList then some (.bool false)
  else none

/-- A character that no token is waiting for. -/
def fromIdle (c : Char) : Option (Mode × List Token) :=
  if isBlankChar c then some (.idle, [])
  else if c == '"' then some (.text [] true none, [])
  else if c.isDigit || c == '-' then some (.number [c], [])
  else if c.isAlpha then some (.word [c], [])
  else (punctuation? c).map fun t => (.idle, [t])

def simpleEscape? (c : Char) : Option Char :=
  match c with
  | '"' => some '"'
  | '\\' => some '\\'
  | '/' => some '/'
  | 'b' => some '\x08'
  | 'f' => some '\x0c'
  | 'n' => some '\n'
  | 'r' => some '\r'
  | 't' => some '\t'
  | _ => none

/-- A finished `\u` escape inside a string. -/
def unitRead (gathered : List Char) (sound : Bool) (high : Option Nat) (code : Nat) : Mode :=
  let isHigh := 0xD800 ≤ code && code ≤ 0xDBFF
  let isLow := 0xDC00 ≤ code && code ≤ 0xDFFF
  match high with
  | some h =>
    if isLow then
      .text (Char.ofNat (0x10000 + (h - 0xD800) * 0x400 + (code - 0xDC00)) :: gathered) sound none
    else .text gathered false none
  | none =>
    if isHigh then .text gathered sound (some code)
    else if isLow then .text gathered false none
    else .text (Char.ofNat code :: gathered) sound none

def step (m : Mode) (c : Char) : Option (Mode × List Token) :=
  match m with
  | .idle => fromIdle c
  | .word g =>
    if c.isAlpha then some (.word (c :: g), [])
    else do
      let t ← word? g.reverse
      let (m, ts) ← fromIdle c
      some (m, t :: ts)
  | .number g =>
    if isNumberChar c then some (.number (c :: g), [])
    else do
      let n ← Number.read? g.reverse
      let (m, ts) ← fromIdle c
      some (m, .num n :: ts)
  | .text g sound high =>
    if c == '\\' then some (.escape g sound high, [])
    else
      let sound := sound && high.isNone
      if c == '"' then
        some (.idle, [.str (if sound then some (String.ofList g.reverse) else none)])
      else if c.toNat < 0x20 then none
      else some (.text (c :: g) sound none, [])
  | .escape g sound high =>
    if c == 'u' then some (.hex g sound high 4 0, [])
    else do
      let e ← simpleEscape? c
      some (.text (e :: g) (sound && high.isNone) none, [])
  | .hex g sound high left code => do
    let d ← hexDigit? c
    let code := code * 16 + d
    if left ≤ 1 then some (unitRead g sound high code, [])
    else some (.hex g sound high (left - 1) code, [])

/-- What is left at the end of the text. -/
def finish : Mode → Option (List Token)
  | .idle => some []
  | .word g => (word? g.reverse).map fun t => [t]
  | .number g => (Number.read? g.reverse).map fun n => [.num n]
  | _ => none

def tokensFrom (m : Mode) (done : List Token) : List Char → Option (List Token)
  | [] => (finish m).map fun ts => done.reverse ++ ts
  | c :: r => do
    let (m, ts) ← step m c
    tokensFrom m (ts.reverse ++ done) r

def tokens (s : List Char) : Option (List Token) := tokensFrom .idle [] s

/-! ### Trees -/

/-- A container that is not closed yet, its parts in reverse. -/
inductive Frame where
  | arr (items : List Tree)
  | obj (fields : List (Option String × Tree)) (key : Option String)

/-- What may come next. -/
inductive Expect where
  | value
  | item
  | member
  | key
  | colon
  | next
  | finished (t : Tree)

/-- Puts a finished value where it belongs. -/
def place (t : Tree) : List Frame → List Frame × Expect
  | [] => ([], .finished t)
  | .arr items :: r => (.arr (t :: items) :: r, .next)
  | .obj fields key :: r => (.obj ((key, t) :: fields) none :: r, .next)

def scalar? : Token → Option Tree
  | .null => some .null
  | .bool b => some (.bool b)
  | .num n => some (.num n)
  | .str s => some (.str s)
  | _ => none

def startValue (stack : List Frame) (t : Token) : Option (List Frame × Expect) :=
  match t with
  | .openArr => some (.arr [] :: stack, .item)
  | .openObj => some (.obj [] none :: stack, .member)
  | t => (scalar? t).map fun v => place v stack

def setKey (key : Option String) : List Frame → Option (List Frame × Expect)
  | .obj fields _ :: r => some (.obj fields key :: r, .colon)
  | _ => none

def closeArr : List Frame → Option (List Frame × Expect)
  | .arr items :: r => some (place (.arr items.reverse) r)
  | _ => none

def closeObj : List Frame → Option (List Frame × Expect)
  | .obj fields _ :: r => some (place (.obj fields.reverse) r)
  | _ => none

def accept (stack : List Frame) (e : Expect) (t : Token) : Option (List Frame × Expect) :=
  match e, t with
  | .value, t => startValue stack t
  | .item, .closeArr => closeArr stack
  | .item, t => startValue stack t
  | .member, .closeObj => closeObj stack
  | .member, .str key => setKey key stack
  | .key, .str key => setKey key stack
  | .colon, .colon => some (stack, .value)
  | .next, .comma =>
    match stack with
    | .arr _ :: _ => some (stack, .value)
    | .obj .. :: _ => some (stack, .key)
    | [] => none
  | .next, .closeArr => closeArr stack
  | .next, .closeObj => closeObj stack
  | _, _ => none

def build (stack : List Frame) (e : Expect) : List Token → Option Tree
  | [] =>
    match e with
    | .finished t => some t
    | _ => none
  | t :: r => do
    let (stack, e) ← accept stack e t
    build stack e r

/-- Reads a whole text as one JSON value. -/
def Tree.parse? (s : List Char) : Option Tree := do
  build [] .value (← tokens s)

/-! ### The strict reading -/

mutual

/-- The value of a tree that is sound in every part and nested at most `depth` deep. Of fields with
one name the last counts. -/
def Tree.value? (depth : Nat) : Tree → Option Json
  | .null => some .null
  | .bool b => some (.bool b)
  | .num n => n.map Json.num
  | .str s => s.map Json.str
  | .arr items =>
    match depth with
    | 0 => none
    | depth + 1 => (valueItems? depth items).map Json.arr
  | .obj fields =>
    match depth with
    | 0 => none
    | depth + 1 => (valueFields? depth fields).map Json.object

def valueItems? (depth : Nat) : List Tree → Option (List Json)
  | [] => some []
  | t :: r => do
    let v ← t.value? depth
    let vs ← valueItems? depth r
    some (v :: vs)

def valueFields? (depth : Nat) : List (Option String × Tree) → Option (List (String × Json))
  | [] => some []
  | (key, t) :: r => do
    let key ← key
    let v ← t.value? depth
    let vs ← valueFields? depth r
    some ((key, v) :: vs)

end

/-- Containers may be nested this deep. -/
def depthLimit : Nat := 127

/-- Reads a text strictly. -/
def parse? (s : String) : Option Json := do
  (← Tree.parse? s.toList).value? depthLimit

mutual

/-- A value as the text that would hold it. -/
def tree : Json → Tree
  | .null => .null
  | .bool b => .bool b
  | .num n => .num (some n)
  | .str s => .str (some s)
  | .arr items => .arr (treeItems items)
  | .obj fields => .obj (treeFields fields)

def treeItems : List Json → List Tree
  | [] => []
  | v :: r => v.tree :: treeItems r

def treeFields : List (String × Json) → List (Option String × Tree)
  | [] => []
  | (key, v) :: r => (some key, v.tree) :: treeFields r

end

end StackDeck.Json
