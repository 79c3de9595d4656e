/-!
Reading octets as text. `decode?` wants well-formed UTF-8; `decodeLossy` puts one replacement
character for each longest piece that could have begun a character.
-/

namespace StackDeck.Text.Utf8

/-- How a character may begin: octets to follow, bounds of the next one, and the bits it brings. -/
structure Lead where
  more : Nat
  low : Nat
  high : Nat
  bits : Nat

def lead? (b : Nat) : Option Lead :=
  if b < 0x80 then some ⟨0, 0, 0, b⟩
  else if 0xC2 ≤ b && b ≤ 0xDF then some ⟨1, 0x80, 0xBF, b - 0xC0⟩
  else if b == 0xE0 then some ⟨2, 0xA0, 0xBF, 0⟩
  else if b == 0xED then some ⟨2, 0x80, 0x9F, 0xD⟩
  else if 0xE1 ≤ b && b ≤ 0xEF then some ⟨2, 0x80, 0xBF, b - 0xE0⟩
  else if b == 0xF0 then some ⟨3, 0x90, 0xBF, 0⟩
  else if 0xF1 ≤ b && b ≤ 0xF3 then some ⟨3, 0x80, 0xBF, b - 0xF0⟩
  else if b == 0xF4 then some ⟨3, 0x80, 0x8F, 4⟩
  else none

/-- Between characters, or inside one with octets still owed. -/
inductive Place where
  | start
  | within (owed low high bits : Nat)

/-- One octet: the place after it, the characters it completes, and whether it broke the form. -/
def begin (b : Nat) : Place × List Char × Bool :=
  match lead? b with
  | none => (.start, ['\uFFFD'], true)
  | some l => if l.more == 0 then (.start, [Char.ofNat l.bits], false)
    else (.within l.more l.low l.high l.bits, [], false)

def step (p : Place) (b : Nat) : Place × List Char × Bool :=
  match p with
  | .start => begin b
  | .within owed low high bits =>
    if low ≤ b && b ≤ high then
      let bits := bits * 64 + (b - 0x80)
      if owed == 1 then (.start, [Char.ofNat bits], false)
      else (.within (owed - 1) 0x80 0xBF bits, [], false)
    else
      let (p, cs, _) := begin b
      (p, '\uFFFD' :: cs, true)

def decodeFrom (p : Place) : List UInt8 → List Char × Bool
  | [] =>
    match p with
    | .start => ([], false)
    | .within .. => (['\uFFFD'], true)
  | b :: r =>
    let (p, cs, bad) := step p b.toNat
    let (rest, bad') := decodeFrom p r
    (cs ++ rest, bad || bad')

def decodeLossy (bs : List UInt8) : String := String.ofList (decodeFrom .start bs).1

def decode? (bs : List UInt8) : Option String :=
  let (cs, bad) := decodeFrom .start bs
  if bad then none else some (String.ofList cs)

end StackDeck.Text.Utf8
