import StackDeck.Log.Line

namespace StackDeck.Log.Bracketed

open StackDeck.Text

/-- What stands between a bracket at the front and the next closing bracket, with what follows. -/
def bracket? (s : List Char) : Option (List Char × List Char) :=
  match s with
  | '[' :: r =>
    match r.dropWhile (· != ']') with
    | ']' :: rest =>
      let inner := r.takeWhile (· != ']')
      if inner.isEmpty then none else some (inner, rest)
    | _ => none
  | _ => none

/-- Reads `[LEVEL][timestamp] message`: blanks may stand before, between and after the brackets, the
level is made of letters, and the message is a single line. -/
def read? (line : List Char) : Option (Option Instant × Level × List Char) := do
  let (name, rest) ← bracket? (trimStart line)
  if !name.all Char.isAlpha then none
  let (time, rest) ← bracket? (trimStart rest)
  let message := trimStart rest
  if message.contains '\n' then none
  let level ← Level.ofName? (String.ofList name)
  some (Instant.ofLogText? (String.ofList (trim time)), level, message)

end StackDeck.Log.Bracketed
