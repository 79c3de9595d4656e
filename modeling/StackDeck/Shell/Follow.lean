import StackDeck.Shell.Host

/-!
Commands that are followed line by line while they run. A file is followed by `tail -n N -F PATH`, which
shows its last lines and then waits for more, also for a file that is not there yet.
-/

namespace StackDeck.Shell

/-- The last lines of a file. An unended line at its end counts as one. -/
def lastLines (n : Nat) (octets : List UInt8) : List UInt8 :=
  let (done, rest) := splitOctets octets
  let count := done.length + (if rest.isEmpty then 0 else 1)
  (done.drop (count - n)).flatMap (· ++ [10]) ++ (if n = 0 then [] else rest)

namespace Host

/-- What a file holds that is reached by a relative path. -/
def file? (path : String) (h : Host) : Option String :=
  let isOutside := path.toList.head? == some '/' || path.toList.getLast? == some '/'
  match (pathParts path).reverse with
  | [] => none
  | name :: above =>
    match h.walk [] above.reverse with
    | .ok place =>
      if isOutside then none else (h.files.find? fun f => f.1 == place ++ [name]).map Prod.snd
    | .error _ => none

/-- What following a file shows. A path that reads as an option is refused. -/
def tail (n : Nat) (path : String) (h : Host) : Output :=
  if path.toList.head? == some '-' then { silence with status := .code 1 }
  else
    { silence with
      stdout := lastLines n (((h.file? path).getD "").toUTF8.toList)
      hangs := true }

/-- Starts a command whose output is followed, with nothing on its input. -/
def follow (c : Command) (h : Host) : Except SpawnError Output × Host :=
  match c.program, c.args with
  | "tail", ["-n", n, "-F", path] => (.ok (h.tail (n.toNat?.getD 0) path), h)
  | _, _ => h.spawn c ""

end Host

end StackDeck.Shell
