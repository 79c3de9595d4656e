import StackDeck.Log.Line
import StackDeck.Text.Word

/-!
The level of a line that follows no format, told from the words in it.
-/

namespace StackDeck.Log.Keyword

open StackDeck.Text

/-- Whether a text starts with a keyword in any case, and no word goes on behind it. -/
def startsWithWord : List Char → List Char → Bool
  | [], [] => true
  | [], c :: _ => !isWord c
  | _ :: _, [] => false
  | k :: ks, c :: cs => c.toLower == k && startsWithWord ks cs

/-- Whether a keyword stands in a text as a word of its own. `inWord` says whether a word reaches up to
the front. -/
def occursFrom (keywords : List (List Char)) (inWord : Bool) : List Char → Bool
  | [] => false
  | c :: r =>
    (!inWord && keywords.any fun k => startsWithWord k (c :: r)) ||
      occursFrom keywords (isWord c) r

def occurs (keywords : List String) (s : List Char) : Bool :=
  occursFrom (keywords.map String.toList) false s

def level (s : List Char) : Level :=
  if occurs ["error", "fatal", "panic"] s then .error
  else if occurs ["warn", "warning"] s then .warn
  else if occurs ["debug"] s then .debug
  else .info

end StackDeck.Log.Keyword
