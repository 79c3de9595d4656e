import StackDeck.Json.Tree
import StackDeck.Text.Blank
import StackDeck.Text.Excerpt

namespace StackDeck.Diagnosis

/-- Commands longer than this are cut in summaries. -/
def commandSummaryChars : Nat := 120

/-- The first of the fields that holds a string, unless that string is blank. -/
def detail? (keys : List String) (input : Json) : Option String :=
  (keys.findSome? fun key => (input.field? key).bind Json.str?).filter fun s => !Text.isBlank s

/-- What a tool's input says about the call, for the tools that say it in one field. -/
def toolDetail? (tool : String) (input : Json) : Option String :=
  match tool with
  | "Bash" => (detail? ["command"] input).map (Text.truncate commandSummaryChars)
  | "Read" | "Write" | "Edit" | "MultiEdit" | "NotebookEdit" =>
    detail? ["file_path", "path", "notebook_path"] input
  | "Grep" | "Glob" => detail? ["pattern"] input
  | "WebFetch" => detail? ["url"] input
  | _ => none

/-- One line about a finished tool call. -/
def summarizeTool (tool input : String) : String :=
  match (Json.parse? input).bind (toolDetail? tool) with
  | some detail => tool ++ ": " ++ detail
  | none => tool ++ " complete"

end StackDeck.Diagnosis
