import StackDeck.CommandLine
import StackDeck.Config.Reader
import StackDeck.Config.Report
import StackDeck.Json.Render
import StackDeck.Stack.Plan

/-!
The command line: reads the configuration and tells what would be run and where.
-/

namespace StackDeck

/-- The text of a file, if it can be read. -/
def readText (path : String) : IO (Option String) := do
  try
    let text ← IO.FS.readFile path
    return some text
  catch _ =>
    return none

/-- The configuration in a file, or the default one. -/
def readConfig (path : Option String) : IO (Except ConfigError Config) := do
  match path with
  | none => return .ok {}
  | some path =>
    let text ← readText path
    return Config.load path text

end StackDeck

open StackDeck

def main (args : List String) : IO UInt32 := do
  match CommandLine.read args with
  | .error e =>
    IO.eprintln ("error: " ++ e.message)
    return 2
  | .ok c =>
    match ← readConfig c.config with
    | .error e =>
      IO.eprintln ("Error: " ++ e.message)
      return 1
    | .ok config =>
      let server := c.server config.server
      IO.println (Json.render (.object [("server", server.toJson),
        ("stacks", .arr (config.registry.names.map .str))]))
      return 0
