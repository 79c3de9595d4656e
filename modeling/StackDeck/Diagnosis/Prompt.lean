import StackDeck.Log.Line

namespace StackDeck.Diagnosis

def fence : String := "```\n"

def promptLine (l : Log.Line) : String :=
  s!"{l.timestamp.renderClock} [{l.level.name}] {l.message}\n"

/-- The first thing a session is asked: what is wrong with a service, and its recent output. -/
def initialPrompt (service : String) (recent : List Log.Line) : String :=
  "The service `" ++ service ++ "` in my local development stack is misbehaving. " ++
  "Diagnose the most likely root cause and suggest a concrete fix. " ++
  "Inspect the code and configuration as needed.\n\n" ++
  if recent.isEmpty then "No recent log output was captured for this service.\n"
  else
    s!"Recent log output ({recent.length} lines):\n" ++ fence ++
      String.join (recent.map promptLine) ++ fence

end StackDeck.Diagnosis
