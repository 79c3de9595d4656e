import StackDeck.Claude.Conversation
import StackDeck.Compose.Project
import StackDeck.Json.Basic
import StackDeck.Registry

/-!
What a configuration asks for, stack by stack: the project that a stack runs, the engines that diagnose it
and its limits.
-/

namespace StackDeck

/-- The limits of one stack. Times are in milliseconds. -/
structure StackSettings where
  runtime : String := "docker"
  historyCapacity : Nat := 1000
  tailBacklog : Nat := 100
  reconcileInterval : Nat := 2000
  healthInterval : Nat := 5000
  probeTimeout : Nat := 2000
  teardownTimeout : Nat := 120000
  startupTimeout : Nat := 30000
  promptLogLines : Nat := 50
  deriving DecidableEq, Repr

def StackSettings.ofConfig (c : Config) (s : StackConfig) : StackSettings where
  runtime := s.runtime
  historyCapacity := c.logs.historyCapacity.toNat
  tailBacklog := c.logs.tailBacklog.toNat
  reconcileInterval := c.logs.reconcileIntervalSecs.toNat * 1000
  healthInterval := c.health.intervalSecs.toNat * 1000
  probeTimeout := c.health.probeTimeoutSecs.toNat * 1000
  teardownTimeout := c.lifecycle.teardownTimeoutSecs.toNat * 1000
  startupTimeout := c.diagnose.startupTimeoutSecs.toNat * 1000
  promptLogLines := c.diagnose.promptLogLines.toNat

open Json in
/-- The limits as JSON, with every field written out. -/
def StackSettings.toJson (s : StackSettings) : Json :=
  object [("runtime", .str s.runtime), ("history_capacity", nat s.historyCapacity),
    ("tail_backlog", nat s.tailBacklog), ("reconcile_interval_ms", nat s.reconcileInterval),
    ("health_interval_ms", nat s.healthInterval), ("probe_timeout_ms", nat s.probeTimeout),
    ("teardown_timeout_ms", nat s.teardownTimeout), ("startup_timeout_ms", nat s.startupTimeout),
    ("prompt_log_lines", nat s.promptLogLines)]

structure StackPlan where
  name : String
  project : Compose.Project
  engines : List Claude.Settings
  settings : StackSettings

def StackPlan.ofConfig (c : Config) (s : StackConfig) : StackPlan where
  name := s.name
  project := .ofConfig s
  engines := [.ofConfig c.diagnose (some s.projectDir)]
  settings := .ofConfig c s

/-- The names under which a stack's engines may be asked for. -/
def StackPlan.providers (p : StackPlan) : List String := p.engines.map fun _ => Claude.providerId

/-- The plans of all configured stacks. -/
def Config.registry (c : Config) : Registry StackPlan :=
  .ofList (c.stackConfigs.map fun s => (s.name, .ofConfig c s))

end StackDeck
