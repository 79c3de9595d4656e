import StackDeck.Config.Basic
import StackDeck.Json.Basic

/-!
A configuration as JSON, with every field written out.
-/

namespace StackDeck

open Json

def ServiceOverride.toJson (o : ServiceOverride) : Json :=
  object [("health_url", ofOption .str o.healthUrl), ("port", ofOption (fun p => nat p.toNat) o.port),
    ("log_file", ofOption .str o.logFile)]

def StackConfig.toJson (s : StackConfig) : Json :=
  object [("name", .str s.name), ("project_dir", .str s.projectDir),
    ("compose_file", ofOption .str s.composeFile), ("runtime", .str s.runtime),
    ("services", object (s.services.map fun o => (o.1, o.2.toJson)))]

def ServerConfig.toJson (s : ServerConfig) : Json :=
  object [("host", .str s.host), ("port", nat s.port.toNat), ("static_dir", ofOption .str s.staticDir)]

def LogsConfig.toJson (c : LogsConfig) : Json :=
  object [("history_capacity", nat c.historyCapacity.toNat), ("tail_backlog", nat c.tailBacklog.toNat),
    ("reconcile_interval_secs", nat c.reconcileIntervalSecs.toNat)]

def HealthConfig.toJson (c : HealthConfig) : Json :=
  object [("interval_secs", nat c.intervalSecs.toNat), ("probe_timeout_secs", nat c.probeTimeoutSecs.toNat)]

def LifecycleConfig.toJson (c : LifecycleConfig) : Json :=
  object [("teardown_timeout_secs", nat c.teardownTimeoutSecs.toNat)]

def DiagnoseConfig.toJson (c : DiagnoseConfig) : Json :=
  object [("command", .str c.command), ("args", .arr (c.args.map .str)),
    ("turn_timeout_secs", nat c.turnTimeoutSecs.toNat),
    ("startup_timeout_secs", nat c.startupTimeoutSecs.toNat),
    ("prompt_log_lines", nat c.promptLogLines.toNat)]

def Config.toJson (c : Config) : Json :=
  object [("server", c.server.toJson), ("stacks", .arr (c.stackConfigs.map StackConfig.toJson)),
    ("logs", c.logs.toJson), ("health", c.health.toJson), ("lifecycle", c.lifecycle.toJson),
    ("diagnose", c.diagnose.toJson)]

end StackDeck
