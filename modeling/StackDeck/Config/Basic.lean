namespace StackDeck

/-- What a configuration adds to a service that its backend does not know. -/
structure ServiceOverride where
  healthUrl : Option String := none
  port : Option UInt16 := none
  logFile : Option String := none
  deriving DecidableEq, Repr

structure ServerConfig where
  host : String := "127.0.0.1"
  port : UInt16 := 3000
  staticDir : Option String := none
  deriving DecidableEq, Repr

structure StackConfig where
  name : String := "default"
  projectDir : String := "."
  composeFile : Option String := none
  runtime : String := "docker"
  services : List (String × ServiceOverride) := []
  deriving DecidableEq, Repr

structure LogsConfig where
  historyCapacity : UInt64 := 1000
  tailBacklog : UInt64 := 100
  reconcileIntervalSecs : UInt64 := 2
  deriving DecidableEq, Repr

structure HealthConfig where
  intervalSecs : UInt64 := 5
  probeTimeoutSecs : UInt64 := 2
  deriving DecidableEq, Repr

structure LifecycleConfig where
  teardownTimeoutSecs : UInt64 := 120
  deriving DecidableEq, Repr

structure DiagnoseConfig where
  command : String := "claude"
  args : List String := []
  turnTimeoutSecs : UInt64 := 600
  startupTimeoutSecs : UInt64 := 30
  promptLogLines : UInt64 := 50
  deriving DecidableEq, Repr

structure Config where
  server : ServerConfig := {}
  stackConfigs : List StackConfig := [{}]
  logs : LogsConfig := {}
  health : HealthConfig := {}
  lifecycle : LifecycleConfig := {}
  diagnose : DiagnoseConfig := {}
  deriving DecidableEq, Repr

/-- Why a configuration cannot be used. -/
inductive ConfigError where
  | unreadable (path : String) (reason : String)
  | malformed
  | noStacks
  | blankName
  | duplicateName (name : String)
  | zero (field : String)
  deriving DecidableEq, Repr

namespace ConfigError

def message : ConfigError → String
  | .unreadable path reason => "failed to read config file " ++ path ++ ": " ++ reason
  | .malformed => "failed to parse config"
  | .noStacks => "invalid config: at least one stack is required"
  | .blankName => "invalid config: stack name must not be empty"
  | .duplicateName name => "invalid config: duplicate stack name '" ++ name ++ "'"
  | .zero field => "invalid config: " ++ field ++ " must be greater than zero"

end ConfigError

namespace Config

/-- The stack of a name. -/
def stack? (name : String) (c : Config) : Option StackConfig :=
  c.stackConfigs.find? fun s => s.name == name

end Config

end StackDeck
