namespace StackDeck.Shell

/-- An external command and the directory it runs in. -/
structure Command where
  program : String
  args : List String
  directory : String
  deriving DecidableEq, Repr

inductive ExitStatus where
  | code (n : Nat)
  | signal (n : Nat)
  deriving DecidableEq, Repr

namespace ExitStatus

def success : ExitStatus → Bool
  | .code 0 => true
  | _ => false

def signalNames : List String :=
  ["SIGHUP", "SIGINT", "SIGQUIT", "SIGILL", "SIGTRAP", "SIGABRT", "SIGBUS", "SIGFPE", "SIGKILL",
   "SIGUSR1", "SIGSEGV", "SIGUSR2", "SIGPIPE", "SIGALRM", "SIGTERM", "SIGSTKFLT", "SIGCHLD",
   "SIGCONT", "SIGSTOP", "SIGTSTP", "SIGTTIN", "SIGTTOU", "SIGURG", "SIGXCPU", "SIGXFSZ",
   "SIGVTALRM", "SIGPROF", "SIGWINCH", "SIGIO", "SIGPWR", "SIGSYS"]

def render : ExitStatus → String
  | .code n => s!"exit status: {n}"
  | .signal n =>
    match signalNames[n - 1]? with
    | some name => s!"signal: {n} ({name})"
    | none => s!"signal: {n}"

end ExitStatus

/-- What a command wrote and how it ended. One that hangs has written everything and stays alive until
it is told to stop. -/
structure Output where
  stdout : List UInt8
  stderr : List UInt8
  status : ExitStatus
  hangs : Bool

/-- Why a command did not start. -/
inductive SpawnError where
  | notFound
  | notDirectory
  deriving DecidableEq, Repr

def SpawnError.message : SpawnError → String
  | .notFound => "No such file or directory (os error 2)"
  | .notDirectory => "Not a directory (os error 20)"

/-- The lines of a stream that a line feed ended, and the octets after the last of them. -/
def splitOctets : List UInt8 → List (List UInt8) × List UInt8
  | [] => ([], [])
  | b :: r =>
    let (done, rest) := splitOctets r
    if b == 10 then ([] :: done, rest)
    else
      match done with
      | [] => ([], b :: rest)
      | l :: more => ((b :: l) :: more, rest)

end StackDeck.Shell
