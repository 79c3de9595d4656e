import StackDeck.Config.Basic

/-!
What the command line asks for: a configuration file, and where to serve instead of where the file says.
-/

namespace StackDeck

structure CommandLine where
  config : Option String := none
  port : Option UInt16 := none
  staticDir : Option String := none
  deriving DecidableEq, Repr

namespace CommandLine

inductive Fault where
  | unexpected (arg : String)
  | valueMissing (option : String)
  | badPort (text : String)
  deriving DecidableEq, Repr

def Fault.message : Fault → String
  | .unexpected arg => "unexpected argument '" ++ arg ++ "' found"
  | .valueMissing option => "a value is required for '" ++ option ++ "' but none was supplied"
  | .badPort text => "invalid value '" ++ text ++ "' for '--port': not a port number"

def port? (text : String) : Option UInt16 :=
  text.toNat?.bind fun n => if n < 65536 then some (UInt16.ofNat n) else none

/-- Sets an option to a value. Of options given twice the last counts. -/
def set (option value : String) (c : CommandLine) : Except Fault CommandLine :=
  if option == "-c" || option == "--config" then .ok { c with config := some value }
  else if option == "--static-dir" then .ok { c with staticDir := some value }
  else if option == "-p" || option == "--port" then
    match port? value with
    | some n => .ok { c with port := some n }
    | none => .error (.badPort value)
  else .error (.unexpected option)

/-- The name and the value of an option that is written with an equals sign. -/
def assigned? (arg : String) : Option (String × String) :=
  if arg.startsWith "--" && arg.contains '=' then
    some (String.ofList (arg.toList.takeWhile (· != '=')),
      String.ofList ((arg.toList.dropWhile (· != '=')).drop 1))
  else none

def readFrom (c : CommandLine) : List String → Except Fault CommandLine
  | [] => .ok c
  | arg :: r =>
    match assigned? arg with
    | some (option, value) =>
      match c.set option value with
      | .ok c => readFrom c r
      | .error e => .error e
    | none =>
      match r with
      | [] => if (c.set arg "0").isOk then .error (.valueMissing arg) else .error (.unexpected arg)
      | value :: r =>
        match c.set arg value with
        | .ok c => readFrom c r
        | .error e => .error e

def read (args : List String) : Except Fault CommandLine := readFrom {} args

/-- Where to serve. -/
def server (s : ServerConfig) (c : CommandLine) : ServerConfig :=
  { s with port := c.port.getD s.port, staticDir := c.staticDir.or s.staticDir }

end CommandLine

end StackDeck
