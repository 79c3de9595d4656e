import StackDeck.Service.Status

/-!
Probing a service over the network: its health endpoint if it has one, else its port. A service that does
not run, or has neither, is not probed.
-/

namespace StackDeck.Health

/-- How an attempt to connect to a local port ends. -/
inductive Connection where
  | established
  | timedOut
  | failed (reason : String)
  deriving DecidableEq, Repr

/-- How an HTTP request ends. -/
inductive Reply where
  | status (code : Nat)
  | timedOut
  | failed (reason : String)
  deriving DecidableEq, Repr

/-- What the network answers. -/
structure Network where
  connect : UInt16 → Connection
  fetch : String → Reply

/-- A network without a way to anywhere. -/
def Network.unreachable : Network where
  connect _ := .failed "Network is unreachable (os error 101)"
  fetch url := .failed ("error sending request for url (" ++ url ++ ")")

/-- The standard phrase for a status code. -/
def reason? : Nat → Option String
  | 100 => "Continue" | 101 => "Switching Protocols" | 102 => "Processing"
  | 200 => "OK" | 201 => "Created" | 202 => "Accepted" | 203 => "Non Authoritative Information"
  | 204 => "No Content" | 205 => "Reset Content" | 206 => "Partial Content" | 207 => "Multi-Status"
  | 208 => "Already Reported" | 226 => "IM Used"
  | 300 => "Multiple Choices" | 301 => "Moved Permanently" | 302 => "Found" | 303 => "See Other"
  | 304 => "Not Modified" | 305 => "Use Proxy" | 307 => "Temporary Redirect"
  | 308 => "Permanent Redirect"
  | 400 => "Bad Request" | 401 => "Unauthorized" | 402 => "Payment Required" | 403 => "Forbidden"
  | 404 => "Not Found" | 405 => "Method Not Allowed" | 406 => "Not Acceptable"
  | 407 => "Proxy Authentication Required" | 408 => "Request Timeout" | 409 => "Conflict" | 410 => "Gone"
  | 411 => "Length Required" | 412 => "Precondition Failed" | 413 => "Payload Too Large"
  | 414 => "URI Too Long" | 415 => "Unsupported Media Type" | 416 => "Range Not Satisfiable"
  | 417 => "Expectation Failed" | 418 => "I'm a teapot" | 421 => "Misdirected Request"
  | 422 => "Unprocessable Entity" | 423 => "Locked" | 424 => "Failed Dependency" | 425 => "Too Early"
  | 426 => "Upgrade Required" | 428 => "Precondition Required" | 429 => "Too Many Requests"
  | 431 => "Request Header Fields Too Large" | 451 => "Unavailable For Legal Reasons"
  | 500 => "Internal Server Error" | 501 => "Not Implemented" | 502 => "Bad Gateway"
  | 503 => "Service Unavailable" | 504 => "Gateway Timeout" | 505 => "HTTP Version Not Supported"
  | 506 => "Variant Also Negotiates" | 507 => "Insufficient Storage" | 508 => "Loop Detected"
  | 510 => "Not Extended" | 511 => "Network Authentication Required"
  | _ => none

def isSuccess (code : Nat) : Bool := 200 ≤ code && code < 300

/-- What a probe tells of a service. -/
inductive Outcome where
  | healthy
  | unhealthy (error : String)
  | unknown
  deriving DecidableEq, Repr

/-- The outcome of a request that was given some time, in milliseconds. -/
def Reply.outcome (timeout : Nat) : Reply → Outcome
  | .status code =>
    if isSuccess code then .healthy
    else .unhealthy (s!"HTTP {code} " ++ (reason? code).getD "<unknown status code>")
  | .timedOut => .unhealthy s!"timed out after {timeout / 1000}s"
  | .failed reason => .unhealthy reason

def Connection.outcome (timeout : Nat) (port : UInt16) : Connection → Outcome
  | .established => .healthy
  | .timedOut => .unhealthy s!"port {port.toNat}: connect timed out after {timeout / 1000}s"
  | .failed reason => .unhealthy s!"port {port.toNat}: {reason}"

def Network.probe (n : Network) (timeout : Nat) (s : Service) : Outcome :=
  if !s.running then .unknown
  else
    match s.healthUrl, s.port with
    | some url, _ => (n.fetch url).outcome timeout
    | none, some port => (n.connect port).outcome timeout port
    | none, none => .unknown

end StackDeck.Health
