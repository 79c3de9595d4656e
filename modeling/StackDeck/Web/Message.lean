import StackDeck.Diagnosis.Session
import StackDeck.Hub.Subscription
import StackDeck.Lifecycle.Controller
import StackDeck.Web.Uri

/-!
Requests and responses. A request that cannot be read is rejected before anything is looked up; a call that
a stack refuses is answered with the reason.
-/

namespace StackDeck.Web

inductive Method where
  | get
  | head
  | post
  | delete
  | options
  | other (name : String)
  deriving DecidableEq, Repr

/-- Names of methods are written in capitals. -/
def Method.ofName : String → Method
  | "GET" => .get
  | "HEAD" => .head
  | "POST" => .post
  | "DELETE" => .delete
  | "OPTIONS" => .options
  | name => .other name

structure Request where
  method : Method
  target : String
  contentType : Option String := none
  body : String := ""
  deriving DecidableEq, Repr

/-- Why a request could not be read. -/
inductive Rejection where
  /-- A part of the path is not text. -/
  | path
  | query
  /-- The body is not declared to be JSON. -/
  | mediaType
  /-- The body is not JSON. -/
  | malformed
  /-- The body is JSON, but not what the call takes. -/
  | unsuitable
  deriving DecidableEq, Repr

def Rejection.status : Rejection → Nat
  | .path => 400
  | .query => 400
  | .mediaType => 415
  | .malformed => 400
  | .unsuitable => 422

def Rejection.message : Rejection → String
  | .path => "the path is not valid UTF-8"
  | .query => "the query cannot be read"
  | .mediaType => "expected a body with content type application/json"
  | .malformed => "the body is not valid JSON"
  | .unsuitable => "the body does not hold the expected fields"

inductive Content where
  /-- Nothing, though it may have a type. -/
  | empty (type : String)
  | json (j : Json)
  | html (text : String)
  | text (text : String)
  | events (stack : String) (s : Subscription)

def Content.type : Content → String
  | .empty type => type
  | .json _ => "application/json"
  | .html _ => "text/html"
  | .text _ => "text/plain; charset=utf-8"
  | .events .. => "text/event-stream"

structure Response where
  status : Nat
  content : Content

namespace Response

def blank (status : Nat) : Response := ⟨status, .empty ""⟩

def ok (j : Json) : Response := ⟨200, .json j⟩

def accepted (j : Json) : Response := ⟨202, .json j⟩

def refused (status : Nat) (error : String) : Response := ⟨status, .json (.object [("error", .str error)])⟩

def rejected (r : Rejection) : Response := ⟨r.status, .text r.message⟩

/-- What is left of a response whose body is not wanted. -/
def headOnly (r : Response) : Response := { r with content := .empty r.content.type }

end Response

end StackDeck.Web

namespace StackDeck

def BackendError.httpStatus : BackendError → Nat
  | .serviceNotFound _ => 404
  | _ => 500

def Lifecycle.Fault.httpStatus : Lifecycle.Fault → Nat
  | .unknownAction _ => 400
  | .backend e => e.httpStatus
  | _ => 409

def Diagnosis.Fault.httpStatus : Diagnosis.Fault → Nat
  | .sessionNotFound _ => 404
  | .serviceNotFound _ => 404
  | .unavailable _ => 503
  | .startTimeout _ => 503
  | .provider _ => 500
  | _ => 400

end StackDeck
