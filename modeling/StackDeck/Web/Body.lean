import StackDeck.Web.Message

/-!
Reading the body of a request. A body is a record of texts, written as an object by name or as a list by
position, and is read from its start: the first flaw decides whether it is malformed or unsuitable.
-/

namespace StackDeck.Web

/-- A field of a record of texts. -/
structure Field where
  names : List String
  /-- May be null. -/
  nullable : Bool := false
  /-- May be left out at the end of a list; in an object any field may. -/
  hasDefault : Bool := true

namespace Body

open Json

/-- What is wrong with the value of a field. -/
def valueFlaw? (f : Field) : Tree → Option Rejection
  | .str (some _) => none
  | .str none => some .malformed
  | .num none => some .malformed
  | .null => if f.nullable then none else some .unsuitable
  | _ => some .unsuitable

def field? (fields : List Field) (name : Option String) : Option Field :=
  name.bind fun name => fields.find? fun f => f.names.contains name

/-- What is wrong with a member of an object. -/
def memberFlaw? (fields : List Field) (m : Option String × Tree) : Option Rejection :=
  if m.1.isNone then some .malformed else (field? fields m.1).bind fun f => valueFlaw? f m.2

/-- What is wrong with the name of the next member, given those before. -/
def nameFlaw? (fields : List Field) (before : List (Option String × Tree)) (name : Option String)
    (isOpen : Bool) : Option Rejection :=
  (field? fields name).bind fun f =>
    if isOpen || before.any fun m => m.1.any f.names.contains then some .unsuitable else none

def itemFlaw? (fields : List Field) (items : List Tree) : Option Rejection :=
  (fields.zip items).findSome? fun (f, t) => valueFlaw? f t

/-- What is wrong with a record of which so much was read. -/
def flaw? (fields : List Field) (stack : List Json.Frame) (e : Expect) : Option Rejection :=
  let isOpen := 1 < stack.length
  match stack.getLast?, e with
  | none, .finished (.obj _) => none
  | none, .finished (.arr items) =>
    if (fields.drop items.length).all Field.hasDefault then none else some .unsuitable
  | none, .finished t => some ((valueFlaw? ⟨[], false, true⟩ t).getD .unsuitable)
  | none, _ => none
  | some (.obj before name), _ =>
    (before.reverse.findSome? (memberFlaw? fields)).or (nameFlaw? fields before name isOpen)
  | some (.arr items), e =>
    (itemFlaw? fields items.reverse).or <|
      if items.length < fields.length then if isOpen then some .unsuitable else none
      else if isOpen then some .malformed
      else match e with
        | .value => some .malformed
        | _ => none

/-- Reads on as long as nothing is wrong. -/
def accept (fields : List Field) (state : List Json.Frame × Expect) :
    List Token → Except Rejection (List Json.Frame × Expect)
  | [] => .ok state
  | t :: r =>
    match Json.accept state.1 state.2 t with
    | none => .error .malformed
    | some state =>
      match flaw? fields state.1 state.2 with
      | some flaw => .error flaw
      | none => accept fields state r

def readFrom (fields : List Field) (m : Mode) (state : List Json.Frame × Expect) :
    List Char → Except Rejection Tree
  | [] =>
    match finish m with
    | none => .error .malformed
    | some ts =>
      match accept fields state ts with
      | .error e => .error e
      | .ok (_, .finished t) => .ok t
      | .ok _ => .error .malformed
  | c :: r =>
    match step m c with
    | none => .error .malformed
    | some (m, ts) =>
      match accept fields state ts with
      | .error e => .error e
      | .ok state => readFrom fields m state r

/-- The text of a field, if it was given. -/
def text? (f : Field) (position : Nat) : Tree → Option String
  | .obj members =>
    (members.find? fun m => m.1.any f.names.contains).bind fun m => m.2.string?
  | .arr items => items[position]?.bind Tree.string?
  | _ => none

/-- The texts of the fields of a body. -/
def read (fields : List Field) (body : String) : Except Rejection (List (Option String)) :=
  match readFrom fields .idle ([], .value) body.toList with
  | .error e => .error e
  | .ok t => .ok (fields.zipIdx.map fun (f, k) => text? f k t)

/-- A type names JSON if it is `application/json` or `application/` with the suffix `+json`, in capitals
or not and with any parameters. -/
def isJsonType (type : String) : Bool :=
  let plain := (type.toList.takeWhile (· != ';')).map Char.toLower
  match splitAt '/' plain with
  | [main, sub] =>
    let pieces := splitAt '+' sub
    String.ofList main == "application" &&
      (String.ofList (sub.takeWhile (· != '+')) == "json" && pieces.length ≤ 2 ||
        1 < pieces.length && pieces.head? != some [] && pieces.getLast? == some "json".toList)
  | _ => false

end Body

/-- The body of a request that takes a record. -/
def Request.record (fields : List Field) (r : Request) : Except Rejection (List (Option String)) :=
  if r.contentType.any Body.isJsonType then Body.read fields r.body else .error .mediaType

/-- The query of a request for log lines. -/
structure LogQuery where
  service : Option String := none
  limit : Option Nat := none
  deriving DecidableEq, Repr

/-- A count below 2 to the 64, which may have a plus sign and leading zeros. -/
def count? (s : String) : Option Nat :=
  let ds := match s.toList with
    | '+' :: r => r
    | r => r
  if ds.isEmpty || !ds.all Char.isDigit then none
  else
    let n := Json.digitsValue ds
    if n < UInt64.size then some n else none

/-- A field that is given twice, or a limit that is no count, cannot be read. -/
def LogQuery.ofFields (fields : List (String × String)) : Except Rejection LogQuery :=
  let given (name : String) : List String := (fields.filter fun f => f.1 == name).map Prod.snd
  match given "service", given "limit" with
  | _ :: _ :: _, _ => .error .query
  | _, _ :: _ :: _ => .error .query
  | service, [] => .ok ⟨service.head?, none⟩
  | service, [limit] =>
    match count? limit with
    | some n => .ok ⟨service.head?, some n⟩
    | none => .error .query

end StackDeck.Web
