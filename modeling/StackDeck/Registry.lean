namespace StackDeck

/-- Things by name, in the order of their names, each name once. -/
structure Registry (α : Type) where
  entries : List (String × α) := []
  deriving DecidableEq, Repr

namespace Registry

variable {α β : Type}

def insertEntry (name : String) (a : α) : List (String × α) → List (String × α)
  | [] => [(name, a)]
  | e :: r =>
    if name < e.1 then (name, a) :: e :: r
    else if name == e.1 then (name, a) :: r
    else e :: insertEntry name a r

/-- Adds an entry in place of one of the same name. -/
def insert (name : String) (a : α) (g : Registry α) : Registry α := ⟨insertEntry name a g.entries⟩

def erase (name : String) (g : Registry α) : Registry α := ⟨g.entries.filter fun e => e.1 != name⟩

def get? (name : String) (g : Registry α) : Option α := g.entries.lookup name

def contains (name : String) (g : Registry α) : Bool := (g.get? name).isSome

def names (g : Registry α) : List String := g.entries.map Prod.fst

def size (g : Registry α) : Nat := g.entries.length

def ofList (named : List (String × α)) : Registry α :=
  named.foldl (fun g e => g.insert e.1 e.2) {}

def map (f : α → β) (g : Registry α) : Registry β := ⟨g.entries.map fun e => (e.1, f e.2)⟩

/-- Changes the entry of a name, if there is one. -/
def modify (name : String) (f : α → α) (g : Registry α) : Registry α :=
  ⟨g.entries.map fun e => if e.1 == name then (e.1, f e.2) else e⟩

end Registry

end StackDeck
