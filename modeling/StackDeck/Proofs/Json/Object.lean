import StackDeck.Proofs.Json.Record

/-!
Records that are read out of JSON values. A value that names no field twice is read field by field, and a tagged one is split
into its kind and its other fields, in whatever order the fields are written.
-/

namespace StackDeck.Json

open StackDeck.Json.Tree

variable {v : Json} {name : String} {fields : List (String × Json)} {α : Type} {read : Tree → Option α}

def isObject : Json → Bool
  | .obj _ => true
  | _ => false

/-- Values that are no list, and name no field twice. -/
def ByName : Json → Prop
  | .arr _ => False
  | .obj fields => (fields.map Prod.fst).Nodup
  | _ => True

/-- The kind of a tagged record, where it is a name. -/
def kindOf? (v : Json) : Option String := (v.field? "type").bind str?

/-- Values that are read as tagged records by name. A number may stand for the place of a kind, so it is no tag here. -/
structure IsTagged (v : Json) : Prop where
  byName : v.ByName
  tag : ∀ n, v.field? "type" ≠ some (.num n)

/-- The fields of a tagged record but for its tag. -/
def untyped : Json → Json
  | .obj fields => .obj (fields.filter fun f => f.1 != "type")
  | v => v

/-- What a field gives to the reader of a record. -/
def slotFor : Option Json → Slot
  | some w => .given w.tree
  | none => .absent

/-! ### Fields by name -/

theorem slotOf_eq (fields : List (String × Json)) (name : String) :
    slotOf fields name = slotFor ((Json.obj fields).field? name) := by
  simp only [slotOf, field?]
  cases fields.find? fun f => f.1 == name <;> rfl

theorem anyKey_treeFields (fields : List (String × Json)) : ((treeFields fields).any fun f => f.1.isNone) = false := by
  rw [treeFields_eq, List.any_map]
  exact List.any_eq_false.mpr fun f _ => Bool.false_ne_true

/-- A value is read as a record if it is an object. -/
theorem slots?_tree (h : v.ByName) (names : List String) :
    slots? names v.tree = if v.isObject then some (names.map fun name => slotFor (v.field? name)) else none := by
  cases v with
  | obj fields =>
    have hslot : slot? (treeFields fields) = fun name => some (slotFor ((Json.obj fields).field? name)) := by
      funext name
      rw [slot?_treeFields h, slotOf_eq]
    simp only [tree, slots?, anyKey_treeFields, hslot, mapM_some, isObject]
    rfl
  | arr items => exact h.elim
  | _ => rfl

theorem required_slotFor (field : Option Json) : (slotFor field).required read = field.bind fun w => read w.tree := by
  cases field <;> rfl

theorem withDefault_slotFor (a : α) (field : Option Json) :
    (slotFor field).withDefault a read = field.elim (some a) fun w => read w.tree := by
  cases field <;> rfl

theorem optionalAnywhere_slotFor (field : Option Json) :
    (slotFor field).optionalAnywhere read = field.elim (some none) fun w => Slot.nullable read w.tree := by
  cases field <;> rfl

/-! ### Tags -/

theorem isObject_untyped (v : Json) : v.untyped.isObject = v.isObject := by
  cases v <;> rfl

theorem ByName.untyped (h : v.ByName) : v.untyped.ByName := by
  cases v with
  | obj fields => exact h.sublist (List.filter_sublist.map Prod.fst)
  | _ => exact h

theorem field?_untyped (h : name ≠ "type") (v : Json) : v.untyped.field? name = v.field? name := by
  cases v with
  | obj fields =>
    have hsame : (fun f : String × Json => decide ((f.1 != "type") = true ∧ (f.1 == name) = true)) =
        fun f => f.1 == name := by
      funext f
      by_cases hname : f.1 = name
      · simp [hname, h]
      · simp [hname]
    simp only [Json.untyped, field?, List.find?_filter, hsame]
  | _ => rfl

theorem untag?_obj {fs : List (Option String × Tree)} {slot : Slot} (h : slot? fs "type" = some slot) :
    untag? (.obj fs) = slot.given?.map fun tag => (tag, .obj (fs.filter fun f => f.1 != some "type")) := by
  rw [slot?] at h
  rw [untag?]
  split at h
  next hnone =>
    cases h
    rw [hnone]
    rfl
  next hone =>
    cases h
    rw [hone]
    rfl
  next => cases h

theorem tree_untyped (fields : List (String × Json)) :
    (Json.obj fields).untyped.tree = .obj ((treeFields fields).filter fun f => f.1 != some "type") := by
  simp only [untyped, tree, treeFields_eq, List.filter_map, Function.comp_def, bne, Option.some_beq_some]

/-- The tag of a value that is read as a tagged record. -/
theorem untag?_tree (h : v.ByName) : untag? v.tree = (v.field? "type").map fun tag => (tag.tree, v.untyped.tree) := by
  cases v with
  | obj fields =>
    have hslot : slot? (treeFields fields) "type" = some (slotFor ((Json.obj fields).field? "type")) := by
      rw [slot?_treeFields h, slotOf_eq]
    rw [tree, untag?_obj hslot, ← tree_untyped]
    cases (Json.obj fields).field? "type" <;> rfl
  | arr items => exact h.elim
  | _ => rfl

theorem tagged?_tree (h : v.ByName) : v.tree.tagged? = v.kindOf?.map fun kind => (kind, v.untyped.tree) := by
  rw [tagged?, untag?_tree h, kindOf?]
  cases v.field? "type" with
  | none => rfl
  | some w => cases w <;> rfl

theorem isObject_of_field? {w : Json} (h : v.field? name = some w) : v.isObject = true := by
  cases v with
  | obj fields => rfl
  | _ => cases h

theorem isObject_of_kindOf? {kind : String} (h : v.kindOf? = some kind) : v.isObject = true := by
  obtain ⟨w, hw, -⟩ := Option.bind_eq_some_iff.mp h
  exact isObject_of_field? hw

theorem slots?_untyped {kind : String} (h : v.ByName) (hkind : v.kindOf? = some kind) {names : List String}
    (hnames : "type" ∉ names) :
    slots? names v.untyped.tree = some (names.map fun name => slotFor (v.field? name)) := by
  have hobject : v.untyped.isObject = true := by rw [isObject_untyped, isObject_of_kindOf? hkind]
  rw [slots?_tree h.untyped, if_pos hobject]
  refine congrArg some (List.map_congr_left fun name hname => ?_)
  have hne : name ≠ "type" := fun heq => hnames (heq ▸ hname)
  rw [field?_untyped hne]

theorem isUnit_untyped {kind : String} (hkind : v.kindOf? = some kind) : v.untyped.tree.isUnit = true := by
  have hobject := isObject_of_kindOf? hkind
  cases v with
  | obj fields => rfl
  | _ => cases hobject

/-! ### Values of sound trees -/

mutual

theorem exists_tree {t : Tree} {depth : Nat} {w : Json} (h : t.value? depth = some w) : ∃ v : Json, v.tree = t := by
  cases t with
  | null => exact ⟨.null, rfl⟩
  | bool b => exact ⟨.bool b, rfl⟩
  | num n =>
    cases n with
    | some n => exact ⟨.num n, rfl⟩
    | none => cases h
  | str s =>
    cases s with
    | some s => exact ⟨.str s, rfl⟩
    | none => cases h
  | arr items =>
    cases depth with
    | zero => cases h
    | succ depth =>
      obtain ⟨ws, hws, -⟩ := Option.map_eq_some_iff.mp h
      obtain ⟨vs, rfl⟩ := exists_treeItems hws
      exact ⟨.arr vs, rfl⟩
  | obj fields =>
    cases depth with
    | zero => cases h
    | succ depth =>
      obtain ⟨ws, hws, -⟩ := Option.map_eq_some_iff.mp h
      obtain ⟨vs, rfl⟩ := exists_treeFields hws
      exact ⟨.obj vs, rfl⟩

theorem exists_treeItems {ts : List Tree} {depth : Nat} {ws : List Json} (h : valueItems? depth ts = some ws) :
    ∃ vs, treeItems vs = ts := by
  cases ts with
  | nil => exact ⟨[], rfl⟩
  | cons t r =>
    obtain ⟨w, hw, hrest⟩ := Option.bind_eq_some_iff.mp h
    obtain ⟨ws, hws, -⟩ := Option.bind_eq_some_iff.mp hrest
    obtain ⟨v, rfl⟩ := exists_tree hw
    obtain ⟨vs, rfl⟩ := exists_treeItems hws
    exact ⟨v :: vs, rfl⟩

theorem exists_treeFields {fs : List (Option String × Tree)} {depth : Nat} {ws : List (String × Json)}
    (h : valueFields? depth fs = some ws) : ∃ vs, treeFields vs = fs := by
  cases fs with
  | nil => exact ⟨[], rfl⟩
  | cons f r =>
    obtain ⟨key, t⟩ := f
    obtain ⟨name, rfl, hvalue⟩ := Option.bind_eq_some_iff.mp h
    obtain ⟨w, hw, hrest⟩ := Option.bind_eq_some_iff.mp hvalue
    obtain ⟨ws, hws, -⟩ := Option.bind_eq_some_iff.mp hrest
    obtain ⟨v, rfl⟩ := exists_tree hw
    obtain ⟨vs, rfl⟩ := exists_treeFields hws
    exact ⟨(name, v) :: vs, rfl⟩

end

/-- What a sound tree was written for. -/
theorem exists_tree_of_isSound {t : Tree} (h : t.isSound = true) : ∃ v : Json, v.tree = t := by
  obtain ⟨w, hw⟩ := Option.isSome_iff_exists.mp h
  exact exists_tree hw

end StackDeck.Json
