import StackDeck.Json.Record
import StackDeck.Proofs.Registry

/-!
Records in JSON: what a record holds under each name of its form. The fields of an object that is
written are found again by name, whatever order they are written in; a field of another name is passed
over, and a record that is written as a list holds its items in the order of the names.
-/

namespace StackDeck.Json

variable {key name : String} {v : Json} {fields : List (String × Json)}

/-! ### Objects that are written -/

theorem insertField_eq (key : String) (v : Json) (fs : List (String × Json)) :
    insertField key v fs = Registry.insertEntry key v fs := by
  induction fs with
  | nil => rfl
  | cons f r ih => rw [insertField, Registry.insertEntry, ih]

/-- An object holds its fields as a registry holds things by name. -/
theorem object_eq (fields : List (String × Json)) : object fields = .obj (Registry.ofList fields).entries := by
  have hfold : fields.foldl (fun acc f => insertField f.1 f.2 acc) [] = (Registry.ofList fields).entries := by
    induction fields using List.reverseRecOn with
    | nil => rfl
    | append_singleton r f ih =>
      rw [Registry.ofList, List.foldl_append, List.foldl_append, ih]
      exact insertField_eq f.1 f.2 _
  rw [object, hfold]

theorem treeFields_eq (fields : List (String × Json)) :
    treeFields fields = fields.map fun f => (some f.1, f.2.tree) := by
  induction fields with
  | nil => rw [treeFields, List.map_nil]
  | cons f r ih => rw [treeFields, List.map_cons, ih]

namespace Tree

/-! ### Fields found by name -/

theorem slot?_perm {fs gs : List (Option String × Tree)} (h : fs.Perm gs) (name : String) :
    slot? fs name = slot? gs name := by
  have hf : (fs.filter fun f => f.1 == some name).Perm (gs.filter fun f => f.1 == some name) := h.filter _
  rw [slot?, slot?]
  generalize (fs.filter fun f => f.1 == some name) = xs at hf ⊢
  generalize (gs.filter fun f => f.1 == some name) = ys at hf ⊢
  match xs, ys with
  | [], ys => rw [List.nil_perm.mp hf]
  | [f], ys => rw [List.singleton_perm.mp hf]
  | f :: g :: r, [] => exact absurd hf.length_eq (by simp)
  | f :: g :: r, [y] => exact absurd hf.length_eq (by simp)
  | f :: g :: r, y :: z :: s => rfl

theorem keys_optionalField {α : Type} (f : α → Json) (o : Option α) :
    (optionalField key f o).map Prod.fst = if o.isSome then [key] else [] := by
  cases o <;> rfl

/-- What a written object holds under a name. -/
def slotOf (fields : List (String × Json)) (name : String) : Slot :=
  match fields.find? fun f => f.1 == name with
  | some f => .given f.2.tree
  | none => .absent

theorem slot?_absent {fs : List (Option String × Tree)} (h : ∀ f ∈ fs, f.1 ≠ some name) :
    slot? fs name = some .absent := by
  rw [slot?, List.filter_eq_nil_iff.mpr fun f hf => by simpa using h f hf]

theorem slot?_treeFields (h : (fields.map Prod.fst).Nodup) (name : String) :
    slot? (treeFields fields) name = some (slotOf fields name) := by
  induction fields with
  | nil => rfl
  | cons f r ih =>
    rw [List.map_cons, List.nodup_cons] at h
    rw [treeFields_eq, List.map_cons, ← treeFields_eq, slotOf]
    by_cases hname : f.1 = name
    · have hnone : (treeFields r).filter (fun f => f.1 == some name) = [] := by
        rw [List.filter_eq_nil_iff, treeFields_eq]
        intro g hg
        obtain ⟨e, he, rfl⟩ := List.mem_map.mp hg
        have hne : e.1 ≠ name := fun hen => h.1 (hname ▸ hen ▸ List.mem_map_of_mem he)
        simpa using hne
      rw [List.find?_cons_of_pos (by simpa using hname), slot?, List.filter_cons_of_pos (by simpa using hname), hnone]
    · rw [List.find?_cons_of_neg (by simpa using hname), slot?, List.filter_cons_of_neg (by simpa using hname)]
      exact ih h.2

theorem mapM_some {α β : Type} (f : α → β) (xs : List α) : xs.mapM (fun a => some (f a)) = some (xs.map f) := by
  induction xs with
  | nil => rfl
  | cons a r ih => rw [List.mapM_cons, ih]; rfl

/-- The slots of a written object are its fields. -/
theorem slots?_object (h : (fields.map Prod.fst).Nodup) (names : List String) :
    slots? names (object fields).tree = some (names.map (slotOf fields)) := by
  have htree : (treeFields (Registry.ofList fields).entries).Perm (treeFields fields) := by
    rw [treeFields_eq, treeFields_eq]
    exact (Registry.ofList_perm h).map _
  have hkeys (fs : List (String × Json)) : ((treeFields fs).any fun f => f.1.isNone) = false := by
    rw [treeFields_eq, List.any_map]
    exact List.any_eq_false.mpr fun f _ => Bool.false_ne_true
  have hslot : slot? (treeFields (Registry.ofList fields).entries) = fun name => some (slotOf fields name) :=
    funext fun name => (slot?_perm htree name).trans (slot?_treeFields h name)
  rw [object_eq, tree, slots?, hkeys, if_neg Bool.false_ne_true, hslot, mapM_some]

/-! ### Fields that nothing reads, and fields that may be missing -/

variable {front back : List (Option String × Tree)} {u : Tree} {names : List String}

theorem slot?_other (h : key ≠ name) : slot? (front ++ (some key, u) :: back) name = slot? (front ++ back) name := by
  rw [slot?, slot?, List.filter_append, List.filter_append, List.filter_cons_of_neg (by simpa using h)]

theorem slot?_self (h : ∀ f ∈ front ++ back, f.1 ≠ some key) :
    slot? (front ++ (some key, u) :: back) key = some (.given u) := by
  have hnone : ((front ++ back).filter fun f => f.1 == some key) = [] :=
    List.filter_eq_nil_iff.mpr fun f hf => by simpa using h f hf
  rw [List.filter_append, List.append_eq_nil_iff] at hnone
  rw [slot?, List.filter_append, List.filter_cons_of_pos (by simp), hnone.1, hnone.2]
  rfl

theorem mapM_slot?_other (h : key ∉ names) :
    names.mapM (slot? (front ++ (some key, u) :: back)) = names.mapM (slot? (front ++ back)) := by
  induction names with
  | nil => rfl
  | cons n r ih =>
    rw [List.mapM_cons, List.mapM_cons, slot?_other fun hk : key = n => h (hk ▸ List.mem_cons_self),
      ih fun hk => h (List.mem_cons_of_mem n hk)]

theorem any_isNone_other :
    ((front ++ (some key, u) :: back).any fun f => f.1.isNone) = (front ++ back).any fun f => f.1.isNone := by
  rw [List.any_append, List.any_append, List.any_cons]
  rfl

/-- A field of another name changes nothing. -/
theorem slots?_other (h : key ∉ names) :
    slots? names (.obj (front ++ (some key, u) :: back)) = slots? names (.obj (front ++ back)) := by
  rw [slots?, slots?, mapM_slot?_other h, any_isNone_other]

theorem slots?_obj {fs : List (Option String × Tree)} {slots : List Slot} (h : slots? names (.obj fs) = some slots) :
    names.mapM (slot? fs) = some slots := by
  rw [slots?] at h
  split at h
  · exact absurd h nofun
  · exact h

theorem mapM_slot?_missing {fs : List (Option String × Tree)} {slots : List Slot} (hfs : ∀ f ∈ fs, f.1 ≠ some key)
    (h : names.mapM (slot? fs) = some slots) : slots.set (names.idxOf key) .absent = slots := by
  induction names generalizing slots with
  | nil =>
    obtain rfl := Option.some.inj h
    rfl
  | cons n r ih =>
    simp only [List.mapM_cons, Option.bind_eq_bind, Option.bind_eq_some_iff] at h
    obtain ⟨s, hs, rest, hrest, hslots⟩ := h
    obtain rfl := Option.some.inj hslots
    by_cases hkey : n = key
    · subst hkey
      rw [slot?_absent hfs] at hs
      rw [List.idxOf_cons_self, List.set_cons_zero, Option.some.inj hs]
    · rw [List.idxOf_cons_ne r hkey, List.set_cons_succ, ih hrest]

/-- A missing field is absent. -/
theorem slots?_missing {fs : List (Option String × Tree)} {slots : List Slot}
    (h : slots? names (.obj fs) = some slots) (hfs : ∀ f ∈ fs, f.1 ≠ some key) :
    slots.set (names.idxOf key) .absent = slots := mapM_slot?_missing hfs (slots?_obj h)

/-- One more field gives its name a value. -/
theorem slots?_added (hn : names.Nodup) (hkey : key ∈ names) (h : ∀ f ∈ front ++ back, f.1 ≠ some key) :
    slots? names (.obj (front ++ (some key, u) :: back)) =
      (slots? names (.obj (front ++ back))).map fun slots => slots.set (names.idxOf key) (.given u) := by
  have hslot : names.mapM (slot? (front ++ (some key, u) :: back)) =
      (names.mapM (slot? (front ++ back))).map fun slots => slots.set (names.idxOf key) (.given u) := by
    induction names with
    | nil => exact absurd hkey List.not_mem_nil
    | cons n r ih =>
      rw [List.nodup_cons] at hn
      rw [List.mapM_cons, List.mapM_cons]
      by_cases hnk : n = key
      · subst hnk
        rw [mapM_slot?_other hn.1, slot?_self h, slot?_absent h, List.idxOf_cons_self]
        cases r.mapM (slot? (front ++ back)) <;> rfl
      · rw [slot?_other (Ne.symm hnk), ih hn.2 ((List.mem_cons.mp hkey).resolve_left (Ne.symm hnk)),
          List.idxOf_cons_ne r hnk]
        cases slot? (front ++ back) n <;> cases r.mapM (slot? (front ++ back)) <;> rfl
  rw [slots?, slots?, hslot, any_isNone_other]
  split <;> rfl

/-! ### What a record holds -/

/-- What a tree holds under a name of its form: the field of an object, or the item of a list that stands in
the place of the name. -/
def holds? (names : List String) (name : String) : Tree → Option Tree
  | .obj fields => (fields.find? fun f => f.1 == some name).map Prod.snd
  | .arr items => items[names.idxOf name]?
  | _ => none

def Slot.given? : Slot → Option Tree
  | .given t => some t
  | _ => none

theorem slot?_given {fs : List (Option String × Tree)} {s : Slot} (h : slot? fs name = some s) :
    s.given? = (fs.find? fun f => f.1 == some name).map Prod.snd := by
  rw [slot?] at h
  rw [← List.head?_filter]
  split at h
  next hf =>
    obtain rfl := Option.some.inj h
    rw [hf]
    rfl
  next hf =>
    obtain rfl := Option.some.inj h
    rw [hf]
    rfl
  next => exact absurd h nofun

theorem positions_given (hn : names.Nodup) (items : List Tree) :
    (positions names items).map Slot.given? = names.map fun name => items[names.idxOf name]? := by
  induction names generalizing items with
  | nil => rfl
  | cons n r ih =>
    rw [List.nodup_cons] at hn
    have hshift (items : List Tree) (t : List Tree) (ht : items.tail = t) :
        (r.map fun name => items[(n :: r).idxOf name]?) = r.map fun name => t[r.idxOf name]? := by
      refine List.map_congr_left fun name hname => ?_
      have hne : (n == name) = false := beq_eq_false_iff_ne.mpr fun hnn => hn.1 (hnn ▸ hname)
      rw [List.idxOf_cons, hne, cond_false, ← ht, List.getElem?_tail]
    have hfirst : (n :: r).idxOf n = 0 := List.idxOf_cons_self
    cases items with
    | nil =>
      rw [positions, List.map_cons, List.map_cons, hfirst, ih hn.2, hshift [] [] rfl]
      rfl
    | cons t items =>
      rw [positions, List.map_cons, List.map_cons, hfirst, ih hn.2, hshift (t :: items) items rfl]
      rfl

theorem mapM_slot?_given {fs : List (Option String × Tree)} {slots : List Slot}
    (h : names.mapM (slot? fs) = some slots) :
    slots.map Slot.given? = names.map fun name => (fs.find? fun f => f.1 == some name).map Prod.snd := by
  induction names generalizing slots with
  | nil =>
    obtain rfl := Option.some.inj h
    rfl
  | cons n r ih =>
    simp only [List.mapM_cons, Option.bind_eq_bind, Option.bind_eq_some_iff] at h
    obtain ⟨s, hs, rest, hrest, hslots⟩ := h
    obtain rfl := Option.some.inj hslots
    rw [List.map_cons, List.map_cons, slot?_given hs, ih hrest]

/-- The slots of a record are what it holds under the names. -/
theorem slots?_given {t : Tree} {slots : List Slot} (hn : names.Nodup) (h : slots? names t = some slots) :
    slots.map Slot.given? = names.map fun name => t.holds? names name := by
  cases t with
  | obj fields => exact mapM_slot?_given (slots?_obj h)
  | arr items =>
    rw [slots?] at h
    split at h
    · exact absurd h nofun
    · obtain rfl := Option.some.inj h
      exact positions_given hn items
  | null => exact absurd h nofun
  | bool => exact absurd h nofun
  | num => exact absurd h nofun
  | str => exact absurd h nofun

theorem slots?_length {t : Tree} {slots : List Slot} (hn : names.Nodup) (h : slots? names t = some slots) :
    slots.length = names.length := by
  have hmap := congrArg List.length (slots?_given hn h)
  rwa [List.length_map, List.length_map] at hmap

/-! ### Tagged records -/

theorem valueFields?_isSome {depth : Nat} {fs : List (Option String × Tree)} :
    (valueFields? depth fs).isSome = true ↔ ∀ f ∈ fs, f.1.isSome = true ∧ (f.2.value? depth).isSome = true := by
  induction fs with
  | nil => exact iff_of_true rfl nofun
  | cons f r ih =>
    obtain ⟨key, t⟩ := f
    rw [List.forall_mem_cons, ← ih, valueFields?]
    cases key <;> cases t.value? depth <;> cases valueFields? depth r <;> simp

theorem isSound_obj {fs : List (Option String × Tree)} :
    (Tree.obj fs).isSound = true ↔ ∀ f ∈ fs, f.1.isSome = true ∧ (f.2.value? (depthLimit - 1)).isSome = true := by
  rw [← valueFields?_isSome, isSound, depthLimit, value?, Option.isSome_map]

/-- A sound field of another name keeps a sound object sound. -/
theorem isSound_other (hu : (u.value? (depthLimit - 1)).isSome = true) (h : (Tree.obj (front ++ back)).isSound = true) :
    (Tree.obj (front ++ (some key, u) :: back)).isSound = true := by
  rw [isSound_obj] at h ⊢
  intro f hf
  rcases List.mem_append.mp hf with hf | hf
  · exact h f (List.mem_append_left back hf)
  · rcases List.mem_cons.mp hf with rfl | hf
    · exact ⟨rfl, hu⟩
    · exact h f (List.mem_append_right front hf)

theorem filter_other {p : Option String × Tree → Bool} (h : p (some key, u) = true) :
    (front ++ (some key, u) :: back).filter p = front.filter p ++ (some key, u) :: back.filter p := by
  rw [List.filter_append, List.filter_cons_of_pos h]

/-- A field that is not the tag stays in the rest of a tagged record. -/
theorem tagged?_other {kind : String} {rest : Tree} (hkey : key ≠ "type")
    (h : (Tree.obj (front ++ back)).tagged? = some (kind, rest)) :
    ∃ front' back', rest = .obj (front' ++ back') ∧
      (Tree.obj (front ++ (some key, u) :: back)).tagged? = some (kind, .obj (front' ++ (some key, u) :: back')) := by
  have htag : (front ++ (some key, u) :: back).filter (fun f => f.1 == some "type") =
      (front ++ back).filter fun f => f.1 == some "type" := by
    rw [List.filter_append, List.filter_append, List.filter_cons_of_neg (by simpa using hkey)]
  have hrest : (front ++ (some key, u) :: back).filter (fun f => f.1 != some "type") =
      front.filter (fun f => f.1 != some "type") ++ (some key, u) :: back.filter fun f => f.1 != some "type" :=
    filter_other (by simpa using hkey)
  simp only [tagged?, untag?, Option.bind_eq_bind, Option.bind_eq_some_iff] at h ⊢
  obtain ⟨⟨tag, r⟩, huntag, kind', hkind, hout⟩ := h
  obtain ⟨rfl, rfl⟩ := Prod.mk.inj (Option.some.inj hout)
  split at huntag
  next name tag' hf =>
    obtain ⟨rfl, rfl⟩ := Prod.mk.inj (Option.some.inj huntag)
    refine ⟨front.filter (fun f => f.1 != some "type"), back.filter (fun f => f.1 != some "type"),
      by rw [List.filter_append], ?_⟩
    rw [htag, hf, ← hrest]
    exact ⟨_, rfl, kind', hkind, rfl⟩
  next => exact absurd huntag nofun

/-! ### Values of fields -/

/-- Whether something other than null is there. -/
def isGiven (t : Option Tree) : Bool := t.any fun u => !u.isNull

theorem Slot.nullable_isSome {α : Type} {read : Tree → Option α} {t : Tree} {o : Option α}
    (h : Slot.nullable read t = some o) : o.isSome = isGiven (some t) := by
  rw [Slot.nullable] at h
  split at h
  next ht =>
    obtain rfl := Option.some.inj h
    simp [isGiven, ht]
  next ht =>
    obtain ⟨a, -, rfl⟩ := Option.map_eq_some_iff.mp h
    simp [isGiven, ht]

theorem Slot.optionalAnywhere_isSome {α : Type} {read : Tree → Option α} {s : Slot} {o : Option α}
    (h : s.optionalAnywhere read = some o) : o.isSome = isGiven s.given? := by
  cases s with
  | given t => exact Slot.nullable_isSome h
  | absent => rw [← Option.some.inj h]; rfl
  | cut => rw [← Option.some.inj h]; rfl

theorem Slot.optional_isSome {α : Type} {read : Tree → Option α} {s : Slot} {o : Option α}
    (h : s.optional read = some o) : o.isSome = isGiven s.given? := by
  cases s with
  | given t => exact Slot.nullable_isSome h
  | absent => rw [← Option.some.inj h]; rfl
  | cut => exact absurd h nofun

theorem natBelow?_nat {limit n : Nat} (h : n < limit) : natBelow? limit (nat n).tree = some n := by
  simp [nat, tree, natBelow?, h]

@[simp] theorem uint16?_nat (n : UInt16) : uint16? (nat n.toNat).tree = some n := by
  rw [uint16?, natBelow?_nat n.toNat_lt, Option.map_some, UInt16.ofNat_toNat]

@[simp] theorem uint32?_nat (n : UInt32) : uint32? (nat n.toNat).tree = some n := by
  rw [uint32?, natBelow?_nat n.toNat_lt, Option.map_some, UInt32.ofNat_toNat]

@[simp] theorem uint64?_nat (n : UInt64) : uint64? (nat n.toNat).tree = some n := by
  rw [uint64?, natBelow?_nat n.toNat_lt, Option.map_some, UInt64.ofNat_toNat]

@[simp] theorem string?_str (s : String) : string? (Json.str s).tree = some s := rfl

@[simp] theorem boolean?_bool (b : Bool) : boolean? (Json.bool b).tree = some b := rfl

@[simp] theorem isNull_str (s : String) : (Json.str s).tree.isNull = false := by
  rw [tree, isNull]
  simp

@[simp] theorem isNull_nat (n : Nat) : (nat n).tree.isNull = false := by
  rw [nat, tree, isNull]
  simp

namespace Slot

variable {α : Type} {read : Tree → Option α} {t : Tree}

@[simp] theorem required_given : (Slot.given t).required read = read t := rfl

@[simp] theorem withDefault_given {a : α} : (Slot.given t).withDefault a read = read t := rfl

@[simp] theorem optional_absent : Slot.absent.optional read = some none := rfl

@[simp] theorem optional_given (h : t.isNull = false) : (Slot.given t).optional read = (read t).map some := by
  rw [optional, nullable, h, if_neg Bool.false_ne_true]

@[simp] theorem optionalAnywhere_absent : Slot.absent.optionalAnywhere read = some none := rfl

@[simp] theorem optionalAnywhere_given (h : t.isNull = false) :
    (Slot.given t).optionalAnywhere read = (read t).map some := by
  rw [optionalAnywhere, nullable, h, if_neg Bool.false_ne_true]

end Slot

end Tree

end StackDeck.Json
