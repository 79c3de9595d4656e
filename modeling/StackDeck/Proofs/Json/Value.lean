import StackDeck.Proofs.Json.Record
import StackDeck.Proofs.Json.Text

/-!
The text of a value read strictly. A value whose objects hold their fields by name is what its text is read as, at every depth that
its containers need, and the text has no control character in it: line ends are always escaped.
-/

namespace StackDeck.Json

variable {v : Json} {c : Char}

mutual

/-- How deep the containers of a value are nested. -/
def nesting : Json → Nat
  | .arr items => nestingItems items + 1
  | .obj fields => nestingFields fields + 1
  | _ => 0

def nestingItems : List Json → Nat
  | [] => 0
  | v :: r => max v.nesting (nestingItems r)

def nestingFields : List (String × Json) → Nat
  | [] => 0
  | (_, v) :: r => max v.nesting (nestingFields r)

end

mutual

/-- A value whose objects hold their fields by ascending names. -/
def IsSorted : Json → Prop
  | .arr items => IsSortedItems items
  | .obj fields => fields.Pairwise (fun f g => f.1 < g.1) ∧ IsSortedFields fields
  | _ => True

def IsSortedItems : List Json → Prop
  | [] => True
  | v :: r => v.IsSorted ∧ IsSortedItems r

def IsSortedFields : List (String × Json) → Prop
  | [] => True
  | (_, v) :: r => v.IsSorted ∧ IsSortedFields r

end

/-- Values as JSON has them: whole numbers of 64 bits, decimals in their shortest form, and fields by ascending names. -/
structure IsProper (v : Json) : Prop where
  exact : v.IsExact
  sorted : v.IsSorted

/-- The text holds this value: it is read as the value by every strict reader that goes as deep as the value does. -/
def Holds (text : String) (v : Json) : Prop :=
  ∀ depth, v.nesting ≤ depth → (Tree.parse? text.toList).bind (Tree.value? depth) = some v

/-! ### Fields by name -/

theorem object_sorted {fields : List (String × Json)} (h : fields.Pairwise fun f g => f.1 < g.1) :
    object fields = .obj fields := by
  have hdistinct : (fields.map Prod.fst).Nodup := List.pairwise_map.mpr (h.imp fun hlt => hlt.ne)
  have hsame : (Registry.ofList fields).entries = fields :=
    (Registry.ofList_perm hdistinct).eq_of_pairwise (fun f g _ _ hfg hgf => absurd hfg hgf.asymm) (Registry.Sorted.ofList fields) h
  rw [object_eq, hsame]

/-! ### The strict reading -/

mutual

/-- A sorted value is what its tree stands for. -/
theorem value?_tree {depth : Nat} (v : Json) (hv : v.IsSorted) (hd : v.nesting ≤ depth) : v.tree.value? depth = some v := by
  match v with
  | .null => rfl
  | .bool b => rfl
  | .num n => rfl
  | .str s => rfl
  | .arr items =>
    cases depth with
    | zero => exact absurd hd (Nat.not_succ_le_zero _)
    | succ depth => rw [tree, Tree.value?, valueItems?_tree items hv (Nat.le_of_succ_le_succ hd), Option.map_some]
  | .obj fields =>
    cases depth with
    | zero => exact absurd hd (Nat.not_succ_le_zero _)
    | succ depth =>
      rw [tree, Tree.value?, valueFields?_tree fields hv.2 (Nat.le_of_succ_le_succ hd), Option.map_some,
        object_sorted hv.1]

theorem valueItems?_tree {depth : Nat} (items : List Json) (h : IsSortedItems items) (hd : nestingItems items ≤ depth) :
    valueItems? depth (treeItems items) = some items := by
  match items with
  | [] => rfl
  | v :: r =>
    obtain ⟨hfirst, hrest⟩ := Nat.max_le.mp hd
    rw [treeItems, valueItems?, value?_tree v h.1 hfirst, valueItems?_tree r h.2 hrest]
    rfl

theorem valueFields?_tree {depth : Nat} (fields : List (String × Json)) (h : IsSortedFields fields)
    (hd : nestingFields fields ≤ depth) : valueFields? depth (treeFields fields) = some fields := by
  match fields with
  | [] => rfl
  | (key, v) :: r =>
    obtain ⟨hfirst, hrest⟩ := Nat.max_le.mp hd
    rw [treeFields, valueFields?, value?_tree v h.1 hfirst, valueFields?_tree r h.2 hrest]
    rfl

end

/-- What is written for a value is read as the value. -/
theorem holds_render (h : v.IsProper) : Holds v.render v := by
  intro depth hd
  rw [render, String.toList_ofList, parse?_render h.exact, Option.bind_some, value?_tree v h.sorted hd]

/-! ### No control characters -/

theorem space_le_of_all {l : List Char} (hl : (l.all fun d => decide (0x20 ≤ d.toNat)) = true) (h : c ∈ l) :
    0x20 ≤ c.toNat :=
  decide_eq_true_eq.mp (List.all_eq_true.mp hl c h)

theorem space_le_of_isNumberChar (h : isNumberChar c = true) : 0x20 ≤ c.toNat := by
  simp only [isNumberChar, Bool.or_eq_true, beq_iff_eq] at h
  rcases h with ((((hd | rfl) | rfl) | rfl) | rfl) | rfl
  · have := toNat_of_isDigit hd
    omega
  all_goals decide

theorem isNumberChar_of_mem_decimal {negative : Bool} {m : Nat} {e : Int} (h : c ∈ renderDecimal negative m e) :
    isNumberChar c = true := by
  have hbody : ∀ d ∈ renderDecimal false m e, isNumberChar d = true := by
    by_cases hm : m = 0
    · obtain rfl := hm
      exact List.all_eq_true.mp rfl
    · obtain ⟨l, -, hl⟩ := exists_layout (e := e) fun hz => absurd hz hm
      rw [hl]
      exact l.isNumberChar_of_mem_chars
  rw [renderDecimal_eq] at h
  cases negative with
  | false => exact hbody c h
  | true =>
    rcases List.mem_cons.mp h with rfl | h
    · rfl
    · exact hbody c h

theorem space_le_of_mem_number {n : Number} (h : c ∈ n.render) : 0x20 ≤ c.toNat := by
  cases n with
  | int x => exact space_le_of_isNumberChar (isNumberChar_of_mem_int x c h)
  | decimal negative m e => exact space_le_of_isNumberChar (isNumberChar_of_mem_decimal h)

theorem space_le_hexChar {n : Nat} (h : n < 16) : 0x20 ≤ (hexChar n).toNat := by
  have hall : ∀ i : Fin 16, 0x20 ≤ (hexChar i).toNat := by decide
  exact hall ⟨n, h⟩

theorem space_le_of_mem_escapeChar {d : Char} (h : c ∈ escapeChar d) : 0x20 ≤ c.toNat := by
  rw [escapeChar.eq_def] at h
  split at h
  iterate 7 exact space_le_of_all rfl h
  split at h
  next hcode =>
    simp only [List.mem_cons, List.not_mem_nil, or_false] at h
    rcases h with rfl | rfl | rfl | rfl | rfl | rfl
    iterate 4 decide
    · exact space_le_hexChar (by omega)
    · exact space_le_hexChar (by omega)
  next hcode =>
    rw [List.mem_singleton.mp h]
    exact Nat.not_lt.mp hcode

theorem space_le_of_mem_string {s : String} (h : c ∈ renderString s) : 0x20 ≤ c.toNat := by
  rw [renderString, List.mem_cons, List.mem_append, List.mem_singleton] at h
  rcases h with rfl | h | rfl
  · decide
  · obtain ⟨d, -, hd⟩ := List.mem_flatMap.mp h
    exact space_le_of_mem_escapeChar hd
  · decide

mutual

/-- Nothing that is written for a value is a control character. -/
theorem space_le_of_mem_render (v : Json) (h : c ∈ renderChars v) : 0x20 ≤ c.toNat := by
  match v with
  | .null => exact space_le_of_all (l := "null".toList) rfl h
  | .bool true => exact space_le_of_all (l := "true".toList) rfl h
  | .bool false => exact space_le_of_all (l := "false".toList) rfl h
  | .num n => exact space_le_of_mem_number h
  | .str s => exact space_le_of_mem_string h
  | .arr [] => exact space_le_of_all (l := ['[', ']']) rfl h
  | .arr (v :: r) =>
    rw [renderChars, List.mem_cons, List.mem_append] at h
    rcases h with rfl | h | h
    · decide
    · exact space_le_of_mem_render v h
    · exact space_le_of_mem_renderItems r h
  | .obj [] => exact space_le_of_all (l := ['\x7b', '\x7d']) rfl h
  | .obj ((key, v) :: r) =>
    rw [renderChars, List.mem_cons, List.mem_append, List.mem_cons, List.mem_append] at h
    rcases h with rfl | h | rfl | h | h
    · decide
    · exact space_le_of_mem_string h
    · decide
    · exact space_le_of_mem_render v h
    · exact space_le_of_mem_renderFields r h

theorem space_le_of_mem_renderItems (r : List Json) (h : c ∈ renderItems r) : 0x20 ≤ c.toNat := by
  match r with
  | [] => exact space_le_of_all (l := [']']) rfl h
  | v :: r =>
    rw [renderItems, List.mem_cons, List.mem_append] at h
    rcases h with rfl | h | h
    · decide
    · exact space_le_of_mem_render v h
    · exact space_le_of_mem_renderItems r h

theorem space_le_of_mem_renderFields (r : List (String × Json)) (h : c ∈ renderFields r) : 0x20 ≤ c.toNat := by
  match r with
  | [] => exact space_le_of_all (l := ['\x7d']) rfl h
  | (key, v) :: r =>
    rw [renderFields, List.mem_cons, List.mem_append, List.mem_cons, List.mem_append] at h
    rcases h with rfl | h | rfl | h | h
    · decide
    · exact space_le_of_mem_string h
    · decide
    · exact space_le_of_mem_render v h
    · exact space_le_of_mem_renderFields r h

end

end StackDeck.Json
