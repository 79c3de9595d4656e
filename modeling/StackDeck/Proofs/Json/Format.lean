import StackDeck.Proofs.Json.Record
import StackDeck.Proofs.Json.Text

/-!
Types that are written as JSON text and read back. `Format` names the two directions with what belongs to the
form of a value, `Faithful` says that they fit, and `Faithful.of_record` reduces that for a record to
facts about its own fields.
-/

namespace StackDeck.Json

/-! ### Objects of exact numbers -/

theorem isExactFields_iff {fields : List (String × Json)} : IsExactFields fields ↔ ∀ f ∈ fields, IsExact f.2 := by
  induction fields with
  | nil => exact iff_of_true trivial nofun
  | cons f r ih => rw [IsExactFields, ih, List.forall_mem_cons]

theorem isExact_object {fields : List (String × Json)} (h : ∀ f ∈ fields, IsExact f.2) : IsExact (object fields) := by
  rw [object_eq]
  exact isExactFields_iff.mpr fun f hf => h f (Registry.mem_of_mem_ofList hf)

theorem isExact_nat {n : Nat} (h : n < 2 ^ 64) : IsExact (nat n) := ⟨by omega, by omega⟩

theorem isExact_optionalField {α : Type} {key : String} {f : α → Json} {o : Option α} (h : ∀ a, IsExact (f a)) :
    ∀ e ∈ optionalField key f o, IsExact e.2 := by
  cases o with
  | none => exact nofun
  | some a =>
    intro e he
    rw [List.mem_singleton.mp he]
    exact h a

/-! ### Formats -/

/-- How the values of a type stand in JSON. -/
structure Format (α : Type) where
  encode : α → Json
  decode : Tree → Option α
  /-- The values that can be written. -/
  writable : α → Prop
  /-- The names of the fields of a value. -/
  names : α → List String
  /-- Fields that may be missing, each with whether a value has it. -/
  optionals : List (String × (α → Bool))
  /-- What a field of any other name may hold. -/
  ignorable : Tree → Prop

namespace Format

variable {α : Type} {f : Format α}

/-- The text of a value. -/
def write (f : Format α) (v : α) : List Char := (f.encode v).renderChars

/-- The value of a text. -/
def read? (f : Format α) (text : List Char) : Option α := (Tree.parse? text).bind f.decode

/-- Writing loses nothing, and reading takes what writing would not produce for what it stands for. -/
structure Faithful (f : Format α) : Prop where
  /-- What was written is read back. -/
  reads_back : ∀ v, f.writable v → f.read? (f.write v) = some v
  writable_of_decode : ∀ {t v}, f.decode t = some v → f.writable v
  /-- What was read is written so that it is read as the same again, and written the same again. -/
  stable : ∀ {t v}, f.decode t = some v →
    f.read? (f.write v) = some v ∧ ∀ w, f.read? (f.write v) = some w → f.write w = f.write v
  /-- A field of another name is passed over. -/
  ignores : ∀ {front back key u v}, f.decode (.obj (front ++ back)) = some v → key ∉ f.names v → f.ignorable u →
    f.decode (.obj (front ++ (some key, u) :: back)) = some v
  /-- A value has an optional field exactly if something other than null stood there. -/
  optional : ∀ {t v}, f.decode t = some v → ∀ p ∈ f.optionals, p.2 v = Tree.isGiven (t.holds? (f.names v) p.1)
  /-- A missing optional field is as good as one that is null. -/
  null : ∀ p ∈ f.optionals, ∀ {front back : List (Option String × Tree)}, (∀ e ∈ front ++ back, e.1 ≠ some p.1) →
    f.decode (.obj (front ++ (some p.1, .null) :: back)) = f.decode (.obj (front ++ back))

theorem reads_back_of_decode (hexact : ∀ v, IsExact (f.encode v))
    (hback : ∀ v, f.writable v → f.decode (f.encode v).tree = some v) (v : α) (hv : f.writable v) :
    f.read? (f.write v) = some v := by
  rw [read?, write, parse?_render (hexact v), Option.bind_some, hback v hv]

theorem stable_of_reads_back (hwritable : ∀ {t v}, f.decode t = some v → f.writable v)
    (hback : ∀ v, f.writable v → f.read? (f.write v) = some v) {t : Tree} {v : α} (h : f.decode t = some v) :
    f.read? (f.write v) = some v ∧ ∀ w, f.read? (f.write v) = some w → f.write w = f.write v := by
  have hv := hback v (hwritable h)
  refine ⟨hv, fun w hw => ?_⟩
  rw [hv] at hw
  rw [Option.some.inj hw]

/-! ### Records -/

open Json.Tree

variable {names : List String}

/-- A field that may be missing: the record reads a missing one like null, and the value has the field
exactly if something other than null is given for it. -/
structure Spares (names : List String) (read : List Slot → Option α) (p : String × (α → Bool)) : Prop where
  known : p.1 ∈ names
  null : ∀ slots : List Slot, slots.length = names.length →
    read (slots.set (names.idxOf p.1) (.given .null)) = read (slots.set (names.idxOf p.1) .absent)
  given : ∀ slots v, read slots = some v → ∃ s, slots[names.idxOf p.1]? = some s ∧ p.2 v = isGiven s.given?

/-- A record whose fields are read one by one is faithful when each of its fields is. -/
theorem Faithful.of_record {read : List Slot → Option α} (hdecode : ∀ t, f.decode t = (slots? names t).bind read)
    (hnames : ∀ v, f.names v = names) (hnodup : names.Nodup) (hexact : ∀ v, IsExact (f.encode v))
    (hback : ∀ v, f.writable v → f.decode (f.encode v).tree = some v)
    (hwritable : ∀ {t v}, f.decode t = some v → f.writable v)
    (hspares : ∀ p ∈ f.optionals, Spares names read p) : f.Faithful where
  reads_back := reads_back_of_decode hexact hback
  writable_of_decode := hwritable
  stable h := stable_of_reads_back hwritable (reads_back_of_decode hexact hback) h
  ignores {front back key u v} h hkey _ := by
    rw [hnames] at hkey
    rw [hdecode] at h
    rw [hdecode, slots?_other hkey, h]
  optional {t v} h p hp := by
    rw [hdecode, Option.bind_eq_some_iff] at h
    obtain ⟨slots, hslots, hread⟩ := h
    obtain ⟨s, hs, hv⟩ := (hspares p hp).given slots v hread
    have hgiven := congrArg (·[names.idxOf p.1]?) (slots?_given hnodup hslots)
    have hknown : names[names.idxOf p.1]? = some p.1 := List.getElem?_idxOf (hspares p hp).known
    simp only [List.getElem?_map, hs, hknown, Option.map_some, Option.some_inj] at hgiven
    rw [hv, hgiven, hnames]
  null p hp front back hmissing := by
    have hspare := hspares p hp
    rw [hdecode, hdecode, slots?_added hnodup hspare.known hmissing]
    cases hslots : slots? names (.obj (front ++ back)) with
    | none => rfl
    | some slots =>
      have h := hspare.null slots (slots?_length hnodup hslots)
      rw [slots?_missing hslots hmissing] at h
      exact h

end Format

end StackDeck.Json
