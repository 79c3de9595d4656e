import Mathlib.Data.List.Nodup

namespace StackDeck

section Keyed

variable {α κ : Type} [BEq κ] [LawfulBEq κ] {key : α → κ}

/-- A change at a key that does not occur changes nothing. -/
theorem map_at_absent {xs : List α} {k : κ} (h : ∀ x ∈ xs, key x ≠ k) (f : α → α) :
    xs.map (fun x => if key x == k then f x else x) = xs := by
  induction xs with
  | nil => rfl
  | cons x r ih =>
    have hx : key x ≠ k := h x (by simp)
    have hr := ih fun y hy => h y (by simp [hy])
    simp [hx, hr]

/-- Where keys are told apart, a change at one key reaches one entry. -/
theorem map_at_key {xs ys : List α} {a : α} (h : ((xs ++ a :: ys).map key).Nodup) (f : α → α) :
    (xs ++ a :: ys).map (fun x => if key x == key a then f x else x) = xs ++ f a :: ys := by
  simp only [List.map_append, List.map_cons, List.nodup_append, List.nodup_cons, List.mem_map] at h
  obtain ⟨_, ⟨hy, _⟩, hx⟩ := h
  have before : ∀ x ∈ xs, key x ≠ key a := fun x hm => hx _ ⟨x, hm, rfl⟩ _ (by simp)
  have after : ∀ y ∈ ys, key y ≠ key a := fun y hm he => hy ⟨y, hm, he⟩
  rw [List.map_append, List.map_cons, map_at_absent before, map_at_absent after]
  simp

theorem find?_key {xs : List α} {a : α} (h : (xs.map key).Nodup) (ha : a ∈ xs) :
    xs.find? (fun x => key x == key a) = some a := by
  obtain ⟨before, after, rfl⟩ := List.append_of_mem ha
  simp only [List.map_append, List.map_cons, List.nodup_append, List.mem_map] at h
  rw [List.find?_append]
  have none : before.find? (fun x => key x == key a) = none := by
    refine List.find?_eq_none.mpr fun x hx => ?_
    simpa using h.2.2 _ ⟨x, hx, rfl⟩ _ (by simp)
  simp [none]

theorem mem_of_find?_key {xs : List α} {a : α} {k : κ} (h : xs.find? (fun x => key x == k) = some a) :
    a ∈ xs ∧ key a = k :=
  ⟨List.mem_of_find?_eq_some h, by simpa using List.find?_some h⟩

/-- Where keys are told apart, looking from the end finds the same entry. -/
theorem find?_reverse_key {xs : List α} (h : (xs.map key).Nodup) (k : κ) :
    xs.reverse.find? (fun x => key x == k) = xs.find? fun x => key x == k := by
  cases hx : xs.find? fun x => key x == k with
  | none => simpa using hx
  | some a =>
    obtain ⟨ha, rfl⟩ := mem_of_find?_key hx
    have apart : (xs.reverse.map key).Nodup := by simpa [List.map_reverse] using h
    exact find?_key apart (List.mem_reverse.mpr ha)

omit [LawfulBEq κ] in
/-- A change that keeps the keys is found where the entry was. -/
theorem find?_map_key {xs : List α} {k : κ} {f : α → α} (hf : ∀ x, key (f x) = key x) :
    (xs.map f).find? (fun x => key x == k) = (xs.find? fun x => key x == k).map f := by
  have hp : (fun x => key x == k) ∘ f = fun x => key x == k := funext fun x => by rw [Function.comp_apply, hf]
  rw [List.find?_map, hp]

/-- A change at one key is found at this key, and nowhere else. -/
theorem find?_map_at {xs : List α} {j k : κ} {f : α → α} (hf : ∀ x, key (f x) = key x) :
    (xs.map fun x => if key x == j then f x else x).find? (fun x => key x == k) =
      (xs.find? fun x => key x == k).map fun x => if j == k then f x else x := by
  have hg (x : α) : key (if key x == j then f x else x) = key x := by
    split
    · exact hf x
    · rfl
  rw [find?_map_key hg]
  cases hx : xs.find? fun x => key x == k with
  | none => rfl
  | some x =>
    have hk : key x = k := (mem_of_find?_key hx).2
    rw [Option.map_some, Option.map_some, hk, BEq.comm]

end Keyed

end StackDeck
