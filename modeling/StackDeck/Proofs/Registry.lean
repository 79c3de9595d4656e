import Mathlib.Data.List.Induction
import Mathlib.Data.List.Nodup
import Mathlib.Data.String.Basic
import StackDeck.Registry

/-!
A registry holds one thing for a name at most: its names ascend, whatever is added, removed or changed.
-/

namespace StackDeck.Registry

variable {α β : Type} {g : Registry α} {name key : String} {a : α}

/-- The names ascend, so that none stands for two things. -/
def Sorted (g : Registry α) : Prop := g.entries.Pairwise fun d e => d.1 < e.1

theorem sorted_empty : Sorted ({} : Registry α) := List.Pairwise.nil

theorem Sorted.nodup (h : g.Sorted) : g.names.Nodup :=
  List.pairwise_map.mpr (h.imp fun hlt => hlt.ne)

theorem mem_insertEntry {e : String × α} {es : List (String × α)} (h : e ∈ insertEntry name a es) :
    e = (name, a) ∨ e ∈ es := by
  induction es with
  | nil => exact .inl (List.mem_singleton.mp h)
  | cons d r ih =>
    rw [insertEntry] at h
    split at h
    next => exact List.mem_cons.mp h
    next =>
      split at h
      next => exact (List.mem_cons.mp h).imp_right fun hr => List.mem_cons_of_mem d hr
      next =>
        rcases List.mem_cons.mp h with rfl | hr
        · exact .inr List.mem_cons_self
        · exact (ih hr).imp_right fun he => List.mem_cons_of_mem d he

theorem Sorted.insert (h : g.Sorted) (name : String) (a : α) : (g.insert name a).Sorted := by
  obtain ⟨es⟩ := g
  change es.Pairwise _ at h
  change (insertEntry name a es).Pairwise _
  induction es with
  | nil => exact List.pairwise_singleton _ _
  | cons d r ih =>
    obtain ⟨hd, hr⟩ := List.pairwise_cons.mp h
    rw [insertEntry]
    split
    next hlt =>
      refine List.pairwise_cons.mpr ⟨fun e he => ?_, h⟩
      rcases List.mem_cons.mp he with rfl | her
      · exact hlt
      · exact hlt.trans (hd e her)
    next hge =>
      split
      next heq => exact List.pairwise_cons.mpr ⟨fun e he => beq_iff_eq.mp heq ▸ hd e he, hr⟩
      next hne =>
        have hlt : d.1 < name := (not_lt.mp hge).lt_of_ne' fun he => hne (beq_iff_eq.mpr he)
        refine List.pairwise_cons.mpr ⟨fun e he => ?_, ih hr⟩
        rcases mem_insertEntry he with rfl | her
        · exact hlt
        · exact hd e her

theorem Sorted.erase (h : g.Sorted) (name : String) : (g.erase name).Sorted := h.sublist List.filter_sublist

theorem get?_empty (key : String) : ({} : Registry α).get? key = none := rfl

theorem get?_insert (name key : String) (a : α) (g : Registry α) :
    (g.insert name a).get? key = if key = name then some a else g.get? key := by
  unfold get?
  rw [Registry.insert]
  induction g.entries with
  | nil => by_cases hk : key = name <;> simp [insertEntry, List.lookup_cons, hk, beq_eq_false_iff_ne.mpr]
  | cons d r ih =>
    obtain ⟨n, b⟩ := d
    rw [insertEntry]
    by_cases hk : key = name
    · subst hk
      rw [if_pos rfl] at ih ⊢
      split
      next => simp
      next =>
        split
        next => simp
        next hne =>
          have hn : (key == n) = false := by simpa using hne
          simpa [List.lookup_cons, hn] using ih
    · rw [if_neg hk] at ih ⊢
      have hkn : (key == name) = false := beq_eq_false_iff_ne.mpr hk
      split
      next => simp [List.lookup_cons, hkn]
      next =>
        split
        next heq =>
          obtain rfl : name = n := beq_iff_eq.mp heq
          simp [List.lookup_cons, hkn]
        next => simp [List.lookup_cons, ih]

theorem get?_erase (name key : String) (g : Registry α) :
    (g.erase name).get? key = if key = name then none else g.get? key := by
  unfold get?
  rw [erase]
  induction g.entries with
  | nil => simp
  | cons d r ih =>
    obtain ⟨n, b⟩ := d
    by_cases hn : n = name
    · subst hn
      by_cases hk : key = n
      · simpa [hk] using ih
      · simpa [hk, List.lookup_cons, beq_eq_false_iff_ne.mpr hk] using ih
    · by_cases hk : key = n
      · subst hk
        simp [hn]
      · simpa [hn, List.lookup_cons, beq_eq_false_iff_ne.mpr hk] using ih

theorem get?_map (f : α → β) (g : Registry α) (key : String) : (g.map f).get? key = (g.get? key).map f := by
  unfold get?
  rw [map]
  induction g.entries with
  | nil => rfl
  | cons d r ih =>
    obtain ⟨n, a⟩ := d
    by_cases hk : key = n
    · simp [hk]
    · simpa [List.lookup_cons, beq_eq_false_iff_ne.mpr hk] using ih

theorem names_map (f : α → β) (g : Registry α) : (g.map f).names = g.names := by
  rw [names, names, map, List.map_map]
  rfl

theorem get?_modify (name key : String) (f : α → α) (g : Registry α) :
    (g.modify name f).get? key = if key = name then (g.get? key).map f else g.get? key := by
  unfold get?
  rw [modify]
  induction g.entries with
  | nil => simp
  | cons d r ih =>
    obtain ⟨n, a⟩ := d
    by_cases hn : n = name
    · subst hn
      by_cases hk : key = n
      · simp [hk]
      · simpa [hk, List.lookup_cons, beq_eq_false_iff_ne.mpr hk] using ih
    · by_cases hk : key = n
      · subst hk
        simp [hn]
      · simpa [hn, List.lookup_cons, beq_eq_false_iff_ne.mpr hk] using ih

theorem mem_of_get? (h : g.get? key = some a) : (key, a) ∈ g.entries := by
  obtain ⟨before, after, he, -⟩ := List.lookup_eq_some_iff.mp h
  rw [he]
  exact List.mem_append_right _ List.mem_cons_self

theorem mem_names_iff : key ∈ g.names ↔ ∃ a, g.get? key = some a := by
  constructor
  · intro h
    obtain ⟨e, he, rfl⟩ := List.mem_map.mp h
    cases hg : g.get? e.1 with
    | some a => exact ⟨a, rfl⟩
    | none => exact absurd rfl (bne_iff_ne.mp (List.lookup_eq_none_iff.mp hg e he))
  · rintro ⟨a, h⟩
    exact List.mem_map_of_mem (f := Prod.fst) (mem_of_get? h)

theorem Sorted.ofList (named : List (String × α)) : (Registry.ofList named).Sorted := by
  induction named using List.reverseRecOn with
  | nil => exact sorted_empty
  | append_singleton named e ih =>
    rw [Registry.ofList, List.foldl_append]
    exact ih.insert e.1 e.2

theorem mem_of_mem_ofList {named : List (String × α)} {e : String × α} (h : e ∈ (Registry.ofList named).entries) :
    e ∈ named := by
  induction named using List.reverseRecOn with
  | nil => exact h
  | append_singleton named d ih =>
    rw [Registry.ofList, List.foldl_append] at h
    rcases mem_insertEntry h with rfl | he
    · exact List.mem_append_right named List.mem_cons_self
    · exact List.mem_append_left [d] (ih he)

/-- Of things of one name the last is kept. -/
theorem get?_ofList (named : List (String × α)) (key : String) :
    (Registry.ofList named).get? key = named.reverse.lookup key := by
  induction named using List.reverseRecOn with
  | nil => rfl
  | append_singleton named e ih =>
    have hlast : Registry.ofList (named ++ [e]) = (Registry.ofList named).insert e.1 e.2 := List.foldl_append
    rw [hlast, get?_insert, ih, List.reverse_append, List.reverse_singleton, List.singleton_append, List.lookup_cons]
    by_cases hk : key = e.1
    · simp [hk]
    · simp [hk, beq_eq_false_iff_ne.mpr hk]

/-- A new name is added to the others, wherever it sorts. -/
theorem insertEntry_perm {es : List (String × α)} (h : name ∉ es.map Prod.fst) :
    (insertEntry name a es).Perm ((name, a) :: es) := by
  induction es with
  | nil => exact .refl _
  | cons d r ih =>
    obtain ⟨hd, hr⟩ := not_or.mp fun hm => h (List.mem_cons.mpr hm)
    rw [insertEntry]
    split
    next => exact .refl _
    next =>
      rw [if_neg (by simpa using hd)]
      exact ((ih hr).cons d).trans (.swap _ _ _)

/-- Under different names nothing is replaced. -/
theorem ofList_perm {named : List (String × α)} (h : (named.map Prod.fst).Nodup) :
    (Registry.ofList named).entries.Perm named := by
  induction named using List.reverseRecOn with
  | nil => exact .refl _
  | append_singleton named e ih =>
    rw [List.map_append, List.nodup_append] at h
    have hbefore := ih h.1
    have hnew : e.1 ∉ (Registry.ofList named).entries.map Prod.fst := fun hm =>
      h.2.2 e.1 ((hbefore.map Prod.fst).mem_iff.mp hm) e.1 (List.mem_singleton.mpr rfl) rfl
    have hlast : Registry.ofList (named ++ [e]) = (Registry.ofList named).insert e.1 e.2 := List.foldl_append
    rw [hlast]
    exact (insertEntry_perm hnew).trans ((hbefore.cons e).trans (List.perm_append_singleton e named).symm)

theorem contains_iff : g.contains key = true ↔ ∃ a, g.get? key = some a := by
  rw [contains, Option.isSome_iff_exists]

end StackDeck.Registry
