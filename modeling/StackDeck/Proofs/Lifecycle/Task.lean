import StackDeck.Lifecycle.Machine
import StackDeck.Proofs.Backend.Script
import StackDeck.Proofs.Keyed

namespace StackDeck.Lifecycle

variable {β : Type}

/-- The tasks of a machine are numbered by their places. -/
def Numbered (ts : List (Task β)) : Prop := ts.map Task.id = List.range ts.length

theorem numbered_concat {ts : List (Task β)} {t : Task β} :
    Numbered (ts ++ [t]) ↔ Numbered ts ∧ t.id = ts.length := by
  simp [Numbered, List.range_succ]

theorem Numbered.id_lt {ts : List (Task β)} (h : Numbered ts) {t : Task β} (ht : t ∈ ts) :
    t.id < ts.length := by
  have hm : t.id ∈ ts.map Task.id := List.mem_map_of_mem ht
  rw [h] at hm
  exact List.mem_range.mp hm

theorem Numbered.id_eq {ts : List (Task β)} (h : Numbered ts) {k : Nat} {t : Task β} (ht : ts[k]? = some t) :
    t.id = k := by
  have hk := (List.getElem?_eq_some_iff.mp ht).1
  have hm : (ts.map Task.id)[k]? = some t.id := by rw [List.getElem?_map, ht]; rfl
  rw [h, List.getElem?_range hk] at hm
  exact (Option.some.inj hm).symm

theorem Numbered.getElem?_id {ts : List (Task β)} (h : Numbered ts) {t : Task β} (ht : t ∈ ts) :
    ts[t.id]? = some t := by
  obtain ⟨k, hk⟩ := List.mem_iff_getElem?.mp ht
  rw [h.id_eq hk, hk]

theorem Numbered.nodup {ts : List (Task β)} (h : Numbered ts) : (ts.map Task.id).Nodup := by
  rw [h]
  exact List.nodup_range

namespace Machine

variable {m : Machine β} {olds rest : List (Task β)} {t : Task β}

@[simp] theorem place_controller (id epoch : Nat) (p : Place β) :
    (m.place id epoch p).controller = m.controller := rfl
@[simp] theorem place_asked (id epoch : Nat) (p : Place β) : (m.place id epoch p).asked = m.asked := rfl

theorem place_tasks (hn : Numbered m.tasks) (ht : m.tasks = olds ++ t :: rest) (epoch : Nat) (p : Place β) :
    (m.place t.id epoch p).tasks = olds ++ ⟨t.id, epoch, p⟩ :: rest := by
  have hk : ((olds ++ t :: rest).map Task.id).Nodup := ht ▸ hn.nodup
  simp only [place, ht]
  exact map_at_key hk fun t => { t with epoch, place := p }

theorem abort_tasks (hn : Numbered m.tasks) (ht : m.tasks = olds ++ t :: rest) :
    (m.abort t.id).tasks = olds ++ { t with place := .over } :: rest := by
  have hk : ((olds ++ t :: rest).map Task.id).Nodup := ht ▸ hn.nodup
  simp only [abort, ht]
  exact map_at_key hk fun t => { t with place := .over }

theorem task?_of_mem (hn : Numbered m.tasks) (ht : t ∈ m.tasks) : m.task? t.id = some t :=
  find?_key hn.nodup ht

theorem mem_of_task? {id : Nat} (h : m.task? id = some t) : t ∈ m.tasks ∧ t.id = id := mem_of_find?_key h

theorem isOver_of_mem (hn : Numbered m.tasks) (ht : t ∈ m.tasks) : m.isOver t.id = t.isOver := by
  simp [isOver, task?_of_mem hn ht]

theorem Task.isOver_iff : t.isOver = true ↔ t.place = .over := by
  cases h : t.place <;> simp [Task.isOver, h]

/-- A task that is over, or not known, does not go on. -/
theorem poll_of_isOver {id : Nat} (h : m.isOver id = true) : m.poll id = m := by
  cases hf : m.task? id with
  | none => simp [poll, hf]
  | some t =>
    have hp : t.place = .over := Task.isOver_iff.mp (by simpa [isOver, hf] using h)
    simp [poll, hf, hp]

end Machine

end StackDeck.Lifecycle
