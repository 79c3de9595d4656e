import Mathlib.Data.List.Induction
import StackDeck.Proofs.Hub.Run

/-!
When a client is there, told from the moves alone.
-/

namespace StackDeck.Hub

/-- The client that makes a move, or that is taken from the hub by it. -/
def Move.caller : Move → Option Nat
  | .unregister k | .take k | .receive k | .abandon k => some k
  | _ => none

/-- Whether a client is registered and its receiver is there. -/
def hears (id : Nat) (h : Hub) : Bool := h.registered.contains id && (h.client? id).any Client.listening

def Move.registers : Move → Bool
  | .register => true
  | _ => false

/-- A client was named by a registration before any stop, and nothing has ended it since. -/
def Stays (ends : List Move) (id : Nat) (moves : List Move) : Prop :=
  ∃ before after, moves = before ++ .register :: after ∧ before.countP Move.registers + 1 = id ∧
    .stop ∉ before ∧ ∀ mv ∈ ends, mv ∉ after

variable {h : Hub} {id k : Nat} {c : Client} {mv : Move} {ends : List Move}

theorem Move.ne_of_registers (hmv : mv.registers = false) : mv ≠ .register := by
  rintro rfl
  cases hmv

section

variable (hk : mv.caller = some k) (hne : k ≠ id)
include hk

theorem Move.ne_register : mv ≠ .register := by
  rintro rfl
  cases hk

include hne

theorem change_other : h.change id mv c = c := by
  cases mv with
  | unregister j => cases hk; exact if_neg fun hh => hne hh.1
  | take j => cases hk; exact if_neg hne
  | receive j => cases hk; exact if_neg fun hh => hne hh.1
  | abandon j => cases hk; exact if_neg hne
  | _ => cases hk

theorem client?_other : (h.move mv).client? id = h.client? id := by
  have hsame : (h.client? id).map (h.change id mv) = (h.client? id).map fun c => c :=
    Option.map_congr fun c _ => change_other hk hne
  rw [client?_move (Move.ne_register hk), hsame, Option.map_id']

end

/-! ### What the moves tell -/

theorem stays_nil : ¬ Stays ends id [] := by
  rintro ⟨before, after, he, -⟩
  simp at he

/-- The last move ends a stay, or is where it begins. -/
theorem stays_concat (ms : List Move) (mv : Move) : Stays ends id (ms ++ [mv]) ↔
    (Stays ends id ms ∧ mv ∉ ends) ∨ (mv = .register ∧ ms.countP Move.registers + 1 = id ∧ .stop ∉ ms) := by
  constructor
  · rintro ⟨before, after, he, hid, hstop, hends⟩
    rcases List.eq_nil_or_concat after with rfl | ⟨after, last, rfl⟩
    · obtain ⟨rfl, hmv⟩ := List.append_inj' he rfl
      exact .inr ⟨List.head_eq_of_cons_eq hmv, hid, hstop⟩
    · have he' : ms ++ [mv] = (before ++ .register :: after) ++ [last] := by simpa using he
      obtain ⟨rfl, hlast⟩ := List.append_inj' he' rfl
      obtain rfl := List.head_eq_of_cons_eq hlast
      refine .inl ⟨⟨before, after, rfl, hid, hstop, fun e he hm => hends e he ?_⟩, fun hm => hends _ hm ?_⟩
      · simp [hm]
      · simp
  · rintro (⟨⟨before, after, rfl, hid, hstop, hends⟩, hmv⟩ | ⟨rfl, hid, hstop⟩)
    · refine ⟨before, after ++ [mv], by simp, hid, hstop, fun e he hm => ?_⟩
      rcases List.mem_append.mp hm with hm | hm
      · exact hends e he hm
      · exact hmv (List.mem_singleton.mp hm ▸ he)
    · exact ⟨ms, [], by simp, hid, hstop, fun _ _ => List.not_mem_nil⟩

theorem issued_run (capacity keepalive : Nat) (ms : List Move) :
    ((start capacity keepalive).run ms).issued = ms.countP Move.registers := by
  induction ms using List.reverseRecOn with
  | nil => rfl
  | append_singleton ms mv ih =>
    rw [run_concat, issued_move, List.countP_append, ih]
    cases mv <;> rfl

theorem stopped_run (capacity keepalive : Nat) (ms : List Move) :
    ((start capacity keepalive).run ms).stopped = false ↔ .stop ∉ ms := by
  induction ms using List.reverseRecOn with
  | nil => simp [run, start]
  | append_singleton ms mv ih =>
    rw [run_concat, stopped_move]
    cases mv with
    | stop => simp
    | _ => simpa using ih

/-- A number is registered from its registration until it leaves or the hub stops. -/
theorem registered_run (capacity keepalive : Nat) (ms : List Move) (id : Nat) :
    id ∈ ((start capacity keepalive).run ms).registered ↔ Stays [.stop, .unregister id] id ms := by
  induction ms using List.reverseRecOn with
  | nil => exact iff_of_false nofun stays_nil
  | append_singleton ms mv ih =>
    have hissued := issued_run capacity keepalive ms
    have hstopped := stopped_run capacity keepalive ms
    rw [run_concat, mem_registered_move, stays_concat, ← ih]
    cases mv with
    | register =>
      rw [hissued, hstopped]
      simp [eq_comm]
    | unregister k => simp
    | _ => simp

theorem hears_iff : h.hears id = true ↔ id ∈ h.registered ∧ ∃ c, h.client? id = some c ∧ c.listening = true := by
  rw [hears, Bool.and_eq_true, List.contains_iff_mem, Option.any_eq_true]

theorem offer_listening (limit : Nat) (e : Event) (c : Client) :
    (Client.offer limit e c).listening = c.listening := by
  unfold Client.offer
  split <;> rfl

theorem change_listening (h : Hub) (id : Nat) (mv : Move) (c : Client) :
    (h.change id mv c).listening = true ↔ c.listening = true ∧ mv ≠ .abandon id := by
  cases mv with
  | abandon k =>
    by_cases he : k = id
    · simp [change, he]
    · simp [change, he]
  | broadcast name data =>
    cases data with
    | none => simp [change]
    | some data =>
      simp only [change]
      split <;> simp [offer_listening]
  | notify name =>
    simp only [change]
    split <;> simp [offer_listening]
  | register => simp [change]
  | _ =>
    simp only [change]
    split <;> simp

theorem hears_register (hs : h.Sound) (id : Nat) : (h.move .register).hears id = true ↔
    h.hears id = true ∨ (h.issued + 1 = id ∧ h.stopped = false) := by
  have hclient : (h.move .register).client? id = _ := client?_register id h hs.new
  rw [hears_iff, hears_iff, mem_registered_move, hclient]
  by_cases he : id = h.issued + 1
  · have hold : id ∉ h.registered := fun hm => by
      have hle := hs.1 id hm
      omega
    rw [if_pos he]
    simp [hold, ← he]
  · have hne : ¬ h.issued + 1 = id := fun hh => he hh.symm
    rw [if_neg he]
    simp [he, hne]

theorem hears_move (hmv : mv ≠ .register) (id : Nat) (h : Hub) : (h.move mv).hears id = true ↔
    h.hears id = true ∧ mv ∉ [.stop, .unregister id, .abandon id] := by
  have hreg : id ∈ (h.move mv).registered ↔ id ∈ h.registered ∧ mv ≠ .stop ∧ mv ≠ .unregister id := by
    rw [mem_registered_move]
    cases mv with
    | register => exact absurd rfl hmv
    | _ => simp
  have hclient : (∃ c, (h.move mv).client? id = some c ∧ c.listening = true) ↔
      (∃ c, h.client? id = some c ∧ c.listening = true) ∧ mv ≠ .abandon id := by
    rw [client?_move hmv]
    cases h.client? id with
    | none => simp
    | some c => simp [change_listening]
  rw [hears_iff, hears_iff, hreg, hclient]
  simp only [List.mem_cons, List.not_mem_nil, or_false, not_or]
  tauto

/-- A client hears what is published until it leaves, the hub stops or its receiver is dropped. -/
theorem hears_run (capacity keepalive : Nat) (ms : List Move) (id : Nat) :
    ((start capacity keepalive).run ms).hears id = true ↔ Stays [.stop, .unregister id, .abandon id] id ms := by
  induction ms using List.reverseRecOn with
  | nil => exact iff_of_false nofun stays_nil
  | append_singleton ms mv ih =>
    have hs := (start_sound capacity keepalive).run ms
    have hissued := issued_run capacity keepalive ms
    have hstopped := stopped_run capacity keepalive ms
    rw [run_concat, stays_concat, ← ih]
    by_cases hmv : mv = .register
    · subst hmv
      rw [hears_register hs, hissued, hstopped]
      simp
    · rw [hears_move hmv, or_iff_left fun hh => hmv hh.1]

end StackDeck.Hub
