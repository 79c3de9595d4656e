import StackDeck.Backend.Script

/-!
What a script can be relied on for, whatever happens to its world while it sleeps. The world is only known to
stay within `I`, which the script keeps too; where the script ends well, its world is one of `P`.
-/

namespace StackDeck

variable {β : Type}

namespace Operation

/-- Begun and not ended. -/
def isUnderway : Operation β → Bool
  | .asleep .. => true
  | .held => true
  | _ => false

end Operation

theorem Script.run_ended_or_underway (s : Script β) (now : Nat) (cancelled : Bool) (w : β) :
    (∃ r, (s.run now cancelled w).2.2 = .ended r) ∨ (s.run now cancelled w).2.2.isUnderway := by
  induction s generalizing w with
  | done r => exact Or.inl ⟨r, rfl⟩
  | report p next ih => exact ih w
  | pause ms heeds next ih =>
    simp only [Script.run]
    split
    · exact Or.inl ⟨_, rfl⟩
    · split
      · exact ih w
      · exact Or.inr rfl
  | hold =>
    cases cancelled with
    | true => exact Or.inl ⟨_, rfl⟩
    | false => exact Or.inr rfl
  | look f ih => exact ih w w
  | change f next ih => exact ih (f w)

theorem Operation.poll_ended_or_underway (op : Operation β) (now : Nat) (cancelled : Bool) (w : β) :
    (∃ r, (op.poll now cancelled w).2.2 = .ended r) ∨ (op.poll now cancelled w).2.2.isUnderway := by
  cases op with
  | fresh s => exact s.run_ended_or_underway now cancelled w
  | asleep due heeds next =>
    simp only [Operation.poll]
    split
    · exact Or.inl ⟨_, rfl⟩
    · split
      · exact next.run_ended_or_underway now cancelled w
      · exact Or.inr rfl
  | held =>
    cases cancelled with
    | true => exact Or.inl ⟨_, rfl⟩
    | false => exact Or.inr rfl
  | ended r => exact Or.inl ⟨r, rfl⟩

variable {I P : β → Prop}

namespace Script

/-- From this world on, the script keeps `I` and ends well only in a world of `P`. -/
def Ensures (I P : β → Prop) : Script β → β → Prop
  | .done r, w => r = .ok () → P w
  | .report _ next, w => Ensures I P next w
  | .pause _ _ next, _ => ∀ w', I w' → Ensures I P next w'
  | .hold, _ => True
  | .look f, w => Ensures I P (f w) w
  | .change f next, w => I (f w) ∧ Ensures I P next (f w)

theorem ensures_pauseFor {s : Script β} (h : ∀ w, I w → s.Ensures I P w) (ms : Option Nat) (heeds : Bool)
    {w : β} (hw : I w) : (pauseFor ms heeds s).Ensures I P w := by
  cases ms with
  | none => exact h w hw
  | some n => exact h

theorem ensures_reports {s : Script β} {w : β} (h : s.Ensures I P w) (ps : List Progress) :
    (reports ps s).Ensures I P w := by
  induction ps with
  | nil => exact h
  | cons p r ih => exact ih

end Script

namespace Operation

/-- However often the operation goes on, it keeps `I` and ends well only in a world of `P`. -/
def Ensures (I P : β → Prop) : Operation β → Prop
  | .fresh s => ∀ w, I w → s.Ensures I P w
  | .asleep _ _ next => ∀ w, I w → next.Ensures I P w
  | .held => True
  | .ended _ => False

/-- What a step of a script or an operation leaves behind. -/
structure Leaves (I P : β → Prop) (w : β) (op : Operation β) : Prop where
  world : I w
  outcome : op = .ended (.ok ()) → P w
  rest : op.isUnderway → op.Ensures I P

end Operation

theorem Script.Ensures.run {s : Script β} {w : β} (h : s.Ensures I P w) (hw : I w) (now : Nat)
    (cancelled : Bool) :
    Operation.Leaves I P (s.run now cancelled w).2.1 (s.run now cancelled w).2.2 := by
  induction s generalizing w with
  | done r =>
    refine ⟨hw, ?_, nofun⟩
    intro he
    exact h (Operation.ended.inj he)
  | report p next ih => exact ih h hw
  | pause ms heeds next ih =>
    simp only [Script.run]
    split
    · exact ⟨hw, by simp, nofun⟩
    · split
      · exact ih (h w hw) hw
      · exact ⟨hw, by simp, fun _ => h⟩
  | hold =>
    cases cancelled with
    | true => exact ⟨hw, by simp [Script.run], nofun⟩
    | false => exact ⟨hw, by simp [Script.run], fun _ => trivial⟩
  | look f ih => exact ih w h hw
  | change f next ih => exact ih h.2 h.1

theorem Operation.Ensures.poll {op : Operation β} (h : op.Ensures I P) {w : β} (hw : I w) (now : Nat)
    (cancelled : Bool) :
    Operation.Leaves I P (op.poll now cancelled w).2.1 (op.poll now cancelled w).2.2 := by
  cases op with
  | fresh s => exact (h w hw).run hw now cancelled
  | asleep due heeds next =>
    simp only [Operation.poll]
    split
    · exact ⟨hw, by simp, nofun⟩
    · split
      · exact (h w hw).run hw now cancelled
      · exact ⟨hw, by simp, fun _ => h⟩
  | held =>
    cases cancelled with
    | true => exact ⟨hw, by simp [Operation.poll], nofun⟩
    | false => exact ⟨hw, by simp [Operation.poll], fun _ => trivial⟩
  | ended r => cases h

end StackDeck
