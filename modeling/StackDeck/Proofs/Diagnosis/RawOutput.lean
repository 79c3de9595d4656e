import Mathlib.Data.List.Induction
import Mathlib.Data.String.Basic
import StackDeck.Proofs.Diagnosis.Utterance

/-!
The diagnostic output of a turn. It is cut back at odd times, since its octets are weighed against a number of characters; what
is shown of it is the end of all that was recorded, whenever that happened.
-/

namespace StackDeck.Diagnosis

namespace Utterance

def diagnostic? : Utterance → Option String
  | .event _ => none
  | .diagnostic line => some line

end Utterance

/-- All diagnostic output that was recorded, each line ended. -/
def recorded (us : List Utterance) : String :=
  String.join ((us.filterMap Utterance.diagnostic?).map fun line => line ++ "\n")

theorem recorded_event (us : List Utterance) (e : ProviderEvent) : recorded (us ++ [.event e]) = recorded us := by
  have hnone : [Utterance.event e].filterMap Utterance.diagnostic? = [] := rfl
  rw [recorded, List.filterMap_append, hnone, List.append_nil, ← recorded]

theorem recorded_diagnostic (us : List Utterance) (line : String) :
    recorded (us ++ [.diagnostic line]) = recorded us ++ (line ++ "\n") := by
  have hsome : [Utterance.diagnostic line].filterMap Utterance.diagnostic? = [line] := rfl
  rw [recorded, List.filterMap_append, hsome, List.map_append, String.join_append, ← recorded]
  simp

/-- A text has no more characters than octets. -/
theorem length_le_utf8ByteSize (s : String) : s.length ≤ s.utf8ByteSize := by
  rw [← String.length_toList, ← String.ofList_toList (s := s), String.utf8ByteSize_ofList, String.toList_ofList]
  induction s.toList with
  | nil => exact le_rfl
  | cons c r ih =>
    rw [List.length_cons, String.utf8Len_cons]
    exact Nat.add_le_add ih c.utf8Size_pos

namespace Normalizer

/-! ### Events leave the diagnostic output alone -/

theorem emit_rawTail (kind : ChunkKind) (text source : String) (n : Normalizer) :
    (n.emit kind text source).1.rawTail = n.rawTail := by
  unfold emit
  split <;> rfl

theorem addBlock_rawTail (kind text : String) (n : Normalizer) : (n.addBlock kind text).1.rawTail = n.rawTail := by
  unfold addBlock
  dsimp only
  split
  · exact emit_rawTail _ _ _ _
  · rfl

theorem addBlocks_rawTail (kind : String) (texts : List String) (n : Normalizer) :
    (addBlocks kind texts n).1.rawTail = n.rawTail := by
  induction texts generalizing n with
  | nil => rfl
  | cons text r ih => exact (ih _).trans (addBlock_rawTail kind text n)

theorem endBlock_rawTail (n : Normalizer) : n.endBlock.1.rawTail = n.rawTail := by
  unfold endBlock
  split
  · rfl
  · exact emit_rawTail _ _ _ _

theorem apply_rawTail (e : ProviderEvent) (n : Normalizer) : (n.apply e).1.rawTail = n.rawTail := by
  cases e with
  | thinking text => exact emit_rawTail _ _ _ _
  | answer text => exact emit_rawTail _ _ _ _
  | toolStart name => rfl
  | toolInput fragment => rfl
  | blockStop => exact endBlock_rawTail _
  | message kind texts error => exact addBlocks_rawTail kind _ (n.sawMessage kind)
  | result subtype text isError error =>
    unfold apply
    dsimp only
    split <;> rfl

/-! ### One more line -/

theorem toList_tail (max : Nat) (s : String) : (Text.tail max s).toList = Text.lastChars max s.toList :=
  String.toList_ofList

/-- Cut back or not, what is kept shows the end of the line and of what was kept before it. -/
theorem recordDiagnostic_shows (line : String) (n : Normalizer) :
    Text.lastChars rawTailChars (n.recordDiagnostic line).rawTail.toList =
      Text.lastChars rawTailChars (n.rawTail.toList ++ (line ++ "\n").toList) := by
  have hkept : (n.rawTail ++ line ++ "\n").toList = n.rawTail.toList ++ (line ++ "\n").toList := by
    simp only [String.toList_append, List.append_assoc]
  unfold recordDiagnostic
  dsimp only
  split
  · have hcut := Text.lastChars_append_lastChars (le_refl rawTailChars) (n.rawTail ++ line ++ "\n").toList []
    rw [List.append_nil, List.append_nil] at hcut
    rw [toList_tail, hcut, hkept]
  · rw [hkept]

/-- What is kept is cut back to fewer characters than its octets may be, or it has no more characters than these. -/
theorem recordDiagnostic_length (line : String) (n : Normalizer) :
    (n.recordDiagnostic line).rawTail.length ≤ rawTailChars * 2 := by
  unfold recordDiagnostic
  dsimp only
  split
  · rw [← String.length_toList, toList_tail, Text.length_lastChars]
    omega
  next hsmall => exact (length_le_utf8ByteSize _).trans (not_lt.mp hsmall)

/-! ### A whole turn -/

/-- The end of what is kept is the end of what was recorded. -/
theorem takeAll_shows (secs : Nat) (us : List Utterance) :
    Text.lastChars rawTailChars ((Normalizer.start secs).takeAll us).1.rawTail.toList =
      Text.lastChars rawTailChars (recorded us).toList := by
  induction us using List.reverseRecOn with
  | nil => rfl
  | append_singleton us u ih =>
    rw [takeAll_concat]
    cases u with
    | event e => rw [take, apply_rawTail, recorded_event, ih]
    | diagnostic line =>
      have hsame (s t : List Char) : Text.lastChars rawTailChars (Text.lastChars rawTailChars s ++ t) =
          Text.lastChars rawTailChars (s ++ t) := Text.lastChars_append_lastChars le_rfl s t
      calc Text.lastChars rawTailChars (((Normalizer.start secs).takeAll us).1.recordDiagnostic line).rawTail.toList
        _ = Text.lastChars rawTailChars
              (((Normalizer.start secs).takeAll us).1.rawTail.toList ++ (line ++ "\n").toList) :=
            recordDiagnostic_shows line _
        _ = Text.lastChars rawTailChars
              (Text.lastChars rawTailChars (recorded us).toList ++ (line ++ "\n").toList) := by rw [← hsame, ih]
        _ = Text.lastChars rawTailChars (recorded us ++ (line ++ "\n")).toList := by
            rw [hsame, String.toList_append (s := recorded us)]
        _ = Text.lastChars rawTailChars (recorded (us ++ [.diagnostic line])).toList := by rw [recorded_diagnostic]

theorem takeAll_length (secs : Nat) (us : List Utterance) :
    ((Normalizer.start secs).takeAll us).1.rawTail.length ≤ rawTailChars * 2 := by
  induction us using List.reverseRecOn with
  | nil => exact Nat.zero_le _
  | append_singleton us u ih =>
    rw [takeAll_concat]
    cases u with
    | event e =>
      rw [take, apply_rawTail]
      exact ih
    | diagnostic line => exact recordDiagnostic_length line _

end Normalizer

/-- Whatever was recorded between whatever events, the last 4000 characters of it are shown, all of it if there are fewer, and
never more than 8000 are kept. -/
theorem diagnostics_show_their_end (timeoutSecs : Nat) (us : List Utterance) :
    let n := ((Normalizer.start timeoutSecs).takeAll us).1
    n.debug.rawTail.toList <:+ (recorded us).toList ∧
    n.debug.rawTail.length = min 4000 (recorded us).length ∧
    n.rawTail.length ≤ 8000 := by
  intro n
  have hshown : n.debug.rawTail.toList = Text.lastChars rawTailChars (recorded us).toList :=
    (Normalizer.toList_tail rawTailChars n.rawTail).trans (Normalizer.takeAll_shows timeoutSecs us)
  refine ⟨?_, ?_, Normalizer.takeAll_length timeoutSecs us⟩
  · rw [hshown]
    exact List.drop_suffix _ _
  · rw [← String.length_toList, hshown, Text.length_lastChars, String.length_toList]
    rfl

end StackDeck.Diagnosis
