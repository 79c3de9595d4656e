import StackDeck.Diagnosis.Normalizer

namespace StackDeck.Diagnosis

/-- Pieces of output that are numbered on from `k`. -/
def NumberedFrom (k : Nat) (cs : List Chunk) : Prop :=
  cs.map Chunk.seq = (List.range' (k + 1) cs.length).map UInt64.ofNat

theorem NumberedFrom.append {k : Nat} {cs ds : List Chunk} (hc : NumberedFrom k cs)
    (hd : NumberedFrom (k + cs.length) ds) : NumberedFrom k (cs ++ ds) := by
  unfold NumberedFrom at *
  have hs : k + cs.length + 1 = k + 1 + cs.length := by omega
  rw [List.map_append, List.length_append, ← List.range'_append_1, List.map_append, hc, hd, hs]

namespace Normalizer

/-- A step of a normalizer that numbers what it shows and keeps count. -/
structure Numbers (n n' : Normalizer) (cs : List Chunk) : Prop where
  chunks : NumberedFrom n.seq cs
  seq : n'.seq = n.seq + cs.length

variable {n n' n'' : Normalizer} {cs ds : List Chunk}

theorem Numbers.silent (h : n'.seq = n.seq) : n.Numbers n' [] := ⟨rfl, h⟩

/-- What else a normalizer has seen does not matter. -/
theorem Numbers.of_seq {n₀ : Normalizer} (h : n₀.Numbers n' cs) (hs : n₀.seq = n.seq) : n.Numbers n' cs :=
  ⟨hs ▸ h.chunks, by rw [h.seq, hs]⟩

theorem Numbers.trans (h : n.Numbers n' cs) (h' : n'.Numbers n'' ds) : n.Numbers n'' (cs ++ ds) := by
  refine ⟨h.chunks.append (h.seq ▸ h'.chunks), ?_⟩
  rw [h'.seq, h.seq, List.length_append]
  omega

theorem emit_numbers (kind : ChunkKind) (text source : String) (n : Normalizer) :
    n.Numbers (n.emit kind text source).1 (n.emit kind text source).2 := by
  unfold emit
  split
  · exact .silent rfl
  · exact ⟨rfl, rfl⟩

theorem addBlock_numbers (kind text : String) (n : Normalizer) :
    n.Numbers (n.addBlock kind text).1 (n.addBlock kind text).2 := by
  by_cases h : (n.addMessageText text).streamText.isEmpty
  · simp only [addBlock, h, if_true]
    exact (emit_numbers .answer text kind (n.addMessageText text)).of_seq rfl
  · simp only [addBlock, h]
    exact .silent rfl

theorem addBlocks_numbers (kind : String) (texts : List String) (n : Normalizer) :
    n.Numbers (addBlocks kind texts n).1 (addBlocks kind texts n).2 := by
  induction texts generalizing n with
  | nil => exact .silent rfl
  | cons text r ih => exact (addBlock_numbers kind text n).trans (ih (n.addBlock kind text).1)

theorem endBlock_numbers (n : Normalizer) : n.Numbers n.endBlock.1 n.endBlock.2 := by
  unfold endBlock
  split
  · exact .silent rfl
  · exact (emit_numbers .remark _ _ { n with tool := none }).of_seq rfl

/-- Whatever a provider says, the pieces shown are numbered on. -/
theorem apply_numbers (e : ProviderEvent) (n : Normalizer) : n.Numbers (n.apply e).1 (n.apply e).2 := by
  cases e with
  | thinking text => exact (emit_numbers .thinking text _ (n.sawEvent _)).of_seq rfl
  | answer text => exact (emit_numbers .answer text _ { n.sawEvent _ with streamText := _ }).of_seq rfl
  | toolStart name => exact .silent rfl
  | toolInput fragment => exact .silent rfl
  | blockStop => exact (endBlock_numbers (n.sawEvent _)).of_seq rfl
  | message kind texts error =>
    have h := addBlocks_numbers kind (texts.filter fun t => !Text.isBlank t) (n.sawMessage kind)
    exact ⟨h.chunks, h.seq⟩
  | result subtype text isError error =>
    simp only [apply]
    split
    · exact .silent rfl
    · exact .silent rfl

end Normalizer

end StackDeck.Diagnosis
