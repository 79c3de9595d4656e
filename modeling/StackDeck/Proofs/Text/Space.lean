import StackDeck.Text.Blank

/-!
White space around a text. Trimming takes it away and nothing else.
-/

namespace StackDeck.Text

variable {c : Char} {front back s : List Char}

theorem isAlpha_bounds (h : c.isAlpha = true) : 0x41 ≤ c.toNat ∧ c.toNat ≤ 0x5A ∨ 0x61 ≤ c.toNat ∧ c.toNat ≤ 0x7A := by
  rcases Bool.or_eq_true_iff.mp h with upper | lower
  · have bounds : 'A'.val ≤ c.val ∧ c.val ≤ 'Z'.val := of_decide_eq_true upper
    exact .inl ⟨UInt32.le_iff_toNat_le.mp bounds.1, UInt32.le_iff_toNat_le.mp bounds.2⟩
  · obtain ⟨low, high⟩ := Bool.and_eq_true_iff.mp lower
    exact .inr ⟨UInt32.le_iff_toNat_le.mp (of_decide_eq_true low), UInt32.le_iff_toNat_le.mp (of_decide_eq_true high)⟩

theorem isSpace_bounds (h : isSpace c = true) : 9 ≤ c.toNat ∧ c.toNat ≤ 13 ∨ c.toNat = 32 ∨ 133 ≤ c.toNat := by
  simp only [isSpace, Bool.or_eq_true, Bool.and_eq_true, decide_eq_true_eq, beq_iff_eq] at h
  omega

theorem trimStart_spaces (h : front.all isSpace = true) (s : List Char) : trimStart (front ++ s) = trimStart s := by
  induction front with
  | nil => rfl
  | cons c r ih =>
    have hall : isSpace c = true ∧ r.all isSpace = true := by simpa using h
    simpa [trimStart, hall.1] using ih hall.2

theorem trimEnd_spaces (h : back.all isSpace = true) (s : List Char) : trimEnd (s ++ back) = trimEnd s := by
  have hreverse : back.reverse.all isSpace = true := by simpa using h
  have hskip := trimStart_spaces hreverse s.reverse
  simp only [trimStart] at hskip
  simp only [trimEnd, List.reverse_append, hskip]

/-- Behind something that is not blank, leading white space ends before the rest. -/
theorem trimStart_append (h : s.all isSpace = false) (back : List Char) : trimStart (s ++ back) = trimStart s ++ back := by
  induction s with
  | nil => simp at h
  | cons c r ih =>
    by_cases hc : isSpace c = true
    · have hr : r.all isSpace = false := by simpa [hc] using h
      simpa [trimStart, hc] using ih hr
    · simp [trimStart, hc]

theorem trimEnd_append (h : s.all isSpace = false) (front : List Char) : trimEnd (front ++ s) = front ++ trimEnd s := by
  have hreverse : s.reverse.all isSpace = false := by simpa using h
  have hstart := trimStart_append hreverse front.reverse
  simp only [trimStart] at hstart
  simp only [trimEnd, List.reverse_append, hstart, List.reverse_reverse]

theorem trim_around (hfront : front.all isSpace = true) (hback : back.all isSpace = true) (s : List Char) :
    trim (front ++ s ++ back) = trim s := by
  have hstart : trimStart (front ++ s ++ back) = trimStart (s ++ back) := by
    simpa using trimStart_spaces hfront (s ++ back)
  by_cases hs : s.all isSpace = true
  · have hboth : (s ++ back).all isSpace = true := by simp only [List.all_append, hs, hback, Bool.and_self]
    have hnone : trimStart (s ++ back) = trimStart s := by
      simp only [trimStart, dropWhile_isSpace_eq_nil.mpr hboth, dropWhile_isSpace_eq_nil.mpr hs]
    simp only [trim, hstart, hnone]
  · have hkeep : trimStart (s ++ back) = trimStart s ++ back := trimStart_append (by simpa using hs) back
    simp only [trim, hstart, hkeep, trimEnd_spaces hback]

theorem trimStart_exists (s : List Char) : ∃ front, front.all isSpace = true ∧ s = front ++ trimStart s :=
  ⟨s.takeWhile isSpace, List.all_takeWhile, List.takeWhile_append_dropWhile.symm⟩

theorem trimEnd_exists (s : List Char) : ∃ back, back.all isSpace = true ∧ s = trimEnd s ++ back := by
  obtain ⟨front, hfront, hs⟩ := trimStart_exists s.reverse
  refine ⟨front.reverse, by simpa using hfront, ?_⟩
  have hreverse := congrArg List.reverse hs
  simpa [trimStart, trimEnd] using hreverse

theorem trim_exists (s : List Char) :
    ∃ front back, front.all isSpace = true ∧ back.all isSpace = true ∧ s = front ++ trim s ++ back := by
  obtain ⟨front, hfront, hs⟩ := trimStart_exists s
  obtain ⟨back, hback, hs'⟩ := trimEnd_exists (trimStart s)
  refine ⟨front, back, hfront, hback, ?_⟩
  rw [List.append_assoc]
  exact hs.trans (congrArg (front ++ ·) hs')

/-- Trimming stops at what is not blank. -/
theorem trim_cons (h : isSpace c = false) (s : List Char) : ∃ rest, trim (c :: s) = c :: rest := by
  have hstart : trimStart (c :: s) = [c] ++ s := by simp [trimStart, h]
  rw [trim, hstart]
  by_cases hs : s.all isSpace = true
  · rw [trimEnd_spaces hs]
    exact ⟨[], by simp [trimEnd, h]⟩
  · rw [trimEnd_append (by simpa using hs)]
    exact ⟨trimEnd s, rfl⟩

end StackDeck.Text
