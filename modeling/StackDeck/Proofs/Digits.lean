import Mathlib.Tactic.Ring
import StackDeck.Json.Tree

/-!
Decimal digits: what is written for a number is its digits alone, and they have its value.
-/

namespace StackDeck.Json

variable {ds : List Char}

theorem digitsValue_cons (c : Char) (ds : List Char) :
    digitsValue (c :: ds) = (c.toNat - 48) * 10 ^ ds.length + digitsValue ds := by
  have hfrom : ∀ n, ds.foldl (fun n c => n * 10 + (c.toNat - 48)) n = n * 10 ^ ds.length + digitsValue ds := by
    induction ds with
    | nil => intro n; simp [digitsValue]
    | cons d r ih =>
      intro n
      rw [digitsValue, List.foldl_cons, List.foldl_cons, ih, ih]
      simp only [List.length_cons, Nat.pow_succ]
      ring
  rw [digitsValue, List.foldl_cons, hfrom]
  simp

theorem digitsValue_append (ds es : List Char) :
    digitsValue (ds ++ es) = digitsValue ds * 10 ^ es.length + digitsValue es := by
  induction ds with
  | nil => simp [digitsValue]
  | cons c r ih =>
    rw [List.cons_append, digitsValue_cons, ih, digitsValue_cons, List.length_append, Nat.pow_add]
    ring

theorem digitsValue_toDigits (n : Nat) : digitsValue (Nat.toDigits 10 n) = n := by
  have h := Nat.ofDigitChars_toDigits (b := 10) (n := n) (by decide) (by decide)
  rw [Nat.ofDigitChars_eq_foldl] at h
  calc digitsValue (Nat.toDigits 10 n)
      = (Nat.toDigits 10 n).foldl (fun n c => 10 * n + (c.toNat - '0'.toNat)) 0 := by
        simp only [digitsValue, Nat.mul_comm 10]
        rfl
    _ = n := h

theorem isDigit_of_mem_toDigits {c : Char} {n : Nat} (h : c ∈ Nat.toDigits 10 n) : c.isDigit = true :=
  Nat.isDigit_of_mem_toDigits (by decide) (by decide) h

theorem toNat_of_isDigit {c : Char} (h : c.isDigit = true) : 48 ≤ c.toNat ∧ c.toNat ≤ 57 := by
  rw [Char.isDigit, Bool.and_eq_true, decide_eq_true_eq, decide_eq_true_eq] at h
  exact ⟨UInt32.le_iff_toNat_le.mp h.1, UInt32.le_iff_toNat_le.mp h.2⟩

theorem digitsValue_lt (h : ∀ c ∈ ds, c.isDigit = true) : digitsValue ds < 10 ^ ds.length := by
  induction ds with
  | nil => exact Nat.one_pos
  | cons c r ih =>
    have hc := toNat_of_isDigit (h c List.mem_cons_self)
    have hr := ih fun d hd => h d (List.mem_cons_of_mem c hd)
    rw [digitsValue_cons, List.length_cons, Nat.pow_succ]
    have hmul : (c.toNat - 48) * 10 ^ r.length ≤ 9 * 10 ^ r.length := Nat.mul_le_mul_right _ (by omega)
    omega

theorem length_toDigits_le {n k : Nat} (hk : 0 < k) (hn : n < 10 ^ k) : (Nat.toDigits 10 n).length ≤ k :=
  (Nat.length_toDigits_le_iff (by decide) hk).mpr hn

/-- No number of two digits or more starts with a zero. -/
theorem toDigits_head {n : Nat} (h : 1 < (Nat.toDigits 10 n).length) : (Nat.toDigits 10 n).head? ≠ some '0' := by
  intro hz
  obtain ⟨r, hr⟩ : ∃ r, Nat.toDigits 10 n = '0' :: r := by
    cases hd : Nat.toDigits 10 n with
    | nil => rw [hd] at hz; exact absurd hz nofun
    | cons c r => rw [hd] at hz; exact ⟨r, by rw [Option.some.inj hz]⟩
  have hlen : 0 < r.length := by simpa [hr] using h
  have hvalue : digitsValue r = n := by simpa [hr, digitsValue_cons] using digitsValue_toDigits n
  have hlt : n < 10 ^ r.length := by
    rw [← hvalue]
    exact digitsValue_lt fun c hc => isDigit_of_mem_toDigits (n := n) (by rw [hr]; exact List.mem_cons_of_mem _ hc)
  have hle := length_toDigits_le hlen hlt
  rw [hr, List.length_cons] at hle
  omega

theorem digitsValue_zeros (k : Nat) (ds : List Char) :
    digitsValue (List.replicate k '0' ++ ds) = digitsValue ds := by
  induction k with
  | zero => rfl
  | succ k ih =>
    rw [List.replicate_succ, List.cons_append, digitsValue_cons, ih]
    simp

end StackDeck.Json
