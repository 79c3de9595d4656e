import StackDeck.Json.Render
import StackDeck.Proofs.Digits

/-!
Numbers written and read back. A whole number of 64 bits is read exactly. A decimal is written in one of several layouts, with a
point, an exponent or both; each of them has the value of the decimal, and the reader strips the zeros that a layout added.
-/

namespace StackDeck.Json

variable {ds rest : List Char} {n m : Nat} {e : Int}

/-- Decimals in their shortest form that are neither too large nor too small to be read. -/
def IsShortest (m : Nat) (e : Int) : Prop :=
  m = 0 ∧ e = 0 ∨
    m % 10 ≠ 0 ∧ -330 ≤ (Nat.toDigits 10 m).length + e ∧ m * 10 ^ e.toNat < binary64Limit * 10 ^ (-e).toNat

/-- Numbers that are read exactly: whole ones of 64 bits, and decimals in their shortest form. -/
def Number.IsExact : Number → Prop
  | .int n => -(2 ^ 63) ≤ n ∧ n < 2 ^ 64
  | .decimal _ m e => IsShortest m e

/-! ### Digits in front -/

theorem takeDigits_append (h : ∀ d ∈ ds, d.isDigit = true) (hrest : ∀ c ∈ rest.head?, c.isDigit = false) :
    takeDigits (ds ++ rest) = (ds, rest) := by
  induction ds with
  | nil =>
    cases rest with
    | nil => rfl
    | cons c r =>
      have hc : ¬c.isDigit = true := by
        rw [hrest c rfl]
        exact Bool.false_ne_true
      rw [List.nil_append, takeDigits, List.takeWhile_cons_of_neg hc, List.dropWhile_cons_of_neg hc]
  | cons d r ih =>
    have hd := h d List.mem_cons_self
    obtain ⟨htake, hdrop⟩ := Prod.mk.inj (ih fun e he => h e (List.mem_cons_of_mem d he))
    rw [List.cons_append, takeDigits, List.takeWhile_cons_of_pos hd, List.dropWhile_cons_of_pos hd, htake, hdrop]

theorem takeDigits_digits (h : ∀ d ∈ ds, d.isDigit = true) : takeDigits ds = (ds, []) := by
  have hend : ∀ c ∈ ([] : List Char).head?, c.isDigit = false := nofun
  have hall := takeDigits_append h hend
  rwa [List.append_nil] at hall

theorem ne_sign_of_isDigit {c : Char} (h : c.isDigit = true) : c ≠ '-' ∧ c ≠ '+' :=
  ⟨fun hc => absurd (hc ▸ h) (by decide), fun hc => absurd (hc ▸ h) (by decide)⟩

theorem isNumberChar_of_isDigit {c : Char} (h : c.isDigit = true) : isNumberChar c = true := by simp [isNumberChar, h]

/-! ### Whole numbers -/

/-- Some digits are refused only if there are none, or more than one with a zero in front. -/
theorem whole_sound (hne : ds ≠ []) (hhead : ds.head? = some '0' → ds.length ≤ 1) :
    (ds.isEmpty || ds.head? == some '0' && ds.length > 1) = false := by
  simp only [Bool.or_eq_false_iff, Bool.and_eq_false_imp, List.isEmpty_eq_false_iff]
  refine ⟨hne, fun hz => ?_⟩
  simp only [decide_eq_false_iff_not, Nat.not_lt, gt_iff_lt]
  exact hhead (beq_iff_eq.mp hz)

/-- The digits of a number are a whole number without a fraction or an exponent. -/
theorem whole_toDigits (n : Nat) :
    takeDigits (Nat.toDigits 10 n) = (Nat.toDigits 10 n, []) ∧
      ((Nat.toDigits 10 n).isEmpty || (Nat.toDigits 10 n).head? == some '0' && (Nat.toDigits 10 n).length > 1) = false :=
  ⟨takeDigits_digits fun _ => isDigit_of_mem_toDigits,
    whole_sound Nat.toDigits_ne_nil fun hz => Nat.not_lt.mp fun hlen => toDigits_head hlen hz⟩

theorem read?_nat (h : n < 2 ^ 64) : Number.read? (Nat.toDigits 10 n) = some (some (.int n)) := by
  obtain ⟨htake, hwhole⟩ := whole_toDigits n
  have hsize : n < UInt64.size := h
  have hsign : ∀ r, Nat.toDigits 10 n ≠ '-' :: r := fun r hr =>
    (ne_sign_of_isDigit (isDigit_of_mem_toDigits (n := n) (by rw [hr]; exact List.mem_cons_self))).1 rfl
  rw [Number.read?]
  · simp [htake, hwhole, digitsValue_toDigits, hsize]
  · exact hsign

theorem read?_neg (h : 0 < n) (h' : n ≤ 2 ^ 63) :
    Number.read? ('-' :: Nat.toDigits 10 n) = some (some (.int (-n))) := by
  obtain ⟨htake, hwhole⟩ := whole_toDigits n
  have hsize : 2 * n ≤ UInt64.size := by
    have : UInt64.size = 2 * 2 ^ 63 := rfl
    omega
  rw [Number.read?]
  simp [htake, hwhole, digitsValue_toDigits, hsize, h]

theorem render_nat (n : Nat) : (Number.int n).render = Nat.toDigits 10 n := Nat.toList_repr

theorem render_neg (n : Nat) : (Number.int (Int.negSucc n)).render = '-' :: Nat.toDigits 10 (n + 1) := by
  show ("-" ++ (n + 1).repr).toList = _
  rw [String.toList_append, Nat.toList_repr]
  rfl

theorem toDigits_chars (n : Nat) :
    ∃ c r, Nat.toDigits 10 n = c :: r ∧ c.isDigit = true ∧ ∀ d ∈ c :: r, isNumberChar d = true := by
  obtain ⟨c, r, hcr⟩ := List.exists_cons_of_ne_nil (Nat.toDigits_ne_nil (b := 10) (n := n))
  have hmem : ∀ d ∈ c :: r, d.isDigit = true := fun d hd => isDigit_of_mem_toDigits (n := n) (by rw [hcr]; exact hd)
  exact ⟨c, r, hcr, hmem c List.mem_cons_self, fun d hd => isNumberChar_of_isDigit (hmem d hd)⟩

theorem isNumberChar_of_mem_int (x : Int) : ∀ d ∈ (Number.int x).render, isNumberChar d = true := by
  cases x with
  | ofNat n =>
    intro d hd
    rw [Int.ofNat_eq_natCast, render_nat] at hd
    exact isNumberChar_of_isDigit (isDigit_of_mem_toDigits hd)
  | negSucc n =>
    intro d hd
    rw [render_neg, List.mem_cons] at hd
    rcases hd with rfl | hd
    · rfl
    · exact isNumberChar_of_isDigit (isDigit_of_mem_toDigits hd)

/-! ### Layouts -/

theorem signedExponent_digits (hne : ds ≠ []) (h : ∀ d ∈ ds, d.isDigit = true) :
    signedExponent ds = some (digitsValue ds : Int) := by
  obtain ⟨c, r, rfl⟩ := List.exists_cons_of_ne_nil hne
  obtain ⟨hminus, hplus⟩ := ne_sign_of_isDigit (h c List.mem_cons_self)
  have hall : (c :: r).all Char.isDigit = true := List.all_eq_true.mpr h
  rw [signedExponent, hall]
  · rfl
  · exact fun s hs => hminus (List.cons.inj hs).1
  · exact fun s hs => hplus (List.cons.inj hs).1

theorem signedExponent_render (x : Int) : signedExponent (Number.int x).render = some x := by
  cases x with
  | ofNat n =>
    rw [Int.ofNat_eq_natCast, render_nat, signedExponent_digits Nat.toDigits_ne_nil fun _ => isDigit_of_mem_toDigits,
      digitsValue_toDigits]
  | negSucc n =>
    have hall : (Nat.toDigits 10 (n + 1)).all Char.isDigit = true :=
      List.all_eq_true.mpr fun _ => isDigit_of_mem_toDigits
    have hempty : (Nat.toDigits 10 (n + 1)).isEmpty = false := List.isEmpty_eq_false_iff.mpr Nat.toDigits_ne_nil
    rw [render_neg, signedExponent, hall, hempty, digitsValue_toDigits]
    rfl

/-- A number written with a point, an exponent or both: the digits before the point, those behind it, and the exponent. -/
structure Layout where
  whole : List Char
  fraction : List Char
  exponent : Option Int
  whole_digits : ∀ d ∈ whole, d.isDigit = true
  fraction_digits : ∀ d ∈ fraction, d.isDigit = true
  whole_ne_nil : whole ≠ []
  whole_head : whole.head? = some '0' → whole.length ≤ 1
  marked : fraction = [] → exponent.isSome = true

namespace Layout

def pointChars (fraction : List Char) : List Char := if fraction.isEmpty then [] else '.' :: fraction

def exponentChars : Option Int → List Char
  | none => []
  | some x => 'e' :: (Number.int x).render

def chars (l : Layout) : List Char := l.whole ++ (pointChars l.fraction ++ exponentChars l.exponent)

def signed (negative : Bool) (s : List Char) : List Char := if negative then '-' :: s else s

/-- The layout has the value of this decimal, with some zeros added behind its digits. -/
def Shows (l : Layout) (m : Nat) (e : Int) : Prop :=
  ∃ k : Nat, digitsValue (l.whole ++ l.fraction) = m * 10 ^ k ∧ l.exponent.getD 0 - l.fraction.length = e - k

theorem exponent_head (x : Option Int) : ∀ c ∈ (exponentChars x).head?, c.isDigit = false := by
  cases x with
  | none => exact nofun
  | some x => exact fun c hc => Option.some.inj hc ▸ rfl

theorem point_head (fraction : List Char) (x : Option Int) :
    ∀ c ∈ (pointChars fraction ++ exponentChars x).head?, c.isDigit = false := by
  cases fraction with
  | nil => exact exponent_head x
  | cons d r => exact fun c hc => Option.some.inj hc ▸ rfl

theorem chars_ne_sign (l : Layout) (s : List Char) : l.chars ≠ '-' :: s := by
  obtain ⟨c, r, hcr⟩ := List.exists_cons_of_ne_nil l.whole_ne_nil
  have hc : c.isDigit = true := l.whole_digits c (by rw [hcr]; exact List.mem_cons_self)
  intro hs
  rw [chars, hcr] at hs
  exact (ne_sign_of_isDigit hc).1 (List.cons.inj hs).1

/-- What is read of a layout: its digits, and its exponent moved by the digits behind the point. -/
theorem read?_chars (l : Layout) (negative : Bool) :
    Number.read? (signed negative l.chars) =
      some (Number.ofDecimal negative (digitsValue (l.whole ++ l.fraction)) (l.exponent.getD 0 - l.fraction.length)) := by
  have hwhole : takeDigits l.chars = _ := takeDigits_append l.whole_digits (point_head l.fraction l.exponent)
  have hfraction := takeDigits_append l.fraction_digits (exponent_head l.exponent)
  have hsound := whole_sound l.whole_ne_nil l.whole_head
  -- With neither a point nor an exponent the digits would be read as a whole number.
  have hmarked := l.marked
  cases negative
  · rw [signed, if_neg Bool.false_ne_true, Number.read?.eq_2 _ l.chars_ne_sign, hwhole]
    cases hf : l.fraction <;> cases hx : l.exponent <;> simp_all [pointChars, exponentChars, signedExponent_render]
  · rw [signed, if_pos rfl, Number.read?.eq_1, hwhole]
    cases hf : l.fraction <;> cases hx : l.exponent <;> simp_all [pointChars, exponentChars, signedExponent_render]

theorem isNumberChar_of_mem_chars (l : Layout) : ∀ d ∈ l.chars, isNumberChar d = true := by
  have hpoint : ∀ d ∈ pointChars l.fraction, isNumberChar d = true := by
    intro d hd
    rw [pointChars] at hd
    split at hd
    next => cases hd
    next =>
      rcases List.mem_cons.mp hd with rfl | hd
      · rfl
      · exact isNumberChar_of_isDigit (l.fraction_digits d hd)
  have hexponent : ∀ d ∈ exponentChars l.exponent, isNumberChar d = true := by
    intro d hd
    cases hx : l.exponent with
    | none =>
      rw [hx] at hd
      cases hd
    | some x =>
      rw [hx, exponentChars, List.mem_cons] at hd
      rcases hd with rfl | hd
      · rfl
      · exact isNumberChar_of_mem_int x d hd
  intro d hd
  rw [chars, List.mem_append, List.mem_append] at hd
  rcases hd with hd | hd | hd
  · exact isNumberChar_of_isDigit (l.whole_digits d hd)
  · exact hpoint d hd
  · exact hexponent d hd

end Layout

theorem isDigit_of_mem_zeros {c : Char} {k : Nat} (h : c ∈ zeros k) : c.isDigit = true := by
  rw [List.eq_of_mem_replicate h]
  rfl

theorem toDigits_head_of_ne_zero (h : m ≠ 0) : (Nat.toDigits 10 m).head? ≠ some '0' := by
  intro hz
  obtain ⟨c, r, hcr, -, -⟩ := toDigits_chars m
  have hc : c = '0' := by simpa [hcr] using hz
  have hr : r = [] := by
    by_contra hr
    refine toDigits_head ?_ hz
    rw [hcr, List.length_cons]
    have := List.length_pos_iff.mpr hr
    omega
  have hvalue := digitsValue_toDigits m
  rw [hcr, hc, hr] at hvalue
  exact h hvalue.symm

/-- The sign of a decimal stands in front of its digits. -/
theorem renderDecimal_eq (negative : Bool) (m : Nat) (e : Int) :
    renderDecimal negative m e = Layout.signed negative (renderDecimal false m e) := by
  cases negative <;> rfl

open Layout in
/-- The digits of a decimal with a point somewhere behind the first, or with no point and an exponent. -/
theorem exists_layout_cut {p : Nat} (hm : m ≠ 0) (hp : 0 < p) (x : Option Int)
    (hmarked : (Nat.toDigits 10 m).drop p = [] → x.isSome = true)
    (he : x.getD 0 - ((Nat.toDigits 10 m).drop p).length = e) :
    ∃ l : Layout, l.Shows m e ∧
      l.chars = (Nat.toDigits 10 m).take p ++ (pointChars ((Nat.toDigits 10 m).drop p) ++ exponentChars x) := by
  obtain ⟨c, r, hcr, -, -⟩ := toDigits_chars m
  have hhead : ((Nat.toDigits 10 m).take p).head? ≠ some '0' := by
    rw [List.head?_take, if_neg hp.ne']
    exact toDigits_head_of_ne_zero hm
  refine ⟨⟨(Nat.toDigits 10 m).take p, (Nat.toDigits 10 m).drop p, x, fun d hd => ?_, fun d hd => ?_, ?_, ?_, hmarked⟩,
    ⟨0, ?_, ?_⟩, rfl⟩
  · exact isDigit_of_mem_toDigits (List.mem_of_mem_take hd)
  · exact isDigit_of_mem_toDigits (List.mem_of_mem_drop hd)
  · simp [hcr, hp.ne']
  · exact fun hz => absurd hz hhead
  · simp [digitsValue_toDigits]
  · simpa using he

open Layout in
/-- A whole number with a point and a zero behind it. -/
theorem exists_layout_whole (hm : m ≠ 0) (he : 0 ≤ e) :
    ∃ l : Layout, l.Shows m e ∧ l.chars = Nat.toDigits 10 m ++ zeros e.toNat ++ ['.', '0'] := by
  obtain ⟨c, r, hcr, -, -⟩ := toDigits_chars m
  have hhead : (Nat.toDigits 10 m ++ zeros e.toNat).head? ≠ some '0' := by
    have := toDigits_head_of_ne_zero hm
    rwa [hcr] at this ⊢
  refine ⟨⟨Nat.toDigits 10 m ++ zeros e.toNat, ['0'], none, fun d hd => ?_, ?_, ?_, ?_, nofun⟩, ⟨e.toNat + 1, ?_, ?_⟩, rfl⟩
  · rcases List.mem_append.mp hd with hd | hd
    · exact isDigit_of_mem_toDigits hd
    · exact isDigit_of_mem_zeros hd
  · simp
  · simp [hcr]
  · exact fun hz => absurd hz hhead
  · have hzeros : zeros e.toNat ++ ['0'] = List.replicate (e.toNat + 1) '0' ++ [] := by
      rw [zeros, List.append_nil, ← List.replicate_one, List.replicate_append_replicate]
    rw [List.append_assoc, hzeros, digitsValue_append, digitsValue_toDigits, digitsValue_zeros, List.append_nil,
      List.length_replicate]
    rfl
  · simp only [Option.getD_none, List.length_singleton]
    omega

open Layout in
/-- A fraction below one, with a zero before the point. -/
theorem exists_layout_fraction {k : Nat} (he : -((k + (Nat.toDigits 10 m).length : Nat) : Int) = e) :
    ∃ l : Layout, l.Shows m e ∧ l.chars = '0' :: '.' :: (zeros k ++ Nat.toDigits 10 m) := by
  obtain ⟨c, r, hcr, -, -⟩ := toDigits_chars m
  refine ⟨⟨['0'], zeros k ++ Nat.toDigits 10 m, none, ?_, fun d hd => ?_, nofun, ?_, ?_⟩, ⟨0, ?_, ?_⟩, ?_⟩
  · simp
  · rcases List.mem_append.mp hd with hd | hd
    · exact isDigit_of_mem_zeros hd
    · exact isDigit_of_mem_toDigits hd
  · simp
  · simp [hcr]
  · have hzeros : ['0'] ++ (zeros k ++ Nat.toDigits 10 m) = List.replicate (k + 1) '0' ++ Nat.toDigits 10 m := by
      rw [zeros, ← List.append_assoc, ← List.replicate_one, List.replicate_append_replicate, Nat.add_comm]
    rw [hzeros, digitsValue_zeros, digitsValue_toDigits, Nat.pow_zero, Nat.mul_one]
  · simpa [zeros] using he
  · simp [chars, pointChars, exponentChars, hcr]

/-- Every decimal is written in a layout that has its value. -/
theorem exists_layout (h : m = 0 → e = 0) : ∃ l : Layout, l.Shows m e ∧ renderDecimal false m e = l.chars := by
  by_cases hm : m = 0
  · obtain rfl := hm
    obtain rfl := h rfl
    have hzero : ∀ d ∈ ['0'], d.isDigit = true := by simp
    exact ⟨⟨['0'], ['0'], none, hzero, hzero, nofun, fun _ => Nat.le_refl 1, nofun⟩, ⟨1, rfl, rfl⟩, rfl⟩
  obtain ⟨c, r, hcr, -, -⟩ := toDigits_chars m
  simp only [renderDecimal, beq_eq_false_iff_ne.mpr hm, Bool.false_eq_true, if_false]
  generalize hpoint : ((Nat.toDigits 10 m).length : Int) + e = point
  split
  next hwhole =>
    obtain ⟨he, -⟩ : 0 ≤ e ∧ point ≤ 16 := by simpa using hwhole
    obtain ⟨l, hl, hchars⟩ := exists_layout_whole hm he
    exact ⟨l, hl, hchars.symm⟩
  split
  next hwhole hcut =>
    obtain ⟨hpos, hmax⟩ : 0 < point ∧ point ≤ 16 := by simpa using hcut
    have he : e < 0 := by
      by_contra hge
      exact hwhole (by simpa using ⟨Int.not_lt.mp hge, hmax⟩)
    have hlen : (((Nat.toDigits 10 m).drop point.toNat).length : Int) = -e := by
      rw [List.length_drop]
      omega
    have hne : (Nat.toDigits 10 m).drop point.toNat ≠ [] := by
      rw [← List.length_pos_iff]
      omega
    obtain ⟨l, hl, hchars⟩ :=
      exists_layout_cut (p := point.toNat) (e := e) hm (by omega) none (fun hnil => absurd hnil hne) (by rw [hlen]; simp)
    exact ⟨l, hl, by simp [hchars, Layout.pointChars, Layout.exponentChars, hne]⟩
  split
  next hsmall =>
    obtain ⟨hmin, hmax⟩ : -5 < point ∧ point ≤ 0 := by simpa using hsmall
    obtain ⟨l, hl, hchars⟩ := exists_layout_fraction (m := m) (e := e) (k := (-point).toNat) (by omega)
    exact ⟨l, hl, hchars.symm⟩
  next =>
    have hlen : (((Nat.toDigits 10 m).drop 1).length : Int) = (Nat.toDigits 10 m).length - 1 := by
      simp [hcr]
    obtain ⟨l, hl, hchars⟩ :=
      exists_layout_cut (p := 1) (e := e) hm Nat.one_pos (some (point - 1)) (fun _ => rfl)
        (by rw [hlen, Option.getD_some]; omega)
    refine ⟨l, hl, hchars ▸ ?_⟩
    rw [hcr]
    cases r <;> simp [Layout.pointChars, Layout.exponentChars, Number.render]

/-! ### Decimals -/

theorem stripZeros_of_mod_ne_zero (h : m % 10 ≠ 0) (fuel : Nat) (e : Int) : stripZeros fuel m e = (m, e) := by
  cases fuel with
  | zero => rfl
  | succ fuel => rw [stripZeros, beq_eq_false_iff_ne.mpr h, Bool.false_and, if_neg Bool.false_ne_true]

/-- The zeros that were added behind the digits are dropped. -/
theorem stripZeros_mul_pow (h : m % 10 ≠ 0) {k fuel : Nat} (hk : k ≤ fuel) (e : Int) :
    stripZeros fuel (m * 10 ^ k) (e - k) = (m, e) := by
  induction k generalizing fuel with
  | zero => simpa using stripZeros_of_mod_ne_zero h fuel e
  | succ k ih =>
    obtain ⟨fuel, rfl⟩ : ∃ f, fuel = f + 1 := ⟨fuel - 1, by omega⟩
    have hm : m ≠ 0 := fun hz => h (by rw [hz])
    have hdiv : m * 10 ^ (k + 1) = m * 10 ^ k * 10 := by rw [Nat.pow_succ, Nat.mul_assoc]
    have hlast : (m * 10 ^ k * 10 % 10 == 0 && m * 10 ^ k * 10 != 0) = true := by
      simp [hm]
    have hexp : e - ((k + 1 : Nat) : Int) + 1 = e - k := by omega
    rw [hdiv, stripZeros, if_pos hlast, Nat.mul_div_cancel _ (by decide), hexp]
    exact ih (by omega)

theorem length_toDigits_mul_pow (hm : m ≠ 0) (k : Nat) :
    (Nat.toDigits 10 (m * 10 ^ k)).length = (Nat.toDigits 10 m).length + k := by
  induction k with
  | zero => simp
  | succ k ih =>
    have hpos : 0 < m * 10 ^ k := Nat.mul_pos (Nat.pos_of_ne_zero hm) (Nat.pow_pos (by decide))
    have hten : m * 10 ^ (k + 1) = 10 * (m * 10 ^ k) + 0 := by
      rw [Nat.pow_succ, ← Nat.mul_assoc, Nat.mul_comm, Nat.add_zero]
    have hzero : (Nat.toDigits 10 0).length = 1 := rfl
    rw [hten, ← Nat.toDigits_append_toDigits (by decide) hpos (by decide), List.length_append, ih, hzero, Nat.add_assoc]

theorem pow_length_le (hm : m ≠ 0) : 10 ^ ((Nat.toDigits 10 m).length - 1) ≤ m := by
  by_contra hlt
  rcases Nat.eq_zero_or_pos ((Nat.toDigits 10 m).length - 1) with hone | hmore
  · rw [hone] at hlt
    omega
  · have := length_toDigits_le hmore (Nat.not_le.mp hlt)
    omega

/-- A number below a bound has no more digits before its point than the bound. -/
theorem length_le_of_lt {limit width : Nat} (hlimit : limit < 10 ^ width) (hm : m ≠ 0)
    (h : m * 10 ^ e.toNat < limit * 10 ^ (-e).toNat) : ((Nat.toDigits 10 m).length : Int) + e ≤ width := by
  have hlow : 10 ^ ((Nat.toDigits 10 m).length - 1 + e.toNat) ≤ m * 10 ^ e.toNat := by
    rw [Nat.pow_add]
    exact Nat.mul_le_mul_right _ (pow_length_le hm)
  have hhigh : limit * 10 ^ (-e).toNat < 10 ^ (width + (-e).toNat) := by
    rw [Nat.pow_add]
    exact Nat.mul_lt_mul_of_pos_right hlimit (Nat.pow_pos (by decide))
  have hlt := (Nat.pow_lt_pow_iff_right (by decide)).mp (hlow.trans_lt (h.trans hhigh))
  omega

theorem binary64Limit_lt : binary64Limit < 10 ^ 310 := by decide +kernel

/-- A decimal stays on its side of a bound when zeros are added behind its digits. -/
theorem lt_zeros_iff {limit : Nat} (k : Nat) :
    m * 10 ^ k * 10 ^ (e - k).toNat < limit * 10 ^ (-(e - k)).toNat ↔ m * 10 ^ e.toNat < limit * 10 ^ (-e).toNat := by
  have hsum : k + (e - k).toNat + (-e).toNat = e.toNat + (-(e - k)).toNat := by omega
  have hleft : m * 10 ^ k * 10 ^ (e - k).toNat * 10 ^ (-e).toNat = m * 10 ^ e.toNat * 10 ^ (-(e - k)).toNat := by
    calc m * 10 ^ k * 10 ^ (e - k).toNat * 10 ^ (-e).toNat
        = m * 10 ^ (k + (e - k).toNat + (-e).toNat) := by ring
      _ = m * 10 ^ e.toNat * 10 ^ (-(e - k)).toNat := by rw [hsum, Nat.pow_add, Nat.mul_assoc]
  have hright : limit * 10 ^ (-(e - k)).toNat * 10 ^ (-e).toNat = limit * 10 ^ (-e).toNat * 10 ^ (-(e - k)).toNat :=
    Nat.mul_right_comm _ _ _
  rw [← Nat.mul_lt_mul_right (a := 10 ^ (-e).toNat) (Nat.pow_pos (by decide)), hleft, hright,
    Nat.mul_lt_mul_right (Nat.pow_pos (by decide))]

/-- A decimal is read in its shortest form, whatever zeros were added behind its digits. -/
theorem ofDecimal_mul_pow (h : IsShortest m e) (negative : Bool) (k : Nat) :
    Number.ofDecimal negative (m * 10 ^ k) (e - k) = some (.decimal negative m e) := by
  rcases h with ⟨rfl, rfl⟩ | ⟨hlast, hmin, hmax⟩
  · rw [Nat.zero_mul]
    rfl
  have hm : m ≠ 0 := fun hz => hlast (by rw [hz])
  have hpos : (m * 10 ^ k == 0) = false :=
    beq_eq_false_iff_ne.mpr (Nat.mul_ne_zero hm (Nat.pow_pos (by decide)).ne')
  have hlen := length_toDigits_mul_pow hm k
  have hwidth : ((Nat.toDigits 10 (m * 10 ^ k)).length : Int) + (e - k) = (Nat.toDigits 10 m).length + e := by omega
  have hfuel : k ≤ ((Nat.toDigits 10 (m * 10 ^ k)).length : Int).toNat := by omega
  have hsmall := length_le_of_lt binary64Limit_lt hm hmax
  simp only [Number.ofDecimal, Nat.pow_eq, hwidth, hpos, stripZeros_mul_pow hlast hfuel]
  -- The bound stays a name: nothing here depends on how large it is.
  generalize binary64Limit = limit at hmax ⊢
  rw [if_neg, if_neg, if_neg]
  · exact Nat.not_le.mpr ((lt_zeros_iff k).mpr hmax)
  · omega
  · simpa using hmin

/-! ### Numbers -/

/-- A number is written with its sign in front of a layout. -/
theorem decimal_layout (h : IsShortest m e) (negative : Bool) :
    ∃ l : Layout, l.Shows m e ∧ (Number.decimal negative m e).render = Layout.signed negative l.chars := by
  have hzero : m = 0 → e = 0 := by
    rintro rfl
    rcases h with ⟨-, he⟩ | ⟨hlast, -, -⟩
    · exact he
    · exact absurd rfl hlast
  obtain ⟨l, hl, hchars⟩ := exists_layout hzero
  exact ⟨l, hl, by rw [Number.render, renderDecimal_eq, hchars]⟩

/-- A number is read back. -/
theorem read?_render {n : Number} (h : n.IsExact) : Number.read? n.render = some (some n) := by
  cases n with
  | decimal negative m e =>
    obtain ⟨l, ⟨k, hvalue, hexp⟩, hl⟩ := decimal_layout h negative
    rw [hl, l.read?_chars, hvalue, hexp, ofDecimal_mul_pow h]
  | int n =>
    obtain ⟨hmin, hmax⟩ := h
    cases n with
    | ofNat n =>
      have hlt : (n : Int) < 2 ^ 64 := hmax
      exact (congrArg Number.read? (render_nat n)).trans (read?_nat (by omega))
    | negSucc n =>
      rw [render_neg, read?_neg (Nat.succ_pos n) (by omega)]
      rfl

/-- A number starts as no other value does, and goes on in characters of numbers. -/
theorem render_chars {n : Number} (h : n.IsExact) :
    ∃ c r, n.render = c :: r ∧ (c.isDigit || c == '-') = true ∧ ∀ d ∈ r, isNumberChar d = true := by
  cases n with
  | decimal negative m e =>
    obtain ⟨l, -, hl⟩ := decimal_layout h negative
    obtain ⟨c, r, hcr⟩ := List.exists_cons_of_ne_nil l.whole_ne_nil
    have hchars : l.chars = c :: (r ++ (Layout.pointChars l.fraction ++ Layout.exponentChars l.exponent)) := by
      rw [Layout.chars, hcr, List.cons_append]
    have hc : c.isDigit = true := l.whole_digits c (by rw [hcr]; exact List.mem_cons_self)
    have hall := l.isNumberChar_of_mem_chars
    rw [hchars] at hall hl
    cases negative with
    | false => exact ⟨c, _, hl, by rw [hc]; rfl, fun d hd => hall d (List.mem_cons_of_mem c hd)⟩
    | true => exact ⟨'-', _, hl, rfl, hall⟩
  | int n =>
    cases n with
    | ofNat n =>
      obtain ⟨c, r, hcr, hc, hr⟩ := toDigits_chars n
      exact ⟨c, r, (render_nat n).trans hcr, by rw [hc]; rfl, fun d hd => hr d (List.mem_cons_of_mem c hd)⟩
    | negSucc n =>
      obtain ⟨c, r, hcr, -, hr⟩ := toDigits_chars (n + 1)
      exact ⟨'-', c :: r, by rw [render_neg, hcr], rfl, hr⟩

end StackDeck.Json
