import StackDeck.Proofs.Json.Format
import StackDeck.Proofs.Json.Nesting
import StackDeck.Proofs.Json.Value

/-!
The values that texts hold. Whatever is read has exact numbers and sorted fields, so the values that are written and read back are
all the values that there are to read.
-/

namespace StackDeck.Json

variable {m : Nat} {e : Int} {rest : List Char} {n : Number}

/-! ### Numbers that are read -/

theorem lt_pow_length (m : Nat) : m < 10 ^ (Nat.toDigits 10 m).length := by
  have hlt := digitsValue_lt fun c (hc : c ∈ Nat.toDigits 10 m) => isDigit_of_mem_toDigits hc
  rwa [digitsValue_toDigits] at hlt

/-- Of a number that is not zero all zeros at the end are dropped. -/
theorem exists_stripZeros (hm : m ≠ 0) {fuel : Nat} (hfuel : m < 10 ^ fuel) (e : Int) :
    ∃ d k : Nat, stripZeros fuel m e = (d, e + k) ∧ m = d * 10 ^ k ∧ d % 10 ≠ 0 := by
  induction fuel generalizing m e with
  | zero => exact absurd hfuel (by simpa using hm)
  | succ fuel ih =>
    by_cases hlast : m % 10 = 0
    · have hpow : 10 ^ (fuel + 1) = 10 ^ fuel * 10 := Nat.pow_succ ..
      obtain ⟨d, k, hstrip, hd, hmod⟩ := ih (m := m / 10) (by omega) (by omega) (e + 1)
      refine ⟨d, k + 1, ?_, ?_, hmod⟩
      · rw [stripZeros, if_pos (by simp [hlast, hm]), hstrip, Nat.cast_add, Nat.cast_one, Int.add_assoc, Int.add_comm 1]
      · rw [Nat.pow_succ, ← Nat.mul_assoc, ← hd]
        omega
    · exact ⟨m, 0, by simpa using stripZeros_of_mod_ne_zero hlast _ e, by simp, hlast⟩

/-- What is read of a decimal is in its shortest form. -/
theorem isExact_of_ofDecimal {negative : Bool} {n : Number} (h : Number.ofDecimal negative m e = some n) : n.IsExact := by
  simp only [Number.ofDecimal, Nat.pow_eq] at h
  split at h
  next =>
    obtain rfl := Option.some.inj h
    exact .inl ⟨rfl, rfl⟩
  next hmin =>
    simp only [Bool.or_eq_true, beq_iff_eq, decide_eq_true_eq, not_or, Int.not_lt] at hmin
    split at h
    next => exact absurd h (by simp)
    next =>
      split at h
      next => exact absurd h (by simp)
      next hmax =>
        obtain ⟨d, k, hstrip, hd, hmod⟩ := exists_stripZeros hmin.1 (lt_pow_length m) e
        have hzero : d ≠ 0 := fun hz => hmod (by rw [hz])
        have hlen := length_toDigits_mul_pow hzero k
        rw [← hd] at hlen
        rw [Int.toNat_natCast, hstrip] at h
        obtain rfl := Option.some.inj h
        have hlow : -330 ≤ ((Nat.toDigits 10 d).length : Int) + (e + k) := by omega
        refine .inr ⟨hmod, hlow, (lt_zeros_iff k).mp ?_⟩
        rw [Int.add_sub_cancel, ← hd]
        exact Nat.not_le.mp hmax

/-- The number that some digits make with what stands behind them. -/
theorem isExact_of_end {negative point : Bool} {k : Int} {n : Number}
    (h : (match rest with
      | [] =>
        if !point && !negative && m < UInt64.size then some (some (Number.int m))
        else if !point && negative && 0 < m && 2 * m ≤ UInt64.size then some (some (Number.int (-(m : Int))))
        else some (Number.ofDecimal negative m (-k))
      | c :: r =>
        if c == 'e' || c == 'E' then (signedExponent r).map fun e => Number.ofDecimal negative m (e - k) else none) =
      some (some n)) : n.IsExact := by
  have hsize : UInt64.size = 2 ^ 64 := rfl
  cases rest with
  | nil =>
    simp only at h
    split at h
    next hbound =>
      obtain rfl := Option.some.inj (Option.some.inj h)
      simp only [Bool.and_eq_true, decide_eq_true_eq] at hbound
      exact ⟨by omega, by omega⟩
    next =>
      split at h
      next hbound =>
        obtain rfl := Option.some.inj (Option.some.inj h)
        simp only [Bool.and_eq_true, decide_eq_true_eq] at hbound
        exact ⟨by omega, by omega⟩
      next => exact isExact_of_ofDecimal (Option.some.inj h)
  | cons c r =>
    simp only at h
    split at h
    next =>
      obtain ⟨e, -, he⟩ := Option.map_eq_some_iff.mp h
      exact isExact_of_ofDecimal he
    next => exact absurd h nofun

theorem isExact_of_read? {s : List Char} {n : Number} (h : Number.read? s = some (some n)) : n.IsExact := by
  simp only [Number.read?] at h
  obtain ⟨-, h⟩ := Option.ite_none_left_eq_some.mp h
  obtain ⟨-, h⟩ := Option.ite_none_left_eq_some.mp h
  exact isExact_of_end h

/-! ### Tokens that are read -/

/-- A token whose number, if it has one, is exact. -/
def Token.IsExact : Token → Prop
  | .num (some n) => n.IsExact
  | _ => True

section

variable {t : Token} {ts : List Token} {mode : Mode} {s : List Char}

theorem isExact_of_word? (h : word? s = some t) : t.IsExact := by
  unfold word? at h
  split at h
  next => exact Option.some.inj h ▸ trivial
  next =>
    split at h
    next => exact Option.some.inj h ▸ trivial
    next =>
      split at h
      next => exact Option.some.inj h ▸ trivial
      next => exact absurd h nofun

theorem isExact_of_number {n : Option Number} (h : Number.read? s = some n) : (Token.num n).IsExact := by
  cases n with
  | none => trivial
  | some n => exact isExact_of_read? h

/-- All tokens that a character gives are exact. -/
def Gives (o : Option (Mode × List Token)) : Prop := ∀ p, o = some p → ∀ t ∈ p.2, t.IsExact

theorem gives_nothing (mode : Mode) : Gives (some (mode, [])) := fun _ h => Option.some.inj h ▸ nofun

theorem gives_none : Gives none := nofun

theorem Gives.ite {p : Prop} [Decidable p] {o o' : Option (Mode × List Token)} (h : Gives o) (h' : Gives o') :
    Gives (if p then o else o') := by
  split
  · exact h
  · exact h'

theorem gives_punctuation (c : Char) : Gives ((punctuation? c).map fun t => (.idle, [t])) := by
  have hmark : ∀ t, punctuation? c = some t → t.IsExact := by
    intro t ht
    unfold punctuation? at ht
    split at ht
    iterate 6 exact Option.some.inj ht ▸ trivial
    exact absurd ht nofun
  intro p h
  obtain ⟨t, ht, rfl⟩ := Option.map_eq_some_iff.mp h
  exact List.forall_mem_singleton.mpr (hmark t ht)

theorem gives_fromIdle (c : Char) : Gives (fromIdle c) :=
  .ite (gives_nothing _) (.ite (gives_nothing _) (.ite (gives_nothing _) (.ite (gives_nothing _) (gives_punctuation c))))

/-- The end of a word or a number gives it, and then what its last character begins. -/
theorem gives_ended {α : Type} {o : Option α} {f : α → Token} (h : ∀ a, o = some a → (f a).IsExact) (c : Char) :
    Gives (do
      let a ← o
      let (mode, ts) ← fromIdle c
      some (mode, f a :: ts)) := by
  intro p hp
  obtain ⟨a, ha, hp⟩ := Option.bind_eq_some_iff.mp hp
  obtain ⟨q, hq, hp⟩ := Option.bind_eq_some_iff.mp hp
  obtain rfl := Option.some.inj hp
  exact List.forall_mem_cons.mpr ⟨h a ha, gives_fromIdle c q hq⟩

theorem gives_step (mode : Mode) (c : Char) : Gives (step mode c) := by
  cases mode with
  | idle => exact gives_fromIdle c
  | word g => exact .ite (gives_nothing _) (gives_ended (f := id) (fun _ => isExact_of_word?) c)
  | number g => exact .ite (gives_nothing _) (gives_ended (fun _ => isExact_of_number) c)
  | text g sound high =>
    refine .ite (gives_nothing _) (.ite (fun p h => ?_) (.ite gives_none (gives_nothing _)))
    exact Option.some.inj h ▸ List.forall_mem_singleton.mpr trivial
  | escape g sound high =>
    refine .ite (gives_nothing _) fun p h => ?_
    obtain ⟨e, -, h⟩ := Option.bind_eq_some_iff.mp h
    exact gives_nothing _ p h
  | hex g sound high left code =>
    intro p h
    obtain ⟨d, -, h⟩ := Option.bind_eq_some_iff.mp h
    exact Gives.ite (gives_nothing _) (gives_nothing _) p h

theorem isExact_of_finish (h : finish mode = some ts) : ∀ t ∈ ts, t.IsExact := by
  cases mode with
  | idle =>
    obtain rfl := Option.some.inj h
    exact nofun
  | word g =>
    obtain ⟨t, ht, rfl⟩ := Option.map_eq_some_iff.mp h
    exact List.forall_mem_singleton.mpr (isExact_of_word? ht)
  | number g =>
    obtain ⟨n, hn, rfl⟩ := Option.map_eq_some_iff.mp h
    exact List.forall_mem_singleton.mpr (isExact_of_number hn)
  | _ => exact absurd h nofun

theorem isExact_of_tokens (h : tokens s = some ts) : ∀ t ∈ ts, t.IsExact := by
  have hfrom (r : List Char) (mode : Mode) (done : List Token) (hdone : ∀ t ∈ done, t.IsExact)
      (hr : tokensFrom mode done r = some ts) : ∀ t ∈ ts, t.IsExact := by
    induction r generalizing mode done with
    | nil =>
      obtain ⟨us, hus, rfl⟩ := Option.map_eq_some_iff.mp hr
      intro t ht
      rcases List.mem_append.mp ht with ht | ht
      · exact hdone t (List.mem_reverse.mp ht)
      · exact isExact_of_finish hus t ht
    | cons c r ih =>
      obtain ⟨⟨mode', us⟩, hstep, hr⟩ := Option.bind_eq_some_iff.mp hr
      refine ih mode' (us.reverse ++ done) (fun t ht => ?_) hr
      rcases List.mem_append.mp ht with ht | ht
      · exact gives_step mode c _ hstep t (List.mem_reverse.mp ht)
      · exact hdone t ht
  exact hfrom s .idle [] nofun h

end

/-! ### Trees that are read -/

mutual

/-- A tree whose numbers are exact wherever it has them. -/
def Tree.IsExact : Tree → Prop
  | .num (some n) => n.IsExact
  | .arr items => ExactTrees items
  | .obj fields => ExactTreeFields fields
  | _ => True

def ExactTrees : List Tree → Prop
  | [] => True
  | t :: r => t.IsExact ∧ ExactTrees r

def ExactTreeFields : List (Option String × Tree) → Prop
  | [] => True
  | (_, t) :: r => t.IsExact ∧ ExactTreeFields r

end

/-- A container that is not closed yet and holds exact numbers. -/
def Frame.IsExact : Frame → Prop
  | .arr items => ∀ t ∈ items, t.IsExact
  | .obj fields _ => ∀ f ∈ fields, f.2.IsExact

/-- A place in a value whose numbers so far are exact. -/
structure IsExactPlace (p : List Frame × Expect) : Prop where
  frames : ∀ f ∈ p.1, f.IsExact
  finished : ∀ t, p.2 = .finished t → t.IsExact

section

variable {s : List Frame} {p : List Frame × Expect} {t : Tree} {k : Token}

theorem exactTrees_iff {items : List Tree} : ExactTrees items ↔ ∀ t ∈ items, t.IsExact := by
  induction items with
  | nil => exact iff_of_true trivial nofun
  | cons t r ih => rw [ExactTrees, ih, List.forall_mem_cons]

theorem exactTreeFields_iff {fields : List (Option String × Tree)} :
    ExactTreeFields fields ↔ ∀ f ∈ fields, f.2.IsExact := by
  induction fields with
  | nil => exact iff_of_true trivial nofun
  | cons f r ih => rw [ExactTreeFields, ih, List.forall_mem_cons]

theorem isExactPlace_go {e : Expect} (hs : ∀ f ∈ s, f.IsExact) (he : ∀ t, e ≠ .finished t) : IsExactPlace (s, e) :=
  ⟨hs, fun t ht => absurd ht (he t)⟩

theorem isExactPlace_place (ht : t.IsExact) (hs : ∀ f ∈ s, f.IsExact) : IsExactPlace (place t s) := by
  cases s with
  | nil => exact ⟨nofun, fun u hu => Expect.finished.inj hu ▸ ht⟩
  | cons f r =>
    obtain ⟨hf, hr⟩ := List.forall_mem_cons.mp hs
    cases f with
    | arr items =>
      exact isExactPlace_go (List.forall_mem_cons.mpr ⟨List.forall_mem_cons.mpr ⟨ht, hf⟩, hr⟩) nofun
    | obj fields key =>
      exact isExactPlace_go (List.forall_mem_cons.mpr ⟨List.forall_mem_cons.mpr ⟨ht, hf⟩, hr⟩) nofun

theorem isExactPlace_startValue (hs : ∀ f ∈ s, f.IsExact) (hk : k.IsExact) (h : startValue s k = some p) :
    IsExactPlace p := by
  cases k with
  | openArr =>
    obtain rfl := Option.some.inj h
    exact isExactPlace_go (List.forall_mem_cons.mpr ⟨nofun, hs⟩) nofun
  | openObj =>
    obtain rfl := Option.some.inj h
    exact isExactPlace_go (List.forall_mem_cons.mpr ⟨nofun, hs⟩) nofun
  | null => exact Option.some.inj h ▸ isExactPlace_place trivial hs
  | bool b => exact Option.some.inj h ▸ isExactPlace_place trivial hs
  | num n =>
    have hn : (Tree.num n).IsExact := by
      cases n with
      | none => trivial
      | some n => exact hk
    exact Option.some.inj h ▸ isExactPlace_place hn hs
  | str text => exact Option.some.inj h ▸ isExactPlace_place trivial hs
  | closeArr => exact absurd h nofun
  | closeObj => exact absurd h nofun
  | comma => exact absurd h nofun
  | colon => exact absurd h nofun

theorem isExactPlace_closeArr (hs : ∀ f ∈ s, f.IsExact) (h : closeArr s = some p) : IsExactPlace p := by
  cases s with
  | nil => exact absurd h nofun
  | cons f r =>
    obtain ⟨hf, hr⟩ := List.forall_mem_cons.mp hs
    cases f with
    | obj fields key => exact absurd h nofun
    | arr items =>
      obtain rfl := Option.some.inj h
      exact isExactPlace_place (exactTrees_iff.mpr fun t ht => hf t (List.mem_reverse.mp ht)) hr

theorem isExactPlace_closeObj (hs : ∀ f ∈ s, f.IsExact) (h : closeObj s = some p) : IsExactPlace p := by
  cases s with
  | nil => exact absurd h nofun
  | cons f r =>
    obtain ⟨hf, hr⟩ := List.forall_mem_cons.mp hs
    cases f with
    | arr items => exact absurd h nofun
    | obj fields key =>
      obtain rfl := Option.some.inj h
      exact isExactPlace_place (exactTreeFields_iff.mpr fun t ht => hf t (List.mem_reverse.mp ht)) hr

theorem isExactPlace_setKey {key : Option String} (hs : ∀ f ∈ s, f.IsExact) (h : setKey key s = some p) :
    IsExactPlace p := by
  cases s with
  | nil => exact absurd h nofun
  | cons f r =>
    obtain ⟨hf, hr⟩ := List.forall_mem_cons.mp hs
    cases f with
    | arr items => exact absurd h nofun
    | obj fields old =>
      obtain rfl := Option.some.inj h
      exact isExactPlace_go (List.forall_mem_cons.mpr ⟨hf, hr⟩) nofun

/-- An exact token leads on with exact numbers. -/
theorem isExactPlace_accept {e : Expect} (hs : ∀ f ∈ s, f.IsExact) (hk : k.IsExact) (h : accept s e k = some p) :
    IsExactPlace p := by
  cases e with
  | value => exact isExactPlace_startValue hs hk h
  | item =>
    by_cases hclose : k = .closeArr
    · subst hclose
      exact isExactPlace_closeArr hs h
    · rw [accept_item hclose] at h
      exact isExactPlace_startValue hs hk h
  | member =>
    cases k with
    | closeObj => exact isExactPlace_closeObj hs h
    | str key => exact isExactPlace_setKey hs h
    | _ => exact absurd h nofun
  | key =>
    cases k with
    | str key => exact isExactPlace_setKey hs h
    | _ => exact absurd h nofun
  | colon =>
    cases k with
    | colon => exact Option.some.inj h ▸ isExactPlace_go hs nofun
    | _ => exact absurd h nofun
  | next =>
    cases k with
    | comma =>
      cases s with
      | nil => exact absurd h nofun
      | cons f r => cases f <;> exact Option.some.inj h ▸ isExactPlace_go hs nofun
    | closeArr => exact isExactPlace_closeArr hs h
    | closeObj => exact isExactPlace_closeObj hs h
    | _ => exact absurd h nofun
  | finished t => exact absurd h nofun

theorem isExact_of_build {e : Expect} {ts : List Token} (hp : IsExactPlace (s, e)) (hts : ∀ k ∈ ts, k.IsExact)
    (h : build s e ts = some t) : t.IsExact := by
  induction ts generalizing s e with
  | nil =>
    cases e with
    | finished u => exact Option.some.inj h ▸ hp.finished u rfl
    | _ => exact absurd h nofun
  | cons k r ih =>
    obtain ⟨hk, hr⟩ := List.forall_mem_cons.mp hts
    obtain ⟨q, hq, h⟩ := Option.bind_eq_some_iff.mp h
    exact ih (isExactPlace_accept hp.frames hk hq) hr h

theorem isExact_of_parse? {text : List Char} (h : Tree.parse? text = some t) : t.IsExact := by
  obtain ⟨ts, hts, hbuild⟩ := Option.bind_eq_some_iff.mp h
  exact isExact_of_build (isExactPlace_go (s := []) (e := .value) nofun nofun) (isExact_of_tokens hts) hbuild

end

/-! ### Values that are read -/

section

variable {v : Json} {items : List Json} {fields : List (String × Json)}

theorem isProper_arr (h : ∀ v ∈ items, v.IsProper) : (Json.arr items).IsProper := by
  have hparts : IsExactItems items ∧ IsSortedItems items := by
    induction items with
    | nil => exact ⟨trivial, trivial⟩
    | cons v r ih =>
      obtain ⟨hv, hr⟩ := List.forall_mem_cons.mp h
      obtain ⟨hexact, hsorted⟩ := ih hr
      exact ⟨⟨hv.exact, hexact⟩, hv.sorted, hsorted⟩
  exact ⟨hparts.1, hparts.2⟩

theorem isSortedFields_iff : IsSortedFields fields ↔ ∀ f ∈ fields, f.2.IsSorted := by
  induction fields with
  | nil => exact iff_of_true trivial nofun
  | cons f r ih => rw [IsSortedFields, ih, List.forall_mem_cons]

/-- Whatever fields an object is made of, it holds them by ascending names. -/
theorem isProper_object (h : ∀ f ∈ fields, f.2.IsProper) : (object fields).IsProper := by
  refine ⟨isExact_object fun f hf => (h f hf).exact, ?_⟩
  rw [object_eq]
  exact ⟨Registry.Sorted.ofList fields, isSortedFields_iff.mpr fun f hf => (h f (Registry.mem_of_mem_ofList hf)).sorted⟩

mutual

theorem isProper_of_value? {depth : Nat} {v : Json} (t : Tree) (ht : t.IsExact) (h : t.value? depth = some v) :
    v.IsProper := by
  match t with
  | .null =>
    obtain rfl := Option.some.inj h
    exact ⟨trivial, trivial⟩
  | .bool b =>
    obtain rfl := Option.some.inj h
    exact ⟨trivial, trivial⟩
  | .num none => exact absurd h nofun
  | .num (some n) =>
    obtain rfl := Option.some.inj h
    exact ⟨ht, trivial⟩
  | .str none => exact absurd h nofun
  | .str (some s) =>
    obtain rfl := Option.some.inj h
    exact ⟨trivial, trivial⟩
  | .arr items =>
    cases depth with
    | zero => exact absurd h nofun
    | succ depth =>
      obtain ⟨vs, hvs, rfl⟩ := Option.map_eq_some_iff.mp h
      exact isProper_arr (isProper_of_valueItems? items ht hvs)
  | .obj fields =>
    cases depth with
    | zero => exact absurd h nofun
    | succ depth =>
      obtain ⟨fs, hfs, rfl⟩ := Option.map_eq_some_iff.mp h
      exact isProper_object (isProper_of_valueFields? fields ht hfs)

theorem isProper_of_valueItems? {depth : Nat} {vs : List Json} (items : List Tree) (hitems : ExactTrees items)
    (h : valueItems? depth items = some vs) : ∀ v ∈ vs, v.IsProper := by
  match items with
  | [] =>
    obtain rfl := Option.some.inj h
    exact nofun
  | t :: r =>
    obtain ⟨v, hv, h⟩ := Option.bind_eq_some_iff.mp h
    obtain ⟨ws, hws, h⟩ := Option.bind_eq_some_iff.mp h
    obtain rfl := Option.some.inj h
    exact List.forall_mem_cons.mpr ⟨isProper_of_value? t hitems.1 hv, isProper_of_valueItems? r hitems.2 hws⟩

theorem isProper_of_valueFields? {depth : Nat} {fs : List (String × Json)} (fields : List (Option String × Tree))
    (hfields : ExactTreeFields fields) (h : valueFields? depth fields = some fs) : ∀ f ∈ fs, f.2.IsProper := by
  match fields with
  | [] =>
    obtain rfl := Option.some.inj h
    exact nofun
  | (key, t) :: r =>
    obtain ⟨name, -, h⟩ := Option.bind_eq_some_iff.mp h
    obtain ⟨v, hv, h⟩ := Option.bind_eq_some_iff.mp h
    obtain ⟨gs, hgs, h⟩ := Option.bind_eq_some_iff.mp h
    obtain rfl := Option.some.inj h
    exact List.forall_mem_cons.mpr ⟨isProper_of_value? t hfields.1 hv, isProper_of_valueFields? r hfields.2 hgs⟩

end

/-- The proper values are those that texts hold. -/
theorem isProper_iff : v.IsProper ↔ ∃ text, Holds text v := by
  constructor
  · exact fun h => ⟨v.render, holds_render h⟩
  · rintro ⟨text, h⟩
    obtain ⟨t, ht, hv⟩ := Option.bind_eq_some_iff.mp (h v.nesting (Nat.le_refl _))
    exact isProper_of_value? t (isExact_of_parse? ht) hv

end

end StackDeck.Json
