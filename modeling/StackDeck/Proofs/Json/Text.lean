import StackDeck.Proofs.Json.Number

/-!
JSON written and read back. What is written for a value is cut into the tokens of that value, whatever
comes before and after it, and the tokens are put together to its tree. Its numbers are ones that are
read exactly.
-/

namespace StackDeck.Json

/-! ### Tokens -/

mutual

/-- The tokens of a value. -/
def tokensOf : Json → List Token
  | .null => [.null]
  | .bool b => [.bool b]
  | .num n => [.num (some n)]
  | .str s => [.str (some s)]
  | .arr [] => [.openArr, .closeArr]
  | .arr (v :: r) => .openArr :: (tokensOf v ++ tokensOfItems r)
  | .obj [] => [.openObj, .closeObj]
  | .obj ((key, v) :: r) => .openObj :: .str (some key) :: .colon :: (tokensOf v ++ tokensOfFields r)

/-- The tokens after an item, to the end of the list. -/
def tokensOfItems : List Json → List Token
  | [] => [.closeArr]
  | v :: r => .comma :: (tokensOf v ++ tokensOfItems r)

/-- The tokens after a field, to the end of the object. -/
def tokensOfFields : List (String × Json) → List Token
  | [] => [.closeObj]
  | (key, v) :: r => .comma :: .str (some key) :: .colon :: (tokensOf v ++ tokensOfFields r)

end

mutual

/-- A value whose numbers are read exactly. -/
def IsExact : Json → Prop
  | .num n => n.IsExact
  | .arr items => IsExactItems items
  | .obj fields => IsExactFields fields
  | _ => True

def IsExactItems : List Json → Prop
  | [] => True
  | v :: r => IsExact v ∧ IsExactItems r

def IsExactFields : List (String × Json) → Prop
  | [] => True
  | (_, v) :: r => IsExact v ∧ IsExactFields r

end

/-- What may stand after a value: the end, or one of the marks that go on or close its container. -/
def Ends (rest : List Char) : Prop := rest = [] ∨ ∃ c r, rest = c :: r ∧ c ∈ [',', ']', '\x7d']

theorem hexDigit?_hexChar {n : Nat} (h : n < 16) : hexDigit? (hexChar n) = some n := by
  have hall : ∀ i : Fin 16, hexDigit? (hexChar i) = some i.val := by decide
  exact hall ⟨n, h⟩

/-- A control character is read from its code. -/
theorem unitRead_char {c : Char} {g : List Char} (h : c.toNat < 0x20) :
    unitRead g true none c.toNat = .text (c :: g) true none := by
  have hhigh : (0xD800 ≤ c.toNat && c.toNat ≤ 0xDBFF) = false := by simp; omega
  have hlow : (0xDC00 ≤ c.toNat && c.toNat ≤ 0xDFFF) = false := by simp; omega
  simp only [unitRead, hhigh, hlow, Bool.false_eq_true, if_false, Char.ofNat_toNat]

/-- Escaped characters of a string are gathered as the characters they stand for. -/
theorem tokensFrom_escapeChar (c : Char) (g : List Char) (done : List Token) (rest : List Char) :
    tokensFrom (.text g true none) done (escapeChar c ++ rest) = tokensFrom (.text (c :: g) true none) done rest := by
  rw [escapeChar.eq_def]
  split
  · rfl
  · rfl
  · rfl
  · rfl
  · rfl
  · rfl
  · rfl
  next hq hb _ _ _ _ _ =>
    split
    next h =>
      have hcode : (0 * 16 + c.toNat / 16) * 16 + c.toNat % 16 = c.toNat := by omega
      show tokensFrom (.hex g true none 2 0) done (hexChar (c.toNat / 16) :: hexChar (c.toNat % 16) :: rest) = _
      rw [tokensFrom, step, hexDigit?_hexChar (by omega)]
      show tokensFrom (.hex g true none 1 (0 * 16 + c.toNat / 16)) done (hexChar (c.toNat % 16) :: rest) = _
      rw [tokensFrom, step, hexDigit?_hexChar (by omega)]
      show tokensFrom (unitRead g true none ((0 * 16 + c.toNat / 16) * 16 + c.toNat % 16)) done rest = _
      rw [hcode, unitRead_char h]
    next h =>
      rw [List.singleton_append, tokensFrom, step, if_neg (by simpa using hb), if_neg (by simpa using hq),
        if_neg h]
      rfl

theorem tokensFrom_renderString (s : String) (done : List Token) (rest : List Char) :
    tokensFrom .idle done (renderString s ++ rest) = tokensFrom .idle (.str (some s) :: done) rest := by
  have hchars (cs g : List Char) :
      tokensFrom (.text g true none) done (cs.flatMap escapeChar ++ '"' :: rest) =
        tokensFrom .idle (.str (some (String.ofList (g.reverse ++ cs))) :: done) rest := by
    induction cs generalizing g with
    | nil =>
      rw [List.append_nil]
      rfl
    | cons c r ih =>
      rw [List.flatMap_cons, List.append_assoc, tokensFrom_escapeChar, ih, List.reverse_cons, List.append_assoc]
      rfl
  have h := hchars s.toList []
  rw [List.reverse_nil, List.nil_append, String.ofList_toList] at h
  rw [renderString, List.cons_append, List.append_assoc, ← h]
  rfl

/-- A word or a number ends where a mark or the text's end comes. -/
theorem tokensFrom_of_finish {m : Mode} {t : Token} {done : List Token} {rest : List Char} (hrest : Ends rest)
    (hend : finish m = some [t])
    (hmark : ∀ c ∈ [',', ']', '\x7d'], step m c = (fromIdle c).map fun p => (p.1, t :: p.2)) :
    tokensFrom m done rest = tokensFrom .idle (t :: done) rest := by
  rcases hrest with rfl | ⟨c, r, rfl, hc⟩
  · rw [tokensFrom, tokensFrom, hend]
    simp [finish]
  · rw [tokensFrom, tokensFrom, hmark c hc, step]
    simp only [List.mem_cons, List.not_mem_nil, or_false] at hc
    rcases hc with rfl | rfl | rfl <;> rfl

theorem fromIdle_number {c : Char} (h : (c.isDigit || c == '-') = true) : fromIdle c = some (.number [c], []) := by
  have hc : c = '-' ∨ 48 ≤ c.toNat ∧ c.toNat ≤ 57 := by
    rcases Bool.or_eq_true_iff.mp h with hd | hd
    · exact .inr (toNat_of_isDigit hd)
    · exact .inl (beq_iff_eq.mp hd)
  have hblank : isBlankChar c = false := by
    rw [Bool.eq_false_iff]
    intro hb
    simp only [isBlankChar, Bool.or_eq_true, beq_iff_eq] at hb
    rcases hb with ((rfl | rfl) | rfl) | rfl <;> exact absurd hc (by decide)
  have hquote : (c == '"') = false := by
    rw [beq_eq_false_iff_ne]
    rintro rfl
    exact absurd hc (by decide)
  rw [fromIdle, hblank, if_neg Bool.false_ne_true, hquote, if_neg Bool.false_ne_true, if_pos h]

theorem tokensFrom_gather {r : List Char} (hr : ∀ d ∈ r, isNumberChar d = true) (g : List Char) (done : List Token)
    (rest : List Char) : tokensFrom (.number g) done (r ++ rest) = tokensFrom (.number (r.reverse ++ g)) done rest := by
  induction r generalizing g with
  | nil => rfl
  | cons d r ih =>
    rw [List.cons_append, tokensFrom, step, if_pos (hr d List.mem_cons_self), List.reverse_cons, List.append_assoc]
    exact ih (fun e he => hr e (List.mem_cons_of_mem d he)) (d :: g)

theorem tokensFrom_number {n : Number} (h : n.IsExact) {done : List Token} {rest : List Char} (hrest : Ends rest) :
    tokensFrom .idle done (n.render ++ rest) = tokensFrom .idle (.num (some n) :: done) rest := by
  obtain ⟨c, r, hcr, hc, hr⟩ := render_chars h
  have hread : Number.read? (r.reverse ++ [c]).reverse = some (some n) := by
    rw [List.reverse_append, List.reverse_reverse, List.reverse_singleton, List.singleton_append, ← hcr, read?_render h]
  have hstart : tokensFrom .idle done (c :: (r ++ rest)) = tokensFrom (.number [c]) done (r ++ rest) := by
    rw [tokensFrom, step, fromIdle_number hc]
    rfl
  rw [hcr, List.cons_append, hstart, tokensFrom_gather hr]
  refine tokensFrom_of_finish hrest (by rw [finish, hread]; rfl) fun d hd => ?_
  have hd : isNumberChar d = false := by
    simp only [List.mem_cons, List.not_mem_nil, or_false] at hd
    rcases hd with rfl | rfl | rfl <;> rfl
  rw [step, if_neg (by rw [hd]; exact Bool.false_ne_true), hread]
  cases fromIdle d <;> rfl

theorem tokensFrom_word {g : List Char} {t : Token} (hword : word? g.reverse = some t) {done : List Token}
    {rest : List Char} (hrest : Ends rest) : tokensFrom (.word g) done rest = tokensFrom .idle (t :: done) rest := by
  refine tokensFrom_of_finish hrest (by rw [finish, hword]; rfl) fun c hc => ?_
  have hc : c.isAlpha = false := by
    simp only [List.mem_cons, List.not_mem_nil, or_false] at hc
    rcases hc with rfl | rfl | rfl <;> rfl
  rw [step, if_neg (by rw [hc]; exact Bool.false_ne_true), hword]
  cases fromIdle c <;> rfl

theorem ends_items (r : List Json) (rest : List Char) : Ends (renderItems r ++ rest) := by
  cases r with
  | nil => exact .inr ⟨']', rest, by rw [renderItems]; rfl, by decide⟩
  | cons v r => exact .inr ⟨',', _, by rw [renderItems]; rfl, by decide⟩

theorem ends_fields (r : List (String × Json)) (rest : List Char) : Ends (renderFields r ++ rest) := by
  cases r with
  | nil => exact .inr ⟨'\x7d', rest, by rw [renderFields]; rfl, by decide⟩
  | cons f r => exact .inr ⟨',', _, by rw [renderFields]; rfl, by decide⟩

mutual

/-- What is written for a value is cut into its tokens. -/
theorem tokensFrom_render (v : Json) (hv : IsExact v) (done : List Token) (rest : List Char) (hrest : Ends rest) :
    tokensFrom .idle done (renderChars v ++ rest) = tokensFrom .idle ((tokensOf v).reverse ++ done) rest := by
  match v with
  | .null => exact tokensFrom_word (g := ['l', 'l', 'u', 'n']) rfl hrest
  | .bool true => exact tokensFrom_word (g := ['e', 'u', 'r', 't']) rfl hrest
  | .bool false => exact tokensFrom_word (g := ['e', 's', 'l', 'a', 'f']) rfl hrest
  | .num n => exact tokensFrom_number hv hrest
  | .str s => exact tokensFrom_renderString s done rest
  | .arr [] => rfl
  | .arr (v :: r) =>
    have hopen : tokensFrom .idle done (renderChars (.arr (v :: r)) ++ rest) =
        tokensFrom .idle (.openArr :: done) (renderChars v ++ (renderItems r ++ rest)) := by
      rw [renderChars, List.cons_append, List.append_assoc]
      rfl
    rw [hopen, tokensFrom_render v hv.1 _ _ (ends_items r rest), tokensFrom_renderItems r hv.2, tokensOf]
    simp
  | .obj [] => rfl
  | .obj ((key, v) :: r) =>
    have hopen : tokensFrom .idle done (renderChars (.obj ((key, v) :: r)) ++ rest) =
        tokensFrom .idle (.openObj :: done) (renderString key ++ ':' :: (renderChars v ++ (renderFields r ++ rest))) := by
      rw [renderChars]
      simp only [List.cons_append, List.append_assoc]
      rfl
    have hcolon (done : List Token) (s : List Char) :
        tokensFrom .idle done (':' :: s) = tokensFrom .idle (.colon :: done) s := rfl
    rw [hopen, tokensFrom_renderString, hcolon, tokensFrom_render v hv.1 _ _ (ends_fields r rest),
      tokensFrom_renderFields r hv.2, tokensOf]
    simp

theorem tokensFrom_renderItems (r : List Json) (hr : IsExactItems r) (done : List Token) (rest : List Char) :
    tokensFrom .idle done (renderItems r ++ rest) = tokensFrom .idle ((tokensOfItems r).reverse ++ done) rest := by
  match r with
  | [] => rfl
  | v :: r =>
    have hcomma : tokensFrom .idle done (renderItems (v :: r) ++ rest) =
        tokensFrom .idle (.comma :: done) (renderChars v ++ (renderItems r ++ rest)) := by
      rw [renderItems, List.cons_append, List.append_assoc]
      rfl
    rw [hcomma, tokensFrom_render v hr.1 _ _ (ends_items r rest), tokensFrom_renderItems r hr.2, tokensOfItems]
    simp

theorem tokensFrom_renderFields (r : List (String × Json)) (hr : IsExactFields r) (done : List Token)
    (rest : List Char) :
    tokensFrom .idle done (renderFields r ++ rest) = tokensFrom .idle ((tokensOfFields r).reverse ++ done) rest := by
  match r with
  | [] => rfl
  | (key, v) :: r =>
    have hcomma : tokensFrom .idle done (renderFields ((key, v) :: r) ++ rest) =
        tokensFrom .idle (.comma :: done) (renderString key ++ ':' :: (renderChars v ++ (renderFields r ++ rest))) := by
      rw [renderFields]
      simp only [List.cons_append, List.append_assoc]
      rfl
    have hcolon (done : List Token) (s : List Char) :
        tokensFrom .idle done (':' :: s) = tokensFrom .idle (.colon :: done) s := rfl
    rw [hcomma, tokensFrom_renderString, hcolon, tokensFrom_render v hr.1 _ _ (ends_fields r rest),
      tokensFrom_renderFields r hr.2, tokensOfFields]
    simp

end

theorem tokens_render {v : Json} (hv : IsExact v) : tokens (renderChars v) = some (tokensOf v) := by
  have h := tokensFrom_render v hv [] [] (.inl rfl)
  rw [List.append_nil, List.append_nil] at h
  rw [tokens, h, tokensFrom]
  simp [finish]

/-! ### Trees -/

/-- A value's first token does not close a container. -/
def Opens (e : Expect) : Prop := e = .value ∨ e = .item

mutual

/-- The tokens of a value are put together to its tree, and the tree goes where a value was expected. -/
theorem build_value (v : Json) (stack : List Frame) (e : Expect) (he : Opens e) (rest : List Token) :
    build stack e (tokensOf v ++ rest) = build (place v.tree stack).1 (place v.tree stack).2 rest := by
  match v with
  | .null => rcases he with rfl | rfl <;> rfl
  | .bool b => rcases he with rfl | rfl <;> rfl
  | .num n => rcases he with rfl | rfl <;> rfl
  | .str s => rcases he with rfl | rfl <;> rfl
  | .arr [] => rcases he with rfl | rfl <;> rfl
  | .arr (v :: r) =>
    have hopen : build stack e (tokensOf (.arr (v :: r)) ++ rest) =
        build (.arr [] :: stack) .item (tokensOf v ++ (tokensOfItems r ++ rest)) := by
      rw [tokensOf, List.cons_append, List.append_assoc]
      rcases he with rfl | rfl <;> rfl
    rw [hopen, build_value v _ .item (.inr rfl), tree, treeItems]
    exact build_items r [v.tree] stack rest
  | .obj [] => rcases he with rfl | rfl <;> rfl
  | .obj ((key, v) :: r) =>
    have hopen : build stack e (tokensOf (.obj ((key, v) :: r)) ++ rest) =
        build (.obj [] (some key) :: stack) .value (tokensOf v ++ (tokensOfFields r ++ rest)) := by
      rw [tokensOf]
      simp only [List.cons_append, List.append_assoc]
      rcases he with rfl | rfl <;> rfl
    rw [hopen, build_value v _ .value (.inl rfl), tree, treeFields]
    exact build_fields r [(some key, v.tree)] stack rest

theorem build_items (r : List Json) (items : List Tree) (stack : List Frame) (rest : List Token) :
    build (.arr items :: stack) .next (tokensOfItems r ++ rest) =
      build (place (.arr (items.reverse ++ treeItems r)) stack).1 (place (.arr (items.reverse ++ treeItems r)) stack).2
        rest := by
  match r with
  | [] =>
    rw [treeItems, List.append_nil]
    rfl
  | v :: r =>
    have hcomma : build (.arr items :: stack) .next (tokensOfItems (v :: r) ++ rest) =
        build (.arr items :: stack) .value (tokensOf v ++ (tokensOfItems r ++ rest)) := by
      rw [tokensOfItems, List.cons_append, List.append_assoc]
      rfl
    have h := build_items r (v.tree :: items) stack rest
    rw [List.reverse_cons, List.append_assoc, List.singleton_append] at h
    rw [hcomma, build_value v _ .value (.inl rfl), treeItems, ← h]
    rfl

theorem build_fields (r : List (String × Json)) (fields : List (Option String × Tree)) (stack : List Frame)
    (rest : List Token) :
    build (.obj fields none :: stack) .next (tokensOfFields r ++ rest) =
      build (place (.obj (fields.reverse ++ treeFields r)) stack).1
        (place (.obj (fields.reverse ++ treeFields r)) stack).2 rest := by
  match r with
  | [] =>
    rw [treeFields, List.append_nil]
    rfl
  | (key, v) :: r =>
    have hcomma : build (.obj fields none :: stack) .next (tokensOfFields ((key, v) :: r) ++ rest) =
        build (.obj fields (some key) :: stack) .value (tokensOf v ++ (tokensOfFields r ++ rest)) := by
      rw [tokensOfFields]
      simp only [List.cons_append, List.append_assoc]
      rfl
    have h := build_fields r ((some key, v.tree) :: fields) stack rest
    rw [List.reverse_cons, List.append_assoc, List.singleton_append] at h
    rw [hcomma, build_value v _ .value (.inl rfl), treeFields, ← h]
    rfl

end

/-- The text of a value is read back as its tree. -/
theorem parse?_render {v : Json} (hv : IsExact v) : Tree.parse? v.renderChars = some v.tree := by
  have h := build_value v [] .value (.inl rfl) []
  rw [List.append_nil] at h
  simp only [Tree.parse?, tokens_render hv, Option.bind_eq_bind, Option.bind_some, h]
  rfl

end StackDeck.Json
