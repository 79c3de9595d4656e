import Mathlib.Data.List.Forall2
import StackDeck.Proofs.Json.Blank

/-!
Values inside other values. The tokens of a value are put together in the same way whatever containers are still open around it, so
a list whose items are texts of values, with any blanks between its marks, is the list of what these texts mean.
-/

namespace StackDeck.Json

variable {done ts : List Token} {t : Tree}

/-! ### Open containers -/

/-- A place before the end of the value that was begun. -/
def Inside (s : List Frame) (e : Expect) : Prop := s = [] ∧ e = .value ∨ s ≠ [] ∧ ∀ t, e ≠ .finished t

theorem Inside.ne_finished {s : List Frame} {e : Expect} (h : Inside s e) (t : Tree) : e ≠ .finished t := by
  rcases h with ⟨-, rfl⟩ | ⟨-, he⟩
  · exact nofun
  · exact he t

/-- A place as it is inside some containers. -/
def above (stack : List Frame) (p : List Frame × Expect) : List Frame × Expect :=
  match p.2 with
  | .finished t => place t stack
  | e => (p.1 ++ stack, e)

theorem place_above (t : Tree) (s stack : List Frame) : place t (s ++ stack) = above stack (place t s) := by
  cases s with
  | nil => rfl
  | cons f r => cases f <;> rfl

theorem place_inside (t : Tree) (s : List Frame) :
    Inside (place t s).1 (place t s).2 ∨ place t s = ([], .finished t) := by
  cases s with
  | nil => exact .inr rfl
  | cons f r => cases f <;> exact .inl (.inr ⟨by simp [place], by simp [place]⟩)

/-- What is done alone is done inside some containers too, and stays within the value that was begun or completes it. -/
def Carries (stack : List Frame) (alone inside : Option (List Frame × Expect)) : Prop :=
  ∀ p, alone = some p → inside = some (above stack p) ∧ (Inside p.1 p.2 ∨ ∃ t, p = ([], .finished t))

section

variable (stack : List Frame)

theorem carries_none (inside : Option (List Frame × Expect)) : Carries stack none inside := fun _ h => nomatch h

theorem carries_place (t : Tree) (s : List Frame) : Carries stack (some (place t s)) (some (place t (s ++ stack))) := by
  intro p h
  cases h
  exact ⟨congrArg some (place_above t s stack), (place_inside t s).imp_right fun hp => ⟨t, hp⟩⟩

theorem carries_go {s : List Frame} {e : Expect} (hs : s ≠ []) (he : ∀ t, e ≠ .finished t) :
    Carries stack (some (s, e)) (some (s ++ stack, e)) := by
  intro p h
  cases h
  refine ⟨?_, .inl (.inr ⟨hs, he⟩)⟩
  cases e with
  | finished t => exact absurd rfl (he t)
  | _ => rfl

theorem carries_startValue (s : List Frame) (k : Token) :
    Carries stack (startValue s k) (startValue (s ++ stack) k) := by
  cases k with
  | openArr => exact carries_go stack (by simp) (by simp)
  | openObj => exact carries_go stack (by simp) (by simp)
  | null => exact carries_place stack .null s
  | bool b => exact carries_place stack (.bool b) s
  | num n => exact carries_place stack (.num n) s
  | str text => exact carries_place stack (.str text) s
  | closeArr => exact carries_none stack _
  | closeObj => exact carries_none stack _
  | comma => exact carries_none stack _
  | colon => exact carries_none stack _

theorem carries_closeArr {s : List Frame} (hs : s ≠ []) : Carries stack (closeArr s) (closeArr (s ++ stack)) := by
  obtain ⟨f, r, rfl⟩ := List.exists_cons_of_ne_nil hs
  cases f with
  | arr items => exact carries_place stack _ r
  | obj fields key => exact carries_none stack _

theorem carries_closeObj {s : List Frame} (hs : s ≠ []) : Carries stack (closeObj s) (closeObj (s ++ stack)) := by
  obtain ⟨f, r, rfl⟩ := List.exists_cons_of_ne_nil hs
  cases f with
  | arr items => exact carries_none stack _
  | obj fields key => exact carries_place stack _ r

theorem carries_setKey (key : Option String) {s : List Frame} (hs : s ≠ []) :
    Carries stack (setKey key s) (setKey key (s ++ stack)) := by
  obtain ⟨f, r, rfl⟩ := List.exists_cons_of_ne_nil hs
  cases f with
  | arr items => exact carries_none stack _
  | obj fields old => exact carries_go stack (by simp) (by simp)

theorem accept_item {k : Token} (hk : k ≠ .closeArr) (s : List Frame) : accept s .item k = startValue s k := by
  cases k with
  | closeArr => exact absurd rfl hk
  | _ => rfl

/-- A token is taken inside some containers as it is taken alone. -/
theorem carries_accept {s : List Frame} {e : Expect} (hin : Inside s e) (k : Token) :
    Carries stack (accept s e k) (accept (s ++ stack) e k) := by
  rcases hin with ⟨rfl, rfl⟩ | ⟨hs, he⟩
  · exact carries_startValue stack [] k
  · cases e with
    | value => exact carries_startValue stack s k
    | item =>
      by_cases hk : k = .closeArr
      · subst hk
        exact carries_closeArr stack hs
      · rw [accept_item hk, accept_item hk]
        exact carries_startValue stack s k
    | member =>
      cases k with
      | closeObj => exact carries_closeObj stack hs
      | str key => exact carries_setKey stack key hs
      | _ => exact carries_none stack _
    | key =>
      cases k with
      | str key => exact carries_setKey stack key hs
      | _ => exact carries_none stack _
    | colon =>
      cases k with
      | colon => exact carries_go stack hs (by simp)
      | _ => exact carries_none stack _
    | next =>
      cases k with
      | comma =>
        obtain ⟨f, r, rfl⟩ := List.exists_cons_of_ne_nil hs
        cases f with
        | arr items => exact carries_go stack hs (by simp)
        | obj fields key => exact carries_go stack hs (by simp)
      | closeArr => exact carries_closeArr stack hs
      | closeObj => exact carries_closeObj stack hs
      | _ => exact carries_none stack _
    | finished t => exact absurd rfl (he t)

/-- The tokens of a value give it a place inside some containers as they give it alone. -/
theorem build_inside {s : List Frame} {e : Expect} (hin : Inside s e) (h : build s e ts = some t) (rest : List Token) :
    build (s ++ stack) e (ts ++ rest) = build (place t stack).1 (place t stack).2 rest := by
  induction ts generalizing s e with
  | nil =>
    cases e with
    | finished t => exact absurd rfl (hin.ne_finished t)
    | _ => cases h
  | cons k r ih =>
    obtain ⟨p, hp, hrest⟩ := Option.bind_eq_some_iff.mp h
    obtain ⟨habove, hstay⟩ := carries_accept stack hin k p hp
    rw [List.cons_append, build, habove]
    rcases hstay with hin' | ⟨u, rfl⟩
    · have hsame : above stack p = (p.1 ++ stack, p.2) := by
        unfold above
        split
        next t hfin => exact absurd hfin (hin'.ne_finished t)
        next => rfl
      rw [hsame]
      exact ih hin' hrest
    · cases r with
      | nil =>
        cases hrest
        rfl
      | cons k' r' => cases hrest

theorem build_value_inside (h : build [] .value ts = some t) (rest : List Token) :
    build stack .value (ts ++ rest) = build (place t stack).1 (place t stack).2 rest :=
  build_inside stack (.inl ⟨rfl, rfl⟩) h rest

/-- The first item of a list starts like any other. -/
theorem build_item (h : build [] .value ts = some t) (rest : List Token) :
    build stack .item (ts ++ rest) = build stack .value (ts ++ rest) := by
  cases ts with
  | nil => cases h
  | cons k r =>
    have hk : k ≠ .closeArr := by
      rintro rfl
      cases h
    rw [List.cons_append, build, accept_item hk]
    rfl

end

/-! ### Lists -/

variable {es : List (List Char)} {e s b : List Char}

/-- The tokens after an item, to the end of its list. -/
def moreTokens : List (List Token) → List Token
  | [] => [.closeArr]
  | ts :: r => .comma :: (ts ++ moreTokens r)

theorem build_more {tss : List (List Token)} {trees : List Tree}
    (h : List.Forall₂ (fun ts t => build [] .value ts = some t) tss trees) (items : List Tree) :
    build [.arr items] .next (moreTokens tss) = some (.arr (items.reverse ++ trees)) := by
  induction h generalizing items with
  | nil => simp [moreTokens, build, accept, closeArr, place]
  | @cons ts t tss trees ht _ ih =>
    have hvalue := build_value_inside [.arr items] ht (moreTokens tss)
    have hmore := ih (t :: items)
    simp only [List.reverse_cons, List.append_assoc, List.singleton_append] at hmore
    calc build [.arr items] .next (moreTokens (ts :: tss))
        = build [.arr items] .value (ts ++ moreTokens tss) := rfl
      _ = build [.arr (t :: items)] .next (moreTokens tss) := hvalue
      _ = some (.arr (items.reverse ++ t :: trees)) := hmore

/-- The text after an item, to the end of its list: more items behind commas, and blanks around the marks. -/
inductive MoreText : List (List Char) → List Char → Prop where
  | close {b : List Char} (hb : b.all isBlankChar = true) : MoreText [] (b ++ [']'])
  | item {front back e s : List Char} {es : List (List Char)} (hfront : front.all isBlankChar = true)
      (hback : back.all isBlankChar = true) (h : MoreText es s) :
      MoreText (e :: es) (front ++ ',' :: (back ++ (e ++ s)))

/-- A text of the list that holds these items, with any blanks between them and the marks. -/
inductive ListText : List (List Char) → List Char → Prop where
  | empty {b : List Char} (hb : b.all isBlankChar = true) : ListText [] ('[' :: (b ++ [']']))
  | items {b e s : List Char} {es : List (List Char)} (hb : b.all isBlankChar = true) (h : MoreText es s) :
      ListText (e :: es) ('[' :: (b ++ (e ++ s)))

theorem tokensFrom_comma (rest : List Char) : tokensFrom .idle done (',' :: rest) = tokensFrom .idle (.comma :: done) rest :=
  rfl

/-- A list goes on with a blank or a mark. -/
theorem MoreText.head (h : MoreText es s) : ∃ c r, s = c :: r ∧ Separates c := by
  have hmark (b : List Char) (hb : b.all isBlankChar = true) (c : Char) (hc : Separates c) (rest : List Char) :
      ∃ d r, b ++ c :: rest = d :: r ∧ Separates d := by
    cases b with
    | nil => exact ⟨c, rest, rfl, hc⟩
    | cons d r =>
      have hd : isBlankChar d = true := (List.all_eq_true.mp hb) d List.mem_cons_self
      exact ⟨d, r ++ c :: rest, rfl, separates_of_space (isSpace_of_blank hd)⟩
  cases h with
  | close hb => exact hmark _ hb ']' (separates_of_mark rfl) []
  | item hfront hback h => exact hmark _ hfront ',' (separates_of_mark rfl) _

/-- An item is cut into its tokens wherever it stands in a list. -/
theorem tokensFrom_item (he : tokens e = some ts) (h : MoreText es s) :
    tokensFrom .idle done (e ++ s) = tokensFrom .idle (ts.reverse ++ done) s := by
  obtain ⟨c, r, rfl, hc⟩ := h.head
  have hdone : tokensFrom .idle done e = some (done.reverse ++ ts) := by
    rw [tokensFrom_done]
    exact congrArg (Option.map _) he
  rw [tokensFrom_append hdone hc]
  simp

theorem MoreText.cut (h : MoreText es s) {tss : List (List Token)}
    (htokens : List.Forall₂ (fun e ts => tokens e = some ts) es tss) :
    tokensFrom .idle done s = some (done.reverse ++ moreTokens tss) := by
  induction h generalizing tss done with
  | close hb =>
    cases htokens
    have hclose : tokensFrom .idle done [']'] = tokensFrom .idle (.closeArr :: done) [] := rfl
    rw [tokensFrom_blanks hb, hclose]
    simp [tokensFrom, finish, moreTokens]
  | item hfront hback h ih =>
    cases htokens with
    | cons he hes =>
      rw [tokensFrom_blanks hfront, tokensFrom_comma, tokensFrom_blanks hback, tokensFrom_item he h, ih hes]
      simp [moreTokens]

theorem tokens_of_parse {trees : List Tree} (h : List.Forall₂ (fun e t => Tree.parse? e = some t) es trees) :
    ∃ tss, List.Forall₂ (fun e ts => tokens e = some ts) es tss ∧
      List.Forall₂ (fun ts t => build [] .value ts = some t) tss trees := by
  induction h with
  | nil => exact ⟨[], .nil, .nil⟩
  | cons ht _ ih =>
    obtain ⟨ts, hts, hbuild⟩ := Option.bind_eq_some_iff.mp ht
    obtain ⟨tss, hcut, htrees⟩ := ih
    exact ⟨ts :: tss, .cons hts hcut, .cons hbuild htrees⟩

/-- The text of a list is read item by item. -/
theorem parse?_list {text : List Char} {trees : List Tree} (h : ListText es text)
    (hitems : List.Forall₂ (fun e t => Tree.parse? e = some t) es trees) :
    Tree.parse? text = some (.arr trees) := by
  have hopen (rest : List Char) : tokens ('[' :: rest) = tokensFrom .idle [.openArr] rest := rfl
  obtain ⟨tss, hcut, hbuild⟩ := tokens_of_parse hitems
  cases h with
  | empty hb =>
    cases hcut
    cases hbuild
    have hnone : tokensFrom .idle [.openArr] [']'] = some [.openArr, .closeArr] := rfl
    rw [Tree.parse?, hopen, tokensFrom_blanks hb, hnone]
    rfl
  | @items b e s es hb hmore =>
    cases hcut with
    | @cons _ ts _ tss he hes =>
      cases hbuild with
      | cons ht htrees =>
        have hall : List.reverse (ts.reverse ++ [Token.openArr]) ++ moreTokens tss = .openArr :: (ts ++ moreTokens tss) := by
          simp
        rw [Tree.parse?, hopen, tokensFrom_blanks hb, tokensFrom_item he hmore, hmore.cut hes, hall]
        calc build [] .value (.openArr :: (ts ++ moreTokens tss))
            = build [.arr []] .item (ts ++ moreTokens tss) := rfl
          _ = build [.arr []] .value (ts ++ moreTokens tss) := build_item _ ht _
          _ = build [.arr [_]] .next (moreTokens tss) := build_value_inside _ ht _
          _ = some (.arr _) := build_more htrees _

/-! ### Texts that begin like a list -/

/-- These containers stand in a list. -/
def InList (s : List Frame) : Prop := ∃ r items, s = r ++ [.arr items]

/-- Still in a list, or at the end of it. -/
def OnList (p : List Frame × Expect) : Prop := InList p.1 ∨ ∃ items, p = ([], .finished (.arr items))

section

variable {s r : List Frame} {p : List Frame × Expect}

theorem inList_cons {f : Frame} : InList (f :: r) ↔ (r = [] ∧ ∃ items, f = .arr items) ∨ InList r := by
  constructor
  · rintro ⟨_ | ⟨g, r'⟩, items, h⟩
    · cases h
      exact .inl ⟨rfl, items, rfl⟩
    · cases h
      exact .inr ⟨r', items, rfl⟩
  · rintro (⟨rfl, items, rfl⟩ | ⟨r', items, rfl⟩)
    · exact ⟨[], items, rfl⟩
    · exact ⟨f :: r', items, rfl⟩

theorem onList_place (t : Tree) (h : InList s) : OnList (place t s) := by
  cases s with
  | nil => obtain ⟨_ | _, _, h⟩ := h <;> cases h
  | cons f r =>
    rcases inList_cons.mp h with ⟨rfl, items, rfl⟩ | hr
    · exact .inl ⟨[], t :: items, rfl⟩
    · cases f <;> exact .inl (inList_cons.mpr (.inr hr))

theorem onList_startValue {k : Token} (hs : InList s) (h : startValue s k = some p) : OnList p := by
  have hdeeper (f : Frame) (e : Expect) : OnList (f :: s, e) := .inl (inList_cons.mpr (.inr hs))
  cases k <;> cases h <;> first | exact hdeeper _ _ | exact onList_place _ hs

theorem onList_closeArr (hs : InList s) (h : closeArr s = some p) : OnList p := by
  cases s with
  | nil => cases h
  | cons f r =>
    cases f with
    | obj fields key => cases h
    | arr items =>
      cases h
      rcases inList_cons.mp hs with ⟨rfl, -⟩ | hr
      · exact .inr ⟨items.reverse, rfl⟩
      · exact onList_place _ hr

theorem inList_of_obj {fields : List (Option String × Tree)} {key : Option String} (h : InList (.obj fields key :: r)) :
    InList r := by
  rcases inList_cons.mp h with ⟨-, items, hf⟩ | hr
  · cases hf
  · exact hr

theorem onList_closeObj (hs : InList s) (h : closeObj s = some p) : OnList p := by
  cases s with
  | nil => cases h
  | cons f r =>
    cases f with
    | arr items => cases h
    | obj fields key =>
      cases h
      exact onList_place _ (inList_of_obj hs)

theorem onList_setKey {key : Option String} (hs : InList s) (h : setKey key s = some p) : OnList p := by
  cases s with
  | nil => cases h
  | cons f r =>
    cases f with
    | arr items => cases h
    | obj fields old =>
      cases h
      exact .inl (inList_cons.mpr (.inr (inList_of_obj hs)))

/-- In a list every token leads on in the list, or ends it. -/
theorem onList_accept {e : Expect} {k : Token} (hs : InList s) (h : accept s e k = some p) : OnList p := by
  cases e with
  | value => exact onList_startValue hs h
  | item =>
    by_cases hk : k = .closeArr
    · subst hk
      exact onList_closeArr hs h
    · rw [accept_item hk] at h
      exact onList_startValue hs h
  | member =>
    cases k with
    | closeObj => exact onList_closeObj hs h
    | str key => exact onList_setKey hs h
    | _ => cases h
  | key =>
    cases k with
    | str key => exact onList_setKey hs h
    | _ => cases h
  | colon =>
    cases k with
    | colon =>
      cases h
      exact .inl hs
    | _ => cases h
  | next =>
    cases k with
    | comma =>
      cases s with
      | nil => cases h
      | cons f r => cases f <;> cases h <;> exact .inl hs
    | closeArr => exact onList_closeArr hs h
    | closeObj => exact onList_closeObj hs h
    | _ => cases h
  | finished t => cases h

theorem build_inList {e : Expect} (hs : InList s) (hin : Inside s e) (h : build s e ts = some t) :
    ∃ items, t = .arr items := by
  induction ts generalizing s e with
  | nil =>
    cases e with
    | finished u => exact absurd rfl (hin.ne_finished u)
    | _ => cases h
  | cons k r ih =>
    obtain ⟨p, haccept, hrest⟩ := Option.bind_eq_some_iff.mp h
    obtain ⟨-, hstay⟩ := carries_accept [] hin k p haccept
    rcases hstay with hin' | ⟨u, rfl⟩
    · rcases onList_accept hs haccept with hs' | ⟨items, rfl⟩
      · exact ih hs' hin' hrest
      · exact absurd rfl (hin'.ne_finished _)
    · rcases onList_accept hs haccept with ⟨r', items, hnil⟩ | ⟨items, hend⟩
      · exact absurd hnil.symm (by simp)
      · cases hend
        cases r with
        | nil =>
          cases hrest
          exact ⟨items, rfl⟩
        | cons => cases hrest

end

/-- A text that begins with the mark of a list is the text of a list, if of anything. -/
theorem parse?_bracket {rest : List Char} (h : Tree.parse? ('[' :: rest) = some t) : ∃ items, t = .arr items := by
  obtain ⟨ts, hts, hbuild⟩ := Option.bind_eq_some_iff.mp h
  have hopen : tokensFrom .idle [.openArr] rest = some ts := hts
  rw [tokensFrom_done] at hopen
  obtain ⟨ts', -, rfl⟩ := Option.map_eq_some_iff.mp hopen
  exact build_inList (s := [.arr []]) (e := .item) ⟨[], [], rfl⟩ (.inr ⟨nofun, nofun⟩) hbuild

end StackDeck.Json
