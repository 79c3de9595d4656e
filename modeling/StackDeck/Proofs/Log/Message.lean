import StackDeck.Proofs.Log.Plain

/-!
Where a message comes from. Whichever format a line is read by, its message is made of characters of the cleaned line,
and cleaning lets no line end through but a line feed that stood in the line.
-/

namespace StackDeck

namespace Text.Ansi

variable {p : Place} {c d : Char} {s : List Char}

/-- What a character lets through is nothing, what plain text or a sequence lets through of it, or what is left of it
behind the end of a control string. -/
theorem step_text (p : Place) (c : Char) :
    (step p c).2 = [] ∨ (step p c).2 = printed c ∨ (step p c).2 = executed c ∨
      (step p c).2 = (dcsCharacter c.toNat).2 := by
  cases p <;> simp only [step] <;> (repeat' split) <;> simp

theorem mem_printed (h : d ∈ printed c) : d = c ∧ (c = '\n' ∨ 0x20 ≤ c.toNat) := by
  unfold printed at h
  split at h
  next hfeed => exact ⟨List.mem_singleton.mp h, .inl (beq_iff_eq.mp hfeed)⟩
  next =>
    split at h
    next => exact absurd h List.not_mem_nil
    next hshown =>
      refine ⟨List.mem_singleton.mp h, .inr ?_⟩
      simp only [Bool.or_eq_true, decide_eq_true_eq, not_or] at hshown
      omega

theorem mem_executed (h : d ∈ executed c) : d = c ∧ c = '\n' := by
  unfold executed at h
  split at h
  next hfeed => exact ⟨List.mem_singleton.mp h, beq_iff_eq.mp hfeed⟩
  next => exact absurd h List.not_mem_nil

theorem mem_dcsCharacter {n : Nat} (h : d ∈ (dcsCharacter n).2) : d = '\uFFFD' := by
  unfold dcsCharacter at h
  dsimp only at h
  split at h
  next => exact absurd h List.not_mem_nil
  next =>
    obtain ⟨b, -, hb⟩ := List.mem_filterMap.mp h
    split at hb
    · exact absurd hb nofun
    · exact (Option.some.inj hb).symm

/-- Apart from replacement characters, what is left of a text are characters of it, line feeds the only controls. -/
theorem mem_stripFrom (h : d ∈ stripFrom p s) : d = '\uFFFD' ∨ d ∈ s ∧ (d = '\n' ∨ 0x20 ≤ d.toNat) := by
  induction s generalizing p with
  | nil => exact absurd h List.not_mem_nil
  | cons c r ih =>
    rcases List.mem_append.mp h with hstep | hrest
    · rcases step_text p c with hc | hc | hc | hc <;> rw [hc] at hstep
      · exact absurd hstep List.not_mem_nil
      · obtain ⟨rfl, hshown⟩ := mem_printed hstep
        exact .inr ⟨List.mem_cons_self, hshown⟩
      · obtain ⟨rfl, hfeed⟩ := mem_executed hstep
        exact .inr ⟨List.mem_cons_self, .inl hfeed⟩
      · exact .inl (mem_dcsCharacter hstep)
    · exact (ih hrest).imp_right fun hr => ⟨List.mem_cons_of_mem c hr.1, hr.2⟩

end Text.Ansi

namespace Log

open Text

variable {line rest : List Char} {time : Option Instant} {level : Level} {message : List Char}

/-- A line that holds no line feed holds no line end once cleaned. -/
theorem isLineEnd_of_mem_clean {raw : List Char} (hraw : '\n' ∉ raw) {c : Char} (h : c ∈ clean raw) :
    isLineEnd c = false := by
  have hstrip : c ∈ Ansi.strip raw :=
    List.mem_reverse.mp ((List.dropWhile_sublist _).subset (List.mem_reverse.mp h))
  rcases Ansi.mem_stripFrom hstrip with rfl | ⟨hmem, rfl | hc⟩
  · decide
  · exact absurd hmem hraw
  · exact isLineEnd_of_space_le hc

namespace Logfmt

variable {body s v : List Char}

theorem quotedBody_subset (h : quotedBody s = some (body, rest)) : body ⊆ s ∧ rest ⊆ s := by
  fun_induction quotedBody s generalizing body with
  | case1 => exact absurd h nofun
  | case2 r =>
    obtain ⟨rfl, rfl⟩ := Prod.mk.inj (Option.some.inj h)
    exact ⟨List.nil_subset _, List.subset_cons_self _ _⟩
  | case3 => exact absurd h nofun
  | case4 c r _ ih =>
    obtain ⟨⟨b, t⟩, hb, he⟩ := Option.map_eq_some_iff.mp h
    obtain ⟨rfl, rfl⟩ := Prod.mk.inj he
    obtain ⟨hbody, hrest⟩ := ih hb
    exact ⟨List.cons_subset_cons _ (List.cons_subset_cons _ hbody),
      List.subset_cons_of_subset _ (List.subset_cons_of_subset _ hrest)⟩
  | case5 => exact absurd h nofun
  | case6 c r _ _ _ ih =>
    obtain ⟨⟨b, t⟩, hb, he⟩ := Option.map_eq_some_iff.mp h
    obtain ⟨rfl, rfl⟩ := Prod.mk.inj he
    obtain ⟨hbody, hrest⟩ := ih hb
    exact ⟨List.cons_subset_cons _ hbody, List.subset_cons_of_subset _ hrest⟩

theorem unescape_subset (mark : Char) (s : List Char) : unescape mark s ⊆ s := by
  fun_induction unescape mark s with
  | case1 c r hc ih =>
    obtain rfl : c = mark := beq_iff_eq.mp hc
    exact List.subset_cons_of_subset _ (List.cons_subset_cons _ ih)
  | case2 c r _ ih => exact List.cons_subset_cons _ ih
  | case3 c r _ ih => exact List.cons_subset_cons _ ih
  | case4 => exact List.nil_subset _

theorem unquote_subset (v : List Char) : unquote v ⊆ v := by
  unfold unquote
  split
  next r =>
    split
    next inner hr =>
      have hinner : inner.reverse ⊆ r := fun c hc =>
        List.mem_reverse.mp (hr ▸ List.mem_cons_of_mem _ (List.mem_reverse.mp hc))
      exact fun c hc =>
        List.mem_cons_of_mem _ (hinner (unescape_subset '"' _ (unescape_subset '\\' _ hc)))
    next => exact List.Subset.refl _
  next => exact List.Subset.refl _

theorem value_subset (s : List Char) : (value s).1 ⊆ s ∧ (value s).2 ⊆ s := by
  have hbare : (s.takeWhile fun c => !isSpace c) ⊆ s ∧ (s.dropWhile fun c => !isSpace c) ⊆ s :=
    ⟨(List.takeWhile_sublist _).subset, (List.dropWhile_sublist _).subset⟩
  unfold value
  dsimp only
  split
  next r =>
    split
    next body rest hquoted =>
      obtain ⟨hbody, hrest⟩ := quotedBody_subset hquoted
      refine ⟨?_, List.subset_cons_of_subset _ hrest⟩
      exact List.cons_subset.mpr ⟨List.mem_cons_self, List.append_subset.mpr
        ⟨List.subset_cons_of_subset _ hbody, List.cons_subset.mpr ⟨List.mem_cons_self, List.nil_subset _⟩⟩⟩
    next => exact hbare
  next => exact hbare

theorem pair?_subset {p : String × String} (h : pair? s = some (p, rest)) : p.2.toList ⊆ s ∧ rest ⊆ s := by
  unfold pair? at h
  split at h
  next => exact absurd h nofun
  next c r =>
    split at h
    next => exact absurd h nofun
    next =>
      split at h
      next behind hkey =>
        obtain ⟨rfl, rfl⟩ := Prod.mk.inj (Option.some.inj h)
        have hbehind : behind ⊆ c :: r := fun d hd =>
          List.mem_cons_of_mem c ((List.dropWhile_sublist _).subset (hkey ▸ List.mem_cons_of_mem _ hd))
        obtain ⟨hvalue, hrest⟩ := value_subset behind
        refine ⟨fun d hd => ?_, List.Subset.trans hrest hbehind⟩
        rw [String.toList_ofList] at hd
        exact hbehind (hvalue (unquote_subset _ hd))
      next => exact absurd h nofun

theorem pairsFrom_subset {fuel : Nat} {p : String × String} (h : p ∈ pairsFrom fuel s) : p.2.toList ⊆ s := by
  fun_induction pairsFrom fuel s with
  | case1 => exact absurd h List.not_mem_nil
  | case2 => exact absurd h List.not_mem_nil
  | case3 fuel c r q rest hq ih =>
    obtain ⟨hvalue, hrest⟩ := pair?_subset hq
    rcases List.mem_cons.mp h with rfl | hp
    · exact hvalue
    · exact List.Subset.trans (ih hp) hrest
  | case4 fuel c r _ ih =>
    refine List.Subset.trans (ih h) (List.subset_cons_of_subset c ?_)
    split
    · exact (List.dropWhile_sublist _).subset
    · exact List.Subset.refl r

theorem mem_of_firstOf? {keys : List String} {ps : List (String × String)} {v : String}
    (h : firstOf? keys ps = some v) : ∃ p ∈ ps, p.2 = v := by
  obtain ⟨key, -, hkey⟩ := List.exists_of_findSome?_eq_some h
  obtain ⟨p, hp, hv⟩ := Option.map_eq_some_iff.mp hkey
  exact ⟨p, List.mem_reverse.mp (List.mem_of_find?_eq_some hp), hv⟩

/-- The message of a line of pairs is one of its values, or the whole line. -/
theorem read?_message (h : read? line = some (time, level, message)) : message ⊆ line := by
  simp only [read?, Option.bind_eq_bind, Option.bind_eq_some_iff] at h
  obtain ⟨_, -, _, -, h⟩ := h
  obtain ⟨-, -, rfl⟩ := by simpa only [Option.some.injEq, Prod.mk.injEq] using h
  cases hfirst : firstOf? messageKeys (pairs line) with
  | none => exact List.Subset.refl line
  | some v =>
    obtain ⟨p, hp, rfl⟩ := mem_of_firstOf? hfirst
    exact pairsFrom_subset hp

end Logfmt

namespace Bracketed

theorem bracket?_rest {s inner : List Char} (h : bracket? s = some (inner, rest)) : rest ⊆ s := by
  unfold bracket? at h
  split at h
  next r =>
    split at h
    next behind hclose =>
      dsimp only at h
      split at h
      · exact absurd h nofun
      · obtain ⟨-, rfl⟩ := Prod.mk.inj (Option.some.inj h)
        exact fun d hd =>
          List.mem_cons_of_mem _ ((List.dropWhile_sublist _).subset (hclose ▸ List.mem_cons_of_mem _ hd))
    next => exact absurd h nofun
  next => exact absurd h nofun

theorem trimStart_subset (s : List Char) : trimStart s ⊆ s := (List.dropWhile_sublist _).subset

/-- The message of a bracketed line is its end. -/
theorem read?_message (h : read? line = some (time, level, message)) : message ⊆ line := by
  obtain ⟨⟨name, behindName⟩, hname, h⟩ := Option.bind_eq_some_iff.mp h
  dsimp only at h
  split at h
  · exact absurd h nofun
  · obtain ⟨⟨stamp, behindStamp⟩, hstamp, h⟩ := Option.bind_eq_some_iff.mp h
    dsimp only at h
    split at h
    · exact absurd h nofun
    · obtain ⟨_, -, h⟩ := Option.bind_eq_some_iff.mp h
      obtain ⟨-, -, rfl⟩ := by simpa only [Option.some.injEq, Prod.mk.injEq] using h
      calc trimStart behindStamp ⊆ behindStamp := trimStart_subset _
        _ ⊆ trimStart behindName := bracket?_rest hstamp
        _ ⊆ behindName := trimStart_subset _
        _ ⊆ trimStart line := bracket?_rest hname
        _ ⊆ line := trimStart_subset _

end Bracketed

/-- Every character of a message stands in the cleaned line. -/
theorem message_subset (now : Instant) (service raw : String) :
    (parseLine now service raw).message.toList ⊆ clean raw.toList := by
  rw [parseLine]
  cases hpairs : Logfmt.read? (clean raw.toList) with
  | some r =>
    show (String.ofList r.2.2).toList ⊆ _
    rw [String.toList_ofList]
    exact Logfmt.read?_message hpairs
  | none =>
    cases hbrackets : Bracketed.read? (clean raw.toList) with
    | some r =>
      show (String.ofList r.2.2).toList ⊆ _
      rw [String.toList_ofList]
      exact Bracketed.read?_message hbrackets
    | none =>
      show (String.ofList (clean raw.toList)).toList ⊆ _
      rw [String.toList_ofList]
      exact List.Subset.refl _

/-- A line that holds no line feed has a message without line ends. -/
theorem isLineEnd_of_mem_message {now : Instant} {service raw : String} (hraw : '\n' ∉ raw.toList) {c : Char}
    (h : c ∈ (parseLine now service raw).message.toList) : isLineEnd c = false :=
  isLineEnd_of_mem_clean hraw (message_subset now service raw h)

end Log

end StackDeck
