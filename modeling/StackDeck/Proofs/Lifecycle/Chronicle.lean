import StackDeck.Proofs.Lifecycle.Advance

namespace StackDeck.Lifecycle

variable {β : Type}

namespace Entry

def signal? : Entry → Option Signal
  | .told s => some s
  | .call _ => none

/-- A stack that starts or stops has begun a new phase of an operation. -/
def isTransition (e : Entry) : Bool := e = .told .starting ∨ e = .told .stopping

end Entry

theorem accepted_countP (c : Call) (r : Except Fault Unit) : (accepted c r).countP Entry.isTransition = 0 := by
  cases r <;> rfl

theorem accepted_signals (c : Call) (r : Except Fault Unit) : (accepted c r).filterMap Entry.signal? = [] := by
  cases r <;> rfl

theorem told_countP (es : List Signal) : (es.map Entry.told).countP Entry.isTransition =
    es.countP (fun s => s = .starting ∨ s = .stopping) := by
  rw [List.countP_map]
  congr 1
  funext s
  simp [Entry.isTransition]

theorem told_signals (es : List Signal) : (es.map Entry.told).filterMap Entry.signal? = es := by
  simp [List.filterMap_map, Function.comp_def, Entry.signal?]

namespace Scene

variable {s s' : Scene β} {q q' : Situation} {es : List Entry}

/-- What a move does: some entries are written down, the signals among them were published, and the epoch has
risen by the transitions among them. -/
structure Goes (s : Scene β) (q : Situation) (es : List Entry) (s' : Scene β) (q' : Situation) : Prop where
  steps : q.Steps es q'
  chronicle : s'.chronicle = s.chronicle ++ es
  sound : s'.machine.Sound
  inside : s'.machine.In q'
  told : ∃ ns, s'.machine.notices = s.machine.notices ++ ns ∧ signals ns = es.filterMap Entry.signal?
  epoch : s'.machine.controller.epoch = s.machine.controller.epoch + es.countP Entry.isTransition
  keeps : (s.machine.tasks.map Task.epoch).dropLast <+: s'.machine.tasks.map Task.epoch

theorem become_goes {calls : List Entry} {m : Machine β} (h : s.machine.Advances q calls m)
    (hz : calls.countP Entry.isTransition = 0) (hs : calls.filterMap Entry.signal? = [])
    (hc : s'.chronicle = s.chronicle) (hm : s'.machine = s.machine) :
    ∃ es q', s.Goes q es (s'.become calls m) q' := by
  obtain ⟨es, q', steps, arr⟩ := h
  obtain ⟨ns, hn, he⟩ := arr.told
  have hd : m.notices.drop s'.machine.notices.length = ns := by rw [hn, hm, List.drop_left]
  refine ⟨calls ++ es.map .told, q', steps, ?_, arr.sound, arr.inside, ⟨ns, hn, ?_⟩, ?_, arr.keeps⟩
  · simp only [become, hd, he, hc]
  · rw [List.filterMap_append, hs, told_signals, he, List.nil_append]
  · rw [List.countP_append, hz, told_countP, Nat.zero_add]
    exact arr.epoch

theorem still_goes (h : s.machine.Sound) (hi : s.machine.In q) (hc : s'.chronicle = s.chronicle)
    (ht : s'.machine.tasks = s.machine.tasks) (hk : s'.machine.controller = s.machine.controller)
    (hn : s'.machine.notices = s.machine.notices) : s.Goes q [] s' q := by
  have hi' : s'.machine.In q := by
    cases q <;> simpa only [Machine.In, Machine.TearsDown, ht, hk] using hi
  refine ⟨.refl q, by rw [hc, List.append_nil], h.of_same (by rw [ht]) (by rw [ht]) (by rw [hk]), hi',
    ⟨[], by rw [hn, List.append_nil], rfl⟩, by rw [hk]; rfl, ?_⟩
  rw [ht]
  exact List.dropLast_prefix _

theorem attend_goes (h : s.machine.Sound) (hi : s.machine.In q) (k : Nat) :
    ∃ es q', s.Goes q es (s.attend k) q' := by
  unfold attend
  cases s.visits[k]? with
  | none => exact ⟨[], q, still_goes h hi rfl rfl rfl rfl⟩
  | some v =>
    have ha := h.attend hi v
    simp only
    split
    next v' m he =>
      rw [he] at ha
      exact become_goes ha rfl rfl rfl rfl
    next r m he =>
      rw [he] at ha
      refine become_goes ha ?_ ?_ rfl rfl
      · cases v <;> first | rfl | exact accepted_countP _ _
      · cases v <;> first | rfl | exact accepted_signals _ _

/-- Every move takes the stack from one situation to a next. -/
theorem move_goes (h : s.machine.Sound) (hi : s.machine.In q) (mv : Move β) :
    ∃ es q', s.Goes q es (s.move mv) q' := by
  cases mv with
  | arrive r =>
    simp only [move]
    cases s.machine.arrive r <;> exact ⟨[], q, still_goes h hi rfl rfl rfl rfl⟩
  | attend k => exact attend_goes h hi k
  | leave k => exact ⟨[], q, still_goes h hi rfl rfl rfl rfl⟩
  | down => exact become_goes (h.down hi) (accepted_countP _ _) (accepted_signals _ _) rfl rfl
  | restart => exact become_goes (h.restart hi) (accepted_countP _ _) (accepted_signals _ _) rfl rfl
  | cancel => exact become_goes (h.cancel hi) (accepted_countP _ _) (accepted_signals _ _) rfl rfl
  | poll id => exact become_goes (h.poll hi id) rfl rfl rfl rfl
  | pass ms => exact ⟨[], q, still_goes h hi rfl rfl rfl rfl⟩
  | touch f => exact ⟨[], q, still_goes h hi rfl rfl rfl rfl⟩

/-- The chronicle leads from rest to where the stack is, and agrees with the notices and the epoch. -/
structure Lawful (s : Scene β) (q : Situation) : Prop where
  sound : s.machine.Sound
  inside : s.machine.In q
  steps : Situation.Steps .rest s.chronicle q
  told : s.chronicle.filterMap Entry.signal? = signals s.machine.notices
  epoch : s.machine.controller.epoch = s.chronicle.countP Entry.isTransition

theorem Goes.lawful (h : s.Lawful q) (g : s.Goes q es s' q') : s'.Lawful q' := by
  obtain ⟨ns, hn, hs⟩ := g.told
  refine ⟨g.sound, g.inside, ?_, ?_, ?_⟩
  · rw [g.chronicle]
    exact h.steps.trans g.steps
  · rw [g.chronicle, List.filterMap_append, h.told, ← hs, hn, signals_append]
  · rw [g.epoch, h.epoch, g.chronicle, List.countP_append]

theorem start_lawful (backend : Backend β) (world : β) (teardownTimeout : Nat) :
    (start backend world teardownTimeout).Lawful .rest := by
  refine ⟨⟨rfl, .nil, ?_⟩, ⟨?_, rfl, rfl, rfl⟩, .refl _, rfl, rfl⟩
  · intro e he
    simp [start] at he
  · intro t ht
    simp [start] at ht

theorem Lawful.run (h : s.Lawful q) (moves : List (Move β)) : ∃ q', (s.run moves).Lawful q' := by
  refine run_keeps (P := fun s => ∃ q, s.Lawful q) ?_ ⟨q, h⟩ moves
  rintro s mv ⟨q, h⟩
  obtain ⟨es, q', g⟩ := move_goes h.sound h.inside mv
  exact ⟨q', g.lawful h⟩

/-- What a run writes down leads from where the stack was to where it is. -/
theorem Lawful.run_steps (h : s.Lawful q) (moves : List (Move β)) : ∃ es q',
    (s.run moves).chronicle = s.chronicle ++ es ∧ q.Steps es q' ∧ (s.run moves).Lawful q' := by
  induction moves generalizing s q with
  | nil => exact ⟨[], q, (List.append_nil _).symm, .refl q, h⟩
  | cons mv r ih =>
    obtain ⟨es, q₁, g⟩ := move_goes h.sound h.inside mv
    obtain ⟨fs, q₂, hc, hs, hl⟩ := ih (g.lawful h)
    refine ⟨es ++ fs, q₂, ?_, g.steps.trans hs, hl⟩
    rw [← List.append_assoc, ← g.chronicle]
    exact hc

end Scene

end StackDeck.Lifecycle
