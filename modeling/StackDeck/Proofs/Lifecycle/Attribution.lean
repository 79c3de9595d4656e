import StackDeck.Proofs.Lifecycle.Errands
import StackDeck.Proofs.Lifecycle.Language

/-!
Whose steps and whose error a stack shows, in any run of it.
-/

namespace StackDeck.Lifecycle

variable {β : Type} {J K : List Record} {q : Situation}

theorem Task.Fits.append {t : Task β} (h : t.Fits J) (hK : Background K) (hnew : errands K = []) :
    t.Fits (J ++ K) := by
  unfold Task.Fits at h ⊢
  split at h
  next => exact h.append hK.within hnew
  next => exact ⟨h.1.append hK.within hnew, fun hb hc => h.2 hb (hK.mem_since hc)⟩
  next =>
    refine Due.append h hK.within ?_
    rw [hnew]
    nofun
  next => trivial

namespace Machine

variable {m m' : Machine β}

theorem news_nil (m : Machine β) : m.news [] m = [] := by
  simp [news]

/-- A refused call leaves everything as it was. -/
theorem refused_kept (h : Kept m J) : Kept m (J ++ m.news [] m) := by
  rw [news_nil, List.append_nil]
  exact h

/-- A new operation leaves its work to a new task. -/
theorem opened_kept (h : Kept m J) (ho : AllOver m.tasks) {call : Call} (hcall : call ≠ .cancel) {n : Notice} {d : Duty}
    (hd : n.duty? = some d) (hp : n.progress? = none) (hout : n.outcome? = none)
    (hepoch : m'.controller.epoch = m.controller.epoch + 1) (hprogress : m'.controller.progress = [])
    (hphase : m'.controller.phase ≠ .idle) (herror : m'.controller.lastError = none)
    (hn : m'.notices = m.notices ++ [n]) (hasked : m'.asked = m.asked) {t : Task β} (ht : m'.tasks = m.tasks ++ [t])
    (hfits : Due (J ++ [.accepted call, .told n]) ⟨t.id, d, m.controller.epoch + 1⟩ →
      .accepted .cancel ∉ since (J ++ [.accepted call, .told n]) → t.Fits (J ++ [.accepted call, .told n])) :
    Kept m' (J ++ m.news [.call call] m') := by
  have hlog : m.news [.call call] m' = [.accepted call, .told n] := by
    rw [news, hn, List.drop_left]
    rfl
  rw [hlog]
  refine ⟨⟨?_, ?_⟩, fun u hu => ?_⟩
  · rw [hn]
    exact h.booked.opened hcall hd hp hout hepoch hprogress hphase herror
  · rw [hasked, ← h.asked, errands_append]
    exact congrArg (List.map _) (List.append_nil _)
  · rw [ht] at hu
    rcases List.mem_append.mp hu with hu | hu
    · exact Task.fits_of_over (ho u hu)
    · rw [List.mem_singleton.mp hu]
      refine hfits (h.booked.due (duties_opened hd call) rfl ?_ t.id) ?_
      · have hnone : duties [.accepted call] = [] := rfl
        rw [past_opened hcall, duties_append, hnone, List.append_nil, h.booked.epoch]
      · rw [since_opened hcall]
        simp

theorem down_kept (hi : m.In q) (h : Kept m J) :
    Kept m.down.2 (J ++ m.news (accepted .down m.down.1) m.down.2) := by
  rcases hi.ensureIdle with ⟨rfl, he⟩ | ⟨e, he⟩
  · simp only [down, he]
    exact opened_kept h hi.1 (by decide) (n := .stopping) rfl rfl rfl rfl rfl (fun he => by cases he) rfl rfl rfl rfl
      fun hdue hc => ⟨hdue, fun _ => hc⟩
  · simp only [down, he]
    exact refused_kept h

theorem restart_kept (hi : m.In q) (h : Kept m J) :
    Kept m.restart.2 (J ++ m.news (accepted .restart m.restart.1) m.restart.2) := by
  rcases hi.ensureIdle with ⟨rfl, he⟩ | ⟨e, he⟩
  · simp only [restart, he]
    exact opened_kept h hi.1 (by decide) (n := .stopping) rfl rfl rfl rfl rfl (fun he => by cases he) rfl rfl rfl rfl
      fun hdue hc => ⟨hdue, fun _ => hc⟩
  · simp only [restart, he]
    exact refused_kept h

theorem beginBoot_kept (hi : m.In q) (h : Kept m J) (running : Nat) : Kept (m.beginBoot running).2
    (J ++ m.news (accepted .up (m.beginBoot running).1) (m.beginBoot running).2) := by
  rcases hi.ensureIdle with ⟨rfl, he⟩ | ⟨e, he⟩
  · by_cases hr : 0 < running
    · simp only [beginBoot, he, hr, if_true]
      exact refused_kept h
    · simp only [beginBoot, he, hr, if_false]
      exact opened_kept h hi.1 (by decide) (n := .starting) rfl rfl rfl rfl rfl (fun he => by cases he) rfl rfl rfl rfl
        fun hdue _ => hdue
  · simp only [beginBoot, he]
    exact refused_kept h

/-- A cancel supersedes the boot, whose steps so far stay. -/
theorem cancel_kept (hi : m.In q) (h : Kept m J) :
    Kept m.cancel.2 (J ++ m.news (accepted .cancel m.cancel.1) m.cancel.2) := by
  have hphase := hi.phase
  cases q with
  | booting again =>
    obtain ⟨olds, b, op, hb, ho, hplace, -, -, hboot⟩ := hi
    have hnone : m.controller.lastError = none := h.booked.busy (by simp [hphase, Situation.phase])
    have hwithin : Within [.accepted .cancel, .told .stopping] := by simp [Within, Record.opens]
    have hlog {m' : Machine β} (hn : m'.notices = m.notices ++ [.stopping]) :
        m.news [.call .cancel] m' = [.accepted .cancel, .told .stopping] := by
      rw [news, hn, List.drop_left]
      rfl
    simp only [cancel, hphase, Situation.phase, hboot]
    rw [accepted, hlog rfl]
    refine ⟨⟨h.booked.turnsTo hwithin rfl rfl rfl ?_ rfl rfl (fun _ => rfl) rfl rfl (fun he => by cases he) hnone, ?_⟩,
      fun t ht => ?_⟩
    · intro r hr
      rcases List.mem_cons.mp hr with rfl | hr
      · rfl
      · rw [List.mem_singleton.mp hr]
        rfl
    · rw [errands_append, List.map_append, h.asked]
      exact List.append_nil _
    · rcases List.mem_append.mp ht with ht | ht
      · have hfits := h.fits t ht
        have ht : t ∈ olds ++ [b] := hb ▸ ht
        rcases List.mem_append.mp ht with ht | ht
        · exact Task.fits_of_over (ho t ht)
        · rw [List.mem_singleton.mp ht, Task.Fits, hplace] at hfits ⊢
          exact hfits.append hwithin rfl
      · rw [List.mem_singleton.mp ht]
        exact h.booked.due rfl rfl (h.booked.past_le hwithin) _
  | rest | awaiting again | stopping | restarting | reverting again =>
    simp only [cancel, hphase, Situation.phase]
    exact refused_kept h

theorem still_kept (h : Kept m J) (hc : m'.controller = m.controller) (hn : m'.notices = m.notices)
    (hasked : m'.asked = m.asked) (ht : m'.tasks = m.tasks) : Kept m' (J ++ m.news [] m') := by
  have hlog : m.news [] m' = [] := by
    rw [news, hn, List.drop_length]
    rfl
  rw [hlog, List.append_nil]
  refine ⟨⟨?_, h.asked.trans hasked.symm⟩, fun t hm => h.fits t (ht ▸ hm)⟩
  rw [hc, hn]
  exact h.booked

/-- An action on a service is told and is nothing to the operations of the stack. -/
theorem acted_kept (h : Kept m J) {name : String} {action : ServiceAction} {error : Option String}
    (hc : m'.controller = m.controller) (hn : m'.notices = m.notices ++ [.service name action error])
    (hasked : m'.asked = m.asked) (ht : m'.tasks = m.tasks) : Kept m' (J ++ m.news [] m') := by
  have hlog : m.news [] m' = [.told (.service name action error)] := by
    rw [news, hn, List.drop_left]
    rfl
  have hback : Background [.told (.service name action error)] := background_one nofun
  rw [hlog]
  refine ⟨⟨?_, ?_⟩, fun t hm => (h.fits t (ht ▸ hm)).append hback rfl⟩
  · rw [hc, hn]
    refine h.booked.goesOn hback rfl rfl (fun r hr e hre => ?_) (fun r hr k hk => ?_) rfl
      (List.append_nil _).symm rfl h.booked.busy ?_ rfl
    · rw [List.mem_singleton.mp hr] at hre
      cases hre
    · rw [List.mem_singleton.mp hr] at hk
      cases hk
    · rw [results_append, show results [.told (.service name action error)] = [] from rfl, List.append_nil]
      exact h.booked.idle
  · rw [hasked, errands_append, List.map_append, h.asked]
    exact List.append_nil _

theorem attend_kept (hi : m.In q) (h : Kept m J) (v : Visit β) :
    match m.attend v with
    | (.waiting _, m') => Kept m' (J ++ m.news [] m')
    | (.answered r, m') => Kept m' (J ++ m.news (v.accepted r) m') := by
  cases v with
  | asking => exact refused_kept h
  | counted running => exact beginBoot_kept hi h running
  | acting name action op =>
    simp only [attend]
    cases (op.poll m.now false m.world).2.2 with
    | ended r => exact acted_kept h rfl rfl rfl rfl
    | fresh _ | asleep _ _ _ | held => exact still_kept h rfl rfl rfl rfl

end Machine

theorem entries_told (ns : List Notice) :
    (ns.map Record.told).filterMap Record.entry? = (signals ns).map .told := by
  induction ns with
  | nil => rfl
  | cons n r ih =>
    have hsignals : signals (n :: r) = n.signal?.toList ++ signals r := by
      rw [signals, List.filterMap_cons]
      cases n.signal? <;> rfl
    rw [hsignals, List.map_cons, List.map_append, ← ih, List.filterMap_cons]
    cases hn : n.signal? <;> simp [Record.entry?, hn]

theorem entries_accepted (cs : List Call) : (cs.map Record.accepted).filterMap Record.entry? = cs.map .call := by
  have hcall : Record.entry? ∘ Record.accepted = some ∘ Entry.call := rfl
  rw [List.filterMap_map, hcall, List.filterMap_eq_map]

/-- Where only tasks go on, the signals are all there is to write down. -/
theorem Background.entries (hK : Background K) : K.filterMap Record.entry? = (signals (told K)).map .told := by
  rw [← entries_told]
  induction K with
  | nil => rfl
  | cons r K ih =>
    have hrest := ih fun x hx => hK x (List.mem_cons_of_mem r hx)
    cases r with
    | accepted c => exact absurd rfl (hK _ List.mem_cons_self c)
    | told n =>
      have htold : told (.told n :: K) = n :: told K := rfl
      rw [htold, List.map_cons, List.filterMap_cons, List.filterMap_cons, hrest]
    | _ => exact hrest

theorem accepted_calls (c : Call) (r : Except Fault Unit) :
    ((accepted c r).filterMap Entry.call?).map .call = accepted c r := by
  cases r <;> rfl

namespace Scene

variable {s s' : Scene β} {m : Machine β}

/-- A move keeps the journal in order, which tells of it what the chronicle does. -/
structure Writes (s : Scene β) (J : List Record) (s' : Scene β) (K : List Record) : Prop where
  kept : Kept s'.machine (J ++ K)
  entries : s'.chronicle = s.chronicle ++ K.filterMap Record.entry?

theorem become_writes {calls : List Entry} (hcalls : (calls.filterMap Entry.call?).map .call = calls)
    (hc : s'.chronicle = s.chronicle) (hm : s'.machine = s.machine) (h : Kept m (J ++ s.machine.news calls m)) :
    s.Writes J (s'.become calls m)
      (s.machine.news ((s'.become calls m).chronicle.drop s.chronicle.length) (s'.become calls m).machine) := by
  have hchronicle : (s'.become calls m).chronicle =
      s.chronicle ++ (calls ++ (signals (m.notices.drop s.machine.notices.length)).map .told) := by
    rw [become, hc, hm]
  have hlog : s.machine.news ((s'.become calls m).chronicle.drop s.chronicle.length) (s'.become calls m).machine =
      s.machine.news calls m := by
    have hnone : ((signals (m.notices.drop s.machine.notices.length)).map Entry.told).filterMap Entry.call? = [] := by
      simp [Entry.call?]
    rw [hchronicle, List.drop_left, Machine.news, List.filterMap_append, hnone, List.append_nil]
    rfl
  rw [hlog]
  refine ⟨h, ?_⟩
  rw [hchronicle, Machine.news, List.filterMap_append, entries_accepted, entries_told, hcalls]

theorem still_writes (h : Kept s.machine J) (hchron : s'.chronicle = s.chronicle)
    (hc : s'.machine.controller = s.machine.controller) (hn : s'.machine.notices = s.machine.notices)
    (hasked : s'.machine.asked = s.machine.asked) (ht : s'.machine.tasks = s.machine.tasks) :
    s.Writes J s' (s.machine.news (s'.chronicle.drop s.chronicle.length) s'.machine) := by
  rw [hchron, List.drop_length]
  refine ⟨Machine.still_kept h hc hn hasked ht, ?_⟩
  rw [Machine.news, hn, List.drop_length]
  simpa using hchron

theorem attend_writes (hi : s.machine.In q) (h : Kept s.machine J) (k : Nat) :
    s.Writes J (s.attend k) (s.machine.news ((s.attend k).chronicle.drop s.chronicle.length) (s.attend k).machine) := by
  unfold attend
  cases s.visits[k]? with
  | none => exact still_writes h rfl rfl rfl rfl rfl
  | some v =>
    have ha := Machine.attend_kept hi h v
    simp only
    split
    next v' m he =>
      rw [he] at ha
      exact become_writes rfl rfl rfl ha
    next r m he =>
      rw [he] at ha
      refine become_writes ?_ rfl rfl ha
      cases v with
      | counted running => exact accepted_calls .up r
      | asking | acting _ _ _ => rfl

theorem move_writes (hs : s.machine.Sound) (hi : s.machine.In q) (h : Kept s.machine J) (mv : Move β) :
    s.Writes J (s.move mv) (s.log mv) := by
  cases mv with
  | arrive r =>
    simp only [log, move]
    cases s.machine.arrive r <;> exact still_writes h rfl rfl rfl rfl rfl
  | attend k => exact attend_writes hi h k
  | leave k => exact still_writes h rfl rfl rfl rfl rfl
  | down => exact become_writes (accepted_calls _ _) rfl rfl (Machine.down_kept hi h)
  | restart => exact become_writes (accepted_calls _ _) rfl rfl (Machine.restart_kept hi h)
  | cancel => exact become_writes (accepted_calls _ _) rfl rfl (Machine.cancel_kept hi h)
  | poll id =>
    have hpoll := Machine.poll_kept hs hi h id
    refine ⟨hpoll, ?_⟩
    have hback : Background (s.machine.pollLog id) := Machine.pollLog_background id s.machine
    have hnotices : (s.machine.poll id).notices = s.machine.notices ++ told (s.machine.pollLog id) := by
      rw [← hpoll.booked.told, told_append, h.booked.told]
    simp only [log, move, become]
    rw [hnotices, List.drop_left, hback.entries, List.nil_append]
  | pass ms => exact still_writes h rfl rfl rfl rfl rfl
  | touch f => exact still_writes h rfl rfl rfl rfl rfl

end Scene

/-! ### Whole runs -/

/-- An account whose journal tells of its scene. -/
structure Account.Faithful (a : Account β) (q : Situation) : Prop where
  lawful : a.scene.Lawful q
  kept : Kept a.scene.machine a.journal
  entries : a.journal.filterMap Record.entry? = a.scene.chronicle

theorem Scene.Lawful.report {s : Scene β} (h : s.Lawful q) (epoch : Nat) (p : Progress) :
    Scene.Lawful { s with machine := s.machine.reportProgress epoch p } q := by
  by_cases hcur : s.machine.controller.epoch = epoch
  · have hm : s.machine.reportProgress epoch p = { s.machine with
        controller := { s.machine.controller with progress := s.machine.controller.progress ++ [p] } }.publish
          (.progress p) := if_pos hcur
    rw [hm]
    refine ⟨h.sound.of_same rfl rfl rfl, ?_, h.steps, ?_, h.epoch⟩
    · have hi := h.inside
      cases q <;> exact hi
    · have hsignals : signals [.progress p] = [] := rfl
      rw [Machine.publish, signals_append, hsignals, List.append_nil]
      exact h.told
  · have hm : s.machine.reportProgress epoch p = s.machine := if_neg hcur
    rw [hm]
    exact h

namespace Account

variable {a : Account β}

theorem Faithful.turn (f : a.Faithful q) (t : Turn β) : ∃ q', (a.turn t).Faithful q' := by
  cases t with
  | move mv =>
    obtain ⟨es, q', g⟩ := Scene.move_goes f.lawful.sound f.lawful.inside mv
    obtain ⟨hkept, hentries⟩ := Scene.move_writes f.lawful.sound f.lawful.inside f.kept mv
    refine ⟨q', g.lawful f.lawful, hkept, ?_⟩
    simp only [Account.turn]
    rw [List.filterMap_append, f.entries, hentries]
  | report k p =>
    refine ⟨q, ?_⟩
    simp only [Account.turn]
    cases hk : (errands a.journal)[k]? with
    | none => exact f
    | some e =>
      have he : e ∈ errands a.journal := List.mem_of_getElem? hk
      have hback := Machine.noted_background e a.scene.machine.controller.epoch p
      have hbook := Machine.report_booked f.kept.booked he p
      refine ⟨f.lawful.report e.epoch p, ⟨⟨hbook, ?_⟩, fun t ht => ?_⟩, ?_⟩
      · have hsame : (a.scene.machine.reportProgress e.epoch p).asked = a.scene.machine.asked := by
          unfold Machine.reportProgress
          split <;> rfl
        rw [hsame, errands_append, Machine.errands_noted, List.append_nil, f.kept.asked]
      · have ht : t ∈ a.scene.machine.tasks := by
          simp only [Machine.reportProgress] at ht
          split at ht <;> exact ht
        exact (f.kept.fits t ht).append hback (Machine.errands_noted ..)
      · have hsignals : signals (told (noted e a.scene.machine.controller.epoch p)) = [] := by
          rw [Machine.told_noted]
          split <;> rfl
        rw [List.filterMap_append, hback.entries, hsignals, List.map_nil, List.append_nil]
        exact f.entries

theorem start_faithful (backend : Backend β) (world : β) (teardownTimeout : Nat) :
    (start backend world teardownTimeout).Faithful .rest := by
  refine ⟨Scene.start_lawful backend world teardownTimeout, ⟨⟨?_, rfl⟩, nofun⟩, rfl⟩
  refine ⟨rfl, rfl, fun before r after he => ?_, .nil, nofun, nofun, nofun, nofun, rfl, rfl, rfl, nofun, .nil,
    fun _ => rfl, fun _ => rfl, rfl⟩
  have he : [] = before ++ r :: after := he
  simp at he

theorem Faithful.run (f : a.Faithful q) (turns : List (Turn β)) : ∃ q', (a.run turns).Faithful q' := by
  induction turns generalizing a q with
  | nil => exact ⟨q, f⟩
  | cons t r ih =>
    obtain ⟨q', f'⟩ := f.turn t
    exact ih f'

end Account

/-! ### The operation that was accepted last -/

theorem Block.entries_eq (b : Block) : b.entries = .call b.call :: b.entries.tail := by
  cases b <;> rfl

theorem Block.tail_operation? (b : Block) : ∀ e ∈ b.entries.tail, e.operation? = none := by
  cases b with
  | restartFailed => decide
  | up e | upCancelled e | down e | restart e | restartCancelled e => cases e <;> decide

theorem rtakeWhile_append_cons {α : Type} {p : α → Bool} {x : α} (hx : ¬ p x) {xs : List α} (hxs : ∀ y ∈ xs, p y)
    (l : List α) : (l ++ x :: xs).rtakeWhile p = xs := by
  induction xs using List.reverseRecOn with
  | nil => exact List.rtakeWhile_concat_neg p l x hx
  | append_singleton xs y ih =>
    have hsplit : l ++ x :: (xs ++ [y]) = (l ++ x :: xs) ++ [y] := by simp
    rw [hsplit, List.rtakeWhile_concat_pos p _ y (hxs y (by simp)), ih fun z hz => hxs z (by simp [hz])]

/-- What was written down since the last operation was accepted is how that operation goes. -/
theorem Scene.Lawful.latest {s : Scene β} (h : s.Lawful q) {call : Call}
    (hc : call ∈ (s.chronicle.filterMap Entry.operation?).getLast?) : ∃ b : Block, b.call = call ∧
      .call call :: s.chronicle.rtakeWhile (fun e => e.operation?.isNone) <+: b.entries := by
  have hlast : ∃ b : Block, ∃ old left, s.chronicle = old ++ left ∧ left ≠ [] ∧ left <+: b.entries := by
    obtain ⟨blocks, hb⟩ := h.steps.blocks
    have hb : s.chronicle = blocks.flatMap Block.entries ++ q.opening := hb
    by_cases hq : q = .rest
    · rcases List.eq_nil_or_concat blocks with rfl | ⟨bs, b, rfl⟩
      · have hnil : s.chronicle = [] := by simpa [hq, Situation.opening] using hb
        rw [hnil] at hc
        cases hc
      · refine ⟨b, bs.flatMap Block.entries, b.entries, ?_, ?_, List.prefix_rfl⟩
        · simpa [hq, Situation.opening] using hb
        · rw [b.entries_eq]
          exact List.cons_ne_nil _ _
    · obtain ⟨b, es, -, hbe, hop⟩ := Situation.opening_prefix hq
      refine ⟨b, blocks.flatMap Block.entries, q.opening, hb, ?_, ⟨es, hbe⟩⟩
      intro hnil
      rw [hnil] at hop
      cases hop
  obtain ⟨b, old, left, hchronicle, hleft, hpre⟩ := hlast
  obtain ⟨es, hes⟩ := hpre
  obtain ⟨x, tail, rfl⟩ := List.exists_cons_of_ne_nil hleft
  rw [b.entries_eq, List.cons_append, List.cons.injEq] at hes
  obtain ⟨rfl, hes⟩ := hes
  have htail : ∀ e ∈ tail, e.operation? = none := fun e he =>
    b.tail_operation? e (hes ▸ List.mem_append_left es he)
  have hcall : (Entry.call b.call).operation? = some b.call := by
    cases b <;> rfl
  have hops : s.chronicle.filterMap Entry.operation? = old.filterMap Entry.operation? ++ [b.call] := by
    rw [hchronicle, List.filterMap_append, List.filterMap_cons_some hcall, List.filterMap_eq_nil_iff.mpr htail]
  rw [hops, List.getLast?_concat] at hc
  obtain rfl := Option.some.inj hc
  refine ⟨b, rfl, es, ?_⟩
  have hrecent : s.chronicle.rtakeWhile (fun e => e.operation?.isNone) = tail := by
    rw [hchronicle]
    exact rtakeWhile_append_cons (by simp [hcall]) (fun e he => by simp [htail e he]) old
  rw [hrecent, b.entries_eq, List.cons_append, hes]

/-! ### What is shown -/

theorem entries_since (J : List Record) : (since J).filterMap Record.entry? =
    (J.filterMap Record.entry?).rtakeWhile fun e => e.operation?.isNone := by
  induction J using List.reverseRecOn with
  | nil => rfl
  | append_singleton J r ih =>
    rw [since_concat, List.filterMap_append]
    have unwritten (hopens : r.opens = false) (hnone : [r].filterMap Record.entry? = []) :
        (if r.opens then [] else since J ++ [r]).filterMap Record.entry? =
          (J.filterMap Record.entry? ++ [r].filterMap Record.entry?).rtakeWhile fun e => e.operation?.isNone := by
      rw [hopens, if_neg Bool.false_ne_true, List.filterMap_append, hnone, List.append_nil, List.append_nil, ih]
    cases r with
    | accepted c =>
      have hone : [Record.accepted c].filterMap Record.entry? = [.call c] := rfl
      rw [hone, List.rtakeWhile_concat, ← ih]
      cases c <;> simp [Record.opens, Entry.operation?, Record.entry?]
    | told n =>
      cases hn : n.signal? with
      | none => exact unwritten rfl (by simp [Record.entry?, hn])
      | some s =>
        have hopens : (Record.told n).opens = false := rfl
        have hone : [Record.told n].filterMap Record.entry? = [.told s] := by simp [Record.entry?, hn]
        rw [hopens, if_neg Bool.false_ne_true, List.filterMap_append, hone, ih]
        exact (List.rtakeWhile_concat_pos _ _ _ rfl).symm
    | asked e => exact unwritten rfl rfl
    | reported e current p => exact unwritten rfl rfl
    | concluded e current res => exact unwritten rfl rfl

theorem duties_eq (J : List Record) : duties J = (J.filterMap Record.entry?).filterMap Entry.duty? := by
  rw [duties, List.filterMap_filterMap]
  congr 1
  funext r
  cases r with
  | told n => cases n <;> rfl
  | _ => rfl

theorem sublist_of_ascending {α γ : Type} (place : α → Nat) (val : α → γ) {xs : List α} {ys : List γ}
    (hasc : xs.Pairwise fun x y => place x < place y) (h : ∀ x ∈ xs, ys[place x]? = some (val x)) :
    (xs.map val).Sublist ys := by
  induction xs using List.reverseRecOn generalizing ys with
  | nil => exact List.nil_sublist ys
  | append_singleton xs x ih =>
    obtain ⟨hxs, -, hlt⟩ := List.pairwise_append.mp hasc
    have hbefore : (xs.map val).Sublist (ys.take (place x)) := by
      refine ih hxs fun y hy => ?_
      rw [List.getElem?_take_of_lt (hlt y hy x (List.mem_singleton_self x))]
      exact h y (List.mem_append_left _ hy)
    have hx : ys[place x]? = some (val x) := h x (by simp)
    have htake : ys.take (place x + 1) = ys.take (place x) ++ [val x] := by
      rw [List.take_add_one, hx]
      rfl
    rw [List.map_append, List.map_singleton]
    refine (hbefore.append (List.Sublist.refl [val x])).trans ?_
    rw [← htake]
    exact List.take_sublist _ ys

/-- The calls of an operation are made in the order in which their duties begin, one for each at most. -/
theorem Booked.errands_sublist {c : Controller} {ns : List Notice} (h : Booked c ns J) :
    ((errands (since J)).map Errand.duty).Sublist (duties (since J)) := by
  have hasc := h.ascending.sublist (errands_since J)
  refine sublist_of_ascending (fun e => e.epoch - 1 - (duties (past J)).length) Errand.duty ?_ fun e he => ?_
  · refine hasc.imp_of_mem fun {e f} he hf hlt => ?_
    have hold := h.recent e he
    show e.epoch - 1 - (duties (past J)).length < f.epoch - 1 - (duties (past J)).length
    omega
  · have hold := h.recent e he
    have hfits := (h.fits e ((errands_since J).subset he)).2
    rw [← past_append_since J, duties_append, List.getElem?_append_right (by omega)] at hfits
    exact hfits

/-- In every run the steps that are shown are those that were told since the last operation was accepted. They are
the steps of its calls to the backend, one call after the other, as far as a call held the current epoch when it
reported, and after a cancel those of the teardown alone. No error is shown while the stack is busy. At rest it is
that of the operation that ended last, if that one failed, and it was told so. -/
theorem progress_and_errors_are_attributed (backend : Backend β) (world : β) (teardownTimeout : Nat)
    (turns : List (Turn β)) :
    let a := (Account.start backend world teardownTimeout).run turns
    let c := a.scene.machine.controller
    let recent := since a.journal
    told a.journal = a.scene.machine.notices ∧
    a.journal.filterMap Record.entry? = a.scene.chronicle ∧
    (errands a.journal).map (fun e => (e.task, e.duty)) = a.scene.machine.asked ∧
    (∀ e ∈ errands a.journal, e.Fits (duties a.journal)) ∧
    Dated a.journal ∧
    (∀ services, (c.view services).progress = (told recent).filterMap Notice.progress?) ∧
    (∀ services, (c.view services).progress = (counted recent).map Prod.snd) ∧
    (∀ services, (c.view services).progress = (errands recent).flatMap (steps recent)) ∧
    (∀ call ∈ (a.scene.chronicle.filterMap Entry.operation?).getLast?, ∃ b : Block, b.call = call ∧
      .call call :: recent.filterMap Record.entry? <+: b.entries ∧
      ((errands recent).map Errand.duty).Sublist (b.entries.filterMap Entry.duty?)) ∧
    recent.Pairwise (fun x y => x = .accepted .cancel → ∀ e ∈ y.holder?, e.duty = .teardown) ∧
    (c.phase ≠ .idle → ∀ services, (c.view services).lastError = none) ∧
    (c.phase = .idle → ∀ services, (c.view services).lastError = (results a.journal).getLast?.bind errorText) ∧
    (results a.journal).map errorText = a.scene.machine.notices.filterMap Notice.outcome? := by
  intro a c recent
  obtain ⟨q, f⟩ := (Account.start_faithful backend world teardownTimeout).run turns
  change a.Faithful q at f
  have h := f.kept.booked
  refine ⟨h.told, f.entries, f.kept.asked, h.fits, h.dated, fun _ => h.shown, fun _ => h.listed, fun _ => h.grouped,
    fun call hcall => ?_, h.reverted, fun hbusy _ => h.busy hbusy, fun hidle _ => h.idle hidle, h.outcomes⟩
  obtain ⟨b, hb, hpre⟩ := f.lawful.latest hcall
  rw [← f.entries, ← entries_since] at hpre
  refine ⟨b, hb, hpre, h.errands_sublist.trans ?_⟩
  have hduties := (hpre.filterMap Entry.duty?).sublist
  rw [List.filterMap_cons_none rfl, ← duties_eq] at hduties
  exact hduties

end StackDeck.Lifecycle
