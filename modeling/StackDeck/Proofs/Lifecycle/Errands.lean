import StackDeck.Proofs.Lifecycle.Bookkeeping
import StackDeck.Proofs.Lifecycle.Cancellation

/-!
The tasks of a stack keep its journal in order, whichever of them goes on.
-/

namespace StackDeck.Lifecycle

variable {β : Type} {J K : List Record} {m : Machine β} {e : Errand} {op : Operation β} {id epoch : Nat}

theorem Due.append (h : Due J e) (hK : Within K) (hnew : ∀ f ∈ errands K, f.epoch < e.epoch) : Due (J ++ K) e := by
  refine ⟨?_, ?_, fun f hf => ?_⟩
  · rw [duties_append]
    exact h.fits.append _
  · rw [hK.past_append]
    exact h.recent
  · rw [errands_append] at hf
    rcases List.mem_append.mp hf with hf | hf
    · exact h.new f hf
    · exact hnew f hf

/-- A call can be made for the epoch that begins with its duty. -/
theorem Booked.due {c : Controller} {ns : List Notice} {d : Duty} (h : Booked c ns J) (hd : duties K = [d])
    (he : errands K = []) (hpast : (duties (past (J ++ K))).length ≤ c.epoch) (id : Nat) :
    Due (J ++ K) ⟨id, d, c.epoch + 1⟩ := by
  refine ⟨⟨by simp, ?_⟩, Nat.lt_succ_of_le hpast, fun f hf => ?_⟩
  · rw [duties_append, hd, ← h.epoch]
    exact List.getElem?_concat_length
  · rw [errands_append, he, List.append_nil] at hf
    exact Nat.lt_succ_of_le (h.le_epoch hf)

theorem Booked.past_le {c : Controller} {ns : List Notice} (h : Booked c ns J) (hK : Within K) :
    (duties (past (J ++ K))).length ≤ c.epoch := by
  rw [hK.past_append, ← h.epoch]
  exact ((List.rdropWhile_prefix _ (l := J)).sublist.filterMap _).length_le

/-- The call of an operation can still be made, or was made. -/
def Owes (J : List Record) (e : Errand) : Operation β → Prop
  | .fresh _ => Due J e
  | _ => e ∈ errands J

theorem Owes.append {J : List Record} (h : Owes J e op) (hK : Within K) (hnew : errands K = []) :
    Owes (J ++ K) e op := by
  cases op with
  | fresh s =>
    have hdue : Due J e := h
    refine hdue.append hK ?_
    rw [hnew]
    nofun
  | _ =>
    have hmem : e ∈ errands J := h
    have happ : e ∈ errands (J ++ K) := by
      rw [errands_append]
      exact List.mem_append_left _ hmem
    exact happ

/-- What is known of the calls that a task has made or may make. A cancelled boot is not followed by another. -/
def Task.Fits (J : List Record) (t : Task β) : Prop :=
  match t.place with
  | .boot _ op => Owes J ⟨t.id, .boot, t.epoch⟩ op
  | .teardown _ op thenBoot =>
    Owes J ⟨t.id, .teardown, t.epoch⟩ op ∧ (thenBoot = true → .accepted .cancel ∉ since J)
  | .await _ _ => Due J ⟨t.id, .teardown, t.epoch⟩
  | .over => True

theorem Task.fits_of_over {t : Task β} (h : t.place = .over) : t.Fits J := by
  rw [Task.Fits, h]
  trivial

/-- The journal has what a machine keeps of itself. -/
structure Recorded (m : Machine β) (J : List Record) : Prop where
  booked : Booked m.controller m.notices J
  asked : (errands J).map (fun e => (e.task, e.duty)) = m.asked

structure Kept (m : Machine β) (J : List Record) : Prop extends Recorded m J where
  fits : ∀ t ∈ m.tasks, t.Fits J

namespace Machine

/-! ### Steps and ends -/

section noted

variable (e : Errand) (current : Nat) (p : Progress)

theorem told_noted : told (noted e current p) = if current = e.epoch then [.progress p] else [] := by
  unfold noted
  split <;> rfl

theorem counted_noted : counted (noted e current p) = if current = e.epoch then [(e, p)] else [] := by
  unfold noted
  split
  next h => simp [counted, Record.step?, h]
  next h => simp [counted, Record.step?, h]

theorem duties_noted : duties (noted e current p) = [] := by
  unfold noted
  split <;> rfl

theorem errands_noted : errands (noted e current p) = [] := by
  unfold noted
  split <;> rfl

theorem results_noted : results (noted e current p) = [] := by
  unfold noted
  split <;> rfl

theorem mem_noted {r : Record} (hr : r ∈ noted e current p) : r = .reported e current p ∨ r = .told (.progress p) := by
  unfold noted at hr
  split at hr
  · simpa using hr
  · exact .inl (List.mem_singleton.mp hr)

theorem noted_background : Background (noted e current p) := by
  intro r hr c
  rcases mem_noted e current p hr with rfl | rfl <;> simp

end noted

theorem report_booked (h : Booked m.controller m.notices J) (he : e ∈ errands J) (p : Progress) :
    Booked (m.reportProgress e.epoch p).controller (m.reportProgress e.epoch p).notices
      (J ++ noted e m.controller.epoch p) := by
  have hback := noted_background e m.controller.epoch p
  have hold : ∀ r ∈ noted e m.controller.epoch p, ∀ f ∈ r.holder?, f ∈ errands J := by
    intro r hr f hf
    rcases mem_noted e m.controller.epoch p hr with rfl | rfl
    · exact Record.holder_reported hf ▸ he
    · cases hf
  have hdated : ∀ r ∈ noted e m.controller.epoch p, ∀ n ∈ r.current?, n = m.controller.epoch := by
    intro r hr n hn
    rcases mem_noted e m.controller.epoch p hr with rfl | rfl
    · exact (Option.some.inj hn).symm
    · cases hn
  have hnotices : (m.reportProgress e.epoch p).notices = m.notices ++ told (noted e m.controller.epoch p) := by
    rw [told_noted, reportProgress]
    split
    · rfl
    · exact (List.append_nil _).symm
  have hprogress : (m.reportProgress e.epoch p).controller = { m.controller with
      progress := m.controller.progress ++ (told (noted e m.controller.epoch p)).filterMap Notice.progress? } := by
    rw [told_noted, reportProgress]
    split
    · rfl
    · simp
  rw [hnotices, hprogress]
  refine h.goesOn hback (duties_noted ..) (errands_noted ..) hold hdated rfl rfl ?_ h.busy ?_ ?_
  · rw [counted_noted, told_noted]
    split <;> rfl
  · rw [results_append, results_noted, List.append_nil]
    exact h.idle
  · rw [results_noted, told_noted]
    split <;> rfl

theorem reportProgress_epoch (m : Machine β) (epoch : Nat) (p : Progress) :
    (m.reportProgress epoch p).controller.epoch = m.controller.epoch := by
  unfold reportProgress
  split <;> rfl

theorem reports_booked (h : Booked m.controller m.notices J) (he : e ∈ errands J) (ps : List Progress) :
    let m' := ps.foldl (fun m p => m.reportProgress e.epoch p) m
    Booked m'.controller m'.notices (J ++ ps.flatMap (noted e m.controller.epoch)) := by
  induction ps generalizing m J with
  | nil => simpa using h
  | cons p r ih =>
    have he' : e ∈ errands (J ++ noted e m.controller.epoch p) := by
      rw [errands_append]
      exact List.mem_append_left _ he
    have hrest := ih (report_booked h he p) he'
    rw [reportProgress_epoch] at hrest
    rw [List.flatMap_cons, ← List.append_assoc]
    exact hrest

section work

variable (cancelled : Bool) (op : Operation β) (m : Machine β) (e : Errand)

theorem workLog_background : Background (m.workLog e cancelled op) := by
  refine Background.append ?_ ?_
  · intro r hr c
    obtain ⟨a, -, rfl⟩ := List.mem_map.mp hr
    simp
  · intro r hr
    obtain ⟨p, -, hr⟩ := List.mem_flatMap.mp hr
    exact noted_background e _ p r hr

theorem errands_workLog : errands (m.workLog e cancelled op) = (asks e.task e.duty op).map fun _ => e := by
  have hnone : errands ((op.poll m.now cancelled m.world).1.flatMap (noted e m.controller.epoch)) = [] := by
    rw [errands, List.filterMap_flatMap]
    exact List.flatMap_eq_nil_iff.mpr fun p _ => errands_noted e _ p
  rw [workLog, errands_append, hnone, List.append_nil]
  cases op <;> rfl

end work

/-- A task that lets its operation go on makes the call for it if it was not made, and passes on what it hears. -/
theorem work_recorded (h : Recorded m J) (ho : Owes J e op) (cancelled : Bool) :
    Recorded (m.work e.task e.duty e.epoch cancelled op) (J ++ m.workLog e cancelled op) ∧
      e ∈ errands (J ++ m.workLog e cancelled op) := by
  let asked : List Record := (asks e.task e.duty op).map fun a => .asked ⟨a.1, a.2, e.epoch⟩
  have hcall : Booked m.controller m.notices (J ++ asked) ∧ e ∈ errands (J ++ asked) := by
    cases op with
    | fresh s =>
      refine ⟨h.booked.asked ho, ?_⟩
      rw [errands_append]
      exact List.mem_append_right _ (List.mem_singleton_self e)
    | _ =>
      have hmem : e ∈ errands J := ho
      have hnone : J ++ asked = J := List.append_nil J
      rw [hnone]
      exact ⟨h.booked, hmem⟩
  obtain ⟨hbook, hmem⟩ := hcall
  let m₁ : Machine β := { m with
    world := (op.poll m.now cancelled m.world).2.1
    asked := m.asked ++ asks e.task e.duty op }
  have hwork : m.work e.task e.duty e.epoch cancelled op =
      (op.poll m.now cancelled m.world).1.foldl (fun m p => m.reportProgress e.epoch p) m₁ := by
    rw [work, drive, ask_eq]
  have hheard := reports_booked (m := m₁) hbook hmem (op.poll m.now cancelled m.world).1
  rw [List.append_assoc] at hheard
  refine ⟨⟨?_, ?_⟩, ?_⟩
  · rw [hwork]
    exact hheard
  · rw [work_asked, errands_append, List.map_append, h.asked, errands_workLog, List.map_map]
    cases op <;> rfl
  · rw [workLog, ← List.append_assoc, errands_append]
    exact List.mem_append_left _ hmem

section finish

variable (r : Except BackendError Unit) {success : Notice}

theorem mem_finishLog {x : Record} (hx : x ∈ m.finishLog e r success) :
    x = .concluded e m.controller.epoch r ∨ x = .told (verdict success r) := by
  unfold finishLog at hx
  split at hx
  · simpa using hx
  · exact .inl (List.mem_singleton.mp hx)

theorem finishLog_background : Background (m.finishLog e r success) := by
  intro x hx c
  rcases mem_finishLog r hx with rfl | rfl <;> simp

theorem errands_finishLog : errands (m.finishLog e r success) = [] := by
  unfold finishLog
  split <;> rfl

theorem told_finishLog : told (m.finishLog e r success) =
    if m.controller.epoch = e.epoch then [verdict success r] else [] := by
  unfold finishLog
  split <;> rfl

theorem results_finishLog : results (m.finishLog e r success) =
    if m.controller.epoch = e.epoch then [r] else [] := by
  unfold finishLog
  split
  next h => simp [results, Record.result?, h]
  next h => simp [results, Record.result?, h]

theorem counted_finishLog : counted (m.finishLog e r success) = [] := by
  unfold finishLog
  split <;> rfl

theorem verdict_tells (hs : success = .started ∨ success = .stopped) : (verdict success r).progress? = none ∧
    (verdict success r).duty? = none ∧ (verdict success r).outcome? = some (errorText r) := by
  cases r with
  | ok _ => rcases hs with rfl | rfl <;> exact ⟨rfl, rfl, rfl⟩
  | error err => exact ⟨rfl, rfl, rfl⟩

end finish

/-- The end of an operation is told, and its error kept, if it counts. -/
theorem finish_recorded (h : Recorded m J) (he : e ∈ errands J)
    (hp : m.controller.epoch = e.epoch → m.controller.phase ≠ .idle) (r : Except BackendError Unit) {success : Notice}
    (hs : success = .started ∨ success = .stopped) :
    Recorded (m.finish e.epoch r success) (J ++ m.finishLog e r success) := by
  obtain ⟨hprogress, hduty, houtcome⟩ := verdict_tells r hs
  have hback : Background (m.finishLog e r success) := finishLog_background r
  have hold : ∀ x ∈ m.finishLog e r success, ∀ f ∈ x.holder?, f ∈ errands J := by
    intro x hx f hf
    rcases mem_finishLog r hx with rfl | rfl
    · exact Record.holder_concluded hf ▸ he
    · cases hf
  have hdated : ∀ x ∈ m.finishLog e r success, ∀ n ∈ x.current?, n = m.controller.epoch := by
    intro x hx n hn
    rcases mem_finishLog r hx with rfl | rfl
    · exact (Option.some.inj hn).symm
    · cases hn
  have hshown : (told (m.finishLog e r success)).filterMap Notice.progress? = [] := by
    rw [told_finishLog]
    split
    · exact List.filterMap_cons_none hprogress
    · rfl
  have hduties : duties (m.finishLog e r success) = [] := by
    unfold finishLog
    split
    · exact (List.filterMap_cons_none rfl).trans (List.filterMap_cons_none hduty)
    · rfl
  have hnotices : (m.finish e.epoch r success).notices = m.notices ++ told (m.finishLog e r success) := by
    rw [told_finishLog]
    by_cases hcur : m.controller.epoch = e.epoch
    · rw [finish_current hcur, if_pos hcur]
      rfl
    · rw [finish_superseded hcur, if_neg hcur, List.append_nil]
  refine ⟨?_, ?_⟩
  · rw [hnotices]
    refine h.booked.goesOn hback hduties (errands_finishLog r) hold hdated ?_ ?_ ?_ ?_ ?_ ?_
    · unfold finish
      split <;> rfl
    · rw [hshown, List.append_nil]
      unfold finish
      split <;> rfl
    · rw [hshown, counted_finishLog]
      rfl
    · by_cases hcur : m.controller.epoch = e.epoch
      · rw [finish_current hcur]
        exact fun hi => absurd rfl hi
      · rw [finish_superseded hcur]
        exact h.booked.busy
    · rw [results_append, results_finishLog]
      by_cases hcur : m.controller.epoch = e.epoch
      · have hnone : m.controller.lastError = none := h.booked.busy (hp hcur)
        rw [finish_current hcur, if_pos hcur, List.getLast?_concat]
        intro _
        cases r with
        | ok _ => exact hnone
        | error err => rfl
      · rw [finish_superseded hcur, if_neg hcur, List.append_nil]
        exact h.booked.idle
    · rw [results_finishLog, told_finishLog]
      split
      · rw [List.filterMap_cons_some houtcome]
        rfl
      · rfl
  · rw [finish_asked, errands_append, errands_finishLog, List.append_nil, h.asked]

/-! ### Tasks -/

theorem place_kept {p : Place β} (h : Recorded m J) (hothers : ∀ t ∈ m.tasks, t.id ≠ id → t.Fits J)
    (hp : Task.Fits J ⟨id, epoch, p⟩) : Kept (m.place id epoch p) J := by
  refine ⟨⟨h.booked, h.asked⟩, fun t ht => ?_⟩
  obtain ⟨u, hu, rfl⟩ := List.mem_map.mp ht
  by_cases hid : u.id = id
  · subst hid
    simpa using hp
  · simpa [hid] using hothers u hu hid

theorem owes_underway (h : e ∈ errands J) (hu : op.isUnderway) : Owes J e op := by
  cases op with
  | fresh s => cases hu
  | _ => exact h

/-- The other tasks have nothing left to do, or wait to tear the stack down after this one. -/
def Yields (J : List Record) (epoch : Nat) (t : Task β) : Prop :=
  t.place = .over ∨ (∃ target d, t.place = .await target d) ∧ epoch < t.epoch ∧ t.Fits J

theorem Yields.fits {t : Task β} (h : Yields J epoch t) : t.Fits J := by
  rcases h with h | ⟨-, -, h⟩
  · exact Task.fits_of_over h
  · exact h

theorem Yields.append {t : Task β} (h : Yields J epoch t) (hK : Within K)
    (hnew : ∀ f ∈ errands K, f.epoch ≤ epoch) : Yields (J ++ K) epoch t := by
  rcases h with h | ⟨⟨target, d, hp⟩, hlt, h⟩
  · exact .inl h
  · refine .inr ⟨⟨target, d, hp⟩, hlt, ?_⟩
    rw [Task.Fits, hp] at h ⊢
    refine Due.append h hK fun f hf => ?_
    have hle := hnew f hf
    show f.epoch < t.epoch
    omega

theorem bootLog_background (id epoch token : Nat) (op : Operation β) (m : Machine β) :
    Background (m.bootLog id epoch token op) := by
  refine Background.append (workLog_background _ op m _) ?_
  split
  · exact finishLog_background _
  · intro r hr
    cases hr

/-- A task goes on with a boot. -/
theorem pollBoot_kept {token : Nat} (h : Recorded m J) (ho : Owes J ⟨id, .boot, epoch⟩ op)
    (hp : m.controller.epoch = epoch → m.controller.phase ≠ .idle)
    (hothers : ∀ t ∈ m.tasks, t.id ≠ id → Yields J epoch t) :
    Kept (m.pollBoot id epoch token op) (J ++ m.bootLog id epoch token op) := by
  generalize hc : m.cancelled.contains token = cancelled
  obtain ⟨hbook, hmem⟩ := work_recorded h ho cancelled
  have hwithin : Within (m.workLog ⟨id, .boot, epoch⟩ cancelled op) := (workLog_background cancelled op m _).within
  have hwork : ∀ t ∈ (m.work id .boot epoch cancelled op).tasks, t.id ≠ id →
      Yields (J ++ m.workLog ⟨id, .boot, epoch⟩ cancelled op) epoch t := by
    rw [work_tasks]
    refine fun t ht hid => (hothers t ht hid).append hwithin fun f hf => ?_
    rw [errands_workLog] at hf
    obtain ⟨a, -, rfl⟩ := List.mem_map.mp hf
    exact Nat.le_refl _
  rcases op.poll_ended_or_underway m.now cancelled m.world with ⟨r, hr⟩ | hu
  · have hlog : m.bootLog id epoch token op = m.workLog ⟨id, .boot, epoch⟩ cancelled op ++
        (m.work id .boot epoch cancelled op).finishLog ⟨id, .boot, epoch⟩ r .started := by
      simp only [bootLog, hc, hr]
    rw [pollBoot_ended (hc ▸ hr), hc, hlog, ← List.append_assoc]
    refine place_kept (finish_recorded hbook hmem ?_ r (.inl rfl)) (fun t ht hid => ?_) trivial
    · rw [work_epoch, work_phase]
      exact hp
    · have ht : t ∈ (m.work id .boot epoch cancelled op).tasks := by
        rw [finish_tasks] at ht
        exact ht
      refine ((hwork t ht hid).append (finishLog_background r).within fun f hf => ?_).fits
      rw [errands_finishLog] at hf
      cases hf
  · have hlog : m.bootLog id epoch token op = m.workLog ⟨id, .boot, epoch⟩ cancelled op := by
      simp only [bootLog, hc]
      split
      next r hr =>
        rw [hr] at hu
        cases hu
      next => exact List.append_nil _
    rw [pollBoot_underway rfl (hc ▸ hu), hc, hlog]
    exact place_kept hbook (fun t ht hid => (hwork t ht hid).fits) (owes_underway hmem hu)

theorem afterTeardownLog_background (id epoch : Nat) (r : Except BackendError Unit) (thenBoot : Bool) (m : Machine β) :
    Background (m.afterTeardownLog id epoch r thenBoot) := by
  unfold afterTeardownLog
  split
  · split
    · refine Background.append (K := [.told .starting]) ?_ (bootLog_background id _ _ _ _)
      intro r hr c
      rw [List.mem_singleton.mp hr]
      simp
    · intro r hr
      cases hr
  · exact finishLog_background r

/-- The end of a teardown is the end of its operation, or the beginning of a restart's boot. -/
theorem afterTeardown_kept {thenBoot : Bool} (h : Recorded m J)
    (he : ⟨id, .teardown, epoch⟩ ∈ errands J) (hp : m.controller.epoch = epoch → m.controller.phase ≠ .idle)
    (hothers : ∀ t ∈ m.tasks, t.id ≠ id → t.place = .over)
    (hcancel : thenBoot = true → .accepted .cancel ∉ since J) (r : Except BackendError Unit) :
    Kept (m.afterTeardown id epoch r thenBoot) (J ++ m.afterTeardownLog id epoch r thenBoot) := by
  have finished (hlog : m.afterTeardownLog id epoch r thenBoot = m.finishLog ⟨id, .teardown, epoch⟩ r .stopped) :
      Kept ((m.finish epoch r .stopped).place id epoch .over) (J ++ m.afterTeardownLog id epoch r thenBoot) := by
    rw [hlog]
    refine place_kept (finish_recorded h he hp r (.inr rfl)) (fun t ht hid => ?_) trivial
    rw [finish_tasks] at ht
    exact Task.fits_of_over (hothers t ht hid)
  cases r with
  | error err =>
    rw [afterTeardown_failed]
    exact finished (by simp [afterTeardownLog, Except.isOk, Except.toBool])
  | ok _ =>
    cases thenBoot with
    | false =>
      rw [afterTeardown_last]
      exact finished (by simp [afterTeardownLog])
    | true =>
      by_cases hcur : m.controller.epoch = epoch
      · subst hcur
        let m₁ := { m with controller := m.controller.startBoot }.publish .starting
        have hlog : m.afterTeardownLog id m.controller.epoch (.ok ()) true = [.told .starting] ++
            m₁.bootLog id (m.controller.epoch + 1) (m.controller.epoch + 1) (.fresh m.backend.boot) := by
          simp [afterTeardownLog, Except.isOk, Except.toBool, m₁]
        have hwithin : Within [.told .starting] := by simp [Within, Record.opens]
        have hnone : m.controller.lastError = none := h.booked.busy (hp rfl)
        have hbook : Booked m₁.controller m₁.notices (J ++ [.told .starting]) := by
          refine h.booked.turnsTo hwithin rfl rfl rfl ?_ rfl rfl ?_ rfl rfl ?_ hnone
          · intro r hr
            rw [List.mem_singleton.mp hr]
            rfl
          · intro hc
            rcases List.mem_append.mp hc with hc | hc
            · exact absurd hc (hcancel rfl)
            · simp at hc
          · simp [m₁, publish, Controller.startBoot]
        rw [afterTeardown_boot rfl, hlog, ← List.append_assoc]
        have hasked : (errands (J ++ [.told .starting])).map (fun e => (e.task, e.duty)) = m₁.asked := by
          rw [errands_append, show errands [.told .starting] = [] from rfl, List.append_nil]
          exact h.asked
        refine pollBoot_kept ⟨hbook, hasked⟩ (h.booked.due rfl rfl (h.booked.past_le hwithin) id) (fun _ => ?_)
          fun t ht hid => .inl (hothers t ht hid)
        simp [publish, Controller.startBoot]
      · have hlog : m.afterTeardownLog id epoch (.ok ()) true = [] := by
          simp [afterTeardownLog, Except.isOk, Except.toBool, hcur]
        rw [afterTeardown_superseded hcur, hlog, List.append_nil]
        exact place_kept h (fun t ht hid => Task.fits_of_over (hothers t ht hid)) trivial

theorem teardownLog_background (id epoch : Nat) (deadline : Option Nat) (op : Operation β) (thenBoot : Bool)
    (m : Machine β) : Background (m.teardownLog id epoch deadline op thenBoot) := by
  refine Background.append (workLog_background _ op m _) ?_
  split
  · exact afterTeardownLog_background id epoch _ thenBoot _
  · split
    · exact afterTeardownLog_background id epoch _ thenBoot _
    · intro r hr
      cases hr

/-- A task goes on with a teardown. -/
theorem pollTeardown_kept {thenBoot : Bool} (h : Recorded m J)
    (ho : Owes J ⟨id, .teardown, epoch⟩ op) (hp : m.controller.epoch = epoch → m.controller.phase ≠ .idle)
    (hothers : ∀ t ∈ m.tasks, t.id ≠ id → t.place = .over)
    (hcancel : thenBoot = true → .accepted .cancel ∉ since J) (deadline : Option Nat) :
    Kept (m.pollTeardown id epoch deadline op thenBoot) (J ++ m.teardownLog id epoch deadline op thenBoot) := by
  obtain ⟨hbook, hmem⟩ := work_recorded h ho false
  have hback : Background (m.workLog ⟨id, .teardown, epoch⟩ false op) := workLog_background false op m _
  have hcancel' : thenBoot = true → .accepted .cancel ∉ since (J ++ m.workLog ⟨id, .teardown, epoch⟩ false op) := by
    exact fun hb hc => hcancel hb (hback.mem_since hc)
  have hothers' : ∀ t ∈ (m.work id .teardown epoch false op).tasks, t.id ≠ id → t.place = .over := by
    rw [work_tasks]
    exact hothers
  have hp' : (m.work id .teardown epoch false op).controller.epoch = epoch →
      (m.work id .teardown epoch false op).controller.phase ≠ .idle := by
    rw [work_epoch, work_phase]
    exact hp
  have hafter := afterTeardown_kept hbook hmem hp' hothers' hcancel'
  rcases op.poll_ended_or_underway m.now false m.world with ⟨r, hr⟩ | hu
  · have hlog : m.teardownLog id epoch deadline op thenBoot = m.workLog ⟨id, .teardown, epoch⟩ false op ++
        (m.work id .teardown epoch false op).afterTeardownLog id epoch r thenBoot := by
      simp only [teardownLog, hr]
    rw [pollTeardown_ended hr, hlog, ← List.append_assoc]
    exact hafter r
  · have hlog : m.teardownLog id epoch deadline op thenBoot = m.workLog ⟨id, .teardown, epoch⟩ false op ++
        if deadline.getD (m.now + m.teardownTimeout) ≤ m.now then
          (m.work id .teardown epoch false op).afterTeardownLog id epoch
            (.error (.timeout (m.teardownTimeout / 1000))) thenBoot
        else [] := by
      simp only [teardownLog]
      split
      next r hr =>
        rw [hr] at hu
        cases hu
      next => rfl
    by_cases hd : deadline.getD (m.now + m.teardownTimeout) ≤ m.now
    · rw [pollTeardown_late rfl hu hd, hlog, if_pos hd, ← List.append_assoc]
      exact hafter _
    · rw [pollTeardown_underway rfl hu hd, hlog, if_neg hd, List.append_nil]
      exact place_kept hbook (fun t ht hid => Task.fits_of_over (hothers' t ht hid))
        ⟨owes_underway hmem hu, hcancel'⟩

theorem awaitLog_background (id epoch target : Nat) (deadline : Option Nat) (m : Machine β) :
    Background (m.awaitLog id epoch target deadline) := by
  unfold awaitLog
  split
  · exact teardownLog_background id epoch _ _ _ m
  · split
    · exact teardownLog_background id epoch _ _ _ _
    · intro r hr
      cases hr

/-- The task of a cancel waits on, or tears the stack down when no other task has anything left to do. -/
theorem pollAwait_kept {target : Nat} (h : Kept m J) (hn : Numbered m.tasks) (hdue : Due J ⟨id, .teardown, epoch⟩)
    (hp : m.controller.phase ≠ .idle) (hothers : ∀ t ∈ m.tasks, t.id ≠ id → t.place = .over ∨ t.id = target)
    (deadline : Option Nat) :
    Kept (m.pollAwait id epoch target deadline) (J ++ m.awaitLog id epoch target deadline) := by
  have hfresh : Owes J ⟨id, .teardown, epoch⟩ (.fresh m.backend.teardown) := hdue
  have hlast : false = true → .accepted .cancel ∉ since J := fun hb => absurd hb Bool.false_ne_true
  unfold awaitLog
  by_cases hover : m.isOver target = true
  · rw [pollAwait_over hover, if_pos hover]
    refine pollTeardown_kept h.toRecorded hfresh (fun _ => hp) (fun t ht hid => ?_) hlast none
    rcases hothers t ht hid with ho | rfl
    · exact ho
    · rw [isOver_of_mem hn ht] at hover
      exact Task.isOver_iff.mp hover
  · have hover' : m.isOver target = false := by simpa using hover
    by_cases hd : deadline.getD (m.now + cancelGrace) ≤ m.now
    · have hdropped : Recorded (m.abort target) J := ⟨h.booked, h.asked⟩
      rw [pollAwait_late hover' hd, if_neg hover, if_pos hd]
      refine pollTeardown_kept hdropped hfresh (fun _ => hp) (fun t ht hid => ?_) hlast none
      obtain ⟨u, hu, rfl⟩ := List.mem_map.mp ht
      by_cases htarget : u.id = target
      · simp [htarget]
      · have huid : u.id ≠ id := by simpa [htarget] using hid
        simpa [htarget] using hothers u hu huid
    · rw [pollAwait_waits hover' hd, if_neg hover, if_neg hd, List.append_nil]
      exact place_kept h.toRecorded (fun t ht _ => h.fits t ht) hdue

/-- Of two tasks with something left to do, the one is a cancelled boot and the other waits for it. -/
theorem In.others {q : Situation} (hs : m.Sound) (hi : m.In q) {t : Task β} (ht : t ∈ m.tasks) (hp : t.place ≠ .over) :
    q ≠ .rest ∧ ∀ u ∈ m.tasks, u.id ≠ t.id → u.place = .over ∨ (∃ d, t.place = .await u.id d) ∨
      (∃ token op, t.place = .boot token op) ∧ (∃ d, u.place = .await t.id d) ∧ t.epoch < u.epoch := by
  have newest {olds : List (Task β)} {v : Task β} (hv : m.tasks = olds ++ [v]) (ho : AllOver olds) :
      ∀ u ∈ m.tasks, u.id ≠ t.id → u.place = .over := by
    intro u hu hid
    have ht' := ht
    rw [hv] at hu ht'
    have htv : t = v := by
      rcases List.mem_append.mp ht' with hm | hm
      · exact absurd (ho t hm) hp
      · exact List.mem_singleton.mp hm
    rcases List.mem_append.mp hu with hm | hm
    · exact ho u hm
    · exact absurd (congrArg Task.id ((List.mem_singleton.mp hm).trans htv.symm)) hid
  cases q with
  | rest => exact absurd (hi.1 t ht) hp
  | booting again =>
    obtain ⟨olds, v, op, hv, ho, -⟩ := hi
    exact ⟨nofun, fun u hu hid => .inl (newest hv ho u hu hid)⟩
  | stopping | restarting | reverting again =>
    obtain ⟨olds, v, d, op, hv, ho, -⟩ := hi
    exact ⟨nofun, fun u hu hid => .inl (newest hv ho u hu hid)⟩
  | awaiting again =>
    obtain ⟨olds, b, v, d, hv, ho, hb, hvp, -⟩ := hi
    have hlt : b.epoch < v.epoch := by
      have hasc := hs.ascending
      simp only [hv, List.map_append, List.map_cons, List.map_nil, List.pairwise_append, List.pairwise_cons] at hasc
      exact hasc.2.1.1 v.epoch (by simp)
    refine ⟨nofun, fun u hu hid => ?_⟩
    rw [hv] at ht hu
    simp only [List.mem_append, List.mem_cons, List.not_mem_nil, or_false] at ht hu
    rcases hu with hu | rfl | rfl
    · exact .inl (ho u hu)
    · rcases ht with ht | rfl | rfl
      · exact absurd (ho t ht) hp
      · exact absurd rfl hid
      · exact .inr (.inl ⟨d, hvp⟩)
    · rcases ht with ht | rfl | rfl
      · exact absurd (ho t ht) hp
      · exact .inr (.inr ⟨hb.resolve_left hp, ⟨d, hvp⟩, hlt⟩)
      · exact absurd rfl hid

theorem pollLog_background (id : Nat) (m : Machine β) : Background (m.pollLog id) := by
  have hnil : Background [] := fun r hr => absurd hr List.not_mem_nil
  unfold pollLog
  split
  · exact hnil
  next t _ =>
    split
    · exact bootLog_background id t.epoch _ _ m
    · exact teardownLog_background id t.epoch _ _ _ m
    · exact awaitLog_background id t.epoch _ _ m
    · exact hnil

/-- Whichever task goes on, the journal stays in order. -/
theorem poll_kept {q : Situation} (hs : m.Sound) (hi : m.In q) (h : Kept m J) (id : Nat) :
    Kept (m.poll id) (J ++ m.pollLog id) := by
  unfold poll pollLog
  cases hf : m.task? id with
  | none =>
    rw [List.append_nil]
    exact h
  | some t =>
    obtain ⟨ht, rfl⟩ := mem_of_task? hf
    have hfits := h.fits t ht
    have hphase (hq : q ≠ .rest) : m.controller.phase ≠ .idle := by
      rw [hi.phase]
      cases q <;> simp_all [Situation.phase]
    cases hp : t.place with
    | boot token op =>
      obtain ⟨hq, hothers⟩ := hi.others hs ht (by simp [hp])
      simp only [hp]
      rw [Task.Fits, hp] at hfits
      refine pollBoot_kept h.toRecorded hfits (fun _ => hphase hq) fun u hu hid => ?_
      rcases hothers u hu hid with ho | ⟨d, ha⟩ | ⟨-, ⟨d, ha⟩, hlt⟩
      · exact .inl ho
      · rw [hp] at ha
        cases ha
      · exact .inr ⟨⟨t.id, d, ha⟩, hlt, h.fits u hu⟩
    | teardown d op thenBoot =>
      obtain ⟨hq, hothers⟩ := hi.others hs ht (by simp [hp])
      simp only [hp]
      rw [Task.Fits, hp] at hfits
      refine pollTeardown_kept h.toRecorded hfits.1 (fun _ => hphase hq) (fun u hu hid => ?_) hfits.2 d
      rcases hothers u hu hid with ho | ⟨d, ha⟩ | ⟨⟨token, op, hb⟩, -⟩
      · exact ho
      · rw [hp] at ha
        cases ha
      · rw [hp] at hb
        cases hb
    | await target d =>
      obtain ⟨hq, hothers⟩ := hi.others hs ht (by simp [hp])
      simp only [hp]
      rw [Task.Fits, hp] at hfits
      refine pollAwait_kept h hs.numbered hfits (hphase hq) (fun u hu hid => ?_) d
      rcases hothers u hu hid with ho | ⟨d, ha⟩ | ⟨⟨token, op, hb⟩, -⟩
      · exact .inl ho
      · rw [hp] at ha
        cases ha
        exact .inr rfl
      · rw [hp] at hb
        cases hb
    | _ =>
      simp only [hp, List.append_nil]
      exact h

end Machine

end StackDeck.Lifecycle
