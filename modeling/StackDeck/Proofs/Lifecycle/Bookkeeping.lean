import StackDeck.Proofs.Lifecycle.Journal

/-!
How the journal of a stack agrees with its controller, and what keeps it so.
-/

namespace StackDeck.Lifecycle

variable {J K : List Record} {c c' : Controller} {ns : List Notice} {e : Errand} {n : Notice} {d : Duty}

/-- A call was made for an epoch that began with its duty. -/
def Errand.Fits (e : Errand) (ds : List Duty) : Prop := 1 ≤ e.epoch ∧ ds[e.epoch - 1]? = some e.duty

theorem Errand.Fits.le {ds : List Duty} (h : e.Fits ds) : e.epoch ≤ ds.length := by
  have hlt := (List.getElem?_eq_some_iff.mp h.2).1
  omega

theorem Errand.Fits.append {ds : List Duty} (h : e.Fits ds) (ds' : List Duty) : e.Fits (ds ++ ds') :=
  ⟨h.1, List.getElem?_append_left (List.getElem?_eq_some_iff.mp h.2).1 ▸ h.2⟩

theorem Errand.Fits.last {ds : List Duty} (h : e.Fits ds) (he : e.epoch = ds.length) : ds.getLast? = some e.duty := by
  rw [List.getLast?_eq_getElem?, ← he]
  exact h.2

/-- The epoch that a record names is the number of duties begun before it. -/
def Dated (J : List Record) : Prop :=
  ∀ before r after, J = before ++ r :: after → ∀ n ∈ r.current?, n = (duties before).length

theorem Dated.append (h : Dated J) (hK : duties K = [] ∧ (∀ r ∈ K, ∀ n ∈ r.current?, n = (duties J).length) ∨
    ∀ r ∈ K, r.current? = none) : Dated (J ++ K) := by
  have hnew (before : List Record) (r : Record) (after : List Record) (he : K = before ++ r :: after) (n : Nat)
      (hn : n ∈ r.current?) : n = (duties (J ++ before)).length := by
    rcases hK with ⟨hd, hcur⟩ | hnone
    · rw [he, duties_append] at hd
      rw [duties_append, (List.append_eq_nil_iff.mp hd).1, List.append_nil]
      exact hcur r (he ▸ by simp) n hn
    · rw [hnone r (he ▸ by simp)] at hn
      cases hn
  intro before r after he
  rcases List.append_eq_append_iff.mp he with ⟨middle, rfl, hmid⟩ | ⟨middle, rfl, hmid⟩
  · exact hnew middle r after hmid
  · cases middle with
    | nil =>
      have hall := hnew [] r after hmid.symm
      simpa only [List.append_nil] using hall
    | cons x xs =>
      obtain ⟨rfl, -⟩ := List.cons.inj hmid
      exact h before r xs rfl

theorem duties_opened (hd : n.duty? = some d) (call : Call) : duties [.accepted call, .told n] = [d] := by
  have hn : (Record.told n).duty? = some d := hd
  rw [duties, List.filterMap_cons_none rfl, List.filterMap_cons_some hn, List.filterMap_nil]

theorem Record.of_undated {r : Record} (h : r.current? = none) :
    r.step? = none ∧ r.result? = none ∧ r.holder? = none := by
  cases r with
  | reported e current p => cases h
  | concluded e current res => cases h
  | _ => exact ⟨rfl, rfl, rfl⟩

theorem Record.epoch_of_holder {r : Record} (h : e ∈ r.holder?) : e.epoch ∈ r.current? := by
  cases r with
  | reported f current p | concluded f current res =>
    simp only [Record.holder?] at h
    split at h
    next hcur =>
      obtain rfl := Option.some.inj h
      exact congrArg some hcur
    next => cases h
  | _ => cases h

theorem Record.holder_reported {f : Errand} {current : Nat} {p : Progress}
    (h : f ∈ (Record.reported e current p).holder?) : f = e := by
  simp only [Record.holder?] at h
  split at h
  next => exact (Option.some.inj h).symm
  next => cases h

theorem Record.holder_concluded {f : Errand} {current : Nat} {r : Except BackendError Unit}
    (h : f ∈ (Record.concluded e current r).holder?) : f = e := by
  simp only [Record.holder?] at h
  split at h
  next => exact (Option.some.inj h).symm
  next => cases h

theorem Record.holder_of_step {r : Record} {x : Errand × Progress} (h : r.step? = some x) : x.1 ∈ r.holder? := by
  cases r with
  | reported f current p =>
    simp only [Record.step?] at h
    split at h
    next hcur =>
      rw [← Option.some.inj h]
      exact if_pos hcur
    next => cases h
  | _ => cases h

structure Booked (c : Controller) (ns : List Notice) (J : List Record) : Prop where
  told : told J = ns
  epoch : (duties J).length = c.epoch
  dated : Dated J
  ascending : (errands J).Pairwise fun e f => e.epoch < f.epoch
  fits : ∀ e ∈ errands J, e.Fits (duties J)
  known : ∀ x ∈ counted J, x.1 ∈ errands J
  recent : ∀ e ∈ errands (since J), (duties (past J)).length < e.epoch
  current : ∀ e ∈ errands J, e.epoch = c.epoch → e ∈ errands (since J)
  shown : c.progress = (Lifecycle.told (since J)).filterMap Notice.progress?
  listed : c.progress = (counted (since J)).map Prod.snd
  grouped : c.progress = (errands (since J)).flatMap (steps (since J))
  reverts : .accepted .cancel ∈ since J → (duties J).getLast? = some .teardown
  reverted : (since J).Pairwise fun x y => x = .accepted .cancel → ∀ e ∈ y.holder?, e.duty = .teardown
  busy : c.phase ≠ .idle → c.lastError = none
  idle : c.phase = .idle → c.lastError = (results J).getLast?.bind errorText
  outcomes : (results J).map errorText = ns.filterMap Notice.outcome?

namespace Booked

theorem le_epoch (h : Booked c ns J) (he : e ∈ errands J) : e.epoch ≤ c.epoch := by
  rw [← h.epoch]
  exact (h.fits e he).le

/-- Of the calls since the last operation was accepted, only the newest one can be current. -/
theorem flatMap_steps_append {es : List Errand} {S : List Record}
    (hes : es.Pairwise fun e f => e.epoch < f.epoch)
    (hK : ∀ x ∈ counted K, x.1 ∈ es ∧ ∀ f ∈ es, f.epoch ≤ x.1.epoch) :
    es.flatMap (steps (S ++ K)) = es.flatMap (steps S) ++ (counted K).map Prod.snd := by
  rcases List.eq_nil_or_concat es with rfl | ⟨es', e, rfl⟩
  · have hnone : counted K = [] :=
      List.eq_nil_iff_forall_not_mem.mpr fun x hx => List.not_mem_nil (hK x hx).1
    rw [hnone]
    rfl
  · rw [List.concat_eq_append] at hes hK ⊢
    have hlt (f : Errand) (hf : f ∈ es') : f.epoch < e.epoch :=
      (List.pairwise_append.mp hes).2.2 f hf e (List.mem_singleton_self e)
    have honly (x : Errand × Progress) (hx : x ∈ counted K) : x.1 = e := by
      obtain ⟨hmem, hmax⟩ := hK x hx
      rcases List.mem_append.mp hmem with hm | hm
      · have hle := hmax e (by simp)
        have hold := hlt x.1 hm
        omega
      · exact List.mem_singleton.mp hm
    have hnew : steps K e = (counted K).map Prod.snd := by
      rw [steps, List.filter_eq_self.mpr fun x hx => by simpa using honly x hx]
    have holds : es'.flatMap (steps (S ++ K)) = es'.flatMap (steps S) := by
      refine List.flatMap_congr fun f hf => ?_
      have hnone : steps K f = [] := by
        rw [steps, List.filter_eq_nil_iff.mpr, List.map_nil]
        intro x hx hxf
        have hxe := honly x hx
        have hfe : x.1 = f := by simpa using hxf
        have hold := hlt f hf
        rw [← hfe, hxe] at hold
        omega
      rw [steps_append, hnone, List.append_nil]
    rw [List.flatMap_append, List.flatMap_append, holds, List.flatMap_singleton, List.flatMap_singleton, steps_append,
      hnew, List.append_assoc]

/-- The epoch goes on: steps and ends that count are those of the current call. -/
theorem goesOn (h : Booked c ns J) (hK : Background K) (hd : duties K = []) (he : errands K = [])
    (hold : ∀ r ∈ K, ∀ e ∈ r.holder?, e ∈ errands J) (hdated : ∀ r ∈ K, ∀ n ∈ r.current?, n = c.epoch)
    (hepoch : c'.epoch = c.epoch)
    (hshown : c'.progress = c.progress ++ (Lifecycle.told K).filterMap Notice.progress?)
    (hcounted : (counted K).map Prod.snd = (Lifecycle.told K).filterMap Notice.progress?)
    (hbusy : c'.phase ≠ .idle → c'.lastError = none)
    (hidle : c'.phase = .idle → c'.lastError = (results (J ++ K)).getLast?.bind errorText)
    (houtcomes : (results K).map errorText = (Lifecycle.told K).filterMap Notice.outcome?) :
    Booked c' (ns ++ Lifecycle.told K) (J ++ K) := by
  have hsince := hK.within.since_append J
  have hpast := hK.within.past_append J
  have hduties : duties (J ++ K) = duties J := by rw [duties_append, hd, List.append_nil]
  have herrands (S : List Record) : errands (S ++ K) = errands S := by rw [errands_append, he, List.append_nil]
  have hasc : (errands (since J)).Pairwise fun e f => e.epoch < f.epoch := h.ascending.sublist (errands_since J)
  have hstep (x : Errand × Progress) (hx : x ∈ counted K) : x.1 ∈ errands J ∧ x.1.epoch = c.epoch := by
    obtain ⟨r, hr, hrx⟩ := List.mem_filterMap.mp hx
    have hholder := Record.holder_of_step hrx
    exact ⟨hold r hr x.1 hholder, hdated r hr _ (Record.epoch_of_holder hholder)⟩
  exact {
    told := by rw [told_append, h.told]
    epoch := by rw [hduties, hepoch, h.epoch]
    dated := h.dated.append (.inl ⟨hd, h.epoch ▸ hdated⟩)
    ascending := by
      rw [herrands]
      exact h.ascending
    fits := by
      rw [hduties, herrands]
      exact h.fits
    known := by
      intro x hx
      rw [counted_append] at hx
      rw [herrands]
      rcases List.mem_append.mp hx with hx | hx
      · exact h.known x hx
      · exact (hstep x hx).1
    recent := by
      rw [hsince, hpast, herrands]
      exact h.recent
    current := by
      rw [hsince, herrands, herrands, hepoch]
      exact h.current
    shown := by rw [hsince, hshown, told_append, List.filterMap_append, h.shown]
    listed := by rw [hsince, hshown, counted_append, List.map_append, hcounted, ← h.listed]
    grouped := by
      rw [hsince, herrands, flatMap_steps_append hasc, hcounted, ← h.grouped, hshown]
      intro x hx
      obtain ⟨hx, hcur⟩ := hstep x hx
      refine ⟨h.current x.1 hx hcur, fun f hf => ?_⟩
      rw [hcur]
      exact h.le_epoch ((errands_since J).subset hf)
    reverts := by
      rw [hduties]
      exact fun hc => h.reverts (hK.mem_since hc)
    reverted := by
      rw [hsince]
      refine List.pairwise_append.mpr ⟨h.reverted, ?_, fun x hx y hy hxc f hf => ?_⟩
      · exact List.pairwise_of_forall_mem_list fun x hx y _ hxc => absurd hxc (hK x hx .cancel)
      · have hcur : f.epoch = c.epoch := hdated y hy _ (Record.epoch_of_holder hf)
        have hlast := (h.fits f (hold y hy f hf)).last (by rw [hcur, h.epoch])
        rw [h.reverts (hxc ▸ hx)] at hlast
        exact (Option.some.inj hlast).symm
    busy := hbusy
    idle := hidle
    outcomes := by rw [results_append, List.map_append, houtcomes, h.outcomes, List.filterMap_append] }

end Booked

/-- A call to the backend that can still be made. -/
structure Due (J : List Record) (e : Errand) : Prop where
  fits : e.Fits (duties J)
  recent : (duties (past J)).length < e.epoch
  new : ∀ f ∈ errands J, f.epoch < e.epoch

namespace Booked

theorem asked (h : Booked c ns J) (hd : Due J e) : Booked c ns (J ++ [.asked e]) := by
  have hK : Background [.asked e] := background_one nofun
  have hsince := hK.within.since_append J
  have hpast := hK.within.past_append J
  have htold (S : List Record) : Lifecycle.told (S ++ [.asked e]) = Lifecycle.told S := by
    rw [told_append]
    exact List.append_nil _
  have hduties : duties (J ++ [.asked e]) = duties J := by
    rw [duties_append]
    exact List.append_nil _
  have herrands (S : List Record) : errands (S ++ [.asked e]) = errands S ++ [e] := errands_append S _
  have hcounted (S : List Record) : counted (S ++ [.asked e]) = counted S := by
    rw [counted_append]
    exact List.append_nil _
  have hresults : results (J ++ [.asked e]) = results J := by
    rw [results_append]
    exact List.append_nil _
  have hmem {P : Errand → Prop} {es : List Errand} (hes : ∀ f ∈ es, P f) (he : P e) : ∀ f ∈ es ++ [e], P f := by
    intro f hf
    rcases List.mem_append.mp hf with hf | hf
    · exact hes f hf
    · exact List.mem_singleton.mp hf ▸ he
  exact {
    told := by rw [htold, h.told]
    epoch := by rw [hduties, h.epoch]
    dated := h.dated.append (.inr fun r hr => by rw [List.mem_singleton.mp hr]; rfl)
    ascending := by
      rw [herrands]
      refine List.pairwise_append.mpr ⟨h.ascending, List.pairwise_singleton _ _, fun f hf g hg => ?_⟩
      rw [List.mem_singleton.mp hg]
      exact hd.new f hf
    fits := by
      rw [hduties, herrands]
      exact hmem h.fits hd.fits
    known := by
      rw [hcounted, herrands]
      exact fun x hx => List.mem_append_left _ (h.known x hx)
    recent := by
      rw [hsince, hpast, herrands]
      exact hmem h.recent hd.recent
    current := by
      rw [hsince, herrands, herrands]
      refine hmem (fun f hf hcur => ?_) fun _ => ?_
      · exact List.mem_append_left _ (h.current f hf hcur)
      · exact List.mem_append_right _ (List.mem_singleton_self e)
    shown := by rw [hsince, htold, h.shown]
    listed := by rw [hsince, hcounted, h.listed]
    grouped := by
      have hnone : steps (since J) e = [] := by
        rw [steps, List.filter_eq_nil_iff.mpr, List.map_nil]
        intro x hx hxe
        have hxe : x.1 = e := by simpa using hxe
        have hold := hd.new x.1 (h.known x ((counted_since J).subset hx))
        rw [hxe] at hold
        omega
      have hsame : steps (since J ++ [.asked e]) = steps (since J) := by
        funext f
        rw [steps, hcounted, steps]
      rw [hsince, herrands, hsame, List.flatMap_append, List.flatMap_singleton, hnone, List.append_nil, h.grouped]
    reverts := by
      rw [hduties]
      exact fun hc => h.reverts (hK.mem_since hc)
    reverted := by
      rw [hsince]
      refine List.pairwise_append.mpr ⟨h.reverted, List.pairwise_singleton _ _, fun x _ y hy _ f hf => ?_⟩
      rw [List.mem_singleton.mp hy] at hf
      cases hf
    busy := h.busy
    idle := by
      rw [hresults]
      exact h.idle
    outcomes := by
      rw [hresults]
      exact h.outcomes }

/-- An operation goes on with its next duty. Calls that were made for the duty before do not count any more. -/
theorem turnsTo (h : Booked c ns J) (hK : Within K) (htold : Lifecycle.told K = [n]) (hd : duties K = [d])
    (he : errands K = []) (hdated : ∀ r ∈ K, r.current? = none) (hp : n.progress? = none) (ho : n.outcome? = none)
    (hrev : .accepted .cancel ∈ since J ++ K → d = .teardown) (hepoch : c'.epoch = c.epoch + 1)
    (hprogress : c'.progress = c.progress) (hphase : c'.phase ≠ .idle) (herror : c'.lastError = none) :
    Booked c' (ns ++ [n]) (J ++ K) := by
  have hsince := hK.since_append J
  have hpast := hK.past_append J
  have hduties : duties (J ++ K) = duties J ++ [d] := by rw [duties_append, hd]
  have herrands (S : List Record) : errands (S ++ K) = errands S := by rw [errands_append, he, List.append_nil]
  have hcounted (S : List Record) : counted (S ++ K) = counted S := by
    have hnone : counted K = [] := List.filterMap_eq_nil_iff.mpr fun r hr => (Record.of_undated (hdated r hr)).1
    rw [counted_append, hnone, List.append_nil]
  have hresults : results (J ++ K) = results J := by
    have hnone : results K = [] := List.filterMap_eq_nil_iff.mpr fun r hr => (Record.of_undated (hdated r hr)).2.1
    rw [results_append, hnone, List.append_nil]
  have hold (r : Record) (hr : r ∈ K) {f : Errand} (hf : f ∈ r.holder?) : f.duty = .teardown := by
    rw [(Record.of_undated (hdated r hr)).2.2] at hf
    cases hf
  exact {
    told := by rw [told_append, htold, h.told]
    epoch := by
      rw [hduties, List.length_append, h.epoch, hepoch]
      rfl
    dated := h.dated.append (.inr hdated)
    ascending := by
      rw [herrands]
      exact h.ascending
    fits := by
      rw [hduties, herrands]
      exact fun f hf => (h.fits f hf).append [d]
    known := by
      rw [hcounted, herrands]
      exact h.known
    recent := by
      rw [hsince, hpast, herrands]
      exact h.recent
    current := by
      rw [herrands]
      intro f hf hcur
      have hle := h.le_epoch hf
      omega
    shown := by
      rw [hsince, told_append, htold, List.filterMap_append, List.filterMap_cons_none hp, List.filterMap_nil,
        List.append_nil, hprogress, h.shown]
    listed := by rw [hsince, hcounted, hprogress, h.listed]
    grouped := by
      have hsame : steps (since J ++ K) = steps (since J) := by
        funext f
        rw [steps, hcounted, steps]
      rw [hsince, herrands, hsame, hprogress, h.grouped]
    reverts := by
      rw [hsince, hduties, List.getLast?_concat]
      exact fun hc => congrArg some (hrev hc)
    reverted := by
      rw [hsince]
      refine List.pairwise_append.mpr ⟨h.reverted, ?_, fun x _ y hy _ f hf => hold y hy hf⟩
      exact List.pairwise_of_forall_mem_list fun x _ y hy _ f hf => hold y hy hf
    busy := fun _ => herror
    idle := fun hi => absurd hi hphase
    outcomes := by
      rw [hresults, List.filterMap_append, List.filterMap_cons_none ho, List.filterMap_nil, List.append_nil,
        h.outcomes] }

/-- A new operation begins with an empty list of steps and no error. -/
theorem opened (h : Booked c ns J) {call : Call} (hcall : call ≠ .cancel) (hd : n.duty? = some d)
    (hp : n.progress? = none) (ho : n.outcome? = none) (hepoch : c'.epoch = c.epoch + 1) (hprogress : c'.progress = [])
    (hphase : c'.phase ≠ .idle) (herror : c'.lastError = none) :
    Booked c' (ns ++ [n]) (J ++ [.accepted call, .told n]) := by
  have hsince := since_opened hcall J n
  have hduties : duties (J ++ [.accepted call, .told n]) = duties J ++ [d] := by
    rw [duties_append, duties_opened hd]
  have herrands : errands (J ++ [.accepted call, .told n]) = errands J := by
    rw [errands_append]
    exact List.append_nil _
  have hcounted : counted (J ++ [.accepted call, .told n]) = counted J := by
    rw [counted_append]
    exact List.append_nil _
  have hresults : results (J ++ [.accepted call, .told n]) = results J := by
    rw [results_append]
    exact List.append_nil _
  exact {
    told := by
      rw [told_append, h.told]
      rfl
    epoch := by
      rw [hduties, List.length_append, h.epoch, hepoch]
      rfl
    dated := h.dated.append (.inr (by simp [Record.current?]))
    ascending := by
      rw [herrands]
      exact h.ascending
    fits := by
      rw [hduties, herrands]
      exact fun f hf => (h.fits f hf).append [d]
    known := by
      rw [hcounted, herrands]
      exact h.known
    recent := by
      rw [hsince]
      nofun
    current := by
      rw [herrands]
      intro f hf hcur
      have hle := h.le_epoch hf
      omega
    shown := by
      have hnone : (Lifecycle.told [.told n]).filterMap Notice.progress? = [] := List.filterMap_cons_none hp
      rw [hsince, hprogress, hnone]
    listed := by
      rw [hsince, hprogress]
      rfl
    grouped := by
      rw [hsince, hprogress]
      rfl
    reverts := by
      rw [hsince]
      simp
    reverted := by
      rw [hsince]
      exact List.pairwise_singleton _ _
    busy := fun _ => herror
    idle := fun hi => absurd hi hphase
    outcomes := by
      rw [hresults, List.filterMap_append, List.filterMap_cons_none ho, List.filterMap_nil, List.append_nil,
        h.outcomes] }

end Booked

end StackDeck.Lifecycle
