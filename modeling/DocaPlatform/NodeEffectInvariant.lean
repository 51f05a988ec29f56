import DocaPlatform.NodeEffectHold

/-!
# DPUs outside Node Effect are requestors

A DPU that left Node Effect is a requestor of a DPUNodeMaintenance whose node effect is on the
host, in every run in which no DPU joins an object that is on its way out.
-/
namespace DocaPlatform.NodeEffectHold

open InPlaceReconfig DpuPhases NodeMaintenance ObjectStore Runs Function

/-- The DPUNodeMaintenance controller is about to remove the node effect, or did. -/
def Removing : Option MaintenanceCall → Prop
  | some (.removeEffect _) | some (.unfinalize _) => True
  | _ => False

/-- The name is in the list of an object whose node effect is applied and not removed. -/
def Held (w : World) (n : Name) : Prop :=
  ∃ o, w.slot.content = some o ∧ n ∈ o.requestor ∧ o.nodeEffectApplied = true ∧ w.effect = true

/-- The name is held, and the controller is not about to end that. -/
def Secured (w : World) (n : Name) : Prop := Held w n ∧ ¬ Removing w.maintenance

/-- What the DPUNodeMaintenance controller knows of the object at its next call. -/
def MaintenanceInv (w : World) : Option MaintenanceCall → Prop
  | none => True
  | some .addFinalizer => ∃ o, w.slot.content = some o ∧ o.deleting = false
  | some .delete => ∃ o, w.slot.content = some o ∧ o.deleting = false ∧ o.finalizer = true
  | some .getNode => ∃ o, w.slot.content = some o ∧ o.deleting = true
  | some (.removeEffect cleared) | some (.unfinalize cleared) =>
    (∃ o, w.slot.content = some o ∧ o.deleting = true) ∧ (cleared = true → w.dpuNode = false)
  | some .apply => ∃ o, w.slot.content = some o ∧ o.deleting = false
  | some .report => (∃ o, w.slot.content = some o ∧ o.deleting = false) ∧ w.effect = true

/-- The DPU is not in the list. -/
def Absent (w : World) (n : Name) : Prop := ∀ o, w.slot.content = some o → n ∉ o.requestor

/-- What a reconcile of a DPU knows at its next call. -/
def CallInv (w : World) (n : Name) (s : Site) (t : Thread) : Call → Prop
  | .updateWrite _ read new =>
    w.slot.Saw read ∧ ∃ last, read.content.lastApplied n = some last ∧
      updateRequestors n t.request.additional last read.content = some new
  | .joinGet _ _ => Absent w n
  | .joinPatch _ _ current => Absent w n ∧ w.slot.Saw current
  | .removeGet _ _ => s.holding = false
  | .removeWrite _ _ read new =>
    s.holding = false ∧ w.slot.Saw read ∧ removeRequestor n read.content = some new
  | .statusPatch _ completed => completed = true → w.dpuNode = true → Secured w n
  | _ => True

structure SiteInv (w : World) (n : Name) (s : Site) : Prop where
  holding : s.holding = true → w.dpuNode = true → Secured w n
  additional : ∀ t, s.thread = some t → ∀ x ∈ t.request.additional, x ∉ w.dpus
  call : ∀ t, s.thread = some t → CallInv w n s t t.next

structure Inv (w : World) : Prop where
  current : w.slot.Current
  services : ∀ o, w.slot.content = some o → ServicesOnly w.dpus o
  effect : ∀ o, w.slot.content = some o → o.nodeEffectApplied = true → o.deleting = false →
    w.effect = true
  maintenance : MaintenanceInv w w.maintenance
  site : ∀ n ∈ w.dpus, SiteInv w n (w.sites n)
  idle : ∀ n, n ∉ w.dpus → (w.sites n).holding = false

/-! ## Writes of a DPU -/

/-- What a call of the DPU `n` does to the object. -/
inductive SiteWrite (dpus : List Name) (n : Name) (slot : Slot DPUNodeMaintenance) :
    Slot DPUNodeMaintenance → Prop where
  | unchanged : SiteWrite dpus n slot slot
  | created {o : DPUNodeMaintenance} : slot.content = none → ServicesOnly dpus o →
      o.nodeEffectApplied = false → (∀ m ∈ dpus, m ≠ n → m ∉ o.requestor) →
      SiteWrite dpus n slot (slot.put o)
  | rewritten {o new : DPUNodeMaintenance} : slot.content = some o → ServicesOnly dpus new →
      Frames dpus n o new → SiteWrite dpus n slot (slot.put new)

section Writes

variable {dpus : List Name} {n m : Name} {slot slot' : Slot DPUNodeMaintenance}

theorem SiteWrite.saw (h : SiteWrite dpus n slot slot') {v : Version DPUNodeMaintenance}
    (hv : slot.Saw v) : slot'.Saw v := by
  cases h with
  | unchanged => exact hv
  | created => exact hv.put _
  | rewritten => exact hv.put _

theorem SiteWrite.current (h : SiteWrite dpus n slot slot') (hc : slot.Current) :
    slot'.Current := by
  cases h with
  | unchanged => exact hc
  | created => exact Slot.Current.put _ _
  | rewritten => exact Slot.Current.put _ _

theorem SiteWrite.services (h : SiteWrite dpus n slot slot')
    (hs : ∀ o, slot.content = some o → ServicesOnly dpus o) :
    ∀ o, slot'.content = some o → ServicesOnly dpus o := by
  intro o ho
  cases h with
  | unchanged => exact hs o ho
  | created _ hn =>
    cases ho
    exact hn
  | rewritten _ hn =>
    cases ho
    exact hn

theorem SiteWrite.forward (h : SiteWrite dpus n slot slot') {o : DPUNodeMaintenance}
    (ho : slot.content = some o) : ∃ new, slot'.content = some new ∧ Frames dpus n o new := by
  cases h with
  | unchanged => exact ⟨o, ho, rfl, rfl, rfl, fun _ _ _ => Iff.rfl⟩
  | created hn => simp [hn] at ho
  | rewritten ho' _ hf =>
    cases ho'.symm.trans ho
    exact ⟨_, Slot.content_put _ _, hf⟩

theorem SiteWrite.backward (h : SiteWrite dpus n slot slot') {new : DPUNodeMaintenance}
    (hn : slot'.content = some new) :
    (new.nodeEffectApplied = false ∧ ∀ m ∈ dpus, m ≠ n → m ∉ new.requestor) ∨
      ∃ o, slot.content = some o ∧ Frames dpus n o new := by
  cases h with
  | unchanged => exact .inr ⟨new, hn, rfl, rfl, rfl, fun _ _ _ => Iff.rfl⟩
  | created _ _ ha hou =>
    cases hn
    exact .inl ⟨ha, hou⟩
  | rewritten ho _ hf =>
    cases hn
    exact .inr ⟨_, ho, hf⟩

/-- The world after a call of a DPU. -/
def World.written (w : World) (sites : Name → Site) (slot : Slot DPUNodeMaintenance) : World :=
  { w with sites := sites, slot := slot }

variable {w : World} {sites : Name → Site} {s : Site}

theorem Held.of_write (h : Held w n)
    (hk : ∀ o, w.slot.content = some o → n ∈ o.requestor → ∃ new, slot'.content = some new ∧
      new.nodeEffectApplied = o.nodeEffectApplied ∧ n ∈ new.requestor) :
    Held (w.written sites slot') n := by
  obtain ⟨o, ho, hmem, ha, he⟩ := h
  obtain ⟨new, hn, heq, hmem⟩ := hk o ho hmem
  exact ⟨new, hn, hmem, heq.trans ha, he⟩

theorem Secured.siteWrite (h : Secured w m) (hw : SiteWrite w.dpus n w.slot slot')
    (hm : m ∈ w.dpus) (hne : m ≠ n) : Secured (w.written sites slot') m := by
  refine ⟨Held.of_write h.1 fun o ho hmem => ?_, h.2⟩
  obtain ⟨new, hn, hf⟩ := hw.forward ho
  exact ⟨new, hn, hf.applied, (hf.others m hm hne).mpr hmem⟩

theorem Absent.siteWrite (h : Absent w m) (hw : SiteWrite w.dpus n w.slot slot') (hm : m ∈ w.dpus)
    (hne : m ≠ n) : Absent (w.written sites slot') m := by
  intro new hn
  rcases hw.backward hn with ⟨_, hou⟩ | ⟨o, ho, hf⟩
  · exact hou m hm hne
  · exact fun hmem => h o ho ((hf.others m hm hne).mp hmem)

theorem CallInv.siteWrite {t : Thread} {c : Call} (h : CallInv w m s t c)
    (hw : SiteWrite w.dpus n w.slot slot') (hm : m ∈ w.dpus) (hne : m ≠ n) :
    CallInv (w.written sites slot') m s t c := by
  cases c with
  | updateWrite => exact ⟨hw.saw h.1, h.2⟩
  | joinGet => exact Absent.siteWrite h hw hm hne
  | joinPatch => exact ⟨h.1.siteWrite hw hm hne, hw.saw h.2⟩
  | removeWrite => exact ⟨h.1, hw.saw h.2.1, h.2.2⟩
  | statusPatch => exact fun hc hn => Secured.siteWrite (h hc hn) hw hm hne
  | _ => exact h

theorem SiteInv.siteWrite (h : SiteInv w m s) (hw : SiteWrite w.dpus n w.slot slot')
    (hm : m ∈ w.dpus) (hne : m ≠ n) : SiteInv (w.written sites slot') m s where
  holding := fun hh hn => Secured.siteWrite (h.holding hh hn) hw hm hne
  additional := h.additional
  call := fun t ht => (h.call t ht).siteWrite hw hm hne

theorem MaintenanceInv.siteWrite {c : Option MaintenanceCall} (h : MaintenanceInv w c)
    (hw : SiteWrite w.dpus n w.slot slot') : MaintenanceInv (w.written sites slot') c := by
  have hfl : ∀ {o}, w.slot.content = some o → ∃ new, slot'.content = some new ∧
      new.deleting = o.deleting ∧ new.finalizer = o.finalizer := by
    intro o ho
    obtain ⟨new, hn, hf⟩ := hw.forward ho
    exact ⟨new, hn, hf.deleting, hf.finalizer⟩
  have hde : ∀ {b}, (∃ o, w.slot.content = some o ∧ o.deleting = b) →
      ∃ o, slot'.content = some o ∧ o.deleting = b := by
    rintro b ⟨o, ho, hb⟩
    obtain ⟨new, hn, hd, _⟩ := hfl ho
    exact ⟨new, hn, hd.trans hb⟩
  cases c with
  | none => trivial
  | some c =>
    cases c with
    | delete =>
      obtain ⟨o, ho, hd, hfi⟩ := h
      obtain ⟨new, hn, hd', hfin'⟩ := hfl ho
      exact ⟨new, hn, hd'.trans hd, hfin'.trans hfi⟩
    | removeEffect => exact ⟨hde h.1, h.2⟩
    | unfinalize => exact ⟨hde h.1, h.2⟩
    | report => exact ⟨hde h.1, h.2⟩
    | _ => exact hde h

end Writes

/-! ## Calls of a DPU -/

section Calls

variable {w : World} {n : Name} {s : Site} {t : Thread}

/-- What a call of the DPU's own reconcile keeps. -/
structure CallSpec (w : World) (n : Name) (s : Site) (slot' : Slot DPUNodeMaintenance)
    (next : Option Thread) : Prop where
  write : SiteWrite w.dpus n w.slot slot'
  own : s.holding = true → Secured w n → Secured { w with slot := slot' } n
  additional : ∀ t, next = some t → ∀ x ∈ t.request.additional, x ∉ w.dpus
  call : ∀ t, next = some t → CallInv { w with slot := slot' } n (s.resume next) t t.next

theorem CallSpec.reads {next : Option Thread}
    (ha : ∀ t, next = some t → ∀ x ∈ t.request.additional, x ∉ w.dpus)
    (hc : ∀ t, next = some t → CallInv w n (s.resume next) t t.next) : CallSpec w n s w.slot next :=
  ⟨.unchanged, fun _ h => h, ha, hc⟩

/-- A call that reads, after which the reconcile goes on as `t`. -/
theorem CallSpec.goesOn (ha : ∀ x ∈ t.request.additional, x ∉ w.dpus)
    (hc : CallInv w n (s.resume (some t)) t t.next) : CallSpec w n s w.slot (some t) := by
  refine .reads ?_ ?_
  · rintro _ ⟨⟩
    exact ha
  · rintro _ ⟨⟩
    exact hc

variable {o new first : DPUNodeMaintenance} {attempts : ℕ}

/-- A call that rewrites the object, after which the reconcile goes on as `t`. -/
theorem CallSpec.rewrites (ho : w.slot.content = some o) (hse : ServicesOnly w.dpus new)
    (hf : Frames w.dpus n o new) (how : s.holding = true → n ∈ o.requestor → n ∈ new.requestor)
    (ha : ∀ x ∈ t.request.additional, x ∉ w.dpus)
    (hc : CallInv { w with slot := w.slot.put new } n (s.resume (some t)) t t.next) :
    CallSpec w n s (w.slot.put new) (some t) where
  write := .rewritten ho hse hf
  own := by
    intro hh hs
    refine ⟨Held.of_write hs.1 fun o' ho' hmem => ?_, hs.2⟩
    cases ho.symm.trans ho'
    exact ⟨new, Slot.content_put _ _, hf.applied, how hh hmem⟩
  additional := by
    rintro _ ⟨⟩
    exact ha
  call := by
    rintro _ ⟨⟩
    exact hc

/-- Calls before which a reconcile has to know nothing. -/
def Call.plain : Call → Bool
  | .updateGet _ | .handle | .holdGet | .effectGet | .create | .removalGet => true
  | .statusPatch _ completed => !completed
  | _ => false

theorem callInv_of_plain {c : Call} (h : c.plain = true) : CallInv w n s t c := by
  cases c with
  | statusPatch next completed =>
    cases completed with
    | false => exact fun hc => absurd hc Bool.false_ne_true
    | true => exact absurd h (by simp [Call.plain])
  | updateGet | handle | holdGet | effectGet | create | removalGet => trivial
  | _ => exact absurd h (by simp [Call.plain])

theorem dispatch_request (t : Thread) : t.dispatch.request = t.request := by
  unfold Thread.dispatch Thread.conclude
  repeat' first | rfl | split

theorem dispatch_next (t : Thread) :
    t.dispatch.next.plain = true ∨ t.dispatch.next = .removeGet false retrySteps := by
  unfold Thread.dispatch Thread.conclude
  repeat' first | exact .inl rfl | exact .inr rfl | split

/-- Entering `RemoveRequestorFromDPUNodeMaintenance` ends the hold. -/
theorem resume_holding_of_removes (s : Site) (h : t.next.removes = true) :
    (s.resume (some t)).holding = false := by
  simp [Site.resume, h]

/-- The node effect is only ever removed from an object that is being deleted. -/
theorem not_removing_of_live (hinv : Inv w) (ho : w.slot.content = some o)
    (hl : o.deleting = false) : ¬ Removing w.maintenance := by
  intro hr
  have hd : ∃ o, w.slot.content = some o ∧ o.deleting = true := by
    have hm := hinv.maintenance
    unfold Removing at hr
    split at hr
    · rename_i hc
      rw [hc] at hm
      exact hm.1
    · rename_i hc
      rw [hc] at hm
      exact hm.1
    · exact hr.elim
  obtain ⟨o', ho', hd⟩ := hd
  cases ho.symm.trans ho'
  rw [hl] at hd
  exact absurd hd Bool.false_ne_true

/-- Once it is in the list of an object that is not being deleted and whose node effect is applied,
the DPU is held. -/
theorem secured_of_live (hinv : Inv w) (ho : w.slot.content = some o) (hmem : n ∈ o.requestor)
    (ha : o.nodeEffectApplied = true) (hl : o.deleting = false) : Secured w n :=
  ⟨⟨o, ho, hmem, ha, hinv.effect o ho ha hl⟩, not_removing_of_live hinv ho hl⟩

theorem afterJoin_request (t : Thread) (first : DPUNodeMaintenance) :
    (t.afterJoin first).request = t.request := by
  unfold Thread.afterJoin Thread.wait Thread.conclude
  split <;> rfl

theorem afterJoin_callInv {s' : Site} (h : first.nodeEffectApplied = true → Secured w n) :
    CallInv w n s' (t.afterJoin first) (t.afterJoin first).next := by
  unfold Thread.afterJoin
  split_ifs with ha
  · exact fun _ _ => h ha
  · exact callInv_of_plain rfl

section Specs

variable (ha : ∀ x ∈ t.request.additional, x ∉ w.dpus)

include ha

/-- An attempt that ended in an error leaves the object alone; the next one starts over. -/
theorem retry_spec {again : ℕ → Call} {e : WriteError}
    (hag : ∀ k, CallInv w n (s.resume (some { t with next := again k }))
      { t with next := again k } (again k)) :
    CallSpec w n s w.slot (retry t attempts again e) := by
  refine .reads ?_ ?_
  · intro t' ht'
    unfold retry at ht'
    split at ht'
    · split_ifs at ht'
      cases ht'
      exact ha
    · cases ht'
  · intro t' ht'
    rw [ht']
    unfold retry at ht'
    split at ht'
    · split_ifs at ht'
      cases ht'
      exact hag _
    · cases ht'

theorem create_spec (hn : t.next = .create) :
    CallSpec w n s (t.call n w.slot).1 (t.call n w.slot).2 := by
  unfold Thread.call
  simp only [hn]
  split
  · rename_i slot' hok
    obtain ⟨hno, rfl⟩ := Slot.create_eq_ok.mp hok
    refine ⟨.created hno (createDPUNodeMaintenance_servicesOnly ha) rfl fun m hm hne =>
      not_mem_createDPUNodeMaintenance ha hm hne, ?_, ?_, ?_⟩
    · rintro - ⟨⟨o, ho, -⟩, -⟩
      simp [hno] at ho
    · rintro _ ⟨⟩
      exact ha
    · rintro _ ⟨⟩
      exact callInv_of_plain rfl
  · exact .goesOn ha (callInv_of_plain rfl)

theorem handle_spec (hn : t.next = .handle) :
    CallSpec w n s (t.call n w.slot).1 (t.call n w.slot).2 := by
  unfold Thread.call
  simp only [hn]
  refine .goesOn (by rwa [dispatch_request]) ?_
  rcases dispatch_next t with hp | hr
  · exact callInv_of_plain hp
  · have hre : t.dispatch.next.removes = true := by rw [hr]; rfl
    rw [hr]
    exact resume_holding_of_removes s hre

variable (hinv : Inv w)

include hinv

theorem updateGet_spec (hnext : t.next = .updateGet attempts) :
    CallSpec w n s (t.call n w.slot).1 (t.call n w.slot).2 := by
  unfold Thread.call
  simp only [hnext]
  have hs : ∀ x ∈ sortStrings t.request.additional, x ∉ w.dpus :=
    fun x hx => ha x (mem_sortStrings.mp hx)
  split
  · exact .goesOn ha (callInv_of_plain rfl)
  · rename_i v hv
    split
    · exact .goesOn ha (callInv_of_plain rfl)
    · rename_i last hl
      split
      · exact .goesOn hs (callInv_of_plain rfl)
      · rename_i new hn
        exact .goesOn hs ⟨hinv.current.saw hv, last, hl, hn⟩

theorem updateWrite_spec (hn : n ∈ w.dpus) {read : Version DPUNodeMaintenance}
    (hnext : t.next = .updateWrite attempts read new) (hc : CallInv w n s t t.next) :
    CallSpec w n s (t.call n w.slot).1 (t.call n w.slot).2 := by
  rw [hnext] at hc
  obtain ⟨hs, last, hla, hnew⟩ := hc
  unfold Thread.call
  simp only [hnext]
  split
  · rename_i slot' hok
    obtain ⟨hst, rfl⟩ := hs.replace_eq_ok.mp hok
    have ho := Slot.content_of_stored hst
    have hse := hinv.services _ ho
    have hl := hse n last hla
    refine .rewrites ho (updateRequestors_servicesOnly hse ha hnew)
      (updateRequestors_frames hl ha hnew) ?_ ha (callInv_of_plain rfl)
    exact fun _ hmem => (updateRequestors_requestor hl ha hnew hn).mpr hmem
  · exact retry_spec ha fun k => callInv_of_plain rfl

theorem effectGet_spec (hn : t.next = .effectGet) :
    CallSpec w n s (t.call n w.slot).1 (t.call n w.slot).2 := by
  unfold Thread.call
  simp only [hn]
  split
  · exact .goesOn ha (callInv_of_plain rfl)
  · rename_i o ho
    split_ifs with hd hmem
    · exact .goesOn ha (callInv_of_plain rfl)
    · refine .goesOn (by rwa [afterJoin_request]) (afterJoin_callInv fun hap => ?_)
      exact secured_of_live hinv ho (isDPUInRequestor_iff.mp hmem) hap (by simpa using hd)
    · refine .goesOn ha fun o' ho' => ?_
      cases ho.symm.trans ho'
      exact fun h => hmem (isDPUInRequestor_iff.mpr h)

theorem joinGet_spec (hn : t.next = .joinGet first attempts) (hc : CallInv w n s t t.next) :
    CallSpec w n s (t.call n w.slot).1 (t.call n w.slot).2 := by
  rw [hn] at hc
  unfold Thread.call
  simp only [hn]
  split
  · exact .reads (by simp) (by simp)
  · rename_i v hv
    -- nobody but the DPU itself puts its name into the list
    have ho : isDPUInRequestor v.content n = false := by
      rw [← Bool.not_eq_true, isDPUInRequestor_iff]
      exact hc v.content (Slot.content_of_stored hv)
    rw [ho, if_neg Bool.false_ne_true]
    exact .goesOn ha ⟨hc, hinv.current.saw hv⟩

theorem joinPatch_spec {current : Version DPUNodeMaintenance}
    (hn : t.next = .joinPatch first attempts current)
    (hc : CallInv w n s t t.next) (hj : joinsLive w.slot t.next = true) :
    CallSpec w n s (t.call n w.slot).1 (t.call n w.slot).2 := by
  rw [hn] at hc hj
  unfold Thread.call
  simp only [hn]
  split
  · rename_i slot' hok
    obtain ⟨hst, rfl⟩ := hc.2.replace_eq_ok.mp hok
    have ho := Slot.content_of_stored hst
    refine .rewrites ho (addRequestorAndUpdateForce_servicesOnly (hinv.services _ ho) ha)
      (addRequestorAndUpdateForce_frames ha) (fun _ _ => mem_addRequestorAndUpdateForce)
      (by rwa [afterJoin_request]) (afterJoin_callInv fun hap => ?_)
    have hl : current.content.deleting = false ∧ current.content.nodeEffectApplied = true := by
      simpa [joinsLive, hst, hap] using hj
    have he := hinv.effect _ ho hl.2 hl.1
    refine ⟨⟨_, Slot.content_put _ _, mem_addRequestorAndUpdateForce, hl.2, he⟩, ?_⟩
    exact not_removing_of_live (w := w) hinv ho hl.1
  · exact retry_spec ha fun k => hc.1

theorem removeGet_spec {timedOut : Bool} (hnext : t.next = .removeGet timedOut attempts) :
    CallSpec w n s (t.call n w.slot).1 (t.call n w.slot).2 := by
  unfold Thread.call
  simp only [hnext]
  split
  · exact .goesOn ha (callInv_of_plain rfl)
  · rename_i v hv
    split
    · exact .goesOn ha (callInv_of_plain rfl)
    · rename_i new hn
      exact .goesOn ha ⟨resume_holding_of_removes s rfl, hinv.current.saw hv, hn⟩

theorem removeWrite_spec {timedOut : Bool} {read : Version DPUNodeMaintenance}
    (hnext : t.next = .removeWrite timedOut attempts read new) (hc : CallInv w n s t t.next) :
    CallSpec w n s (t.call n w.slot).1 (t.call n w.slot).2 := by
  rw [hnext] at hc
  obtain ⟨hf, hs, hn⟩ := hc
  unfold Thread.call
  simp only [hnext]
  split
  · rename_i slot' hok
    obtain ⟨hst, rfl⟩ := hs.replace_eq_ok.mp hok
    have ho := Slot.content_of_stored hst
    refine .rewrites ho (removeRequestor_servicesOnly (hinv.services _ ho) hn)
      (removeRequestor_frames hn) ?_ ha (callInv_of_plain rfl)
    intro hh
    rw [hf] at hh
    exact absurd hh Bool.false_ne_true
  · exact retry_spec ha fun k => resume_holding_of_removes s rfl

end Specs

/-- Every call of a reconcile keeps what the reconcile and the hold of its DPU rest on. -/
theorem Thread.call_spec (hinv : Inv w) (hn : n ∈ w.dpus) (hs : SiteInv w n s)
    (ht : s.thread = some t) (hj : joinsLive w.slot t.next = true) :
    CallSpec w n s (t.call n w.slot).1 (t.call n w.slot).2 := by
  have ha := hs.additional t ht
  have hc := hs.call t ht
  cases hnext : t.next with
  | updateGet => exact updateGet_spec ha hinv hnext
  | updateWrite => exact updateWrite_spec ha hinv hn hnext hc
  | handle => exact handle_spec ha hnext
  | holdGet =>
    unfold Thread.call
    simp only [hnext]
    split_ifs <;> exact .goesOn ha (callInv_of_plain rfl)
  | effectGet => exact effectGet_spec ha hinv hnext
  | create => exact create_spec ha hnext
  | joinGet => exact joinGet_spec ha hinv hnext hc
  | joinPatch => exact joinPatch_spec ha hinv hnext hc hj
  | removalGet =>
    unfold Thread.call
    simp only [hnext]
    split
    · exact .goesOn ha (callInv_of_plain rfl)
    · exact .goesOn ha (resume_holding_of_removes s rfl)
  | removeGet => exact removeGet_spec ha hinv hnext
  | removeWrite => exact removeWrite_spec ha hinv hnext hc
  | statusPatch =>
    unfold Thread.call
    simp only [hnext]
    exact .reads (by simp) (by simp)

end Calls

/-! ## Steps -/

section Steps

variable {w w' : World} {n : Name} {s s' : Site} {slot' : Slot DPUNodeMaintenance} {e : SiteEvent} {o : DPUNodeMaintenance}

/-- The invariant of a site whose thread is gone, or stays as it is. -/
theorem SiteInv.of_thread (h : SiteInv w n s) (hh : s'.holding = s.holding)
    (ht : s'.thread = none ∨ s'.thread = s.thread) : SiteInv w n s' where
  holding := by
    rw [hh]
    exact h.holding
  additional := by
    rcases ht with ht | ht
    · simp [ht]
    · rw [ht]
      exact h.additional
  call := by
    rcases ht with ht | ht
    · simp [ht]
    · rw [ht]
      intro t hst
      have hc := h.call t hst
      -- of the site, the invariant of a call reads `holding` only
      unfold CallInv at hc ⊢
      rw [hh]
      exact hc

theorem SiteInv.finish {t : Thread} (h : SiteInv w n s) (ht : s.thread = some t)
    {next : DPUStatus} {completed : Bool} (hn : t.next = .statusPatch next completed) :
    SiteInv w n (s.finish t) := by
  have hc := h.call t ht
  rw [hn] at hc
  unfold Site.finish
  rw [hn]
  refine ⟨fun hh hno => ?_, by simp, by simp⟩
  rcases Bool.or_eq_true_iff.mp hh with hh | hh
  · exact h.holding hh hno
  · exact hc hh hno

theorem SiteInv.resume (h : SiteInv w n s) {next : Option Thread}
    (hs : CallSpec w n s slot' next) : SiteInv { w with slot := slot' } n (s.resume next) where
  holding := by
    intro hh hn
    have hold : s.holding = true := (Bool.and_eq_true_iff.mp hh).1
    exact hs.own hold (h.holding hold hn)
  additional := hs.additional
  call := hs.call

/-- An event of a DPU writes the object as `SiteWrite` says, and keeps the invariant of its
site. -/
theorem SiteInv.exec (hinv : Inv w) (hn : n ∈ w.dpus) (hs : w.sites n = s)
    (hok : w.allowed (.site n e) = true) (h : s.exec n w.slot e = some (s', slot')) :
    SiteWrite w.dpus n w.slot slot' ∧ SiteInv { w with slot := slot' } n s' := by
  have hsi := hinv.site n hn
  rw [hs] at hsi
  cases e with simp only [Site.exec] at h
  | edit | delete =>
    cases h
    exact ⟨.unchanged, hsi.of_thread rfl (.inr rfl)⟩
  | touch status =>
    split_ifs at h
    cases h
    exact ⟨.unchanged, hsi.of_thread rfl (.inr rfl)⟩
  | reconcile env upgrading =>
    split at h
    · cases h
    · cases h
      refine ⟨.unchanged, hsi.holding, ?_, ?_⟩
      · rintro _ ⟨⟩
        simpa [World.allowed, hs] using hok
      · rintro _ ⟨⟩
        exact callInv_of_plain rfl
  | call =>
    split at h
    · cases h
    · rename_i t ht
      split at h
      · rename_i hnext
        cases h
        exact ⟨.unchanged, hsi.finish ht hnext⟩
      · cases h
        have hj : joinsLive w.slot t.next = true := by
          simpa [World.allowed, hs, ht] using hok
        have hsp := Thread.call_spec hinv hn hsi ht hj
        exact ⟨hsp.write, hsi.resume hsp⟩
  | stop =>
    split_ifs at h
    cases h
    exact ⟨.unchanged, hsi.of_thread rfl (.inl rfl)⟩
  | recreate dpu request =>
    split at h
    · split at h
      · split_ifs at h
        cases h
        exact ⟨.unchanged, by simp, by simp, by simp⟩
      · cases h
    · cases h

theorem Inv.siteStep (hinv : Inv w) (hn : n ∈ w.dpus) (hok : w.allowed (.site n e) = true)
    (h : (w.sites n).exec n w.slot e = some (s', slot')) :
    Inv (w.written (update w.sites n s') slot') := by
  obtain ⟨hw, hs⟩ := SiteInv.exec hinv hn rfl hok h
  refine ⟨hw.current hinv.current, hw.services hinv.services, ?_, hinv.maintenance.siteWrite hw,
    ?_, ?_⟩
  · intro new hnew ha hl
    rcases hw.backward hnew with ⟨hfa, _⟩ | ⟨o, ho, hf⟩
    · rw [hfa] at ha
      exact absurd ha Bool.false_ne_true
    · exact hinv.effect o ho (hf.applied ▸ ha) (hf.deleting ▸ hl)
  · intro m hm
    by_cases hmn : m = n
    · subst hmn
      simp only [World.written, update_self]
      exact ⟨hs.holding, hs.additional, hs.call⟩
    · simp only [World.written, update_of_ne hmn]
      exact (hinv.site m hm).siteWrite hw hm hmn
  · intro m hm
    have hmn : m ≠ n := fun heq => hm (heq ▸ hn)
    simp only [World.written, update_of_ne hmn]
    exact hinv.idle m hm

/-- What a step of the DPUNodeMaintenance controller leaves to the DPUs. -/
structure Leaves (w w' : World) : Prop where
  dpus : w'.dpus = w.dpus
  sites : w'.sites = w.sites
  dpuNode : w'.dpuNode = true → w.dpuNode = true
  saw : ∀ v, w.slot.Saw v → w'.slot.Saw v
  absent : ∀ n, Absent w n → Absent w' n
  secured : ∀ n, w'.dpuNode = true → Secured w n → Secured w' n

theorem SiteInv.leaves (hl : Leaves w w') (h : SiteInv w n s) : SiteInv w' n s where
  holding := fun hh hno => hl.secured n hno (h.holding hh (hl.dpuNode hno))
  additional := by
    rw [hl.dpus]
    exact h.additional
  call := by
    intro t ht
    have hca := h.call t ht
    cases hn : t.next with rw [hn] at hca
    | updateWrite =>
      exact ⟨hl.saw _ hca.1, hca.2⟩
    | joinGet =>
      exact hl.absent n hca
    | joinPatch =>
      exact ⟨hl.absent n hca.1, hl.saw _ hca.2⟩
    | removeWrite =>
      exact ⟨hca.1, hl.saw _ hca.2.1, hca.2.2⟩
    | statusPatch =>
      exact fun hc hno => hl.secured n hno (hca hc (hl.dpuNode hno))
    | _ =>
      exact hca

theorem Inv.keepSlot (hinv : Inv w) (hl : Leaves w w') (hs : w'.slot = w.slot)
    (he : ∀ o, w.slot.content = some o → o.nodeEffectApplied = true → o.deleting = false →
      w.effect = true → w'.effect = true)
    (hm : MaintenanceInv w' w'.maintenance) : Inv w' where
  current := hs ▸ hinv.current
  services := by
    rw [hs, hl.dpus]
    exact hinv.services
  effect := by
    rw [hs]
    exact fun o ho ha hli => he o ho ha hli (hinv.effect o ho ha hli)
  maintenance := hm
  site := by
    rw [hl.dpus, hl.sites]
    exact fun n hn => (hinv.site n hn).leaves hl
  idle := by
    rw [hl.dpus, hl.sites]
    exact hinv.idle

/-- A patch of the controller that leaves the requestors alone ends its reconcile. -/
theorem Inv.patched (hinv : Inv w) {o new : DPUNodeMaintenance} (ho : w.slot.content = some o)
    (hr : new.requestor = o.requestor) (hla : new.lastApplied = o.lastApplied)
    (hg : o.nodeEffectApplied = true → new.nodeEffectApplied = true)
    (hef : new.nodeEffectApplied = true → new.deleting = false → w.effect = true) :
    Inv { w with slot := w.slot.put new, maintenance := none } := by
  have hl : Leaves w { w with slot := w.slot.put new, maintenance := none } := by
    refine ⟨rfl, rfl, id, fun v hv => hv.put new, ?_, ?_⟩
    · rintro n hou _ ⟨⟩
      rw [hr]
      exact hou o ho
    · rintro n - ⟨⟨o', ho', hmem, ha, he⟩, -⟩
      cases ho.symm.trans ho'
      exact ⟨⟨new, rfl, hr ▸ hmem, hg ha, he⟩, id⟩
  refine ⟨Slot.Current.put _ _, ?_, ?_, trivial, fun n hn => (hinv.site n hn).leaves hl, hinv.idle⟩
  · rintro _ ⟨⟩
    unfold ServicesOnly
    rw [hla]
    exact hinv.services o ho
  · rintro _ ⟨⟩
    exact hef

theorem maintenanceDispatch_inv (ho : w.slot.content = some o) :
    MaintenanceInv w (maintenanceDispatch o) := by
  unfold maintenanceDispatch
  split_ifs with hf hd he hempty' ha
  · exact ⟨o, ho, by simpa using (Bool.and_eq_true_iff.mp hf).1⟩
  · exact ⟨⟨o, ho, hd⟩, fun h => absurd h Bool.false_ne_true⟩
  · exact ⟨o, ho, hd⟩
  · exact ⟨o, ho, by simpa using hd, by simpa [hd] using hf⟩
  · trivial
  · exact ⟨o, ho, by simpa using hd⟩

theorem not_removing_maintenanceDispatch (hmem : n ∈ o.requestor) :
    ¬ Removing (maintenanceDispatch o) := by
  have hne : o.requestor.isEmpty = false := by
    rw [List.isEmpty_eq_false_iff]
    exact List.ne_nil_of_mem hmem
  unfold maintenanceDispatch
  rw [hne]
  split_ifs <;> first | exact id | contradiction

theorem Inv.maintenanceReconcile (hinv : Inv w) :
    Inv { w with maintenance := w.slot.content.bind maintenanceDispatch } := by
  have hl : Leaves w { w with maintenance := w.slot.content.bind maintenanceDispatch } := by
    refine ⟨rfl, rfl, id, fun _ h => h, fun _ h => h, ?_⟩
    rintro n - ⟨⟨o, ho, hmem, hr⟩, -⟩
    refine ⟨⟨o, ho, hmem, hr⟩, ?_⟩
    rw [ho]
    exact not_removing_maintenanceDispatch hmem
  refine hinv.keepSlot hl rfl (fun _ _ _ _ h => h) ?_
  dsimp only
  cases ho : w.slot.content with
  | none => trivial
  | some o => exact maintenanceDispatch_inv ho

theorem Inv.maintenanceStop (hinv : Inv w) : Inv { w with maintenance := none } :=
  hinv.keepSlot ⟨rfl, rfl, id, fun _ h => h, fun _ h => h, fun _ _ h => ⟨h.1, id⟩⟩ rfl
    (fun _ _ _ _ h => h) trivial

theorem Inv.deleteDPUNode (hinv : Inv w) : Inv { w with dpuNode := false } := by
  refine hinv.keepSlot
    ⟨rfl, rfl, fun h => absurd h Bool.false_ne_true, fun _ h => h, fun _ h => h, fun _ _ h => h⟩
    rfl (fun _ _ _ _ h => h) ?_
  have hm := hinv.maintenance
  dsimp only
  cases hc : w.maintenance with
  | none => trivial
  | some c =>
    rw [hc] at hm
    cases c with
    | removeEffect | unfinalize => exact ⟨hm.1, fun _ => rfl⟩
    | _ => exact hm

/-- While the controller is about to remove the node effect, no DPU is held. -/
theorem not_secured_of_removing (h : Removing w.maintenance) : ¬ Secured w n := fun hs => hs.2 h

theorem Inv.maintain (hinv : Inv w) {c : MaintenanceCall} (hc : w.maintenance = some c)
    (done : Bool) : Inv (w.maintain done c) := by
  have hm := hinv.maintenance
  rw [hc] at hm
  cases c with
  | addFinalizer =>
    obtain ⟨o, ho, hli⟩ := hm
    simp only [World.maintain, patchObject, Slot.amend, ho]
    exact hinv.patched ho rfl rfl id fun ha _ => hinv.effect o ho ha hli
  | delete =>
    obtain ⟨o, ho, hli, hf⟩ := hm
    simp only [World.maintain, deleteObject, ho, hf, if_true]
    exact hinv.patched ho rfl rfl id fun _ hli => absurd hli.symm Bool.false_ne_true
  | getNode =>
    simp only [World.maintain]
    split_ifs with hno
    · exact hinv.maintenanceStop
    · refine hinv.keepSlot ⟨rfl, rfl, id, fun _ h => h, fun _ h => h, fun n hn => absurd hn hno⟩
        rfl (fun _ _ _ _ h => h) ⟨hm, fun _ => by simpa using hno⟩
  | removeEffect cleared =>
    cases done with
    | false => exact hinv.maintenanceStop
    | true =>
      obtain ⟨⟨o, ho, hd⟩, hcl⟩ := hm
      have hr : Removing w.maintenance := by rw [hc]; trivial
      refine hinv.keepSlot ⟨rfl, rfl, id, fun _ h => h, fun _ h => h, fun n _ hs =>
        absurd hs (not_secured_of_removing hr)⟩ rfl ?_ ⟨⟨o, ho, hd⟩, hcl⟩
      intro o' ho' _ hli
      cases ho.symm.trans ho'
      rw [hd] at hli
      exact absurd hli.symm Bool.false_ne_true
  | unfinalize cleared =>
    obtain ⟨⟨o, ho, hd⟩, _⟩ := hm
    have hr : Removing w.maintenance := by rw [hc]; trivial
    simp only [World.maintain, removeFinalizer, ho, hd, if_true]
    have hl : Leaves w { w with slot := w.slot.erase, maintenance := none } :=
      ⟨rfl, rfl, id, fun _ h => h.erase, nofun, fun n _ hs =>
        absurd hs (not_secured_of_removing hr)⟩
    exact ⟨Slot.Current.erase _, by simp, by simp, trivial,
      fun n hn => (hinv.site n hn).leaves hl, hinv.idle⟩
  | apply =>
    cases done with
    | false => exact hinv.maintenanceStop
    | true =>
      refine hinv.keepSlot ⟨rfl, rfl, id, fun _ h => h, fun _ h => h, ?_⟩ rfl
        (fun _ _ _ _ _ => rfl) ⟨hm, rfl⟩
      rintro n - ⟨⟨o, ho, hmem, ha, -⟩, -⟩
      exact ⟨⟨o, ho, hmem, ha, rfl⟩, id⟩
  | report =>
    obtain ⟨⟨o, ho, hli⟩, he⟩ := hm
    simp only [World.maintain, patchObject, Slot.amend, ho]
    exact hinv.patched ho rfl rfl (fun _ => rfl) fun _ _ => he

theorem Inv.step (hinv : Inv w) {e : Event} (hok : w.allowed e = true) (h : Step w e w') :
    Inv w' := by
  unfold Step at h
  cases e with
  | site n e =>
    simp only [World.exec] at h
    split_ifs at h with hn
    obtain ⟨r, hr, rfl⟩ := Option.map_eq_some_iff.mp h
    exact hinv.siteStep hn hok hr
  | maintenanceReconcile =>
    simp only [World.exec] at h
    split at h
    · cases h
    · cases h
      exact hinv.maintenanceReconcile
  | maintenanceCall done =>
    obtain ⟨c, hc, rfl⟩ := Option.map_eq_some_iff.mp h
    exact hinv.maintain hc done
  | maintenanceStop =>
    cases h
    exact hinv.maintenanceStop
  | deleteDPUNode =>
    cases h
    exact hinv.deleteDPUNode

theorem Init.inv (h : Init w) : Inv w where
  current := by
    rw [h.slot]
    exact Slot.Current.empty
  services := by simp [h.slot]
  effect := by simp [h.slot]
  maintenance := by
    rw [h.maintenance]
    trivial
  site := fun n _ => ⟨by simp [h.holding n], by simp [h.threads n], by simp [h.threads n]⟩
  idle := fun n _ => h.holding n

theorem inv_of_reachable
    (h : Reachable Init (Restrict (fun w e => w.allowed e = true) Step) w) : Inv w :=
  h.invariant (fun _ h => h.inv) fun _ _ _ _ hinv hs => hinv.step hs.1 hs.2

end Steps

/-- In every run whose steps meet the condition, a DPU that left Node Effect through
`handleNodeEffectCompletion` and did not call `RemoveRequestorFromDPUNodeMaintenance` since is a
requestor of the DPUNodeMaintenance, whose node effect is applied and not removed, as long as the
DPUNode is there. -/
theorem holding_dpu_is_requestor {w : World} {n : Name}
    (h : Reachable Init (Restrict (fun w e => w.allowed e = true) Step) w)
    (hnode : w.dpuNode = true) (hholding : (w.sites n).holding = true) :
    ∃ o, w.slot.content = some o ∧ n ∈ o.requestor ∧ o.nodeEffectApplied = true ∧
      w.effect = true := by
  have hinv := inv_of_reachable h
  by_cases hn : n ∈ w.dpus
  · exact ((hinv.site n hn).holding hholding hnode).1
  · rw [hinv.idle n hn] at hholding
    exact absurd hholding Bool.false_ne_true

def enteringDPU (name : Name) : DPU :=
  { name := name, resourceVersion := 1, creationTimestamp := 0, deleting := false
    status :=
      { phase := .nodeEffect, previousPhase := some .pending, ready := none, reconfiguring := none
        failed := false, postProvisioningDPUConfig := none, postProvisioningNodeEffect := none
        agentLastStartupTime := none, agentStatus := none, outdated := false
        dpuReconfig := none } }

/-- Two DPUs enter Node Effect. -/
def enteringWorld : World :=
  { dpus := ["dpu-a", "dpu-b"]
    sites := fun n => ⟨enteringDPU n, ⟨[], false⟩, none, false⟩
    slot := Slot.empty
    maintenance := none
    dpuNode := true
    effect := false }

theorem enteringWorld_init : Init enteringWorld :=
  ⟨rfl, rfl, rfl, fun _ => rfl, fun _ => rfl⟩

/-- Nothing that a reconcile waits for outside the protocol is there. -/
def waitingSurroundings : Surroundings :=
  { now := 0, zeroTrust := false, effectApplied := false, node := .ok true
    metadataDiffers := false, applyOnLabelChange := false, reboot := .pending
    hostNetworkReady := false, clusterConfigured := false, servicesReady := false
    maintenanceGone := false, removalTimedOut := false, installed := .nodeEffect }

def reconcileEvents (n : Name) (calls : ℕ) : List Event :=
  .site n (.reconcile waitingSurroundings false) :: List.replicate calls (.site n .call)

def maintenanceEvents (calls : ℕ) : List Event :=
  .maintenanceReconcile :: List.replicate calls (.maintenanceCall true)

/-- The first DPU creates the object, the node effect is applied, and the DPU goes on. -/
def firstHolds : List Event :=
  reconcileEvents "dpu-a" 5 ++ maintenanceEvents 1 ++ maintenanceEvents 2 ++
    reconcileEvents "dpu-a" 4

def firstLeaves : List Event :=
  [.site "dpu-a" .delete] ++ reconcileEvents "dpu-a" 3 ++ reconcileEvents "dpu-a" 4

/-- What matters at the end: the holds of the two DPUs, and what they hold. -/
def holdOf (w : World) : Bool × Bool × Bool × Bool × Bool :=
  (w.dpuNode, (w.sites "dpu-a").holding, (w.sites "dpu-b").holding, w.slot.content.isSome, w.effect)

/-- The second DPU reads the object before the controller deletes it for want of requestors, and
joins it after the controller found it without requestors. It leaves Node Effect on what it read
first, while the node effect is removed and the object is gone. -/
theorem joining_deleted_maintenance_loses_hold :
    ∃ w, Reachable Init Step w ∧ w.dpuNode = true ∧ (w.sites "dpu-b").holding = true ∧
      w.slot.content = none ∧ w.effect = false := by
  obtain ⟨w, hr, hw⟩ :=
    Reachable.exists_of_run enteringWorld_init World.exec
      (firstHolds ++ firstLeaves ++ reconcileEvents "dpu-b" 3 ++ maintenanceEvents 1 ++
        [.maintenanceReconcile] ++ List.replicate 3 (.site "dpu-b" .call) ++
        List.replicate 2 (.maintenanceCall true)) holdOf (true, false, true, false, false)
      (by decide +kernel)
  obtain ⟨hn, -, hh, hs, he⟩ : _ ∧ _ ∧ _ ∧ _ ∧ _ := by
    simpa only [holdOf, Prod.mk.injEq] using hw
  exact ⟨w, hr, hn, hh, Option.isSome_eq_false_iff.mp hs |>
    Option.isNone_iff_eq_none.mp, he⟩

/-- The second DPU joins while the first holds, and keeps the object when the first leaves. -/
theorem second_dpu_keeps_hold :
    ∃ w, Reachable Init (Restrict (fun w e => w.allowed e = true) Step) w ∧ w.dpuNode = true ∧
      (w.sites "dpu-a").holding = false ∧ (w.sites "dpu-b").holding = true ∧
      ∃ o, w.slot.content = some o ∧ "dpu-b" ∈ o.requestor ∧ o.nodeEffectApplied = true ∧
        w.effect = true := by
  obtain ⟨w, hr, hw⟩ :=
    Reachable.exists_of_runIf enteringWorld_init World.allowed World.exec
      (firstHolds ++ reconcileEvents "dpu-b" 6 ++ firstLeaves ++ maintenanceEvents 0) holdOf
      (true, false, true, true, true) (by decide +kernel)
  obtain ⟨hn, hf, hh, -⟩ : _ ∧ _ ∧ _ ∧ _ ∧ _ := by
    simpa [holdOf] using hw
  exact ⟨w, hr, hn, hf, hh, holding_dpu_is_requestor hr hn hh⟩

end DocaPlatform.NodeEffectHold
