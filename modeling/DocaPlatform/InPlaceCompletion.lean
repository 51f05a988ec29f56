import DocaPlatform.InPlaceSite

/-!
# Completion of a round

The invariants of the whole system, kept by every allowed step: a DPUSet pass completes a DPU only
after the DPU went through the round. Without the condition a node that flaps is enough.
-/
namespace DocaPlatform.InPlaceRounds

open InPlaceReconfig DpuPhases Runs Function Option List

/-- The DPUSet has an open round that started in the second `s`. -/
def OpenAt (dpuSet : DPUSet) (s : Time) : Prop :=
  ∃ status, dpuSet.dpuReconfig = some status ∧ status.active = some true ∧
    ∃ t, status.startedAt = some t ∧ s = persisted t

def World.Opens (w : World) (s : Time) : Prop :=
  OpenAt w.dpuSet s ∨ ∃ p, w.pass = some p ∧ OpenAt p.set s

/-- The round of a DPUSet status is the latest one or, if its status was not stored, the one
before; an open round is the latest. -/
structure SetInv (started : ℕ) (dpuSet : DPUSet) : Prop where
  le : roundOf dpuSet ≤ started
  ge : started ≤ roundOf dpuSet + 1
  active : ∀ status, dpuSet.dpuReconfig = some status → status.active = some true →
    status.round = started ∧ status.startedAt.isSome = true

/-- What a pass may still write to a DPU. -/
def PlanInv (w : World) (p : PlannedReconfig) : Prop :=
  ∀ next, p.next = some next →
    p.Marks w.started next ∨
      reconfigInProgress (some next) = false ∧
        next.round = reconfigRound p.dpu.status.dpuReconfig ∧
        ((w.sites p.dpu.name).history.member = true →
          (w.sites p.dpu.name).history.progress = .returned) ∧
        (next.completedRound = completedRound p.dpu.status.dpuReconfig ∨
          next.completedRound = w.started)

def StageInv (w : World) (p : Pass) : Prop :=
  match p.stage with
  | .begun => p.set.dpuReconfig = p.base.dpuReconfig
  | .opened _ => ∃ status, p.set.dpuReconfig = some status ∧ status.active = some true
  | .patching _ _ todo => ∀ q ∈ todo, PlanInv w q
  | .closing => True

structure Inv (w : World) : Prop where
  sites : ∀ n, SiteInv w.started w.Opens n (w.sites n)
  listed : ∀ n, (w.sites n).dpu.isSome = true → n ∈ w.names
  stored : SetInv w.started w.dpuSet
  pass : ∀ p, w.pass = some p →
    p.base.dpuReconfig = w.dpuSet.dpuReconfig ∧ SetInv w.started p.set ∧ StageInv w p

variable {w w' : World} {started : ℕ} {dpuSet : DPUSet} {s : Site} {d : DPU} {name : String}

theorem roundOpen_of_opens {s : Time} (h : w.Opens s) : w.roundOpen = true := by
  have ha : ∀ dpuSet, OpenAt dpuSet s → inPlaceRoundActive dpuSet = true := by
    rintro dpuSet ⟨status, hst, ha, _⟩
    simp [inPlaceRoundActive, hst, ha]
  unfold World.roundOpen
  rcases h with h | ⟨p, hp, h⟩
  · simp [ha _ h]
  · simp [hp, ha _ h]

theorem SetInv.congr {a b : DPUSet} (ha : SetInv started a) (h : b.dpuReconfig = a.dpuReconfig) :
    SetInv started b := by
  obtain ⟨hle, hge, hac⟩ := ha
  unfold roundOf at hle hge
  refine ⟨?_, ?_, ?_⟩
  · unfold roundOf
    rwa [h]
  · unfold roundOf
    rwa [h]
  · rwa [h]

theorem Inv.setPass (h : Inv w) (hs : w'.sites = w.sites) (hnm : w'.names = w.names)
    (hst : w'.started = w.started) (ho : ∀ t, w'.Opens t → w.Opens t)
    (hsto : SetInv w'.started w'.dpuSet) (hp : ∀ p, w'.pass = some p →
      p.base.dpuReconfig = w'.dpuSet.dpuReconfig ∧ SetInv w'.started p.set ∧ StageInv w' p) :
    Inv w' where
  sites n := by
    rw [hs, hst]
    exact (h.sites n).mono ho
  listed n hn := by
    rw [hnm]
    rw [hs] at hn
    exact h.listed n hn
  stored := hsto
  pass := hp

/-- The pass goes on, and opens no other round in its memory. -/
theorem Inv.movePass (h : Inv w) {base set next : DPUSet} {stage after : Stage}
    (hpa : w.pass = some ⟨base, set, stage⟩) (hs : SetInv w.started next)
    (ho : ∀ t, OpenAt next t → OpenAt set t) (hst : StageInv w ⟨base, next, after⟩) :
    Inv { w with pass := some ⟨base, next, after⟩ } := by
  refine h.setPass rfl rfl rfl ?_ h.stored fun p hp => ?_
  · rintro t (ht | ⟨p, hp, ht⟩)
    · exact .inl ht
    · cases hp
      exact .inr ⟨_, hpa, ho t ht⟩
  · cases hp
    exact ⟨(h.pass _ hpa).1, hs, hst⟩

/-! ### Opening a round -/

theorem ensureInPlaceRound_active (h : SetInv started dpuSet)
    (hac : inPlaceRoundActive dpuSet = true) (now : Time) (requested : Bool) :
    ensureInPlaceRound now dpuSet requested = dpuSet ∧
      ∃ status, dpuSet.dpuReconfig = some status ∧ status.active = some true := by
  unfold inPlaceRoundActive at hac
  split at hac
  · simp at hac
  · rename_i status hst
    have ha : status.active = some true := by simpa using hac
    refine ⟨?_, status, hst, ha⟩
    obtain ⟨t, ht⟩ := isSome_iff_exists.mp (h.active status hst ha).2
    unfold ensureInPlaceRound inPlaceRoundActive
    obtain ⟨value, reconfig⟩ := dpuSet
    obtain rfl : reconfig = some status := hst
    obtain ⟨round, active, startedAt⟩ := status
    obtain rfl : startedAt = some t := ht
    obtain rfl : active = some true := ha
    rfl

theorem ensureInPlaceRound_inactive (ha : inPlaceRoundActive dpuSet = false) (now : Time) :
    ensureInPlaceRound now dpuSet true =
      { dpuSet with dpuReconfig := some ⟨roundOf dpuSet + 1, some true, some now⟩ } := by
  unfold ensureInPlaceRound roundOf
  rw [ha]
  cases dpuSet.dpuReconfig <;> rfl

theorem not_openAt_of_inactive (hac : inPlaceRoundActive dpuSet = false) (s : Time) :
    ¬ OpenAt dpuSet s := by
  rintro ⟨status, hst, ha, _⟩
  simp [inPlaceRoundActive, hst, ha] at hac

theorem Inv.passOpen (h : Inv w) (hok : w.allowed .passOpen = true) (he : w.passOpen = some w') :
    Inv w' := by
  unfold World.passOpen at he
  split at he
  swap
  · simp at he
  rename_i base set hpa
  obtain ⟨hb, hse, hstg⟩ := h.pass _ hpa
  have hs : set.dpuReconfig = base.dpuReconfig := hstg
  dsimp only at he hb hse
  by_cases hac : inPlaceRoundActive set = true
  · -- The round is open already: the pass goes on with it.
    obtain ⟨heq, hstat⟩ :=
      ensureInPlaceRound_active hse hac w.clock (inPlaceReconfigRequested set)
    have hro : ¬ w.started < roundOf set := not_lt.mpr hse.le
    rw [if_neg (by simp [hac]), heq, if_neg hro] at he
    cases he
    exact h.movePass hpa hse (fun t ht => ht) hstat
  · simp only [Bool.not_eq_true] at hac
    by_cases hr : inPlaceReconfigRequested set = true
    swap
    · rw [if_pos (by simp [hac, hr])] at he
      cases he
      exact h.movePass hpa hse (fun t ht => ht) trivial
    · -- A round starts: every DPU has been Ready since an earlier second.
      have hg : ∀ n, (w.sites n).dpu.isSome = true →
          (w.sites n).readyBefore w.clock = true := by
        intro n hn
        simp only [World.allowed, hpa, hr, hac, Bool.not_false, Bool.and_self,
          Bool.not_true, Bool.false_or, List.all_eq_true] at hok
        exact hok n (h.listed n hn)
      have hsto : inPlaceRoundActive w.dpuSet = false := by
        rw [← hac]
        unfold inPlaceRoundActive
        rw [← hb, ← hs]
      rw [if_neg (by simp [hr]), hr, ensureInPlaceRound_inactive hac] at he
      have hop : ∀ (w₁ : World) (p : Pass) (status : DPUSetReconfigStatus),
          w₁.dpuSet = w.dpuSet → w₁.pass = some p → p.set.dpuReconfig = some status →
          status.startedAt = some w.clock → ∀ t, w₁.Opens t → persisted w.clock ≤ t := by
        rintro w₁ p status hw₁ hp hstat hsta t (ht | ⟨q, hq, st, hst, _, u, hu, rfl⟩)
        · rw [hw₁] at ht
          exact absurd ht (not_openAt_of_inactive hsto t)
        · cases hp.symm.trans hq
          cases hstat.symm.trans hst
          cases hsta.symm.trans hu
          exact le_rfl
      have hstor := h.stored.le
      have hsetr : roundOf set = roundOf w.dpuSet := by
        unfold roundOf
        rw [hs, hb]
      have ho : roundOf { set with
          dpuReconfig := some ⟨roundOf set + 1, some true, some w.clock⟩ } = roundOf set + 1 := rfl
      rw [ho] at he
      split_ifs at he with hnew
      · cases he
        have hstd : w.started = roundOf set := by
          have := hse.le
          omega
        refine ⟨fun n => ?_, h.listed, ⟨?_, ?_, ?_⟩, fun p hp => ?_⟩
        · exact (h.sites n).startRound (by omega) (hg n) (hop _ _ _ rfl rfl rfl rfl)
        · exact (hstor.trans (by omega) : roundOf w.dpuSet ≤ roundOf set + 1)
        · change roundOf set + 1 ≤ roundOf w.dpuSet + 1
          omega
        · intro status hstat ha
          have hstatus' : w.dpuSet.dpuReconfig = some status := hstat
          simp [inPlaceRoundActive, hstatus', ha] at hsto
        · cases hp
          refine ⟨hb, ⟨le_rfl, Nat.le_succ _, ?_⟩, ⟨_, rfl, rfl⟩⟩
          intro status hstat _
          cases hstat
          exact ⟨rfl, rfl⟩
      · cases he
        have hstd : w.started = roundOf set + 1 := by
          have := hse.ge
          omega
        refine ⟨fun n => ?_, h.listed, h.stored, fun p hp => ?_⟩
        · exact (h.sites n).reopen (hg n) (hop _ _ _ rfl rfl rfl rfl)
        · cases hp
          refine ⟨hb, ⟨hstd.symm.le, ?_, ?_⟩, ⟨_, rfl, rfl⟩⟩
          · change w.started ≤ roundOf set + 1 + 1
            omega
          · intro status hstat _
            cases hstat
            exact ⟨hstd.symm, rfl⟩

/-! ### Patching the DPUs -/

section Patch

variable {base current : Option DPUReconfigStatus} {next : DPUReconfigStatus}

theorem patchDPUReconfig_round :
    (patchDPUReconfig base next current).round = reconfigRound current ∨
      (patchDPUReconfig base next current).round = next.round := by
  unfold patchDPUReconfig
  rw [← cloneReconfig_round current]
  exact patchField_eq _ _ _

theorem patchDPUReconfig_round_of_same (h : next.round = reconfigRound base) :
    (patchDPUReconfig base next current).round = reconfigRound current := by
  unfold patchDPUReconfig patchField
  dsimp only
  rw [if_pos (by rw [h, cloneReconfig_round]), cloneReconfig_round]

theorem patchDPUReconfig_marks (hba : reconfigInProgress base = false)
    (h : next.inProgress = some true) :
    (patchDPUReconfig base next current).inProgress = some true := by
  unfold patchDPUReconfig patchField
  dsimp only
  rw [if_neg, h]
  intro heq
  rw [h] at heq
  cases base with
  | none => simp [cloneReconfig] at heq
  | some b =>
    have hb : b.inProgress = some true := heq.symm
    simp [reconfigInProgress, hb] at hba

theorem patchDPUReconfig_completedRound :
    (patchDPUReconfig base next current).completedRound = completedRound current ∨
      next.completedRound ≠ completedRound base ∧
        (patchDPUReconfig base next current).completedRound = next.completedRound := by
  unfold patchDPUReconfig patchField
  dsimp only
  rw [cloneReconfig_completedRound, cloneReconfig_completedRound]
  split_ifs with h
  · exact .inl rfl
  · exact .inr ⟨h, rfl⟩

end Patch

theorem SiteInv.patch {r : ℕ} {opens : Time → Prop} {n : String} (h : SiteInv r opens n s)
    (hd : s.dpu = some d) {p : PlannedReconfig} {next : DPUReconfigStatus} (hpl : p.Marks r next ∨
      reconfigInProgress (some next) = false ∧
        next.round = reconfigRound p.dpu.status.dpuReconfig ∧
        (s.history.member = true → s.history.progress = .returned)) :
    SiteInv r opens n (s.put { d with
      status := { d.status with
        dpuReconfig :=
          some (patchDPUReconfig p.dpu.status.dpuReconfig next d.status.dpuReconfig) } }) := by
  have hinv := h.dpu d hd
  have hle := hinv.round_le
  have hro : (patchDPUReconfig p.dpu.status.dpuReconfig next d.status.dpuReconfig).round =
      reconfigRound d.status.dpuReconfig ∨
      (patchDPUReconfig p.dpu.status.dpuReconfig next d.status.dpuReconfig).round = r := by
    rcases hpl with hmark | ⟨_, hs, _⟩
    · rcases @patchDPUReconfig_round p.dpu.status.dpuReconfig d.status.dpuReconfig next
        with hr | hr
      · exact .inl hr
      · exact .inr (hr.trans (by rw [hmark.2]))
    · exact .inl (patchDPUReconfig_round_of_same hs)
  have hma : p.Marks r next →
      (patchDPUReconfig p.dpu.status.dpuReconfig next d.status.dpuReconfig).inProgress =
        some true := fun hmark => patchDPUReconfig_marks hmark.1 (by rw [hmark.2])
  refine h.write hd ?_ rfl rfl h.agent.entry fun t ht => ?_
  · refine ⟨?_, hinv.records_le, hinv.alive, hinv.recorded, fun hm hp => ?_, hinv.stale,
      hinv.since, hinv.back, fun hm hr hc => ?_⟩
    · change (patchDPUReconfig _ _ _).round ≤ r
      omega
    · obtain ⟨_, hr, hph⟩ := hinv.moved hm hp
      rcases hpl with hmark | ⟨_, _, hre⟩
      · refine ⟨?_, ?_, hph⟩
        · simp [reconfigInProgress, hma hmark]
        · change (patchDPUReconfig _ _ _).round = r
          omega
      · simp [hre hm] at hp
    · rcases hpl with hmark | ⟨_, _, hre⟩
      · simp [reconfigInProgress, hma hmark] at hc
      · exact hre hm
  · obtain ⟨d', hd', hth⟩ := h.thread t ht
    cases hd.symm.trans hd'
    refine hth.frame (fun h => h) rfl rfl rfl rfl (fun hr => ?_)
      (fun a ha => ⟨a, ha, le_rfl⟩) (fun hm => hm) rfl rfl
    change (patchDPUReconfig _ _ _).round = r
    omega

/-- What a pass planned stays sound while others act. -/
theorem StageInv.frame {p : Pass} (h : StageInv w p) (hs : w'.started = w.started)
    (hk : ∀ n, (w.sites n).Keeps (w'.sites n)) : StageInv w' p := by
  unfold StageInv at h ⊢
  split at h
  · exact h
  · exact h
  · intro q hq next hn
    rcases h q hq next hn with hma | ⟨hp, hro, hr, hd⟩
    · rw [hs]
      exact .inl hma
    · refine .inr ⟨hp, hro, fun hm => ?_, ?_⟩
      · exact (hk _).returned (hr ((hk _).member hm))
      · rwa [hs]
  · trivial

theorem Site.Keeps.refl (s : Site) : s.Keeps s := (Site.keeps_of_same rfl rfl).1

theorem keeps_setSite (h : (w.sites name).Keeps s) (n : String) :
    (w.sites n).Keeps ((w.setSite name s).sites n) := by
  unfold World.setSite
  by_cases hn : n = name
  · subst hn
    simpa using h
  · simpa [hn] using Site.Keeps.refl (w.sites n)

/-- A step at one DPU that keeps its invariant keeps that of the system. -/
theorem Inv.setSite (h : Inv w) (hsi : SiteInv w.started w.Opens name s)
    (hk : (w.sites name).Keeps s) (hkn : s.dpu.isSome = true → (w.sites name).dpu.isSome = true) :
    Inv (w.setSite name s) where
  sites := (forall_update_iff w.sites fun n => SiteInv w.started w.Opens n).mpr
    ⟨hsi, fun n _ => h.sites n⟩
  listed := (forall_update_iff w.sites fun n s => s.dpu.isSome = true → n ∈ w.names).mpr
    ⟨fun hn => h.listed name (hkn hn), fun n _ => h.listed n⟩
  stored := h.stored
  pass p hp := by
    obtain ⟨hb, hs, hst⟩ := h.pass p hp
    exact ⟨hb, hs, hst.frame rfl (keeps_setSite hk)⟩

theorem Inv.mem_getDPUs (h : Inv w) (hd : d ∈ w.getDPUs) : (w.sites d.name).dpu = some d := by
  obtain ⟨n, _, hn⟩ := mem_filterMap.mp hd
  rw [(h.sites n).name d hn]
  exact hn

/-- The plans of a pass are sound: a DPU that is Ready since the round started came back. -/
theorem Inv.planInv (h : Inv w) {p : Pass} (hp : w.pass = some p) {status : DPUSetReconfigStatus}
    (hsta : p.set.dpuReconfig = some status) (ha : status.active = some true) {maxUnavailable : ℤ}
    {total : ℕ} {requested : Bool} {q : PlannedReconfig}
    (hq : q ∈ planInPlace maxUnavailable total status.round (status.startedAt.getD 0) requested
      (sortedDPUs w.getDPUs)) : PlanInv w q := by
  obtain ⟨hmem, hsp⟩ := planInPlace_spec hq
  obtain ⟨hro, hst⟩ := (h.pass p hp).2.1.active status hsta ha
  obtain ⟨start, hst⟩ := isSome_iff_exists.mp hst
  have hdp := h.mem_getDPUs (mem_sortedDPUs.mp hmem)
  have hinv := (h.sites q.dpu.name).dpu q.dpu hdp
  intro next hn
  rcases hsp next hn with hma | ⟨hpr, hs, _, hc⟩
  · rw [hro] at hma
    exact .inl hma
  · refine .inr ⟨hpr, hs, fun hm => ?_, ?_⟩
    · rcases hc with ⟨hou, _⟩ | ⟨_, hr, _⟩
      · rw [(hinv.alive hm).2] at hou
        simp at hou
      · obtain ⟨hph, t, ht, _, hle⟩ := readyAtOrAfter_iff.mp hr
        rw [hst, getD_some] at hle
        have ho : w.Opens (persisted start) :=
          .inr ⟨p, hp, status, hsta, ha, start, hst, rfl⟩
        rcases hinv.since hm _ t ho ht ((persisted_le start).trans hle) with hp | hp
        · have := hinv.back hm hp hph
          rw [ht] at this
          simp at this
        · exact hp
    · rcases hc with ⟨_, hd⟩ | ⟨_, _, hd⟩
      · exact .inl hd
      · exact .inr (hd.trans hro)

theorem Inv.passList (h : Inv w) {maxUnavailable : ℤ} {total : ℕ}
    (he : w.passList maxUnavailable total = some w') : Inv w' := by
  unfold World.passList at he
  split at he
  swap
  · simp at he
  rename_i base set requested hpa
  split at he
  · simp at he
  · rename_i status hst
    cases he
    obtain ⟨-, hs, status', hstatus', ha⟩ := h.pass _ hpa
    cases hst.symm.trans hstatus'
    refine h.movePass hpa hs (fun t ht => ht) fun q hq => ?_
    refine @Inv.planInv w h _ hpa status hst ha maxUnavailable total requested q ?_
    rcases mem_append.mp hq with hq | hq
    · exact mem_of_mem_filter hq
    · exact mem_of_mem_filter hq

theorem Inv.passPatch (h : Inv w) {ok : Bool} (he : w.passPatch ok = some w') : Inv w' := by
  unfold World.passPatch at he
  split at he
  swap
  · simp at he
  rename_i base set requested settled q todo hpa
  obtain ⟨-, hse, hst⟩ := h.pass _ hpa
  have hpl : ∀ q' ∈ q :: todo, PlanInv w q' := hst
  have hsk : ∀ s, Inv { w with pass := some ⟨base, set, .patching requested s todo⟩ } := fun s =>
    h.movePass hpa hse (fun t ht => ht) fun q' hq' => hpl q' (mem_cons_of_mem _ hq')
  dsimp only at he
  split at he
  · cases he
    exact hsk _
  · rename_i next hn
    split_ifs at he
    · cases he
      exact hsk _
    · cases he
      exact h.movePass hpa hse (fun t ht => ht) trivial
    · split at he
      · cases he
        exact hsk _
      · rename_i d hd
        cases he
        have hplan := hpl q mem_cons_self next hn
        have hsi := (h.sites q.dpu.name).patch hd (hplan.imp_right fun hs => ⟨hs.1, hs.2.1, hs.2.2.1⟩)
        -- The patch changes no history, so the plans that remain stay sound.
        have hpat := h.setSite hsi ⟨fun hm => hm, fun hp => hp⟩ fun _ => by simp [hd]
        obtain ⟨_, _, hstage'⟩ := hpat.pass _ hpa
        exact hpat.movePass hpa hse (fun t ht => ht) fun q' hq' =>
          hstage' q' (mem_cons_of_mem _ hq')

/-! ### The rest of the pass, and the other parties -/

/-- Closing a round in memory or on the API server leaves its number, and opens nothing. -/
theorem SetInv.close (h : SetInv started dpuSet) (requested : Bool) (planned : List PlannedReconfig)
    :
    SetInv started (finishInPlaceRound dpuSet requested planned) ∧
      ∀ t, OpenAt (finishInPlaceRound dpuSet requested planned) t → OpenAt dpuSet t := by
  unfold finishInPlaceRound
  split
  · exact ⟨h, fun t ht => ht⟩
  · rename_i status hst
    have hc : ∀ value,
        SetInv started ⟨value, some { status with active := some false }⟩ ∧
          ∀ t, ¬ OpenAt ⟨value, some { status with active := some false }⟩ t := by
      intro value
      have hr : roundOf dpuSet = status.round := by simp [roundOf, hst]
      refine ⟨⟨?_, ?_, ?_⟩, ?_⟩
      · exact (hr ▸ h.le : status.round ≤ started)
      · exact (hr ▸ h.ge : started ≤ status.round + 1)
      · intro s hs ha
        cases hs
        simp at ha
      · rintro t ⟨s, hs, ha, _⟩
        cases hs
        simp at ha
    split_ifs
    · exact ⟨(hc _).1, fun t ht => absurd ht ((hc _).2 t)⟩
    · exact ⟨h, fun t ht => ht⟩
    · exact ⟨(hc _).1, fun t ht => absurd ht ((hc _).2 t)⟩
    · exact ⟨h, fun t ht => ht⟩

theorem SetInv.store (h : SetInv started dpuSet) (value : Option String) :
    SetInv started ⟨value, dpuSet.dpuReconfig.map DPUSetReconfigStatus.stored⟩ ∧
      ∀ t, OpenAt ⟨value, dpuSet.dpuReconfig.map DPUSetReconfigStatus.stored⟩ t →
        OpenAt dpuSet t := by
  obtain ⟨hle, hge, hac⟩ := h
  unfold roundOf at hle hge
  cases hsta : dpuSet.dpuReconfig with
  | none =>
    rw [hsta] at hle hge
    exact ⟨⟨hle, hge, by simp⟩, by rintro t ⟨s, hs, _⟩; simp at hs⟩
  | some status =>
    rw [hsta] at hle hge
    refine ⟨⟨hle, hge, ?_⟩, ?_⟩
    · intro s hs ha
      cases hs
      obtain ⟨hr, hst⟩ := hac status hsta ha
      exact ⟨hr, by simpa [DPUSetReconfigStatus.stored] using hst⟩
    · rintro t ⟨s, hs, ha, u, hu, rfl⟩
      cases hs
      obtain ⟨v, hv, rfl⟩ := map_eq_some_iff.mp hu
      exact ⟨status, hsta, ha, v, hv, persisted_persisted v⟩

theorem Inv.passPersist (h : Inv w) {object status : Bool}
    (he : w.passPersist object status = some w') : Inv w' := by
  unfold World.passPersist at he
  split at he
  · rename_i base set hpa
    obtain ⟨hb, hse, _⟩ := h.pass _ hpa
    cases he
    have hst := hse.store (if object = true then
      patchField base.annotationValue set.annotationValue w.dpuSet.annotationValue
      else w.dpuSet.annotationValue)
    by_cases hs : set.dpuReconfig = base.dpuReconfig ∨ status = false
    · rw [if_pos hs]
      refine h.setPass rfl rfl rfl ?_ (h.stored.congr rfl) (by simp)
      rintro t (ht | ⟨p, hp, _⟩)
      · exact .inl ht
      · simp at hp
    · rw [if_neg hs]
      refine h.setPass rfl rfl rfl ?_ hst.1 (by simp)
      rintro t (ht | ⟨p, hp, _⟩)
      · exact .inr ⟨_, hpa, hst.2 t ht⟩
      · simp at hp
  · simp at he

theorem Inv.create (h : Inv w) (he : w.exec (.create name) = some w') : Inv w' := by
  simp only [World.exec] at he
  split at he
  · simp at he
  · cases he
    have hsi : SiteInv w.started w.Opens name { (w.sites name).leaveRound with
        dpu := some (newDPU name w.clock), thread := none, agent := none } := by
      refine ⟨fun d hd => ?_, fun d hd => ?_, by simp,
        ⟨(h.sites name).agent.entry, by simp, by simp, by simp, fun d st hd hst => ?_⟩⟩
      · cases hd
        rfl
      · cases hd
        refine ⟨Nat.zero_le _, ?_, ?_, ?_, ?_, ?_, ?_, ?_, ?_⟩
        · rintro k (hk | hk) <;>
            simp [newDPU, inPlaceRoundInFlight, inPlaceAlreadyReturned] at hk
        all_goals
          intro hm
          simp [Site.leaveRound] at hm
      · cases hd
        simp [newDPU] at hst
    refine ⟨?_, ?_, h.stored, fun p hp => ?_⟩
    · exact (forall_update_iff w.sites fun n => SiteInv w.started w.Opens n).mpr
        ⟨hsi, fun n _ => h.sites n⟩
    · exact (forall_update_iff w.sites fun n s =>
        s.dpu.isSome = true → n ∈ name :: w.names).mpr
        ⟨fun _ => mem_cons_self, fun n _ hn => mem_cons_of_mem _ (h.listed n hn)⟩
    · obtain ⟨hb, hs, hstg⟩ := h.pass p hp
      refine ⟨hb, hs, hstg.frame rfl (keeps_setSite ⟨?_, fun hp => hp⟩)⟩
      simp [Site.leaveRound]

theorem Inv.outdated (h : Inv w) {value : Bool} (he : w.exec (.outdated name value) = some w') :
    Inv w' := by
  simp only [World.exec] at he
  split at he
  swap
  · simp at he
  rename_i d _ hd
  cases he
  have hs := h.sites name
  have hinv := hs.dpu d hd
  cases value with
  | true =>
    refine h.setSite ?_ ⟨by simp [Site.leaveRound], fun hp => hp⟩ fun _ => by simp [hd]
    refine hs.write hd (hinv.leave rfl rfl rfl) rfl rfl hs.agent.entry fun t ht => ?_
    obtain ⟨d', hd', hth⟩ := hs.thread t ht
    cases hd.symm.trans hd'
    exact hth.frame (fun h => h) rfl rfl rfl rfl (fun hr => hr)
      (fun a ha => ⟨a, ha, le_rfl⟩) (by simp) rfl rfl
  | false =>
    refine h.setSite ?_ ⟨fun hm => hm, fun hp => hp⟩ fun _ => by simp [hd]
    refine hs.write hd ⟨hinv.round_le, hinv.records_le, fun hm => ⟨(hinv.alive hm).1, rfl⟩,
      hinv.recorded, hinv.moved, hinv.stale, hinv.since, hinv.back, hinv.cleared⟩ rfl rfl
      hs.agent.entry fun t ht => ?_
    obtain ⟨d', hd', hth⟩ := hs.thread t ht
    cases hd.symm.trans hd'
    exact hth.frame (fun h => h) rfl rfl rfl rfl (fun hr => hr)
      (fun a ha => ⟨a, ha, le_rfl⟩) (fun hm => hm) rfl rfl

theorem Inv.step {e : Event} (h : Inv w) (hok : w.allowed e = true) (he : w.exec e = some w') :
    Inv w' := by
  cases e with simp only [World.exec] at he
  | tick elapsed =>
    cases he
    exact ⟨h.sites, h.listed, h.stored, h.pass⟩
  | annotate value =>
    cases he
    exact h.setPass rfl rfl rfl (fun t ht => ht) (h.stored.congr rfl) h.pass
  | create name => exact h.create he
  | site name e =>
    obtain ⟨s, hs, rfl⟩ := map_eq_some_iff.mp he
    obtain ⟨hk, hsa⟩ := Site.exec_keeps hs
    exact h.setSite ((h.sites name).exec (fun t ht => roundOpen_of_opens ht) hok hs) hk
      hsa.known
  | outdated name value => exact h.outdated he
  | passBegin =>
    split at he
    · cases he
      refine h.setPass rfl rfl rfl ?_ h.stored fun p hp => ?_
      · rintro t (ht | ⟨p, hp, ht⟩)
        · exact .inl ht
        · cases hp
          exact .inl ht
      · cases hp
        exact ⟨rfl, h.stored, rfl⟩
    · simp at he
  | passOpen => exact h.passOpen hok he
  | passList maxUnavailable total => exact h.passList he
  | passListFails =>
    split at he
    · rename_i base set requested hpa
      cases he
      exact h.movePass hpa (h.pass _ hpa).2.1 (fun t ht => ht) trivial
    · simp at he
  | passPatch ok => exact h.passPatch he
  | passClose =>
    split at he
    · rename_i base set requested settled hpa
      cases he
      obtain ⟨hc, ho⟩ := (h.pass _ hpa).2.1.close requested settled
      exact h.movePass hpa hc ho trivial
    · simp at he
  | passPersist object status => exact h.passPersist he
  | passStop =>
    cases he
    refine h.setPass rfl rfl rfl ?_ h.stored (by simp)
    rintro t (ht | ⟨p, hp, _⟩)
    · exact .inl ht
    · simp at hp

theorem Init.inv (h : Init w) : Inv w := by
  have ho : ∀ t, ¬ w.Opens t := by
    rintro t (⟨s, hs, _⟩ | ⟨p, hp, _⟩)
    · simp [h.dpuSet] at hs
    · simp [h.pass] at hp
  refine ⟨fun n => ?_, fun n hn => ?_, ⟨?_, ?_, ?_⟩, ?_⟩
  · obtain ⟨ht, ha, hmem, he⟩ := h.sites n
    refine ⟨fun d hd => (h.dpus n d hd).2.1, fun d hd => ?_, by simp [ht],
      ⟨he, by simp [ha], by simp [ha], by simp [ha], fun d st hd hst => ?_⟩⟩
    · obtain ⟨_, _, hre, hr, _⟩ := h.dpus n d hd
      refine ⟨by simp [hre, reconfigRound], ?_, ?_, ?_, ?_, ?_, ?_, ?_, ?_⟩
      · rintro k (hk | hk) <;> simp [hr, inPlaceRoundInFlight, inPlaceAlreadyReturned] at hk
      all_goals
        intro hm
        simp [hmem] at hm
    · exact ⟨(h.dpus n d hd).2.2.2.2 st hst, by simp [ha]⟩
  · obtain ⟨d, hd⟩ := isSome_iff_exists.mp hn
    exact (h.dpus n d hd).1
  · simp [roundOf, h.dpuSet]
  · simp [h.started]
  · simp [h.dpuSet]
  · simp [h.pass]

/-! ## Completion is sound -/

/-- A DPU that was there keeps what is written about rounds. -/
def Site.SameRounds (s s' : Site) : Prop :=
  ∀ d d', s.dpu = some d → s'.dpu = some d' → d'.status.dpuReconfig = d.status.dpuReconfig

theorem Site.SameRounds.of_dpu {s' : Site} (h : s'.dpu = s.dpu) : s.SameRounds s' := by
  intro d d' hd hd'
  cases hd.symm.trans (h ▸ hd')
  rfl

theorem sameRounds_setSite (h : (w.sites name).SameRounds s) (n : String) :
    (w.sites n).SameRounds ((w.setSite name s).sites n) :=
  (forall_update_iff w.sites fun n => (w.sites n).SameRounds).mpr
    ⟨h, fun _ _ => .of_dpu rfl⟩ n

/-- About rounds, a DPU is written to only by the patch of a plan, and the DPUSet only at the end
of a pass. -/
theorem exec_sameRounds {e : Event} (he : w.exec e = some w') (hpa : ∀ ok, e ≠ .passPatch ok) :
    ((∀ object status, e ≠ .passPersist object status) →
      w'.dpuSet.dpuReconfig = w.dpuSet.dpuReconfig) ∧
      ∀ n, (w.sites n).SameRounds (w'.sites n) := by
  cases e with simp only [World.exec] at he
  | tick elapsed | annotate value | passStop =>
    cases he
    exact ⟨fun _ => rfl, fun n => .of_dpu rfl⟩
  | create name =>
    split at he
    · simp at he
    · rename_i hno
      cases he
      exact ⟨fun _ => rfl, sameRounds_setSite fun d d' hd _ => by simp [hno] at hd⟩
  | site name e =>
    obtain ⟨s, hs, rfl⟩ := map_eq_some_iff.mp he
    exact ⟨fun _ => rfl, sameRounds_setSite fun d d' hd hd' =>
      ((Site.exec_keeps hs).2.same d d' hd hd').reconfig⟩
  | outdated name value =>
    split at he
    · rename_i d _ hd
      cases he
      refine ⟨fun _ => rfl, sameRounds_setSite fun y y' hy hy' => ?_⟩
      cases hd.symm.trans hy
      cases value <;> cases hy' <;> rfl
    · simp at he
  | passBegin | passListFails | passClose =>
    split at he
    · cases he
      exact ⟨fun _ => rfl, fun n => .of_dpu rfl⟩
    · simp at he
  | passOpen =>
    simp only [World.passOpen] at he
    split at he
    · split_ifs at he <;> cases he <;> exact ⟨fun _ => rfl, fun n => .of_dpu rfl⟩
    · simp at he
  | passList maxUnavailable total =>
    simp only [World.passList] at he
    split at he
    · split at he
      · simp at he
      · cases he
        exact ⟨fun _ => rfl, fun n => .of_dpu rfl⟩
    · simp at he
  | passPatch ok => exact absurd rfl (hpa ok)
  | passPersist object status =>
    simp only [World.passPersist] at he
    split at he
    · cases he
      exact ⟨fun hpe => absurd rfl (hpe object status), fun n => .of_dpu rfl⟩
    · simp at he

/-- Only the patch of a plan changes `completedRound`, to the latest round, and of a member of the
round only once it came back. -/
theorem Inv.completes {e : Event} {n : String} {d' : DPU} (h : Inv w) (he : w.exec e = some w')
    (hd : (w.sites n).dpu = some d) (hd' : (w'.sites n).dpu = some d')
    (hne : completedRound d'.status.dpuReconfig ≠ completedRound d.status.dpuReconfig) :
    completedRound d'.status.dpuReconfig = w.started ∧
      ((w.sites n).history.member = true → (w.sites n).history.progress = .returned) := by
  have hk : ¬ (w.sites n).SameRounds (w'.sites n) := fun hs => hne (by rw [hs d d' hd hd'])
  by_cases hpa : ∃ ok, e = .passPatch ok
  swap
  · exact absurd ((exec_sameRounds he (not_exists.mp hpa)).2 n) hk
  obtain ⟨ok, rfl⟩ := hpa
  simp only [World.exec, World.passPatch] at he
  split at he
  swap
  · simp at he
  rename_i base set requested settled q todo hp
  obtain ⟨_, _, hst⟩ := h.pass _ hp
  split at he
  · cases he
    exact absurd (.of_dpu rfl) hk
  · rename_i next hnext
    split_ifs at he
    · cases he
      exact absurd (.of_dpu rfl) hk
    · cases he
      exact absurd (.of_dpu rfl) hk
    · split at he
      · cases he
        exact absurd (.of_dpu rfl) hk
      · rename_i x hx
        cases he
        change (update w.sites _ _ _).dpu = some d' at hd'
        by_cases hn : n = q.dpu.name
        swap
        · rw [update_of_ne hn] at hd'
          cases hd.symm.trans hd'
          exact absurd rfl hne
        subst hn
        cases hd.symm.trans hx
        rw [update_self] at hd'
        cases hd'
        -- A mark leaves `completedRound`, so the plan settles its DPU.
        have hpl := hst q mem_cons_self next hnext
        rcases @patchDPUReconfig_completedRound q.dpu.status.dpuReconfig d.status.dpuReconfig next
          with hsa | ⟨hc, hnew⟩
        · exact absurd hsa hne
        · rcases hpl with hm | ⟨_, _, hr, hdo⟩
          · refine absurd ?_ hc
            rw [hm.2]
            exact cloneReconfig_completedRound _
          · exact ⟨hnew.trans (hdo.resolve_left hc), hr⟩

/-- In a run of allowed steps, `completedRound` is written as the latest round, and for a DPU that
was Ready when this round started, and was neither deleted nor outdated since, only after it was
moved to Node Effect for the round, left DPU Config on a reboot method of an agent run that started
after it entered, and came back to Ready. -/
theorem completedRound_written_after_return {w w' : World} {e : Event} {n : String} {d d' : DPU}
    (h : Reachable Init (Restrict (fun w e => w.allowed e = true) Step) w) (hstep : Step w e w')
    (hd : (w.sites n).dpu = some d) (hd' : (w'.sites n).dpu = some d')
    (hwritten : completedRound d'.status.dpuReconfig ≠ completedRound d.status.dpuReconfig) :
    completedRound d'.status.dpuReconfig = w.started ∧
      ((w.sites n).history.member = true → (w.sites n).history.progress = .returned) := by
  have hinv : Inv w := Reachable.invariant (P := Inv) (fun _ hs => hs.inv)
    (fun _ _ _ _ hs ht => hs.step ht.1 ht.2) h
  exact hinv.completes hstep hd hd' hwritten

/-! ### Runs -/

def seconds (n : ℕ) : Time := n * 1000000000

def readyDPU : DPU :=
  { name := "dpu-a"
    resourceVersion := 7
    creationTimestamp := seconds 10
    deleting := false
    status :=
      { phase := .ready
        previousPhase := some .nodeEffectRemoval
        ready := some ⟨.isTrue, "DPUReady", "", seconds 100⟩
        reconfiguring := none
        failed := false
        postProvisioningDPUConfig := none
        postProvisioningNodeEffect := none
        agentLastStartupTime := some (seconds 50)
        agentStatus := some ⟨"v1", some (seconds 50), some .noAction, none, 0⟩
        outdated := false
        dpuReconfig := none } }

/-- The annotation is set on a DPUSet with this one DPU. -/
def requestedWorld : World :=
  { clock := seconds 200
    dpuSet := ⟨some inPlaceReconfigTrue, none⟩
    pass := none
    started := 0
    names := ["dpu-a"]
    sites := fun n =>
      { dpu := if n = "dpu-a" then some readyDPU else none
        thread := none
        agent := none
        runs := 1
        history := ⟨false, .waiting, 0⟩ } }

theorem requestedWorld_init : Init requestedWorld := by
  refine ⟨rfl, rfl, rfl, fun n d hd => ?_, fun n => ⟨rfl, rfl, rfl, Nat.zero_le _⟩⟩
  change (if n = "dpu-a" then some readyDPU else none) = some d at hd
  split_ifs at hd with hn
  cases hd
  refine ⟨by simp [hn, requestedWorld], hn.symm, rfl, rfl, fun a ha => ?_⟩
  cases ha
  exact Nat.zero_lt_one

/-- Everything that a reconcile waits for is there. -/
def settledSurroundings : Surroundings :=
  { now := 0, zeroTrust := false, effectApplied := true, node := .ok true
    metadataDiffers := false, applyOnLabelChange := false, reboot := .pending
    hostNetworkReady := true, clusterConfigured := true, servicesReady := true
    maintenanceGone := true, removalTimedOut := false, installed := .ready }

/-- A reconcile of the DPU that does not jump. -/
def reconcileEvents (env : Surroundings) : List Event :=
  [.site "dpu-a" .read, .site "dpu-a" (.handle env), .site "dpu-a" (.writeConditions true),
    .site "dpu-a" (.writeStatus true)]

/-- A second device has no DPU, so the first pass has no slot for the Ready DPU. Its node is then
NotReady for a moment, and the next pass plans. -/
def flappingNode : List Event :=
  [.passBegin, .passOpen, .passList 1 2, .passClose, .passPersist true true] ++
    reconcileEvents { settledSurroundings with node := .ok false } ++
    [.tick (seconds 1)] ++ reconcileEvents settledSurroundings ++
    [.passBegin, .passOpen, .passList 1 2]

/-- What matters about the DPU: its completed round, and its history. -/
def outcome (w : World) : Option (ℕ × Bool × Progress) :=
  (w.sites "dpu-a").dpu.map fun d =>
    (completedRound d.status.dpuReconfig, (w.sites "dpu-a").history.member,
      (w.sites "dpu-a").history.progress)

theorem outcome_eq {completed : ℕ} {member : Bool} {progress : Progress}
    (h : outcome w = some (completed, member, progress)) :
    ∃ d, (w.sites "dpu-a").dpu = some d ∧ completedRound d.status.dpuReconfig = completed ∧
      (w.sites "dpu-a").history.member = member ∧
      (w.sites "dpu-a").history.progress = progress := by
  obtain ⟨d, hd, heq⟩ := map_eq_some_iff.mp h
  simp only [Prod.mk.injEq] at heq
  exact ⟨d, hd, heq⟩

/-- A step of a list of events that `runIf` follows to its end. -/
theorem exists_last_step {ok : World → Event → Bool} {w : World} {events : List Event} {e : Event}
    {before after : ℕ × Bool × Progress} (hi : Init w)
    (hb : (runIf ok World.exec w events).bind outcome = some before)
    (ha : ((runIf ok World.exec w events).bind (World.exec · e)).bind outcome = some after) :
    ∃ u v, Reachable Init (Restrict (fun w e => ok w e = true) Step) u ∧ Step u e v ∧
      outcome u = some before ∧ outcome v = some after := by
  obtain ⟨u, hu, hb⟩ := bind_eq_some_iff.mp hb
  rw [hu, bind_some] at ha
  obtain ⟨v, hv, ha⟩ := bind_eq_some_iff.mp ha
  exact ⟨u, v, Reachable.of_runIf (.start hi) hu, hv, hb, ha⟩

/-- A DPU that was Ready when the round started, and only had its node flap, is recorded as
complete: it was never moved to Node Effect. -/
theorem flapping_node_completes_round :
    ∃ w w' e d d', Reachable Init Step w ∧ Step w e w' ∧ (w.sites "dpu-a").dpu = some d ∧
      (w'.sites "dpu-a").dpu = some d' ∧ completedRound d.status.dpuReconfig = 0 ∧
      completedRound d'.status.dpuReconfig = 1 ∧ (w.sites "dpu-a").history.member = true ∧
      (w.sites "dpu-a").history.progress = .waiting := by
  obtain ⟨u, v, hr, hs, hu, hv⟩ :=
    @exists_last_step (fun _ _ => true) requestedWorld flappingNode (.passPatch true)
      (0, true, .waiting) (1, true, .waiting) requestedWorld_init (by decide +kernel)
      (by decide +kernel)
  obtain ⟨d, hd, hz, hmem, hw⟩ := outcome_eq hu
  obtain ⟨d', hd', ho, _, _⟩ := outcome_eq hv
  exact ⟨u, v, _, d, d', hr.of_restrict, hs, hd, hd', hz, ho, hmem, hw⟩

/-- A whole round: the DPU is marked, jumps to Node Effect and goes to DPU Config, a new agent run
reports that no reboot is needed, and six more reconciles bring the DPU back. -/
def wholeRound : List Event :=
  [.passBegin, .passOpen, .passList 1 1, .passPatch true, .passClose, .passPersist true true,
    .site "dpu-a" .read, .site "dpu-a" (.handle settledSurroundings),
    .site "dpu-a" (.writeJump true)] ++
  reconcileEvents settledSurroundings ++
  [.site "dpu-a" (.agentStart "v1"), .site "dpu-a" (.agentStartup (seconds 210)),
    .site "dpu-a" .agentPush, .site "dpu-a" (.agentMethod (some .noAction)),
    .site "dpu-a" .agentPush] ++
  (List.replicate 6 (reconcileEvents settledSurroundings)).flatten ++
  [.passBegin, .passOpen, .passList 1 1]

theorem completedRound_written_after_whole_round :
    ∃ w w' d d', Reachable Init (Restrict (fun w e => w.allowed e = true) Step) w ∧
      Step w (.passPatch true) w' ∧ (w.sites "dpu-a").dpu = some d ∧
      (w'.sites "dpu-a").dpu = some d' ∧ (w.sites "dpu-a").history.member = true ∧
      completedRound d.status.dpuReconfig = 0 ∧
      completedRound d'.status.dpuReconfig = w.started ∧
      (w.sites "dpu-a").history.progress = .returned := by
  obtain ⟨u, v, hr, hst, hu, hv⟩ :=
    @exists_last_step World.allowed requestedWorld wholeRound (.passPatch true)
      (0, true, .returned) (1, true, .returned) requestedWorld_init (by decide +kernel)
      (by decide +kernel)
  obtain ⟨d, hd, hz, hmem, _⟩ := outcome_eq hu
  obtain ⟨d', hd', ho, _, _⟩ := outcome_eq hv
  have hs := completedRound_written_after_return hr hst hd hd' (by omega)
  exact ⟨u, v, d, d', hr, hst, hd, hd', hmem, hz, hs.1, hs.2 hmem⟩

end DocaPlatform.InPlaceRounds
