import DocaPlatform.InPlaceCompletion

/-!
# One jump per round

A DPU object, the reconciles of the DPU controller and marks of a DPUSet that may come in any phase.
A jump is one write that is conditional on the resource version; any other reconcile writes the
conditions and the rest of the status apart, and either write may fail. While a DPU stays in
progress with the same round, it jumps at most once, and once it has come back it stays in Ready.
-/
namespace DocaPlatform.InPlaceRounds

open InPlaceReconfig DpuPhases Runs Option Site

/-! ## The graph of phases -/

/-- The phases in which the handler of a phase can leave a DPU. -/
def successors : Phase → List Phase
  | .nodeEffect => [.nodeEffect, .deleting, .dpuConfig, .clusterConfig, .initializeInterface]
  | .dpuConfig => [.dpuConfig, .deleting, .clusterConfig, .hostNetworkConfiguration, .rebooting]
  | .rebooting => [.rebooting, .deleting, .error, .clusterConfig, .hostNetworkConfiguration,
      .initializeInterface, .osInstalling, .dpuConfig]
  | .hostNetworkConfiguration => [.hostNetworkConfiguration, .deleting, .clusterConfig]
  | .clusterConfig => [.clusterConfig, .deleting, .serviceReadiness]
  | .serviceReadiness => [.serviceReadiness, .deleting, .nodeEffectRemoval]
  | .nodeEffectRemoval => [.nodeEffectRemoval, .deleting, .clusterConfig, .ready, .error]
  | .ready => [.ready, .deleting, .nodeEffect, .clusterConfig]
  | .error => [.error, .deleting]
  | .deleting => [.deleting]
  | p => p :: .deleting :: installSuccessors p

variable {dpu : DPU} {env : Surroundings} {next : DPUStatus}

theorem nodeEffect_phase (env : Surroundings) (h : dpu.status.phase = .nodeEffect) :
    (nodeEffect env dpu).phase ∈ successors .nodeEffect := by
  unfold nodeEffect handleNodeEffectCompletion markReconfiguring armInPlaceNodeEffect
  dsimp only
  split_ifs <;> simp [successors, h]

theorem dpuConfig_phase (env : Surroundings) (h : dpu.status.phase = .dpuConfig) :
    (dpuConfig env dpu).phase ∈ successors .dpuConfig := by
  cases hd : dpu.deleting with
  | true => simp [dpuConfig, hd, successors]
  | false =>
    rcases @dpuConfig_spec env dpu h hd with ⟨hph, -⟩ | ⟨-, -, -, hmem⟩
    · simp [hph, successors]
    · simp only [successors, List.mem_cons, List.not_mem_nil, or_false] at hmem ⊢
      tauto

theorem rebooting_phase (env : Surroundings) (h : dpu.status.phase = .rebooting) :
    (rebooting env dpu).phase ∈ successors .rebooting := by
  unfold rebooting
  dsimp only
  split
  · simp [successors]
  · split
    · simp [successors, h]
    · simp [successors]
    · split_ifs <;> simp [successors]
    · split_ifs <;> simp [successors]

theorem advance_phase {p : Phase} (h : dpu.status.phase = p) (arrived : Bool) (next : Phase) :
    (advance dpu arrived next).phase ∈ [p, .deleting, next] := by
  unfold advance
  split_ifs <;> simp [h]

theorem nodeEffectRemoval_phase (env : Surroundings) (h : dpu.status.phase = .nodeEffectRemoval) :
    (nodeEffectRemoval env dpu).phase ∈ successors .nodeEffectRemoval := by
  unfold nodeEffectRemoval
  split_ifs <;> simp [successors, h]

theorem endReconfiguring_frame (now : Time) (s : DPUStatus) :
    (endReconfiguring now s).phase = s.phase ∧
      (endReconfiguring now s).dpuReconfig = s.dpuReconfig := by
  unfold endReconfiguring
  cases s.reconfiguring with
  | none => exact ⟨rfl, rfl⟩
  | some c =>
    dsimp only
    split_ifs <;> exact ⟨rfl, rfl⟩

/-- `Ready` leaves the phase of a DPU that is in progress alone. -/
theorem ready_phase (env : Surroundings) (h : dpu.status.phase = .ready) :
    (ready env dpu).phase ∈ successors .ready ∧
      (reconfigInProgress dpu.status.dpuReconfig = true →
        (ready env dpu).phase = .ready ∨ (ready env dpu).phase = .deleting) := by
  obtain ⟨hph, hr⟩ := endReconfiguring_frame env.now dpu.status
  unfold ready
  split_ifs with hd
  · simp [successors]
  · dsimp only
    split
    · simp [updateFalseDPUCondReady, hph, h, successors]
    · simp [updateFalseDPUCondReady, hph, h, successors]
    · simp [updateFalseDPUCondReady, hph, h, successors]
    · rw [hr]
      split_ifs with hp
      · simp [hph, h, successors]
      · refine ⟨?_, fun hc => absurd hc hp⟩
        unfold reconcileReadyClusterMetadata
        split_ifs <;> simp [updateFalseDPUCondReady, hph, h, successors]

theorem install_phase (env : Surroundings) {p : Phase} (h : dpu.status.phase = p) :
    (install env dpu).phase ∈ p :: .deleting :: installSuccessors p := by
  subst h
  unfold install
  split_ifs with hd hn
  · simp
  · simp [hn]
  · simp

theorem handler_phase (env : Surroundings) (dpu : DPU) :
    (handler env dpu).phase ∈ successors dpu.status.phase := by
  unfold handler
  cases hph : dpu.status.phase with
  | nodeEffect => exact nodeEffect_phase env hph
  | dpuConfig => exact dpuConfig_phase env hph
  | rebooting => exact rebooting_phase env hph
  | hostNetworkConfiguration => exact advance_phase hph _ _
  | clusterConfig => exact advance_phase hph _ _
  | serviceReadiness => exact advance_phase hph _ _
  | nodeEffectRemoval => exact nodeEffectRemoval_phase env hph
  | ready => exact (ready_phase env hph).1
  | error =>
    unfold error
    split_ifs <;> simp [successors, hph]
  | deleting => simp [successors, hph]
  | _ => exact install_phase env hph

/-! ## What a reconcile does to a round -/

/-- A reconcile that does not jump follows the graph of phases, or ends in Error. -/
theorem reconcile_phase (h : reconcile env dpu = (next, false)) :
    startInPlaceReconfig env.now dpu = none ∧
      (next.phase = (handler env dpu).phase ∨ next.phase = .error) ∧
      next.reconfiguring = (handler env dpu).reconfiguring := by
  unfold reconcile at h
  cases hst : startInPlaceReconfig env.now dpu with
  | some jumped => simp [hst] at h
  | none =>
    simp only [hst, Prod.mk.injEq, and_true] at h
    obtain ⟨hk, -, hph⟩ := decided_eq dpu (handler env dpu)
    rw [h] at hk hph
    exact ⟨rfl, hph, hk.2⟩

/-- A reconcile makes a DPU Ready only after the removal of the node effect, or before anything
was installed. -/
theorem reconcile_ready (h : reconcile env dpu = (next, false)) (hn : next.phase = .ready) :
    dpu.status.phase = .ready ∨ dpu.status.phase = .initializing ∨
      dpu.status.phase = .nodeEffectRemoval ∧ dpu.deleting = false := by
  obtain ⟨-, hph, -⟩ := reconcile_phase h
  have hr : (handler env dpu).phase = .ready := by
    rcases hph with heq | he
    · exact heq.symm.trans hn
    · rw [hn] at he
      cases he
  have hmem := handler_phase env dpu
  rw [hr] at hmem
  cases hb : dpu.status.phase <;> rw [hb] at hmem <;>
    simp [successors, installSuccessors] at hmem ⊢
  by_contra hd
  have hde : dpu.deleting = true := by simpa using hd
  simp [handler, hb, nodeEffectRemoval, hde] at hr

theorem reconcile_initializing (h : reconcile env dpu = (next, false))
    (hn : next.phase = .initializing) : dpu.status.phase = .initializing := by
  obtain ⟨-, hph, -⟩ := reconcile_phase h
  rcases hph with heq | he
  · have hmem := handler_phase env dpu
    rw [← heq, hn] at hmem
    cases hb : dpu.status.phase <;> rw [hb] at hmem <;>
      simp [successors, installSuccessors] at hmem ⊢
  · rw [hn] at he
    cases he

/-- A DPU that is in progress leaves Ready neither for Node Effect nor for Cluster Config. -/
theorem reconcile_stays (h : reconcile env dpu = (next, false)) (hph : dpu.status.phase = .ready)
    (hp : reconfigInProgress dpu.status.dpuReconfig = true) :
    next.phase ≠ .nodeEffect ∧ next.phase ≠ .clusterConfig := by
  obtain ⟨-, hn, -⟩ := reconcile_phase h
  have hh : handler env dpu = ready env dpu := by simp [handler, hph]
  rw [hh] at hn
  rcases hn with heq | he
  · rcases (ready_phase env hph).2 hp with hr | hd
    · rw [heq, hr]
      decide
    · rw [heq, hd]
      decide
  · rw [he]
    decide

theorem nodeEffect_records (hd : dpu.deleting = false)
    (hp : reconfigInProgress dpu.status.dpuReconfig = true) :
    Records (nodeEffect env dpu) (reconfigRound dpu.status.dpuReconfig) := by
  unfold nodeEffect
  rw [if_neg (by simp [hd]), if_pos hp]
  dsimp only
  split_ifs
  · rw [records_congr (handleNodeEffectCompletion_keeps _).2]
    exact records_markReconfiguring.mpr rfl
  · exact records_markReconfiguring.mpr rfl

variable {now : Time}

theorem endReconfiguring_records {s : DPUStatus} (h : Records s (reconfigRound s.dpuReconfig)) :
    Records (endReconfiguring now s) (reconfigRound s.dpuReconfig) := by
  unfold endReconfiguring
  cases hc : s.reconfiguring with
  | none => exact h
  | some c =>
    dsimp only
    split_ifs with ht
    · right
      simp [inPlaceAlreadyReturned, setDPUCondition]
    · exact h

theorem ready_reconfiguring (env : Surroundings) (dpu : DPU) :
    (ready env dpu).reconfiguring = dpu.status.reconfiguring ∨
      (ready env dpu).reconfiguring = (endReconfiguring env.now dpu.status).reconfiguring := by
  unfold ready
  split_ifs
  · exact .inl rfl
  · right
    dsimp only
    split
    · rfl
    · rfl
    · rfl
    · split_ifs
      · rfl
      · exact (reconcileReadyClusterMetadata_spec env _).1

/-- A recorded round stays recorded while the DPU is in progress with it. -/
theorem reconcile_records (h : reconcile env dpu = (next, false))
    (hp : reconfigInProgress dpu.status.dpuReconfig = true)
    (hre : Records dpu.status (reconfigRound dpu.status.dpuReconfig)) :
    Records next (reconfigRound dpu.status.dpuReconfig) := by
  obtain ⟨-, -, hc⟩ := reconcile_phase h
  rw [records_congr hc]
  by_cases hne : dpu.status.phase = .nodeEffect
  · have hh : handler env dpu = nodeEffect env dpu := by simp [handler, hne]
    rw [hh]
    cases hd : dpu.deleting with
    | true =>
      unfold nodeEffect
      rw [if_pos hd]
      exact hre
    | false => exact nodeEffect_records hd hp
  · by_cases hr : dpu.status.phase = .ready
    · have hh : handler env dpu = ready env dpu := by simp [handler, hr]
      rw [hh]
      rcases ready_reconfiguring env dpu with hs | he
      · exact (records_congr hs _).mpr hre
      · exact (records_congr he _).mpr (endReconfiguring_records hre)
    · exact (records_congr (handler_keeps hne hr).2 _).mpr hre

theorem not_records_of_jump (h : reconcile env dpu = (next, true)) :
    ¬ Records dpu.status (reconfigRound dpu.status.dpuReconfig) := by
  unfold reconcile at h
  cases hst : startInPlaceReconfig env.now dpu with
  | none => simp [hst] at h
  | some jumped =>
    unfold startInPlaceReconfig at hst
    dsimp only at hst
    split_ifs at hst with hs hph hd
    rw [Bool.or_eq_true] at hd
    exact fun hr => hd hr.symm

theorem records_stored {s t : DPUStatus} (h : t.reconfiguring = s.reconfiguring.map Condition.stored)
    (k : ℕ) : Records t k ↔ Records s k := by
  unfold Records inPlaceRoundInFlight inPlaceAlreadyReturned
  rw [h]
  cases s.reconfiguring with
  | none => rfl
  | some c => rfl

/-- A DPU with its parties, and what happened to it since it is in progress with its round. -/
structure Watched where
  site : Site
  jumps : ℕ
  /-- It was in Node Effect. -/
  away : Bool
  /-- It was in Node Effect and in Ready after that. -/
  back : Bool

inductive WatchEvent where
  | site (started : ℕ) (now : Time) (e : SiteEvent)
  /-- A write of `dpuReconfig`, such as a mark. -/
  | mark (reconfig : Option DPUReconfigStatus)
  | outdated (value : Bool)
  | create (name : String) (now : Time)

def Site.isIn (s : Site) (phase : Phase) : Bool := s.dpu.any fun d => d.status.phase == phase

def Site.inProgress (s : Site) : Bool := s.dpu.any fun d => reconfigInProgress d.status.dpuReconfig

def Site.round (s : Site) : ℕ := (s.dpu.map fun d => reconfigRound d.status.dpuReconfig).getD 0

def Site.jumps (s : Site) : SiteEvent → Bool
  | .writeJump ok =>
    match s.thread, s.dpu with
    | some (.decided base _ true), some d => ok && d.resourceVersion == base.resourceVersion
    | _, _ => false
  | _ => false

/-- The watched DPU after a step: another round, or a DPU that is no longer in progress, starts
afresh. -/
def Watched.observe (w : Watched) (s : Site) (jump : Bool) : Watched :=
  let stays := w.site.inProgress && s.inProgress && w.site.round == s.round
  let away := (stays && w.away) || (s.inProgress && s.isIn .nodeEffect)
  { site := s
    jumps := (if stays then w.jumps else 0) + if jump then 1 else 0
    away := away
    back := (stays && w.back) || (away && s.isIn .ready) }

def Watched.exec (w : Watched) : WatchEvent → Option Watched
  | .site started now e => (w.site.exec started now e).map fun s => w.observe s (w.site.jumps e)
  | .mark reconfig =>
    w.site.dpu.map fun d =>
      w.observe (w.site.put { d with status := { d.status with dpuReconfig := reconfig } }) false
  | .outdated value =>
    w.site.dpu.map fun d =>
      w.observe (w.site.put { d with status := { d.status with outdated := value } }) false
  | .create name now =>
    match w.site.dpu with
    | some _ => none
    | none =>
      some (w.observe { w.site with dpu := some (newDPU name now), thread := none, agent := none }
        false)

def WatchStep (w : Watched) (e : WatchEvent) (w' : Watched) : Prop := w.exec e = some w'

/-- The DPU controller is at rest, and nothing has been seen of the DPU yet. -/
structure WatchInit (w : Watched) : Prop where
  thread : w.site.thread = none
  jumps : w.jumps = 0
  away : w.away = (w.site.inProgress && w.site.isIn .nodeEffect)
  back : w.back = false

/-! ## The invariant -/

/-- What the reconcile of a DPU that was read as `base` may rely on: the stored DPU is still in the
same phase, and it is still in progress with the same round, or nothing happened since it is. -/
structure Follows (w : Watched) (d base : DPU) : Prop where
  version : base.resourceVersion ≤ d.resourceVersion
  phase : d.status.phase = base.status.phase
  round : reconfigInProgress base.status.dpuReconfig = true ∧
      reconfigInProgress d.status.dpuReconfig = true ∧
      reconfigRound d.status.dpuReconfig = reconfigRound base.status.dpuReconfig ∨
    w.jumps = 0 ∧ w.back = false ∧ (w.away = true → d.status.phase = .nodeEffect) ∧
      (reconfigInProgress base.status.dpuReconfig = true → base.resourceVersion < d.resourceVersion)

/-- A reconcile on its way, with what it has written so far. -/
def OnItsWay (w : Watched) (d : DPU) : Thread → Prop
  | .read base => Follows w d base ∧ d.status.reconfiguring = base.status.reconfiguring
  | .decided base next jump =>
    Follows w d base ∧ d.status.reconfiguring = base.status.reconfiguring ∧
      ∃ env, reconcile env base = (next, jump)
  | .conditionsWritten base next =>
    Follows w d base ∧
      (d.status.reconfiguring = base.status.reconfiguring ∨
        d.status.reconfiguring = next.reconfiguring.map Condition.stored) ∧
      ∃ env, reconcile env base = (next, false)

structure Watched.Inv (w : Watched) : Prop where
  jumps_le : w.jumps ≤ 1
  alive : w.jumps ≠ 0 ∨ w.away = true ∨ w.back = true → w.site.inProgress = true
  recorded : w.jumps ≠ 0 ∨ w.back = true →
    ∀ d, w.site.dpu = some d → Records d.status (reconfigRound d.status.dpuReconfig)
  here : w.site.inProgress = true → w.site.isIn .nodeEffect = true → w.away = true
  left : w.away = true → w.site.isIn .initializing = false
  ready : w.away = true → w.site.isIn .ready = true → w.back = true
  thread : ∀ t, w.site.thread = some t → ∃ d, w.site.dpu = some d ∧ OnItsWay w d t

/-- The stored DPU keeps its phase, and stays in progress with its round if it is. -/
structure SameRound (d d' : DPU) : Prop where
  phase : d'.status.phase = d.status.phase
  inProgress : reconfigInProgress d'.status.dpuReconfig = reconfigInProgress d.status.dpuReconfig
  round : reconfigInProgress d.status.dpuReconfig = true →
    reconfigRound d'.status.dpuReconfig = reconfigRound d.status.dpuReconfig

section Observing

variable {w : Watched} {s : Site} {d d' : DPU}

@[simp] theorem Site.isIn_of_dpu (h : s.dpu = some d) (phase : Phase) :
    s.isIn phase = (d.status.phase == phase) := by
  simp [Site.isIn, h]

@[simp] theorem Site.inProgress_of_dpu (h : s.dpu = some d) :
    s.inProgress = reconfigInProgress d.status.dpuReconfig := by
  simp [Site.inProgress, h]

@[simp] theorem Site.round_of_dpu (h : s.dpu = some d) :
    s.round = reconfigRound d.status.dpuReconfig := by
  simp [Site.round, h]

theorem Site.not_isIn_ready_of_nodeEffect (h : s.isIn .nodeEffect = true) :
    s.isIn .ready = false := by
  cases hd : s.dpu with
  | none => simp [Site.isIn, hd]
  | some d =>
    rw [isIn_of_dpu hd] at h ⊢
    rw [beq_iff_eq] at h
    rw [h]
    rfl

/-- What is seen of a DPU that stays in progress with its round. -/
theorem observe_of_stays (jump : Bool) (hb : w.site.inProgress = true)
    (ha : s.inProgress = true) (hr : s.round = w.site.round) :
    w.observe s jump =
      { site := s
        jumps := w.jumps + if jump then 1 else 0
        away := w.away || s.isIn .nodeEffect
        back := w.back || ((w.away || s.isIn .nodeEffect) && s.isIn .ready) } := by
  simp [Watched.observe, hb, ha, hr]

/-- What is seen of a DPU that was not in progress with this round before. -/
theorem observe_of_new
    (h : (w.site.inProgress && s.inProgress && w.site.round == s.round) = false) :
    w.observe s false =
      { site := s, jumps := 0, away := s.inProgress && s.isIn .nodeEffect, back := false } := by
  have hb : (s.inProgress && s.isIn .nodeEffect && s.isIn .ready) = false := by
    cases hin : s.isIn .nodeEffect with
    | false => simp
    | true => rw [s.not_isIn_ready_of_nodeEffect hin, Bool.and_false]
  unfold Watched.observe
  rw [h]
  simp [hb]

/-- A step that keeps the phase and the round adds nothing to what was seen. -/
theorem Watched.Inv.observe_same (hinv : w.Inv) (hd : w.site.dpu = some d) (hd' : s.dpu = some d')
    (h : SameRound d d') : w.observe s false = { w with site := s } := by
  have hin : s.isIn .nodeEffect = w.site.isIn .nodeEffect := by
    rw [isIn_of_dpu hd, isIn_of_dpu hd', h.phase]
  have hrd : s.isIn .ready = w.site.isIn .ready := by
    rw [isIn_of_dpu hd, isIn_of_dpu hd', h.phase]
  have hp : s.inProgress = w.site.inProgress := by
    rw [inProgress_of_dpu hd, inProgress_of_dpu hd', h.inProgress]
  cases hbe : w.site.inProgress with
  | false =>
    have hn : w.jumps = 0 ∧ w.away = false ∧ w.back = false := by
      have ha := hinv.alive
      rw [hbe] at ha
      refine ⟨?_, ?_, ?_⟩ <;> by_contra hne <;> simp [hne] at ha
    rw [observe_of_new (by simp [hbe]), hp, hbe]
    simp [← hn.1, hn.2.1, hn.2.2]
  | true =>
    have hro : s.round = w.site.round := by
      rw [round_of_dpu hd, round_of_dpu hd']
      exact h.round (by rw [← inProgress_of_dpu hd]; exact hbe)
    have haw : (w.away || s.isIn .nodeEffect) = w.away := by
      cases hne : s.isIn .nodeEffect with
      | false => simp
      | true => rw [hinv.here hbe (hin ▸ hne), Bool.or_true]
    have hb : (w.back || (w.away && s.isIn .ready)) = w.back := by
      rw [hrd]
      cases hw : w.away with
      | false => simp
      | true =>
        cases hr : w.site.isIn .ready with
        | false => simp
        | true => rw [hinv.ready hw hr, Bool.true_or]
    rw [observe_of_stays false hbe (hp.trans hbe) hro, haw, hb]
    rfl

end Observing

section Steps

variable {w : Watched} {s : Site} {d d' base : DPU}

theorem Follows.mono (h : Follows w d base) (hs : SameRound d d')
    (hv : d.resourceVersion ≤ d'.resourceVersion) :
    Follows { w with site := s } d' base where
  version := h.version.trans hv
  phase := hs.phase.trans h.phase
  round := by
    rcases h.round with ⟨hba, hd, hr⟩ | ⟨hj, hb, haw, hlt⟩
    · exact .inl ⟨hba, hs.inProgress.trans hd, (hs.round hd).trans hr⟩
    · exact .inr ⟨hj, hb, fun ha => hs.phase.trans (haw ha), fun hba => (hlt hba).trans_le hv⟩

/-- A reconcile on its way goes on after a step of another party. -/
theorem OnItsWay.mono {t : Thread} (h : OnItsWay w d t) (hs : SameRound d d')
    (hv : d.resourceVersion ≤ d'.resourceVersion)
    (hc : d'.status.reconfiguring = d.status.reconfiguring) :
    OnItsWay { w with site := s } d' t := by
  cases t with
  | read base => exact ⟨h.1.mono hs hv, hc.trans h.2⟩
  | decided base next jump => exact ⟨h.1.mono hs hv, hc.trans h.2.1, h.2.2⟩
  | conditionsWritten base next =>
    exact ⟨h.1.mono hs hv, h.2.1.imp hc.trans hc.trans, h.2.2⟩

/-- A step that keeps the phase and the round, and after which a recorded round is recorded. -/
theorem Watched.Inv.same (hinv : w.Inv) (hd : w.site.dpu = some d) (hd' : s.dpu = some d')
    (hs : SameRound d d')
    (hre : w.jumps ≠ 0 ∨ w.back = true →
      Records d'.status (reconfigRound d'.status.dpuReconfig))
    (hth : ∀ t, s.thread = some t → OnItsWay { w with site := s } d' t) :
    (w.observe s false).Inv := by
  have hin (p : Phase) : s.isIn p = w.site.isIn p := by
    rw [isIn_of_dpu hd, isIn_of_dpu hd', hs.phase]
  have hp : s.inProgress = w.site.inProgress := by
    rw [inProgress_of_dpu hd, inProgress_of_dpu hd', hs.inProgress]
  rw [hinv.observe_same hd hd' hs]
  refine ⟨hinv.jumps_le, fun h => hp.trans (hinv.alive h), ?_,
    fun h hne => hinv.here (hp ▸ h) (hin _ ▸ hne), fun h => (hin _).trans (hinv.left h),
    fun h hr => hinv.ready h (hin _ ▸ hr), fun t ht => ⟨d', hd', hth t ht⟩⟩
  intro h x hx
  cases hd'.symm.trans hx
  exact hre h

/-- A step of a party that leaves the conditions and the reconcile of the DPU controller alone. -/
theorem Watched.Inv.quiet (hinv : w.Inv) (hd : w.site.dpu = some d) (hd' : s.dpu = some d')
    (hs : SameRound d d') (hv : d.resourceVersion ≤ d'.resourceVersion)
    (hc : d'.status.reconfiguring = d.status.reconfiguring)
    (hth : s.thread = w.site.thread ∨ s.thread = none) : (w.observe s false).Inv := by
  refine hinv.same hd hd' hs (fun h => ?_) fun t ht => ?_
  · have hp := hinv.alive (h.imp_right .inr)
    rw [inProgress_of_dpu hd] at hp
    rw [hs.round hp, records_congr hc]
    exact hinv.recorded h d hd
  · rcases hth with hk | hn
    · obtain ⟨x, hx, hf⟩ := hinv.thread t (hk ▸ ht)
      cases hd.symm.trans hx
      exact hf.mono hs hv hc
    · rw [hn] at ht
      cases ht

theorem Watched.Inv.of_none (hd : s.dpu = none) (hth : s.thread = none) :
    (w.observe s false).Inv := by
  have hp : s.inProgress = false := by simp [Site.inProgress, hd]
  rw [observe_of_new (by simp [hp]), hp]
  refine ⟨by simp, by simp, by simp, by simp [hp], by simp, by simp, ?_⟩
  intro t ht
  exact absurd (hth.symm.trans ht) (by simp)

/-- Another round, or no round: the reconcile on its way was read before. -/
theorem Watched.Inv.fresh (hinv : w.Inv) (hd' : s.dpu = some d')
    (hn : (w.site.inProgress && s.inProgress && w.site.round == s.round) = false)
    (hth : s.thread = none ∨ s.thread = w.site.thread ∧ ∃ d, w.site.dpu = some d ∧
      d'.status.phase = d.status.phase ∧ d.resourceVersion < d'.resourceVersion ∧
      d'.status.reconfiguring = d.status.reconfiguring) : (w.observe s false).Inv := by
  rw [observe_of_new hn]
  refine ⟨by simp, ?_, by simp, ?_, ?_, ?_, ?_⟩
  · intro h
    simp only [ne_eq, not_true_eq_false, Bool.false_eq_true, or_false, false_or,
      Bool.and_eq_true] at h
    exact h.1
  · intro hp hne
    simp [hp, hne]
  · intro h
    rw [Bool.and_eq_true] at h
    have hne := h.2
    dsimp only
    rw [isIn_of_dpu hd'] at hne ⊢
    rw [beq_iff_eq] at hne
    rw [hne]
    rfl
  · intro h hr
    rw [Bool.and_eq_true] at h
    dsimp only at hr
    rw [s.not_isIn_ready_of_nodeEffect h.2] at hr
    cases hr
  · intro t ht
    refine ⟨d', hd', ?_⟩
    rcases hth with hno | ⟨hk, d, hd, hph, hlt, hc⟩
    · exact absurd (hno.symm.trans ht) (by simp)
    · obtain ⟨x, hx, hf⟩ := hinv.thread t (hk.symm.trans ht)
      cases hd.symm.trans hx
      have hb {base : DPU} (h : Follows w d base) :
          Follows ⟨s, 0, s.inProgress && s.isIn .nodeEffect, false⟩ d' base := by
        refine ⟨h.version.trans hlt.le, hph.trans h.phase, .inr ⟨rfl, rfl, fun ha => ?_,
          fun _ => h.version.trans_lt hlt⟩⟩
        rw [Bool.and_eq_true, isIn_of_dpu hd', beq_iff_eq] at ha
        exact ha.2
      cases t with
      | read base => exact ⟨hb hf.1, hc.trans hf.2⟩
      | decided base next jump => exact ⟨hb hf.1, hc.trans hf.2.1, hf.2.2⟩
      | conditionsWritten base next =>
        exact ⟨hb hf.1, hf.2.1.imp hc.trans hc.trans, hf.2.2⟩

/-- A jump that lands is the first one, and the DPU had not come back. -/
theorem Watched.Inv.first_jump (hinv : w.Inv) (hd : w.site.dpu = some d)
    (ht : w.site.thread = some (.decided base next true))
    (hv : d.resourceVersion = base.resourceVersion) :
    w.jumps = 0 ∧ w.back = false ∧ Jumps base next ∧ d.status.phase = base.status.phase ∧
      d.status.reconfiguring = base.status.reconfiguring ∧
      reconfigInProgress d.status.dpuReconfig = true ∧
      reconfigRound d.status.dpuReconfig = reconfigRound base.status.dpuReconfig := by
  obtain ⟨x, hx, hf, hc, env, hde⟩ := hinv.thread _ ht
  cases hd.symm.trans hx
  have hj := reconcile_jumps hde
  rcases hf.round with ⟨-, hp, hro⟩ | ⟨-, -, -, hlt⟩
  · have hn : ¬ (w.jumps ≠ 0 ∨ w.back = true) := by
      intro h
      have hr := hinv.recorded h d hd
      rw [hro, records_congr hc] at hr
      exact not_records_of_jump hde hr
    push Not at hn
    exact ⟨hn.1, by simpa using hn.2, hj, hf.phase, hc, hp, hro⟩
  · have := hlt hj.marked
    omega

theorem Watched.Inv.jump (hinv : w.Inv) (hd : w.site.dpu = some d)
    (ht : w.site.thread = some (.decided base next true))
    (hv : d.resourceVersion = base.resourceVersion) (hth : s.thread = none) (hd' : s.dpu = some d')
    (hst : d'.status = mergeRest base.status next (mergeConditions base.status next d.status)) :
    (w.observe s true).Inv := by
  obtain ⟨hj, hb, hde, hph, hc, hp, hro⟩ :=
    hinv.first_jump hd ht hv
  have hre : d'.status.dpuReconfig = d.status.dpuReconfig := by rw [hst]; rfl
  have hphase' : d'.status.phase = next.phase := by
    rw [hst]
    exact mergeRest_phase hph
  have hin : s.isIn .ready = false ∧ s.isIn .initializing = false := by
    rw [isIn_of_dpu hd', isIn_of_dpu hd', hphase']
    rcases hde.phase with h | h <;> rw [h] <;> exact ⟨rfl, rfl⟩
  have hprogress' : s.inProgress = true := by
    rw [inProgress_of_dpu hd', hre]
    exact hp
  rw [observe_of_stays true (by rw [inProgress_of_dpu hd]; exact hp) hprogress'
    (by rw [round_of_dpu hd, round_of_dpu hd', hre]), hj, hb, hin.1]
  refine ⟨by simp, fun _ => hprogress', ?_, ?_, fun _ => hin.2, ?_, ?_⟩
  · intro _ x hx
    cases hd'.symm.trans hx
    rw [hre, hro, hst]
    exact (mergeConditions_records hc next _).mpr ((hde.records _).mpr rfl)
  · intro _ hne
    dsimp only at hne ⊢
    rw [hne, Bool.or_true]
  · intro _ hr
    exact absurd (hin.1.symm.trans hr) (by simp)
  · intro t h
    exact absurd (hth.symm.trans h) (by simp)

theorem Watched.Inv.conditions (hinv : w.Inv) (hd : w.site.dpu = some d)
    (ht : w.site.thread = some (.decided base next false))
    (hth : s.thread = some (.conditionsWritten base next)) (hd' : s.dpu = some d')
    (hv : d.resourceVersion ≤ d'.resourceVersion)
    (hst : d'.status = d.status ∨ d'.status = mergeConditions base.status next d.status) :
    (w.observe s false).Inv := by
  obtain ⟨x, hx, hf, hc, env, hde⟩ := hinv.thread _ ht
  cases hd.symm.trans hx
  have hs : SameRound d d' := by
    rcases hst with h | h <;> refine ⟨?_, ?_, fun _ => ?_⟩ <;> rw [h] <;> rfl
  refine hinv.same hd hd' hs (fun h => ?_) fun t h => ?_
  · have hr := hinv.recorded h d hd
    have hp := hinv.alive (h.imp_right .inr)
    rw [inProgress_of_dpu hd] at hp
    rw [hs.round hp]
    rcases hst with hk | hw
    · rw [hk]
      exact hr
    · rcases hf.round with ⟨hba, -, hro⟩ | ⟨hj, hb, -⟩
      · rw [hw, hro]
        rw [hro, records_congr hc] at hr
        exact (mergeConditions_records hc next _).mpr
          (reconcile_records hde hba hr)
      · rw [hj, hb] at h
        simp at h
  · cases hth.symm.trans h
    refine ⟨hf.mono hs hv, ?_, env, hde⟩
    rcases hst with hk | hw
    · exact .inl (by rw [hk, hc])
    · rw [hw]
      change (if _ then _ else _) = _ ∨ (if _ then _ else _) = _
      split_ifs with heq
      · exact .inl hc
      · exact .inr rfl

/-- The status write of a reconcile: a DPU that comes back has its round recorded. -/
theorem Watched.Inv.status (hinv : w.Inv) (hd : w.site.dpu = some d)
    (ht : w.site.thread = some (.conditionsWritten base next)) (hth : s.thread = none)
    (hd' : s.dpu = some d') (hst : d'.status = mergeRest base.status next d.status) :
    (w.observe s false).Inv := by
  obtain ⟨x, hx, hf, hc, env, hde⟩ := hinv.thread _ ht
  cases hd.symm.trans hx
  have hre : d'.status.dpuReconfig = d.status.dpuReconfig := by rw [hst]; rfl
  have hphase' : d'.status.phase = next.phase := by
    rw [hst]
    exact mergeRest_phase hf.phase
  have hreco : d'.status.reconfiguring = d.status.reconfiguring := by rw [hst]; rfl
  cases hp : w.site.inProgress with
  | false => exact hinv.fresh hd' (by simp [hp]) (.inl hth)
  | true =>
    have hprogress' : s.inProgress = true := by
      rw [inProgress_of_dpu hd', hre, ← inProgress_of_dpu hd]
      exact hp
    have hbe (p : Phase) : w.site.isIn p = (base.status.phase == p) := by
      rw [isIn_of_dpu hd, hf.phase]
    have ha (p : Phase) : s.isIn p = (next.phase == p) := by rw [isIn_of_dpu hd', hphase']
    -- Coming back: the DPU was away, and the reconcile found the node effect removed.
    have hret (haw : w.away = true) (hb : w.back = false) (hn : next.phase = .ready) :
        Records d.status (reconfigRound d.status.dpuReconfig) := by
      rcases reconcile_ready hde hn with hrd | hi | ⟨hrem, hdel⟩
      · have := hinv.ready haw (by rw [hbe, hrd]; rfl)
        rw [hb] at this
        cases this
      · have := hinv.left haw
        rw [hbe, hi] at this
        cases this
      · rcases hf.round with ⟨hba, -, hro⟩ | ⟨-, -, hne, -⟩
        · have hrecords := records_of_startInPlaceReconfig_none (reconcile_phase hde).1 hdel
            hba (by rw [hrem]; rfl)
          rw [hro]
          rcases hc with hk | hw
          · exact (records_congr hk _).mpr hrecords
          · exact (records_stored hw _).mpr (reconcile_records hde hba hrecords)
        · have := (hf.phase.symm.trans (hne haw)).symm.trans hrem
          cases this
    rw [observe_of_stays false hp hprogress'
      (by rw [round_of_dpu hd, round_of_dpu hd', hre])]
    refine ⟨hinv.jumps_le, fun _ => hprogress', ?_, ?_, ?_, ?_, ?_⟩
    · intro h x hx
      cases hd'.symm.trans hx
      rw [hre, records_congr hreco]
      by_cases hold : w.jumps ≠ 0 ∨ w.back = true
      · exact hinv.recorded hold d hd
      · push Not at hold
        have hb : w.back = false := by simpa using hold.2
        simp only [hold.1, hb, Bool.false_eq_true, if_false, add_zero, ne_eq, not_true_eq_false,
          Bool.false_or, false_or, ha, Bool.and_eq_true, Bool.or_eq_true, beq_iff_eq] at h
        obtain ⟨haw | hne, hrd⟩ := h
        · exact hret haw hb hrd
        · rw [hrd] at hne
          cases hne
    · intro _ hne
      dsimp only at hne ⊢
      rw [hne, Bool.or_true]
    · intro h
      dsimp only at h ⊢
      rw [ha]
      by_contra hi
      have hn : next.phase = .initializing := by simpa using hi
      rw [ha, hn, Bool.or_eq_true] at h
      rcases h with haw | hne
      · have := hinv.left haw
        rw [hbe, reconcile_initializing hde hn] at this
        cases this
      · cases hne
    · intro h hr
      dsimp only at h hr ⊢
      rw [h, hr]
      simp
    · intro t h
      exact absurd (hth.symm.trans h) (by simp)

theorem SameRound.rfl : SameRound d d := ⟨Eq.refl _, Eq.refl _, fun _ => Eq.refl _⟩

theorem Watched.Inv.frame (hinv : w.Inv) (hd : s.dpu = w.site.dpu)
    (hth : s.thread = w.site.thread ∨ s.thread = none) : (w.observe s false).Inv := by
  cases hdp : w.site.dpu with
  | none =>
    refine Watched.Inv.of_none (hd.trans hdp) ?_
    rcases hth with hk | hn
    · cases ht : w.site.thread with
      | none => exact hk.trans ht
      | some t =>
        obtain ⟨d, hd, -⟩ := hinv.thread t ht
        rw [hdp] at hd
        cases hd
    · exact hn
  | some d => exact hinv.quiet hdp (hd.trans hdp) SameRound.rfl le_rfl rfl hth

theorem Watched.Inv.write (hinv : w.Inv) (hd : w.site.dpu = some d) {x : DPU}
    (hs : s.dpu = some { x with resourceVersion := x.resourceVersion + 1 })
    (ht : s.thread = w.site.thread) (hv : x.resourceVersion = d.resourceVersion)
    (hph : x.status.phase = d.status.phase) (hc : x.status.reconfiguring = d.status.reconfiguring)
    (hr : x.status.dpuReconfig = d.status.dpuReconfig) : (w.observe s false).Inv :=
  hinv.quiet hd hs ⟨hph, congrArg _ hr, fun _ => congrArg _ hr⟩
    (hv ▸ Nat.le_succ _) hc (.inl ht)

theorem Follows.read (hinv : w.Inv) (hd : w.site.dpu = some d) : Follows w d d where
  version := le_rfl
  phase := rfl
  round := by
    cases hp : reconfigInProgress d.status.dpuReconfig with
    | true => exact .inl ⟨rfl, rfl, rfl⟩
    | false =>
      have hn : ¬ (w.jumps ≠ 0 ∨ w.away = true ∨ w.back = true) := by
        intro h
        have := hinv.alive h
        rw [inProgress_of_dpu hd, hp] at this
        cases this
      push Not at hn
      obtain ⟨hj, ha, hb⟩ := hn
      exact .inr ⟨hj, by simpa using hb, fun h => absurd h ha, nofun⟩

theorem Watched.Inv.siteStep (hinv : w.Inv) {started : ℕ} {e : SiteEvent}
    (h : w.site.exec started now e = some s) : (w.observe s (w.site.jumps e)).Inv := by
  cases e with simp only [Site.exec] at h
  | delete | agentError =>
    cases hd : w.site.dpu with
    | none => simp [hd] at h
    | some d =>
      simp only [hd, some.injEq] at h
      subst h
      exact hinv.write hd rfl rfl rfl rfl rfl rfl
  | finalize =>
    split at h
    · rename_i d hd ht
      split_ifs at h
      cases h
      exact Watched.Inv.of_none rfl ht
    · cases h
  | read =>
    cases hd : w.site.dpu with
    | none => simp [hd] at h
    | some d =>
      cases ht : w.site.thread with
      | some t => simp [hd, ht] at h
      | none =>
        simp only [hd, ht, some.injEq] at h
        subst h
        refine hinv.same hd rfl SameRound.rfl (fun h => hinv.recorded h d hd) fun t ht' => ?_
        obtain rfl : Thread.read d = t := some.inj ht'
        exact ⟨(Follows.read hinv hd).mono SameRound.rfl le_rfl, rfl⟩
  | handle env =>
    simp only [Site.handle] at h
    split at h
    · rename_i base ht
      cases h
      obtain ⟨d, hd, hf, hc⟩ := hinv.thread _ ht
      refine hinv.same hd hd SameRound.rfl (fun h => hinv.recorded h d hd) fun t ht' => ?_
      cases ht'
      exact ⟨hf.mono SameRound.rfl le_rfl, hc, _, rfl⟩
    · cases h
  | writeJump ok =>
    simp only [Site.writeJump] at h
    split at h
    · rename_i base next d ht hd
      split_ifs at h with hl
      · cases h
        have hj : w.site.jumps (.writeJump ok) = true := by simpa [Site.jumps, ht, hd] using hl
        rw [Bool.and_eq_true, beq_iff_eq] at hl
        rw [hj]
        exact hinv.jump hd ht hl.2 rfl rfl rfl
      · cases h
        have hj : w.site.jumps (.writeJump ok) = false := by
          simpa [Site.jumps, ht, hd] using hl
        rw [hj]
        exact hinv.frame rfl (.inr rfl)
    · cases h
  | writeConditions ok =>
    simp only [Site.writeConditions] at h
    split at h
    · rename_i base next d ht hd
      split_ifs at h
      · cases h
        exact hinv.conditions hd ht rfl rfl (Nat.le_succ _) (.inr rfl)
      · cases h
        exact hinv.conditions hd ht rfl hd le_rfl (.inl rfl)
    · cases h
  | writeStatus ok =>
    simp only [Site.writeStatus] at h
    split at h
    · rename_i base next d ht hd
      split_ifs at h
      · cases h
        exact hinv.status hd ht rfl rfl rfl
      · cases h
        exact hinv.frame rfl (.inr rfl)
    · cases h
  | stop =>
    cases h
    exact hinv.frame rfl (.inr rfl)
  | agentStart version =>
    cases h
    exact hinv.frame rfl (.inl rfl)
  | agentStartup t | agentNICs c =>
    split at h
    · cases h
      exact hinv.frame rfl (.inl rfl)
    · cases h
  | agentMethod m =>
    split at h
    · split_ifs at h
      cases h
      exact hinv.frame rfl (.inl rfl)
    · cases h
  | agentPush =>
    simp only [Site.agentPush] at h
    split at h
    · rename_i a d ha hd
      cases h
      exact hinv.write hd rfl rfl rfl rfl rfl rfl
    · cases h

theorem Watched.Inv.step (hinv : w.Inv) {e : WatchEvent} {w' : Watched} (h : WatchStep w e w') :
    w'.Inv := by
  unfold WatchStep at h
  cases e with
  | site started now e =>
    obtain ⟨s, hs, rfl⟩ := map_eq_some_iff.mp h
    exact hinv.siteStep hs
  | mark reconfig =>
    obtain ⟨d, hd, rfl⟩ := map_eq_some_iff.mp h
    set s := w.site.put { d with status := { d.status with dpuReconfig := reconfig } } with hs
    cases hst : w.site.inProgress && s.inProgress && w.site.round == s.round with
    | false =>
      exact hinv.fresh rfl hst (.inr ⟨rfl, d, hd, rfl, Nat.lt_succ_self _, rfl⟩)
    | true =>
      have hd' : s.dpu = some { d with
        resourceVersion := d.resourceVersion + 1
        status := { d.status with dpuReconfig := reconfig } } := rfl
      rw [Bool.and_eq_true, Bool.and_eq_true, beq_iff_eq, inProgress_of_dpu hd,
        inProgress_of_dpu hd', round_of_dpu hd, round_of_dpu hd'] at hst
      obtain ⟨⟨hb, ha⟩, hr⟩ := hst
      exact hinv.quiet hd hd' ⟨rfl, ha.trans hb.symm, fun _ => hr.symm⟩
        (Nat.le_succ _) rfl (.inl rfl)
  | outdated value =>
    obtain ⟨d, hd, rfl⟩ := map_eq_some_iff.mp h
    exact hinv.write hd rfl rfl rfl rfl rfl rfl
  | create name now =>
    simp only [Watched.exec] at h
    split at h
    · cases h
    · rename_i hd
      cases h
      refine hinv.fresh rfl ?_ (.inl rfl)
      simp [Site.inProgress, hd]

/-- Only a jump and the status write of a reconcile change the phase. -/
theorem Site.exec_phase {s' : Site} {started : ℕ} {e : SiteEvent}
    (h : s.exec started now e = some s') :
    (∀ p, s'.isIn p = true → s.isIn p = true) ∨
    (∃ base next d, s.thread = some (.decided base next true) ∧ s.dpu = some d ∧
      d.resourceVersion = base.resourceVersion) ∨
    ∃ base next d d', s.thread = some (.conditionsWritten base next) ∧ s.dpu = some d ∧
      s'.dpu = some d' ∧ d'.status = mergeRest base.status next d.status := by
  cases exec_effect h with
  | same hd _ =>
    left
    intro p hp
    rwa [Site.isIn, ← hd]
  | gone hd _ _ => exact .inl fun p hp => by simp [Site.isIn, hd] at hp
  | @write d d' hd hd' _ _ _ hph =>
    rcases hph with hph | ⟨base, next, ht, hv⟩ | ⟨base, next, ht, hst⟩
    · left
      intro p hp
      rwa [isIn_of_dpu hd, ← hph, ← isIn_of_dpu hd']
    · exact .inr (.inl ⟨base, next, d, ht, hd, hv⟩)
    · exact .inr (.inr ⟨base, next, d, d', ht, hd, hd', hst⟩)

/-- A DPU that has come back stays in Ready, unless it fails or is deleted. -/
theorem Watched.Inv.stays_ready (hinv : w.Inv) {e : WatchEvent} {w' : Watched}
    (h : WatchStep w e w') (hb : w.back = true) (hr : w.site.isIn .ready = true) :
    w'.site.isIn .nodeEffect = false ∧ w'.site.isIn .clusterConfig = false := by
  cases hdp : w.site.dpu with
  | none => simp [Site.isIn, hdp] at hr
  | some d =>
    have hph : d.status.phase = .ready := by
      rwa [isIn_of_dpu hdp, beq_iff_eq] at hr
    have hk (hsu : ∀ p, w'.site.isIn p = true → w.site.isIn p = true) :
        w'.site.isIn .nodeEffect = false ∧ w'.site.isIn .clusterConfig = false := by
      constructor
      · by_contra hne
        have := hsu _ (by simpa using hne)
        rw [isIn_of_dpu hdp, hph] at this
        cases this
      · by_contra hne
        have := hsu _ (by simpa using hne)
        rw [isIn_of_dpu hdp, hph] at this
        cases this
    unfold WatchStep at h
    cases e with
    | site started now e =>
      obtain ⟨s, hs, rfl⟩ := map_eq_some_iff.mp h
      rcases exec_phase hs with hsu | ⟨base, next, x, ht, hx, hv⟩ |
        ⟨base, next, x, d', ht, hx, hd', hst⟩
      · exact hk hsu
      · have := (hinv.first_jump hx ht hv).2.1
        rw [hb] at this
        cases this
      · obtain ⟨y, hy, hf, -, env, hd⟩ := hinv.thread _ ht
        cases hx.symm.trans hy
        cases hdp.symm.trans hx
        rcases hf.round with ⟨hba, -, -⟩ | ⟨-, hno, -⟩
        · obtain ⟨hne, hcc⟩ :=
            reconcile_stays hd (hf.phase.symm.trans hph) hba
          have hn : d'.status.phase = next.phase := by
            rw [hst]
            exact mergeRest_phase hf.phase
          change s.isIn .nodeEffect = false ∧ s.isIn .clusterConfig = false
          rw [isIn_of_dpu hd', isIn_of_dpu hd', hn]
          exact ⟨by simpa using hne, by simpa using hcc⟩
        · rw [hb] at hno
          cases hno
    | mark reconfig | outdated value =>
      obtain ⟨x, hx, rfl⟩ := map_eq_some_iff.mp h
      cases hdp.symm.trans hx
      exact hk fun p hp => by rwa [isIn_of_dpu hdp]
    | create name now => simp [Watched.exec, hdp] at h

end Steps

theorem watched_inv {w : Watched} (h : Reachable WatchInit WatchStep w) : w.Inv := by
  refine h.invariant (fun w hw => ?_) fun w e w' _ hinv hs => hinv.step hs
  have hb : w.site.isIn .nodeEffect = true → w.site.isIn .ready = false :=
    w.site.not_isIn_ready_of_nodeEffect
  refine ⟨by simp [hw.jumps], ?_, ?_, ?_, ?_, ?_, ?_⟩
  · intro h
    rw [hw.jumps, hw.away, hw.back] at h
    simp only [ne_eq, not_true_eq_false, Bool.false_eq_true, or_false, false_or,
      Bool.and_eq_true] at h
    exact h.1
  · intro h
    rw [hw.jumps, hw.back] at h
    simp at h
  · intro hp hne
    rw [hw.away, hp, hne]
    rfl
  · intro h
    rw [hw.away, Bool.and_eq_true] at h
    cases hd : w.site.dpu with
    | none => simp [Site.isIn, hd]
    | some d =>
      have hne := h.2
      rw [isIn_of_dpu hd, beq_iff_eq] at hne
      rw [isIn_of_dpu hd, hne]
      rfl
  · intro h hr
    rw [hw.away, Bool.and_eq_true] at h
    rw [hb h.2] at hr
    cases hr
  · intro t ht
    rw [hw.thread] at ht
    cases ht

/-- While a DPU stays in progress with the same round, it is moved to Node Effect by at most one
jump; and once it has been in Node Effect and come back to Ready, no step takes it from Ready to
Node Effect or to Cluster Config, which are the phases to which a jump and a change of the cluster
metadata move it. -/
theorem one_jump_per_round {w : Watched} (h : Reachable WatchInit WatchStep w) :
    w.jumps ≤ 1 ∧
      ∀ e w', WatchStep w e w' → w.back = true → w.site.isIn .ready = true →
        w'.site.isIn .nodeEffect = false ∧ w'.site.isIn .clusterConfig = false :=
  ⟨(watched_inv h).jumps_le, fun _ _ hs hb hr =>
    (watched_inv h).stays_ready hs hb hr⟩

/-- A Ready DPU before its first mark. -/
def watchedReady : Watched where
  site := requestedWorld.sites "dpu-a"
  jumps := 0
  away := false
  back := false

/-- Steps of the DPU controller and of the agent at second 220. -/
def siteEvents (events : List SiteEvent) : List WatchEvent := events.map (.site 1 (seconds 220))

def reconcileOnce : List SiteEvent :=
  [.read, .handle settledSurroundings, .writeConditions true, .writeStatus true]

/-- The DPU is marked, jumps, runs through all phases and comes back. -/
def markedAndBack : List WatchEvent :=
  .mark (some ⟨some true, 1, 0⟩) ::
    siteEvents ([.read, .handle settledSurroundings, .writeJump true] ++ reconcileOnce ++
      [.agentStart "v1", .agentStartup (seconds 210), .agentPush,
        .agentMethod (some .noAction), .agentPush] ++
      (List.replicate 5 reconcileOnce).flatten)

theorem one_jump_and_back :
    ∃ w, Reachable WatchInit WatchStep w ∧ w.jumps = 1 ∧ w.back = true ∧
      w.site.isIn .ready = true ∧
      ∀ e w', WatchStep w e w' →
        w'.site.isIn .nodeEffect = false ∧ w'.site.isIn .clusterConfig = false := by
  have hi : WatchInit watchedReady := ⟨rfl, rfl, by decide, rfl⟩
  obtain ⟨w, hre, hs⟩ := Reachable.exists_of_run hi Watched.exec markedAndBack
    (fun w => (w.jumps, w.back, w.site.isIn .ready)) (1, true, true) (by decide +kernel)
  simp only [Prod.mk.injEq] at hs
  obtain ⟨hj, hb, hr⟩ := hs
  exact ⟨w, hre, hj, hb, hr, fun e w' hst =>
    (one_jump_per_round hre).2 e w' hst hb hr⟩

end DocaPlatform.InPlaceRounds
