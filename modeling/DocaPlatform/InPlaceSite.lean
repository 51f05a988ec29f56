import DocaPlatform.InPlaceRounds

/-!
# A DPU in a round

What holds of a DPU, of the reconcile that is under way on it and of its agent, against the history
of the DPU since the latest round started. Every step at the DPU that the condition allows keeps
it.
-/
namespace DocaPlatform.InPlaceRounds

open InPlaceReconfig DpuPhases Runs Option

/-! ## Invariants at one DPU -/

/-- A startup time that a run before the `k`th reported is the one the controller noted. -/
def StaleNoted (k : ℕ) (s : DPUStatus) : Prop :=
  ∀ a, s.agentStatus = some a → a.reportedBy < k →
    a.lastStartupTime = none ∨ s.agentLastStartupTime = a.lastStartupTime

/-- The DPU has left DPU Config in this round. -/
def Progress.Done (p : Progress) : Prop := p = .served ∨ p = .returned

/-- The stored DPU against its history, in round `r` with open rounds that started in the seconds
of `opens`. -/
structure DpuInv (r : ℕ) (opens : Time → Prop) (h : History) (d : DPU) : Prop where
  round_le : reconfigRound d.status.dpuReconfig ≤ r
  records_le : ∀ k, Records d.status k → k ≤ r
  alive : h.member = true → d.deleting = false ∧ d.status.outdated = false
  recorded : h.member = true → Records d.status r →
    h.progress ≠ .waiting ∨ d.status.phase = .error
  moved : h.member = true → h.progress = .moved →
    reconfigInProgress d.status.dpuReconfig = true ∧ reconfigRound d.status.dpuReconfig = r ∧
      (d.status.phase = .nodeEffect ∨ d.status.phase = .dpuConfig ∨ d.status.phase = .error)
  stale : h.member = true → h.progress = .moved → d.status.phase = .dpuConfig →
    StaleNoted h.runsAtEntry d.status
  since : h.member = true → ∀ s t, opens s → d.status.readySince = some t → s ≤ t →
    h.progress.Done
  back : h.member = true → h.progress = .served → d.status.phase = .ready →
    d.status.readySince = none
  cleared : h.member = true → reconfigRound d.status.dpuReconfig = r →
    reconfigInProgress d.status.dpuReconfig = false → h.progress = .returned

/-- The DPU that a reconcile read against the stored one. -/
structure BaseInv (r : ℕ) (h : History) (d base : DPU) : Prop where
  phase : d.status.phase = base.status.phase
  noted : d.status.agentLastStartupTime = base.status.agentLastStartupTime
  round_le : reconfigRound base.status.dpuReconfig ≤ r
  round : reconfigRound base.status.dpuReconfig = r → reconfigRound d.status.dpuReconfig = r
  deleting : base.deleting = true → d.deleting = true
  moved : h.member = true → h.progress = .moved →
    reconfigInProgress base.status.dpuReconfig = true ∧
      reconfigRound base.status.dpuReconfig = r
  stale : h.member = true → h.progress = .moved → base.status.phase = .dpuConfig →
    StaleNoted h.runsAtEntry base.status
  cleared : h.member = true → reconfigRound base.status.dpuReconfig = r →
    reconfigInProgress base.status.dpuReconfig = false → h.progress = .returned
  reported : ∀ a, base.status.agentStatus = some a →
    ∃ a', d.status.agentStatus = some a' ∧ a.reportedBy ≤ a'.reportedBy

/-- The reconcile has not written its conditions yet. -/
def Unwritten (d base : DPU) : Prop :=
  d.status.ready = base.status.ready ∧ d.status.reconfiguring = base.status.reconfiguring

/-- The `Ready` condition that a reconcile is about to write. -/
def PendingReady (opens : Time → Prop) (h : History) (next : DPUStatus) : Prop :=
  h.member = true → ∀ s t, opens s → next.readySince = some t → s ≤ persisted t → h.progress.Done

def ThreadInv (r : ℕ) (opens : Time → Prop) (h : History) (d : DPU) : Thread → Prop
  | .read base => BaseInv r h d base ∧ Unwritten d base
  | .decided base next jump =>
    BaseInv r h d base ∧ Unwritten d base ∧ (∃ env, reconcile env base = (next, jump)) ∧
      PendingReady opens h next
  | .conditionsWritten base next =>
    BaseInv r h d base ∧ ∃ env, reconcile env base = (next, false)

/-- The runs of an agent are numbered, and what it pushed last is on the DPU. -/
structure AgentInv (s : Site) : Prop where
  entry : s.history.runsAtEntry ≤ s.runs
  run : ∀ a, s.agent = some a → a.id < s.runs ∧ a.status.reportedBy = a.id
  unpushed : ∀ a, s.agent = some a → a.pushed = false → a.status.rebootMethod.isSome = true
  pushed : ∀ a d, s.agent = some a → s.dpu = some d → a.pushed = true →
    ∃ st, d.status.agentStatus = some st ∧ st.reportedBy = a.id
  reported : ∀ d st, s.dpu = some d → d.status.agentStatus = some st →
    st.reportedBy < s.runs ∧ ∀ a, s.agent = some a → st.reportedBy ≤ a.id

structure SiteInv (r : ℕ) (opens : Time → Prop) (n : String) (s : Site) : Prop where
  name : ∀ d, s.dpu = some d → d.name = n
  dpu : ∀ d, s.dpu = some d → DpuInv r opens s.history d
  thread : ∀ t, s.thread = some t → ∃ d, s.dpu = some d ∧ ThreadInv r opens s.history d t
  agent : AgentInv s

section Site

variable {r : ℕ} {opens : Time → Prop} {n : String}

variable {h h' : History} {next : DPUStatus} {opens' : Time → Prop} {s s' : Site} {d d' : DPU}
  {env : Surroundings} {a : AgentRun} {now : Time} {isOpen ok : Bool}

theorem PendingReady.mono (hp : PendingReady opens h next) (ho : ∀ s, opens' s → opens s) :
    PendingReady opens' h next :=
  fun hm s t hs ht hle => hp hm s t (ho s hs) ht hle

/-- The invariants speak about open rounds only negatively. -/
theorem SiteInv.mono (h : SiteInv r opens n s) (ho : ∀ t, opens' t → opens t) :
    SiteInv r opens' n s where
  name := h.name
  dpu d hd :=
    { h.dpu d hd with since := fun hm u t hu ht hle => (h.dpu d hd).since hm u t (ho u hu) ht hle }
  thread t ht := by
    obtain ⟨d, hd, hinv⟩ := h.thread t ht
    refine ⟨d, hd, ?_⟩
    cases t with
    | read base => exact hinv
    | decided base next jump =>
      exact ⟨hinv.1, hinv.2.1, hinv.2.2.1, hinv.2.2.2.mono ho⟩
    | conditionsWritten base next => exact hinv
  agent := h.agent

/-- A write of another party keeps what a reconcile relies on. -/
theorem ThreadInv.frame {t : Thread} (ht : ThreadInv r opens h d t)
    (hde : d.deleting = true → d'.deleting = true) (hph : d'.status.phase = d.status.phase)
    (hn : d'.status.agentLastStartupTime = d.status.agentLastStartupTime)
    (hrd : d'.status.ready = d.status.ready)
    (hre : d'.status.reconfiguring = d.status.reconfiguring)
    (hro : reconfigRound d.status.dpuReconfig = r → reconfigRound d'.status.dpuReconfig = r)
    (hrep : ∀ a, d.status.agentStatus = some a →
      ∃ a', d'.status.agentStatus = some a' ∧ a.reportedBy ≤ a'.reportedBy)
    (hmem : h'.member = true → h.member = true) (hpr : h'.progress = h.progress)
    (he : h'.runsAtEntry = h.runsAtEntry) : ThreadInv r opens h' d' t := by
  have hba : ∀ base, BaseInv r h d base → BaseInv r h' d' base := fun base hb =>
    { phase := hph.trans hb.phase
      noted := hn.trans hb.noted
      round_le := hb.round_le
      round := fun hr => hro (hb.round hr)
      deleting := fun hd => hde (hb.deleting hd)
      moved := fun hm hp => hb.moved (hmem hm) (hpr ▸ hp)
      stale := fun hm hp hc => by
        rw [he]
        exact hb.stale (hmem hm) (hpr ▸ hp) hc
      cleared := fun hm hr hc => hpr ▸ hb.cleared (hmem hm) hr hc
      reported := fun a ha => by
        obtain ⟨a', ha', hle⟩ := hb.reported a ha
        obtain ⟨a'', ha'', hle'⟩ := hrep a' ha'
        exact ⟨a'', ha'', hle.trans hle'⟩ }
  have hun : ∀ base, Unwritten d base → Unwritten d' base := fun base hu =>
    ⟨hrd.trans hu.1, hre.trans hu.2⟩
  cases t with
  | read base => exact ⟨hba base ht.1, hun base ht.2⟩
  | decided base next jump =>
    refine ⟨hba base ht.1, hun base ht.2.1, ht.2.2.1, fun hm s t hs hr hle => ?_⟩
    rw [hpr]
    exact ht.2.2.2 (hmem hm) s t hs hr hle
  | conditionsWritten base next => exact ⟨hba base ht.1, ht.2⟩

section Observe

variable {h : History} {runs : ℕ} {old new : DPUStatus} {reporter : Option ℕ}

theorem observe_done (hd : h.progress.Done) :
    (h.observe r runs old new reporter).progress.Done := by
  unfold History.observe Progress.Done at *
  rcases hd with hp | hp <;> simp only [hp] <;> split_ifs <;> simp_all

theorem observe_returned (hp : h.progress = .returned) :
    (h.observe r runs old new reporter).progress = .returned := by
  simp [History.observe, hp]

theorem observe_ne_waiting (hp : h.progress ≠ .waiting) :
    (h.observe r runs old new reporter).progress ≠ .waiting := by
  unfold History.observe
  dsimp only
  split_ifs <;> simp_all

theorem observe_ne_waiting_of_inFlight (hne : new.phase = .nodeEffect)
    (hf : inPlaceRoundInFlight new r = true) :
    (h.observe r runs old new reporter).progress ≠ .waiting := by
  unfold History.observe
  dsimp only
  split_ifs <;> simp_all

/-- A DPU that is only moved was so before, or is moved by this write. -/
theorem observe_moved (hp : (h.observe r runs old new reporter).progress = .moved) :
    h.progress = .moved ∨
      h.progress = .waiting ∧ new.phase = .nodeEffect ∧ inPlaceRoundInFlight new r = true := by
  unfold History.observe at hp
  dsimp only at hp
  split_ifs at hp <;> simp_all

/-- A DPU that leaves DPU Config on the method of a run that started after it entered is served. -/
theorem observe_leaves {k : ℕ} (hold : old.phase = .dpuConfig)
    (hl : leavesConfig new.phase = true) (hr : reporter = some k)
    (hk : h.runsAtEntry ≤ k) (hp : h.progress = .moved) :
    (h.observe r runs old new reporter).progress.Done := by
  unfold History.observe Progress.Done
  simp only [hold, hl, hr, hp, any_some, hk, decide_true]
  split_ifs <;> simp_all

theorem observe_served (hp : (h.observe r runs old new reporter).progress = .served)
    (hr : new.phase = .ready) : new.readySince = none := by
  unfold History.observe at hp
  dsimp only at hp
  split_ifs at hp <;> simp_all

theorem observe_runsAtEntry_of_same (hph : new.phase = old.phase) :
    (h.observe r runs old new reporter).runsAtEntry = h.runsAtEntry := by
  unfold History.observe
  simp [hph]

theorem observe_runsAtEntry_le (he : h.runsAtEntry ≤ runs) :
    (h.observe r runs old new reporter).runsAtEntry ≤ runs := by
  unfold History.observe
  dsimp only
  split_ifs <;> omega

/-- A write of the controller keeps the invariant if it keeps the parts that it can touch. -/
theorem DpuInv.observe (hinv : DpuInv r opens h d) (new : DPUStatus)
    (hre : new.dpuReconfig = d.status.dpuReconfig) (ho : new.outdated = d.status.outdated)
    (hle : ∀ k, Records new k → k ≤ r) (hreco : h.member = true → Records new r →
      (h.observe r runs d.status new reporter).progress ≠ .waiting ∨ new.phase = .error)
    (hmo : h.member = true → (h.observe r runs d.status new reporter).progress = .moved →
      reconfigInProgress d.status.dpuReconfig = true ∧ reconfigRound d.status.dpuReconfig = r ∧
        (new.phase = .nodeEffect ∨ new.phase = .dpuConfig ∨ new.phase = .error))
    (hsta : h.member = true → (h.observe r runs d.status new reporter).progress = .moved →
      new.phase = .dpuConfig →
      StaleNoted (h.observe r runs d.status new reporter).runsAtEntry new)
    (hsi : h.member = true → ∀ s t, opens s → new.readySince = some t → s ≤ t → h.progress.Done)
    (rv : ℕ) :
    DpuInv r opens (h.observe r runs d.status new reporter)
      { d with resourceVersion := rv, status := new } where
  round_le := by
    rw [hre]
    exact hinv.round_le
  records_le := hle
  alive hm := ⟨(hinv.alive hm).1, ho.trans (hinv.alive hm).2⟩
  recorded := hreco
  moved hm hp := by
    rw [hre]
    exact hmo hm hp
  stale := hsta
  since hm s t hs ht hst := observe_done (hsi hm s t hs ht hst)
  back _ hp hrd := observe_served hp hrd
  cleared hm hr hc := by
    rw [hre] at hr hc
    exact observe_returned (hinv.cleared hm hr hc)

end Observe

@[simp] theorem mergeRest_readySince (base next current : DPUStatus) :
    (mergeRest base next current).readySince = current.readySince := rfl

theorem mergeRest_phase {base next current : DPUStatus} (h : current.phase = base.phase) :
    (mergeRest base next current).phase = next.phase := by
  unfold mergeRest
  rw [h]
  exact patchField_base _ _

theorem mergeRest_noted {base next current : DPUStatus}
    (h : current.agentLastStartupTime = base.agentLastStartupTime) :
    (mergeRest base next current).agentLastStartupTime = next.agentLastStartupTime := by
  unfold mergeRest
  rw [h]
  exact patchField_base _ _

/-- The conditions on the DPU after the write are those that were decided. -/
theorem mergeConditions_inFlight {base : DPU}
    (hc : d.status.reconfiguring = base.status.reconfiguring) (next : DPUStatus) (k : ℕ) :
    inPlaceRoundInFlight (mergeConditions base.status next d.status) k =
      inPlaceRoundInFlight next k := by
  unfold inPlaceRoundInFlight mergeConditions
  dsimp only
  split_ifs with hs
  · rw [hc, hs]
  · cases next.reconfiguring <;> rfl

theorem mergeConditions_records {base : DPU}
    (hc : d.status.reconfiguring = base.status.reconfiguring) (next : DPUStatus) (k : ℕ) :
    Records (mergeConditions base.status next d.status) k ↔ Records next k := by
  have hr : inPlaceAlreadyReturned (mergeConditions base.status next d.status) k =
      inPlaceAlreadyReturned next k := by
    unfold inPlaceAlreadyReturned mergeConditions
    dsimp only
    split_ifs with hs
    · rw [hc, hs]
    · cases next.reconfiguring <;> rfl
  unfold Records
  rw [mergeConditions_inFlight hc, hr]

theorem mergeConditions_readySince {base : DPU} (next : DPUStatus) :
    (mergeConditions base.status next d.status).readySince = d.status.readySince ∨
      (mergeConditions base.status next d.status).readySince = next.readySince.map persisted := by
  unfold mergeConditions
  by_cases hs : next.ready = base.status.ready
  · left
    exact readySince_congr (if_pos hs)
  · right
    unfold DPUStatus.readySince
    dsimp only
    rw [if_neg hs]
    cases next.ready with
    | none => rfl
    | some c =>
      simp only [map_some, Condition.stored]
      split_ifs <;> rfl

/-! ### The steps of a reconcile -/

/-- A DPU that is only moved is in none of the phases of a round that was served. -/
theorem DpuInv.done_of_records (hinv : DpuInv r opens h d) (hm : h.member = true)
    (hre : Records d.status r) (hr : d.status.phase = .ready) : h.progress.Done := by
  have hw := hinv.recorded hm hre
  have hmo := hinv.moved hm
  rw [hr] at hw hmo
  cases hp : h.progress with
  | waiting => simp [hp] at hw
  | moved => simpa using (hmo hp).2.2
  | served => exact .inl rfl
  | returned => exact .inr rfl

theorem DpuInv.base (hinv : DpuInv r opens h d) : BaseInv r h d d where
  phase := rfl
  noted := rfl
  round_le := hinv.round_le
  round hr := hr
  deleting hd := hd
  moved hm hp := ⟨(hinv.moved hm hp).1, (hinv.moved hm hp).2.1⟩
  stale := hinv.stale
  cleared := hinv.cleared
  reported a ha := ⟨a, ha, le_rfl⟩

theorem BaseInv.alive {base : DPU} (hb : BaseInv r h d base) (hinv : DpuInv r opens h d)
    (hm : h.member = true) : base.deleting = false := by
  by_contra hd
  have := hb.deleting (by simpa using hd)
  simp [(hinv.alive hm).1] at this

/-- If the reconcile records the round on a waiting DPU, the DPU is marked for the round. -/
theorem BaseInv.marked {base : DPU} (hb : BaseInv r h d base) (hinv : DpuInv r opens h d)
    (hm : h.member = true) (hp : h.progress = .waiting)
    (hr : reconfigRound base.status.dpuReconfig = r) :
    reconfigInProgress base.status.dpuReconfig = true ∧
      reconfigInProgress d.status.dpuReconfig = true ∧ reconfigRound d.status.dpuReconfig = r := by
  refine ⟨?_, ?_, hb.round hr⟩
  · by_contra hc
    have := hb.cleared hm hr (by simpa using hc)
    simp [hp] at this
  · by_contra hc
    have := hinv.cleared hm (hb.round hr) (by simpa using hc)
    simp [hp] at this

theorem pendingReady_of_handle {base : DPU} {jump : Bool} (hinv : DpuInv r opens h d)
    (hb : BaseInv r h d base) (hu : Unwritten d base) (hd : reconcile env base = (next, jump))
    (hg : h.member = true → ∀ s, opens s → TurnsReady env base → Records base.status r) :
    PendingReady opens h next := by
  intro hm s t hs ht hle
  cases jump with
  | true =>
    rw [(reconcile_jumps hd).ready] at ht
    simp at ht
  | false =>
    rcases (reconcile_decides hd).ready t ht with hsi | ⟨htu, _⟩
    · rw [← readySince_congr hu.1] at hsi
      exact hinv.since hm s t hs hsi (hle.trans (persisted_le t))
    · refine hinv.done_of_records hm ?_ (hb.phase.trans htu.1)
      rw [records_congr hu.2]
      exact hg hm s hs htu

theorem DpuInv.writeConditions {base : DPU} (hinv : DpuInv r opens h d) (hb : BaseInv r h d base)
    (hu : Unwritten d base) (hd : reconcile env base = (next, false))
    (hpe : PendingReady opens h next) (runs rv : ℕ) :
    DpuInv r opens (h.observe r runs d.status (mergeConditions base.status next d.status) none)
        { d with resourceVersion := rv, status := mergeConditions base.status next d.status } ∧
      BaseInv r (h.observe r runs d.status (mergeConditions base.status next d.status) none)
        { d with resourceVersion := rv, status := mergeConditions base.status next d.status }
        base := by
  have hde := reconcile_decides hd
  have he := @observe_runsAtEntry_of_same r h runs d.status
    (mergeConditions base.status next d.status) none rfl
  -- A reconcile that records the round on a waiting DPU is that of Node Effect on a marked DPU.
  have hn : ∀ k, Records next k → Records d.status k ∨
      reconfigRound base.status.dpuReconfig = k ∧
        (reconfigInProgress base.status.dpuReconfig = true →
          d.status.phase = .nodeEffect ∧ inPlaceRoundInFlight next k = true) := by
    intro k hk
    rcases hde.records k hk with hre | ⟨hro, hmark⟩
    · exact .inl ((records_congr hu.2 k).mpr hre)
    · refine .inr ⟨hro, fun hc => ⟨?_, (hmark hc).2⟩⟩
      rw [hb.phase]
      exact (hmark hc).1
  have hma : h.member = true → h.progress = .waiting → d.status.phase = .nodeEffect →
      inPlaceRoundInFlight next r = true →
      reconfigInProgress base.status.dpuReconfig = true ∧
        reconfigInProgress d.status.dpuReconfig = true ∧
        reconfigRound d.status.dpuReconfig = r ∧
        reconfigRound base.status.dpuReconfig = r := by
    intro hm hp hne hf
    rcases hn r (.inl hf) with hre | ⟨hro, _⟩
    · rcases hinv.recorded hm hre with hw | her
      · exact absurd hp hw
      · rw [hne] at her
        simp at her
    · obtain ⟨h1, h2, h3⟩ := hb.marked hinv hm hp hro
      exact ⟨h1, h2, h3, hro⟩
  refine ⟨?_, ?_⟩
  · refine hinv.observe (mergeConditions base.status next d.status) rfl rfl
      (fun k hk => ?_) (fun hm hre => ?_) (fun hm hp => ?_) (fun hm hp hcf => ?_)
      (fun hm s t hs ht hst => ?_) rv
    · rw [mergeConditions_records hu.2] at hk
      rcases hn k hk with hre | ⟨hro, _⟩
      · exact hinv.records_le k hre
      · rw [← hro]
        exact hb.round_le
    · rw [mergeConditions_records hu.2] at hre
      rcases hn r hre with hre | ⟨hro, hmark⟩
      · rcases hinv.recorded hm hre with hw | her
        · exact .inl (observe_ne_waiting hw)
        · exact .inr her
      · left
        by_cases hc : reconfigInProgress base.status.dpuReconfig = true
        · exact observe_ne_waiting_of_inFlight (hmark hc).1
            ((mergeConditions_inFlight hu.2 next r).trans (hmark hc).2)
        · rw [observe_returned (hb.cleared hm hro (by simpa using hc))]
          simp
    · rcases observe_moved hp with hp | ⟨hp, hne, hf⟩
      · exact hinv.moved hm hp
      · rw [mergeConditions_inFlight hu.2] at hf
        obtain ⟨_, h2, h3, _⟩ := hma hm hp hne hf
        exact ⟨h2, h3, .inl hne⟩
    · rcases observe_moved hp with hp | ⟨hp, hne, hf⟩
      · rw [he]
        exact hinv.stale hm hp hcf
      · rw [hne] at hcf
        simp at hcf
    · rcases mergeConditions_readySince next with hsa | hnext
      · rw [hsa] at ht
        exact hinv.since hm s t hs ht hst
      · rw [hnext] at ht
        obtain ⟨u, hu', rfl⟩ := map_eq_some_iff.mp ht
        exact hpe hm s u hs hu' hst
  · exact
      { phase := hb.phase
        noted := hb.noted
        round_le := hb.round_le
        round := hb.round
        deleting := hb.deleting
        moved := fun hm hp => by
          rcases observe_moved hp with hp | ⟨hp, hne, hf⟩
          · exact hb.moved hm hp
          · rw [mergeConditions_inFlight hu.2] at hf
            obtain ⟨h1, _, _, h4⟩ := hma hm hp hne hf
            exact ⟨h1, h4⟩
        stale := fun hm hp hcf => by
          rcases observe_moved hp with hp | ⟨hp, hne, _⟩
          · rw [he]
            exact hb.stale hm hp hcf
          · have hph : d.status.phase = .nodeEffect := hne
            rw [hb.phase, hcf] at hph
            simp at hph
        cleared := fun hm hr hc => observe_returned (hb.cleared hm hr hc)
        reported := hb.reported }

/-- A startup time that DPU Config acts on was reported by a run that started after the DPU
entered. -/
theorem StaleNoted.reportedBy {k : ℕ} {s : DPUStatus} (hs : StaleNoted k s) {startup : Time}
    (hf : FreshStartup s startup) : ∃ a, s.agentStatus = some a ∧ k ≤ a.reportedBy := by
  obtain ⟨a, ha, hst, hno⟩ := hf
  refine ⟨a, ha, ?_⟩
  by_contra hlt
  rcases hs a ha (by omega) with hn | hsa
  · simp [hst] at hn
  · exact hno (hsa.trans hst)

theorem DpuInv.writeStatus {base : DPU} (hinv : DpuInv r opens h d) (hb : BaseInv r h d base)
    (hd : reconcile env base = (next, false)) {runs : ℕ}
    (hg : h.member = true → base.status.phase = .nodeEffect → next.phase = .dpuConfig →
      startupTime base.status = startupTime d.status) (rv : ℕ) :
    DpuInv r opens
      (h.observe r runs d.status (mergeRest base.status next d.status)
        (base.status.agentStatus.map AgentStatus.reportedBy))
      { d with resourceVersion := rv, status := mergeRest base.status next d.status } := by
  have hde := reconcile_decides hd
  have hph := @mergeRest_phase _ next _ hb.phase
  have hno := @mergeRest_noted _ next _ hb.noted
  -- A moved DPU is still moved only if it did not leave DPU Config on a fresh startup time.
  have hst : h.member = true →
      (h.observe r runs d.status (mergeRest base.status next d.status)
        (base.status.agentStatus.map AgentStatus.reportedBy)).progress = .moved →
      h.progress = .moved := by
    intro hm hp
    rcases observe_moved hp with hp | ⟨hp, hne, hf⟩
    · exact hp
    · rcases hinv.recorded hm (.inl hf) with hw | he
      · exact absurd hp hw
      · have := hde.error (hb.phase.symm.trans he) (hb.alive hinv hm)
        rw [hph, this] at hne
        simp at hne
  refine hinv.observe (mergeRest base.status next d.status) rfl rfl hinv.records_le
    (fun hm hr => ?_) (fun hm hp => ?_) (fun hm hp hcf => ?_) hinv.since rv
  · rcases hinv.recorded hm hr with hw | he
    · exact .inl (observe_ne_waiting hw)
    · right
      rw [hph]
      exact hde.error (hb.phase.symm.trans he) (hb.alive hinv hm)
  · have hp' := hst hm hp
    obtain ⟨hma, hro, hc⟩ := hinv.moved hm hp'
    refine ⟨hma, hro, ?_⟩
    rw [hph]
    rcases hc with hne | hcf | he
    · rcases hde.nodeEffect (hb.phase.symm.trans hne) (hb.alive hinv hm) (hb.moved hm hp').1
        with h | h | h
      · exact .inl h
      · exact .inr (.inr h)
      · exact .inr (.inl h.1)
    · have hba := hb.phase.symm.trans hcf
      rcases hde.config hba (hb.alive hinv hm) with ⟨h, _⟩ | ⟨startup, hfr, _, hmem⟩
      · exact .inr h
      · obtain ⟨a, ha, hk⟩ := (hb.stale hm hp' hba).reportedBy hfr
        have hleft : leavesConfig next.phase = true → False := fun hlea => by
          have := @observe_leaves r h runs d.status (mergeRest base.status next d.status)
            (base.status.agentStatus.map AgentStatus.reportedBy) a.reportedBy hcf
            (by rw [hph]; exact hlea) (by rw [ha]; rfl) hk hp'
          rw [hp] at this
          simp [Progress.Done] at this
        simp only [List.mem_cons, List.not_mem_nil, or_false] at hmem
        rcases hmem with h | h | h | h | h
        · exact .inr (.inl h)
        · exact absurd (by rw [h]; rfl) hleft
        · exact absurd (by rw [h]; rfl) hleft
        · exact absurd (by rw [h]; rfl) hleft
        · exact .inr (.inr h)
    · exact .inr (.inr (hde.error (hb.phase.symm.trans he) (hb.alive hinv hm)))
  · have hp' := hst hm hp
    have hn : next.phase = .dpuConfig := hph.symm.trans hcf
    intro a ha hlt
    rw [hno]
    have ha' : d.status.agentStatus = some a := ha
    rcases (hinv.moved hm hp').2.2 with hne | hold | he
    · -- Entering: the startup time that was noted is the stored one.
      cases hl : a.lastStartupTime with
      | none => exact .inl rfl
      | some t =>
        right
        have hba := hb.phase.symm.trans hne
        have hs := hg hm hba hn
        unfold startupTime at hs
        rw [ha', bind_some, hl] at hs
        obtain ⟨a0, ha0, ht0⟩ := bind_eq_some_iff.mp hs
        rcases hde.nodeEffect hba (hb.alive hinv hm) (hb.moved hm hp').1 with h | h | h
        · rw [hn] at h
          simp at h
        · rw [hn] at h
          simp at h
        · exact h.2 a0 ha0 t ht0
    · have hba := hb.phase.symm.trans hold
      rw [observe_runsAtEntry_of_same (by rw [hph, hn, hold])] at hlt
      rcases hde.config hba (hb.alive hinv hm) with ⟨_, hs⟩ | ⟨startup, hfr, _, _⟩
      · rw [hs, ← hb.noted]
        exact hinv.stale hm hp' hold a ha' hlt
      · obtain ⟨a0, ha0, hk⟩ := (hb.stale hm hp' hba).reportedBy hfr
        obtain ⟨a1, ha1, hle⟩ := hb.reported a0 ha0
        rw [ha'] at ha1
        cases ha1
        omega
    · rw [hde.error (hb.phase.symm.trans he) (hb.alive hinv hm)] at hn
      simp at hn

theorem DpuInv.writeJump {base : DPU} (hinv : DpuInv r opens h d) (hb : BaseInv r h d base)
    (hu : Unwritten d base) (hd : reconcile env base = (next, true)) (runs rv : ℕ) :
    DpuInv r opens
      (h.observe r runs d.status
        (mergeRest base.status next (mergeConditions base.status next d.status)) none)
      { d with
        resourceVersion := rv
        status := mergeRest base.status next (mergeConditions base.status next d.status) } := by
  have hj := reconcile_jumps hd
  have hph : (mergeRest base.status next (mergeConditions base.status next d.status)).phase =
      next.phase := mergeRest_phase hb.phase
  have hre : ∀ k,
      Records (mergeRest base.status next (mergeConditions base.status next d.status)) k ↔
        reconfigRound base.status.dpuReconfig = k := fun k =>
    (mergeConditions_records hu.2 next k).trans (hj.records k)
  have hw : h.member = true → h.progress ≠ .moved := by
    intro hm hp
    have hl := hj.leaves
    rw [← hb.phase] at hl
    rcases (hinv.moved hm hp).2.2 with h | h | h <;> simp [h, phaseJumpsForInPlace] at hl
  refine hinv.observe
    (mergeRest base.status next (mergeConditions base.status next d.status)) rfl rfl
    (fun k hk => ?_) (fun hm hr => ?_) (fun hm hp => ?_) (fun hm hp hc => ?_)
    (fun hm s t hs ht hst => ?_) rv
  · rw [← (hre k).mp hk]
    exact hb.round_le
  · rw [hph]
    rcases hj.phase with hne | he
    · left
      refine observe_ne_waiting_of_inFlight (hph.trans hne) ?_
      have hro := (hre r).mp hr
      rw [← hro]
      exact (mergeConditions_inFlight hu.2 next _).trans hj.inFlight
    · exact .inr he
  · rcases observe_moved hp with hp | ⟨hp, hne, hf⟩
    · exact absurd hp (hw hm)
    · obtain ⟨_, h2, h3⟩ := hb.marked hinv hm hp ((hre r).mp (.inl hf))
      exact ⟨h2, h3, .inl hne⟩
  · rw [hph] at hc
    rcases hj.phase with h | h <;> simp [hc] at h
  · rcases @mergeConditions_readySince d base next with hsa | hn
    · rw [mergeRest_readySince, hsa] at ht
      exact hinv.since hm s t hs ht hst
    · rw [mergeRest_readySince, hn, hj.ready] at ht
      simp at ht

/-! ### Steps at a DPU -/

/-- A step that stores a DPU with the same agent status. -/
theorem SiteInv.write (h : SiteInv r opens n s) {t' : Option Thread} (hd : s.dpu = some d)
    (hdp : DpuInv r opens h' d') (hn : d'.name = d.name)
    (hag : d'.status.agentStatus = d.status.agentStatus) (he : h'.runsAtEntry ≤ s.runs)
    (hth : ∀ t, t' = some t → ThreadInv r opens h' d' t) :
    SiteInv r opens n { s with dpu := some d', thread := t', history := h' } where
  name x hx := by
    cases hx
    exact hn.trans (h.name d hd)
  dpu x hx := by
    cases hx
    exact hdp
  thread t ht := ⟨d', rfl, hth t ht⟩
  agent :=
    { entry := he
      run := h.agent.run
      unpushed := h.agent.unpushed
      pushed := fun a x ha hx hp => by
        cases hx
        rw [hag]
        exact h.agent.pushed a d ha hd hp
      reported := fun x st hx hst => by
        cases hx
        rw [hag] at hst
        exact h.agent.reported d st hd hst }

/-- A DPU that left the round has little to keep. -/
theorem DpuInv.leave (hinv : DpuInv r opens h d) (hm : h'.member = false)
    (hre : d'.status.dpuReconfig = d.status.dpuReconfig)
    (hr : d'.status.reconfiguring = d.status.reconfiguring) : DpuInv r opens h' d' where
  round_le := by
    rw [hre]
    exact hinv.round_le
  records_le k hk := hinv.records_le k ((records_congr hr k).mp hk)
  alive := by simp [hm]
  recorded := by simp [hm]
  moved := by simp [hm]
  stale := by simp [hm]
  since := by simp [hm]
  back := by simp [hm]
  cleared := by simp [hm]

theorem SiteInv.setThread (h : SiteInv r opens n s) {t' : Option Thread}
    (ht : ∀ t, t' = some t → ∃ d, s.dpu = some d ∧ ThreadInv r opens s.history d t) :
    SiteInv r opens n { s with thread := t' } where
  name := h.name
  dpu := h.dpu
  thread := ht
  agent := ⟨h.agent.entry, h.agent.run, h.agent.unpushed, h.agent.pushed, h.agent.reported⟩

theorem SiteInv.setAgent (h : SiteInv r opens n s) {runs : ℕ} (hru : s.runs ≤ runs)
    (hid : a.id < runs) (hre : a.status.reportedBy = a.id)
    (hu : a.pushed = false → a.status.rebootMethod.isSome = true)
    (hpu : ∀ d, s.dpu = some d → a.pushed = true →
      ∃ st, d.status.agentStatus = some st ∧ st.reportedBy = a.id)
    (hr : ∀ d st, s.dpu = some d → d.status.agentStatus = some st → st.reportedBy ≤ a.id) :
    SiteInv r opens n { s with agent := some a, runs := runs } where
  name := h.name
  dpu := h.dpu
  thread := h.thread
  agent :=
    { entry := h.agent.entry.trans hru
      run := fun b hb => by
        cases hb
        exact ⟨hid, hre⟩
      unpushed := fun b hb hp => by
        cases hb
        exact hu hp
      pushed := fun b d hb hd hp => by
        cases hb
        exact hpu d hd hp
      reported := fun d st hd hst => by
        refine ⟨(h.agent.reported d st hd hst).1.trans_le hru, fun b hb => ?_⟩
        cases hb
        exact hr d st hd hst }

theorem SiteInv.setAgentStatus (h : SiteInv r opens n s) (ha : s.agent = some a)
    {status : AgentStatus} (hby : status.reportedBy = a.status.reportedBy)
    (hm : a.pushed = false → status.rebootMethod = a.status.rebootMethod) :
    SiteInv r opens n { s with agent := some { a with status := status } } := by
  obtain ⟨hid, hr⟩ := h.agent.run a ha
  refine h.setAgent le_rfl hid (hby.trans hr) (fun hp => ?_)
    (fun d hd hp => h.agent.pushed a d ha hd hp)
    (fun d st hd hst => (h.agent.reported d st hd hst).2 a ha)
  change status.rebootMethod.isSome = true
  rw [hm hp]
  exact h.agent.unpushed a ha hp

theorem SiteInv.handle (h : SiteInv r opens n s) (hop : ∀ t, opens t → isOpen = true)
    (hok : s.allowed r isOpen (.handle env) = true) (he : s.handle now env = some s') :
    SiteInv r opens n s' := by
  unfold Site.handle at he
  split at he
  · rename_i base hba
    cases he
    obtain ⟨d, hd, hb, hu⟩ := h.thread _ hba
    refine h.setThread fun t ht => ⟨d, hd, ?_⟩
    cases ht
    refine ⟨hb, hu, ⟨{ env with now := now }, rfl⟩, ?_⟩
    refine pendingReady_of_handle (h.dpu d hd) hb hu rfl fun hm u ho htu => ?_
    have hturns' : TurnsReady env base := htu
    simpa [Site.allowed, hba, hm, hop u ho, hturns'] using hok
  · simp at he

theorem SiteInv.writeJump (h : SiteInv r opens n s) (he : s.writeJump r ok = some s') :
    SiteInv r opens n s' := by
  unfold Site.writeJump at he
  split at he
  · rename_i base next d ht hd
    obtain ⟨d', hd', hb, hu, ⟨env, hde⟩, _⟩ := h.thread _ ht
    cases hd.symm.trans hd'
    split_ifs at he
    · cases he
      exact h.write hd ((h.dpu d hd).writeJump hb hu hde s.runs _) rfl rfl
        (observe_runsAtEntry_le h.agent.entry) (by simp)
    · cases he
      exact h.setThread (by simp)
  · simp at he

theorem SiteInv.writeConditions (h : SiteInv r opens n s) (he : s.writeConditions r ok = some s') :
    SiteInv r opens n s' := by
  unfold Site.writeConditions at he
  split at he
  · rename_i base next d hth hd
    obtain ⟨d', hd', hb, hu, ⟨env, hde⟩, hp⟩ := h.thread _ hth
    cases hd.symm.trans hd'
    split_ifs at he
    · cases he
      obtain ⟨hdp, hba⟩ := (h.dpu d hd).writeConditions hb hu hde hp s.runs
        (d.resourceVersion + 1)
      refine h.write hd hdp rfl rfl (observe_runsAtEntry_le h.agent.entry) fun t ht => ?_
      cases ht
      exact ⟨hba, env, hde⟩
    · cases he
      refine h.setThread fun t ht => ⟨d, hd, ?_⟩
      cases ht
      exact ⟨hb, env, hde⟩
  · simp at he

theorem SiteInv.writeStatus (h : SiteInv r opens n s)
    (hok : s.allowed r isOpen (.writeStatus ok) = true) (he : s.writeStatus r ok = some s') :
    SiteInv r opens n s' := by
  unfold Site.writeStatus at he
  split at he
  · rename_i base next d ht hd
    obtain ⟨d', hd', hb, env, hde⟩ := h.thread _ ht
    cases hd.symm.trans hd'
    split_ifs at he with hw
    · cases he
      refine h.write hd ((h.dpu d hd).writeStatus hb hde (fun hm hne hc => ?_) _) rfl rfl
        (observe_runsAtEntry_le h.agent.entry) (by simp)
      subst hw
      simpa [Site.allowed, ht, hd, hm, hne, hc] using hok
    · cases he
      exact h.setThread (by simp)
  · simp at he

/-- After a push the stored reboot method is the run's. -/
theorem mergeAgentStatus_reportedBy (h : SiteInv r opens n s) (ha : s.agent = some a)
    (hd : s.dpu = some d) : (mergeAgentStatus d.status.agentStatus a.status).reportedBy = a.id := by
  unfold mergeAgentStatus
  dsimp only
  split_ifs with hm
  · exact (h.agent.run a ha).2
  · have hp : a.pushed = true := by
      by_contra hp
      exact hm (h.agent.unpushed a ha (by simpa using hp))
    obtain ⟨st, hst, hby⟩ := h.agent.pushed a d ha hd hp
    rw [hst]
    exact hby

theorem SiteInv.agentPush (h : SiteInv r opens n s) (hok : s.allowed r isOpen .agentPush = true)
    (he : s.agentPush = some s') : SiteInv r opens n s' := by
  unfold Site.agentPush at he
  split at he
  · rename_i a d ha hd
    cases he
    have hby := mergeAgentStatus_reportedBy h ha hd
    obtain ⟨hid, hre⟩ := h.agent.run a ha
    have hinv := h.dpu d hd
    -- In DPU Config a push of an earlier run leaves the startup time alone.
    have hsta : s.history.member = true → s.history.progress = .moved →
        d.status.phase = .dpuConfig →
        StaleNoted s.history.runsAtEntry { d.status with
          agentStatus := some (mergeAgentStatus d.status.agentStatus a.status) } := by
      intro hm hp hc st hst hlt
      cases hst
      rw [hby] at hlt
      have hs : (mergeAgentStatus d.status.agentStatus a.status).lastStartupTime =
          startupTime d.status := by
        simpa [Site.allowed, ha, hd, hm, hc, hlt] using hok
      rw [hs]
      unfold startupTime
      cases hag : d.status.agentStatus with
      | none => exact .inl rfl
      | some st =>
        exact hinv.stale hm hp hc st hag
          (((h.agent.reported d st hd hag).2 a ha).trans_lt hlt)
    refine
      { name := fun x hx => ?_
        dpu := fun x hx => ?_
        thread := fun t ht => ?_
        agent := ⟨h.agent.entry, fun b hb => ?_, fun b hb hp => ?_, fun b x hb hx _ => ?_,
          fun x st hx hst => ?_⟩ }
    · cases hx
      exact h.name d hd
    · cases hx
      exact ⟨hinv.round_le, hinv.records_le, hinv.alive, hinv.recorded, hinv.moved, hsta,
        hinv.since, hinv.back, hinv.cleared⟩
    · obtain ⟨d', hd', hinv'⟩ := h.thread t ht
      cases hd.symm.trans hd'
      refine ⟨_, rfl, hinv'.frame (fun h => h) rfl rfl rfl rfl (fun hr => hr) (fun st hst => ?_)
        (fun hm => hm) rfl rfl⟩
      refine ⟨_, rfl, ?_⟩
      rw [hby]
      exact (h.agent.reported d st hd hst).2 a ha
    · cases hb
      exact ⟨hid, hre⟩
    · cases hb
      simp only [Bool.or_eq_false_iff] at hp
      exact h.agent.unpushed a ha hp.1
    · cases hb
      cases hx
      exact ⟨_, rfl, hby⟩
    · cases hx
      cases hst
      rw [hby]
      refine ⟨hid, fun b hb => ?_⟩
      cases hb
      exact le_rfl
  · simp at he

theorem SiteInv.exec (h : SiteInv r opens n s) {e : SiteEvent} (ho : ∀ t, opens t → isOpen = true)
    (hok : s.allowed r isOpen e = true) (he : s.exec r now e = some s') : SiteInv r opens n s' := by
  cases e with simp only [Site.exec] at he
  | delete =>
    split at he
    · rename_i d hd
      cases he
      refine h.write hd ((h.dpu d hd).leave rfl rfl rfl) rfl rfl h.agent.entry fun t ht => ?_
      obtain ⟨d', hd', hinv⟩ := h.thread t ht
      cases hd.symm.trans hd'
      exact hinv.frame (fun _ => rfl) rfl rfl rfl rfl (fun hr => hr) (fun a ha => ⟨a, ha, le_rfl⟩)
        (by simp) rfl rfl
    · simp at he
  | finalize =>
    split at he
    · rename_i d hd hth
      split_ifs at he
      cases he
      exact ⟨by simp, by simp, by simp [Site.leaveRound, hth],
        ⟨h.agent.entry, by simp, by simp, by simp, by simp⟩⟩
    · simp at he
  | read =>
    split at he
    · rename_i d hd hth
      cases he
      refine h.setThread fun t ht => ⟨d, hd, ?_⟩
      cases ht
      exact ⟨(h.dpu d hd).base, rfl, rfl⟩
    · simp at he
  | handle env => exact h.handle ho hok he
  | writeJump ok => exact h.writeJump he
  | writeConditions ok => exact h.writeConditions he
  | writeStatus ok => exact h.writeStatus hok he
  | stop =>
    cases he
    exact h.setThread (by simp)
  | agentStart version =>
    cases he
    exact h.setAgent (Nat.le_succ _) (Nat.lt_succ_self _) rfl (fun _ => rfl)
      (fun d hd hp => by simp at hp)
      (fun d st hd hst => (h.agent.reported d st hd hst).1.le)
  | agentStartup t | agentNICs c =>
    split at he
    · rename_i a ha
      cases he
      exact h.setAgentStatus ha rfl fun _ => rfl
    · simp at he
  | agentMethod m =>
    split at he
    · rename_i a ha
      split_ifs at he with hp
      cases he
      exact h.setAgentStatus ha rfl fun hp' => by simp [hp] at hp'
    · simp at he
  | agentPush => exact h.agentPush hok he
  | agentError =>
    split at he
    · rename_i d hd
      cases he
      have hinv := h.dpu d hd
      refine h.write hd ⟨hinv.round_le, hinv.records_le, hinv.alive, hinv.recorded, hinv.moved,
        hinv.stale, hinv.since, hinv.back, hinv.cleared⟩ rfl rfl h.agent.entry fun t ht => ?_
      obtain ⟨d', hd', hth⟩ := h.thread t ht
      cases hd.symm.trans hd'
      exact hth.frame (fun h => h) rfl rfl rfl rfl (fun hr => hr)
        (fun a ha => ⟨a, ha, le_rfl⟩) (fun hm => hm) rfl rfl
    · simp at he

/-- No step lets a DPU join the round or undoes its return. -/
structure Site.Keeps (s s' : Site) : Prop where
  member : s'.history.member = true → s.history.member = true
  returned : s.history.progress = .returned → s'.history.progress = .returned

/-- The DPU is the same one: its mark is as before, and a deletion is not taken back. -/
structure SameDPU (d d' : DPU) : Prop where
  name : d'.name = d.name
  reconfig : d'.status.dpuReconfig = d.status.dpuReconfig
  deleting : d.deleting = true → d'.deleting = true

/-- The steps at a DPU make no DPU, and leave `status.dpuReconfig` to the DPUSet controller. -/
structure Site.SameReconfig (s s' : Site) : Prop where
  known : s'.dpu.isSome = true → s.dpu.isSome = true
  same : ∀ d d', s.dpu = some d → s'.dpu = some d' → SameDPU d d'

theorem Site.keeps_of_same (hdp : s'.dpu = s.dpu) (hh : s'.history = s.history) :
    s.Keeps s' ∧ s.SameReconfig s' := by
  refine ⟨⟨fun hm => by rwa [← hh], fun hp => by rwa [hh]⟩, fun h => by rwa [← hdp], ?_⟩
  intro d d' hd hd'
  rw [hdp, hd] at hd'
  cases hd'
  exact ⟨rfl, rfl, fun hde => hde⟩

/-- What a step at a DPU can do to the object and to the history of the round. -/
inductive Site.Effect (s s' : Site) : Prop where
  | same (hdp : s'.dpu = s.dpu) (hh : s'.history = s.history)
  | gone (hdp : s'.dpu = none) (hm : s'.history.member = false)
      (hp : s'.history.progress = s.history.progress)
  | write {d d' : DPU} (hd : s.dpu = some d) (hd' : s'.dpu = some d') (hs : SameDPU d d')
      (hm : s'.history.member = true → s.history.member = true)
      (hr : s.history.progress = .returned → s'.history.progress = .returned)
      (hph : d'.status.phase = d.status.phase ∨
        (∃ base next, s.thread = some (.decided base next true) ∧
          d.resourceVersion = base.resourceVersion) ∨
        ∃ base next, s.thread = some (.conditionsWritten base next) ∧
          d'.status = mergeRest base.status next d.status)

theorem Site.exec_effect {e : SiteEvent} (he : s.exec r now e = some s') : s.Effect s' := by
  cases e with simp only [Site.exec] at he
  | delete =>
    split at he
    · rename_i d hd
      cases he
      exact .write hd rfl ⟨rfl, rfl, fun _ => rfl⟩ (by simp [Site.leaveRound]) id (.inl rfl)
    · simp at he
  | finalize =>
    split at he
    · split_ifs at he
      cases he
      exact .gone rfl rfl rfl
    · simp at he
  | read | agentStartup t | agentNICs c =>
    split at he
    · cases he
      exact .same rfl rfl
    · simp at he
  | handle env =>
    simp only [Site.handle] at he
    split at he
    · cases he
      exact .same rfl rfl
    · simp at he
  | writeJump ok =>
    simp only [Site.writeJump] at he
    split at he
    · rename_i base next d ht hd
      split_ifs at he with hl <;> cases he
      · rw [Bool.and_eq_true, beq_iff_eq] at hl
        exact .write hd rfl ⟨rfl, rfl, id⟩ id observe_returned (.inr (.inl ⟨base, next, ht, hl.2⟩))
      · exact .same rfl rfl
    · simp at he
  | writeConditions ok =>
    simp only [Site.writeConditions] at he
    split at he
    · rename_i base next d ht hd
      split_ifs at he <;> cases he
      · exact .write hd rfl ⟨rfl, rfl, id⟩ id observe_returned (.inl rfl)
      · exact .same rfl rfl
    · simp at he
  | writeStatus ok =>
    simp only [Site.writeStatus] at he
    split at he
    · rename_i base next d ht hd
      split_ifs at he <;> cases he
      · exact .write hd rfl ⟨rfl, rfl, id⟩ id observe_returned (.inr (.inr ⟨base, next, ht, rfl⟩))
      · exact .same rfl rfl
    · simp at he
  | stop | agentStart version =>
    cases he
    exact .same rfl rfl
  | agentMethod m =>
    split at he
    · split_ifs at he
      cases he
      exact .same rfl rfl
    · simp at he
  | agentPush =>
    simp only [Site.agentPush] at he
    split at he
    · rename_i a d ha hd
      cases he
      exact .write hd rfl ⟨rfl, rfl, id⟩ id id (.inl rfl)
    · simp at he
  | agentError =>
    split at he
    · rename_i d hd
      cases he
      exact .write hd rfl ⟨rfl, rfl, id⟩ id id (.inl rfl)
    · simp at he

theorem Site.exec_keeps {e : SiteEvent} (he : s.exec r now e = some s') :
    s.Keeps s' ∧ s.SameReconfig s' := by
  cases Site.exec_effect he with
  | same hdp hh => exact Site.keeps_of_same hdp hh
  | gone hdp hm hp => exact ⟨⟨by simp [hm], hp.trans⟩, by simp [hdp], by simp [hdp]⟩
  | write hd hd' hs hm hr _ =>
    refine ⟨⟨hm, hr⟩, fun _ => by simp [hd], ?_⟩
    intro e e' he he'
    cases hd.symm.trans he
    cases hd'.symm.trans he'
    exact hs

theorem Site.readyBefore_stored {t : Time} (h : s.readyBefore now = true) (hd : s.dpu = some d)
    (ht : d.status.readySince = some t) : t < persisted now := by
  unfold Site.readyBefore at h
  rw [hd, Bool.and_eq_true] at h
  have hall := h.1
  dsimp only at hall
  rw [ht, all_some] at hall
  exact of_decide_eq_true hall

theorem Site.readyBefore_pending {t : Time} {base : DPU} {jump : Bool}
    (h : s.readyBefore now = true) (hth : s.thread = some (.decided base next jump))
    (ht : next.readySince = some t) : persisted t < persisted now := by
  unfold Site.readyBefore at h
  rw [hth, Bool.and_eq_true] at h
  have hall := h.2
  dsimp only at hall
  rw [ht, all_some] at hall
  exact of_decide_eq_true hall

/-- A new round finds no DPU that records it, and nobody has got anywhere yet. -/
theorem SiteInv.startRound (h : SiteInv r opens n s) {r' : ℕ} (hr : r < r')
    (hrd : s.dpu.isSome = true → s.readyBefore now = true) (ho : ∀ t, opens' t → persisted now ≤ t)
    :
    SiteInv r' opens' n s.startRound where
  name := h.name
  dpu d hd := by
    have hinv := h.dpu d hd
    have hd' : s.dpu = some d := hd
    refine
      { round_le := hinv.round_le.trans hr.le
        records_le := fun k hk => (hinv.records_le k hk).trans hr.le
        alive := fun hm => ?_
        recorded := fun _ hre => absurd (hinv.records_le r' hre) (by omega)
        moved := fun _ hp => by simp [Site.startRound] at hp
        stale := fun _ hp => by simp [Site.startRound] at hp
        since := fun _ u t hu ht hle => ?_
        back := fun _ hp => by simp [Site.startRound] at hp
        cleared := fun _ hro => absurd hinv.round_le (by omega) }
    · simp only [Site.startRound, hd', Bool.and_eq_true, Bool.not_eq_true'] at hm
      exact ⟨hm.1.2, hm.2⟩
    · have hbe := Site.readyBefore_stored (hrd (by simp [hd'])) hd' ht
      exact absurd ((ho u hu).trans hle) (not_le.mpr hbe)
  thread t ht := by
    obtain ⟨d, hd, hinv⟩ := h.thread t ht
    refine ⟨d, hd, ?_⟩
    have hba : ∀ base, BaseInv r s.history d base → BaseInv r' s.startRound.history d base :=
      fun base hb =>
        { phase := hb.phase
          noted := hb.noted
          round_le := hb.round_le.trans hr.le
          round := fun hro => absurd hb.round_le (by omega)
          deleting := hb.deleting
          moved := fun _ hp => by simp [Site.startRound] at hp
          stale := fun _ hp => by simp [Site.startRound] at hp
          cleared := fun _ hro => absurd hb.round_le (by omega)
          reported := hb.reported }
    cases t with
    | read base | conditionsWritten base next => exact ⟨hba base hinv.1, hinv.2⟩
    | decided base next jump =>
      refine ⟨hba base hinv.1, hinv.2.1, hinv.2.2.1, fun _ u t hu ht' hle => ?_⟩
      have hbe := Site.readyBefore_pending (hrd (by simp [hd])) ht ht'
      exact absurd ((ho u hu).trans hle) (not_le.mpr hbe)
  agent := ⟨h.agent.entry, h.agent.run, h.agent.unpushed, h.agent.pushed, h.agent.reported⟩

/-- A round that is started again, after its DPUSet was not stored. -/
theorem SiteInv.reopen (h : SiteInv r opens n s)
    (hr : s.dpu.isSome = true → s.readyBefore now = true) (ho : ∀ t, opens' t → persisted now ≤ t) :
    SiteInv r opens' n s where
  name := h.name
  dpu d hd :=
    { h.dpu d hd with
      since := fun _ u t hu ht hle => by
        have hb := Site.readyBefore_stored (hr (by simp [hd])) hd ht
        exact absurd ((ho u hu).trans hle) (not_le.mpr hb) }
  thread t ht := by
    obtain ⟨d, hd, hinv⟩ := h.thread t ht
    refine ⟨d, hd, ?_⟩
    cases t with
    | read base => exact hinv
    | decided base next jump =>
      refine ⟨hinv.1, hinv.2.1, hinv.2.2.1, fun _ u t hu ht' hle => ?_⟩
      have hb := Site.readyBefore_pending (hr (by simp [hd])) ht ht'
      exact absurd ((ho u hu).trans hle) (not_le.mpr hb)
    | conditionsWritten base next => exact hinv
  agent := h.agent

end Site

end DocaPlatform.InPlaceRounds
