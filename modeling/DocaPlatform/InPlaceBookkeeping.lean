import DocaPlatform.InPlaceCompletion

/-!
# The books of in-place rounds

A round is written down twice: on the DPUSet, by the deferred patch that ends a pass, and on the
DPUs, by the patches that come before it. When DPUs are patched only while the round is open on the
API server, no DPU is ahead of the DPUSet and none is in progress outside a round. A pass that
opens a round patches DPUs first, so when its last write is lost the books disagree.
-/
namespace DocaPlatform.InPlaceRounds

open InPlaceReconfig DpuPhases Runs List Function

def inFlight (d : DPU) : Bool := !d.deleting && reconfigInProgress d.status.dpuReconfig

theorem inFlight_iff {d : DPU} :
    inFlight d = true ↔ d.deleting = false ∧ reconfigInProgress d.status.dpuReconfig = true := by
  simp [inFlight]

/-- A DPU is patched only while the stored DPUSet has an open round, and when a pass with the
annotation lists the DPUs, the agents of those in progress report a version. -/
def World.recorded (w : World) : Event → Bool
  | .passPatch true =>
    match w.pass with
    | some ⟨_, _, .patching _ _ (p :: _)⟩ =>
      (w.sites p.dpu.name).dpu.isNone || inPlaceRoundActive w.dpuSet
    | _ => true
  | .passList _ _ =>
    match w.pass with
    | some ⟨_, _, .opened true⟩ => w.getDPUs.all fun d => !inFlight d || agentSupportsInPlace d
    | _ => true
  | _ => true

/-- The DPU takes part in the round as `blocksRound` sees it; without the annotation every DPU that
is not being deleted does. -/
structure Member (requested : Bool) (d : DPU) : Prop where
  alive : d.deleting = false
  joins : requested = true → d.status.outdated = false ∧ agentSupportsInPlace d = true

/-- A patch that is still to be made: it moves the round and the completed round to the round of
the pass or not at all, and a new mark is that of a member. -/
structure Pending (round : ℕ) (requested : Bool) (p : PlannedReconfig) (next : DPUReconfigStatus) :
    Prop where
  planned : p.next = some next
  moves : next.round = reconfigRound p.dpu.status.dpuReconfig ∨ next.round = round
  completes : next.completedRound = completedRound p.dpu.status.dpuReconfig ∨
    next.completedRound = round
  mark : reconfigInProgress (some next) = true →
    reconfigInProgress p.dpu.status.dpuReconfig = false ∧ Member requested p.dpu

/-- A plan that keeps the round open. -/
def Outstanding (requested : Bool) (p : PlannedReconfig) : Prop :=
  reconfigInProgress p.effective = true ∧ Member requested p.dpu

/-- Every DPU in flight has a plan: one that keeps the round open, or one that is still to be
written over its mark. -/
structure Planned (sites : String → Site) (round : ℕ) (requested : Bool)
    (settled todo : List PlannedReconfig) : Prop where
  pending : ∀ p ∈ todo, ∃ next, Pending round requested p next
  covered : ∀ n d, (sites n).dpu = some d → inFlight d = true →
    (∃ p ∈ settled, Outstanding requested p) ∨
      ∃ p ∈ todo, p.dpu.name = n ∧ reconfigInProgress p.dpu.status.dpuReconfig = true

def Quiet (sites : String → Site) : Prop := ∀ n d, (sites n).dpu = some d → inFlight d = false

/-- The pass works on the stored round, or on the next one. -/
structure PassBooks (dpuSet : DPUSet) (sites : String → Site) (p : Pass) : Prop where
  base : p.base.dpuReconfig = dpuSet.dpuReconfig
  round_le : roundOf dpuSet ≤ roundOf p.set
  same : inPlaceRoundActive dpuSet = true → roundOf p.set = roundOf dpuSet
  stage : match p.stage with
    | .begun => p.set.dpuReconfig = p.base.dpuReconfig
    | .opened _ => inPlaceRoundActive p.set = true
    | .patching requested settled todo => inPlaceRoundActive p.set = true ∧
        Planned sites (roundOf p.set) requested settled todo
    | .closing => inPlaceRoundActive p.set = false → Quiet sites

/-- The DPUs agree with the DPUSet. -/
structure Books (w : World) : Prop where
  known : ∀ n d, (w.sites n).dpu = some d → n ∈ w.names ∧ d.name = n
  round_le : ∀ n d, (w.sites n).dpu = some d →
    reconfigRound d.status.dpuReconfig ≤ roundOf w.dpuSet
  completed_le : ∀ n d, (w.sites n).dpu = some d →
    completedRound d.status.dpuReconfig ≤ roundOf w.dpuSet
  active : ∀ n d, (w.sites n).dpu = some d → inFlight d = true → inPlaceRoundActive w.dpuSet = true
  pass : ∀ p, w.pass = some p → PassBooks w.dpuSet w.sites p

/-! ## Steps at the DPUs -/

/-- What a site holds is new, or the DPU that it held. -/
def Inherits (s s' : Site) : Prop :=
  ∀ d', s'.dpu = some d' →
    d'.status.dpuReconfig = none ∨ ∃ d, s.dpu = some d ∧ SameDPU d d'

variable {s s' : Site} {next : DPUReconfigStatus} {current : Option DPUReconfigStatus}

theorem Inherits.of_dpu (h : s'.dpu = s.dpu) : Inherits s s' :=
  fun d' hd' => .inr ⟨d', h ▸ hd', rfl, rfl, fun hd => hd⟩

theorem Inherits.of_same (h : s.SameReconfig s') : Inherits s s' := by
  intro d' hd'
  obtain ⟨d, hd⟩ := Option.isSome_iff_exists.mp (h.known (by simp [hd']))
  exact .inr ⟨d, hd, h.same d d' hd hd'⟩

theorem inherits_setSite {w : World} {name : String} (h : Inherits (w.sites name) s) (n : String) :
    Inherits (w.sites n) ((w.setSite name s).sites n) :=
  (forall_update_iff w.sites fun n s => Inherits (w.sites n) s).mpr
    ⟨h, fun _ _ => Inherits.of_dpu rfl⟩ n

theorem Inherits.inFlight (h : Inherits s s') {d' : DPU} (hd' : s'.dpu = some d')
    (hf : inFlight d' = true) : ∃ d, s.dpu = some d ∧ InPlaceRounds.inFlight d = true := by
  obtain ⟨ha, hp⟩ := inFlight_iff.mp hf
  rcases h d' hd' with hn | ⟨d, hd, hs⟩
  · simp [hn, reconfigInProgress] at hp
  · refine ⟨d, hd, inFlight_iff.mpr ⟨?_, by rwa [← hs.reconfig]⟩⟩
    by_contra hde
    rw [hs.deleting (by simpa using hde)] at ha
    simp at ha

variable {requested : Bool} {dpuSet : DPUSet}

section Frame

variable {sites sites' : String → Site} (hsites : ∀ n, Inherits (sites n) (sites' n))
include hsites

theorem Quiet.frame (h : Quiet sites) : Quiet sites' := by
  intro n d' hd'
  by_contra hf
  obtain ⟨d, hd, hb⟩ := (hsites n).inFlight hd' (by simpa using hf)
  simp [h n d hd] at hb

theorem Planned.frame {round : ℕ} {settled todo : List PlannedReconfig}
    (h : Planned sites round requested settled todo) :
    Planned sites' round requested settled todo where
  pending := h.pending
  covered n d' hd' hf := by
    obtain ⟨d, hd, hb⟩ := (hsites n).inFlight hd' hf
    exact h.covered n d hd hb

theorem PassBooks.frame {p : Pass} (h : PassBooks dpuSet sites p) : PassBooks dpuSet sites' p := by
  obtain ⟨base, set, stage⟩ := p
  refine ⟨h.base, h.round_le, h.same, ?_⟩
  cases stage with
  | begun => exact h.stage
  | opened requested => exact h.stage
  | patching requested settled todo => exact ⟨h.stage.1, h.stage.2.frame hsites⟩
  | closing => exact fun hc => (h.stage hc).frame hsites

end Frame

variable {w w' : World} {name : String}

/-- A step at the DPUs that marks none of them. -/
theorem Books.frame (h : Books w) (hse : w'.dpuSet.dpuReconfig = w.dpuSet.dpuReconfig)
    (hpa : w'.pass = w.pass) (hsites : ∀ n, Inherits (w.sites n) (w'.sites n))
    (hk : ∀ n d, (w'.sites n).dpu = some d → n ∈ w'.names ∧ d.name = n) : Books w' := by
  have hr : roundOf w'.dpuSet = roundOf w.dpuSet := by unfold roundOf; rw [hse]
  have hac : inPlaceRoundActive w'.dpuSet = inPlaceRoundActive w.dpuSet := by
    unfold inPlaceRoundActive
    rw [hse]
  refine ⟨hk, fun n d' hd' => ?_, fun n d' hd' => ?_, fun n d' hd' hf => ?_, fun p hp => ?_⟩
  · rw [hr]
    rcases hsites n d' hd' with hn | ⟨d, hd, hs⟩
    · simp [hn, reconfigRound]
    · rw [hs.reconfig]
      exact h.round_le n d hd
  · rw [hr]
    rcases hsites n d' hd' with hn | ⟨d, hd, hs⟩
    · simp [hn, completedRound]
    · rw [hs.reconfig]
      exact h.completed_le n d hd
  · rw [hac]
    obtain ⟨d, hd, hbe⟩ := (hsites n).inFlight hd' hf
    exact h.active n d hd hbe
  · rw [hpa] at hp
    obtain ⟨hb, hle, hs, hst⟩ := (h.pass p hp).frame hsites
    exact ⟨hse ▸ hb, hr ▸ hle, fun ha => hr ▸ hs (hac ▸ ha), hst⟩

theorem Books.setSite (h : Books w) (hs : (w.sites name).SameReconfig s) :
    Books (w.setSite name s) := by
  refine h.frame rfl rfl (inherits_setSite (.of_same hs))
    ((forall_update_iff w.sites fun n s => ∀ d', s.dpu = some d' →
      n ∈ w.names ∧ d'.name = n).mpr ⟨fun d' hd' => ?_, fun n _ => h.known n⟩)
  obtain ⟨d, hd⟩ := Option.isSome_iff_exists.mp (hs.known (by simp [hd']))
  rw [(hs.same d d' hd hd').name]
  exact h.known name d hd

theorem Books.create (h : Books w) (he : w.exec (.create name) = some w') : Books w' := by
  simp only [World.exec] at he
  split at he
  · simp at he
  · cases he
    refine h.frame rfl rfl (inherits_setSite fun d' hd' => ?_)
      ((forall_update_iff w.sites fun n s => ∀ d', s.dpu = some d' →
        n ∈ name :: w.names ∧ d'.name = n).mpr ⟨fun d' hd' => ?_, fun n _ d' hd' => ?_⟩)
    · cases hd'
      exact .inl rfl
    · cases hd'
      exact ⟨mem_cons_self, rfl⟩
    · exact (h.known n d' hd').imp_left (mem_cons_of_mem _)

theorem Books.outdated (h : Books w) {value : Bool}
    (he : w.exec (.outdated name value) = some w') : Books w' := by
  simp only [World.exec] at he
  split at he
  swap
  · simp at he
  rename_i d _ hd
  cases he
  refine h.setSite ⟨fun _ => by simp [hd], fun y y' hy hy' => ?_⟩
  cases hd.symm.trans hy
  cases value <;> cases hy' <;> exact ⟨rfl, rfl, fun hde => hde⟩

/-! ## Steps of the pass -/

theorem Books.setPass (h : Books w) {p : Pass} (hp : PassBooks w.dpuSet w.sites p) :
    Books { w with pass := some p } where
  known := h.known
  round_le := h.round_le
  completed_le := h.completed_le
  active := h.active
  pass q hq := by
    cases hq
    exact hp

/-- The pass opens the next round, or goes on with the open one. -/
theorem ensureInPlaceRound_spec (now : Time)
    (h : requested = true ∨ inPlaceRoundActive dpuSet = true) :
    inPlaceRoundActive (ensureInPlaceRound now dpuSet requested) = true ∧
      roundOf dpuSet ≤ roundOf (ensureInPlaceRound now dpuSet requested) ∧
      (inPlaceRoundActive dpuSet = true →
        roundOf (ensureInPlaceRound now dpuSet requested) = roundOf dpuSet) := by
  by_cases hac : inPlaceRoundActive dpuSet = true
  · obtain ⟨value, reconfig⟩ := dpuSet
    cases reconfig with
    | none => simp [inPlaceRoundActive] at hac
    | some status =>
      unfold ensureInPlaceRound
      rw [if_pos hac]
      exact ⟨hac, le_rfl, fun _ => rfl⟩
  · rw [Bool.not_eq_true] at hac
    obtain rfl : requested = true := h.resolve_right (by simp [hac])
    rw [ensureInPlaceRound_inactive hac]
    exact ⟨rfl, Nat.le_succ _, fun ha => by simp [hac] at ha⟩

theorem Books.passOpen (h : Books w) (he : w.passOpen = some w') : Books w' := by
  unfold World.passOpen at he
  split at he
  swap
  · simp at he
  rename_i base set hpa
  obtain ⟨hb, hle, hs, hbe⟩ := h.pass _ hpa
  have hse : set.dpuReconfig = w.dpuSet.dpuReconfig := Eq.trans hbe hb
  have hac : inPlaceRoundActive set = inPlaceRoundActive w.dpuSet := by
    unfold inPlaceRoundActive
    rw [hse]
  have hr : roundOf set = roundOf w.dpuSet := by unfold roundOf; rw [hse]
  by_cases hi : (!inPlaceReconfigRequested set && !inPlaceRoundActive set) = true
  · rw [if_pos hi] at he
    cases he
    refine h.setPass ⟨hb, hle, hs, fun hc n d hd => ?_⟩
    by_contra hf
    have := h.active n d hd (by simpa using hf)
    rw [← hac] at this
    simp [this] at hc
  · rw [if_neg hi] at he
    have ho : inPlaceReconfigRequested set = true ∨ inPlaceRoundActive set = true := by
      by_contra hn
      rw [not_or, Bool.not_eq_true, Bool.not_eq_true] at hn
      simp [hn.1, hn.2] at hi
    obtain ⟨ha, hm, hk⟩ := ensureInPlaceRound_spec w.clock ho
    have hp := h.setPass (p := ⟨base, ensureInPlaceRound w.clock set
        (inPlaceReconfigRequested set), .opened (inPlaceReconfigRequested set)⟩)
      ⟨hb, hr ▸ hm, fun hst => (hk (hac ▸ hst)).trans hr, ha⟩
    dsimp only at he
    split_ifs at he
    · cases he
      exact hp.frame rfl rfl (fun n => Inherits.of_dpu rfl) h.known
    · cases he
      exact hp

theorem Books.planned (h : Books w) {round : ℕ} {startedAt : Time} {maxUnavailable : ℤ} {total : ℕ}
    (hag : requested = true → ∀ d ∈ w.getDPUs, inFlight d = true → agentSupportsInPlace d = true) :
    let planned := planInPlace maxUnavailable total round startedAt requested (sortedDPUs w.getDPUs)
    Planned w.sites round requested (planned.filter fun p => p.next.isNone)
      ((planned.filter fun p => p.next.isSome && !reconfigInProgress p.next) ++
        planned.filter fun p => p.next.isSome && reconfigInProgress p.next) := by
  intro planned
  refine ⟨fun p hp => ?_, fun n d hd hf => ?_⟩
  · obtain ⟨hmem, hs⟩ : p ∈ planned ∧ p.next.isSome = true := by
      rcases mem_append.mp hp with hp | hp
      all_goals
        rw [mem_filter, Bool.and_eq_true] at hp
        exact ⟨hp.1, hp.2.1⟩
    obtain ⟨next, hnext⟩ := Option.isSome_iff_exists.mp hs
    refine ⟨next, ?_⟩
    obtain ⟨x, hx, ⟨rfl, _⟩ | ⟨_, slots, rfl⟩⟩ := mem_planInPlace hmem
    · obtain ⟨hi, hro, _, hdo⟩ := planInPlaceCompletion_settles hnext
      exact ⟨hnext, .inl hro, hdo.imp (fun hd => hd.2) (fun hd => hd.2.2),
        fun hpr => by simp [hi] at hpr⟩
    · obtain ⟨hi, hm⟩ := planInPlaceStart_marks hnext
      obtain ⟨hal, ho, ha⟩ := planInPlaceStart_joins hnext
      refine ⟨hnext, .inr (by rw [hm]), .inl (by rw [hm]; simp),
        fun _ => ⟨hi, ?_⟩⟩
      rw [planInPlaceStart_dpu]
      exact ⟨hal, fun _ => ⟨ho, ha⟩⟩
  · obtain ⟨hn, rfl⟩ := h.known n d hd
    have hl : d ∈ w.getDPUs :=
      mem_filterMap.mpr ⟨d.name, mem_dedup.mpr hn, hd⟩
    have hpl : d ∈ planned.map fun p => p.dpu := by
      rw [planInPlace_dpus]
      exact mem_sortedDPUs.mpr hl
    obtain ⟨p, hp, rfl⟩ := mem_map.mp hpl
    obtain ⟨hal, hpr⟩ := inFlight_iff.mp hf
    cases hnext : p.next with
    | some next =>
      refine .inr ⟨p, ?_, rfl, hpr⟩
      rw [mem_append, mem_filter, mem_filter]
      cases hma : reconfigInProgress p.next with
      | false => exact .inl ⟨hp, by simp [hnext]⟩
      | true => exact .inr ⟨hp, by simp [hnext]⟩
    | none =>
      refine .inl ⟨p, mem_filter.mpr ⟨hp, by simp [hnext]⟩, ?_, hal, fun hr => ?_⟩
      · simpa [PlannedReconfig.effective, hnext] using hpr
      · have ha := hag hr p.dpu hl hf
        refine ⟨?_, ha⟩
        obtain ⟨x, hx, ⟨rfl, hs⟩ | ⟨hno, slots, rfl⟩⟩ := mem_planInPlace hp
        · simp [hnext] at hs
        · rw [planInPlaceStart_dpu] at hal hpr ha ⊢
          exact planInPlaceCompletion_eq_none hno hal ha hpr

theorem Books.passList (h : Books w) {maxUnavailable : ℤ} {total : ℕ}
    (hok : w.recorded (.passList maxUnavailable total) = true)
    (he : w.passList maxUnavailable total = some w') : Books w' := by
  unfold World.passList at he
  split at he
  swap
  · simp at he
  rename_i base set requested hp
  split at he
  · simp at he
  rename_i status hst
  obtain ⟨hb, hle, hs, ho⟩ := h.pass _ hp
  have hr : roundOf set = status.round := by simp [roundOf, hst]
  have ha : requested = true → ∀ d ∈ w.getDPUs, inFlight d = true →
      agentSupportsInPlace d = true := by
    rintro rfl d hd hf
    simp only [World.recorded, hp, all_eq_true] at hok
    simpa [hf] using hok d hd
  cases he
  refine h.setPass ⟨hb, hle, hs, ho, ?_⟩
  rw [hr]
  exact h.planned ha

/-! ### Patching the DPUs -/

theorem reconfigInProgress_clone (s : Option DPUReconfigStatus) :
    reconfigInProgress (some (cloneReconfig s)) = reconfigInProgress s := by
  cases s <;> rfl

/-- After the patch a DPU is in progress if the patch says so, or if the patch says nothing of a
DPU that was. -/
theorem inProgress_of_patch {base : Option DPUReconfigStatus}
    (h : reconfigInProgress (some (patchDPUReconfig base next current)) = true) :
    reconfigInProgress (some next) = true ∨
      reconfigInProgress current = true ∧ reconfigInProgress base = false := by
  have hf : patchField (cloneReconfig base).inProgress next.inProgress
      (cloneReconfig current).inProgress = some true := by
    simpa [reconfigInProgress, patchDPUReconfig] using h
  unfold patchField at hf
  split_ifs at hf with hs
  · by_cases hn : reconfigInProgress (some next) = true
    · exact .inl hn
    · refine .inr ⟨?_, ?_⟩
      · rw [← reconfigInProgress_clone]
        simp [reconfigInProgress, hf]
      · rw [← reconfigInProgress_clone]
        simpa [reconfigInProgress, hs] using hn
  · exact .inl (by simp [reconfigInProgress, hf])

section Plans

variable {sites : String → Site} {round : ℕ} {requested : Bool} {p : PlannedReconfig}
variable {settled todo : List PlannedReconfig}

/-- The first patch that is left covers at most its own DPU. -/
theorem Planned.rest (h : Planned sites round requested settled (p :: todo)) {n : String} {d : DPU}
    (hd : (sites n).dpu = some d) (hf : inFlight d = true)
    (hi : n = p.dpu.name → reconfigInProgress p.dpu.status.dpuReconfig = false)
    (q : PlannedReconfig) : (∃ q' ∈ q :: settled, Outstanding requested q') ∨
      ∃ q' ∈ todo, q'.dpu.name = n ∧ reconfigInProgress q'.dpu.status.dpuReconfig = true := by
  rcases h.covered n d hd hf with ⟨q', hq, ho⟩ | ⟨q', hq, hn, hp⟩
  · exact .inl ⟨q', mem_cons_of_mem _ hq, ho⟩
  · rcases mem_cons.mp hq with rfl | hq
    · rw [hi hn.symm] at hp
      simp at hp
    · exact .inr ⟨q', hq, hn, hp⟩

/-- A patch that is not made leaves every DPU in flight covered, if its own DPU is not one. -/
theorem Planned.skip (h : Planned sites round requested settled (p :: todo))
    (hi : ∀ d, (sites p.dpu.name).dpu = some d →
      reconfigInProgress p.dpu.status.dpuReconfig = false) :
    Planned sites round requested ({ p with next := none } :: settled) todo where
  pending q hq := h.pending q (mem_cons_of_mem _ hq)
  covered _ d hd hf := h.rest hd hf (fun hn => hi d (hn ▸ hd)) _

/-- A patch that is made covers its own DPU, or takes it out of flight. -/
theorem Planned.patch (h : Planned sites round requested settled (p :: todo)) {d d' : DPU}
    (hp : Pending round requested p next) (hd : (sites p.dpu.name).dpu = some d)
    (hs : s.dpu = some d') (hde : d'.deleting = d.deleting) (hpa : d'.status.dpuReconfig =
      some (patchDPUReconfig p.dpu.status.dpuReconfig next d.status.dpuReconfig)) :
    Planned (update sites p.dpu.name s) round requested (p :: settled) todo where
  pending q hq := h.pending q (mem_cons_of_mem _ hq)
  covered n x hx hf := by
    by_cases hn : n = p.dpu.name
    · subst hn
      rw [update_self, hs] at hx
      cases hx
      obtain ⟨ha, hpr⟩ := inFlight_iff.mp hf
      rw [hpa] at hpr
      rcases inProgress_of_patch hpr with hnext | ⟨hc, hi⟩
      · refine .inl ⟨p, mem_cons_self, ?_, (hp.mark hnext).2⟩
        simp [PlannedReconfig.effective, hp.planned, hnext]
      · exact h.rest hd (inFlight_iff.mpr ⟨hde ▸ ha, hc⟩) (fun _ => hi) p
    · rw [update_of_ne hn] at hx
      exact h.rest hx hf (fun hna => absurd hna hn) p

end Plans

variable {round : ℕ} {requested : Bool} {p : PlannedReconfig} {w w' : World} {e : Event}

theorem Pending.round_le (hp : Pending round requested p next) (h : reconfigRound current ≤ round) :
    (patchDPUReconfig p.dpu.status.dpuReconfig next current).round ≤ round := by
  rcases hp.moves with hs | hr
  · rwa [patchDPUReconfig_round_of_same hs]
  · rcases @patchDPUReconfig_round p.dpu.status.dpuReconfig current next with heq | heq
    · rwa [heq]
    · rw [heq, hr]

theorem Pending.completed_le (hp : Pending round requested p next)
    (h : completedRound current ≤ round) :
    (patchDPUReconfig p.dpu.status.dpuReconfig next current).completedRound ≤ round := by
  rcases @patchDPUReconfig_completedRound p.dpu.status.dpuReconfig current next with
    heq | ⟨hne, heq⟩
  · rwa [heq]
  · rw [heq, hp.completes.resolve_left hne]

theorem Books.passPatch (h : Books w) {ok : Bool} (hok : w.recorded (.passPatch ok) = true)
    (hex : w.passPatch ok = some w') : Books w' := by
  unfold World.passPatch at hex
  split at hex
  swap
  · simp at hex
  rename_i base set requested settled p todo hpa
  obtain ⟨hb, hle, hs, ho, hpl⟩ := h.pass _ hpa
  obtain ⟨next, hp⟩ := hpl.pending p mem_cons_self
  have hsk : (∀ d, (w.sites p.dpu.name).dpu = some d →
      reconfigInProgress p.dpu.status.dpuReconfig = false) →
      Books { w with
        pass := some ⟨base, set, .patching requested ({ p with next := none } :: settled) todo⟩ } :=
    fun hi => h.setPass ⟨hb, hle, hs, ho, hpl.skip hi⟩
  rw [hp.planned] at hex
  dsimp only at hex
  split_ifs at hex with he hf
  · -- The patch would change nothing, so it is no completion.
    cases hex
    refine hsk fun _ _ => ?_
    by_contra hpr
    rw [Bool.not_eq_false] at hpr
    cases hcu : p.dpu.status.dpuReconfig with
    | none => simp [hcu, reconfigInProgress] at hpr
    | some current =>
      rw [hcu] at he hpr
      simp only [reconfigEqual, Bool.and_eq_true, beq_iff_eq] at he
      have hi := (hp.mark (by simpa [reconfigInProgress, ← he.2] using hpr)).1
      rw [hcu, hpr] at hi
      simp at hi
  · cases hex
    exact h.setPass ⟨hb, hle, hs, fun hc => absurd (hc.symm.trans ho) (by decide)⟩
  · split at hex
    · rename_i hno
      cases hex
      exact hsk fun d hd => by simp [hno] at hd
    · rename_i d hd
      cases hex
      have hst : inPlaceRoundActive w.dpuSet = true := by
        obtain rfl : ok = true := by simpa using hf
        simpa [World.recorded, hpa, hd] using hok
      have hr : roundOf set = roundOf w.dpuSet := hs hst
      rw [hr] at hpl hp
      have hsites : ∀ n x, (update w.sites p.dpu.name ((w.sites p.dpu.name).put
          { d with status := { d.status with dpuReconfig := some (patchDPUReconfig
            p.dpu.status.dpuReconfig next d.status.dpuReconfig) } }) n).dpu = some x →
          (n ∈ w.names ∧ x.name = n) ∧
            reconfigRound x.status.dpuReconfig ≤ roundOf w.dpuSet ∧
            completedRound x.status.dpuReconfig ≤ roundOf w.dpuSet := by
        intro n x hx
        by_cases hn : n = p.dpu.name
        · subst hn
          rw [update_self] at hx
          cases hx
          exact ⟨h.known _ d hd, hp.round_le (h.round_le _ d hd),
            hp.completed_le (h.completed_le _ d hd)⟩
        · rw [update_of_ne hn] at hx
          exact ⟨h.known n x hx, h.round_le n x hx, h.completed_le n x hx⟩
      refine ⟨fun n x hx => (hsites n x hx).1, fun n x hx => (hsites n x hx).2.1,
        fun n x hx => (hsites n x hx).2.2, fun _ _ _ _ => hst, fun q hq => ?_⟩
      cases hq
      refine ⟨hb, hle, hs, ho, ?_⟩
      change Planned _ (roundOf set) _ _ _
      rw [hr]
      exact hpl.patch hp hd rfl rfl rfl

theorem finishInPlaceRound_open {planned : List PlannedReconfig} (hp : p ∈ planned)
    (ho : Outstanding requested p) : finishInPlaceRound dpuSet requested planned = dpuSet := by
  obtain ⟨hpr, hal, hj⟩ := ho
  unfold finishInPlaceRound
  split
  · rfl
  · rename_i status _
    cases requested with
    | true =>
      obtain ⟨ho, ha⟩ := hj rfl
      have hb : roundHasOutstandingMember planned status.round (status.startedAt.getD 0) =
          true := by
        refine any_eq_true.mpr ⟨p, hp, ?_⟩
        simp [blocksRound, hal, ho, ha, hpr]
      simp [hb]
    | false =>
      have hb : roundHasInProgress planned = true := by
        refine any_eq_true.mpr ⟨p, hp, ?_⟩
        simp [hal, hpr]
      simp [hb]

theorem roundOf_finishInPlaceRound (dpuSet : DPUSet) (requested : Bool)
    (planned : List PlannedReconfig) :
    roundOf (finishInPlaceRound dpuSet requested planned) = roundOf dpuSet := by
  unfold finishInPlaceRound
  split
  · rfl
  · rename_i status hst
    split_ifs <;> simp [roundOf, hst]

theorem Books.passClose (h : Books w) (he : w.exec .passClose = some w') : Books w' := by
  simp only [World.exec] at he
  split at he
  swap
  · simp at he
  rename_i base set requested settled hpa
  obtain ⟨hb, hle, hs, ho, hpl⟩ := h.pass _ hpa
  have hr := roundOf_finishInPlaceRound set requested settled
  cases he
  refine h.setPass ⟨hb, hr ▸ hle, fun ha => hr.trans (hs ha), ?_⟩
  intro hc n d hd
  by_contra hf
  rcases hpl.covered n d hd (by simpa using hf) with ⟨p, hp, hou⟩ | ⟨p, hp, _⟩
  · rw [finishInPlaceRound_open hp hou] at hc
    exact absurd (hc.symm.trans ho) (by decide)
  · simp at hp

theorem roundOf_stored (value : Option String) (reconfig : Option DPUSetReconfigStatus) :
    roundOf ⟨value, reconfig.map DPUSetReconfigStatus.stored⟩ =
      (reconfig.map DPUSetReconfigStatus.round).getD 0 := by
  cases reconfig <;> rfl

theorem inPlaceRoundActive_stored (value : Option String) (dpuSet : DPUSet) :
    inPlaceRoundActive ⟨value, dpuSet.dpuReconfig.map DPUSetReconfigStatus.stored⟩ =
      inPlaceRoundActive dpuSet := by
  unfold inPlaceRoundActive
  cases dpuSet.dpuReconfig <;> rfl

theorem Books.passPersist (h : Books w) {object status : Bool}
    (he : w.passPersist object status = some w') : Books w' := by
  unfold World.passPersist at he
  split at he
  swap
  · simp at he
  rename_i base set hp
  obtain ⟨hb, hle, hs, hcl⟩ := h.pass _ hp
  cases he
  by_cases hk : set.dpuReconfig = base.dpuReconfig ∨ status = false
  · rw [if_pos hk]
    exact ⟨h.known, h.round_le, h.completed_le, h.active, by simp⟩
  · rw [if_neg hk]
    refine ⟨h.known, fun n d hd => ?_, fun n d hd => ?_, fun n d hd hf => ?_, by simp⟩
    · refine (h.round_le n d hd).trans ?_
      rw [roundOf_stored]
      exact hle
    · refine (h.completed_le n d hd).trans ?_
      rw [roundOf_stored]
      exact hle
    · rw [inPlaceRoundActive_stored]
      by_contra hc
      rw [hcl (by simpa using hc) n d hd] at hf
      simp at hf

/-! ## Runs -/

theorem Books.step (h : Books w) (hok : w.recorded e = true) (he : w.exec e = some w') :
    Books w' := by
  cases e with
  | tick elapsed | annotate value =>
    cases he
    exact h.frame rfl rfl (fun _ => .of_dpu rfl) h.known
  | create name => exact h.create he
  | site name e =>
    obtain ⟨s, hs, rfl⟩ := Option.map_eq_some_iff.mp he
    exact h.setSite (Site.exec_keeps hs).2
  | outdated name value => exact h.outdated he
  | passBegin =>
    simp only [World.exec] at he
    split at he
    · cases he
      exact h.setPass ⟨rfl, le_rfl, fun _ => rfl, rfl⟩
    · simp at he
  | passOpen => exact h.passOpen he
  | passList maxUnavailable total => exact h.passList hok he
  | passListFails =>
    simp only [World.exec] at he
    split at he
    · rename_i base set requested hp
      cases he
      obtain ⟨hb, hle, hsa, ho⟩ := h.pass _ hp
      exact h.setPass ⟨hb, hle, hsa, fun hc => absurd (hc.symm.trans ho) (by decide)⟩
    · simp at he
  | passPatch ok => exact h.passPatch hok he
  | passClose => exact h.passClose he
  | passPersist object status => exact h.passPersist he
  | passStop =>
    cases he
    exact ⟨h.known, h.round_le, h.completed_le, h.active, by simp⟩

theorem Init.books (h : Init w) : Books w where
  known n d hd := ⟨(h.dpus n d hd).1, (h.dpus n d hd).2.1⟩
  round_le n d hd := by simp [(h.dpus n d hd).2.2.1, reconfigRound]
  completed_le n d hd := by simp [(h.dpus n d hd).2.2.1, completedRound]
  active n d hd hf := by
    simp [inFlight, (h.dpus n d hd).2.2.1, reconfigInProgress] at hf
  pass p hp := by simp [h.pass] at hp

theorem exec_dpuReconfig (hex : w.exec e = some w')
    (he : ∀ object status, e ≠ .passPersist object status) :
    w'.dpuSet.dpuReconfig = w.dpuSet.dpuReconfig := by
  by_cases hpa : ∃ ok, e = .passPatch ok
  swap
  · exact (exec_sameRounds hex (not_exists.mp hpa)).1 he
  obtain ⟨ok, rfl⟩ := hpa
  simp only [World.exec, World.passPatch] at hex
  split at hex
  · split at hex
    · rw [← Option.some.inj hex]
    · split_ifs at hex
      · rw [← Option.some.inj hex]
      · rw [← Option.some.inj hex]
      · split at hex <;> rw [← Option.some.inj hex]
        rfl
  · simp at hex

theorem Books.roundOf_le (h : Books w) (hex : w.exec e = some w') :
    roundOf w.dpuSet ≤ roundOf w'.dpuSet := by
  by_cases he : ∀ object status, e ≠ .passPersist object status
  · unfold roundOf
    rw [exec_dpuReconfig hex he]
  · push Not at he
    obtain ⟨object, status, rfl⟩ := he
    simp only [World.exec, World.passPersist] at hex
    split at hex
    swap
    · simp at hex
    rename_i base set hp
    cases hex
    by_cases hk : set.dpuReconfig = base.dpuReconfig ∨ status = false
    · rw [if_pos hk]
      exact le_rfl
    · rw [if_neg hk, roundOf_stored]
      exact (h.pass _ hp).round_le

/-- In a run whose DPU patches are made while the round is stored as open, and whose passes list no
DPU in progress without an agent version, the stored round never decreases, no DPU is marked for or
has completed a later round than the stored one, and a DPU that is not being deleted is in progress
only while the stored round is open. -/
theorem rounds_on_the_books {w : World}
    (h : Reachable Init (Restrict (fun w e => w.recorded e = true) Step) w) :
    (∀ e w', Step w e w' → roundOf w.dpuSet ≤ roundOf w'.dpuSet) ∧
      ∀ n d, (w.sites n).dpu = some d →
        completedRound d.status.dpuReconfig ≤ roundOf w.dpuSet ∧
        reconfigRound d.status.dpuReconfig ≤ roundOf w.dpuSet ∧
        (d.deleting = false → reconfigInProgress d.status.dpuReconfig = true →
          inPlaceRoundActive w.dpuSet = true) := by
  have hb : Books w := Reachable.invariant (P := Books) (fun _ hs => hs.books)
    (fun _ _ _ _ hs ht => hs.step ht.1 ht.2) h
  refine ⟨fun e w' hst => hb.roundOf_le hst, fun n d hd => ?_⟩
  exact ⟨hb.completed_le n d hd, hb.round_le n d hd,
    fun ha hp => hb.active n d hd (inFlight_iff.mpr ⟨ha, hp⟩)⟩

/-- What the two books say: the round of the DPU and whether it is in flight, and the round of the
DPUSet and whether it is open. -/
def books (w : World) : Option (ℕ × Bool) × ℕ × Bool :=
  ((w.sites "dpu-a").dpu.map fun d => (reconfigRound d.status.dpuReconfig, inFlight d),
    roundOf w.dpuSet, inPlaceRoundActive w.dpuSet)

theorem books_eq {stored : ℕ} {flight active : Bool}
    (h : books w = (some (round, flight), stored, active)) :
    ∃ d, (w.sites "dpu-a").dpu = some d ∧ reconfigRound d.status.dpuReconfig = round ∧
      inFlight d = flight ∧ roundOf w.dpuSet = stored ∧ inPlaceRoundActive w.dpuSet = active := by
  simp only [books, Prod.mk.injEq] at h
  obtain ⟨d, hd, heq⟩ := Option.map_eq_some_iff.mp h.1
  simp only [Prod.mk.injEq] at heq
  exact ⟨d, hd, heq.1, heq.2, h.2.1, h.2.2⟩

/-- The first pass finds no free slot, so the round is stored before the second pass marks the
DPU. -/
def markedLater : List Event :=
  [.passBegin, .passOpen, .passList 1 2, .passClose, .passPersist true true,
    .passBegin, .passOpen, .passList 2 2, .passPatch true]

theorem marked_later_on_the_books :
    ∃ w d, Reachable Init (Restrict (fun w e => w.recorded e = true) Step) w ∧
      (w.sites "dpu-a").dpu = some d ∧ reconfigRound d.status.dpuReconfig = 1 ∧
      inFlight d = true ∧ roundOf w.dpuSet = 1 ∧ inPlaceRoundActive w.dpuSet = true := by
  obtain ⟨w, hr, hw⟩ := Reachable.exists_of_runIf requestedWorld_init World.recorded World.exec
    markedLater books (some (1, true), 1, true) (by decide +kernel)
  obtain ⟨d, hd, hro, hf, hs, _⟩ := books_eq hw
  obtain ⟨ha, hp⟩ := inFlight_iff.mp hf
  exact ⟨w, d, hr, hd, hro, hf, hs, ((rounds_on_the_books hr).2 "dpu-a" d hd).2.2 ha hp⟩

/-- The pass that opens the round marks the DPU, and its patch of the DPUSet is lost; before the
next pass the annotation is removed. -/
def lostRound : List Event :=
  [.passBegin, .passOpen, .passList 1 1, .passPatch true, .passClose, .passPersist false false,
    .annotate none, .passBegin, .passOpen, .passPersist true true]

/-- A DPU is marked for a round that the DPUSet does not know, and no round is open: passes without
the annotation leave it so. -/
theorem lost_round_leaves_mark :
    ∃ w d, Reachable Init Step w ∧ (w.sites "dpu-a").dpu = some d ∧ d.deleting = false ∧
      reconfigInProgress d.status.dpuReconfig = true ∧
      roundOf w.dpuSet < reconfigRound d.status.dpuReconfig ∧
      inPlaceRoundActive w.dpuSet = false := by
  obtain ⟨w, hr, hw⟩ := Reachable.exists_of_run requestedWorld_init World.exec lostRound books
    (some (1, true), 0, false) (by decide +kernel)
  obtain ⟨d, hd, hro, hf, hs, hc⟩ := books_eq hw
  obtain ⟨ha, hp⟩ := inFlight_iff.mp hf
  exact ⟨w, d, hr, hd, ha, hp, by omega, hc⟩

/-- The DPU is replaced between the list and the patch of the second pass, so the mark is put on a
DPU without an agent. Every write is stored. -/
def replacedDPU : List Event :=
  [.passBegin, .passOpen, .passList 1 2, .passClose, .passPersist true true,
    .passBegin, .passOpen, .passList 2 2, .site "dpu-a" .delete] ++
  reconcileEvents settledSurroundings ++
  [.site "dpu-a" .finalize, .create "dpu-a", .passPatch true, .passClose, .passPersist true true,
    .passBegin, .passOpen, .passList 2 2, .passClose, .passPersist true true]

/-- The round is closed over a DPU in progress whose agent has not reported a version. -/
theorem replaced_dpu_outlives_round :
    ∃ w d, Reachable Init Step w ∧ (w.sites "dpu-a").dpu = some d ∧ inFlight d = true ∧
      inPlaceRoundActive w.dpuSet = false := by
  obtain ⟨w, hr, hw⟩ := Reachable.exists_of_run requestedWorld_init World.exec replacedDPU books
    (some (1, true), 1, false) (by decide +kernel)
  obtain ⟨d, hd, _, hf, _, hc⟩ := books_eq hw
  exact ⟨w, d, hr, hd, hf, hc⟩

end DocaPlatform.InPlaceRounds
