import DocaPlatform.Runs

/-!
# DPUs and the rounds of in-place reconfiguration

The part of a DPU object that in-place reconfiguration reads and writes, and what a DPUSet pass
plans for a list of DPUs: which of them it completes, which of them it marks, and when it closes
the round. Times are nanoseconds, and a stored time keeps whole seconds only.
-/
namespace DocaPlatform.InPlaceReconfig

open List

/-! ## The objects -/

/-- A time in nanoseconds; `0` is the zero time. -/
abbrev Time := ℕ

/-- A time as the API server stores it. -/
def persisted (t : Time) : Time := t / 1000000000 * 1000000000

theorem persisted_le (t : Time) : persisted t ≤ t := Nat.div_mul_le_self _ _

@[simp] theorem persisted_persisted (t : Time) : persisted (persisted t) = persisted t := by
  unfold persisted
  rw [Nat.mul_div_cancel _ (by norm_num)]

inductive Phase where
  | initializing
  | pending
  | nodeEffect
  | initializeInterface
  | configFWParameters
  | updateFirmware
  | prepareBFB
  | osInstalling
  | performArmForceRestart
  | dpuConfig
  | rebooting
  | hostNetworkConfiguration
  | clusterConfig
  | serviceReadiness
  | nodeEffectRemoval
  | ready
  | error
  | deleting
  deriving DecidableEq

inductive ConditionStatus where
  | isTrue
  | isFalse
  | isUnknown
  deriving DecidableEq

structure Condition where
  status : ConditionStatus
  reason : String
  message : String
  lastTransitionTime : Time
  deriving DecidableEq

/-- A condition as the API server stores it. -/
def Condition.stored (c : Condition) : Condition :=
  { c with lastTransitionTime := persisted c.lastTransitionTime }

/-- `SetDPUCondition` for one condition type: the transition time moves with the status only. -/
def setDPUCondition (now : Time) (old : Option Condition) (status : ConditionStatus)
    (reason message : String) : Option Condition :=
  match old with
  | none => some ⟨status, reason, message, now⟩
  | some c =>
    some ⟨status, reason, message, if status = c.status then c.lastTransitionTime else now⟩

inductive RebootMethod where
  | unknown
  | noAction
  | powerCycle
  | systemReboot
  | systemLevelReset
  | firmwareReset
  | dpuWarmReboot
  deriving DecidableEq

/-- `EWNICRuntimeConfigStatus`; a failed device has its PCI address and a reason. -/
structure EWNICRuntimeConfigStatus where
  configuredDevices : ℕ
  discoveredDevices : ℕ
  failedDevices : List (String × String)
  deriving DecidableEq

/-- What the DPU agent reports. `reportedBy` numbers the run that reported the reboot method; no
controller reads it. -/
structure AgentStatus where
  version : String
  lastStartupTime : Option Time
  rebootMethod : Option RebootMethod
  ewnicRuntimeConfig : Option EWNICRuntimeConfigStatus
  reportedBy : ℕ
  deriving DecidableEq

structure DPUReconfigStatus where
  inProgress : Option Bool
  round : ℕ
  completedRound : ℕ
  deriving DecidableEq

structure DPUStatus where
  phase : Phase
  previousPhase : Option Phase
  ready : Option Condition
  /-- The `DPUReconfiguring` condition. -/
  reconfiguring : Option Condition
  /-- The `Error` condition is True. -/
  failed : Bool
  postProvisioningDPUConfig : Option Bool
  postProvisioningNodeEffect : Option Bool
  agentLastStartupTime : Option Time
  agentStatus : Option AgentStatus
  outdated : Bool
  dpuReconfig : Option DPUReconfigStatus
  deriving DecidableEq

structure DPU where
  name : String
  resourceVersion : ℕ
  creationTimestamp : Time
  deleting : Bool
  status : DPUStatus
  deriving DecidableEq

structure DPUSetReconfigStatus where
  round : ℕ
  active : Option Bool
  startedAt : Option Time
  deriving DecidableEq

structure DPUSet where
  annotationValue : Option String
  dpuReconfig : Option DPUSetReconfigStatus
  deriving DecidableEq

/-- A field after a merge patch that turns `base` into `next` is applied to `current`: the patch
holds the field only if it changed. -/
def patchField {α : Type} [DecidableEq α] (base next current : α) : α :=
  if next = base then current else next

theorem patchField_eq {α : Type} [DecidableEq α] (base next current : α) :
    patchField base next current = current ∨ patchField base next current = next := by
  unfold patchField
  split_ifs
  · exact .inl rfl
  · exact .inr rfl

@[simp] theorem patchField_base {α : Type} [DecidableEq α] (base next : α) :
    patchField base next base = next := by
  unfold patchField
  split_ifs with h
  · exact h.symm
  · rfl

/-- `strconv.FormatInt` of a round. -/
def formatInt (n : ℕ) : String :=
  String.ofList (if n = 0 then ['0'] else (Nat.digits 10 n).reverse.map Nat.digitChar)

/-- Reading the digits back. -/
theorem ofDigits_formatInt (n : ℕ) :
    Nat.ofDigits 10 ((formatInt n).toList.map fun c => c.toNat - 48).reverse = n := by
  have hdi : ∀ d < 10, (Nat.digitChar d).toNat - 48 = d := by decide
  unfold formatInt
  rw [String.toList_ofList]
  split_ifs with hn
  · simp [hn]
  · have hb : ((Nat.digits 10 n).reverse.map Nat.digitChar).map (fun c => c.toNat - 48) =
        (Nat.digits 10 n).reverse := by
      rw [map_map]
      refine (map_congr_left fun d hd => ?_).trans (map_id _)
      exact hdi d (Nat.digits_lt_base (by norm_num) (mem_reverse.mp hd))
    rw [hb, reverse_reverse, Nat.ofDigits_digits]

theorem formatInt_injective : Function.Injective formatInt := by
  intro m n h
  rw [← ofDigits_formatInt m, h, ofDigits_formatInt n]

/-- `reconfigInProgress`: the pointer is set and true. -/
def reconfigInProgress : Option DPUReconfigStatus → Bool
  | none => false
  | some s => s.inProgress == some true

def completedRound : Option DPUReconfigStatus → ℕ
  | none => 0
  | some s => s.completedRound

def reconfigRound : Option DPUReconfigStatus → ℕ
  | none => 0
  | some s => s.round

def cloneReconfig (s : Option DPUReconfigStatus) : DPUReconfigStatus :=
  s.getD ⟨none, 0, 0⟩

@[simp] theorem cloneReconfig_round (s : Option DPUReconfigStatus) :
    (cloneReconfig s).round = reconfigRound s := by
  cases s <;> rfl

@[simp] theorem cloneReconfig_completedRound (s : Option DPUReconfigStatus) :
    (cloneReconfig s).completedRound = completedRound s := by
  cases s <;> rfl

/-- The `Ready` condition is True, since the given time. -/
def DPUStatus.readySince (s : DPUStatus) : Option Time :=
  match s.ready with
  | none => none
  | some c => if c.status = .isTrue then some c.lastTransitionTime else none

def readyConditionTime (dpu : DPU) : Option Time :=
  if dpu.status.phase = .ready then dpu.status.readySince else none

def readyBeforeRound (dpu : DPU) (startedAt : Time) : Bool :=
  match readyConditionTime dpu with
  | none => false
  | some transition => transition == 0 || decide (transition < startedAt)

def readyAtOrAfter (dpu : DPU) (startedAt : Time) : Bool :=
  match readyConditionTime dpu with
  | none => false
  | some transition => transition != 0 && !decide (transition < startedAt)

def createdAfterRound (dpu : DPU) (startedAt : Time) : Bool :=
  dpu.creationTimestamp != 0 && decide (startedAt < dpu.creationTimestamp)

def agentSupportsInPlace (dpu : DPU) : Bool :=
  match dpu.status.agentStatus with
  | none => false
  | some a => a.version != ""

def isUnavailable (dpu : DPU) : Bool :=
  match dpu.status.ready with
  | none => true
  | some c => c.status == .isFalse || dpu.deleting

def inProgressStillReady (dpu : DPU) : Bool :=
  reconfigInProgress dpu.status.dpuReconfig && !isUnavailable dpu

def phaseJoinsWithoutNewSlot : Phase → Bool
  | .hostNetworkConfiguration | .clusterConfig | .serviceReadiness | .nodeEffectRemoval
  | .nodeEffect => true
  | _ => false

def phaseJoinsRound (phase : Phase) : Bool :=
  phase == .ready || phaseJoinsWithoutNewSlot phase

theorem readyAtOrAfter_iff {dpu : DPU} {startedAt : Time} :
    readyAtOrAfter dpu startedAt = true ↔
      dpu.status.phase = .ready ∧ ∃ t, dpu.status.readySince = some t ∧ t ≠ 0 ∧ startedAt ≤ t := by
  unfold readyAtOrAfter readyConditionTime
  by_cases hph : dpu.status.phase = .ready
  · rw [if_pos hph]
    cases dpu.status.readySince with
    | none => simp
    | some t => simp [hph]
  · simp [hph]

/-! ## Planning a pass -/

structure PlannedReconfig where
  dpu : DPU
  next : Option DPUReconfigStatus

/-- `plannedReconfig.effective`. -/
def PlannedReconfig.effective (p : PlannedReconfig) : Option DPUReconfigStatus :=
  if p.next.isSome then p.next else p.dpu.status.dpuReconfig

def planInPlaceCompletion (dpu : DPU) (round : ℕ) (startedAt : Time) (stampFirstReady : Bool) :
    PlannedReconfig :=
  let current := dpu.status.dpuReconfig
  if dpu.deleting || !agentSupportsInPlace dpu then ⟨dpu, none⟩
  else if dpu.status.outdated then
    if reconfigInProgress current then
      ⟨dpu, some { cloneReconfig current with inProgress := some false }⟩
    else ⟨dpu, none⟩
  else if reconfigInProgress current && readyAtOrAfter dpu startedAt then
    ⟨dpu, some { cloneReconfig current with inProgress := some false, completedRound := round }⟩
  else if stampFirstReady && !reconfigInProgress current &&
      decide (completedRound current < round) && readyAtOrAfter dpu startedAt then
    ⟨dpu, some { cloneReconfig current with completedRound := round }⟩
  else ⟨dpu, none⟩

/-- `planInPlaceStart`, with the number of slots that it uses. -/
def planInPlaceStart (dpu : DPU) (round : ℕ) (startedAt : Time) (allowStart : Bool) (slots : ℤ) :
    PlannedReconfig × ℤ :=
  let current := dpu.status.dpuReconfig
  let marked := { cloneReconfig current with inProgress := some true, round := round }
  if !allowStart || dpu.deleting || dpu.status.outdated || !agentSupportsInPlace dpu then
    (⟨dpu, none⟩, 0)
  else if reconfigInProgress current || decide (round ≤ completedRound current) ||
      createdAfterRound dpu startedAt then (⟨dpu, none⟩, 0)
  else if readyBeforeRound dpu startedAt then
    if slots ≤ 0 then (⟨dpu, none⟩, 0) else (⟨dpu, some marked⟩, 1)
  else if phaseJoinsWithoutNewSlot dpu.status.phase then (⟨dpu, some marked⟩, 0)
  else (⟨dpu, none⟩, 0)

def completionFreedSlot (p : PlannedReconfig) : Bool :=
  p.next.isSome && !reconfigInProgress p.next && inProgressStillReady p.dpu

def inPlaceReadySlots (maxUnavailable : ℤ) (totalDPUDevices : ℕ) (dpus : List DPU) (freed : ℕ) :
    ℤ :=
  let maxSlots : ℤ :=
    if maxUnavailable < 1 then 1
    else if (totalDPUDevices : ℤ) < maxUnavailable then totalDPUDevices
    else maxUnavailable
  let missing : ℤ := max ((totalDPUDevices : ℤ) - dpus.length) 0
  let unavailable : ℤ :=
    missing + dpus.countP (fun d => isUnavailable d || inProgressStillReady d) - freed
  if maxSlots ≤ unavailable then 0 else maxSlots - unavailable

/-- The second loop of `reconcileInPlaceReconfig`: a DPU without a plan may be marked. -/
def planStarts (round : ℕ) (startedAt : Time) (allowStart : Bool) :
    ℤ → List PlannedReconfig → List PlannedReconfig
  | _, [] => []
  | slots, p :: rest =>
    if p.next.isSome then p :: planStarts round startedAt allowStart slots rest
    else
      let started := planInPlaceStart p.dpu round startedAt allowStart slots
      started.1 :: planStarts round startedAt allowStart (slots - started.2) rest

/-- The plans of `reconcileInPlaceReconfig` for a list of DPUs. -/
def planInPlace (maxUnavailable : ℤ) (totalDPUDevices round : ℕ) (startedAt : Time)
    (requested : Bool) (dpus : List DPU) : List PlannedReconfig :=
  let planned := dpus.map fun d => planInPlaceCompletion d round startedAt requested
  let slots :=
    inPlaceReadySlots maxUnavailable totalDPUDevices dpus (planned.countP completionFreedSlot)
  planStarts round startedAt requested slots planned

def PlannedReconfig.Marks (round : ℕ) (p : PlannedReconfig) (next : DPUReconfigStatus) : Prop :=
  reconfigInProgress p.dpu.status.dpuReconfig = false ∧
    next = { cloneReconfig p.dpu.status.dpuReconfig with inProgress := some true, round := round }

/-- A plan that ends or records the round of its DPU: a disruptive DPU only drops the mark, any
other DPU is Ready since the round started and completes it. -/
def PlannedReconfig.Settles (round : ℕ) (startedAt : Time) (p : PlannedReconfig)
    (next : DPUReconfigStatus) : Prop :=
  reconfigInProgress (some next) = false ∧ next.round = reconfigRound p.dpu.status.dpuReconfig ∧
    p.dpu.deleting = false ∧
    (p.dpu.status.outdated = true ∧ next.completedRound = completedRound p.dpu.status.dpuReconfig ∨
      p.dpu.status.outdated = false ∧ readyAtOrAfter p.dpu startedAt = true ∧
        next.completedRound = round)

section Plans

variable {round : ℕ} {startedAt : Time}

theorem planInPlaceCompletion_dpu (dpu : DPU) (stamp : Bool) :
    (planInPlaceCompletion dpu round startedAt stamp).dpu = dpu := by
  unfold planInPlaceCompletion
  dsimp only
  split_ifs <;> rfl

variable {dpu : DPU} {next : DPUReconfigStatus} {allow : Bool} {slots : ℤ}

theorem planInPlaceCompletion_settles {stamp : Bool}
    (h : (planInPlaceCompletion dpu round startedAt stamp).next = some next) :
    (planInPlaceCompletion dpu round startedAt stamp).Settles round startedAt next := by
  unfold PlannedReconfig.Settles
  rw [planInPlaceCompletion_dpu]
  unfold planInPlaceCompletion at h
  dsimp only at h
  split_ifs at h with hs ho hp hd hst <;> simp only [Option.some.injEq] at h
  all_goals
    subst h
    simp only [Bool.or_eq_true, Bool.not_eq_true', not_or, Bool.not_eq_true] at hs
  · exact ⟨rfl, by simp, hs.1, .inl ⟨ho, by simp⟩⟩
  · rw [Bool.and_eq_true] at hd
    exact ⟨rfl, by simp, hs.1, .inr ⟨by simpa using ho, hd.2, rfl⟩⟩
  · simp only [Bool.and_eq_true, Bool.not_eq_true'] at hst
    refine ⟨?_, by simp, hs.1, .inr ⟨by simpa using ho, hst.2, rfl⟩⟩
    have hi := hst.1.1.2
    revert hi
    cases dpu.status.dpuReconfig with
    | none => intro _; rfl
    | some c => exact fun hi => hi

theorem planInPlaceStart_dpu (dpu : DPU) (allow : Bool) (slots : ℤ) :
    (planInPlaceStart dpu round startedAt allow slots).1.dpu = dpu := by
  unfold planInPlaceStart
  dsimp only
  split_ifs <;> rfl

theorem planInPlaceStart_marks
    (h : (planInPlaceStart dpu round startedAt allow slots).1.next = some next) :
    (planInPlaceStart dpu round startedAt allow slots).1.Marks round next := by
  unfold PlannedReconfig.Marks
  rw [planInPlaceStart_dpu]
  unfold planInPlaceStart at h
  dsimp only at h
  split_ifs at h with hs hd <;> simp only [Option.some.injEq] at h
  all_goals
    simp only [Bool.or_eq_true, not_or, Bool.not_eq_true] at hd
    exact ⟨hd.1.1, h.symm⟩

theorem planInPlaceCompletion_eq_none {stamp : Bool}
    (h : (planInPlaceCompletion dpu round startedAt stamp).next = none)
    (hd : dpu.deleting = false) (ha : agentSupportsInPlace dpu = true)
    (hp : reconfigInProgress dpu.status.dpuReconfig = true) : dpu.status.outdated = false := by
  by_contra ho
  rw [Bool.not_eq_false] at ho
  simp [planInPlaceCompletion, hd, ha, ho, hp] at h

theorem planInPlaceStart_joins
    (h : (planInPlaceStart dpu round startedAt allow slots).1.next = some next) :
    dpu.deleting = false ∧ dpu.status.outdated = false ∧ agentSupportsInPlace dpu = true := by
  by_cases hs : (!allow || dpu.deleting || dpu.status.outdated || !agentSupportsInPlace dpu) = true
  · simp [planInPlaceStart, hs] at h
  · simp only [Bool.or_eq_true, Bool.not_eq_true', not_or, Bool.not_eq_true,
      Bool.not_eq_false] at hs
    exact ⟨hs.1.1.2, hs.1.2, hs.2⟩

/-- The loop keeps a plan that the first loop made and replaces the others. -/
theorem mem_planStarts {ps : List PlannedReconfig} {p : PlannedReconfig}
    (hp : p ∈ planStarts round startedAt allow slots ps) :
    ∃ q ∈ ps, p = q ∧ q.next.isSome = true ∨
      q.next = none ∧ ∃ slots, p = (planInPlaceStart q.dpu round startedAt allow slots).1 := by
  induction ps generalizing slots with
  | nil => simp [planStarts] at hp
  | cons q rest ih =>
    unfold planStarts at hp
    split_ifs at hp with hn
    · rcases mem_cons.mp hp with rfl | hp
      · exact ⟨p, mem_cons_self, .inl ⟨rfl, hn⟩⟩
      · obtain ⟨q', hq', h⟩ := ih hp
        exact ⟨q', mem_cons_of_mem _ hq', h⟩
    · rcases mem_cons.mp hp with rfl | hp
      · exact ⟨q, mem_cons_self, .inr ⟨by simpa using hn, slots, rfl⟩⟩
      · obtain ⟨q', hq', h⟩ := ih hp
        exact ⟨q', mem_cons_of_mem _ hq', h⟩

theorem planStarts_dpus (allow : Bool) (slots : ℤ) (ps : List PlannedReconfig) :
    (planStarts round startedAt allow slots ps).map (fun p => p.dpu) = ps.map fun p => p.dpu := by
  induction ps generalizing slots with
  | nil => rfl
  | cons q rest ih =>
    unfold planStarts
    split_ifs with hn
    · simp [ih]
    · simp [ih, planInPlaceStart_dpu]

section PlanInPlace

variable {maxUnavailable : ℤ} {total : ℕ} {requested : Bool} {dpus : List DPU}

/-- A plan is a completion, or a start for a DPU without one. -/
theorem mem_planInPlace {p : PlannedReconfig}
    (hp : p ∈ planInPlace maxUnavailable total round startedAt requested dpus) :
    ∃ d ∈ dpus, p = planInPlaceCompletion d round startedAt requested ∧ p.next.isSome = true ∨
        (planInPlaceCompletion d round startedAt requested).next = none ∧
          ∃ slots, p = (planInPlaceStart d round startedAt requested slots).1 := by
  obtain ⟨q, hq, h⟩ := mem_planStarts hp
  obtain ⟨d, hd, rfl⟩ := mem_map.mp hq
  refine ⟨d, hd, ?_⟩
  rcases h with ⟨rfl, hn⟩ | ⟨hno, slots, hst⟩
  · exact .inl ⟨rfl, hn⟩
  · rw [planInPlaceCompletion_dpu] at hst
    exact .inr ⟨hno, slots, hst⟩

theorem planInPlace_dpus :
    (planInPlace maxUnavailable total round startedAt requested dpus).map (fun p => p.dpu) =
      dpus := by
  unfold planInPlace
  rw [planStarts_dpus, map_map]
  calc dpus.map _ = dpus.map id :=
        map_congr_left fun d _ => planInPlaceCompletion_dpu d requested
    _ = dpus := map_id dpus

/-- Every plan is about a listed DPU, and marks or settles it. -/
theorem planInPlace_spec {p : PlannedReconfig}
    (hp : p ∈ planInPlace maxUnavailable total round startedAt requested dpus) :
    p.dpu ∈ dpus ∧
      ∀ next, p.next = some next → p.Marks round next ∨ p.Settles round startedAt next := by
  obtain ⟨d, hd, ⟨rfl, _⟩ | ⟨_, slots, rfl⟩⟩ := mem_planInPlace hp
  · rw [planInPlaceCompletion_dpu]
    exact ⟨hd, fun next h => .inr (planInPlaceCompletion_settles h)⟩
  · rw [planInPlaceStart_dpu]
    exact ⟨hd, fun next h => .inl (planInPlaceStart_marks h)⟩

end PlanInPlace

end Plans

def inPlaceReconfigTrue : String := "true"

def inPlaceReconfigRequested (dpuSet : DPUSet) : Bool :=
  dpuSet.annotationValue == some inPlaceReconfigTrue

def inPlaceRoundActive (dpuSet : DPUSet) : Bool :=
  match dpuSet.dpuReconfig with
  | none => false
  | some s => s.active == some true

def ensureInPlaceRound (now : Time) (dpuSet : DPUSet) (requested : Bool) : DPUSet :=
  if inPlaceRoundActive dpuSet then
    match dpuSet.dpuReconfig with
    | none => dpuSet
    | some s => { dpuSet with dpuReconfig := some { s with startedAt := s.startedAt <|> some now } }
  else if !requested then dpuSet
  else
    let s := dpuSet.dpuReconfig.getD ⟨0, none, none⟩
    { dpuSet with dpuReconfig := some ⟨s.round + 1, some true, some now⟩ }

def blocksRound (dpu : DPU) (reconfig : Option DPUReconfigStatus) (round : ℕ) (startedAt : Time) :
    Bool :=
  if dpu.deleting || dpu.status.outdated || !agentSupportsInPlace dpu then false
  else if completedRound reconfig == round || reconfigInProgress reconfig then
    reconfigInProgress reconfig
  else if createdAfterRound dpu startedAt then false
  else if completedRound reconfig == 0 && !phaseJoinsRound dpu.status.phase then false
  else true

def roundHasOutstandingMember (planned : List PlannedReconfig) (round : ℕ) (startedAt : Time) :
    Bool :=
  planned.any fun p => blocksRound p.dpu p.effective round startedAt

def roundHasInProgress (planned : List PlannedReconfig) : Bool :=
  planned.any fun p => !p.dpu.deleting && reconfigInProgress p.effective

def finishInPlaceRound (dpuSet : DPUSet) (requested : Bool) (planned : List PlannedReconfig) :
    DPUSet :=
  match dpuSet.dpuReconfig with
  | none => dpuSet
  | some s =>
    if requested then
      if !roundHasOutstandingMember planned s.round (s.startedAt.getD 0) then
        -- `clearInPlaceAnnotation`
        { annotationValue := none, dpuReconfig := some { s with active := some false } }
      else dpuSet
    else if !roundHasInProgress planned then
      { dpuSet with dpuReconfig := some { s with active := some false } }
    else dpuSet

def reconfigEqual : Option DPUReconfigStatus → Option DPUReconfigStatus → Bool
  | some a, some b =>
    a.round == b.round && a.completedRound == b.completedRound && a.inProgress == b.inProgress
  | none, none => true
  | _, _ => false

/-- `status.dpuReconfig` of the stored DPU after the merge patch of `patchDPUReconfig`, which
turns `base` into `next`. -/
def patchDPUReconfig (base : Option DPUReconfigStatus) (next : DPUReconfigStatus)
    (current : Option DPUReconfigStatus) : DPUReconfigStatus :=
  let before := cloneReconfig base
  let stored := cloneReconfig current
  { inProgress := patchField before.inProgress next.inProgress stored.inProgress
    round := patchField before.round next.round stored.round
    completedRound := patchField before.completedRound next.completedRound stored.completedRound }

def sortedDPUs (dpus : List DPU) : List DPU :=
  dpus.insertionSort fun a b => a.name ≤ b.name

theorem mem_sortedDPUs {dpus : List DPU} {d : DPU} : d ∈ sortedDPUs dpus ↔ d ∈ dpus :=
  mem_insertionSort _

end DocaPlatform.InPlaceReconfig
