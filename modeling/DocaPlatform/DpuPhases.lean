import DocaPlatform.InPlaceReconfig

/-!
# The phases of a DPU

One reconcile of the DPU controller as a function of the DPU it read and of what it finds
elsewhere: the jump that starts an in-place reconfiguration, and otherwise the handler of the
phase. The handlers are modelled on the phase, the flags of in-place reconfiguration and the
conditions `Ready` and `DPUReconfiguring`.
-/
namespace DocaPlatform.DpuPhases

open InPlaceReconfig

/-- How the host reboot that a DPU waits for stands. -/
inductive RebootOutcome where
  | pending
  | failed
  /-- The node skips hardware provisioning. -/
  | skipped
  /-- Complete; `discovery` is the agent's `RebootMethodDiscovery` condition. -/
  | complete (discovery : Bool)
  deriving DecidableEq

/-- What a reconcile finds outside the DPU object. -/
structure Surroundings where
  now : Time
  zeroTrust : Bool
  /-- The DPUNodeMaintenance has this DPU as a requestor and its node effect is applied. -/
  effectApplied : Bool
  /-- Whether the node in the DPU cluster is Ready, or why it cannot be read. -/
  node : Except String Bool
  /-- The labels or the annotations of the node differ from the DPU spec. -/
  metadataDiffers : Bool
  applyOnLabelChange : Bool
  reboot : RebootOutcome
  hostNetworkReady : Bool
  clusterConfigured : Bool
  servicesReady : Bool
  maintenanceGone : Bool
  removalTimedOut : Bool
  /-- The phase that an install handler wants next. -/
  installed : Phase

def reconfigPendingReason : String := "ReconfigPending"

def reconfigCompletedReason : String := "ReconfigCompleted"

def updateFalseDPUCondReady (now : Time) (s : DPUStatus) (reason message : String) : DPUStatus :=
  { s with ready := setDPUCondition now s.ready .isFalse reason message }

def phaseJumpsForInPlace : Phase → Bool
  | .ready | .hostNetworkConfiguration | .clusterConfig | .serviceReadiness
  | .nodeEffectRemoval => true
  | _ => false

def inPlaceRoundInFlight (s : DPUStatus) (round : ℕ) : Bool :=
  match s.reconfiguring with
  | none => false
  | some c => c.status == .isTrue && c.message == formatInt round

def inPlaceAlreadyReturned (s : DPUStatus) (round : ℕ) : Bool :=
  match s.reconfiguring with
  | none => false
  | some c =>
    c.status == .isFalse && c.reason == reconfigCompletedReason && c.message == formatInt round

/-- `DPUReconfiguring` set to True for a round. -/
def markReconfiguring (now : Time) (round : ℕ) (s : DPUStatus) : DPUStatus :=
  { s with
    reconfiguring :=
      setDPUCondition now s.reconfiguring .isTrue reconfigPendingReason (formatInt round) }

def applyInPlaceJump (s : DPUStatus) : DPUStatus :=
  { s with
    postProvisioningDPUConfig := some true
    postProvisioningNodeEffect := none
    phase := .nodeEffect }

def armInPlaceNodeEffect (s : DPUStatus) : DPUStatus :=
  { s with postProvisioningDPUConfig := some true, postProvisioningNodeEffect := none }

def startInPlaceReconfig (now : Time) (dpu : DPU) : Option DPUStatus :=
  let s := dpu.status
  if dpu.deleting || !reconfigInProgress s.dpuReconfig then none
  else if !phaseJumpsForInPlace s.phase then none
  else
    let round := reconfigRound s.dpuReconfig
    if inPlaceAlreadyReturned s round || inPlaceRoundInFlight s round then none
    else
      some (markReconfiguring now round
        (updateFalseDPUCondReady now (applyInPlaceJump s) reconfigPendingReason
          "in-place reconfig"))

/-! ## Phase handlers -/

def handleNodeEffectCompletion (s : DPUStatus) : DPUStatus :=
  if s.postProvisioningDPUConfig = some true then
    { s with
      postProvisioningDPUConfig := none
      postProvisioningNodeEffect := none
      phase := .dpuConfig
      agentLastStartupTime :=
        match s.agentStatus with
        | none => s.agentLastStartupTime
        | some a => a.lastStartupTime <|> s.agentLastStartupTime }
  else if s.postProvisioningNodeEffect = some true then
    { s with postProvisioningNodeEffect := none, phase := .clusterConfig }
  else { s with phase := .initializeInterface }

def nodeEffect (env : Surroundings) (dpu : DPU) : DPUStatus :=
  if dpu.deleting then { dpu.status with phase := .deleting }
  else
    let s :=
      if reconfigInProgress dpu.status.dpuReconfig then
        markReconfiguring env.now (reconfigRound dpu.status.dpuReconfig)
          (armInPlaceNodeEffect dpu.status)
      else dpu.status
    if env.effectApplied then handleNodeEffectCompletion s else s

def maxFailedEWNICDevicesInMessage : ℕ := 5

def failedEWNICDevicesSummary (failed : List (String × String)) : String :=
  let entries := (failed.take maxFailedEWNICDevicesInMessage).map fun d => d.1 ++ " (" ++ d.2 ++ ")"
  let more := if maxFailedEWNICDevicesInMessage < failed.length then ["..."] else []
  ", ".intercalate (entries ++ more)

/-- `ewnicRuntimeConfigReady`: why the E/W NICs are not ready, as a reason and a message. -/
def ewnicRuntimeConfigReady : Option EWNICRuntimeConfigStatus → Except (String × String) Unit
  | none => .ok ()
  | some s =>
    let summary :=
      formatInt s.configuredDevices ++ "/" ++ formatInt s.discoveredDevices ++
        " E/W NIC devices configured"
    if 1 ≤ s.configuredDevices then .ok ()
    else if s.configuredDevices + s.failedDevices.length < s.discoveredDevices then
      .error ("WaitingForEWNICRuntimeConfig", summary)
    else
      .error ("NoEWNICDeviceConfigured",
        summary ++ ": " ++ failedEWNICDevicesSummary s.failedDevices)

def dpuConfig (env : Surroundings) (dpu : DPU) : DPUStatus :=
  let s := dpu.status
  if dpu.deleting then { s with phase := .deleting }
  else
    match s.agentStatus with
    | none => s
    | some a =>
      match a.lastStartupTime, a.rebootMethod with
      | some startup, some method =>
        if method = .unknown then s
        else if s.agentLastStartupTime = some startup then s
        else if method = .noAction && !(ewnicRuntimeConfigReady a.ewnicRuntimeConfig).isOk then s
        else
          let s := { s with agentLastStartupTime := some startup }
          match method with
          | .noAction =>
            if env.zeroTrust then { s with phase := .clusterConfig }
            else { s with phase := .hostNetworkConfiguration }
          | .firmwareReset | .dpuWarmReboot => s
          | _ => { s with phase := .rebooting }
      | _, _ => s

/-- `Rebooting`, with the phases that `CompleteRebooting` chooses from. -/
def rebooting (env : Surroundings) (dpu : DPU) : DPUStatus :=
  let s := dpu.status
  let trusted := if env.zeroTrust then Phase.clusterConfig else .hostNetworkConfiguration
  if dpu.deleting then { s with phase := .deleting }
  else
    match env.reboot with
    | .pending => s
    | .failed => { s with phase := .error }
    | .skipped => { s with phase := trusted }
    | .complete discovery =>
      if s.previousPhase = some .initializeInterface then { s with phase := .initializeInterface }
      else if s.previousPhase = some .osInstalling then { s with phase := .osInstalling }
      else if s.previousPhase = some .dpuConfig && discovery then { s with phase := .dpuConfig }
      else { s with phase := trusted }

/-- A handler that waits for something and then moves on. -/
def advance (dpu : DPU) (arrived : Bool) (next : Phase) : DPUStatus :=
  if dpu.deleting then { dpu.status with phase := .deleting }
  else if arrived then { dpu.status with phase := next }
  else dpu.status

def setupNetwork (env : Surroundings) (dpu : DPU) : DPUStatus :=
  advance dpu env.hostNetworkReady .clusterConfig

def clusterConfig (env : Surroundings) (dpu : DPU) : DPUStatus :=
  advance dpu env.clusterConfigured .serviceReadiness

def serviceReadiness (env : Surroundings) (dpu : DPU) : DPUStatus :=
  advance dpu env.servicesReady .nodeEffectRemoval

def nodeEffectRemoval (env : Surroundings) (dpu : DPU) : DPUStatus :=
  if dpu.deleting then { dpu.status with phase := .deleting }
  else if !env.node.isOk then dpu.status
  else if env.metadataDiffers then { dpu.status with phase := .clusterConfig }
  else if env.maintenanceGone then { dpu.status with phase := .ready }
  else if env.removalTimedOut then { dpu.status with phase := .error }
  else dpu.status

def reconcileReadyClusterMetadata (env : Surroundings) (s : DPUStatus) : DPUStatus :=
  if !env.metadataDiffers then s
  else if env.applyOnLabelChange then
    updateFalseDPUCondReady env.now
      { s with postProvisioningNodeEffect := some true, phase := .nodeEffect }
      "RerunNodeEffect" "rerun node effect"
  else
    updateFalseDPUCondReady env.now { s with phase := .clusterConfig }
      "RerunClusterConfig" "rerun cluster config"

/-- The check of the E/W NICs in `Ready`. -/
def nicsReady (s : DPUStatus) : Except (String × String) Unit :=
  match s.agentStatus with
  | none => .ok ()
  | some a => ewnicRuntimeConfigReady a.ewnicRuntimeConfig

/-- The first step of `Ready`: coming back ends `DPUReconfiguring` for the round. -/
def endReconfiguring (now : Time) (s : DPUStatus) : DPUStatus :=
  match s.reconfiguring with
  | none => s
  | some c =>
    if c.status = .isTrue then
      { s with
        reconfiguring :=
          setDPUCondition now s.reconfiguring .isFalse reconfigCompletedReason
            (formatInt (reconfigRound s.dpuReconfig)) }
    else s

def ready (env : Surroundings) (dpu : DPU) : DPUStatus :=
  if dpu.deleting then { dpu.status with phase := .deleting }
  else
    let s := endReconfiguring env.now dpu.status
    match env.node, nicsReady dpu.status with
    | .error message, _ => updateFalseDPUCondReady env.now s "GetNodeFromDPUClusterError" message
    | .ok false, _ =>
      updateFalseDPUCondReady env.now s "NodeNotReady" ("DPU's Node " ++ dpu.name ++ " is not Ready")
    | .ok true, .error (reason, message) => updateFalseDPUCondReady env.now s reason message
    | .ok true, .ok () =>
      let s := { s with ready := setDPUCondition env.now s.ready .isTrue "DPUReady" "" }
      if reconfigInProgress s.dpuReconfig then s else reconcileReadyClusterMetadata env s

/-- The phases to which the handler of an install phase moves on. -/
def installSuccessors : Phase → List Phase
  | .initializing => [.pending, .ready, .error]
  | .pending => [.nodeEffect, .error]
  | .initializeInterface => [.configFWParameters, .rebooting, .performArmForceRestart, .error]
  | .configFWParameters => [.prepareBFB, .updateFirmware]
  | .updateFirmware => [.prepareBFB, .error]
  | .prepareBFB => [.osInstalling]
  | .osInstalling => [.dpuConfig, .rebooting, .error]
  | .performArmForceRestart => [.initializeInterface, .error]
  | _ => []

def install (env : Surroundings) (dpu : DPU) : DPUStatus :=
  if dpu.deleting then { dpu.status with phase := .deleting }
  else if env.installed ∈ installSuccessors dpu.status.phase then
    { dpu.status with phase := env.installed }
  else dpu.status

def error (dpu : DPU) : DPUStatus :=
  if dpu.deleting then { dpu.status with phase := .deleting } else dpu.status

def handler (env : Surroundings) (dpu : DPU) : DPUStatus :=
  match dpu.status.phase with
  | .nodeEffect => nodeEffect env dpu
  | .dpuConfig => dpuConfig env dpu
  | .rebooting => rebooting env dpu
  | .hostNetworkConfiguration => setupNetwork env dpu
  | .clusterConfig => clusterConfig env dpu
  | .serviceReadiness => serviceReadiness env dpu
  | .nodeEffectRemoval => nodeEffectRemoval env dpu
  | .ready => ready env dpu
  | .error => error dpu
  | .deleting => dpu.status
  | _ => install env dpu

def setErrorPhaseFromCondition (dpu : DPU) (s : DPUStatus) : DPUStatus :=
  if dpu.deleting then s else if s.failed then { s with phase := .error } else s

def updateDPUStatus (before next : DPUStatus) : DPUStatus :=
  if next.phase = before.phase then next else { next with previousPhase := some before.phase }

/-- The status that a reconcile of the DPU controller decides on, and whether it is a jump. -/
def reconcile (env : Surroundings) (dpu : DPU) : DPUStatus × Bool :=
  match startInPlaceReconfig env.now dpu with
  | some jumped => (updateDPUStatus dpu.status (setErrorPhaseFromCondition dpu jumped), true)
  | none =>
    (updateDPUStatus dpu.status (setErrorPhaseFromCondition dpu (handler env dpu)), false)

/-! ## What a reconcile can do -/

/-- The `DPUReconfiguring` condition records a round: it is under way, or the DPU came back. -/
def Records (s : DPUStatus) (round : ℕ) : Prop :=
  inPlaceRoundInFlight s round = true ∨ inPlaceAlreadyReturned s round = true

instance (s : DPUStatus) (round : ℕ) : Decidable (Records s round) := by
  unfold Records
  infer_instance

/-- `Ready` finds all in order on a DPU whose `Ready` condition is not True, and leaves it in the
phase. -/
def TurnsReady (env : Surroundings) (dpu : DPU) : Prop :=
  dpu.status.phase = .ready ∧ dpu.status.readySince = none ∧ env.node = .ok true ∧
    nicsReady dpu.status = .ok () ∧
    (reconfigInProgress dpu.status.dpuReconfig = true ∨ env.metadataDiffers = false)

variable {s : DPUStatus} {now : Time} {env : Surroundings} {dpu : DPU}

theorem records_congr {t : DPUStatus} (h : t.reconfiguring = s.reconfiguring) (k : ℕ) :
    Records t k ↔ Records s k := by
  unfold Records inPlaceRoundInFlight inPlaceAlreadyReturned
  rw [h]

theorem readySince_congr {t : DPUStatus} (h : t.ready = s.ready) : t.readySince = s.readySince := by
  unfold DPUStatus.readySince
  rw [h]

@[simp] theorem readySince_updateFalseDPUCondReady (now : Time) (s : DPUStatus)
    (reason message : String) :
    (updateFalseDPUCondReady now s reason message).readySince = none := by
  unfold updateFalseDPUCondReady DPUStatus.readySince setDPUCondition
  cases s.ready <;> rfl

theorem records_markReconfiguring {round k : ℕ} :
    Records (markReconfiguring now round s) k ↔ round = k := by
  unfold Records inPlaceRoundInFlight inPlaceAlreadyReturned markReconfiguring setDPUCondition
  cases s.reconfiguring <;> simp [formatInt_injective.eq_iff]

theorem inFlight_markReconfiguring (now : Time) (round : ℕ) (s : DPUStatus) :
    inPlaceRoundInFlight (markReconfiguring now round s) round = true := by
  unfold inPlaceRoundInFlight markReconfiguring setDPUCondition
  cases s.reconfiguring <;> simp

theorem records_endReconfiguring {k : ℕ} (h : Records (endReconfiguring now s) k) :
    Records s k ∨ reconfigRound s.dpuReconfig = k := by
  unfold endReconfiguring at h
  split at h
  · exact .inl h
  · split_ifs at h with ht
    · right
      rename_i c hc
      unfold Records inPlaceRoundInFlight inPlaceAlreadyReturned setDPUCondition at h
      simpa [hc, formatInt_injective.eq_iff] using h
    · exact .inl h

/-- A handler that leaves the two conditions alone. -/
def KeepsConditions (s t : DPUStatus) : Prop :=
  t.ready = s.ready ∧ t.reconfiguring = s.reconfiguring

theorem handleNodeEffectCompletion_keeps (s : DPUStatus) :
    KeepsConditions s (handleNodeEffectCompletion s) := by
  unfold handleNodeEffectCompletion
  split_ifs <;> exact ⟨rfl, rfl⟩

theorem dpuConfig_keeps (env : Surroundings) (dpu : DPU) :
    KeepsConditions dpu.status (dpuConfig env dpu) := by
  unfold dpuConfig
  dsimp only
  repeat' first | exact ⟨rfl, rfl⟩ | split

theorem advance_keeps (dpu : DPU) (arrived : Bool) (next : Phase) :
    KeepsConditions dpu.status (advance dpu arrived next) := by
  unfold advance
  split_ifs <;> exact ⟨rfl, rfl⟩

theorem rebooting_keeps (env : Surroundings) (dpu : DPU) :
    KeepsConditions dpu.status (rebooting env dpu) := by
  unfold rebooting
  dsimp only
  repeat' first | exact ⟨rfl, rfl⟩ | split

theorem nodeEffectRemoval_keeps (env : Surroundings) (dpu : DPU) :
    KeepsConditions dpu.status (nodeEffectRemoval env dpu) := by
  unfold nodeEffectRemoval
  split_ifs <;> exact ⟨rfl, rfl⟩

theorem install_keeps (env : Surroundings) (dpu : DPU) :
    KeepsConditions dpu.status (install env dpu) := by
  unfold install
  split_ifs <;> exact ⟨rfl, rfl⟩

theorem error_keeps (dpu : DPU) : KeepsConditions dpu.status (error dpu) := by
  unfold error
  split_ifs <;> exact ⟨rfl, rfl⟩

/-- Only Node Effect and Ready write the two conditions. -/
theorem handler_keeps (hne : dpu.status.phase ≠ .nodeEffect) (hr : dpu.status.phase ≠ .ready) :
    KeepsConditions dpu.status (handler env dpu) := by
  unfold handler
  split
  · exact absurd (by assumption) hne
  · exact dpuConfig_keeps env dpu
  · exact rebooting_keeps env dpu
  · exact advance_keeps ..
  · exact advance_keeps ..
  · exact advance_keeps ..
  · exact nodeEffectRemoval_keeps env dpu
  · exact absurd (by assumption) hr
  · exact error_keeps dpu
  · exact ⟨rfl, rfl⟩
  · exact install_keeps env dpu

/-- Node Effect keeps `Ready`, and records a round only for a marked DPU. -/
theorem nodeEffect_conditions (env : Surroundings) (dpu : DPU) :
    (nodeEffect env dpu).ready = dpu.status.ready ∧
      ∀ k, Records (nodeEffect env dpu) k →
        Records dpu.status k ∨
          reconfigRound dpu.status.dpuReconfig = k ∧
            inPlaceRoundInFlight (nodeEffect env dpu) k = true := by
  unfold nodeEffect
  dsimp only
  split_ifs with hd ha hp hp
  · exact ⟨rfl, fun k h => .inl h⟩
  · have hk := handleNodeEffectCompletion_keeps (markReconfiguring env.now
      (reconfigRound dpu.status.dpuReconfig) (armInPlaceNodeEffect dpu.status))
    refine ⟨hk.1, fun k h => .inr ?_⟩
    rw [records_congr hk.2, records_markReconfiguring] at h
    refine ⟨h, ?_⟩
    subst h
    have := inFlight_markReconfiguring env.now (reconfigRound dpu.status.dpuReconfig)
      (armInPlaceNodeEffect dpu.status)
    unfold inPlaceRoundInFlight at this ⊢
    rwa [hk.2]
  · have hk := handleNodeEffectCompletion_keeps dpu.status
    exact ⟨hk.1, fun k h => .inl ((records_congr hk.2 k).mp h)⟩
  · refine ⟨rfl, fun k h => .inr ?_⟩
    rw [records_markReconfiguring] at h
    subst h
    exact ⟨rfl, inFlight_markReconfiguring _ _ _⟩
  · exact ⟨rfl, fun k h => .inl h⟩

theorem readySince_setDPUCondition_isTrue (now : Time) (s : DPUStatus) (reason message : String) :
    ({ s with ready := setDPUCondition now s.ready .isTrue reason message }).readySince =
      some (s.readySince.getD now) := by
  unfold DPUStatus.readySince setDPUCondition
  cases s.ready with
  | none => rfl
  | some c =>
    by_cases h : c.status = .isTrue
    · simp [h]
    · simp [h, Ne.symm h]

theorem endReconfiguring_readySince (now : Time) (s : DPUStatus) :
    (endReconfiguring now s).readySince = s.readySince := by
  unfold endReconfiguring
  repeat' first | rfl | split

theorem reconcileReadyClusterMetadata_spec (env : Surroundings) (s : DPUStatus) :
    (reconcileReadyClusterMetadata env s).reconfiguring = s.reconfiguring ∧
      ((reconcileReadyClusterMetadata env s).readySince = none ∨
        env.metadataDiffers = false ∧ reconcileReadyClusterMetadata env s = s) := by
  unfold reconcileReadyClusterMetadata
  split_ifs with hd
  · exact ⟨rfl, .inr ⟨by simpa using hd, rfl⟩⟩
  · exact ⟨rfl, .inl (by simp)⟩
  · exact ⟨rfl, .inl (by simp)⟩

/-- `Ready` turns its condition True only if all is in order, and records a round only of a DPU
that was under way. -/
theorem ready_conditions (hph : dpu.status.phase = .ready) :
    (∀ t, (ready env dpu).readySince = some t →
      dpu.status.readySince = some t ∨ TurnsReady env dpu ∧ t = env.now) ∧
    ∀ k, Records (ready env dpu) k →
      Records dpu.status k ∨ reconfigRound dpu.status.dpuReconfig = k := by
  unfold ready
  split_ifs with hd
  · exact ⟨fun t h => .inl h, fun k h => .inl h⟩
  have he : ∀ {s : DPUStatus}, s.reconfiguring = (endReconfiguring env.now dpu.status).reconfiguring →
      ∀ k, Records s k → Records dpu.status k ∨ reconfigRound dpu.status.dpuReconfig = k :=
    fun hs k h => records_endReconfiguring ((records_congr hs k).mp h)
  dsimp only
  split
  · exact ⟨fun t h => by simp at h, he rfl⟩
  · exact ⟨fun t h => by simp at h, he rfl⟩
  · exact ⟨fun t h => by simp at h, he rfl⟩
  · rename_i hno hn
    -- The condition is True from now on or stays True, unless the metadata takes the DPU away.
    have ht : ∀ t, some ((endReconfiguring env.now dpu.status).readySince.getD env.now) = some t →
        (reconfigInProgress dpu.status.dpuReconfig = true ∨ env.metadataDiffers = false) →
        dpu.status.readySince = some t ∨ TurnsReady env dpu ∧ t = env.now := by
      intro t h hst
      rw [endReconfiguring_readySince] at h
      cases hsi : dpu.status.readySince with
      | some u =>
        rw [hsi] at h
        exact .inl h
      | none =>
        rw [hsi] at h
        exact .inr ⟨⟨hph, hsi, hno, hn, hst⟩, (Option.some.inj h).symm⟩
    have hdp : (endReconfiguring env.now dpu.status).dpuReconfig = dpu.status.dpuReconfig := by
      unfold endReconfiguring
      repeat' first | rfl | split
    split_ifs with hp
    · refine ⟨fun t h => ?_, he rfl⟩
      rw [readySince_setDPUCondition_isTrue] at h
      exact ht t h (.inl (by rw [← hdp]; exact hp))
    · have hm := reconcileReadyClusterMetadata_spec env
        { endReconfiguring env.now dpu.status with
          ready := setDPUCondition env.now (endReconfiguring env.now dpu.status).ready .isTrue
            "DPUReady" "" }
      refine ⟨fun t h => ?_, he hm.1⟩
      rcases hm.2 with hnone | ⟨hsa, heq⟩
      · rw [hnone] at h
        simp at h
      · rw [heq, readySince_setDPUCondition_isTrue] at h
        exact ht t h (.inr hsa)

/-! ### The decision -/

/-- What the controller decides from a handler's result: the conditions are the handler's, and the
phase is too unless the DPU failed. -/
theorem decided_eq (dpu : DPU) (s : DPUStatus) :
    KeepsConditions s (updateDPUStatus dpu.status (setErrorPhaseFromCondition dpu s)) ∧
      (updateDPUStatus dpu.status (setErrorPhaseFromCondition dpu s)).agentLastStartupTime =
        s.agentLastStartupTime ∧
      ((updateDPUStatus dpu.status (setErrorPhaseFromCondition dpu s)).phase = s.phase ∨
        (updateDPUStatus dpu.status (setErrorPhaseFromCondition dpu s)).phase = .error) := by
  unfold updateDPUStatus setErrorPhaseFromCondition KeepsConditions
  split_ifs <;> simp_all

/-- A jump leaves `Ready` not True, moves a marked DPU out of a phase that jumps, and records its
round as under way. -/
theorem startInPlaceReconfig_spec (h : startInPlaceReconfig now dpu = some s) :
    dpu.deleting = false ∧ reconfigInProgress dpu.status.dpuReconfig = true ∧
      phaseJumpsForInPlace dpu.status.phase = true ∧ s.phase = .nodeEffect ∧
      s.readySince = none ∧ s.agentLastStartupTime = dpu.status.agentLastStartupTime ∧
      (∀ k, Records s k ↔ reconfigRound dpu.status.dpuReconfig = k) ∧
      inPlaceRoundInFlight s (reconfigRound dpu.status.dpuReconfig) = true := by
  unfold startInPlaceReconfig at h
  dsimp only at h
  split_ifs at h with hs hph hd
  simp only [Bool.or_eq_true, Bool.not_eq_true', not_or, Bool.not_eq_true, Bool.not_eq_false]
    at hs hph
  cases h
  refine ⟨hs.1, hs.2, hph, rfl, ?_, rfl, fun k => records_markReconfiguring,
    inFlight_markReconfiguring _ _ _⟩
  exact readySince_updateFalseDPUCondReady now (applyInPlaceJump dpu.status) reconfigPendingReason
    "in-place reconfig"

/-- A marked DPU in a phase that jumps has its round recorded if it does not jump. -/
theorem records_of_startInPlaceReconfig_none (h : startInPlaceReconfig now dpu = none)
    (hd : dpu.deleting = false) (hp : reconfigInProgress dpu.status.dpuReconfig = true)
    (hph : phaseJumpsForInPlace dpu.status.phase = true) :
    Records dpu.status (reconfigRound dpu.status.dpuReconfig) := by
  unfold startInPlaceReconfig at h
  simp only [hd, hp, hph, Bool.not_true, Bool.or_self, Bool.false_eq_true, if_false,
    ite_eq_left_iff, reduceCtorEq, imp_false, not_not, Bool.or_eq_true] at h
  exact h.symm

/-- The agent has reported a startup time that the controller has not acted on yet. -/
def FreshStartup (s : DPUStatus) (startup : Time) : Prop :=
  ∃ a, s.agentStatus = some a ∧ a.lastStartupTime = some startup ∧
    s.agentLastStartupTime ≠ some startup

/-- DPU Config stays as it is, or acts on a startup time that it has not seen. -/
theorem dpuConfig_spec (hph : dpu.status.phase = .dpuConfig) (hd : dpu.deleting = false) :
    (dpuConfig env dpu).phase = .dpuConfig ∧
        (dpuConfig env dpu).agentLastStartupTime = dpu.status.agentLastStartupTime ∨
      ∃ startup, FreshStartup dpu.status startup ∧
        (dpuConfig env dpu).agentLastStartupTime = some startup ∧
        (dpuConfig env dpu).phase ∈
          [Phase.dpuConfig, .hostNetworkConfiguration, .clusterConfig, .rebooting] := by
  unfold dpuConfig
  rw [if_neg (by simp [hd])]
  split
  · exact .inl ⟨hph, rfl⟩
  · rename_i a ha
    split
    · rename_i startup method hst hm
      by_cases hu : method = .unknown
      · rw [if_pos hu]
        exact .inl ⟨hph, rfl⟩
      rw [if_neg hu]
      by_cases hs : dpu.status.agentLastStartupTime = some startup
      · rw [if_pos hs]
        exact .inl ⟨hph, rfl⟩
      rw [if_neg hs]
      split
      · exact .inl ⟨hph, rfl⟩
      · refine .inr ⟨startup, ⟨a, ha, hst, hs⟩, ?_⟩
        cases method <;> simp [hph]
        split_ifs <;> simp
    · exact .inl ⟨hph, rfl⟩

/-- A marked DPU leaves Node Effect for DPU Config only, with the startup time it saw there. -/
theorem nodeEffect_spec (hph : dpu.status.phase = .nodeEffect) (hd : dpu.deleting = false)
    (hp : reconfigInProgress dpu.status.dpuReconfig = true) :
    (nodeEffect env dpu).phase = .nodeEffect ∨
      (nodeEffect env dpu).phase = .dpuConfig ∧
        ∀ a, dpu.status.agentStatus = some a → ∀ startup, a.lastStartupTime = some startup →
          (nodeEffect env dpu).agentLastStartupTime = some startup := by
  unfold nodeEffect
  rw [if_neg (by simp [hd]), if_pos hp]
  split_ifs with hap
  · right
    refine ⟨rfl, fun a ha startup hs => ?_⟩
    simp [handleNodeEffectCompletion, markReconfiguring, armInPlaceNodeEffect, ha, hs]
  · exact .inl hph

/-- What a reconcile that jumps decides: a failed DPU goes to Error instead of Node Effect. -/
structure Jumps (dpu : DPU) (next : DPUStatus) : Prop where
  alive : dpu.deleting = false
  marked : reconfigInProgress dpu.status.dpuReconfig = true
  leaves : phaseJumpsForInPlace dpu.status.phase = true
  phase : next.phase = .nodeEffect ∨ next.phase = .error
  ready : next.readySince = none
  noted : next.agentLastStartupTime = dpu.status.agentLastStartupTime
  records : ∀ k, Records next k ↔ reconfigRound dpu.status.dpuReconfig = k
  inFlight : inPlaceRoundInFlight next (reconfigRound dpu.status.dpuReconfig) = true

theorem reconcile_jumps {next : DPUStatus} (h : reconcile env dpu = (next, true)) :
    Jumps dpu next := by
  unfold reconcile at h
  split at h
  · rename_i jumped hj
    obtain ⟨hk, hl, hph⟩ := decided_eq dpu jumped
    obtain rfl : updateDPUStatus dpu.status (setErrorPhaseFromCondition dpu jumped) = next :=
      congrArg Prod.fst h
    obtain ⟨ha, hm, hlea, hne, hr, hn, hre, hf⟩ :=
      startInPlaceReconfig_spec hj
    refine ⟨ha, hm, hlea, ?_, ?_, hl.trans hn, fun k => ?_, ?_⟩
    · rcases hph with hph | hph
      · exact .inl (hph.trans hne)
      · exact .inr hph
    · rw [readySince_congr hk.1, hr]
    · rw [records_congr hk.2, hre]
    · unfold inPlaceRoundInFlight at hf ⊢
      rwa [hk.2]
  · simp at h

/-- What a reconcile that does not jump decides. -/
structure Decides (dpu : DPU) (env : Surroundings) (next : DPUStatus) : Prop where
  ready : ∀ t, next.readySince = some t →
    dpu.status.readySince = some t ∨ TurnsReady env dpu ∧ t = env.now
  records : ∀ k, Records next k → Records dpu.status k ∨
    reconfigRound dpu.status.dpuReconfig = k ∧
      (reconfigInProgress dpu.status.dpuReconfig = true →
        dpu.status.phase = .nodeEffect ∧ inPlaceRoundInFlight next k = true)
  nodeEffect : dpu.status.phase = .nodeEffect → dpu.deleting = false →
    reconfigInProgress dpu.status.dpuReconfig = true →
    next.phase = .nodeEffect ∨ next.phase = .error ∨
      next.phase = .dpuConfig ∧
        ∀ a, dpu.status.agentStatus = some a → ∀ startup, a.lastStartupTime = some startup →
          next.agentLastStartupTime = some startup
  config : dpu.status.phase = .dpuConfig → dpu.deleting = false →
    (next.phase = .dpuConfig ∨ next.phase = .error) ∧
        next.agentLastStartupTime = dpu.status.agentLastStartupTime ∨
      ∃ startup, FreshStartup dpu.status startup ∧ next.agentLastStartupTime = some startup ∧
        next.phase ∈
          [Phase.dpuConfig, .hostNetworkConfiguration, .clusterConfig, .rebooting, .error]
  error : dpu.status.phase = .error → dpu.deleting = false → next.phase = .error

theorem reconcile_decides {next : DPUStatus} (h : reconcile env dpu = (next, false)) :
    Decides dpu env next := by
  unfold reconcile at h
  split at h
  · simp at h
  · rename_i hstay
    obtain ⟨hke, hl, hph⟩ := decided_eq dpu (handler env dpu)
    obtain rfl : updateDPUStatus dpu.status (setErrorPhaseFromCondition dpu (handler env dpu)) =
      next := congrArg Prod.fst h
    refine ⟨fun t ht => ?_, fun k hk => ?_, fun hne hd hp => ?_, fun hc hd => ?_, fun he hd => ?_⟩
    · rw [readySince_congr hke.1] at ht
      by_cases hr : dpu.status.phase = .ready
      · refine (ready_conditions hr).1 t ?_
        simpa [handler, hr] using ht
      · left
        by_cases hne : dpu.status.phase = .nodeEffect
        · rw [← readySince_congr (nodeEffect_conditions env dpu).1]
          simpa [handler, hne] using ht
        · rwa [← readySince_congr (handler_keeps hne hr).1]
    · rw [records_congr hke.2] at hk
      by_cases hr : dpu.status.phase = .ready
      · simp only [handler, hr] at hk
        rcases (ready_conditions hr).2 k hk with h | h
        · exact .inl h
        · by_cases hp : reconfigInProgress dpu.status.dpuReconfig = true
          · by_cases hd : dpu.deleting = true
            · unfold DpuPhases.ready at hk
              rw [if_pos hd] at hk
              exact .inl hk
            · left
              rw [← h]
              exact records_of_startInPlaceReconfig_none hstay (by simpa using hd) hp
                (by rw [hr]; rfl)
          · exact .inr ⟨h, fun h' => absurd h' hp⟩
      · by_cases hne : dpu.status.phase = .nodeEffect
        · have hh : handler env dpu = DpuPhases.nodeEffect env dpu := by
            simp [handler, hne]
          rw [hh] at hk
          rcases (nodeEffect_conditions env dpu).2 k hk with h | h
          · exact .inl h
          · refine .inr ⟨h.1, fun _ => ⟨hne, ?_⟩⟩
            have hf := h.2
            unfold inPlaceRoundInFlight at hf ⊢
            rwa [hke.2, hh]
        · exact .inl ((records_congr (handler_keeps hne hr).2 k).mp hk)
    · have hh : handler env dpu = DpuPhases.nodeEffect env dpu := by
        simp [handler, hne]
      rw [hh] at hph hl ⊢
      rcases hph with hph | hph
      · rcases nodeEffect_spec hne hd hp with h | ⟨h, hs⟩
        · exact .inl (hph.trans h)
        · refine .inr (.inr ⟨hph.trans h, fun a ha startup hst => ?_⟩)
          rw [hl]
          exact hs a ha startup hst
      · exact .inr (.inl hph)
    · have hh : handler env dpu = dpuConfig env dpu := by simp [handler, hc]
      rw [hh] at hph hl ⊢
      rcases dpuConfig_spec hc hd with ⟨h, hsa⟩ | ⟨startup, hfr, hn, hmem⟩
      · left
        refine ⟨?_, hl.trans hsa⟩
        rcases hph with hph | hph
        · exact .inl (hph.trans h)
        · exact .inr hph
      · refine .inr ⟨startup, hfr, hl.trans hn, ?_⟩
        rcases hph with hph | hph
        · rw [hph]
          simp only [List.mem_cons] at hmem ⊢
          tauto
        · simp [hph]
    · have hh : handler env dpu = DpuPhases.error dpu := by simp [handler, he]
      rw [hh] at hph ⊢
      rcases hph with hph | hph
      · rw [hph]
        simp [DpuPhases.error, hd, he]
      · exact hph

end DocaPlatform.DpuPhases
