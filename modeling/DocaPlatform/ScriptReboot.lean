import DocaPlatform.InPlaceReconfig
import DocaPlatform.Runs

/-!
# Script reboots of a DPUNode

A node whose reboot method is a script. The DPUNode controller keeps one Job for all DPUs of the
node in phase Rebooting and tells them by their reboot status how the Job stands. Every call of a
pass, of the DPU controller and every change of the Job is a step of its own, and every read returns
the current state. The times at which a DPU entered Rebooting and a Job was created are followed on
the side.
-/
namespace DocaPlatform.ScriptReboot

open InPlaceReconfig (Phase RebootMethod)
open Runs Function Option List

abbrev Name := String

/-- `RebootStatusPhase`; `unset` stands for a reboot status that is not there. -/
inductive RebootPhase where
  | unset
  | waitForShutdown
  | pending
  | failed
  | succeeded
  deriving DecidableEq

inductive Reason where
  | empty
  | rebootScriptWaiting
  | rebootScriptFailedToFetchJob
  | rebootScriptFailed
  | rebootRequested
  | firmwareUpdateRequiresPowerCycle
  | modeUpdateRequiresPowerCycle
  /-- The agent gives the method it discovered as the reason. -/
  | discovered (method : RebootMethod)
  | waitingForDPUArmShutdown
  | dpuArmShutdownWaitTimeout
  | dpuArmPoweredOff
  | waitingForManualPowerCycleOrReboot
  | failedToProcessExternalReboot
  deriving DecidableEq

structure RebootStatus where
  phase : RebootPhase
  reason : Reason
  deriving DecidableEq

def isScriptRelatedReason : Reason → Bool
  | .rebootScriptWaiting | .rebootScriptFailedToFetchJob | .rebootScriptFailed => true
  | _ => false

def scriptRebootLifecycleActive (rs : RebootStatus) : Bool :=
  match rs.phase with
  | .pending => rs.reason = .rebootScriptWaiting
  | .failed => isScriptRelatedReason rs.reason
  | _ => false

/-- A field of an object after a merge patch that was computed between `base` and `next`. -/
def mergeField {α : Type} [DecidableEq α] (base next current : α) : α :=
  if next = base then current else next

def RebootStatus.merge (base next current : RebootStatus) : RebootStatus :=
  ⟨mergeField base.phase next.phase current.phase, mergeField base.reason next.reason current.reason⟩

structure DPUStatus where
  phase : Phase
  previousPhase : Phase
  rebootStatus : RebootStatus
  deriving DecidableEq

/-- What the agent reports: a reboot method, and the method that its discovery condition names. -/
structure AgentStatus where
  rebootMethod : Option RebootMethod
  discovery : Option RebootMethod

/-- `InitializeDPURebootStatus`, for a DPU with a host. -/
def initializeDPURebootStatus (sourcePhase : Phase) (agent : Option AgentStatus)
    (zeroTrust : Bool) : Option RebootStatus :=
  let (method, reason) : Option RebootMethod × Reason :=
    match sourcePhase, agent with
    | .osInstalling, _ => (some .powerCycle, .firmwareUpdateRequiresPowerCycle)
    | .initializeInterface, _ => (some .powerCycle, .modeUpdateRequiresPowerCycle)
    | .dpuConfig, some a =>
      (a.rebootMethod, (a.discovery.map Reason.discovered).getD .rebootRequested)
    | _, _ => (none, .rebootRequested)
  match method with
  | none | some .unknown => none
  | some m =>
    if sourcePhase = .dpuConfig && m = .systemLevelReset && zeroTrust then
      some ⟨.waitForShutdown, reason⟩
    else some ⟨.pending, reason⟩

/-- `CompleteRebooting`: the phase that follows. `rebooted` says that the condition Rebooted was
True already. -/
def completeRebooting (s : DPUStatus) (rebooted : Bool) (agent : Option AgentStatus)
    (zeroTrust : Bool) : Phase :=
  if !rebooted && s.rebootStatus.phase ≠ .succeeded then s.phase
  else if s.previousPhase = .initializeInterface then .initializeInterface
  else if s.previousPhase = .osInstalling then .osInstalling
  else if s.previousPhase = .dpuConfig && (agent.bind AgentStatus.discovery).isSome then .dpuConfig
  else if zeroTrust then .clusterConfig
  else .hostNetworkConfiguration

/-- What a reconcile of a DPU comes to. -/
inductive Handling where
  /-- The phase handler starts a reboot cycle. -/
  | enter (agent : Option AgentStatus) (zeroTrust : Bool)
  /-- `reconcileWaitForArmShutdown`. -/
  | awaitShutdown (poweredOff timedOut : Bool)
  | complete (rebooted : Bool) (agent : Option AgentStatus) (zeroTrust : Bool)
  /-- Any other change of the phase: another handler, a deletion, an error. -/
  | move (phase : Phase)

/-- `UpdateDPUStatus` for a change of the phase. -/
def DPUStatus.moveTo (s : DPUStatus) (phase : Phase) : DPUStatus :=
  if phase = s.phase then s else { s with phase := phase, previousPhase := s.phase }

/-- The status that the reconcile wants, from the one it read. -/
def handle (s : DPUStatus) : Handling → Option DPUStatus
  | .enter agent zeroTrust =>
    if s.phase = .rebooting then none
    else
      (initializeDPURebootStatus s.phase agent zeroTrust).map fun rs =>
        { s.moveTo .rebooting with rebootStatus := rs }
  | .awaitShutdown poweredOff timedOut =>
    if s.phase = .rebooting && s.rebootStatus.phase = .waitForShutdown then
      some { s with rebootStatus :=
        if poweredOff then ⟨.pending, .dpuArmPoweredOff⟩
        else if timedOut then ⟨.pending, .dpuArmShutdownWaitTimeout⟩
        else ⟨.waitForShutdown, .waitingForDPUArmShutdown⟩ }
    else none
  | .complete rebooted agent zeroTrust =>
    if s.phase = .rebooting then some (s.moveTo (completeRebooting s rebooted agent zeroTrust))
    else none
  | .move phase => if phase = .rebooting then none else some (s.moveTo phase)

/-- The merge patch at the end of a reconcile. -/
def DPUStatus.merge (base next current : DPUStatus) : DPUStatus where
  phase := mergeField base.phase next.phase current.phase
  previousPhase := mergeField base.previousPhase next.previousPhase current.previousPhase
  rebootStatus := base.rebootStatus.merge next.rebootStatus current.rebootStatus

structure DPU where
  status : DPUStatus
  /-- When the DPU entered Rebooting for its current cycle. -/
  entered : Option ℕ

def DPU.fresh : DPU := ⟨⟨.initializing, .initializing, ⟨.unset, .empty⟩⟩, none⟩

inductive JobState where
  | active
  | complete
  | failed
  deriving DecidableEq

structure Job where
  created : ℕ
  state : JobState
  deriving DecidableEq

def isJobTerminal (j : Job) : Bool := j.state = .complete || j.state = .failed

inductive Pass where
  /-- `GetDPUPhases`. -/
  | phases (todo : List Name) (seen : List Phase)
  /-- `GetDPUsWithPhase`, for phase Rebooting. -/
  | list (seen : List Phase) (todo : List Name) (inScope : List (Name × RebootStatus))
  /-- `reconcileScriptJob`: the read of the Job. -/
  | getJob (inScope : List (Name × RebootStatus))
  /-- `createScriptJob`. -/
  | create (todo : List Name)
  | deleteJob
  /-- `UpdateDPURebootStatus` for the first of `todo`: the read. -/
  | write (todo : List Name) (phase : RebootPhase) (reason : Reason)
  /-- `UpdateDPURebootStatus`: the patch of what was read. -/
  | patch (name : Name) (base next : RebootStatus) (todo : List Name) (phase : RebootPhase)
      (reason : Reason)

/-- The phases during which a node with several DPUs is not rebooted. -/
def isProvisioningPhase : Phase → Bool
  | .prepareBFB | .configFWParameters | .initializeInterface | .osInstalling | .dpuConfig => true
  | _ => false

/-- `HandleRebootSync` once it has the snapshot of the phases. -/
def afterPhases (names : List Name) (seen : List Phase) : Option Pass :=
  if .rebooting ∈ seen then some (.list seen names []) else none

def allRebootingDPUsSucceeded (inScope : List (Name × RebootStatus)) : Bool :=
  !inScope.isEmpty && inScope.all fun p => p.2.phase = .succeeded

def scriptRebootLifecycleActiveOnAny (inScope : List (Name × RebootStatus)) : Bool :=
  inScope.any fun p => scriptRebootLifecycleActive p.2

/-- `HandleRebootSync` and `processScriptReboot` once the DPUs in phase Rebooting are listed. -/
def afterList (names : List Name) (seen : List Phase) (inScope : List (Name × RebootStatus)) :
    Option Pass :=
  if 1 < names.length && seen.any isProvisioningPhase then none
  else if inScope.isEmpty then none
  else if inScope.any fun p => p.2.phase = .waitForShutdown then none
  else if allRebootingDPUsSucceeded inScope then none
  else some (.getJob inScope)

/-- `reconcileScriptJob` once it has read the Job. -/
def afterGetJob (inScope : List (Name × RebootStatus)) : Option Job → Option Pass
  | none => some (.create (inScope.map (·.1)))
  | some j =>
    if !scriptRebootLifecycleActiveOnAny inScope && isJobTerminal j then some .deleteJob
    else
      match j.state with
      | .complete => some (.write (inScope.map (·.1)) .succeeded .empty)
      | .failed => some (.write (inScope.map (·.1)) .failed .rebootScriptFailed)
      | .active => none

/-- The reboot status that `UpdateDPURebootStatus` writes over the one it read. -/
def updateDPURebootStatus (base : RebootStatus) (phase : RebootPhase) (reason : Reason) :
    RebootStatus :=
  ⟨phase, if reason = .empty && phase ≠ .succeeded then base.reason else reason⟩

/-- `updateDPURebootStatus` of the controller, for those that are left. -/
def writeRest (todo : List Name) (phase : RebootPhase) (reason : Reason) : Option Pass :=
  if todo.isEmpty then none else some (.write todo phase reason)

/-! ## Runs -/

structure World where
  /-- `DPUNode.Spec.DPUs`. -/
  names : List Name
  dpus : Name → Option DPU
  /-- What a reconcile of a DPU read, and what it wants. -/
  reconciles : Name → Option (DPUStatus × DPUStatus)
  job : Option Job
  pass : Option Pass
  clock : ℕ
  /-- The creation times of the Jobs that completed. -/
  completed : List ℕ

def World.setDPU (w : World) (n : Name) (d : Option DPU) : World :=
  { w with dpus := update w.dpus n d }

/-- One call of the pass; `ok` is false if the call fails. -/
def World.passCall (w : World) (ok : Bool) : Option World :=
  match w.pass with
  | none => none
  | some (.phases [] seen) => some { w with pass := afterPhases w.names seen }
  | some (.phases (n :: todo) seen) =>
    if !ok then some { w with pass := none }
    else some { w with pass := some (.phases todo (seen ++ ((w.dpus n).map (·.status.phase)).toList)) }
  | some (.list seen [] inScope) => some { w with pass := afterList w.names seen inScope }
  | some (.list seen (n :: todo) inScope) =>
    if !ok then some { w with pass := none }
    else
      match w.dpus n with
      | none => some { w with pass := some (.list seen todo inScope) }
      | some d =>
        if d.status.phase = .rebooting then
          some { w with pass := some (.list seen todo (inScope ++ [(n, d.status.rebootStatus)])) }
        else some { w with pass := some (.list seen todo inScope) }
  | some (.getJob inScope) =>
    if !ok then
      some { w with pass := writeRest (inScope.map (·.1)) .failed .rebootScriptFailedToFetchJob }
    else some { w with pass := afterGetJob inScope w.job }
  | some (.create todo) =>
    if !ok || w.job.isSome then some { w with pass := none }
    else
      some { w with job := some ⟨w.clock, .active⟩, clock := w.clock + 1
                    pass := writeRest todo .pending .rebootScriptWaiting }
  -- the deletion is in the foreground: the Job goes later
  | some .deleteJob => some { w with pass := none }
  | some (.write [] _ _) => some { w with pass := none }
  | some (.write (n :: todo) phase reason) =>
    match w.dpus n with
    | none => some { w with pass := none }
    | some d =>
      if !ok then some { w with pass := none }
      else
        some { w with pass := some (.patch n d.status.rebootStatus
          (updateDPURebootStatus d.status.rebootStatus phase reason) todo phase reason) }
  | some (.patch n base next todo phase reason) =>
    match w.dpus n with
    | none => some { w with pass := none }
    | some d =>
      if !ok then some { w with pass := none }
      else
        let status := { d.status with rebootStatus := base.merge next d.status.rebootStatus }
        some { w.setDPU n (some { d with status := status }) with pass := writeRest todo phase reason }

/-- The patch of a reconcile starts a cycle. -/
def entersRebooting (base next : DPUStatus) : Bool :=
  next.phase = .rebooting && base.phase ≠ .rebooting

def World.dpuPatch (w : World) (n : Name) : Option World :=
  match w.reconciles n, w.dpus n with
  | none, _ => none
  | some _, none => some { w with reconciles := update w.reconciles n none }
  | some (base, next), some d =>
    let enters := entersRebooting base next
    let d' : DPU := ⟨base.merge next d.status, if enters then some w.clock else d.entered⟩
    some { w.setDPU n (some d') with
      reconciles := update w.reconciles n none
      clock := if enters then w.clock + 1 else w.clock }

inductive Event where
  | passStart
  | passCall (ok : Bool)
  | dpuRead (n : Name) (handling : Handling)
  | dpuPatch (n : Name)
  | dpuStop (n : Name)
  | dpuGone (n : Name)
  | dpuNew (n : Name)
  | jobComplete
  | jobFail
  /-- The Job is gone: deleted by a pass, by a user or for its age. -/
  | jobGone

def World.exec (w : World) : Event → Option World
  | .passStart =>
    match w.pass with
    | some _ => none
    | none => some { w with pass := some (.phases w.names []) }
  | .passCall ok => w.passCall ok
  | .dpuRead n handling =>
    match w.reconciles n, w.dpus n with
    | none, some d =>
      (handle d.status handling).map fun next =>
        { w with reconciles := update w.reconciles n (some (d.status, next)) }
    | _, _ => none
  | .dpuPatch n => w.dpuPatch n
  | .dpuStop n => some { w with reconciles := update w.reconciles n none }
  | .dpuGone n => some (w.setDPU n none)
  | .dpuNew n => if (w.dpus n).isSome then none else some (w.setDPU n (some DPU.fresh))
  | .jobComplete =>
    match w.job with
    | some ⟨created, .active⟩ =>
      some { w with job := some ⟨created, .complete⟩, completed := created :: w.completed }
    | _ => none
  | .jobFail =>
    match w.job with
    | some ⟨created, .active⟩ => some { w with job := some ⟨created, .failed⟩ }
    | _ => none
  | .jobGone => some { w with job := none }

def Step (w : World) (e : Event) (w' : World) : Prop := w.exec e = some w'

/-- At the start nothing is under way: there is no Job, and the DPUs are new. -/
structure Init (w : World) : Prop where
  dpus : ∀ n d, w.dpus n = some d → d = DPU.fresh
  reconciles : ∀ n, w.reconciles n = none
  job : w.job = none
  pass : w.pass = none

/-- The pass will write the reboot status of the DPU, or decide whether to. -/
def Pass.covers (n : Name) : Pass → Bool
  | .list _ _ inScope => n ∈ inScope.map (·.1)
  | .getJob inScope => n ∈ inScope.map (·.1)
  | .create todo => n ∈ todo
  | .write todo _ _ => n ∈ todo
  | .patch m _ _ todo _ _ => n = m || n ∈ todo
  | _ => false

/-- A DPU of which the reboot status says that it waits for the Job, or that a Job failed or
completed for it. -/
def tracksJob (rs : RebootStatus) : Bool :=
  rs.phase = .succeeded ||
    scriptRebootLifecycleActive rs && rs.reason ≠ .rebootScriptFailedToFetchJob

/-- The condition on a step. -/
def World.allowed (w : World) : Event → Bool
  | .passCall true =>
    match w.pass, w.job with
    | some (.getJob inScope), some j =>
      j.state ≠ .complete || !scriptRebootLifecycleActiveOnAny inScope ||
        inScope.all fun p => tracksJob p.2
    | _, _ => true
  | .dpuPatch n =>
    match w.reconciles n with
    | some (base, next) =>
      !entersRebooting base next ||
        w.pass.all (fun p => !p.covers n) &&
          (w.dpus n).all fun d => d.status.rebootStatus = base.rebootStatus
    | none => true
  | .dpuNew n => w.pass.all fun p => !p.covers n
  | _ => true

/-! ## What a reboot status stands for -/

/-- What the reboot status of a DPU says about the Job of the node, for a DPU that entered Rebooting
at `entered`. -/
structure Backed (job : Option Job) (completed : List ℕ) (entered : Option ℕ) (rs : RebootStatus) :
    Prop where
  waiting : rs.reason = .rebootScriptWaiting →
    ∃ t, entered = some t ∧ ∀ j, job = some j → t < j.created
  failed : rs.reason = .rebootScriptFailed →
    ∃ t, entered = some t ∧ ∀ j, job = some j → t < j.created ∨ j.state = .failed
  succeeded : rs.phase = .succeeded → ∃ t, entered = some t ∧ ∃ c ∈ completed, t < c

/-- A reboot status that says nothing about a Job. -/
structure Neutral (rs : RebootStatus) : Prop where
  waiting : rs.reason ≠ .rebootScriptWaiting
  failed : rs.reason ≠ .rebootScriptFailed
  succeeded : rs.phase ≠ .succeeded

section Backed

variable {job job' : Option Job} {completed completed' : List ℕ} {entered : Option ℕ}
  {rs base next : RebootStatus}

theorem Neutral.backed (h : Neutral rs) : Backed job completed entered rs :=
  ⟨fun hr => absurd hr h.waiting, fun hr => absurd hr h.failed, fun hp => absurd hp h.succeeded⟩

/-- The Job is a later one, or the same one. -/
theorem Backed.mono (h : Backed job completed entered rs)
    (hjo : ∀ j', job' = some j' → (∀ t, entered = some t → t < j'.created) ∨
      ∃ j, job = some j ∧ j.created = j'.created ∧ (j.state = .failed → j'.state = .failed))
    (hco : ∀ c ∈ completed, c ∈ completed') : Backed job' completed' entered rs := by
  refine ⟨fun hr => ?_, fun hr => ?_, fun hp => ?_⟩
  · obtain ⟨t, ht, hlt⟩ := h.waiting hr
    refine ⟨t, ht, fun j' hj' => ?_⟩
    rcases hjo j' hj' with hn | ⟨j, hj, hcr, -⟩
    · exact hn t ht
    · rw [← hcr]
      exact hlt j hj
  · obtain ⟨t, ht, hlt⟩ := h.failed hr
    refine ⟨t, ht, fun j' hj' => ?_⟩
    rcases hjo j' hj' with hn | ⟨j, hj, hcr, hf⟩
    · exact .inl (hn t ht)
    · rw [← hcr]
      exact (hlt j hj).imp id hf
  · obtain ⟨t, ht, c, hc, hlt⟩ := h.succeeded hp
    exact ⟨t, ht, c, hco c hc, hlt⟩

theorem mergeField_eq {α : Type} [DecidableEq α] (base next current : α) :
    mergeField base next current = current ∨ mergeField base next current = next := by
  unfold mergeField
  split_ifs with h
  · exact .inl rfl
  · exact .inr rfl

@[simp] theorem merge_self (current : RebootStatus) : base.merge base current = current := by
  simp [RebootStatus.merge, mergeField]

@[simp] theorem merge_current : base.merge next base = next := by
  unfold RebootStatus.merge mergeField
  congr
  · split_ifs with h
    · exact h.symm
    · rfl
  · split_ifs with h
    · exact h.symm
    · rfl

theorem Backed.merge (hc : Backed job completed entered rs)
    (hn : Backed job completed entered next) :
    Backed job completed entered (base.merge next rs) := by
  have hph := mergeField_eq base.phase next.phase rs.phase
  have hre := mergeField_eq base.reason next.reason rs.reason
  refine ⟨fun hr => ?_, fun hr => ?_, fun hp => ?_⟩
  · rcases hre with h | h
    · exact hc.waiting (h.symm.trans hr)
    · exact hn.waiting (h.symm.trans hr)
  · rcases hre with h | h
    · exact hc.failed (h.symm.trans hr)
    · exact hn.failed (h.symm.trans hr)
  · rcases hph with h | h
    · exact hc.succeeded (h.symm.trans hp)
    · exact hn.succeeded (h.symm.trans hp)

theorem merge_rebootStatus {base next current : DPUStatus}
    (h : next.rebootStatus = base.rebootStatus) :
    (base.merge next current).rebootStatus = current.rebootStatus := by
  simp [DPUStatus.merge, h]

/-- A patch that starts no cycle leaves a DPU in Rebooting only if it was there. -/
theorem rebooting_of_merge {base next current : DPUStatus}
    (he : entersRebooting base next = false) (h : (base.merge next current).phase = .rebooting) :
    current.phase = .rebooting := by
  rcases mergeField_eq base.phase next.phase current.phase with hm | hm
  · exact hm.symm.trans h
  · have hn : next.phase = .rebooting := hm.symm.trans h
    have hb : base.phase = .rebooting := by simpa [entersRebooting, hn] using he
    simpa [DPUStatus.merge, mergeField, hn, hb] using h

/-- What `UpdateDPURebootStatus` writes is backed if its arguments and what it read are. -/
theorem Backed.update {phase : RebootPhase} {reason : Reason}
    (hb : Backed job completed entered base) (hn : Backed job completed entered ⟨phase, reason⟩) :
    Backed job completed entered (updateDPURebootStatus base phase reason) := by
  unfold updateDPURebootStatus
  split_ifs with h
  · exact ⟨hb.waiting, hb.failed, hn.succeeded⟩
  · exact hn

theorem Backed.of_complete {j : Job} (h : Backed (some j) completed entered rs)
    (htr : tracksJob rs = true) (hs : j.state = .complete) (hj : j.created ∈ completed) :
    Backed (some j) completed entered ⟨.succeeded, .empty⟩ := by
  refine ⟨nofun, nofun, fun _ => ?_⟩
  by_cases hsu : rs.phase = .succeeded
  · exact h.succeeded hsu
  · have hac : scriptRebootLifecycleActive rs = true ∧
        rs.reason ≠ .rebootScriptFailedToFetchJob := by
      simpa [tracksJob, hsu] using htr
    have hre : rs.reason = .rebootScriptWaiting ∨ rs.reason = .rebootScriptFailed := by
      obtain ⟨ha, hfe⟩ := hac
      unfold scriptRebootLifecycleActive at ha
      cases hph : rs.phase with
      | pending =>
        rw [hph] at ha
        exact .inl (of_decide_eq_true ha)
      | failed =>
        rw [hph] at ha
        cases hr : rs.reason with
        | rebootScriptWaiting => exact .inl rfl
        | rebootScriptFailed => exact .inr rfl
        | rebootScriptFailedToFetchJob => exact absurd hr hfe
        | _ => simp [isScriptRelatedReason, hr] at ha
      | unset | waitForShutdown | succeeded => simp [hph] at ha
    rcases hre with hr | hr
    · obtain ⟨t, ht, hlt⟩ := h.waiting hr
      exact ⟨t, ht, j.created, hj, hlt j rfl⟩
    · obtain ⟨t, ht, hlt⟩ := h.failed hr
      refine ⟨t, ht, j.created, hj, (hlt j rfl).resolve_right fun hf => ?_⟩
      exact absurd (hs.symm.trans hf) (by decide)

end Backed

/-- A reconcile of a DPU keeps the reboot status, or writes one that says nothing about a Job; the
latter whenever it starts a cycle. -/
structure ReconcileInv (base next : DPUStatus) : Prop where
  status : next.rebootStatus = base.rebootStatus ∨ Neutral next.rebootStatus
  enters : entersRebooting base next = true → Neutral next.rebootStatus

/-- The reasons that the DPU controller gives. -/
def isDPUReason : Reason → Bool
  | .rebootRequested | .firmwareUpdateRequiresPowerCycle | .modeUpdateRequiresPowerCycle
  | .discovered _ | .waitingForDPUArmShutdown | .dpuArmShutdownWaitTimeout
  | .dpuArmPoweredOff => true
  | _ => false

theorem initializeDPURebootStatus_spec {source : Phase} {agent : Option AgentStatus}
    {zeroTrust : Bool} {rs : RebootStatus}
    (h : initializeDPURebootStatus source agent zeroTrust = some rs) :
    isDPUReason rs.reason = true ∧ rs.phase ≠ .succeeded := by
  have key : ∀ (method : Option RebootMethod) (reason : Reason), isDPUReason reason = true →
      (match method with
        | none | some .unknown => none
        | some m =>
          if source = .dpuConfig && m = .systemLevelReset && zeroTrust then
            some (⟨.waitForShutdown, reason⟩ : RebootStatus)
          else some ⟨.pending, reason⟩) = some rs →
      isDPUReason rs.reason = true ∧ rs.phase ≠ .succeeded := by
    intro method reason hr hrs
    split at hrs
    · cases hrs
    · cases hrs
    · split_ifs at hrs
      · cases hrs
        exact ⟨hr, by simp⟩
      · cases hrs
        exact ⟨hr, by simp⟩
  unfold initializeDPURebootStatus at h
  split at h
  rename_i method reason hp
  refine key method reason ?_ h
  split at hp
  · obtain ⟨-, rfl⟩ := Prod.mk.inj hp
    rfl
  · obtain ⟨-, rfl⟩ := Prod.mk.inj hp
    rfl
  · rename_i a
    obtain ⟨-, rfl⟩ := Prod.mk.inj hp
    cases a.discovery <;> rfl
  · obtain ⟨-, rfl⟩ := Prod.mk.inj hp
    rfl

theorem moveTo_rebootStatus (s : DPUStatus) (phase : Phase) :
    (s.moveTo phase).rebootStatus = s.rebootStatus := by
  unfold DPUStatus.moveTo
  split_ifs <;> rfl

/-- A reconcile of a DPU keeps the reboot status, or gives a reason of its own; the latter whenever
it starts a cycle. -/
theorem handle_rebootStatus {s next : DPUStatus} {handling : Handling}
    (h : handle s handling = some next) :
    (next.rebootStatus = s.rebootStatus ∧ entersRebooting s next = false) ∨
      (isDPUReason next.rebootStatus.reason = true ∧ next.rebootStatus.phase ≠ .succeeded) := by
  cases handling with simp only [handle] at h
  | enter agent zeroTrust =>
    split_ifs at h
    obtain ⟨rs, hrs, rfl⟩ := map_eq_some_iff.mp h
    exact .inr (initializeDPURebootStatus_spec hrs)
  | awaitShutdown poweredOff timedOut =>
    split_ifs at h with hc
    all_goals
      cases h
      exact .inr ⟨rfl, by simp⟩
  | complete rebooted agent zeroTrust =>
    split_ifs at h with hph
    cases h
    exact .inl ⟨moveTo_rebootStatus _ _, by simp [entersRebooting, hph]⟩
  | move phase =>
    split_ifs at h with hph
    cases h
    refine .inl ⟨moveTo_rebootStatus _ _, ?_⟩
    unfold entersRebooting DPUStatus.moveTo
    split_ifs with hs
    · simp
    · simp [hph]

theorem neutral_of_dpuReason {rs : RebootStatus} (hr : isDPUReason rs.reason = true)
    (hph : rs.phase ≠ .succeeded) : Neutral rs := by
  refine ⟨fun h => ?_, fun h => ?_, hph⟩
  · rw [h] at hr
    cases hr
  · rw [h] at hr
    cases hr

theorem handle_inv {s next : DPUStatus} {handling : Handling} (h : handle s handling = some next) :
    ReconcileInv s next := by
  rcases handle_rebootStatus h with ⟨hk, hen⟩ | ⟨hr, hph⟩
  · exact ⟨.inl hk, fun he => by simp [hen] at he⟩
  · have hn := neutral_of_dpuReason hr hph
    exact ⟨.inr hn, fun _ => hn⟩

/-! ## The invariant -/

/-- What a pass knows of the DPUs that it deals with. -/
def PassInv (w : World) : Option Pass → Prop
  | some (.list _ _ inScope) | some (.getJob inScope) =>
    ∀ p ∈ inScope, ∀ d, w.dpus p.1 = some d →
      d.entered.isSome = true ∧ Backed w.job w.completed d.entered p.2
  | some (.create todo) => ∀ n ∈ todo, ∀ d, w.dpus n = some d → d.entered.isSome = true
  | some (.write todo phase reason) =>
    ∀ n ∈ todo, ∀ d, w.dpus n = some d → Backed w.job w.completed d.entered ⟨phase, reason⟩
  | some (.patch n _ next todo phase reason) =>
    (∀ d, w.dpus n = some d → Backed w.job w.completed d.entered next) ∧
      ∀ m ∈ todo, ∀ d, w.dpus m = some d → Backed w.job w.completed d.entered ⟨phase, reason⟩
  | _ => True

structure Inv (w : World) : Prop where
  clocked : ∀ n d t, w.dpus n = some d → d.entered = some t → t < w.clock
  jobCompleted : ∀ j, w.job = some j → j.state = .complete → j.created ∈ w.completed
  rebooting : ∀ n d, w.dpus n = some d → d.status.phase = .rebooting → d.entered.isSome = true
  backed : ∀ n d, w.dpus n = some d → Backed w.job w.completed d.entered d.status.rebootStatus
  reconciles : ∀ n base next, w.reconciles n = some (base, next) → ReconcileInv base next
  pass : PassInv w w.pass

theorem DPU.fresh_neutral : Neutral DPU.fresh.status.rebootStatus :=
  ⟨by simp [DPU.fresh], by simp [DPU.fresh], by simp [DPU.fresh]⟩

theorem Init.inv {w : World} (h : Init w) : Inv w := by
  refine ⟨?_, ?_, ?_, ?_, ?_, ?_⟩
  · intro n d t hd ht
    rw [h.dpus n d hd] at ht
    exact absurd ht (by simp [DPU.fresh])
  · intro j hj
    rw [h.job] at hj
    cases hj
  · intro n d hd hph
    rw [h.dpus n d hd] at hph
    exact absurd hph (by simp [DPU.fresh])
  · intro n d hd
    rw [h.dpus n d hd]
    exact DPU.fresh_neutral.backed
  · intro n base next hr
    rw [h.reconciles n] at hr
    cases hr
  · rw [h.pass]
    trivial

variable {w w' : World}

/-- The DPUs that the pass deals with are the same or gone, and what backs a status still does. -/
theorem PassInv.mono {p : Option Pass} (h : PassInv w p)
    (hdp : ∀ n, p.any (Pass.covers n) = true → ∀ d', w'.dpus n = some d' →
      ∃ d, w.dpus n = some d ∧ d'.entered = d.entered)
    (hb : ∀ entered rs, Backed w.job w.completed entered rs →
      Backed w'.job w'.completed entered rs) : PassInv w' p := by
  have hsc : ∀ inScope : List (Name × RebootStatus),
      (∀ n ∈ inScope.map (·.1), ∀ d', w'.dpus n = some d' →
        ∃ d, w.dpus n = some d ∧ d'.entered = d.entered) →
      (∀ p ∈ inScope, ∀ d, w.dpus p.1 = some d →
        d.entered.isSome = true ∧ Backed w.job w.completed d.entered p.2) →
      ∀ p ∈ inScope, ∀ d, w'.dpus p.1 = some d →
        d.entered.isSome = true ∧ Backed w'.job w'.completed d.entered p.2 := by
    intro inScope hs hall p hp d' hd'
    obtain ⟨d, hd, he⟩ := hs p.1 (List.mem_map_of_mem hp) d' hd'
    rw [he]
    exact ⟨(hall p hp d hd).1, hb _ _ (hall p hp d hd).2⟩
  have hw : ∀ (todo : List Name) (rs : RebootStatus),
      (∀ n ∈ todo, ∀ d', w'.dpus n = some d' → ∃ d, w.dpus n = some d ∧ d'.entered = d.entered) →
      (∀ n ∈ todo, ∀ d, w.dpus n = some d → Backed w.job w.completed d.entered rs) →
      ∀ n ∈ todo, ∀ d, w'.dpus n = some d → Backed w'.job w'.completed d.entered rs := by
    intro todo rs hs hall n hn d' hd'
    obtain ⟨d, hd, he⟩ := hs n hn d' hd'
    rw [he]
    exact hb _ _ (hall n hn d hd)
  cases p with
  | none => trivial
  | some p =>
    cases p with
    | phases todo seen => trivial
    | deleteJob => trivial
    | list seen todo inScope | getJob inScope =>
      exact hsc inScope (fun n hn => hdp n (by simpa [Pass.covers] using hn)) h
    | create todo =>
      intro n hn d' hd'
      obtain ⟨d, hd, he⟩ := hdp n (by simpa [Pass.covers] using hn) d' hd'
      rw [he]
      exact h n hn d hd
    | write todo phase reason =>
      exact hw todo _ (fun n hn => hdp n (by simpa [Pass.covers] using hn)) h
    | patch n base next todo phase reason =>
      refine ⟨?_, hw todo _ (fun m hm => hdp m (by simp [Pass.covers, hm])) h.2⟩
      intro d' hd'
      obtain ⟨d, hd, he⟩ := hdp n (by simp [Pass.covers]) d' hd'
      rw [he]
      exact hb _ _ (h.1 d hd)

theorem Inv.passGoes (h : Inv w) (p : Option Pass) (hp : PassInv w p) : Inv { w with pass := p } :=
  ⟨h.clocked, h.jobCompleted, h.rebooting, h.backed, h.reconciles, hp⟩

variable {todo : List Name} {n : Name} {d : DPU}

theorem PassInv.writeRest {phase : RebootPhase} {reason : Reason}
    (h : ∀ n ∈ todo, ∀ d, w.dpus n = some d → Backed w.job w.completed d.entered ⟨phase, reason⟩) :
    PassInv w (writeRest todo phase reason) := by
  unfold ScriptReboot.writeRest
  split_ifs
  · trivial
  · exact h

theorem PassInv.afterGetJob (h : Inv w) {inScope : List (Name × RebootStatus)}
    (hpa : w.pass = some (.getJob inScope)) (hok : w.allowed (.passCall true) = true) :
    PassInv w (afterGetJob inScope w.job) := by
  have hs := h.pass
  rw [hpa] at hs
  have hmem : ∀ n ∈ inScope.map (·.1), ∀ d, w.dpus n = some d → ∃ rs, (n, rs) ∈ inScope ∧
      d.entered.isSome = true ∧ Backed w.job w.completed d.entered rs := by
    intro n hn d hd
    obtain ⟨p, hp, rfl⟩ := List.mem_map.mp hn
    exact ⟨p.2, hp, hs p hp d hd⟩
  cases hj : w.job with
  | none =>
    intro n hn d hd
    obtain ⟨rs, -, he, -⟩ := hmem n hn d hd
    exact he
  | some j =>
    simp only [ScriptReboot.afterGetJob]
    split_ifs with hst
    · trivial
    · cases hstat : j.state with
      | active => trivial
      | complete =>
        have ha : scriptRebootLifecycleActiveOnAny inScope = true := by
          simpa [isJobTerminal, hstat] using hst
        have htr : ∀ p ∈ inScope, tracksJob p.2 = true := by
          simpa [World.allowed, hpa, hj, hstat, ha] using hok
        intro n hn d hd
        obtain ⟨rs, hrs, -, hb⟩ := hmem n hn d hd
        rw [hj] at hb ⊢
        exact hb.of_complete (htr _ hrs) hstat (h.jobCompleted j hj hstat)
      | failed =>
        intro n hn d hd
        obtain ⟨rs, -, he, -⟩ := hmem n hn d hd
        obtain ⟨t, ht⟩ := isSome_iff_exists.mp he
        refine ⟨nofun, fun _ => ⟨t, ht, fun j' hj' => .inr ?_⟩,
          nofun⟩
        cases hj.symm.trans hj'
        exact hstat

theorem Inv.passList (h : Inv w) {seen : List Phase} {inScope : List (Name × RebootStatus)}
    (hpa : w.pass = some (.list seen (n :: todo) inScope)) (hd : w.dpus n = some d)
    (hph : d.status.phase = .rebooting) :
    PassInv w (some (.list seen todo (inScope ++ [(n, d.status.rebootStatus)]))) := by
  have hs := h.pass
  rw [hpa] at hs
  intro p hp d' hd'
  rcases mem_append.mp hp with hp | hp
  · exact hs p hp d' hd'
  · obtain rfl := mem_singleton.mp hp
    cases hd.symm.trans hd'
    exact ⟨h.rebooting n d hd hph, h.backed n d hd⟩

theorem Inv.passCreate (h : Inv w) (hpa : w.pass = some (.create todo)) :
    Inv { w with job := some ⟨w.clock, .active⟩, clock := w.clock + 1,
                 pass := ScriptReboot.writeRest todo .pending .rebootScriptWaiting } := by
  have he := h.pass
  rw [hpa] at he
  refine ⟨?_, ?_, h.rebooting, ?_, h.reconciles, PassInv.writeRest ?_⟩
  · exact fun n d t hd ht => (h.clocked n d t hd ht).trans (Nat.lt_succ_self _)
  · intro j hj hs
    cases hj
    cases hs
  · intro n d hd
    refine (h.backed n d hd).mono (fun j' hj' => .inl fun t ht => ?_) fun c hc => hc
    cases hj'
    exact h.clocked n d t hd ht
  · intro n hn d hd
    obtain ⟨t, ht⟩ := isSome_iff_exists.mp (he n hn d hd)
    refine ⟨fun _ => ⟨t, ht, fun j hj => ?_⟩, nofun,
      nofun⟩
    cases hj
    exact h.clocked n d t hd ht

/-- A DPU is gone or another one. A pass that deals with it finds it as it entered before. -/
theorem Inv.setDPU (h : Inv w) {o : Option DPU} {clock : ℕ} (hc : w.clock ≤ clock)
    (hen : ∀ d t, o = some d → d.entered = some t → t < clock)
    (hph : ∀ d, o = some d → d.status.phase = .rebooting → d.entered.isSome = true)
    (hba : ∀ d, o = some d → Backed w.job w.completed d.entered d.status.rebootStatus)
    (hpa : w.pass.any (Pass.covers n) = true → ∀ d', o = some d' →
      ∃ d, w.dpus n = some d ∧ d'.entered = d.entered) :
    Inv { w.setDPU n o with clock := clock } := by
  have hd : ∀ m e, (w.setDPU n o).dpus m = some e →
      (m = n ∧ o = some e) ∨ w.dpus m = some e := by
    intro m e he
    change update w.dpus n o m = some e at he
    rw [update_apply] at he
    split_ifs at he with hm
    · exact .inl ⟨hm, he⟩
    · exact .inr he
  refine ⟨?_, h.jobCompleted, ?_, ?_, h.reconciles, h.pass.mono ?_ fun _ _ hb => hb⟩
  · intro m e t he ht
    rcases hd m e he with ⟨rfl, ho⟩ | he
    · exact hen e t ho ht
    · exact (h.clocked m e t he ht).trans_le hc
  · intro m e he hp
    rcases hd m e he with ⟨rfl, ho⟩ | he
    · exact hph e ho hp
    · exact h.rebooting m e he hp
  · intro m e he
    rcases hd m e he with ⟨rfl, ho⟩ | he
    · exact hba e ho
    · exact h.backed m e he
  · intro m hm e he
    rcases hd m e he with ⟨rfl, ho⟩ | he
    · exact hpa hm e ho
    · exact ⟨e, he, rfl⟩

/-- A DPU is replaced by one that entered at the same time. -/
theorem Inv.keepDPU (h : Inv w) {d' : DPU} (hd : w.dpus n = some d) (hen : d'.entered = d.entered)
    (hph : d'.status.phase = .rebooting → d.status.phase = .rebooting)
    (hba : Backed w.job w.completed d'.entered d'.status.rebootStatus) :
    Inv (w.setDPU n (some d')) := by
  refine h.setDPU le_rfl (fun e t he ht => ?_) (fun e he hp => ?_) (fun e he => ?_)
    fun _ e he => ?_ <;> cases he
  · exact h.clocked n d t hd (hen ▸ ht)
  · rw [hen]
    exact h.rebooting n d hd (hph hp)
  · exact hba
  · exact ⟨d, hd, hen⟩

theorem Inv.passCall (h : Inv w) {ok : Bool} (hok : w.allowed (.passCall ok) = true)
    (hst : w.passCall ok = some w') : Inv w' := by
  have hpassInv := h.pass
  unfold World.passCall at hst
  split at hst
  · cases hst
  · cases hst
    refine h.passGoes _ ?_
    unfold afterPhases
    split_ifs
    · exact nofun
    · trivial
  · split_ifs at hst
    · cases hst
      exact h.passGoes none trivial
    · cases hst
      exact h.passGoes _ trivial
  · rename_i seen inScope hpa
    cases hst
    refine h.passGoes _ ?_
    rw [hpa] at hpassInv
    unfold afterList
    split_ifs
    · trivial
    · trivial
    · trivial
    · trivial
    · exact hpassInv
  · rename_i seen n todo inScope hpa
    rw [hpa] at hpassInv
    split_ifs at hst
    · cases hst
      exact h.passGoes none trivial
    · split at hst
      · cases hst
        exact h.passGoes _ hpassInv
      · rename_i d hd
        split_ifs at hst with hph
        · cases hst
          exact h.passGoes _ (h.passList hpa hd hph)
        · cases hst
          exact h.passGoes _ hpassInv
  · rename_i inScope hpa
    cases ok with
    | false =>
      cases hst
      refine h.passGoes _ (PassInv.writeRest fun n hn d hd => ?_)
      exact Neutral.backed ⟨by simp, by simp, by simp⟩
    | true =>
      cases hst
      exact h.passGoes _ (PassInv.afterGetJob h hpa hok)
  · rename_i todo hpa
    split_ifs at hst
    · cases hst
      exact h.passGoes none trivial
    · cases hst
      exact h.passCreate hpa
  · cases hst
    exact h.passGoes none trivial
  · cases hst
    exact h.passGoes none trivial
  · rename_i n todo phase reason hpa
    rw [hpa] at hpassInv
    split at hst
    · cases hst
      exact h.passGoes none trivial
    · rename_i d hd
      split_ifs at hst
      · cases hst
        exact h.passGoes none trivial
      · cases hst
        refine h.passGoes _ ⟨fun d' hd' => ?_, fun m hm => hpassInv m (mem_cons_of_mem n hm)⟩
        cases hd.symm.trans hd'
        exact (h.backed n d hd).update (hpassInv n mem_cons_self d hd)
  · rename_i n base next todo phase reason hpa
    rw [hpa] at hpassInv
    split at hst
    · cases hst
      exact h.passGoes none trivial
    · rename_i d hd
      split_ifs at hst
      · cases hst
        exact h.passGoes none trivial
      · cases hst
        have hs : Inv (w.setDPU n (some ⟨{ d.status with
            rebootStatus := base.merge next d.status.rebootStatus }, d.entered⟩)) :=
          h.keepDPU hd rfl id ((h.backed n d hd).merge (hpassInv.1 d hd))
        have hr := hs.pass
        change PassInv _ w.pass at hr
        rw [hpa] at hr
        exact hs.passGoes _ (PassInv.writeRest hr.2)

/-! ## The other steps -/

theorem Inv.setReconcile (h : Inv w) {r : Option (DPUStatus × DPUStatus)}
    (hr : ∀ base next, r = some (base, next) → ReconcileInv base next) :
    Inv { w with reconciles := update w.reconciles n r } := by
  refine ⟨h.clocked, h.jobCompleted, h.rebooting, h.backed, ?_, h.pass⟩
  exact (forall_update_iff w.reconciles fun _ r => ∀ base next, r = some (base, next) →
    ReconcileInv base next).mpr ⟨hr, fun m _ => h.reconciles m⟩

/-- A DPU that no pass deals with starts a cycle, or is a new object. -/
theorem Inv.replaceDPU (h : Inv w) {clock : ℕ} (hco : w.pass.all (fun p => !p.covers n) = true)
    (hc : w.clock ≤ clock) (hen : ∀ t, d.entered = some t → t < clock)
    (hph : d.status.phase = .rebooting → d.entered.isSome = true)
    (hn : Neutral d.status.rebootStatus) : Inv { w.setDPU n (some d) with clock := clock } := by
  refine h.setDPU hc (fun e t he ht => ?_) (fun e he hp => ?_) (fun e he => ?_)
    fun ha e he => ?_ <;> cases he
  · exact hen t ht
  · exact hph hp
  · exact hn.backed
  · cases hp : w.pass with
    | none => simp [hp] at ha
    | some p =>
      rw [hp, any_some] at ha
      simp [hp, ha] at hco

theorem Inv.dpuPatch (h : Inv w) (hok : w.allowed (.dpuPatch n) = true)
    (hst : w.dpuPatch n = some w') : Inv w' := by
  unfold World.dpuPatch at hst
  simp only [World.allowed] at hok
  split at hst
  · cases hst
  · cases hst
    exact h.setReconcile (by simp)
  · rename_i base next d hr hd
    have hinv := h.reconciles n base next hr
    simp only [hr, hd, all_some] at hok
    cases hen : entersRebooting base next with
    | true =>
      simp only [hen, if_true] at hst
      cases hst
      have hg : w.pass.all (fun p => !p.covers n) = true ∧
          d.status.rebootStatus = base.rebootStatus := by
        simpa [hen] using hok
      have he : Inv { w.setDPU n (some ⟨base.merge next d.status, some w.clock⟩) with
          clock := w.clock + 1 } := by
        refine h.replaceDPU hg.1 (Nat.le_succ _) (fun t ht => ?_) (fun _ => rfl) ?_
        · cases ht
          exact Nat.lt_succ_self _
        change Neutral (base.rebootStatus.merge next.rebootStatus d.status.rebootStatus)
        rw [hg.2, merge_current]
        exact hinv.enters hen
      exact he.setReconcile (by simp)
    | false =>
      simp only [hen, Bool.false_eq_true, if_false] at hst
      cases hst
      have hse : Inv (w.setDPU n (some ⟨base.merge next d.status, d.entered⟩)) := by
        refine h.keepDPU hd rfl (rebooting_of_merge hen) ?_
        rcases hinv.status with hs | hs
        · exact (merge_rebootStatus hs).symm ▸ h.backed n d hd
        · exact (h.backed n d hd).merge hs.backed
      exact hse.setReconcile (by simp)

theorem Inv.setJob (h : Inv w) {job : Option Job} {completed : List ℕ}
    (hj : ∀ j', job = some j' → ∃ j, w.job = some j ∧ j.created = j'.created ∧
      (j.state = .failed → j'.state = .failed))
    (hdo : ∀ j', job = some j' → j'.state = .complete → j'.created ∈ completed)
    (hc : ∀ c ∈ w.completed, c ∈ completed) :
    Inv { w with job := job, completed := completed } := by
  have hba : ∀ entered rs, Backed w.job w.completed entered rs →
      Backed job completed entered rs :=
    fun entered rs hb => hb.mono (fun j' hj' => .inr (hj j' hj')) hc
  exact ⟨h.clocked, hdo, h.rebooting, fun n d hd => hba _ _ (h.backed n d hd), h.reconciles,
    h.pass.mono (fun n _ d hd => ⟨d, hd, rfl⟩) hba⟩

theorem Inv.step (h : Inv w) {e : Event} (hok : w.allowed e = true) (hstep : Step w e w') :
    Inv w' := by
  cases e with simp only [Step, World.exec] at hstep
  | passStart =>
    split at hstep
    · cases hstep
    · cases hstep
      exact h.passGoes _ trivial
  | passCall ok => exact h.passCall hok hstep
  | dpuRead n handling =>
    split at hstep
    · obtain ⟨next, hn, rfl⟩ := map_eq_some_iff.mp hstep
      refine h.setReconcile fun base next' hr => ?_
      obtain ⟨rfl, rfl⟩ := Prod.mk.inj (some.inj hr)
      exact handle_inv hn
    · cases hstep
  | dpuPatch n => exact h.dpuPatch hok hstep
  | dpuStop n =>
    cases hstep
    exact h.setReconcile (by simp)
  | dpuGone n =>
    cases hstep
    exact h.setDPU le_rfl (by simp) (by simp) (by simp) (by simp)
  | dpuNew n =>
    split_ifs at hstep with hs
    cases hstep
    exact h.replaceDPU hok le_rfl (by simp [DPU.fresh]) (by simp [DPU.fresh]) DPU.fresh_neutral
  | jobComplete =>
    split at hstep
    · rename_i created hj
      cases hstep
      refine h.setJob (fun j' hj' => ?_) (fun j' hj' _ => ?_) fun c hc => mem_cons_of_mem _ hc
      · cases hj'
        exact ⟨_, hj, rfl, by simp⟩
      · cases hj'
        exact mem_cons_self
    · cases hstep
  | jobFail =>
    split at hstep
    · rename_i created hj
      cases hstep
      refine h.setJob (fun j' hj' => ?_) (fun j' hj' hst => ?_) fun c hc => hc
      · cases hj'
        exact ⟨_, hj, rfl, fun _ => rfl⟩
      · cases hj'
        cases hst
    · cases hstep
  | jobGone =>
    cases hstep
    exact h.setJob (by simp) (by simp) fun c hc => hc

/-- The next call of the pass writes the reboot status Succeeded for the DPU. -/
def WritesSucceeded (w : World) (n : Name) : Prop :=
  ∃ base next todo phase reason,
    w.pass = some (.patch n base next todo phase reason) ∧ next.phase = .succeeded

/-- In every run whose steps meet the condition, Succeeded is written for a DPU only after a Job
completed that was created after the DPU entered Rebooting. -/
theorem succeeded_written_after_job {n : Name} {d : DPU}
    (h : Reachable Init (Restrict (fun w e => w.allowed e = true) Step) w)
    (hwrites : WritesSucceeded w n) (hd : w.dpus n = some d) :
    ∃ t, d.entered = some t ∧ ∃ c ∈ w.completed, t < c := by
  have hinv : Inv w :=
    h.invariant (fun _ h => h.inv) fun _ _ _ _ hinv hs => hinv.step hs.1 hs.2
  obtain ⟨base, next, todo, phase, reason, hp, hsu⟩ := hwrites
  have hpa := hinv.pass
  rw [hp] at hpa
  exact (hpa.1 d hd).succeeded hsu

def twoDPUs : World where
  names := ["a", "b"]
  dpus := fun n => if n = "a" ∨ n = "b" then some DPU.fresh else none
  reconciles := fun _ => none
  job := none
  pass := none
  clock := 0
  completed := []

theorem twoDPUs_init : Init twoDPUs := by
  refine ⟨fun n d hd => ?_, fun _ => rfl, rfl, rfl⟩
  simp only [twoDPUs] at hd
  split_ifs at hd
  exact (some.inj hd).symm

def reconcileEvents (n : Name) (handling : Handling) : List Event :=
  [.dpuRead n handling, .dpuPatch n]

/-- The DPU comes to DPU Config, where the agent asks for a power cycle. -/
def enterEvents (n : Name) : List Event :=
  reconcileEvents n (.move .dpuConfig) ++
    reconcileEvents n (.enter (some ⟨some .powerCycle, some .powerCycle⟩) false)

def passEvents (calls : ℕ) : List Event := .passStart :: List.replicate calls (.passCall true)

/-- Whether Succeeded is written next for the DPU, and whether every Job that completed was created
before the DPU entered. -/
def writeOf (n : Name) (w : World) : Bool × Option Bool :=
  (match w.pass with
    | some (.patch m _ next _ _ _) => m = n && next.phase = .succeeded
    | _ => false,
   ((w.dpus n).bind DPU.entered).map fun t => w.completed.all (· ≤ t))

theorem of_writeOf {late : Bool} (h : writeOf n w = (true, some late)) :
    WritesSucceeded w n ∧ ∃ d t, w.dpus n = some d ∧ d.entered = some t ∧
      w.completed.all (· ≤ t) = late := by
  obtain ⟨hw, hl⟩ := Prod.mk.inj h
  constructor
  · split at hw
    · rename_i m base next todo phase reason hp
      obtain ⟨hm, hph⟩ := Bool.and_eq_true_iff.mp hw
      obtain rfl := of_decide_eq_true hm
      exact ⟨base, next, todo, phase, reason, hp, of_decide_eq_true hph⟩
    · cases hw
  · obtain ⟨t, ht, hall⟩ := map_eq_some_iff.mp hl
    obtain ⟨d, hd, he⟩ := bind_eq_some_iff.mp ht
    exact ⟨d, t, hd, he, hall⟩

/-- The Job is created for the first DPU. The second one enters Rebooting while the Job runs, and is
told that its reboot succeeded when the Job completes. -/
theorem late_dpu_acknowledged_by_earlier_job :
    ∃ w d t, Reachable Init Step w ∧ WritesSucceeded w "b" ∧ w.dpus "b" = some d ∧
      d.entered = some t ∧ ∀ c ∈ w.completed, c ≤ t := by
  obtain ⟨w, hr, hw⟩ :=
    Reachable.exists_of_run twoDPUs_init World.exec
      (enterEvents "a" ++ passEvents 10 ++ enterEvents "b" ++ [.jobComplete] ++ passEvents 10)
      (writeOf "b") (true, some true) (by decide +kernel)
  obtain ⟨hwr, d, t, hd, he, hall⟩ := of_writeOf hw
  exact ⟨w, d, t, hr, hwr, hd, he, by simpa using hall⟩

/-- Both DPUs enter Rebooting before the Job is created. -/
theorem both_dpus_acknowledged :
    ∃ w d, Reachable Init (Restrict (fun w e => w.allowed e = true) Step) w ∧
      WritesSucceeded w "b" ∧ w.dpus "b" = some d ∧
      ∃ t, d.entered = some t ∧ ∃ c ∈ w.completed, t < c := by
  obtain ⟨w, hr, hw⟩ :=
    Reachable.exists_of_runIf twoDPUs_init World.allowed World.exec
      (enterEvents "a" ++ enterEvents "b" ++ passEvents 12 ++ [.jobComplete] ++ passEvents 10)
      (writeOf "b") (true, some false) (by decide +kernel)
  obtain ⟨hwr, d, t, hd, he, _⟩ := of_writeOf hw
  exact ⟨w, d, hr, hwr, hd, succeeded_written_after_job hr hwr hd⟩

end DocaPlatform.ScriptReboot
