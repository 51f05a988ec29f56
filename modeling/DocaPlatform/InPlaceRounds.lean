import DocaPlatform.DpuPhases

/-!
# Rounds of in-place reconfiguration

A DPUSet, its DPUs, the reconciles of the DPU controller and the runs of the DPU agents, step by
step. A reconcile reads its DPU, decides, and then writes the conditions and the rest of the status
apart; a jump is one write that is conditional on the resource version. A DPUSet pass reads the
DPUSet, opens a round, lists the DPUs, patches them one by one and writes the DPUSet last. Any
write may fail and any party may stop between two steps.
-/
namespace DocaPlatform.InPlaceRounds

open InPlaceReconfig DpuPhases Runs

/-- How far a DPU has got since the latest round started. -/
inductive Progress where
  | waiting
  /-- It was moved to Node Effect for the round. -/
  | moved
  /-- It then left DPU Config on a reboot method of an agent run that started after it entered. -/
  | served
  /-- It then came back to Ready. -/
  | returned
  deriving DecidableEq

/-- What the run so far says about a DPU; no party reads it. -/
structure History where
  /-- It was in phase Ready when the latest round started and has been neither deleted nor outdated
  since. -/
  member : Bool
  progress : Progress
  /-- The number of agent runs that had started when it last entered DPU Config. -/
  runsAtEntry : ℕ

/-- How far a reconcile of the DPU controller has got. -/
inductive Thread where
  | read (base : DPU)
  | decided (base : DPU) (next : DPUStatus) (jump : Bool)
  | conditionsWritten (base : DPU) (next : DPUStatus)

/-- A run of the DPU agent with the status it holds in memory; `pushed` after the push of
`ReportLastStartupTime`. -/
structure AgentRun where
  id : ℕ
  status : AgentStatus
  pushed : Bool

/-- A DPU object and the parties that work on it. -/
structure Site where
  dpu : Option DPU
  thread : Option Thread
  agent : Option AgentRun
  /-- The number of agent runs so far. -/
  runs : ℕ
  history : History

/-- How far a DPUSet pass has got. -/
inductive Stage where
  | begun
  | opened (requested : Bool)
  | patching (requested : Bool) (settled todo : List PlannedReconfig)
  | closing

/-- A DPUSet pass: the DPUSet as read, and its copy in memory. -/
structure Pass where
  base : DPUSet
  set : DPUSet
  stage : Stage

structure World where
  clock : Time
  dpuSet : DPUSet
  pass : Option Pass
  /-- The latest round that was started. -/
  started : ℕ
  /-- The names of the DPUs so far. -/
  names : List String
  sites : String → Site

/-- The two conditions after the patch of a reconcile that turns `base` into `next`. -/
def mergeConditions (base next current : DPUStatus) : DPUStatus :=
  { current with
    ready := if next.ready = base.ready then current.ready else next.ready.map Condition.stored
    reconfiguring :=
      if next.reconfiguring = base.reconfiguring then current.reconfiguring
      else next.reconfiguring.map Condition.stored }

/-- The rest of the status after the patch of a reconcile. -/
def mergeRest (base next current : DPUStatus) : DPUStatus :=
  { current with
    phase := patchField base.phase next.phase current.phase
    previousPhase := patchField base.previousPhase next.previousPhase current.previousPhase
    postProvisioningDPUConfig :=
      patchField base.postProvisioningDPUConfig next.postProvisioningDPUConfig
        current.postProvisioningDPUConfig
    postProvisioningNodeEffect :=
      patchField base.postProvisioningNodeEffect next.postProvisioningNodeEffect
        current.postProvisioningNodeEffect
    agentLastStartupTime :=
      patchField base.agentLastStartupTime next.agentLastStartupTime
        current.agentLastStartupTime }

def resetStatusForRun (version : String) (run : ℕ) : AgentStatus :=
  ⟨version, none, some .unknown, none, run⟩

/-- `mergeAgentStatus`: a field that is not set leaves the stored one. -/
def mergeAgentStatus (dst : Option AgentStatus) (s : AgentStatus) : AgentStatus :=
  let d := dst.getD ⟨"", none, none, none, s.reportedBy⟩
  { version := if s.version = "" then d.version else s.version
    lastStartupTime := s.lastStartupTime.map persisted <|> d.lastStartupTime
    rebootMethod := s.rebootMethod <|> d.rebootMethod
    ewnicRuntimeConfig := s.ewnicRuntimeConfig <|> d.ewnicRuntimeConfig
    reportedBy := if s.rebootMethod.isSome then s.reportedBy else d.reportedBy }

def startupTime (s : DPUStatus) : Option Time := s.agentStatus.bind AgentStatus.lastStartupTime

/-- The phases to which DPU Config moves on. -/
def leavesConfig : Phase → Bool
  | .hostNetworkConfiguration | .clusterConfig | .rebooting => true
  | _ => false

/-- What a write of the DPU controller adds to the history: `started` is the latest round, `runs`
the number of agent runs so far, and `reporter` the run whose reboot method the write acts on. -/
def History.observe (h : History) (started runs : ℕ) (old new : DPUStatus)
    (reporter : Option ℕ) : History :=
  let jumped : Progress :=
    if h.progress = .waiting ∧ new.phase = .nodeEffect ∧ inPlaceRoundInFlight new started = true
    then .moved else h.progress
  let left : Progress :=
    if jumped = .moved ∧ old.phase = .dpuConfig ∧ leavesConfig new.phase = true ∧
        reporter.any (fun k => h.runsAtEntry ≤ k) = true
    then .served else jumped
  let back : Progress :=
    if left = .served ∧ new.phase = .ready ∧ new.readySince.isSome = true
    then .returned else left
  { member := h.member
    progress := back
    runsAtEntry :=
      if old.phase ≠ .dpuConfig ∧ new.phase = .dpuConfig then runs else h.runsAtEntry }

def Site.put (s : Site) (d : DPU) : Site :=
  { s with dpu := some { d with resourceVersion := d.resourceVersion + 1 } }

/-- Stores what the DPU controller writes over `d`. -/
def Site.putStatus (s : Site) (started : ℕ) (d : DPU) (new : DPUStatus) (reporter : Option ℕ) :
    Site :=
  { s with
    dpu := some { d with resourceVersion := d.resourceVersion + 1, status := new }
    history := s.history.observe started s.runs d.status new reporter }

/-- The DPU is no longer a member of the round. -/
def Site.leaveRound (s : Site) : Site :=
  { s with history := { s.history with member := false } }

/-- The round starts: the DPU is a member if it is in phase Ready. -/
def Site.startRound (s : Site) : Site :=
  { s with
    history :=
      { member :=
          match s.dpu with
          | none => false
          | some d => d.status.phase == .ready && !d.deleting && !d.status.outdated
        progress := .waiting
        runsAtEntry := s.history.runsAtEntry } }

/-- A DPU as `createDPU` makes it. -/
def newDPU (name : String) (now : Time) : DPU :=
  { name := name
    resourceVersion := 0
    creationTimestamp := persisted now
    deleting := false
    status := ⟨.initializing, none, none, none, false, none, none, none, none, false, none⟩ }

/-! ## Steps at one DPU -/

inductive SiteEvent where
  | delete
  | finalize
  | read
  | handle (env : Surroundings)
  | writeJump (ok : Bool)
  | writeConditions (ok : Bool)
  | writeStatus (ok : Bool)
  | stop
  | agentStart (version : String)
  | agentStartup (t : Time)
  | agentMethod (m : Option RebootMethod)
  | agentNICs (c : EWNICRuntimeConfigStatus)
  | agentPush
  | agentError

/-- The handler runs at the given time. -/
def Site.handle (s : Site) (now : Time) (env : Surroundings) : Option Site :=
  match s.thread with
  | some (.read base) =>
    let decision := reconcile { env with now := now } base
    some { s with thread := some (.decided base decision.1 decision.2) }
  | _ => none

/-- `patchInPlaceJump`. -/
def Site.writeJump (s : Site) (started : ℕ) (ok : Bool) : Option Site :=
  match s.thread, s.dpu with
  | some (.decided base next true), some d =>
    if ok && d.resourceVersion == base.resourceVersion then
      let new := mergeRest base.status next (mergeConditions base.status next d.status)
      some { s.putStatus started d new none with thread := none }
    else some { s with thread := none }
  | _, _ => none

/-- The first write of the deferred patch. -/
def Site.writeConditions (s : Site) (started : ℕ) (ok : Bool) : Option Site :=
  match s.thread, s.dpu with
  | some (.decided base next false), some d =>
    if ok then
      some { s.putStatus started d (mergeConditions base.status next d.status) none with
        thread := some (.conditionsWritten base next) }
    else some { s with thread := some (.conditionsWritten base next) }
  | _, _ => none

/-- The second write of the deferred patch. -/
def Site.writeStatus (s : Site) (started : ℕ) (ok : Bool) : Option Site :=
  match s.thread, s.dpu with
  | some (.conditionsWritten base next), some d =>
    if ok then
      some { s.putStatus started d (mergeRest base.status next d.status)
          (base.status.agentStatus.map AgentStatus.reportedBy) with thread := none }
    else some { s with thread := none }
  | _, _ => none

/-- `push`. -/
def Site.agentPush (s : Site) : Option Site :=
  match s.agent, s.dpu with
  | some a, some d =>
    let status := { d.status with agentStatus := some (mergeAgentStatus d.status.agentStatus a.status) }
    some { s.put { d with status := status } with
      agent := some { a with pushed := a.pushed || a.status.lastStartupTime.isSome } }
  | _, _ => none

def Site.exec (s : Site) (started : ℕ) (now : Time) : SiteEvent → Option Site
  | .delete =>
    match s.dpu with
    | some d => some (s.put { d with deleting := true }).leaveRound
    | none => none
  -- The reconcile of a DPU in phase Deleting removes the finalizer.
  | .finalize =>
    match s.dpu, s.thread with
    | some d, none =>
      if d.deleting && d.status.phase == .deleting then
        some { s.leaveRound with dpu := none, agent := none }
      else none
    | _, _ => none
  | .read =>
    match s.dpu, s.thread with
    | some d, none => some { s with thread := some (.read d) }
    | _, _ => none
  | .handle env => s.handle now env
  | .writeJump ok => s.writeJump started ok
  | .writeConditions ok => s.writeConditions started ok
  | .writeStatus ok => s.writeStatus started ok
  | .stop => some { s with thread := none }
  -- A run also takes the place of one that a restart cut off.
  | .agentStart version =>
    some { s with
      agent := some ⟨s.runs, resetStatusForRun version s.runs, false⟩
      runs := s.runs + 1 }
  -- `ReportLastStartupTime`, on the clock of the DPU; again when the pipeline restarts.
  | .agentStartup t =>
    match s.agent with
    | some a =>
      some { s with agent := some { a with status := { a.status with lastStartupTime := some t } } }
    | none => none
  -- `HandleReboot`, which first clears the method; the push of the startup time came before.
  | .agentMethod m =>
    match s.agent with
    | some a =>
      if a.pushed then
        some { s with agent := some { a with status := { a.status with rebootMethod := m } } }
      else none
    | none => none
  | .agentNICs c =>
    match s.agent with
    | some a =>
      some { s with
        agent := some { a with status := { a.status with ewnicRuntimeConfig := some c } } }
    | none => none
  | .agentPush => s.agentPush
  | .agentError =>
    match s.dpu with
    | some d => some (s.put { d with status := { d.status with failed := true } })
    | none => none

/-! ## Steps of the system -/

inductive Event where
  | tick (elapsed : ℕ)
  | annotate (value : Option String)
  | create (name : String)
  | site (name : String) (e : SiteEvent)
  | outdated (name : String) (value : Bool)
  | passBegin
  | passOpen
  | passList (maxUnavailable : ℤ) (totalDPUDevices : ℕ)
  | passListFails
  | passPatch (ok : Bool)
  | passClose
  | passPersist (object status : Bool)
  | passStop

def World.setSite (w : World) (name : String) (s : Site) : World :=
  { w with sites := Function.update w.sites name s }

def roundOf (dpuSet : DPUSet) : ℕ := (dpuSet.dpuReconfig.map DPUSetReconfigStatus.round).getD 0

/-- `ensureInPlaceRound` and what precedes it in `reconcileInPlaceReconfig`. -/
def World.passOpen (w : World) : Option World :=
  match w.pass with
  | some ⟨base, set, .begun⟩ =>
    let requested := inPlaceReconfigRequested set
    if !requested && !inPlaceRoundActive set then
      some { w with pass := some ⟨base, set, .closing⟩ }
    else
      let set := ensureInPlaceRound w.clock set requested
      let round := roundOf set
      let opened := { w with pass := some ⟨base, set, .opened requested⟩ }
      if w.started < round then
        some { opened with started := round, sites := fun n => (w.sites n).startRound }
      else some opened
  | _ => none

/-- `GetDPUsMap`. -/
def World.getDPUs (w : World) : List DPU := w.names.dedup.filterMap fun n => (w.sites n).dpu

/-- The fresh list and the plans of `reconcileInPlaceReconfig`; completions are written first. -/
def World.passList (w : World) (maxUnavailable : ℤ) (totalDPUDevices : ℕ) : Option World :=
  match w.pass with
  | some ⟨base, set, .opened requested⟩ =>
    match set.dpuReconfig with
    | none => none
    | some round =>
      let planned := planInPlace maxUnavailable totalDPUDevices round.round
        (round.startedAt.getD 0) requested (sortedDPUs w.getDPUs)
      let settled := planned.filter fun p => p.next.isNone
      let completions := planned.filter fun p => p.next.isSome && !reconfigInProgress p.next
      let marks := planned.filter fun p => p.next.isSome && reconfigInProgress p.next
      some { w with
        pass := some ⟨base, set, .patching requested settled (completions ++ marks)⟩ }
  | _ => none

/-- One patch of `patchInPlacePlans`. -/
def World.passPatch (w : World) (ok : Bool) : Option World :=
  match w.pass with
  | some ⟨base, set, .patching requested settled (p :: todo)⟩ =>
    let skipped := { w with
      pass := some ⟨base, set, .patching requested ({ p with next := none } :: settled) todo⟩ }
    match p.next with
    | none => some skipped
    | some next =>
      if reconfigEqual p.dpu.status.dpuReconfig (some next) then some skipped
      else if !ok then some { w with pass := some ⟨base, set, .closing⟩ }
      else
        match (w.sites p.dpu.name).dpu with
        | none => some skipped
        | some d =>
          let status := { d.status with
            dpuReconfig :=
              some (patchDPUReconfig p.dpu.status.dpuReconfig next d.status.dpuReconfig) }
          let patched := (w.sites p.dpu.name).put { d with status := status }
          some { w.setSite p.dpu.name patched with
            pass := some ⟨base, set, .patching requested (p :: settled) todo⟩ }
  | _ => none

/-- The status of a DPUSet as the API server stores it. -/
def DPUSetReconfigStatus.stored (s : DPUSetReconfigStatus) : DPUSetReconfigStatus :=
  { s with startedAt := s.startedAt.map persisted }

/-- The deferred patch of the DPUSet: the object and its status are separate requests, and each
may fail. -/
def World.passPersist (w : World) (object status : Bool) : Option World :=
  match w.pass with
  | some ⟨base, set, .closing⟩ =>
    some { w with
      pass := none
      dpuSet :=
        { annotationValue :=
            if object then
              patchField base.annotationValue set.annotationValue w.dpuSet.annotationValue
            else w.dpuSet.annotationValue
          dpuReconfig :=
            if set.dpuReconfig = base.dpuReconfig ∨ status = false then w.dpuSet.dpuReconfig
            else set.dpuReconfig.map DPUSetReconfigStatus.stored } }
  | _ => none

def World.exec (w : World) : Event → Option World
  | .tick elapsed => some { w with clock := w.clock + elapsed }
  | .annotate value => some { w with dpuSet := { w.dpuSet with annotationValue := value } }
  | .create name =>
    match (w.sites name).dpu with
    | some _ => none
    | none =>
      let site := { (w.sites name).leaveRound with
        dpu := some (newDPU name w.clock), thread := none, agent := none }
      some { w.setSite name site with names := name :: w.names }
  | .site name e => ((w.sites name).exec w.started w.clock e).map (w.setSite name)
  -- `reconcileDPUOutdatedStatus`, earlier in the same pass.
  | .outdated name value =>
    match w.pass, (w.sites name).dpu with
    | some ⟨_, _, .begun⟩, some d =>
      let s := (w.sites name).put { d with status := { d.status with outdated := value } }
      some (w.setSite name (if value then s.leaveRound else s))
    | _, _ => none
  | .passBegin =>
    match w.pass with
    | none => some { w with pass := some ⟨w.dpuSet, w.dpuSet, .begun⟩ }
    | some _ => none
  | .passOpen => w.passOpen
  | .passList maxUnavailable totalDPUDevices => w.passList maxUnavailable totalDPUDevices
  -- The error ends the pass; the deferred patch stores a round that was opened.
  | .passListFails =>
    match w.pass with
    | some ⟨base, set, .opened _⟩ => some { w with pass := some ⟨base, set, .closing⟩ }
    | _ => none
  | .passPatch ok => w.passPatch ok
  | .passClose =>
    match w.pass with
    | some ⟨base, set, .patching requested settled []⟩ =>
      some { w with pass := some ⟨base, finishInPlaceRound set requested settled, .closing⟩ }
    | _ => none
  | .passPersist object status => w.passPersist object status
  | .passStop => some { w with pass := none }

/-- Before the first round: no DPU was ever marked, and the agents' reports are numbered. -/
structure Init (w : World) : Prop where
  pass : w.pass = none
  started : w.started = 0
  dpuSet : w.dpuSet.dpuReconfig = none
  dpus : ∀ n d, (w.sites n).dpu = some d →
    n ∈ w.names ∧ d.name = n ∧ d.status.dpuReconfig = none ∧ d.status.reconfiguring = none ∧
      ∀ a, d.status.agentStatus = some a → a.reportedBy < (w.sites n).runs
  sites : ∀ n, (w.sites n).thread = none ∧ (w.sites n).agent = none ∧
    (w.sites n).history.member = false ∧ (w.sites n).history.runsAtEntry ≤ (w.sites n).runs

def Step (w : World) (e : Event) (w' : World) : Prop := w.exec e = some w'

/-- A round is open, as stored or in the memory of the running pass. -/
def World.roundOpen (w : World) : Bool :=
  inPlaceRoundActive w.dpuSet || w.pass.any fun p => inPlaceRoundActive p.set

instance (env : Surroundings) (dpu : DPU) : Decidable (TurnsReady env dpu) := by
  unfold TurnsReady
  infer_instance

/-- Of a member of the round: `Ready` turns its condition True only if `DPUReconfiguring` records
the open round; the startup time that Node Effect noted is still the stored one when the DPU enters
DPU Config; and in DPU Config a run that started before does not report another one. -/
def Site.allowed (s : Site) (started : ℕ) (roundOpen : Bool) : SiteEvent → Bool
  | .handle env =>
    match s.thread with
    | some (.read base) =>
      !(s.history.member && roundOpen && decide (TurnsReady env base)) ||
        decide (Records base.status started)
    | _ => true
  | .writeStatus true =>
    match s.thread, s.dpu with
    | some (.conditionsWritten base next), some d =>
      !(s.history.member && base.status.phase == .nodeEffect && next.phase == .dpuConfig) ||
        startupTime base.status == startupTime d.status
    | _, _ => true
  | .agentPush =>
    match s.agent, s.dpu with
    | some a, some d =>
      !(s.history.member && d.status.phase == .dpuConfig && decide (a.id < s.history.runsAtEntry)) ||
        (mergeAgentStatus d.status.agentStatus a.status).lastStartupTime == startupTime d.status
    | _, _ => true
  | _ => true

/-- The DPU, stored or about to be, has been Ready since an earlier second, if it is. -/
def Site.readyBefore (s : Site) (now : Time) : Bool :=
  (match s.dpu with
    | some d => d.status.readySince.all fun t => t < persisted now
    | none => true) &&
  (match s.thread with
    | some (.decided _ next _) => next.readySince.all fun t => persisted t < persisted now
    | _ => true)

/-- A round starts in a second later than every change of a `Ready` condition to True, and the
steps at a member of the round are as `Site.allowed` says. -/
def World.allowed (w : World) : Event → Bool
  | .site name e => (w.sites name).allowed w.started w.roundOpen e
  | .passOpen =>
    match w.pass with
    | some ⟨_, set, .begun⟩ =>
      !(inPlaceReconfigRequested set && !inPlaceRoundActive set) ||
        w.names.all fun n => (w.sites n).readyBefore w.clock
    | _ => true
  | _ => true

end DocaPlatform.InPlaceRounds
