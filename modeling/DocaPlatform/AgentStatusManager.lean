import DocaPlatform.InPlaceReconfig
import DocaPlatform.Runs

/-!
# The status manager of the DPU agent

The agent keeps its status in memory. `UpdateLocal` changes it, `UpdateRemote` asks one worker to
push it to the DPU and waits. The worker takes all pending requests together with a copy of the
status, pushes the copy, and tries again for those who asked for it. Requests, tokens and pushes
are followed through every interleaving of the callers with the worker.
-/
namespace DocaPlatform.AgentStatusManager

open InPlaceReconfig (RebootMethod)
open Runs List Function

/-! ## The status -/

structure Condition where
  type : String
  status : Bool
  reason : String
  message : String
  deriving DecidableEq

/-- `meta.SetStatusCondition`, without the transition times. -/
def setStatusCondition (conditions : List Condition) (new : Condition) : List Condition :=
  if conditions.any (·.type = new.type) then
    conditions.map fun c => if c.type = new.type then new else c
  else conditions ++ [new]

structure PendingNVConfigEntry where
  name : String
  default : String
  current : String
  nextBoot : String
  deriving DecidableEq

structure PendingNVConfigDevice where
  device : String
  entries : List PendingNVConfigEntry
  deriving DecidableEq

structure PendingNVConfigState where
  bootID : String
  devices : List PendingNVConfigDevice
  deriving DecidableEq

/-- Skipped with a reason and a message, or succeeded at a gate. -/
inductive HostOSInitStatus where
  | skipped (reason message : Option String)
  | succeeded (gate : String)
  deriving DecidableEq

structure EWNICRuntimeConfigStatus where
  discoveredDevices : Option ℕ
  configuredDevices : Option ℕ
  failedDevices : List (Option String × Option String × Option String)
  deriving DecidableEq

structure AgentPreInstallStatus where
  agentReported : Option ℕ
  conditions : List Condition
  deriving DecidableEq

/-- `AgentStatus`, but for what the host agent writes. -/
structure AgentStatus where
  lastStartupTime : Option ℕ := none
  initialBootID : Option String := none
  rebootMethod : Option RebootMethod := none
  rebootSequenceCount : Option ℕ := none
  kubeletVersion : Option String := none
  version : String := ""
  appliedFlavorGeneration : ℕ := 0
  trustBundleHash : Option String := none
  trustBundleLastUpdateTime : Option ℕ := none
  lastObservedPendingNVConfig : Option PendingNVConfigState := none
  hostOSInit : Option HostOSInitStatus := none
  ewnicRuntimeConfig : Option EWNICRuntimeConfigStatus := none
  conditions : List Condition := []
  preInstall : Option AgentPreInstallStatus := none
  deriving DecidableEq

def mergePreInstall (dst : Option AgentPreInstallStatus) :
    Option AgentPreInstallStatus → Option AgentPreInstallStatus
  | none => dst
  | some s =>
    let d := dst.getD ⟨none, []⟩
    some ⟨if s.agentReported.any (· ≠ 0) then s.agentReported else d.agentReported,
      s.conditions.foldl setStatusCondition d.conditions⟩

/-- `mergeAgentStatus`: fields that are not set leave those of `dst`, but for `hostOSInit`. -/
def mergeAgentStatus (dst s : AgentStatus) : AgentStatus where
  lastStartupTime := s.lastStartupTime.or dst.lastStartupTime
  initialBootID := s.initialBootID.or dst.initialBootID
  rebootMethod := s.rebootMethod.or dst.rebootMethod
  rebootSequenceCount := s.rebootSequenceCount.or dst.rebootSequenceCount
  kubeletVersion := s.kubeletVersion.or dst.kubeletVersion
  version := if s.version ≠ "" then s.version else dst.version
  appliedFlavorGeneration :=
    if s.appliedFlavorGeneration ≠ 0 then s.appliedFlavorGeneration
    else dst.appliedFlavorGeneration
  trustBundleHash := s.trustBundleHash.or dst.trustBundleHash
  trustBundleLastUpdateTime := s.trustBundleLastUpdateTime.or dst.trustBundleLastUpdateTime
  lastObservedPendingNVConfig := s.lastObservedPendingNVConfig.or dst.lastObservedPendingNVConfig
  hostOSInit := s.hostOSInit
  ewnicRuntimeConfig := s.ewnicRuntimeConfig.or dst.ewnicRuntimeConfig
  conditions := s.conditions.foldl setStatusCondition dst.conditions
  preInstall := mergePreInstall dst.preInstall s.preInstall

/-- A field under a merge patch: it is sent if it changed. -/
def sent {α : Type} [DecidableEq α] (base merged stored : α) : α :=
  if merged = base then stored else merged

/-- `client.MergeFrom`: what was changed since it was read replaces what is stored. -/
def mergeFrom (base merged stored : AgentStatus) : AgentStatus where
  lastStartupTime := sent base.lastStartupTime merged.lastStartupTime stored.lastStartupTime
  initialBootID := sent base.initialBootID merged.initialBootID stored.initialBootID
  rebootMethod := sent base.rebootMethod merged.rebootMethod stored.rebootMethod
  rebootSequenceCount :=
    sent base.rebootSequenceCount merged.rebootSequenceCount stored.rebootSequenceCount
  kubeletVersion := sent base.kubeletVersion merged.kubeletVersion stored.kubeletVersion
  version := sent base.version merged.version stored.version
  appliedFlavorGeneration :=
    sent base.appliedFlavorGeneration merged.appliedFlavorGeneration stored.appliedFlavorGeneration
  trustBundleHash := sent base.trustBundleHash merged.trustBundleHash stored.trustBundleHash
  trustBundleLastUpdateTime := sent base.trustBundleLastUpdateTime
    merged.trustBundleLastUpdateTime stored.trustBundleLastUpdateTime
  lastObservedPendingNVConfig := sent base.lastObservedPendingNVConfig
    merged.lastObservedPendingNVConfig stored.lastObservedPendingNVConfig
  hostOSInit := sent base.hostOSInit merged.hostOSInit stored.hostOSInit
  ewnicRuntimeConfig :=
    sent base.ewnicRuntimeConfig merged.ewnicRuntimeConfig stored.ewnicRuntimeConfig
  conditions := sent base.conditions merged.conditions stored.conditions
  preInstall := sent base.preInstall merged.preInstall stored.preInstall

structure DPU where
  uid : String
  agentStatus : Option AgentStatus
  deriving DecidableEq

/-- The DPU after `Status().Patch` with what was merged into `base`, the DPU as it was read. -/
def DPU.patch (stored base : DPU) (s : AgentStatus) : DPU :=
  { stored with
    agentStatus := some (mergeFrom (base.agentStatus.getD {})
      (mergeAgentStatus (base.agentStatus.getD {}) s) (stored.agentStatus.getD {})) }

/-! ## Requests and the worker -/

inductive PushError where
  | notFound
  | staleDPU
  | other
  deriving DecidableEq

/-- What `UpdateRemote` returns if not nil. -/
inductive RemoteError where
  | push (err : PushError)
  | context
  deriving DecidableEq

/-- Where a call of `UpdateRemote` stands. -/
inductive Loc where
  | outside
  /-- Before `enqueue`. -/
  | called
  /-- Before the send on `wake`. -/
  | enqueued
  /-- Waits for its request or for the end of the context. -/
  | waiting
  | returned (err : Option RemoteError)
  deriving DecidableEq

/-- The request is in `pending` or was there. -/
def Loc.queued : Loc → Bool
  | .outside | .called => false
  | .enqueued | .waiting | .returned _ => true

structure Call where
  loc : Loc
  untilSuccess : Bool
  /-- The errors that `finish` was called with: `done` is closed if there is one. -/
  finished : List (Option PushError)
  /-- How many calls of `UpdateLocal` were finished when this one started. -/
  updatesAt : ℕ
  /-- How many patches the DPU had seen then. -/
  patchedAt : ℕ

def Call.outside : Call := ⟨.outside, false, [], 0, 0⟩

/-- A copy of the status, with how many updates it has and how many copies were taken before. -/
structure Snapshot where
  content : AgentStatus
  updates : ℕ
  number : ℕ

/-- Where the worker stands, with the requests it holds. -/
inductive Worker (κ : Type) where
  /-- In the `select` of `run`. -/
  | idle
  /-- Before `takeBatch`. -/
  | taking (batch : List κ)
  /-- Before the DPU is read. -/
  | pushing (batch : List κ) (snapshot : Snapshot)
  | patching (batch : List κ) (snapshot : Snapshot) (base : DPU)
  /-- In the loop over the batch. -/
  | finishing (todo retry : List κ) (err : Option PushError)
  | waiting (retry : List κ)
  | stopped

namespace Worker

variable {κ : Type}

def requests : Worker κ → List κ
  | .idle | .stopped => []
  | .taking batch | .pushing batch _ | .patching batch _ _ => batch
  | .finishing todo retry _ => todo ++ retry
  | .waiting retry => retry

def snapshot : Worker κ → Option Snapshot
  | .pushing _ s | .patching _ s _ => some s
  | _ => none

/-- Whether the worker is in `process`. -/
def processing : Worker κ → Bool
  | .idle | .stopped => false
  | _ => true

def isTaking : Worker κ → Bool
  | .taking _ => true
  | _ => false

end Worker

/-- The manager and the DPU, with what has happened: `updates`, `taken`, `pushed` and `patched` are
no state of the program. -/
structure World (κ : Type) where
  uid : String
  status : AgentStatus
  pending : List κ
  wake : Bool
  worker : Worker κ
  calls : κ → Call
  cancelled : Bool
  dpu : Option DPU
  updates : List (AgentStatus → AgentStatus)
  taken : List Snapshot
  /-- The snapshots that a patch request was made from. -/
  pushed : List Snapshot
  /-- Those of them whose request reached the DPU. -/
  patched : List Snapshot

inductive PatchOutcome where
  | applied
  /-- It is applied and the answer is lost. -/
  | lost
  | failed (err : PushError)

inductive Event (κ : Type) where
  | updateLocal (fn : AgentStatus → AgentStatus)
  | call (c : κ) (untilSuccess : Bool)
  | enqueue (c : κ)
  | signal (c : κ)
  /-- The call finds `done` closed. -/
  | leave (c : κ)
  /-- The call finds the context done. -/
  | giveUp (c : κ)
  | cancel
  | wakeUp
  | takeBatch
  | get (failed : Option PushError)
  | patch (outcome : PatchOutcome)
  /-- One turn of the loop over the batch, or its end. -/
  | finish
  | retry
  /-- `process` finds the context done. -/
  | abandon
  | stop
  /-- Someone else writes the DPU. -/
  | writeDPU (dpu : Option DPU)

variable {κ : Type} [DecidableEq κ]

def isDPUGone (uid : String) (err : PushError) : Bool :=
  uid ≠ "" && (err = .notFound || err = .staleDPU)

namespace World

def setCall (w : World κ) (c : κ) (call : Call) : World κ :=
  { w with calls := update w.calls c call }

def move (w : World κ) (c : κ) (loc : Loc) : World κ :=
  w.setCall c { w.calls c with loc := loc }

/-- `req.finish`. -/
def finish (w : World κ) (c : κ) (err : Option PushError) : World κ :=
  w.setCall c { w.calls c with finished := (w.calls c).finished ++ [err] }

/-- The first half of `push`. -/
def readDPU (w : World κ) : Option PushError → Except PushError DPU
  | some err => .error err
  | none =>
    match w.dpu with
    | none => .error .notFound
    | some d => if w.uid ≠ "" ∧ d.uid ≠ w.uid then .error .staleDPU else .ok d

def reached (w : World κ) : PatchOutcome → Bool
  | .applied | .lost => w.dpu.isSome
  | .failed _ => false

/-- What `Status().Patch` returns. -/
def answer (w : World κ) : PatchOutcome → Option PushError
  | .applied => if w.dpu.isSome then none else some .notFound
  | .lost => some .other
  | .failed err => some err

/-- Whether the request is tried again after the push. -/
def retries (w : World κ) (c : κ) : Option PushError → Bool
  | none => false
  | some err => (w.calls c).untilSuccess && !isDPUGone w.uid err

def takeBatch (w : World κ) (batch : List κ) : World κ :=
  let s : Snapshot := ⟨w.status, w.updates.length, w.taken.length⟩
  let batch := batch ++ w.pending
  { w with
    pending := []
    worker := if batch = [] then .idle else .pushing batch s
    taken := w.taken ++ [s] }

def patch (w : World κ) (batch : List κ) (s : Snapshot) (base : DPU) (outcome : PatchOutcome) :
    World κ :=
  { w with
    worker := .finishing batch [] (w.answer outcome)
    dpu := if w.reached outcome then w.dpu.map (·.patch base s.content) else w.dpu
    pushed := w.pushed ++ [s]
    patched := if w.reached outcome then w.patched ++ [s] else w.patched }

def exec (w : World κ) : Event κ → Option (World κ)
  | .updateLocal fn => some { w with status := fn w.status, updates := w.updates ++ [fn] }
  | .call c untilSuccess =>
    if (w.calls c).loc = .outside then
      some (w.setCall c { w.calls c with
        loc := .called, untilSuccess := untilSuccess,
        updatesAt := w.updates.length, patchedAt := w.patched.length })
    else none
  | .enqueue c =>
    if (w.calls c).loc = .called then
      some { w.move c .enqueued with pending := w.pending ++ [c] }
    else none
  | .signal c =>
    if (w.calls c).loc = .enqueued then some { w.move c .waiting with wake := true } else none
  | .leave c =>
    if (w.calls c).loc = .waiting then
      (w.calls c).finished.getLast?.map fun err => w.move c (.returned (err.map .push))
    else none
  | .giveUp c =>
    if (w.calls c).loc = .waiting ∧ w.cancelled then
      some (w.move c (.returned (some .context)))
    else none
  | .cancel => some { w with cancelled := true }
  | .wakeUp =>
    match w.worker with
    | .idle => if w.wake then some { w with wake := false, worker := .taking [] } else none
    | _ => none
  | .takeBatch =>
    match w.worker with
    | .taking batch => some (w.takeBatch batch)
    | _ => none
  | .get failed =>
    match w.worker with
    | .pushing batch s =>
      match w.readDPU failed with
      | .error err => some { w with worker := .finishing batch [] (some err) }
      | .ok base => some { w with worker := .patching batch s base }
    | _ => none
  | .patch outcome =>
    match w.worker with
    | .patching batch s base => some (w.patch batch s base outcome)
    | _ => none
  | .finish =>
    match w.worker with
    | .finishing (c :: todo) retry err =>
      if w.retries c err then some { w with worker := .finishing todo (retry ++ [c]) err }
      else some { w.finish c err with worker := .finishing todo retry err }
    | .finishing [] retry _ =>
      some { w with worker := if retry = [] then .idle else .waiting retry }
    | _ => none
  | .retry =>
    match w.worker with
    | .waiting retry => some { w with worker := .taking retry }
    | _ => none
  | .abandon =>
    match w.worker with
    | .waiting _ => if w.cancelled then some { w with worker := .idle } else none
    | _ => none
  | .stop =>
    match w.worker with
    | .idle => if w.cancelled then some { w with worker := .stopped } else none
    | _ => none
  | .writeDPU dpu => some { w with dpu := dpu }

end World

/-- `New` and `Start`. -/
def Init (w : World κ) : Prop :=
  w.status = {} ∧ w.pending = [] ∧ w.wake = false ∧ w.worker = .idle ∧
    (∀ c, w.calls c = Call.outside) ∧ w.cancelled = false ∧
    w.updates = [] ∧ w.taken = [] ∧ w.pushed = [] ∧ w.patched = []

abbrev Step (w : World κ) (e : Event κ) (w' : World κ) : Prop := w.exec e = some w'

/-- What a step can do. -/
inductive Moves (w : World κ) : World κ → Prop
  | updateLocal (fn) : Moves w { w with status := fn w.status, updates := w.updates ++ [fn] }
  | call {c untilSuccess} (hloc : (w.calls c).loc = .outside) :
      Moves w (w.setCall c { w.calls c with
        loc := .called, untilSuccess := untilSuccess,
        updatesAt := w.updates.length, patchedAt := w.patched.length })
  | enqueue {c} (hloc : (w.calls c).loc = .called) :
      Moves w { w.move c .enqueued with pending := w.pending ++ [c] }
  | signal {c} (hloc : (w.calls c).loc = .enqueued) :
      Moves w { w.move c .waiting with wake := true }
  | leave {c err} (hloc : (w.calls c).loc = .waiting) (hdone : err ∈ (w.calls c).finished) :
      Moves w (w.move c (.returned (err.map .push)))
  | giveUp {c} (hloc : (w.calls c).loc = .waiting) :
      Moves w (w.move c (.returned (some .context)))
  | cancel : Moves w { w with cancelled := true }
  | wakeUp (hworker : w.worker = .idle) : Moves w { w with wake := false, worker := .taking [] }
  | takeBatch {batch} (hworker : w.worker = .taking batch) : Moves w (w.takeBatch batch)
  | readFailed {batch s err} (hworker : w.worker = .pushing batch s) :
      Moves w { w with worker := .finishing batch [] (some err) }
  | read {batch s base} (hworker : w.worker = .pushing batch s) :
      Moves w { w with worker := .patching batch s base }
  | patch {batch s base outcome} (hworker : w.worker = .patching batch s base) :
      Moves w (w.patch batch s base outcome)
  | keep {c todo retry err} (hworker : w.worker = .finishing (c :: todo) retry err)
      (hretry : w.retries c err = true) :
      Moves w { w with worker := .finishing todo (retry ++ [c]) err }
  | finish {c todo retry err} (hworker : w.worker = .finishing (c :: todo) retry err) :
      Moves w { w.finish c err with worker := .finishing todo retry err }
  | finished {retry err} (hworker : w.worker = .finishing [] retry err) :
      Moves w { w with worker := if retry = [] then .idle else .waiting retry }
  | retry {retry} (hworker : w.worker = .waiting retry) :
      Moves w { w with worker := .taking retry }
  | abandon {retry} (hworker : w.worker = .waiting retry) (hctx : w.cancelled = true) :
      Moves w { w with worker := .idle }
  | stop (hworker : w.worker = .idle) : Moves w { w with worker := .stopped }
  | writeDPU (dpu) : Moves w { w with dpu := dpu }

variable {w w' : World κ} {c : κ} {batch : List κ} {outcome : PatchOutcome}

theorem exec_moves {e : Event κ} (h : Step w e w') : Moves w w' := by
  unfold Step at h
  cases e with dsimp only [World.exec] at h
  | updateLocal fn =>
    cases h
    exact .updateLocal fn
  | call c untilSuccess =>
    obtain ⟨hl, ⟨⟩⟩ := Option.ite_none_right_eq_some.mp h
    exact .call hl
  | enqueue c =>
    obtain ⟨hl, ⟨⟩⟩ := Option.ite_none_right_eq_some.mp h
    exact .enqueue hl
  | signal c =>
    obtain ⟨hl, ⟨⟩⟩ := Option.ite_none_right_eq_some.mp h
    exact .signal hl
  | leave c =>
    obtain ⟨hl, h⟩ := Option.ite_none_right_eq_some.mp h
    obtain ⟨err, he, rfl⟩ := Option.map_eq_some_iff.mp h
    exact .leave hl (mem_of_getLast? he)
  | giveUp c =>
    obtain ⟨⟨hl, -⟩, ⟨⟩⟩ := Option.ite_none_right_eq_some.mp h
    exact .giveUp hl
  | cancel =>
    cases h
    exact .cancel
  | wakeUp =>
    split at h
    · rename_i hwk
      obtain ⟨-, ⟨⟩⟩ := Option.ite_none_right_eq_some.mp h
      exact .wakeUp hwk
    · cases h
  | takeBatch =>
    split at h
    · rename_i hwk
      cases h
      exact .takeBatch hwk
    · cases h
  | get failed =>
    split at h
    · rename_i hwk
      split at h
      · cases h
        exact .readFailed hwk
      · cases h
        exact .read hwk
    · cases h
  | patch outcome =>
    split at h
    · rename_i hwk
      cases h
      exact .patch hwk
    · cases h
  | finish =>
    split at h
    · rename_i hwk
      split_ifs at h with hr
      · cases h
        exact .keep hwk hr
      · cases h
        exact .finish hwk
    · rename_i hwk
      cases h
      exact .finished hwk
    · cases h
  | retry =>
    split at h
    · rename_i hwk
      cases h
      exact .retry hwk
    · cases h
  | abandon =>
    split at h
    · rename_i hwk
      obtain ⟨hc, ⟨⟩⟩ := Option.ite_none_right_eq_some.mp h
      exact .abandon hwk hc
    · cases h
  | stop =>
    split at h
    · rename_i hwk
      obtain ⟨-, ⟨⟩⟩ := Option.ite_none_right_eq_some.mp h
      exact .stop hwk
    · cases h
  | writeDPU dpu =>
    cases h
    exact .writeDPU dpu

/-! ## Requests are finished at most once -/

@[simp] theorem finished_move (w : World κ) (c x : κ) (loc : Loc) :
    ((w.move c loc).calls x).finished = (w.calls x).finished := by
  by_cases hx : x = c
  · subst hx
    simp [World.move, World.setCall]
  · simp [World.move, World.setCall, hx]

theorem finish_call (w : World κ) (c x : κ) (err : Option PushError) :
    (((w.finish c err).calls x).updatesAt = (w.calls x).updatesAt ∧
      ((w.finish c err).calls x).patchedAt = (w.calls x).patchedAt) ∧
      ((w.finish c err).calls x).loc = (w.calls x).loc := by
  by_cases hx : x = c
  · subst hx
    simp [World.finish, World.setCall]
  · simp [World.finish, World.setCall, hx]

omit [DecidableEq κ] in
theorem requests_takeBatch (w : World κ) (batch : List κ) :
    (w.takeBatch batch).worker.requests = batch ++ w.pending := by
  dsimp only [World.takeBatch]
  split_ifs with h
  · exact h.symm
  · rfl

/-- How often a request is held: in `pending`, by the worker, or finished. -/
def held (w : World κ) (c : κ) : ℕ :=
  w.pending.count c + w.worker.requests.count c + (w.calls c).finished.length

/-- A request is in one place only. It is lost only when the context is done. -/
structure Accounted (w : World κ) : Prop where
  le_one : ∀ c, held w c ≤ 1
  none : ∀ c, (w.calls c).loc.queued = false → held w c = 0
  one : ∀ c, (w.calls c).loc.queued = true → w.cancelled = false → held w c = 1

/-- A step that moves requests from one place to another. -/
theorem Accounted.of_held (h : Accounted w) (hh : ∀ c, held w' c = held w c)
    (hq : ∀ c, (w'.calls c).loc.queued = (w.calls c).loc.queued)
    (hct : w'.cancelled = w.cancelled) : Accounted w' where
  le_one c := (hh c).trans_le (h.le_one c)
  none c hc := (hh c).trans (h.none c ((hq c).symm.trans hc))
  one c hc hctx' :=
    (hh c).trans (h.one c ((hq c).symm.trans hc) (hct.symm.trans hctx'))

theorem queued_move {loc : Loc} (hq : loc.queued = (w.calls c).loc.queued) (x : κ) :
    ((w.move c loc).calls x).loc.queued = (w.calls x).loc.queued := by
  by_cases hx : x = c
  · subst hx
    simpa [World.move, World.setCall] using hq
  · simp [World.move, World.setCall, hx]

theorem held_move (w : World κ) (c x : κ) (loc : Loc) : held (w.move c loc) x = held w x := by
  unfold held
  rw [finished_move]
  rfl

theorem Accounted.call (h : Accounted w) {untilSuccess : Bool} {updatesAt patchedAt : ℕ}
    (hl : (w.calls c).loc = .outside) :
    Accounted (w.setCall c { w.calls c with
      loc := .called, untilSuccess := untilSuccess,
      updatesAt := updatesAt, patchedAt := patchedAt }) := by
  refine h.of_held (fun x => ?_) (fun x => ?_) rfl
  · by_cases hx : x = c
    · subst hx
      simp [held, World.setCall]
    · simp [held, World.setCall, hx]
  · by_cases hx : x = c
    · subst hx
      simp [World.setCall, hl, Loc.queued]
    · simp [World.setCall, hx]

theorem Accounted.enqueue (h : Accounted w) (hl : (w.calls c).loc = .called) :
    Accounted { w.move c .enqueued with pending := w.pending ++ [c] } := by
  have hz : held w c = 0 := h.none c (by rw [hl]; rfl)
  have ho : ∀ x, x ≠ c →
      held { w.move c .enqueued with pending := w.pending ++ [c] } x = held w x := by
    intro x hx
    simp [held, World.move, World.setCall, hx, hx.symm]
  have hs : held { w.move c .enqueued with pending := w.pending ++ [c] } c = 1 := by
    have hc : held { w.move c .enqueued with pending := w.pending ++ [c] } c
        = held w c + 1 := by
      simp only [held, count_append, count_singleton_self]
      rw [show ((World.move w c .enqueued).calls c).finished = (w.calls c).finished from
        finished_move w c c .enqueued]
      dsimp only [World.move, World.setCall]
      omega
    omega
  refine ⟨fun x => ?_, fun x hx => ?_, fun x hx hct => ?_⟩
  · by_cases hxc : x = c
    · subst hxc
      exact hs.le
    · exact (ho x hxc).trans_le (h.le_one x)
  · by_cases hxc : x = c
    · subst hxc
      simp [World.move, World.setCall, Loc.queued] at hx
    · refine (ho x hxc).trans (h.none x ?_)
      simpa [World.move, World.setCall, hxc] using hx
  · by_cases hxc : x = c
    · subst hxc
      exact hs
    · refine (ho x hxc).trans (h.one x ?_ hct)
      simpa [World.move, World.setCall, hxc] using hx

theorem held_finish {todo retry : List κ} {err : Option PushError}
    (hwk : w.worker = .finishing (c :: todo) retry err) (x : κ) :
    held { w.finish c err with worker := .finishing todo retry err } x = held w x := by
  by_cases hx : x = c
  · subst hx
    simp [held, hwk, World.finish, World.setCall, Worker.requests]
    omega
  · simp [held, hwk, World.finish, World.setCall, Worker.requests, hx, Ne.symm hx]

theorem Accounted.moves (h : Accounted w) (hm : Moves w w') : Accounted w' := by
  cases hm with
  | updateLocal fn | writeDPU dpu => exact h.of_held (fun _ => rfl) (fun _ => rfl) rfl
  | call hl => exact h.call hl
  | enqueue hl => exact h.enqueue hl
  | @signal c hl | @leave c err hl hd | @giveUp c hl =>
    refine h.of_held (fun x => held_move w c x _) (queued_move ?_) rfl
    rw [hl]
    rfl
  | cancel => exact ⟨h.le_one, h.none, fun _ _ hc => nomatch hc⟩
  | wakeUp hwk | readFailed hwk | read hwk | retry hwk | stop hwk =>
    refine h.of_held (fun x => ?_) (fun _ => rfl) rfl
    simp [held, hwk, Worker.requests]
  | @takeBatch batch hwk =>
    refine h.of_held (fun x => ?_) (fun _ => rfl) rfl
    unfold held
    rw [requests_takeBatch, hwk, count_append]
    simp only [World.takeBatch, Worker.requests, count_nil]
    omega
  | patch hwk =>
    refine h.of_held (fun x => ?_) (fun _ => rfl) rfl
    simp [held, hwk, Worker.requests, World.patch]
  | keep hwk hr =>
    refine h.of_held (fun x => ?_) (fun _ => rfl) rfl
    simp only [held, hwk, Worker.requests, count_append, cons_append,
      count_cons, count_nil]
    omega
  | @finish c todo retry err hwk =>
    exact h.of_held (held_finish hwk) (fun x => congrArg _ (finish_call w c x err).2) rfl
  | @finished retry err hwk =>
    refine h.of_held (fun x => ?_) (fun _ => rfl) rfl
    by_cases hr : retry = []
    · simp [held, hwk, Worker.requests, hr]
    · simp [held, hwk, Worker.requests, hr]
  | abandon hwk hc =>
    -- The requests that were to be tried again are dropped.
    have hle : ∀ x, held { w with worker := .idle } x ≤ held w x := by
      intro x
      simp [held, Worker.requests]
    exact ⟨fun x => (hle x).trans (h.le_one x),
      fun x hx => Nat.le_zero.mp ((hle x).trans (h.none x hx).le),
      fun _ _ hctx' => by cases hc.symm.trans hctx'⟩

/-! ## Snapshots are pushed in order -/

def content (updates : List (AgentStatus → AgentStatus)) : AgentStatus :=
  updates.foldl (fun s fn => fn s) {}

/-- The snapshot was taken earlier, and it has no update that the later one lacks. -/
def Snapshot.Earlier (s t : Snapshot) : Prop := s.number < t.number ∧ s.updates ≤ t.updates

/-- What the snapshots are and in which order they were pushed. -/
structure Recorded (w : World κ) : Prop where
  status : w.status = content w.updates
  number : ∀ s ∈ w.taken, s.number < w.taken.length
  updates : ∀ s ∈ w.taken, s.updates ≤ w.updates.length
  content : ∀ s ∈ w.taken, s.content = content (w.updates.take s.updates)
  taken : w.taken.Pairwise Snapshot.Earlier
  pushed : (w.pushed ++ w.worker.snapshot.toList).Sublist w.taken
  patched : w.patched.Sublist w.pushed

omit [DecidableEq κ] in
/-- A step that takes and pushes nothing. -/
theorem Recorded.of_worker (h : Recorded w) (hst : w'.status = w.status)
    (hu : w'.updates = w.updates) (ht : w'.taken = w.taken)
    (hpu : w'.pushed = w.pushed) (hp : w'.patched = w.patched)
    (hwk : w'.worker.snapshot.toList.Sublist w.worker.snapshot.toList) : Recorded w' where
  status := by rw [hst, hu]; exact h.status
  number := by rw [ht]; exact h.number
  updates := by rw [ht, hu]; exact h.updates
  content := by rw [ht, hu]; exact h.content
  taken := by rw [ht]; exact h.taken
  pushed := by
    rw [ht, hpu]
    exact (hwk.append_left _).trans h.pushed
  patched := by rw [hp, hpu]; exact h.patched

omit [DecidableEq κ] in
theorem Recorded.updateLocal (h : Recorded w) (fn : AgentStatus → AgentStatus) :
    Recorded { w with status := fn w.status, updates := w.updates ++ [fn] } where
  status := by
    simp only [AgentStatusManager.content, foldl_append, foldl_cons, foldl_nil]
    rw [h.status]
    rfl
  number := h.number
  updates s hs := by
    have := h.updates s hs
    simp only [length_append, length_singleton]
    omega
  content s hs := by
    rw [take_append_of_le_length (h.updates s hs)]
    exact h.content s hs
  taken := h.taken
  pushed := h.pushed
  patched := h.patched

omit [DecidableEq κ] in
theorem Recorded.takeBatch (h : Recorded w) (hwk : w.worker = .taking batch) :
    Recorded (w.takeBatch batch) := by
  have hp : w.pushed.Sublist w.taken := by
    simpa [hwk, Worker.snapshot] using h.pushed
  have hmem : ∀ s ∈ (w.takeBatch batch).taken,
      s ∈ w.taken ∨ s = ⟨w.status, w.updates.length, w.taken.length⟩ := by
    intro s hs
    simpa [World.takeBatch] using hs
  have hl : (w.takeBatch batch).taken.length = w.taken.length + 1 := by
    simp [World.takeBatch]
  refine ⟨h.status, fun s hs => ?_, fun s hs => ?_, fun s hs => ?_, ?_, ?_, h.patched⟩
  · rw [hl]
    rcases hmem s hs with hs | rfl
    · exact (h.number s hs).trans (Nat.lt_succ_self _)
    · exact Nat.lt_succ_self _
  · rcases hmem s hs with hs | rfl
    · exact h.updates s hs
    · exact le_refl _
  · rcases hmem s hs with hs | rfl
    · exact h.content s hs
    · dsimp only [World.takeBatch]
      rw [take_length]
      exact h.status
  · refine pairwise_append.mpr ⟨h.taken, pairwise_singleton _ _, ?_⟩
    intro s hs t ht
    obtain rfl := mem_singleton.mp ht
    exact ⟨h.number s hs, h.updates s hs⟩
  · dsimp only [World.takeBatch]
    split_ifs with hb
    · simpa [Worker.snapshot] using hp.trans (sublist_append_left _ _)
    · exact hp.append_right _

omit [DecidableEq κ] in
theorem Recorded.patch (h : Recorded w) {s : Snapshot} {base : DPU}
    (hwk : w.worker = .patching batch s base) :
    Recorded (w.patch batch s base outcome) where
  status := h.status
  number := h.number
  updates := h.updates
  content := h.content
  taken := h.taken
  pushed := by
    have := h.pushed
    rw [hwk] at this
    simpa [World.patch, Worker.snapshot] using this
  patched := by
    dsimp only [World.patch]
    split_ifs
    · exact h.patched.append_right _
    · exact h.patched.trans (sublist_append_left _ _)

theorem Recorded.moves (h : Recorded w) (hm : Moves w w') : Recorded w' := by
  cases hm with
  | updateLocal fn => exact h.updateLocal fn
  | takeBatch hwk => exact h.takeBatch hwk
  | patch hwk => exact h.patch hwk
  | call _ | enqueue _ | signal _ | leave _ _ | giveUp _ | cancel | writeDPU _ =>
    exact h.of_worker rfl rfl rfl rfl rfl (List.Sublist.refl _)
  | wakeUp _ | readFailed _ | keep _ _ | finish _ | retry _ | abandon _ _ | stop _ =>
    exact h.of_worker rfl rfl rfl rfl rfl (nil_sublist _)
  | read hwk =>
    refine h.of_worker rfl rfl rfl rfl rfl ?_
    rw [hwk]
    exact List.Sublist.refl _
  | @finished retry err hwk =>
    refine h.of_worker rfl rfl rfl rfl rfl ?_
    by_cases hr : retry = []
    · simp [hr, Worker.snapshot]
    · simp [hr, Worker.snapshot]

/-! ## A finished request was served -/

/-- Since the call the DPU was patched from a snapshot with all updates from before the call. -/
def Served (w : World κ) (c : κ) : Prop :=
  ∃ s ∈ w.patched.drop (w.calls c).patchedAt, (w.calls c).updatesAt ≤ s.updates

/-- Every request that the worker holds, or that it finished without an error, gets the updates
from before its call. -/
structure Covered (w : World κ) : Prop where
  updatesAt : ∀ c, (w.calls c).updatesAt ≤ w.updates.length
  patchedAt : ∀ c, (w.calls c).patchedAt ≤ w.patched.length
  batch : ∀ s, w.worker.snapshot = some s → ∀ c ∈ w.worker.requests,
    (w.calls c).updatesAt ≤ s.updates
  finishing : ∀ todo retry, w.worker = .finishing todo retry none → ∀ c ∈ todo, Served w c
  finished : ∀ c, none ∈ (w.calls c).finished → Served w c
  returned : ∀ c, (w.calls c).loc = .returned none → none ∈ (w.calls c).finished

omit [DecidableEq κ] in
/-- A step that keeps the history, and what the calls found when they started. -/
theorem Covered.of_calls (h : Covered w)
    (hca : ∀ x, (w'.calls x).updatesAt = (w.calls x).updatesAt ∧
      (w'.calls x).patchedAt = (w.calls x).patchedAt)
    (hu : w'.updates = w.updates) (hp : w'.patched = w.patched)
    (hb : ∀ s, w'.worker.snapshot = some s → w.worker.snapshot = some s ∧
      w'.worker.requests = w.worker.requests)
    (hf : ∀ todo retry, w'.worker = .finishing todo retry none → ∀ c ∈ todo, Served w c)
    (hd : ∀ x, none ∈ (w'.calls x).finished → Served w x)
    (hr : ∀ x, (w'.calls x).loc = .returned none → none ∈ (w'.calls x).finished) : Covered w' := by
  have hse : ∀ x, Served w x → Served w' x := by
    intro x hx
    unfold Served
    rw [(hca x).1, (hca x).2, hp]
    exact hx
  refine ⟨fun x => ?_, fun x => ?_, fun s hs x hx => ?_,
    fun todo retry hw x hx => hse x (hf todo retry hw x hx), fun x hx => hse x (hd x hx), hr⟩
  · rw [(hca x).1, hu]
    exact h.updatesAt x
  · rw [(hca x).2, hp]
    exact h.patchedAt x
  · obtain ⟨hold, hre⟩ := hb s hs
    rw [(hca x).1]
    exact h.batch s hold x (hre ▸ hx)

omit [DecidableEq κ] in
/-- A step that leaves the requests and the history as they are. -/
theorem Covered.of_worker (h : Covered w) (hca : w'.calls = w.calls)
    (hu : w'.updates = w.updates) (hp : w'.patched = w.patched)
    (hb : ∀ s, w'.worker.snapshot = some s → w.worker.snapshot = some s ∧
      w'.worker.requests = w.worker.requests)
    (hf : ∀ todo retry, w'.worker = .finishing todo retry none → ∀ c ∈ todo, Served w c) :
    Covered w' :=
  h.of_calls (by simp [hca]) hu hp hb hf (hca ▸ h.finished) (hca ▸ h.returned)

/-- A step of one call that keeps what is known about it. -/
theorem Covered.setCall (h : Covered w) {call : Call}
    (hc : w'.calls = update w.calls c call) (hwk : w'.worker = w.worker)
    (hu : w'.updates = w.updates) (hp : w'.patched = w.patched)
    (hup : call.updatesAt = (w.calls c).updatesAt) (hpa : call.patchedAt = (w.calls c).patchedAt)
    (hf : call.finished = (w.calls c).finished)
    (hr : call.loc = .returned none → none ∈ (w.calls c).finished) : Covered w' := by
  refine h.of_calls ?_ hu hp (fun s hs => ?_) (hwk ▸ h.finishing) ?_ ?_
  · rw [hc]
    exact (forall_update_iff w.calls fun x call => call.updatesAt = (w.calls x).updatesAt ∧
      call.patchedAt = (w.calls x).patchedAt).mpr ⟨⟨hup, hpa⟩, fun _ _ => ⟨rfl, rfl⟩⟩
  · rw [hwk] at hs ⊢
    exact ⟨hs, rfl⟩
  · rw [hc]
    exact (forall_update_iff w.calls fun x call => none ∈ call.finished → Served w x).mpr
      ⟨hf ▸ h.finished c, fun x _ => h.finished x⟩
  · rw [hc]
    exact (forall_update_iff w.calls fun _ call => call.loc = .returned none →
      none ∈ call.finished).mpr ⟨hf.symm ▸ hr, fun x _ => h.returned x⟩

theorem Covered.call (h : Covered w) (ha : Accounted w) {untilSuccess : Bool}
    (hl : (w.calls c).loc = .outside) :
    Covered (w.setCall c { w.calls c with
      loc := .called, untilSuccess := untilSuccess,
      updatesAt := w.updates.length, patchedAt := w.patched.length }) := by
  have hz : held w c = 0 := ha.none c (by rw [hl]; rfl)
  have hr : c ∉ w.worker.requests := by
    rw [← count_eq_zero]
    unfold held at hz
    omega
  have hf : (w.calls c).finished = [] := by
    rw [← length_eq_zero_iff]
    unfold held at hz
    omega
  refine ⟨?_, ?_, fun s hs x hx => ?_, fun todo retry hw x hx => ?_, fun x hx => ?_,
    fun x hx => ?_⟩
  · exact (forall_update_iff w.calls fun _ call => call.updatesAt ≤ _).mpr
      ⟨le_rfl, fun x _ => h.updatesAt x⟩
  · exact (forall_update_iff w.calls fun _ call => call.patchedAt ≤ _).mpr
      ⟨le_rfl, fun x _ => h.patchedAt x⟩
  · have hxc : x ≠ c := fun heq => hr (heq ▸ hx)
    simpa [World.setCall, hxc] using h.batch s hs x hx
  · have hwk : w.worker = .finishing todo retry none := hw
    have hxc : x ≠ c := by
      rintro rfl
      refine hr ?_
      rw [hwk]
      exact mem_append_left _ hx
    simpa [Served, World.setCall, hxc] using h.finishing todo retry hw x hx
  · have hxc : x ≠ c := by
      rintro rfl
      simp [World.setCall, hf] at hx
    simp only [World.setCall, update_of_ne hxc] at hx
    simpa [Served, World.setCall, hxc] using h.finished x hx
  · have hxc : x ≠ c := by
      rintro rfl
      simp [World.setCall] at hx
    simp only [World.setCall, update_of_ne hxc] at hx ⊢
    exact h.returned x hx

omit [DecidableEq κ] in
theorem Covered.updateLocal (h : Covered w) (fn : AgentStatus → AgentStatus) :
    Covered { w with status := fn w.status, updates := w.updates ++ [fn] } where
  updatesAt c := by
    have := h.updatesAt c
    simp only [length_append, length_singleton]
    omega
  patchedAt := h.patchedAt
  batch := h.batch
  finishing := h.finishing
  finished := h.finished
  returned := h.returned

omit [DecidableEq κ] in
theorem Covered.takeBatch (h : Covered w) (batch : List κ) :
    Covered (w.takeBatch batch) where
  updatesAt := h.updatesAt
  patchedAt := h.patchedAt
  batch s hs c _ := by
    have hsn : s.updates = w.updates.length := by
      dsimp only [World.takeBatch] at hs
      split_ifs at hs
      · cases hs
      · cases hs
        rfl
    rw [hsn]
    exact h.updatesAt c
  finishing todo retry hw := by
    dsimp only [World.takeBatch] at hw
    split_ifs at hw
  finished := h.finished
  returned := h.returned

omit [DecidableEq κ] in
theorem reached_of_answer (h : w.answer outcome = none) : w.reached outcome = true := by
  cases outcome with
  | applied =>
    by_contra hr
    simp only [World.reached] at hr
    simp [World.answer, hr] at h
  | lost => cases h
  | failed err => cases h

omit [DecidableEq κ] in
theorem Covered.patch (h : Covered w) {s : Snapshot} {base : DPU}
    (hwk : w.worker = .patching batch s base) : Covered (w.patch batch s base outcome) := by
  have hs : ∀ n ≤ w.patched.length,
      w.patched.drop n ⊆ (w.patch batch s base outcome).patched.drop n := by
    intro n hn
    dsimp only [World.patch]
    split_ifs
    · rw [drop_append_of_le_length hn]
      exact subset_append_left _ _
    · exact List.Subset.refl _
  refine ⟨h.updatesAt, fun c => ?_, fun t ht => (by cases ht), fun todo retry hw c hc => ?_,
    fun c hc => ?_, h.returned⟩
  · have := h.patchedAt c
    dsimp only [World.patch]
    split_ifs
    · simp only [length_append, length_singleton]
      omega
    · exact this
  · injection hw with hto _ ha
    subst hto
    have hb := h.batch s (by rw [hwk]; rfl) c (by rw [hwk]; exact hc)
    refine ⟨s, ?_, hb⟩
    simp only [World.patch, reached_of_answer ha, if_true]
    rw [drop_append_of_le_length (h.patchedAt c)]
    exact mem_append_right _ (mem_singleton_self s)
  · obtain ⟨t, ht, hle⟩ := h.finished c hc
    exact ⟨t, hs _ (h.patchedAt c) ht, hle⟩

theorem Covered.finish (h : Covered w) {todo retry : List κ} {err : Option PushError}
    (hwk : w.worker = .finishing (c :: todo) retry err) :
    Covered { w.finish c err with worker := .finishing todo retry err } := by
  refine h.of_calls (fun x => (finish_call w c x err).1) rfl rfl (fun s hs => by cases hs) ?_ ?_ ?_
  · intro todo' retry' hw x hx
    injection hw with ht _ he
    subst ht he
    exact h.finishing _ _ hwk x (mem_cons_of_mem _ hx)
  · refine (forall_update_iff w.calls fun x call => none ∈ call.finished →
      Served w x).mpr ⟨fun hx => ?_, fun x _ => h.finished x⟩
    rcases mem_append.mp hx with hx | he
    · exact h.finished c hx
    · obtain rfl := mem_singleton.mp he
      exact h.finishing _ _ hwk c mem_cons_self
  · exact (forall_update_iff w.calls fun _ call => call.loc = .returned none →
      none ∈ call.finished).mpr
        ⟨fun hx => mem_append_left _ (h.returned c hx), fun x _ => h.returned x⟩

theorem Covered.moves (h : Covered w) (ha : Accounted w) (hm : Moves w w') : Covered w' := by
  cases hm with
  | updateLocal fn => exact h.updateLocal fn
  | call hl => exact h.call ha hl
  | enqueue _ | signal _ | giveUp _ =>
    exact h.setCall rfl rfl rfl rfl rfl rfl rfl nofun
  | @leave c err hl hd =>
    refine h.setCall rfl rfl rfl rfl rfl rfl rfl fun hre => ?_
    cases err with
    | none => exact hd
    | some err => cases hre
  | takeBatch hwk => exact h.takeBatch _
  | patch hwk => exact h.patch hwk
  | finish hwk => exact h.finish hwk
  | cancel | writeDPU _ =>
    exact h.of_worker rfl rfl rfl (fun _ hs => ⟨hs, rfl⟩) h.finishing
  | wakeUp _ | retry _ | abandon _ _ | stop _ | readFailed hwk =>
    exact h.of_worker rfl rfl rfl (fun _ hs => by cases hs) (fun _ _ hw => by cases hw)
  | read hwk =>
    refine h.of_worker rfl rfl rfl (fun s hs => ?_) nofun
    rw [hwk]
    exact ⟨hs, rfl⟩
  | keep hwk hr =>
    refine h.of_worker rfl rfl rfl (fun _ hs => by cases hs) fun todo retry hw => ?_
    -- Nothing is tried again after a push without an error.
    injection hw with _ _ he
    subst he
    cases hr
  | @finished retry err hwk =>
    refine h.of_worker rfl rfl rfl (fun s hs => ?_) fun todo retry' hw => ?_
    · dsimp only at hs
      split_ifs at hs <;> cases hs
    · dsimp only at hw
      split_ifs at hw

/-- A pending request is about to be taken, or there is a token, or its caller is about to send
one. -/
def Signalled (w : World κ) : Prop :=
  ∀ c ∈ w.pending, w.wake = true ∨ w.worker.isTaking = true ∨ (w.calls c).loc = .enqueued

/-- A step of a call that is not about to send a token. -/
theorem Signalled.move (h : Signalled w) {call : Call} (hl : (w.calls c).loc ≠ .enqueued) :
    Signalled (w.setCall c call) := by
  intro x hx
  by_cases hxc : x = c
  · subst hxc
    rcases h x hx with hw | ht | he
    · exact .inl hw
    · exact .inr (.inl ht)
    · exact absurd he hl
  · simpa [World.setCall, hxc] using h x hx

omit [DecidableEq κ] in
/-- A step of the worker that is not in `takeBatch`. -/
theorem Signalled.of_worker (h : Signalled w) (hp : w'.pending = w.pending)
    (hwa : w'.wake = w.wake) (hl : ∀ c, (w'.calls c).loc = (w.calls c).loc)
    (hwk : w.worker.isTaking = false) : Signalled w' := by
  intro c hc
  rw [hp] at hc
  rw [hwa, hl]
  rcases h c hc with hw | ht | he
  · exact .inl hw
  · exact absurd ht (by rw [hwk]; exact Bool.false_ne_true)
  · exact .inr (.inr he)

theorem Signalled.moves (h : Signalled w) (hm : Moves w w') : Signalled w' := by
  cases hm with
  | updateLocal _ | cancel | writeDPU _ => exact h
  | call hl | leave hl hd | giveUp hl => exact h.move (by rw [hl]; exact nofun)
  | @enqueue c hl =>
    intro x hx
    rcases mem_append.mp hx with hx | hx
    · exact (Signalled.move h (by rw [hl]; exact nofun)) x hx
    · obtain rfl := mem_singleton.mp hx
      refine .inr (.inr ?_)
      simp [World.move, World.setCall]
  | signal hl => exact fun _ _ => .inl rfl
  | wakeUp hwk => exact fun _ _ => .inr (.inl rfl)
  | takeBatch hwk => exact nofun
  | readFailed hwk | read hwk | patch hwk | keep hwk _ | finished hwk | retry hwk | abandon hwk _
  | stop hwk => exact h.of_worker rfl rfl (fun _ => rfl) (by rw [hwk]; rfl)
  | @finish c todo retry err hwk =>
    exact h.of_worker rfl rfl (fun x => (finish_call w c x err).2) (by rw [hwk]; rfl)

/-! ## Every run -/

structure Inv (w : World κ) : Prop where
  accounted : Accounted w
  recorded : Recorded w
  covered : Covered w
  signalled : Signalled w

theorem Inv.init (h : Init w) : Inv w := by
  obtain ⟨hst, hpe, -, hwk, hc, -, hu, ht, hpu, hp⟩ := h
  refine ⟨⟨?_, ?_, ?_⟩, ⟨?_, ?_, ?_, ?_, ?_, ?_, ?_⟩, ⟨?_, ?_, ?_, ?_, ?_, ?_⟩, ?_⟩
  all_goals simp [Signalled, held, content, Worker.requests, Worker.snapshot, Call.outside,
    Loc.queued, hst, hpe, hwk, hc, hu, ht, hpu, hp]

theorem Inv.moves (h : Inv w) (hm : Moves w w') : Inv w' where
  accounted := h.accounted.moves hm
  recorded := h.recorded.moves hm
  covered := h.covered.moves h.accounted hm
  signalled := h.signalled.moves hm

theorem reachable_inv (h : Reachable Init Step w) : Inv w :=
  h.invariant (fun _ => Inv.init) (fun _ _ _ _ hinv hs => hinv.moves (exec_moves hs))

/-- What the manager promises to its callers. -/
structure Delivers (w : World κ) : Prop where
  /-- Since a call that returned nil the DPU was patched from a snapshot that has every update
  from before the call. -/
  covered : ∀ c, (w.calls c).loc = .returned none →
    ∃ s ∈ w.patched.drop (w.calls c).patchedAt, (w.calls c).updatesAt ≤ s.updates ∧
      s.content = content (w.updates.take s.updates)
  /-- Snapshots are pushed, and reach the DPU, in the order they were taken. -/
  ordered : w.taken.Pairwise Snapshot.Earlier ∧ w.pushed.Sublist w.taken ∧
    w.patched.Sublist w.pushed
  once : ∀ c, (w.calls c).finished.length ≤ 1
  /-- There is a token for pending requests, or all their callers are about to send one. -/
  woken : w.pending ≠ [] → w.worker.processing = false →
    w.wake = true ∨ ∀ c ∈ w.pending, (w.calls c).loc = .enqueued
  /-- Until the context is done, who waits has a request that is pending, with the worker or
  finished. -/
  kept : ∀ c, (w.calls c).loc.queued = true → w.cancelled = false →
    c ∈ w.pending ∨ c ∈ w.worker.requests ∨ (w.calls c).finished ≠ []

theorem updateRemote_delivers {w : World κ} (h : Reachable Init Step w) : Delivers w := by
  have hinv := reachable_inv h
  have hpu : w.pushed.Sublist w.taken :=
    (sublist_append_left _ _).trans hinv.recorded.pushed
  refine ⟨fun c hc => ?_, ⟨hinv.recorded.taken, hpu, hinv.recorded.patched⟩, fun c => ?_,
    fun _ hi => ?_, fun c hq hct => ?_⟩
  · obtain ⟨s, hs, hle⟩ := hinv.covered.finished c (hinv.covered.returned c hc)
    have ht : s ∈ w.taken :=
      (hinv.recorded.patched.trans hpu).subset (mem_of_mem_drop hs)
    exact ⟨s, hs, hle, hinv.recorded.content s ht⟩
  · have := hinv.accounted.le_one c
    unfold held at this
    omega
  · by_cases hwa : w.wake = true
    · exact .inl hwa
    · refine .inr fun c hc => ?_
      rcases hinv.signalled c hc with hw | hta | he
      · exact absurd hw hwa
      · -- The worker that is about to take the requests is in `process`.
        cases hwk : w.worker with
        | taking batch => rw [hwk] at hi; cases hi
        | idle | stopped => rw [hwk] at hta; cases hta
        | pushing _ _ | patching _ _ _ | finishing _ _ _ | waiting _ =>
          rw [hwk] at hta; cases hta
      · exact he
  · have ho := hinv.accounted.one c hq hct
    by_contra hn
    push Not at hn
    obtain ⟨hp, hr, hf⟩ := hn
    rw [held, count_eq_zero.mpr hp, count_eq_zero.mpr hr, hf] at ho
    cases ho

/-- A manager that was just started for a DPU that has not reported. -/
def freshManager (κ : Type) : World κ where
  uid := "6f1c"
  status := {}
  pending := []
  wake := false
  worker := .idle
  calls := fun _ => Call.outside
  cancelled := false
  dpu := some ⟨"6f1c", none⟩
  updates := []
  taken := []
  pushed := []
  patched := []

theorem init_freshManager (κ : Type) : Init (freshManager κ) :=
  ⟨rfl, rfl, rfl, rfl, fun _ => rfl, rfl, rfl, rfl, rfl, rfl⟩

/-- The first push fails. The request is tried again together with one that came in meanwhile. -/
theorem failed_push_delivered :
    ∃ w : World Bool, Reachable Init Step w ∧ (w.calls false).loc = .returned none ∧
      (w.calls true).finished = [none] ∧ w.pushed.length = 2 ∧ Delivers w := by
  obtain ⟨w, hr, ho⟩ := Reachable.exists_of_run (init_freshManager Bool) World.exec
    [.updateLocal fun s => { s with version := "v1" }, .call false true, .enqueue false,
      .signal false, .wakeUp, .takeBatch, .get none, .patch (.failed .other),
      .updateLocal fun s => { s with rebootMethod := some .noAction }, .call true false,
      .enqueue true, .finish, .finish, .signal true, .retry, .takeBatch, .get none,
      .patch .applied, .finish, .finish, .finish, .leave false]
    (fun w => ((w.calls false).loc, (w.calls true).finished, w.pushed.length))
    (.returned none, [none], 2) (by decide +kernel)
  simp only [Prod.mk.injEq] at ho
  exact ⟨w, hr, ho.1, ho.2.1, ho.2.2, updateRemote_delivers hr⟩

/-- Between `enqueue` and the send a request is pending, the worker idle and no token there. -/
theorem enqueued_without_token :
    ¬ ∀ w : World Unit, Reachable Init Step w → w.pending ≠ [] → w.worker.processing = false →
      w.wake = true := by
  intro hc
  obtain ⟨w, hr, ho⟩ := Reachable.exists_of_run (init_freshManager Unit) World.exec
    [.call () true, .enqueue ()] (fun w => (w.pending, w.worker.processing, w.wake))
    ([()], false, false) (by decide +kernel)
  simp only [Prod.mk.injEq] at ho
  obtain ⟨hp, hwk, hw⟩ := ho
  have ht := hc w hr (by rw [hp]; exact cons_ne_nil _ _) hwk
  cases hw.symm.trans ht

end DocaPlatform.AgentStatusManager
