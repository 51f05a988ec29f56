import DocaPlatform.DpuPhases

/-!
# The runs of the DPU agent

The agent process runs its operations once when it starts and then follows its DPU on a watch. The
watch callback, one call at a time, decides from the phases it observes whether the operations run
again. Anybody else may write the DPU at any time, the process may be restarted at any time, and the
events of a watch session that closes are lost.
-/
namespace DocaPlatform.AgentRounds

open InPlaceReconfig DpuPhases Runs Option List

structure Object where
  uid : ℕ
  dpu : DPU
  deriving DecidableEq

namespace Object

def phase (o : Object) : Phase := o.dpu.status.phase

/-- `objectResourceVersion`. -/
def resourceVersion (o : Object) : ℕ := o.dpu.resourceVersion

def inProgress (o : Object) : Bool := reconfigInProgress o.dpu.status.dpuReconfig

def round (o : Object) : ℕ := reconfigRound o.dpu.status.dpuReconfig

end Object

inductive ReconfigState where
  | idle
  | armed
  deriving DecidableEq

/-- What the process keeps from one call of the callback to the next. -/
structure Memory where
  reconfig : ReconfigState
  seenResourceVersion : ℕ
  deriving DecidableEq

def phaseLeftDPUConfig : Phase → Bool
  | .ready | .hostNetworkConfiguration | .clusterConfig | .serviceReadiness | .nodeEffectRemoval
  | .nodeEffect => true
  | _ => false

def newerRoundPending (o : Object) (servedRound : ℕ) : Bool :=
  o.inProgress && decide (servedRound < o.round) && o.phase == .dpuConfig

/-- The event, if it is one of the same DPU and newer than what was observed. -/
def news (m : Memory) (dpu : Object) (event : Option Object) : Option Object :=
  event.filter fun e => e.uid == dpu.uid && decide (m.seenResourceVersion < e.resourceVersion)

/-- The first part of `maybeReconfigRun`, on the event and on the DPU that the GET returned. -/
def observe (m : Memory) (dpu : Object) (event : Option Object) : Memory :=
  let m :=
    match news m dpu event with
    | none => m
    | some e => ⟨if phaseLeftDPUConfig e.phase then .armed else m.reconfig, e.resourceVersion⟩
  ⟨if phaseLeftDPUConfig dpu.phase then .armed else m.reconfig,
    max m.seenResourceVersion dpu.resourceVersion⟩

/-- `maybeReconfigRun` up to its first `Run`, with the round that this one serves. -/
def maybeReconfigRun (m : Memory) (dpu : Object) (event : Option Object) : Memory × Option ℕ :=
  let m := observe m dpu event
  (m, if dpu.phase = .dpuConfig ∧ m.reconfig = .armed then some dpu.round else none)

/-- `maybeReconfigRun` after a `Run` without an error, with the round that the next one serves. The
GET after the `Run` may fail. -/
def afterRun (m : Memory) (servedRound : ℕ) : Option Object → Memory × Option ℕ
  | none => ({ m with reconfig := .armed }, none)
  | some live =>
    let seen := max m.seenResourceVersion live.resourceVersion
    if newerRoundPending live servedRound then (⟨m.reconfig, seen⟩, some live.round)
    else if phaseLeftDPUConfig live.phase then (⟨.armed, seen⟩, none)
    else (⟨.idle, seen⟩, none)

/-- `reconcileOwnedDPU` on the DPU that the GET returned. What it does for a DPU with another UID
leaves the state of the reconfiguration alone. -/
def reconcileOwnedDPU (dpuUID : Option ℕ) (m : Memory) (dpu : Object) (event : Option Object) :
    Memory × Option ℕ :=
  if dpuUID.isSome ∧ dpuUID ≠ some dpu.uid then (m, none) else maybeReconfigRun m dpu event

/-- The phases that a call of the callback observes, in the event or in the GET, have one after DPU
Config among them. -/
def observesLeft (m : Memory) (dpu : Object) (event : Option Object) : Bool :=
  (news m dpu event).any (fun e => phaseLeftDPUConfig e.phase) || phaseLeftDPUConfig dpu.phase

theorem ne_dpuConfig_of_left {p : Phase} (h : phaseLeftDPUConfig p = true) : p ≠ .dpuConfig := by
  rintro rfl
  cases h

/-- A call of the callback arms the agent exactly if it observes a phase after DPU Config. -/
theorem observe_reconfig (m : Memory) (dpu : Object) (event : Option Object) :
    (observe m dpu event).reconfig = .armed ↔
      m.reconfig = .armed ∨ observesLeft m dpu event = true := by
  unfold observe observesLeft
  cases news m dpu event with
  | none => cases phaseLeftDPUConfig dpu.phase <;> simp
  | some e =>
    cases hd : phaseLeftDPUConfig dpu.phase <;>
      cases he : phaseLeftDPUConfig e.phase <;> simp [he]

theorem le_observe_seen (m : Memory) (dpu : Object) (event : Option Object) :
    dpu.resourceVersion ≤ (observe m dpu event).seenResourceVersion :=
  le_max_right _ _

/-! ## The process and its DPU

Times count the steps of a run. What no party reads says when the DPU came where it is, which `Run`
reported last and what the process has observed. -/

/-- A call of `Run`. -/
structure Run where
  start : ℕ
  /-- When the DPU had come to the phase and round it had at the start. -/
  entry : ℕ
  /-- The current pass over the operations has reported the startup time. -/
  reported : Bool
  deriving DecidableEq

/-- Where `RunDPUWatch` stands. -/
inductive Loop where
  /-- Before the call without an event that opens a session. -/
  | connecting
  /-- Before the watch of the session is opened. -/
  | opening
  /-- In a session; the events in `queue` are still to come. -/
  | watching (queue : List Object)
  deriving DecidableEq

def Loop.queue : Loop → List Object
  | .watching queue => queue
  | _ => []

/-- The watch sends a version that was written. -/
def Loop.notify (o : Object) : Loop → Loop
  | .watching queue => .watching (queue ++ [o])
  | loop => loop

/-- What the process is doing: a callback that runs the operations returns to the loop. -/
inductive Control where
  | bootstrap (run : Run)
  | waiting (loop : Loop)
  | running (run : Run) (servedRound : ℕ) (loop : Loop)
  deriving DecidableEq

def Control.notify (o : Object) : Control → Control
  | .bootstrap run => .bootstrap run
  | .waiting loop => .waiting (loop.notify o)
  | .running run servedRound loop => .running run servedRound (loop.notify o)

/-- The round that an in-place `Run` serves. -/
def Control.serving : Control → Option ℕ
  | .running _ servedRound _ => some servedRound
  | _ => none

structure Process where
  dpuUID : Option ℕ
  memory : Memory
  control : Control
  started : ℕ
  lastRead : ℕ
  /-- The callback has observed a phase after DPU Config since the DPU last changed its phase, its
  round or the progress of it while in DPU Config. -/
  sawLeft : Bool
  /-- The last in-place `Run` ended with an error. -/
  failed : Bool
  /-- When the DPU had come where it was at the start of each `Run` without an error. -/
  successes : List ℕ

structure World where
  clock : ℕ
  stored : Object
  versions : List Object
  /-- When the phase or the round last changed. -/
  entered : ℕ
  /-- When the phase, the round or its progress last changed. -/
  since : ℕ
  /-- The round that an in-place `Run` was serving then. -/
  during : Option ℕ
  /-- The start of the `Run` whose startup time is the last one reported. -/
  startup : Option ℕ
  process : Option Process

/-- A process that has just started its bootstrap `Run`. -/
def newProcess (w : World) : Process where
  dpuUID := some w.stored.uid
  memory := ⟨.idle, 0⟩
  control := .bootstrap ⟨w.clock, w.entered, false⟩
  started := w.clock
  lastRead := w.clock
  sawLeft := false
  failed := false
  successes := []

/-- The step of a process that leaves the DPU alone. -/
def World.next (w : World) (p : Option Process) : World :=
  { w with clock := w.clock + 1, process := p }

/-- The version that a write of the status leaves. -/
def Object.write (o : Object) (status : DPUStatus) : Object :=
  { o with dpu := { o.dpu with resourceVersion := o.dpu.resourceVersion + 1, status := status } }

def moves (o o' : Object) : Bool := o.phase != o'.phase || o.round != o'.round

/-- The phase, the round or its progress is another one. -/
def changes (o o' : Object) : Bool := moves o o' || o.inProgress != o'.inProgress

def Process.told (p : Process) (o o' : Object) : Process :=
  { p with
    control := p.control.notify o'
    sawLeft := p.sawLeft && !(changes o o' && o.phase == .dpuConfig) }

def World.store (w : World) (status : DPUStatus) : World :=
  let o' := w.stored.write status
  { w with
    clock := w.clock + 1
    stored := o'
    versions := o' :: w.versions
    entered := if moves w.stored o' then w.clock else w.entered
    since := if changes w.stored o' then w.clock else w.since
    during :=
      if changes w.stored o' then w.process.bind fun p => p.control.serving else w.during
    process := w.process.map fun p => p.told w.stored o' }

def reportStartup (t : Time) (s : DPUStatus) : DPUStatus :=
  { s with
    agentStatus := some
      { s.agentStatus.getD ⟨"", none, none, none, 0⟩ with lastStartupTime := some t } }

/-- A call of the callback, which reads the DPU and then returns to the loop or runs the
operations. -/
def Process.callback (p : Process) (w : World) (event : Option Object) (loop : Loop) : Process :=
  let r := reconcileOwnedDPU p.dpuUID p.memory w.stored event
  let p :=
    { p with
      memory := r.1
      lastRead := w.clock
      sawLeft := p.sawLeft || observesLeft p.memory w.stored event }
  match r.2 with
  | none => { p with control := .waiting loop }
  | some servedRound =>
    { p with control := .running ⟨w.clock, w.entered, false⟩ servedRound loop, failed := false }

/-- The callback goes on after a `Run` without an error. -/
def Process.resume (p : Process) (w : World) (run : Run) (servedRound : ℕ) (loop : Loop) :
    Process :=
  let r := afterRun p.memory servedRound (some w.stored)
  let p :=
    { p with
      memory := r.1
      lastRead := w.clock
      sawLeft := p.sawLeft || phaseLeftDPUConfig w.stored.phase
      failed := false
      successes := run.entry :: p.successes }
  match r.2 with
  | none => { p with control := .waiting loop }
  | some servedRound =>
    { p with control := .running ⟨w.clock, w.entered, false⟩ servedRound loop }

inductive Event where
  | write (status : DPUStatus)
  | start
  | kill
  /-- `ReportLastStartupTime`, with the push of the status. -/
  | report
  /-- The flavor has changed: the operations start again from the first one. -/
  | restartPipeline
  | finish
  | fail
  /-- The call of the callback before a watch session. -/
  | trigger
  | openWatch
  /-- The callback gets the next event of the session. -/
  | deliver
  /-- The callback gets an event that is late or comes again. -/
  | redeliver (event : Object)
  /-- The session ends, and its events that are still to come are lost. -/
  | closeWatch

def World.act (w : World) (p : Process) : Event → Option World
  | .kill => some (w.next none)
  | .report =>
    let report (run : Run) (control : Control) : World :=
      { w with startup := some run.start, process := some { p with control := control } }.store
        (reportStartup w.clock w.stored.dpu.status)
    match p.control with
    | .bootstrap run => some (report run (.bootstrap { run with reported := true }))
    | .running run servedRound loop =>
      some (report run (.running { run with reported := true } servedRound loop))
    | .waiting _ => none
  | .restartPipeline =>
    match p.control with
    | .bootstrap run =>
      some (w.next (some { p with control := .bootstrap { run with reported := false } }))
    | .running run servedRound loop =>
      some (w.next (some
        { p with control := .running { run with reported := false } servedRound loop }))
    | .waiting _ => none
  | .finish =>
    match p.control with
    | .bootstrap run =>
      if run.reported then
        some (w.next (some
          { p with control := .waiting .connecting, successes := run.entry :: p.successes }))
      else none
    | .running run servedRound loop =>
      if run.reported then some (w.next (some (p.resume w run servedRound loop))) else none
    | .waiting _ => none
  | .fail =>
    match p.control with
    -- The process exits.
    | .bootstrap _ => some (w.next none)
    | .running _ _ loop =>
      some (w.next (some
        { p with
          memory := { p.memory with reconfig := .armed }
          control := .waiting loop
          failed := true }))
    | .waiting _ => none
  | .trigger =>
    match p.control with
    | .waiting .connecting => some (w.next (some (p.callback w none .opening)))
    | _ => none
  -- A watch without a resource version starts with the object as it is.
  | .openWatch =>
    match p.control with
    | .waiting .opening =>
      some (w.next (some { p with control := .waiting (.watching [w.stored]) }))
    | _ => none
  | .deliver =>
    match p.control with
    | .waiting (.watching (e :: queue)) =>
      some (w.next (some (p.callback w (some e) (.watching queue))))
    | _ => none
  | .redeliver e =>
    match p.control with
    | .waiting (.watching queue) =>
      if e ∈ w.versions then some (w.next (some (p.callback w (some e) (.watching queue))))
      else none
    | _ => none
  | .closeWatch =>
    match p.control with
    | .waiting (.watching _) => some (w.next (some { p with control := .waiting .connecting }))
    | _ => none
  | .write _ | .start => none

def World.exec (w : World) : Event → Option World
  | .write status => some (w.store status)
  | .start => if w.process.isSome then none else some (w.next (some (newProcess w)))
  | e => w.process.bind fun p => w.act p e

def Step (w : World) (e : Event) (w' : World) : Prop := w.exec e = some w'

/-- A DPU whose agent has not been started yet. -/
structure Init (w : World) : Prop where
  entered_le : w.entered ≤ w.since
  since_lt : w.since < w.clock
  versions : w.versions = [w.stored]
  process : w.process = none

/-- The last startup time belongs to a `Run` that started after the DPU came where it is. -/
def World.Served (w : World) : Prop := ∃ t, w.startup = some t ∧ w.since < t

/-- The DPU came to DPU Config for a round in progress while a `Run` served round `s`, a lower
one. -/
def World.Overlapped (w : World) (s : ℕ) : Prop :=
  w.during = some s ∧ w.stored.phase = .dpuConfig ∧ w.stored.inProgress = true ∧
    s < w.stored.round

/-- What holds of a process in its watch loop. -/
structure Follows (w : World) (p : Process) (loop : Loop) : Prop where
  /-- What the callback has not read yet it will be called for. -/
  awaits : w.since < p.lastRead ∨ loop ≠ .watching []
  queued : ∀ v ∈ loop.queue, v ∈ w.versions
  /-- While the DPU stays where the callback has read it, a version it has not seen is in the same
  phase. -/
  fresh : loop ≠ .connecting → w.entered < p.lastRead → ∀ v ∈ w.versions,
    p.memory.seenResourceVersion < v.resourceVersion → v.phase = w.stored.phase
  startup : ∃ t, w.startup = some t ∧ p.started ≤ t
  started_le : p.started ≤ p.lastRead
  nodup : p.successes.Nodup
  past : ∀ e ∈ p.successes, e < p.lastRead

/-- What holds between two calls of the callback. -/
structure Waits (w : World) (p : Process) (loop : Loop) : Prop extends Follows w p loop where
  observed : p.sawLeft = true →
    p.memory.reconfig = .armed ∨ (w.stored.phase = .dpuConfig ∧ w.Served)
  unread : p.memory.reconfig = .armed → w.stored.phase = .dpuConfig → w.since < p.lastRead →
    p.failed = true
  overlapped : ∀ s, w.Overlapped s → w.since < p.started ∨ w.Served ∨ p.failed = true
  served : w.entered ∈ p.successes → w.stored.phase = .dpuConfig → p.memory.reconfig = .idle

/-- What holds during an in-place `Run`. -/
structure Works (w : World) (p : Process) (run : Run) (servedRound : ℕ) (loop : Loop) : Prop
    extends Follows w p loop where
  start : p.lastRead = run.start
  reported : run.reported = true → w.startup = some run.start
  observed : p.sawLeft = true → w.stored.phase = .dpuConfig ∧ w.since < run.start
  overlapped : ∀ s, w.Overlapped s →
    w.since < p.started ∨ w.since < run.start ∨ servedRound = s
  entry_lt : run.entry < run.start
  entry : (run.entry = w.entered ∧ w.stored.round = servedRound) ∨ run.start ≤ w.entered
  new : run.entry ∉ p.successes

/-- What holds during the bootstrap `Run`. -/
structure Boots (w : World) (p : Process) (run : Run) : Prop where
  start : run.start = p.started
  lastRead : p.lastRead = p.started
  entry_lt : run.entry < p.started
  reported : run.reported = true → w.startup = some run.start
  idle : p.memory.reconfig = .idle
  sawLeft : p.sawLeft = false
  successes : p.successes = []
  overlapped : ∀ s, w.during = some s → w.since < p.started

def Process.Sound (w : World) (p : Process) : Control → Prop
  | .bootstrap run => Boots w p run
  | .waiting loop => Waits w p loop
  | .running run servedRound loop => Works w p run servedRound loop

structure World.Inv (w : World) : Prop where
  entered_le : w.entered ≤ w.since
  since_lt : w.since < w.clock
  stored_mem : w.stored ∈ w.versions
  versions_le : ∀ v ∈ w.versions, v.resourceVersion ≤ w.stored.resourceVersion
  process : ∀ p, w.process = some p →
    p.dpuUID = some w.stored.uid ∧ p.lastRead < w.clock ∧ p.Sound w p.control

/-! ### Writes -/

theorem Loop.notify_ne_watching_nil (o : Object) (loop : Loop) : loop.notify o ≠ .watching [] := by
  cases loop <;> simp [Loop.notify]

variable {o o' : Object} {loop : Loop}

theorem Loop.notify_eq_connecting : loop.notify o = .connecting ↔ loop = .connecting := by
  cases loop <;> simp [Loop.notify]

theorem Loop.mem_queue_notify {v : Object} (h : v ∈ (loop.notify o).queue) :
    v ∈ loop.queue ∨ v = o := by
  cases loop with
  | watching queue => simpa [Loop.notify, Loop.queue] using h
  | connecting | opening => simp [Loop.notify, Loop.queue] at h

theorem not_moves (h : moves o o' = false) : o'.phase = o.phase ∧ o'.round = o.round := by
  simp only [moves, Bool.or_eq_false_iff, bne_eq_false_iff_eq] at h
  exact ⟨h.1.symm, h.2.symm⟩

theorem not_changes (h : changes o o' = false) :
    moves o o' = false ∧ o'.inProgress = o.inProgress := by
  simp only [changes, Bool.or_eq_false_iff, bne_eq_false_iff_eq] at h
  exact ⟨h.1, h.2.symm⟩

variable {run : Run} {servedRound : ℕ}

section Store

variable {w : World} {p : Process} {status : DPUStatus} {loop : Loop}

theorem Process.told_sawLeft (h : (p.told o o').sawLeft = true) :
    p.sawLeft = true ∧ (changes o o' = true → o.phase ≠ .dpuConfig) := by
  simp only [Process.told, Bool.and_eq_true, Bool.not_eq_true', Bool.and_eq_false_iff,
    beq_eq_false_iff_ne] at h
  obtain ⟨hs, hst | hph⟩ := h
  · exact ⟨hs, fun hc => by simp [hst] at hc⟩
  · exact ⟨hs, fun _ => hph⟩

theorem lt_of_ite_lt {c : Bool} {clock x n : ℕ} (hn : n < clock)
    (h : (if c then clock else x) < n) : c = false ∧ x < n := by
  cases c with
  | true => exact absurd h hn.not_gt
  | false => exact ⟨rfl, h⟩

/-- After a change, nothing has been read. -/
theorem store_since_lt {n : ℕ} (hn : n < w.clock) (h : (w.store status).since < n) :
    changes w.stored (w.stored.write status) = false ∧ w.since < n :=
  lt_of_ite_lt hn h

theorem store_entered_lt {n : ℕ} (hn : n < w.clock) (h : (w.store status).entered < n) :
    moves w.stored (w.stored.write status) = false ∧ w.entered < n :=
  lt_of_ite_lt hn h

theorem store_entered_of_not_moves (h : moves w.stored (w.stored.write status) = false) :
    (w.store status).entered = w.entered := by
  simp [World.store, h]

theorem store_since_of_not_changes (h : changes w.stored (w.stored.write status) = false) :
    (w.store status).since = w.since := by
  simp [World.store, h]

/-- An overlap after a write was there before, or it is one with the `Run` of the process. -/
theorem Overlapped.of_store {s : ℕ} (h : (w.store status).Overlapped s) :
    (changes w.stored (w.stored.write status) = false ∧ w.Overlapped s) ∨
      w.process.bind (fun p => p.control.serving) = some s := by
  obtain ⟨hd, hph, hp, hlt⟩ := h
  cases hc : changes w.stored (w.stored.write status) with
  | true =>
    simp only [World.store, hc, if_true] at hd
    exact .inr hd
  | false =>
    simp only [World.store, hc, Bool.false_eq_true, if_false] at hd
    obtain ⟨hm, hs⟩ := not_changes hc
    obtain ⟨hphase', hr⟩ := not_moves hm
    exact .inl ⟨rfl, hd, hphase'.symm.trans hph, hs.symm.trans hp, hr ▸ hlt⟩

theorem Served.store (h : w.Served)
    (hc : changes w.stored (w.stored.write status) = false) : (w.store status).Served := by
  obtain ⟨t, ht, hlt⟩ := h
  exact ⟨t, ht, (store_since_of_not_changes hc).symm ▸ hlt⟩

theorem Follows.store (h : Follows w p loop) (hr : p.lastRead < w.clock) :
    Follows (w.store status) (p.told w.stored (w.stored.write status))
      (loop.notify (w.stored.write status)) where
  awaits := .inr (Loop.notify_ne_watching_nil _ _)
  queued := by
    intro v hv
    rcases Loop.mem_queue_notify hv with hv | rfl
    · exact mem_cons_of_mem _ (h.queued v hv)
    · exact mem_cons_self
  fresh := by
    intro hl he v hv hs
    obtain ⟨hm, he⟩ := store_entered_lt hr he
    have hph : (w.stored.write status).phase = w.stored.phase := (not_moves hm).1
    rcases mem_cons.mp hv with rfl | hv
    · rfl
    · have hco : loop ≠ .connecting := fun hc => hl (Loop.notify_eq_connecting.mpr hc)
      exact (h.fresh hco he v hv hs).trans hph.symm
  startup := h.startup
  started_le := h.started_le
  nodup := h.nodup
  past := h.past

theorem Waits.store (h : Waits w p loop) (hr : p.lastRead < w.clock)
    (hp : w.process = some p) (hco : p.control = .waiting loop) :
    Waits (w.store status) (p.told w.stored (w.stored.write status))
      (loop.notify (w.stored.write status)) where
  toFollows := h.toFollows.store hr
  observed := by
    intro hsaw
    obtain ⟨hsaw, hl⟩ := Process.told_sawLeft hsaw
    rcases h.observed hsaw with ha | ⟨hph, hse⟩
    · exact .inl ha
    · have hch : changes w.stored (w.stored.write status) = false := by
        rw [Bool.eq_false_iff]
        exact fun hc => hl hc hph
      have hm := (not_changes hch).1
      exact .inr ⟨(not_moves hm).1.trans hph, Served.store hse hch⟩
  unread := by
    intro ha hph hsi
    obtain ⟨hch, hsi⟩ := store_since_lt hr hsi
    have hsa := (not_moves (not_changes hch).1).1
    exact h.unread ha (hsa.symm.trans hph) hsi
  overlapped := by
    intro s hs
    rcases Overlapped.of_store hs with ⟨hch, hs⟩ | hserv
    · rcases h.overlapped s hs with hst | hse | hf
      · exact .inl ((store_since_of_not_changes hch).symm ▸ hst)
      · exact .inr (.inl (Served.store hse hch))
      · exact .inr (.inr hf)
    · simp [hp, hco, Control.serving] at hserv
  served := by
    intro hmem hph
    have hlt := h.past _ hmem
    obtain ⟨hm, -⟩ := store_entered_lt hr hlt
    rw [store_entered_of_not_moves hm] at hmem
    exact h.served hmem ((not_moves hm).1.symm.trans hph)

theorem Works.store (h : Works w p run servedRound loop) (hr : p.lastRead < w.clock)
    (hp : w.process = some p) (hco : p.control = .running run servedRound loop) :
    Works (w.store status) (p.told w.stored (w.stored.write status)) run servedRound
      (loop.notify (w.stored.write status)) where
  toFollows := h.toFollows.store hr
  start := h.start
  reported := h.reported
  observed := by
    intro hsa
    obtain ⟨hsa, hl⟩ := Process.told_sawLeft hsa
    obtain ⟨hph, hsi⟩ := h.observed hsa
    have hch : changes w.stored (w.stored.write status) = false := by
      rw [Bool.eq_false_iff]
      exact fun hc => hl hc hph
    have hm := (not_changes hch).1
    exact ⟨(not_moves hm).1.trans hph, (store_since_of_not_changes hch).symm ▸ hsi⟩
  overlapped := by
    intro s hs
    rcases Overlapped.of_store hs with ⟨hch, hs⟩ | hserv
    · have hsi := store_since_of_not_changes hch
      rcases h.overlapped s hs with hstd | hst | hse
      · exact .inl (hsi.symm ▸ hstd)
      · exact .inr (.inl (hsi.symm ▸ hst))
      · exact .inr (.inr hse)
    · -- The write that makes the change comes during this `Run`.
      have hse : some servedRound = some s := by
        simpa [hp, hco, Control.serving] using hserv
      exact .inr (.inr (some.inj hse))
  entry_lt := h.entry_lt
  entry := by
    cases hm : moves w.stored (w.stored.write status) with
    | true =>
      right
      have hst := h.start
      have hen : (w.store status).entered = w.clock := by simp [World.store, hm]
      rw [hen]
      omega
    | false =>
      rw [store_entered_of_not_moves hm]
      exact h.entry.imp_left fun he => ⟨he.1, (not_moves hm).2.trans he.2⟩
  new := h.new

theorem Boots.store (h : Boots w p run) (hp : w.process = some p) (hco : p.control = .bootstrap run)
    :
    Boots (w.store status) (p.told w.stored (w.stored.write status)) run where
  start := h.start
  lastRead := h.lastRead
  entry_lt := h.entry_lt
  reported := h.reported
  idle := h.idle
  sawLeft := by simp [Process.told, h.sawLeft]
  successes := h.successes
  overlapped := by
    intro s hs
    cases hc : changes w.stored (w.stored.write status) with
    | true => simp [World.store, hc, hp, hco, Control.serving] at hs
    | false =>
      rw [store_since_of_not_changes hc]
      simp only [World.store, hc, Bool.false_eq_true, if_false] at hs
      exact h.overlapped s hs

theorem World.Inv.store (h : w.Inv) : (w.store status).Inv where
  entered_le := by
    have hle := h.entered_le
    have hlt := h.since_lt
    cases hch : changes w.stored (w.stored.write status) with
    | true =>
      have hs : (w.store status).since = w.clock := by simp [World.store, hch]
      have he : (w.store status).entered ≤ w.clock := by
        simp only [World.store]
        split_ifs <;> omega
      omega
    | false =>
      rw [store_since_of_not_changes hch, store_entered_of_not_moves (not_changes hch).1]
      exact hle
  since_lt := by
    have hlt := h.since_lt
    simp only [World.store]
    split_ifs <;> omega
  stored_mem := mem_cons_self
  versions_le := by
    intro v hv
    have hn : (w.stored.write status).resourceVersion = w.stored.resourceVersion + 1 := rfl
    have hg : v.resourceVersion ≤ (w.stored.write status).resourceVersion := by
      rcases mem_cons.mp hv with rfl | hv
      · exact le_rfl
      · have hle := h.versions_le v hv
        omega
    exact hg
  process := by
    intro q hq
    obtain ⟨p, hp, rfl⟩ := map_eq_some_iff.mp hq
    obtain ⟨hu, hr, hso⟩ := h.process p hp
    refine ⟨hu, Nat.lt_succ_of_lt hr, ?_⟩
    have hco : (p.told w.stored (w.stored.write status)).control =
        p.control.notify (w.stored.write status) := rfl
    rw [hco]
    cases hc : p.control with rw [hc] at hso
    | bootstrap run =>
      exact Boots.store hso hp hc
    | waiting loop =>
      exact Waits.store hso hr hp hc
    | running run servedRound loop =>
      exact Works.store hso hr hp hc

end Store

/-! ### Steps of the process -/

variable {before : Loop}

section Callback

variable {w : World} {p : Process} {loop : Loop} {event : Option Object}

theorem Follows.of_read (hinv : w.Inv) (hr : p.lastRead = w.clock)
    (hs : w.stored.resourceVersion ≤ p.memory.seenResourceVersion)
    (hq : ∀ v ∈ loop.queue, v ∈ w.versions) (hst : ∃ t, w.startup = some t ∧ p.started ≤ t)
    (hstd : p.started ≤ w.clock) (hnd : p.successes.Nodup)
    (hp : ∀ e ∈ p.successes, e < w.clock) : Follows w p loop where
  awaits := .inl (hr ▸ hinv.since_lt)
  queued := hq
  fresh := by
    intro _ _ v hv hlt
    have hle := hinv.versions_le v hv
    omega
  startup := hst
  started_le := hr ▸ hstd
  nodup := hnd
  past := hr ▸ hp

theorem Process.callback_eq (hu : p.dpuUID = some w.stored.uid) :
    p.callback w event loop =
      if w.stored.phase = .dpuConfig ∧ (observe p.memory w.stored event).reconfig = .armed then
        { p with
          memory := observe p.memory w.stored event
          lastRead := w.clock
          sawLeft := p.sawLeft || observesLeft p.memory w.stored event
          control := .running ⟨w.clock, w.entered, false⟩ w.stored.round loop
          failed := false }
      else { p with
          memory := observe p.memory w.stored event
          lastRead := w.clock
          sawLeft := p.sawLeft || observesLeft p.memory w.stored event
          control := .waiting loop } := by
  unfold Process.callback reconcileOwnedDPU maybeReconfigRun
  simp only [hu, ne_eq, not_true_eq_false, and_false, if_false]
  by_cases hr : w.stored.phase = .dpuConfig ∧
      (observe p.memory w.stored event).reconfig = .armed
  · simp only [if_pos hr]
  · simp only [if_neg hr]

theorem news_eq_some {m : Memory} {dpu e : Object} (h : news m dpu event = some e) :
    event = some e ∧ m.seenResourceVersion < e.resourceVersion := by
  unfold news at h
  obtain ⟨he, hn⟩ := filter_eq_some_iff.mp h
  simp only [Bool.and_eq_true, decide_eq_true_eq] at hn
  exact ⟨he, hn.2⟩

/-- The DPU is not where a `Run` has already served it when the callback runs the operations. -/
theorem Waits.entered_not_mem (h : Waits w p before)
    (he : ∀ e, event = some e → before ≠ .connecting ∧ e ∈ w.versions)
    (hph : w.stored.phase = .dpuConfig) (ha : (observe p.memory w.stored event).reconfig = .armed) :
    w.entered ∉ p.successes := by
  intro hmem
  have hi := h.served hmem hph
  rcases (observe_reconfig _ _ _).mp ha with hb | hl
  · rw [hi] at hb
    cases hb
  · simp only [observesLeft, Bool.or_eq_true, hph] at hl
    rcases hl with hl | hl
    · -- The event would be a version after the one in which the DPU was read.
      cases hn : news p.memory w.stored event with
      | none => simp [hn] at hl
      | some e =>
        obtain ⟨hev, hlt⟩ := news_eq_some hn
        obtain ⟨hc, hv⟩ := he e hev
        have hs := h.fresh hc (h.past _ hmem) e hv hlt
        rw [hn, any_some] at hl
        exact ne_dpuConfig_of_left hl (hs.trans hph)
    · cases hl

theorem Waits.callback (hinv : w.Inv) (hu : p.dpuUID = some w.stored.uid)
    (hre : p.lastRead < w.clock) (h : Waits w p before)
    (hev : ∀ e, event = some e → before ≠ .connecting ∧ e ∈ w.versions)
    (hq : ∀ v ∈ loop.queue, v ∈ w.versions) :
    (p.callback w event loop).Sound w (p.callback w event loop).control := by
  have hp : ∀ e ∈ p.successes, e < w.clock := fun e he => (h.past e he).trans hre
  have hstd : p.started ≤ w.clock := h.started_le.trans hre.le
  have hse := le_observe_seen p.memory w.stored event
  rw [Process.callback_eq hu]
  by_cases hru : w.stored.phase = .dpuConfig ∧
      (observe p.memory w.stored event).reconfig = .armed
  · rw [if_pos hru]
    exact {
      toFollows := Follows.of_read hinv rfl hse hq h.startup hstd h.nodup hp
      start := rfl
      reported := nofun
      observed := fun _ => ⟨hru.1, hinv.since_lt⟩
      overlapped := fun _ _ => .inr (.inl hinv.since_lt)
      entry_lt := hinv.entered_le.trans_lt hinv.since_lt
      entry := .inl ⟨rfl, rfl⟩
      new := h.entered_not_mem hev hru.1 hru.2 }
  · rw [if_neg hru]
    exact {
      toFollows := Follows.of_read hinv rfl hse hq h.startup hstd h.nodup hp
      observed := by
        intro hs
        rcases Bool.or_eq_true _ _ ▸ hs with hs | hl
        · rcases h.observed hs with ha | hser
          · exact .inl ((observe_reconfig _ _ _).mpr (.inl ha))
          · exact .inr hser
        · exact .inl ((observe_reconfig _ _ _).mpr (.inr hl))
      unread := fun ha hph _ => absurd ⟨hph, ha⟩ hru
      overlapped := h.overlapped
      served := by
        intro _ hph
        cases hst : (observe p.memory w.stored event).reconfig with
        | idle => rfl
        | armed => exact absurd ⟨hph, hst⟩ hru }

/-- The callback goes on after a `Run` that reported its startup time. -/
theorem Works.resume (hinv : w.Inv) (hre : p.lastRead < w.clock)
    (h : Works w p run servedRound loop) (hrep : run.reported = true) :
    (p.resume w run servedRound loop).Sound w (p.resume w run servedRound loop).control := by
  have hst := h.start
  have hen := h.entry_lt
  have hp : ∀ e ∈ run.entry :: p.successes, e < w.clock :=
    forall_mem_cons.mpr ⟨by omega, fun e he => (h.past e he).trans hre⟩
  have hnd : (run.entry :: p.successes).Nodup := nodup_cons.mpr ⟨h.new, h.nodup⟩
  have hstd : p.started ≤ w.clock := h.started_le.trans hre.le
  have hse : w.since < run.start → w.Served := fun hlt => ⟨_, h.reported hrep, hlt⟩
  unfold Process.resume afterRun
  by_cases hnewe : newerRoundPending w.stored servedRound = true
  · simp only [if_pos hnewe]
    simp only [newerRoundPending, Bool.and_eq_true, decide_eq_true_eq, beq_iff_eq] at hnewe
    obtain ⟨⟨-, hro⟩, hph⟩ := hnewe
    have hn : w.entered ∉ run.entry :: p.successes := by
      rw [mem_cons, not_or]
      rcases h.entry with ⟨-, hsa⟩ | hle
      · omega
      · exact ⟨by omega, fun hmem => by have := h.past _ hmem; omega⟩
    exact {
      toFollows := Follows.of_read hinv rfl (le_max_right _ _) h.queued h.startup hstd hnd
        hp
      start := rfl
      reported := nofun
      observed := fun _ => ⟨hph, hinv.since_lt⟩
      overlapped := fun _ _ => .inr (.inl hinv.since_lt)
      entry_lt := hinv.entered_le.trans_lt hinv.since_lt
      entry := .inl ⟨rfl, rfl⟩
      new := hn }
  · simp only [if_neg hnewe]
    have ho : ∀ s, w.Overlapped s → w.since < p.started ∨ w.Served ∨ false = true := by
      rintro s hs
      rcases h.overlapped s hs with hlt | hlt | rfl
      · exact .inl hlt
      · exact .inr (.inl (hse hlt))
      · obtain ⟨-, hph, hpr, hro⟩ := hs
        exact absurd (by simp [newerRoundPending, hph, hpr, hro]) hnewe
    by_cases hl : phaseLeftDPUConfig w.stored.phase = true
    · simp only [if_pos hl]
      exact {
        toFollows := Follows.of_read hinv rfl (le_max_right _ _) h.queued h.startup hstd
          hnd hp
        observed := fun _ => .inl rfl
        unread := fun _ hph => absurd hph (ne_dpuConfig_of_left hl)
        overlapped := ho
        served := fun _ hph => absurd hph (ne_dpuConfig_of_left hl) }
    · simp only [if_neg hl]
      exact {
        toFollows := Follows.of_read hinv rfl (le_max_right _ _) h.queued h.startup hstd
          hnd hp
        observed := by
          intro hsaw
          have hb : p.sawLeft = true := by simpa [hl] using hsaw
          obtain ⟨hph, hlt⟩ := h.observed hb
          exact .inr ⟨hph, hse hlt⟩
        unread := nofun
        overlapped := ho
        served := fun _ _ => rfl }

/-- After a `Run` with an error the agent stays armed. -/
theorem Works.fail (h : Works w p run servedRound loop) :
    Waits w { p with
        memory := { p.memory with reconfig := .armed }
        control := .waiting loop
        failed := true } loop where
  awaits := h.awaits
  queued := h.queued
  fresh := h.fresh
  startup := h.startup
  started_le := h.started_le
  nodup := h.nodup
  past := h.past
  observed := fun _ => .inl rfl
  unread := fun _ _ _ => rfl
  overlapped := fun _ _ => .inr (.inr rfl)
  served := by
    intro hmem
    have hp := h.past _ hmem
    have hst := h.start
    rcases h.entry with ⟨he, -⟩ | hle
    · exact absurd (he ▸ hmem) h.new
    · exfalso
      have hlt : w.entered < p.lastRead := hp
      omega

theorem Boots.finish (h : Boots w p run) (hr : run.reported = true) :
    Waits w { p with control := .waiting .connecting, successes := run.entry :: p.successes }
      .connecting where
  awaits := .inr (by simp)
  queued := by simp [Loop.queue]
  fresh := fun hc => absurd rfl hc
  startup := ⟨_, h.reported hr, h.start.ge⟩
  started_le := h.lastRead.ge
  nodup := by simp [h.successes]
  past := by
    intro e he
    have hen := h.entry_lt
    have hl := h.lastRead
    simp only [h.successes, mem_cons, not_mem_nil, or_false] at he
    subst he
    exact hl.symm ▸ hen
  observed := fun hsa => by
    have hn := h.sawLeft
    simp only at hsa
    rw [hn] at hsa
    cases hsa
  unread := fun ha => by
    have hi := h.idle
    simp only at ha
    rw [hi] at ha
    cases ha
  overlapped := fun s hs => .inl (h.overlapped s hs.1)
  served := fun _ _ => h.idle

end Callback

section Steps

variable {w w' : World} {p : Process}

theorem Follows.next (h : Follows w p loop) (q : Option Process) : Follows (w.next q) p loop :=
  ⟨h.awaits, h.queued, h.fresh, h.startup, h.started_le, h.nodup, h.past⟩

theorem Process.Sound.next {c : Control} (h : p.Sound w c) (q : Option Process) :
    p.Sound (w.next q) c := by
  cases c with
  | bootstrap run =>
    have h : Boots w p run := h
    exact Boots.mk h.start h.lastRead h.entry_lt h.reported h.idle h.sawLeft h.successes
      h.overlapped
  | waiting loop =>
    have h : Waits w p loop := h
    exact Waits.mk (h.toFollows.next q) h.observed h.unread h.overlapped h.served
  | running run servedRound loop =>
    have h : Works w p run servedRound loop := h
    exact Works.mk (h.toFollows.next q) h.start h.reported h.observed h.overlapped h.entry_lt
      h.entry h.new

theorem World.Inv.next (h : w.Inv) {q : Option Process}
    (hq : ∀ p, q = some p →
      p.dpuUID = some w.stored.uid ∧ p.lastRead ≤ w.clock ∧ p.Sound w p.control) :
    (w.next q).Inv where
  entered_le := h.entered_le
  since_lt := Nat.lt_succ_of_lt h.since_lt
  stored_mem := h.stored_mem
  versions_le := h.versions_le
  process := by
    intro p hp
    obtain ⟨hu, hr, hs⟩ := hq p hp
    exact ⟨hu, Nat.lt_succ_of_le hr, hs.next q⟩

theorem Process.callback_frame (w : World) (p : Process) (event : Option Object) (loop : Loop) :
    (p.callback w event loop).dpuUID = p.dpuUID ∧ (p.callback w event loop).lastRead = w.clock := by
  unfold Process.callback
  dsimp only
  split <;> exact ⟨rfl, rfl⟩

theorem Process.resume_frame (w : World) (p : Process) (run : Run) (servedRound : ℕ) (loop : Loop) :
    (p.resume w run servedRound loop).dpuUID = p.dpuUID ∧
      (p.resume w run servedRound loop).lastRead = w.clock := by
  unfold Process.resume
  dsimp only
  split <;> exact ⟨rfl, rfl⟩

theorem newProcess_sound (h : w.Inv) : (newProcess w).Sound w (newProcess w).control :=
  Boots.mk rfl rfl (h.entered_le.trans_lt h.since_lt) nofun rfl rfl rfl
    fun _ _ => h.since_lt

/-- The step of a process that reports its startup time, before the write. -/
theorem World.Inv.report (h : w.Inv) (hp : w.process = some p) {c : Control}
    (hc : (p.control = .bootstrap run ∧ c = .bootstrap { run with reported := true }) ∨
      ∃ servedRound loop, p.control = .running run servedRound loop ∧
        c = .running { run with reported := true } servedRound loop) :
    World.Inv { w with startup := some run.start, process := some { p with control := c } } where
  entered_le := h.entered_le
  since_lt := h.since_lt
  stored_mem := h.stored_mem
  versions_le := h.versions_le
  process := by
    intro q hq
    cases hq
    obtain ⟨hu, hre, hs⟩ := h.process p hp
    refine ⟨hu, hre, ?_⟩
    rcases hc with ⟨hco, rfl⟩ | ⟨servedRound, loop, hco, rfl⟩
    · rw [hco] at hs
      have hb : Boots w p run := hs
      exact Boots.mk hb.start hb.lastRead hb.entry_lt (fun _ => rfl) hb.idle hb.sawLeft
        hb.successes hb.overlapped
    · rw [hco] at hs
      have hr : Works w p run servedRound loop := hs
      have hst : p.started ≤ run.start := hr.start ▸ hr.started_le
      exact Works.mk
        ⟨hr.awaits, hr.queued, hr.fresh, ⟨_, rfl, hst⟩, hr.started_le, hr.nodup, hr.past⟩
        hr.start (fun _ => rfl) hr.observed hr.overlapped hr.entry_lt hr.entry hr.new

theorem World.Inv.nextProcess (h : w.Inv) (hu : p.dpuUID = some w.stored.uid)
    (hr : p.lastRead ≤ w.clock) (hs : p.Sound w p.control) : (w.next (some p)).Inv := by
  refine h.next fun q hq => ?_
  cases hq
  exact ⟨hu, hr, hs⟩

theorem World.Inv.callback (h : w.Inv) (hp : w.process = some p) {event : Option Object}
    (hc : p.control = .waiting before)
    (he : ∀ v, event = some v → before ≠ .connecting ∧ v ∈ w.versions)
    (hq : ∀ v ∈ loop.queue, v ∈ w.versions) : (w.next (some (p.callback w event loop))).Inv := by
  obtain ⟨hui, hr, hs⟩ := h.process p hp
  rw [hc] at hs
  obtain ⟨hu, hl⟩ := Process.callback_frame w p event loop
  exact h.nextProcess (hu.trans hui) hl.le
    (Waits.callback h hui hr hs he hq)

theorem Boots.restartPipeline (h : Boots w p run) :
    Boots w { p with control := .bootstrap { run with reported := false } }
      { run with reported := false } :=
  Boots.mk h.start h.lastRead h.entry_lt nofun h.idle h.sawLeft h.successes
    h.overlapped

theorem Works.restartPipeline (h : Works w p run servedRound loop) :
    Works w { p with control := .running { run with reported := false } servedRound loop }
      { run with reported := false } servedRound loop :=
  Works.mk ⟨h.awaits, h.queued, h.fresh, h.startup, h.started_le, h.nodup, h.past⟩ h.start
    nofun h.observed h.overlapped h.entry_lt h.entry h.new

theorem Waits.turn {after : Loop} (h : Waits w p before) (ha : after ≠ .watching [])
    (hq : ∀ v ∈ after.queue, v ∈ w.versions) (hf : after = .connecting ∨ before ≠ .connecting) :
    Waits w { p with control := .waiting after } after := by
  refine Waits.mk ⟨.inr ha, hq, fun hne => ?_, h.startup, h.started_le, h.nodup, h.past⟩
    h.observed h.unread h.overlapped h.served
  rcases hf with hc | hb
  · exact absurd hc hne
  · exact h.fresh hb

theorem World.Inv.act (h : w.Inv) (hp : w.process = some p) {e : Event}
    (ha : w.act p e = some w') : w'.Inv := by
  obtain ⟨hui, hr, hs⟩ := h.process p hp
  have hn : (w.next none).Inv := h.next fun q hq => by cases hq
  cases e with simp only [World.act] at ha
  | write status => cases ha
  | start => cases ha
  | kill =>
    cases ha
    exact hn
  | report =>
    cases hc : p.control with
    | bootstrap run =>
      simp only [hc, some.injEq] at ha
      subst ha
      exact (h.report hp (.inl ⟨hc, rfl⟩)).store
    | waiting loop => simp [hc] at ha
    | running run servedRound loop =>
      simp only [hc, some.injEq] at ha
      subst ha
      exact (h.report hp (.inr ⟨servedRound, loop, hc, rfl⟩)).store
  | restartPipeline =>
    cases hc : p.control with
    | bootstrap run =>
      simp only [hc, some.injEq] at ha
      subst ha
      rw [hc] at hs
      exact h.nextProcess hui hr.le (Boots.restartPipeline hs)
    | waiting loop => simp [hc] at ha
    | running run servedRound loop =>
      simp only [hc, some.injEq] at ha
      subst ha
      rw [hc] at hs
      exact h.nextProcess hui hr.le (Works.restartPipeline hs)
  | finish =>
    cases hc : p.control with
    | bootstrap run =>
      simp only [hc] at ha
      split_ifs at ha with hre
      cases ha
      rw [hc] at hs
      exact h.nextProcess hui hr.le (Boots.finish hs hre)
    | waiting loop => simp [hc] at ha
    | running run servedRound loop =>
      simp only [hc] at ha
      split_ifs at ha with hre
      cases ha
      rw [hc] at hs
      obtain ⟨hu, hl⟩ := Process.resume_frame w p run servedRound loop
      exact h.nextProcess (hu.trans hui) hl.le (Works.resume h hr hs hre)
  | fail =>
    cases hc : p.control with
    | bootstrap run =>
      simp only [hc, some.injEq] at ha
      exact ha ▸ hn
    | waiting loop => simp [hc] at ha
    | running run servedRound loop =>
      simp only [hc, some.injEq] at ha
      subst ha
      rw [hc] at hs
      exact h.nextProcess hui hr.le (Works.fail hs)
  | trigger =>
    split at ha
    · rename_i hc
      cases ha
      exact h.callback hp hc (fun v hv => by cases hv) (by simp [Loop.queue])
    · cases ha
  | openWatch =>
    split at ha
    · rename_i hc
      cases ha
      rw [hc] at hs
      exact h.nextProcess hui hr.le (Waits.turn hs (by simp)
        (by simpa [Loop.queue] using h.stored_mem) (.inr (by simp)))
    · cases ha
  | deliver =>
    split at ha
    · rename_i v queue hc
      cases ha
      rw [hc] at hs
      have hw : Waits w p (.watching (v :: queue)) := hs
      refine h.callback hp hc ?_ fun u hu => hw.queued u (mem_cons_of_mem _ hu)
      intro u hu
      cases hu
      exact ⟨by simp, hw.queued v mem_cons_self⟩
    · cases ha
  | redeliver v =>
    split at ha
    · rename_i queue hc
      split_ifs at ha with hmem
      cases ha
      rw [hc] at hs
      have hw : Waits w p (.watching queue) := hs
      refine h.callback hp hc ?_ hw.queued
      intro u hu
      cases hu
      exact ⟨by simp, hmem⟩
    · cases ha
  | closeWatch =>
    split at ha
    · rename_i queue hc
      cases ha
      rw [hc] at hs
      exact h.nextProcess hui hr.le (Waits.turn hs (by simp) (by simp [Loop.queue])
        (.inl rfl))
    · cases ha

theorem World.Inv.step {e : Event} (h : w.Inv) (hs : Step w e w') : w'.Inv := by
  have ha : (w.process.bind fun p => w.act p e) = some w' → w'.Inv := by
    intro hb
    obtain ⟨p, hp, ha⟩ := bind_eq_some_iff.mp hb
    exact h.act hp ha
  cases e with
  | write status =>
    cases hs
    exact h.store
  | start =>
    simp only [Step, World.exec] at hs
    split_ifs at hs
    cases hs
    exact h.nextProcess rfl le_rfl (newProcess_sound h)
  | _ => exact ha hs

end Steps

theorem world_inv {w : World} (h : Reachable Init Step w) : w.Inv := by
  refine h.invariant (fun w hw => ?_) fun w e w' _ hinv hs => hinv.step hs
  refine ⟨hw.entered_le, hw.since_lt, by simp [hw.versions], by simp [hw.versions], ?_⟩
  intro p hp
  rw [hw.process] at hp
  cases hp

/-- The watch loop has handled every event and waits for the next one. -/
def Process.Quiet (p : Process) : Prop := p.control = .waiting (.watching [])

instance (p : Process) : Decidable p.Quiet :=
  inferInstanceAs (Decidable (p.control = .waiting (.watching [])))

/-- The DPU is in DPU Config for a round in progress. -/
def World.Asked (w : World) : Prop :=
  w.stored.phase = .dpuConfig ∧ w.stored.inProgress = true

theorem Waits.served_of_quiet {w : World} {p : Process} (h : Waits w p (.watching []))
    (has : w.Asked) (hf : p.failed = false)
    (hk : w.since < p.started ∨ p.sawLeft = true ∨
      ∃ s, w.during = some s ∧ s < w.stored.round) : w.Served := by
  have hr : w.since < p.lastRead := h.awaits.resolve_right fun hne => hne rfl
  rcases hk with hst | hs | ⟨s, hd, hlt⟩
  · obtain ⟨t, ht, hle⟩ := h.startup
    exact ⟨t, ht, hst.trans_le hle⟩
  · rcases h.observed hs with ha | ⟨-, hse⟩
    · have := h.unread ha has.1 hr
      simp [hf] at this
    · exact hse
  · rcases h.overlapped s ⟨hd, has.1, has.2, hlt⟩ with hst | hse | hc
    · obtain ⟨t, ht, hle⟩ := h.startup
      exact ⟨t, ht, hst.trans_le hle⟩
    · exact hse
    · simp [hf] at hc

/-- Two `Run`s of a process that end without an error have not started while the DPU was in one
phase for one round. And when the watch loop waits, the DPU is in DPU Config for a round in
progress and no in-place `Run` has just failed, the last startup time belongs to a `Run` that
started after the DPU came there; this takes a process that started later, or that has observed a
phase after DPU Config since the DPU was there before, or that was serving a lower round when the
DPU came. -/
theorem agent_serves_round {w : World} {p : Process} (h : Reachable Init Step w)
    (hp : w.process = some p) :
    p.successes.Nodup ∧
      (p.Quiet → w.Asked → p.failed = false →
        (w.since < p.started ∨ p.sawLeft = true ∨ ∃ s, w.during = some s ∧ s < w.stored.round) →
        w.Served) := by
  obtain ⟨-, -, hs⟩ := (world_inv h).process p hp
  cases hc : p.control with rw [hc] at hs
  | bootstrap run =>
    have hb : Boots w p run := hs
    exact ⟨by simp [hb.successes], fun hq => by simp [Process.Quiet, hc] at hq⟩
  | running run servedRound loop =>
    have hr : Works w p run servedRound loop := hs
    exact ⟨hr.nodup, fun hq => by simp [Process.Quiet, hc] at hq⟩
  | waiting loop =>
    have hw : Waits w p loop := hs
    refine ⟨hw.nodup, fun hq ha hf hk => ?_⟩
    have hl : loop = .watching [] := by simpa [Process.Quiet, hc] using hq
    exact Waits.served_of_quiet (hl ▸ hw) ha hf hk

/-! ## Two runs -/

def sampleStatus (phase : Phase) (reconfig : Option DPUReconfigStatus) : DPUStatus where
  phase := phase
  previousPhase := some .dpuConfig
  ready := none
  reconfiguring := none
  failed := false
  postProvisioningDPUConfig := none
  postProvisioningNodeEffect := none
  agentLastStartupTime := none
  agentStatus := none
  outdated := false
  dpuReconfig := reconfig

/-- A DPU before its agent starts. -/
def sampleWorld (phase : Phase) (reconfig : Option DPUReconfigStatus) : World :=
  let o : Object := ⟨7, ⟨"dpu-a", 1, 0, false, sampleStatus phase reconfig⟩⟩
  { clock := 2
    stored := o
    versions := [o]
    entered := 0
    since := 1
    during := none
    startup := none
    process := none }

theorem sampleWorld_init (phase : Phase) (reconfig : Option DPUReconfigStatus) :
    Init (sampleWorld phase reconfig) :=
  ⟨Nat.zero_le 1, Nat.lt_succ_self 1, rfl, rfl⟩

def firstRound : Option DPUReconfigStatus := some ⟨some true, 1, 0⟩

/-- What is seen at the end of a run. -/
structure Outlook where
  quiet : Bool
  failed : Bool
  sawLeft : Bool
  successes : List ℕ
  phase : Phase
  inProgress : Bool
  since : ℕ
  startup : Option ℕ
  deriving DecidableEq

def outlook (w : World) : Option Outlook :=
  w.process.map fun p =>
    ⟨decide p.Quiet, p.failed, p.sawLeft, p.successes, w.stored.phase, w.stored.inProgress,
      w.since, w.startup⟩

/-- The agent of a Ready DPU observes Node Effect in an event that comes after the DPU has returned
to DPU Config, and runs the operations again. -/
def servedRun : List Event :=
  [.start, .report, .finish, .trigger, .openWatch, .deliver,
    .write (sampleStatus .nodeEffect firstRound), .write (sampleStatus .dpuConfig firstRound),
    .deliver, .report, .finish, .deliver, .deliver]

theorem node_effect_served :
    ∃ w p, Reachable Init Step w ∧ w.process = some p ∧ p.Quiet ∧ w.Asked ∧ p.failed = false ∧
      p.sawLeft = true ∧ p.successes.length = 2 ∧ p.successes.Nodup ∧ w.Served := by
  obtain ⟨w, hr, hse⟩ := Reachable.exists_of_run (sampleWorld_init .ready none) World.exec servedRun
    outlook (some ⟨true, false, true, [9, 0], .dpuConfig, true, 9, some 10⟩) (by decide +kernel)
  simp only [outlook, Outlook.mk.injEq, map_eq_some_iff, decide_eq_true_eq] at hse
  obtain ⟨p, hp, hq, hf, hs, hsu, hph, hpr, -⟩ := hse
  obtain ⟨hnd, hser⟩ := agent_serves_round hr hp
  exact ⟨w, p, hr, hp, hq, ⟨hph, hpr⟩, hf, hs, by simp [hsu],
    hnd, hser hq ⟨hph, hpr⟩ hf (.inr (.inl hs))⟩

/-- What the DPU controller sees when a host reboot is done. -/
def rebootDone : Surroundings where
  now := 0
  zeroTrust := false
  effectApplied := true
  node := .ok true
  metadataDiffers := false
  applyOnLabelChange := false
  reboot := .complete true
  hostNetworkReady := true
  clusterConfigured := true
  servicesReady := true
  maintenanceGone := false
  removalTimedOut := false
  installed := .osInstalling

/-- The host is rebooted for the round: the new process starts while the DPU is in Rebooting, and
the DPU returns to DPU Config during the bootstrap `Run`. -/
def rebootRun : List Event :=
  [.start, .report,
    .write (rebooting rebootDone
      ⟨"dpu-a", 2, 0, false, reportStartup 3 (sampleStatus .rebooting firstRound)⟩),
    .finish, .trigger, .openWatch, .deliver]

/-- The callback starts no `Run` when a DPU returns from Rebooting, and the startup time stays that
of the bootstrap `Run`, which started before the return. -/
theorem reboot_return_not_served :
    ¬ ∀ (w : World) (p : Process), Reachable Init Step w → w.process = some p →
      p.successes.Nodup ∧ (p.Quiet → w.Asked → w.Served) := by
  intro hc
  obtain ⟨w, hr, hs⟩ := Reachable.exists_of_run (sampleWorld_init .rebooting firstRound) World.exec
    rebootRun outlook (some ⟨true, false, false, [0], .dpuConfig, true, 4, some 2⟩)
    (by decide +kernel)
  simp only [outlook, Outlook.mk.injEq, map_eq_some_iff, decide_eq_true_eq] at hs
  obtain ⟨p, hp, hq, -, -, -, hph, hpr, hsi, hst⟩ := hs
  obtain ⟨t, ht, hlt⟩ := (hc w p hr hp).2 hq ⟨hph, hpr⟩
  rw [hst] at ht
  cases ht
  omega

end DocaPlatform.AgentRounds
