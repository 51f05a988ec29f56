import DocaPlatform.InterfaceDrain
import DocaPlatform.LabelSelectors
import DocaPlatform.ObjectStore

/-!
# From a ServiceInterface to an entry of NodeServiceInterfaces

A ServiceInterfaceSet whose interface on a node was served by a ServiceInterface moves to an entry
of the NodeServiceInterfaces object of the node. Both stand for the same OVS port. A pass of the
set writes the entry, and deletes the ServiceInterface once the entry is ready; the sfc-controller
reconciles both objects from its cache, which lags behind, and sweeps ports that no object asks
for. What is followed is whether any of these steps deletes the port.
-/
namespace DocaPlatform.LegacyHandoff

open NodeServiceInterfaces LabelSelectors ObjectStore Runs Option List
open InterfaceDrain (NSI Plan plan applyNSIEntry SfcCall sfcDispatch Answers addInterfaces)

/-! ## The set and its objects -/

def serviceInterfaceSetNameLabel : String := "svc.dpu.nvidia.com/serviceinterfaceset-name"

def serviceInterfaceSetNamespaceLabel : String := "svc.dpu.nvidia.com/serviceinterfaceset-namespace"

/-- A set without a virtual network, with the template it keeps. Names of Kubernetes objects are
not empty, and a namespace holds no underscore. -/
structure MigratedSet where
  ns : String
  name : String
  labels : Labels
  noopRemoval : Bool
  definition : Definition
  ns_ne : ns ≠ ""
  name_ne : name ≠ ""
  dns : '_' ∉ ns.toList

namespace MigratedSet

variable (set : MigratedSet)

/-- The labels by which a child or an entry says which set it belongs to. -/
def ownerLabels : Labels :=
  [(serviceInterfaceSetNameLabel, set.name), (serviceInterfaceSetNamespaceLabel, set.ns)]

/-- `interfaceEntryName`. -/
def entryName : String := set.ns ++ "_" ++ set.name

/-- The template with the labels that `buildInterfaceEntry` merges over its own. -/
def template : Template where
  labels := set.ownerLabels ++ set.labels.filter fun kv =>
    kv.1 ≠ serviceInterfaceSetNameLabel && kv.1 ≠ serviceInterfaceSetNamespaceLabel
  noopRemoval := set.noopRemoval
  definition := set.definition

def entry : InterfaceEntry := buildInterfaceEntry set.entryName set.template

/-- The ServiceInterface of the set on the node, as far as OVS is concerned. Its ports carry its
own key as `dpf-id`. -/
def child (key : String) : InterfaceEntry := buildInterfaceEntry key set.template

end MigratedSet

/-- `GetNamespacedName`, the namespace. -/
def entryNamespace (name : String) : String :=
  if '_' ∈ name.toList then String.ofList (name.toList.takeWhile (· ≠ '_')) else ""

/-- `MatchingLabels`. -/
def selects (lbls labels : Labels) : Bool := lbls.all fun kv => labels.get kv.1 = some kv.2

/-- `HasMatchingNonTerminatingNSIEntry` for the child of the set, on the shard of the node. -/
def hasMatchingNonTerminatingNSIEntry (set : MigratedSet) (shard : Option NSI) : Bool :=
  if set.name = "" || set.ns = "" then false
  else shard.any fun n => n.entry.any fun e =>
    !e.terminating && entryNamespace e.name = set.ns && selects set.ownerLabels e.labels

def isEntryReady (status : Option InterfaceEntryStatus) (entry : InterfaceEntry) : Bool :=
  status.any fun s => s.observedSpecHash = some entry && s.ready

def hashedPatchPortsOwnedBySI : Definition → Bool
  | .patch _ none _ => true
  | _ => false

/-- `desiredOvsPortName`; nothing if it fails. -/
def desiredOvsPortName (e : InterfaceEntry) (resolved : Option String) : Option String :=
  match e.definition with
  | .ovn externalBridge =>
    some (getOVNPatchPortNames sfcBridge (externalBridge.getD ovnBridge)).1
  | .patch peerBridge peerPatchName _ =>
    if peerBridge = "" then none
    else some (getPatchPortNames e.name peerBridge peerPatchName).1
  | d => figureOutName resolved d

/-- `DeleteInterfacesFromOvs`: the ports that stay, and whether it succeeds. -/
def deleteInterfacesFromOvs (e : InterfaceEntry) (a : Answers) (ports : List Port) :
    List Port × Bool :=
  match portsToDelete e a.resolved a.recovered with
  | none => (ports, false)
  | some deleted =>
    (ports.filter (· ∉ deleted.take a.done), a.ok && deleted.length ≤ a.done)

/-- `reconcileEntry`: the ports and the status after it. -/
def reconcileEntry (e : InterfaceEntry) (status : Option InterfaceEntryStatus) (a : Answers)
    (ports : List Port) : List Port × Option InterfaceEntryStatus :=
  let s := ensureEntryStatus status
  if e.terminating then
    if isEntryResourceReleased status e then (ports, some s)
    else
      let r := deleteInterfacesFromOvs e a ports
      if r.2 then (r.1, some { s with resourceReleased := true, observedSpecHash := some e })
      else (r.1, some s)
  else
    let r := addInterfaces e a ports
    (r.1, some { s with ready := r.2, observedSpecHash := some e })

structure ServiceInterface where
  deleting : Bool
  finalizer : Bool
  deriving DecidableEq

inductive PassStep where
  | upsert (plan : Plan)
  | children
  | deleteChild

/-- The next step of a reconcile of the ServiceInterface. -/
inductive SiCall where
  | addFinalizer
  | add
  /-- `reconcileDelete`, before it looks for an entry. -/
  | check
  | teardown
  | unfinalize

/-- Where `removeStalePorts` stands. -/
inductive Sweep where
  | ports (current : List String)
  | legacy (current desired : List String)
  | unwanted (ports : List String)

structure World where
  set : MigratedSet
  /-- Namespace and name of the ServiceInterface. -/
  siKey : String
  /-- The representor of a PF or a VF, when it is found. -/
  representor : String
  si : History (Option ServiceInterface)
  /-- The shard of the node, and how far the cache of the sfc-controller has come. -/
  nsi : History (Option NSI)
  pass : Option PassStep
  sfc : Option SfcCall
  siCall : Option SiCall
  sweep : Option Sweep
  ports : List Port

/-- What the calls for one interface return. -/
structure Outcome where
  found : Bool
  recovered : Option String
  done : ℕ
  ok : Bool

def World.resolved (w : World) (found : Bool) : Option String :=
  if found then some w.representor else none

def World.answers (w : World) (o : Outcome) : Answers :=
  ⟨w.resolved o.found, o.recovered, o.done, o.ok⟩

inductive Event where
  /-- A pass reads some version of the shard, decides on the entry, and writes it. -/
  | passRead (version : ℕ)
  | passApply
  /-- The pass looks for the child and for the entry. `other` is the readiness of an entry of the
  set in another shard of the node, where the map by node holds that one. -/
  | passChildren (child shard : ℕ) (other : Option Bool)
  | passDelete
  | passStop
  /-- `deleteNSIIfEmpty`, by a pass of any set; its preconditions make it one step. -/
  | deleteEmpty
  /-- Other sets add their entries, or remove the last of them. -/
  | otherSets (present : Bool)
  | watch (version : ℕ)
  | restart
  | sfcRead
  | sfcAct (o : Outcome)
  | sfcWrite
  | sfcStop
  | siRead (version : ℕ)
  | siStep (o : Outcome)
  | siStop
  /-- The sweep lists the ports, but those with other owners and the physical ones. -/
  | sweepPorts (skipped : List String)
  | sweepLegacy (version : ℕ) (found : Bool)
  | sweepNSI (found : Bool)
  | sweepDelete (done : ℕ)
  | sweepStop

def World.plan (w : World) (shard : Option NSI) : Plan :=
  InterfaceDrain.plan w.set.entryName ⟨w.set.template, true, false⟩ shard

def World.passApply (w : World) : Option World :=
  match w.pass with
  | some (.upsert .leave) => some { w with pass := some .children }
  | some (.upsert (.apply e)) =>
    some { w with nsi := w.nsi.write (some (applyNSIEntry w.nsi.current (some e)))
                  pass := some .children }
  | some (.upsert .remove) =>
    some { w with nsi := w.nsi.write (some (applyNSIEntry w.nsi.current none))
                  pass := some .children }
  | _ => none

/-- The entry that stands for the node is there, not terminating and ready. -/
def entryServes (shard : Option NSI) (other : Option Bool) : Bool :=
  match other with
  | some ready => ready
  | none => shard.any fun n => n.entry.any fun e => !e.terminating && isEntryReady n.status e

/-- `deleteLegacyChildrenWithReadyEntries` up to the request. -/
def World.passChildren (w : World) (child shard : ℕ) (other : Option Bool) : Option World :=
  match w.pass, w.si.versions[child]?, w.nsi.versions[shard]? with
  | some .children, some si, some nsi =>
    if (si.any fun s => !s.deleting) && entryServes nsi other then
      some { w with pass := some .deleteChild }
    else some { w with pass := none }
  | _, _, _ => none

def deleteChild (si : Option ServiceInterface) : Option ServiceInterface :=
  si.bind fun s => if s.finalizer then some { s with deleting := true } else none

def World.sfcRead (w : World) : Option World :=
  match w.sfc, w.nsi.cached with
  | none, some (some n) => some { w with sfc := some (sfcDispatch n) }
  | _, _ => none

def World.sfcAct (w : World) (o : Outcome) : Option World :=
  match w.sfc with
  | some (.act none _) => some { w with sfc := some (.write none) }
  | some (.act (some e) status) =>
    let r := reconcileEntry e status (w.answers o) w.ports
    some { w with ports := r.1, sfc := some (.write r.2) }
  | some (.release none) => some { w with sfc := some .unfinalize }
  | some (.release (some e)) =>
    let r := deleteInterfacesFromOvs e (w.answers o) w.ports
    some { w with ports := r.1, sfc := if r.2 then some .unfinalize else none }
  | _ => none

/-- What the patch at the end of a reconcile does to the shard. -/
def sfcPatch (call : SfcCall) (shard : Option NSI) : Option NSI :=
  match call with
  | .addFinalizer => shard.map ({ · with finalizer := true })
  | .write status => shard.map ({ · with status := status })
  | .unfinalize =>
    -- an object that is being deleted is gone with its last finalizer
    shard.bind fun n => if n.deleting then none else some { n with finalizer := false }
  | _ => shard

def World.sfcWrite (w : World) : Option World :=
  match w.sfc with
  | some (.act _ _) | some (.release _) | none => none
  | some call => some { w with nsi := w.nsi.write (sfcPatch call w.nsi.current), sfc := none }

def World.siRead (w : World) (version : ℕ) : Option World :=
  match w.siCall, w.si.versions[version]? with
  | none, some (some s) =>
    some { w with siCall := some (if s.deleting then .check
      else if !s.finalizer then .addFinalizer else .add) }
  | _, _ => none

/-- `reconcileDelete` skips the teardown for a port that an entry shares. -/
def World.afterCheck (w : World) (shard : Option NSI) : SiCall :=
  if hasMatchingNonTerminatingNSIEntry w.set shard && !hashedPatchPortsOwnedBySI w.set.definition
  then .unfinalize else .teardown

def World.siStep (w : World) (o : Outcome) : Option World :=
  match w.siCall with
  | some .addFinalizer =>
    -- no finalizer is added to an object that is being deleted
    some { w with si := w.si.write (w.si.current.map fun s =>
                    if s.deleting then s else { s with finalizer := true })
                  siCall := none }
  | some .add =>
    some { w with ports := (addInterfaces (w.set.child w.siKey) (w.answers o) w.ports).1
                  siCall := none }
  | some .check => w.nsi.cached.map fun shard => { w with siCall := some (w.afterCheck shard) }
  | some .teardown =>
    let r := deleteInterfacesFromOvs (w.set.child w.siKey) (w.answers o) w.ports
    some { w with ports := r.1, siCall := if r.2 then some .unfinalize else none }
  | some .unfinalize =>
    some { w with si := w.si.write (w.si.current.bind fun s =>
                    if s.deleting then none else some { s with finalizer := false })
                  siCall := none }
  | none => none

def World.sweepPorts (w : World) (skipped : List String) : Option World :=
  match w.sweep with
  | some _ => none
  | none =>
    let current := (w.ports.filter (·.bridge = sfcBridge)).map (·.name)
    some { w with sweep := some (.ports (current.filter (· ∉ skipped))) }

/-- The ports to keep with the one of an interface; nothing if its name is not found. -/
def insertDesired (desired : List String) : Option InterfaceEntry → Option String →
    Option (List String)
  | none, _ => some desired
  | some e, resolved => (desiredOvsPortName e resolved).map fun name =>
    if name = "" then desired else name :: desired

def World.sweepLegacy (w : World) (version : ℕ) (found : Bool) : Option World :=
  match w.sweep, w.si.versions[version]? with
  | some (.ports current), some si =>
    let desired := insertDesired [] (si.map fun _ => w.set.child w.siKey) (w.resolved found)
    some { w with sweep := desired.map (.legacy current) }
  | _, _ => none

/-- Entries that are terminating count as well. -/
def World.sweepNSI (w : World) (found : Bool) : Option World :=
  match w.sweep, w.nsi.cached with
  | some (.legacy current desired), some shard =>
    let desired := insertDesired desired (shard.bind NSI.entry) (w.resolved found)
    some { w with sweep := desired.map fun names => .unwanted (current.filter (· ∉ names)) }
  | _, _ => none

def World.sweepDelete (w : World) (done : ℕ) : Option World :=
  match w.sweep with
  | some (.unwanted names) =>
    let deleted := (names.take done).map fun name => (⟨sfcBridge, name⟩ : Port)
    some { w with ports := w.ports.filter (· ∉ deleted), sweep := none }
  | _ => none

/-- `deleteNSIIfEmpty` on the shard. -/
def emptied (shard : Option NSI) : Option (Option NSI) :=
  match shard with
  | some n =>
    if n.entry.isNone && !n.others && !n.deleting then
      some (if n.finalizer then some { n with deleting := true } else none)
    else none
  | none => none

def withOthers (present : Bool) (shard : Option NSI) : Option (Option NSI) :=
  match shard with
  | some n => some (some { n with others := present })
  | none => if present then some (some ⟨false, false, none, none, true⟩) else none

def World.exec (w : World) : Event → Option World
  | .passRead version =>
    match w.pass, w.nsi.versions[version]? with
    | none, some shard => some { w with pass := some (.upsert (w.plan shard)) }
    | _, _ => none
  | .passApply => w.passApply
  | .passChildren child shard other => w.passChildren child shard other
  | .passDelete =>
    match w.pass with
    | some .deleteChild => some { w with si := w.si.write (deleteChild w.si.current), pass := none }
    | _ => none
  | .passStop => some { w with pass := none }
  | .deleteEmpty => (emptied w.nsi.current).map fun shard => { w with nsi := w.nsi.write shard }
  | .otherSets present =>
    (withOthers present w.nsi.current).map fun shard => { w with nsi := w.nsi.write shard }
  | .watch version => some { w with nsi := w.nsi.watch version }
  | .restart => some { w with nsi := w.nsi.relist, sfc := none, siCall := none, sweep := none }
  | .sfcRead => w.sfcRead
  | .sfcAct o => w.sfcAct o
  | .sfcWrite => w.sfcWrite
  | .sfcStop => some { w with sfc := none }
  | .siRead version => w.siRead version
  | .siStep o => w.siStep o
  | .siStop => some { w with siCall := none }
  | .sweepPorts skipped => w.sweepPorts skipped
  | .sweepLegacy version found => w.sweepLegacy version found
  | .sweepNSI found => w.sweepNSI found
  | .sweepDelete done => w.sweepDelete done
  | .sweepStop => some { w with sweep := none }

def Step (w : World) (e : Event) (w' : World) : Prop := w.exec e = some w'

/-- The ServiceInterface serves the node, the shard has no entry of the set yet, and no reconcile
is under way. -/
structure Init (w : World) : Prop where
  si : w.si.past = [] ∧ ∃ s, w.si.current = some s ∧ s.deleting = false
  nsi : w.nsi.past = [] ∧ w.nsi.seen = 0
  shard : ∀ n, w.nsi.current = some n → n.entry = none ∧ n.status = none
  pass : w.pass = none
  sfc : w.sfc = none
  siCall : w.siCall = none
  sweep : w.sweep = none

/-- The entry is written only into a shard that is not being deleted, and the set has no entry for
the node in another shard. -/
def World.allowed (w : World) : Event → Bool
  | .passApply =>
    match w.pass with
    | some (.upsert (.apply _)) => !w.nsi.current.any (·.deleting)
    | _ => true
  | .passChildren _ _ other => other.isNone
  | _ => true

/-- The OVS port of the interface on the SFC bridge, if it has one. -/
def World.interfacePort (w : World) : Option Port :=
  match desiredOvsPortName w.set.entry (some w.representor) with
  | some name => if name = "" then none else some ⟨sfcBridge, name⟩
  | none => none

theorem selects_ownerLabels (set : MigratedSet) :
    selects set.ownerLabels set.entry.labels = true := by
  simp [selects, MigratedSet.ownerLabels, MigratedSet.entry, buildInterfaceEntry,
    MigratedSet.template, Labels.get, List.lookup_cons, serviceInterfaceSetNameLabel,
    serviceInterfaceSetNamespaceLabel]

theorem entryNamespace_entryName (set : MigratedSet) : entryNamespace set.entryName = set.ns := by
  have hch : set.entryName.toList = set.ns.toList ++ '_' :: set.name.toList := by
    simp [MigratedSet.entryName]
  have ht : (set.ns.toList ++ '_' :: set.name.toList).takeWhile (· ≠ '_') = set.ns.toList := by
    have hall : ∀ c ∈ set.ns.toList, decide (c ≠ '_') = true := by
      intro c hc
      have hne : c ≠ '_' := fun h => set.dns (h ▸ hc)
      exact decide_eq_true hne
    rw [takeWhile_append_of_pos hall]
    simp
  unfold entryNamespace
  rw [hch, if_pos (by simp), ht]
  simp

variable {set : MigratedSet} {p : Port}

theorem hasMatching_of_entry {n : NSI} (h : n.entry = some set.entry) :
    hasMatchingNonTerminatingNSIEntry set (some n) = true := by
  have hn : set.entry.name = set.entryName := rfl
  have ht : set.entry.terminating = false := rfl
  unfold hasMatchingNonTerminatingNSIEntry
  rw [if_neg (by simp [set.name_ne, set.ns_ne])]
  simp [h, hn, ht, entryNamespace_entryName, selects_ownerLabels]

/-- The name of the port does not depend on the object, unless it is hashed from its name. -/
theorem desiredOvsPortName_child (key : String)
    (hs : hashedPatchPortsOwnedBySI set.definition = false) (resolved : Option String) :
    desiredOvsPortName (set.child key) resolved = desiredOvsPortName set.entry resolved := by
  have hc : (set.child key).definition = set.definition := rfl
  have he : set.entry.definition = set.definition := rfl
  unfold desiredOvsPortName
  rw [hc, he]
  cases hd : set.definition with
  | patch peerBridge peerPatchName reserved =>
    cases peerPatchName with
    | none => rw [hd] at hs; cases hs
    | some name => rfl
  | _ => rfl

theorem World.desired_eq_port {w : World} (hp : w.interfacePort = some p) {found : Bool}
    {name : String} (hn : desiredOvsPortName w.set.entry (w.resolved found) = some name) :
    p = ⟨sfcBridge, name⟩ ∧ name ≠ "" := by
  have hs : desiredOvsPortName w.set.entry (some w.representor) = some name := by
    cases found with
    | true => exact hn
    | false =>
      unfold desiredOvsPortName at hn ⊢
      cases hd : w.set.entry.definition <;> simp_all [World.resolved, figureOutName]
  unfold World.interfacePort at hp
  rw [hs] at hp
  dsimp only at hp
  split_ifs at hp with hne
  exact ⟨(some.inj hp).symm, hne⟩

/-! ## The invariant -/

def Holds (set : MigratedSet) (shard : Option NSI) : Prop :=
  ∃ n, shard = some n ∧ n.entry = some set.entry

/-- The entry is in the shard only as the template says, and never in one that is being deleted. -/
def ShardOk (set : MigratedSet) (shard : Option NSI) : Prop :=
  ∀ n, shard = some n → n.entry = none ∨ n.entry = some set.entry ∧ n.deleting = false

/-- The cache of the sfc-controller holds the entry. -/
def World.Known (w : World) : Prop := w.nsi.Knows (Holds w.set)

def PassInv (set : MigratedSet) (known : Prop) : Option PassStep → Prop
  | some (.upsert p) => p = .leave ∨ p = .apply set.entry
  | some .deleteChild => known
  | _ => True

def SfcInv (set : MigratedSet) (known : Prop) : Option SfcCall → Prop
  | some (.act (some e) _) => e = set.entry ∧ known
  | some (.write status) => isEntryReady status set.entry = true → known
  | some (.release e) => e = none
  | _ => True

def SiInv (known : Prop) : Option SiCall → Prop
  | some .check => known
  | some .teardown => False
  | _ => True

def SweepInv (port : Option Port) (known : Prop) : Option Sweep → Prop
  | some (.legacy _ desired) => ∀ p, port = some p → p.name ∈ desired ∨ known
  | some (.unwanted names) => ∀ p, port = some p → p.name ∉ names
  | _ => True

/-- Whatever can lead to the end of the ServiceInterface happens only once the sfc-controller has
seen the entry that takes its place. -/
structure Inv (w : World) : Prop where
  shard : ∀ v ∈ w.nsi.versions, ShardOk w.set v
  kept : w.nsi.Kept (Holds w.set)
  ready : ∀ v ∈ w.nsi.versions, ∀ n, v = some n → isEntryReady n.status w.set.entry = true →
    w.Known
  child : ∀ v ∈ w.si.versions, (∀ s, v = some s → s.deleting = true) → w.Known
  pass : PassInv w.set w.Known w.pass
  sfc : SfcInv w.set w.Known w.sfc
  siCall : SiInv w.Known w.siCall
  sweep : SweepInv w.interfacePort w.Known w.sweep

section Mono

variable {known known' : Prop} (hmono : known → known')

include hmono

theorem PassInv.mono {c : Option PassStep} (h : PassInv set known c) : PassInv set known' c := by
  match c with
  | some (.upsert _) => exact h
  | some .children => trivial
  | some .deleteChild => exact hmono h
  | none => trivial

theorem SfcInv.mono {c : Option SfcCall} (h : SfcInv set known c) : SfcInv set known' c := by
  match c with
  | some (.act (some _) _) => exact ⟨h.1, hmono h.2⟩
  | some (.act none _) => trivial
  | some (.write _) => exact fun hr => hmono (h hr)
  | some (.release _) => exact h
  | some .addFinalizer => trivial
  | some .unfinalize => trivial
  | none => trivial

theorem SiInv.mono {c : Option SiCall} (h : SiInv known c) : SiInv known' c := by
  match c with
  | some .check => exact hmono h
  | some .teardown => exact h
  | some .addFinalizer => trivial
  | some .add => trivial
  | some .unfinalize => trivial
  | none => trivial

theorem SweepInv.mono {port : Option Port} {c : Option Sweep} (h : SweepInv port known c) :
    SweepInv port known' c := by
  match c with
  | some (.legacy _ _) => exact fun p hp => (h p hp).imp_right hmono
  | some (.unwanted _) => exact h
  | some (.ports _) => trivial
  | none => trivial

end Mono

variable {w w' : World}

theorem Init.inv (h : Init w) : Inv w := by
  have hns : w.nsi.versions = [w.nsi.current] := by rw [History.versions, h.nsi.1]; rfl
  have hsi : w.si.versions = [w.si.current] := by rw [History.versions, h.si.1]; rfl
  constructor
  · intro v hv n hn
    rw [hns, mem_singleton] at hv
    exact .inl (h.shard n (hv ▸ hn)).1
  · rw [History.Kept, hns]
    exact pairwise_singleton _ _
  · intro v hv n hn hr
    rw [hns, mem_singleton] at hv
    rw [(h.shard n (hv ▸ hn)).2] at hr
    cases hr
  · intro v hv hd
    rw [hsi, mem_singleton] at hv
    obtain ⟨s, hs, hf⟩ := h.si.2
    rw [hd s (hv.trans hs)] at hf
    cases hf
  · rw [h.pass]; trivial
  · rw [h.sfc]; trivial
  · rw [h.siCall]; trivial
  · rw [h.sweep]; trivial

theorem Inv.writeShard (h : Inv w) {v : Option NSI} (hok : ShardOk w.set v)
    (hke : Holds w.set w.nsi.current → Holds w.set v)
    (hrd : ∀ n, v = some n → isEntryReady n.status w.set.entry = true → w.Known) :
    Inv { w with nsi := w.nsi.write v } := by
  have hmono : w.Known → World.Known { w with nsi := w.nsi.write v } := fun hk => hk.write v
  refine ⟨fun u hu => ?_, h.kept.write hke, fun u hu n hn hr => ?_,
    fun u hu hd => hmono (h.child u hu hd), h.pass.mono hmono, h.sfc.mono hmono,
    h.siCall.mono hmono, h.sweep.mono hmono⟩
  · rcases mem_append.mp hu with hu | hu
    · exact h.shard u hu
    · exact mem_singleton.mp hu ▸ hok
  · rcases mem_append.mp hu with hu | hu
    · exact hmono (h.ready u hu n hn hr)
    · have huv : u = v := mem_singleton.mp hu
      exact hmono (hrd n (huv.symm.trans hn) hr)

theorem Inv.writeChild (h : Inv w) {v : Option ServiceInterface}
    (hv : (∀ s, v = some s → s.deleting = true) → w.Known) : Inv { w with si := w.si.write v } := by
  refine ⟨h.shard, h.kept, h.ready, fun u hu hd => ?_, h.pass, h.sfc, h.siCall, h.sweep⟩
  rcases mem_append.mp hu with hu | hu
  · exact h.child u hu hd
  · have huv : u = v := mem_singleton.mp hu
    exact hv fun s hs => hd s (huv.trans hs)

theorem Inv.setPass (h : Inv w) {c : Option PassStep} (hc : PassInv w.set w.Known c) :
    Inv { w with pass := c } :=
  ⟨h.shard, h.kept, h.ready, h.child, hc, h.sfc, h.siCall, h.sweep⟩

theorem Inv.setSfc (h : Inv w) {c : Option SfcCall} (hc : SfcInv w.set w.Known c) :
    Inv { w with sfc := c } :=
  ⟨h.shard, h.kept, h.ready, h.child, h.pass, hc, h.siCall, h.sweep⟩

theorem Inv.setSi (h : Inv w) {c : Option SiCall} (hc : SiInv w.Known c) :
    Inv { w with siCall := c } :=
  ⟨h.shard, h.kept, h.ready, h.child, h.pass, h.sfc, hc, h.sweep⟩

theorem Inv.setSweep (h : Inv w) {c : Option Sweep} (hc : SweepInv w.interfacePort w.Known c) :
    Inv { w with sweep := c } :=
  ⟨h.shard, h.kept, h.ready, h.child, h.pass, h.sfc, h.siCall, hc⟩

theorem Inv.setPorts (h : Inv w) (ports : List Port) : Inv { w with ports := ports } :=
  ⟨h.shard, h.kept, h.ready, h.child, h.pass, h.sfc, h.siCall, h.sweep⟩

theorem World.plan_eq (w : World) (shard : Option NSI) :
    w.plan shard = .leave ∨ w.plan shard = .apply w.set.entry := by
  have hp : w.plan shard =
      if (shard.bind fun n => n.entry.map fun e => (e, n.status)).map (·.1) = some w.set.entry
      then .leave else .apply w.set.entry := rfl
  rw [hp]
  split_ifs
  · exact .inl rfl
  · exact .inr rfl

theorem applyNSIEntry_status (shard : Option NSI) (e : Option InterfaceEntry) :
    (applyNSIEntry shard e).status = shard.bind NSI.status := by
  cases shard <;> rfl

theorem Inv.passApply (h : Inv w) (hall : w.allowed .passApply = true)
    (hs : w.passApply = some w') : Inv w' := by
  unfold World.passApply at hs
  have hpa := h.pass
  match hp : w.pass with
  | some (.upsert .leave) =>
    rw [hp] at hs
    cases hs
    exact h.setPass trivial
  | some (.upsert (.apply e)) =>
    rw [hp] at hs hpa
    cases hs
    obtain rfl : e = w.set.entry := by
      rcases hpa with hpa | hpa
      · cases hpa
      · exact Plan.apply.inj hpa
    have hd : ∀ n, w.nsi.current = some n → n.deleting = false := by
      intro n hn
      simpa [World.allowed, hp, hn] using hall
    refine (h.writeShard (fun n hn => ?_) (fun _ => ⟨_, rfl, ?_⟩) fun n hn hr => ?_).setPass trivial
    · cases hn
      cases hc : w.nsi.current with
      | none => exact .inr ⟨rfl, rfl⟩
      | some m => exact .inr ⟨rfl, hd m hc⟩
    · cases w.nsi.current <;> rfl
    · cases hn
      rw [applyNSIEntry_status] at hr
      cases hc : w.nsi.current with
      | none => rw [hc] at hr; cases hr
      | some m =>
        rw [hc] at hr
        exact h.ready _ w.nsi.current_mem m hc hr
  | some (.upsert .remove) =>
    rw [hp] at hpa
    rcases hpa with hpa | hpa <;> cases hpa
  | some .children => rw [hp] at hs; cases hs
  | some .deleteChild => rw [hp] at hs; cases hs
  | none => rw [hp] at hs; cases hs

/-- The entry that lets the child go was ready, so the sfc-controller has seen it. -/
theorem Inv.passChildren (h : Inv w) {child shard : ℕ}
    (hst : w.passChildren child shard none = some w') : Inv w' := by
  unfold World.passChildren at hst
  split at hst
  next si nsi hp hsi hns =>
    split_ifs at hst with hr
    · cases hst
      refine h.setPass ?_
      rw [Bool.and_eq_true] at hr
      obtain ⟨n, rfl, hn⟩ := (any_eq_true _ _).mp hr.2
      obtain ⟨e, he, hs⟩ := (any_eq_true _ _).mp hn
      rw [Bool.and_eq_true] at hs
      have hmem := mem_of_getElem? hns
      obtain rfl : e = w.set.entry := by
        rcases h.shard _ hmem n rfl with hno | ⟨hen, -⟩
        · rw [hno] at he
          cases he
        · exact some.inj (he.symm.trans hen)
      exact h.ready _ hmem n rfl hs.2
    · cases hst
      exact h.setPass trivial
  next => cases hst

variable {shard : Option NSI} {call : SfcCall} {found : Bool}

theorem Inv.deleteEmpty (h : Inv w) (hs : emptied w.nsi.current = some shard) :
    Inv { w with nsi := w.nsi.write shard } := by
  unfold emptied at hs
  cases hc : w.nsi.current with
  | none => rw [hc] at hs; cases hs
  | some n =>
    rw [hc] at hs
    obtain ⟨he, hs⟩ := ite_none_right_eq_some.mp hs
    cases hs
    have hen : n.entry = none := by
      rw [Bool.and_eq_true, Bool.and_eq_true] at he
      exact isNone_iff_eq_none.mp he.1.1
    refine h.writeShard (fun m hm => ?_) (fun hh => ?_) fun m hm hr => ?_
    · split_ifs at hm
      cases hm
      exact .inl hen
    · obtain ⟨m, hm, hentry'⟩ := hh
      cases hc.symm.trans hm
      rw [hen] at hentry'
      cases hentry'
    · split_ifs at hm
      cases hm
      exact h.ready _ w.nsi.current_mem n hc hr

theorem Inv.otherSets (h : Inv w) {present : Bool}
    (hs : withOthers present w.nsi.current = some shard) :
    Inv { w with nsi := w.nsi.write shard } := by
  unfold withOthers at hs
  cases hc : w.nsi.current with
  | none =>
    rw [hc] at hs
    obtain ⟨-, hs⟩ := ite_none_right_eq_some.mp hs
    cases hs
    refine h.writeShard (fun m hm => ?_) (fun hh => ?_) fun m hm hr => ?_
    · cases hm
      exact .inl rfl
    · obtain ⟨m, hm, -⟩ := hh
      rw [hc] at hm
      cases hm
    · cases hm
      cases hr
  | some n =>
    rw [hc] at hs
    cases hs
    refine h.writeShard (fun m hm => ?_) (fun hh => ?_) fun m hm hr => ?_
    · cases hm
      exact h.shard _ w.nsi.current_mem n hc
    · obtain ⟨m, hm, he⟩ := hh
      cases hc.symm.trans hm
      exact ⟨_, rfl, he⟩
    · cases hm
      exact h.ready _ w.nsi.current_mem n hc hr

/-! ### The sfc-controller -/

theorem Inv.sfcRead (h : Inv w) (hs : w.sfcRead = some w') : Inv w' := by
  unfold World.sfcRead at hs
  split at hs
  next n hn hc =>
    cases hs
    refine h.setSfc ?_
    have hok := h.shard _ (mem_of_getElem? hc) n rfl
    unfold sfcDispatch
    split_ifs with hd hfi
    · rcases hok with hn | ⟨-, hf⟩
      · exact hn
      · rw [hf] at hd
        cases hd
    · trivial
    · rcases hok with hn | ⟨he, -⟩
      · rw [hn]
        trivial
      · rw [he]
        exact ⟨rfl, some n, hc, n, rfl, he⟩
  next => cases hs

theorem Inv.sfcAct (h : Inv w) {o : Outcome} (hst : w.sfcAct o = some w') : Inv w' := by
  unfold World.sfcAct at hst
  have hs := h.sfc
  match hc : w.sfc with
  | some (.act none _) =>
    rw [hc] at hst
    cases hst
    exact h.setSfc nofun
  | some (.act (some e) status) =>
    rw [hc] at hst hs
    cases hst
    have hw : ∀ status, SfcInv w.set w.Known (some (.write status)) := fun _ _ => hs.2
    exact (h.setSfc (hw _)).setPorts _
  | some (.release none) =>
    rw [hc] at hst
    cases hst
    exact h.setSfc trivial
  | some (.release (some e)) => rw [hc] at hs; cases hs
  | some .addFinalizer => rw [hc] at hst; cases hst
  | some (.write _) => rw [hc] at hst; cases hst
  | some .unfinalize => rw [hc] at hst; cases hst
  | none => rw [hc] at hst; cases hst

/-- A patch of the sfc-controller leaves the entry in a shard that is not being deleted. The status
that it leaves is the old one, or the one that the reconcile writes. -/
theorem sfcPatch_keeps {m : NSI} (h : sfcPatch call shard = some m) :
    ∃ n, shard = some n ∧ m.entry = n.entry ∧ m.deleting = n.deleting ∧
      (call = .write m.status ∨ m.status = n.status) := by
  cases shard with
  | none => cases call <;> cases h
  | some n =>
    cases call with
    | write status =>
      cases h
      exact ⟨n, rfl, rfl, rfl, .inl rfl⟩
    | unfinalize =>
      obtain ⟨-, h⟩ := ite_none_left_eq_some.mp h
      cases h
      exact ⟨n, rfl, rfl, rfl, .inr rfl⟩
    | _ =>
      obtain rfl := some.inj h
      exact ⟨n, rfl, rfl, rfl, .inr rfl⟩

theorem sfcPatch_holds (hok : ShardOk set shard) (h : Holds set shard) :
    Holds set (sfcPatch call shard) := by
  obtain ⟨n, rfl, he⟩ := h
  have hd : n.deleting = false := by
    rcases hok n rfl with hn | ⟨-, hf⟩
    · rw [hn] at he
      cases he
    · exact hf
  cases call with
  | unfinalize => exact ⟨{ n with finalizer := false }, by simp [sfcPatch, hd], he⟩
  | _ => exact ⟨_, rfl, he⟩

theorem Inv.patchShard (h : Inv w) (hc : w.sfc = some call) :
    Inv { w with nsi := w.nsi.write (sfcPatch call w.nsi.current) } := by
  have hok := h.shard _ w.nsi.current_mem
  refine h.writeShard (fun m hm => ?_) (sfcPatch_holds hok) fun m hm hr => ?_
  · obtain ⟨n, hn, he, hd, -⟩ := sfcPatch_keeps hm
    rw [he, hd]
    exact hok n hn
  · obtain ⟨n, hn, -, -, rfl | hst⟩ := sfcPatch_keeps hm
    · have hs := h.sfc
      rw [hc] at hs
      exact hs hr
    · rw [hst] at hr
      exact h.ready _ w.nsi.current_mem n hn hr

theorem Inv.sfcWrite (h : Inv w) (hs : w.sfcWrite = some w') : Inv w' := by
  unfold World.sfcWrite at hs
  split at hs
  next => cases hs
  next => cases hs
  next => cases hs
  next call _ _ hc =>
    cases hs
    exact (h.patchShard hc).setSfc trivial

theorem Inv.siRead (h : Inv w) {version : ℕ} (hst : w.siRead version = some w') : Inv w' := by
  unfold World.siRead at hst
  split at hst
  next s hn hs =>
    cases hst
    refine h.setSi ?_
    split_ifs with hd
    · refine h.child _ (mem_of_getElem? hs) fun t ht => ?_
      cases ht
      exact hd
    · trivial
    · trivial
  next => cases hst

/-- The check finds the entry, so the port is left. -/
theorem World.afterCheck_eq (hh : Holds w.set shard)
    (hs : hashedPatchPortsOwnedBySI w.set.definition = false) :
    w.afterCheck shard = .unfinalize := by
  obtain ⟨n, rfl, he⟩ := hh
  unfold World.afterCheck
  rw [hasMatching_of_entry he, hs]
  rfl

theorem Inv.siStep (h : Inv w) (hshar : hashedPatchPortsOwnedBySI w.set.definition = false)
    {o : Outcome} (hst : w.siStep o = some w') : Inv w' := by
  unfold World.siStep at hst
  have hsi := h.siCall
  -- A ServiceInterface that is left as it is, or is gone after it was deleted, tells nothing new.
  have hcu : (∀ s, w.si.current = some s → s.deleting = true) → w.Known :=
    h.child _ w.si.current_mem
  match hc : w.siCall with
  | some .addFinalizer =>
    rw [hc] at hst
    cases hst
    refine (h.writeChild fun hd => hcu fun s hs => ?_).setSi trivial
    by_contra hdele
    have hde := hd { s with finalizer := true } (by rw [hs]; simp [hdele])
    exact hdele hde
  | some .add =>
    rw [hc] at hst
    cases hst
    have hn : SiInv w.Known none := trivial
    exact (h.setSi hn).setPorts _
  | some .check =>
    rw [hc] at hst hsi
    obtain ⟨shard, hsh, rfl⟩ := map_eq_some_iff.mp hst
    obtain ⟨v, hv, hh⟩ : w.Known := hsi
    cases hsh.symm.trans hv
    rw [World.afterCheck_eq hh hshar]
    exact h.setSi trivial
  | some .teardown => rw [hc] at hsi; exact hsi.elim
  | some .unfinalize =>
    rw [hc] at hst
    cases hst
    refine (h.writeChild fun hd => hcu fun s hs => ?_).setSi trivial
    by_contra hdele
    have hde := hd { s with finalizer := false } (by rw [hs]; simp [hdele])
    exact hdele hde
  | none => rw [hc] at hst; cases hst

/-- The port of an interface whose name is found is kept. -/
theorem mem_insertDesired (hp : w.interfacePort = some p) {e : InterfaceEntry}
    {desired names : List String} (hn : desiredOvsPortName e (w.resolved found) =
      desiredOvsPortName w.set.entry (w.resolved found))
    (h : insertDesired desired (some e) (w.resolved found) = some names) : p.name ∈ names := by
  obtain ⟨name, hs, rfl⟩ := map_eq_some_iff.mp h
  rw [hn] at hs
  obtain ⟨rfl, hne⟩ := World.desired_eq_port hp hs
  rw [if_neg hne]
  exact mem_cons_self

theorem subset_insertDesired {desired names : List String} {e : Option InterfaceEntry}
    {resolved : Option String} (h : insertDesired desired e resolved = some names) :
    desired ⊆ names := by
  cases e with
  | none =>
    cases h
    exact List.Subset.refl _
  | some e =>
    obtain ⟨name, -, rfl⟩ := map_eq_some_iff.mp h
    split_ifs
    · exact List.Subset.refl _
    · exact subset_cons_self _ _

theorem Inv.sweepLegacy (h : Inv w) (hs : hashedPatchPortsOwnedBySI w.set.definition = false)
    {version : ℕ} (hst : w.sweepLegacy version found = some w') : Inv w' := by
  unfold World.sweepLegacy at hst
  split at hst
  next current si _ hsi =>
    cases hst
    refine h.setSweep ?_
    cases hd : insertDesired [] (si.map fun _ => w.set.child w.siKey) (w.resolved found) with
    | none => trivial
    | some names =>
      intro p hp
      cases si with
      | none => exact .inr (h.child none (mem_of_getElem? hsi) nofun)
      | some s =>
        have hn := desiredOvsPortName_child w.siKey hs (w.resolved found)
        exact .inl (mem_insertDesired hp hn hd)
  next => cases hst

theorem Inv.sweepNSI (h : Inv w) (hs : w.sweepNSI found = some w') : Inv w' := by
  unfold World.sweepNSI at hs
  split at hs
  next current desired shard hsw hc =>
    cases hs
    refine h.setSweep ?_
    cases hd : insertDesired desired (shard.bind NSI.entry) (w.resolved found) with
    | none => trivial
    | some names =>
      intro p hp hmem
      have hk : p.name ∈ names := by
        have hl := h.sweep
        rw [hsw] at hl
        rcases hl p hp with hin | ⟨v, hv, n, rfl, he⟩
        · exact subset_insertDesired hd hin
        · cases hc.symm.trans hv
          rw [bind_some, he] at hd
          exact mem_insertDesired hp rfl hd
      exact of_decide_eq_true (mem_filter.mp hmem).2 hk
  next => cases hs

/-! ## The port stays -/

theorem Inv.step (h : Inv w) (hsh : hashedPatchPortsOwnedBySI w.set.definition = false)
    {e : Event} (hall : w.allowed e = true) (hst : Step w e w') : Inv w' := by
  cases e with
  | passRead version =>
    have he : w.exec (.passRead version) = some w' := hst
    unfold World.exec at he
    dsimp only at he
    split at he
    next shard _ _ =>
      cases he
      exact h.setPass (w.plan_eq shard)
    next => cases he
  | passApply => exact h.passApply hall hst
  | passChildren child shard other =>
    obtain rfl := isNone_iff_eq_none.mp hall
    exact h.passChildren hst
  | passDelete =>
    have he : w.exec .passDelete = some w' := hst
    unfold World.exec at he
    dsimp only at he
    split at he
    next hp =>
      cases he
      have hkn := h.pass
      rw [hp] at hkn
      exact (h.writeChild fun _ => hkn).setPass trivial
    next => cases he
  | passStop =>
    cases hst
    exact h.setPass trivial
  | deleteEmpty =>
    obtain ⟨shard, hs, rfl⟩ := map_eq_some_iff.mp hst
    exact h.deleteEmpty hs
  | otherSets present =>
    obtain ⟨shard, hs, rfl⟩ := map_eq_some_iff.mp hst
    exact h.otherSets hs
  | watch version =>
    cases hst
    have hmono : w.Known → World.Known { w with nsi := w.nsi.watch version } :=
      fun hk => hk.watch h.kept version
    exact ⟨h.shard, h.kept, fun v hv n hn hr => hmono (h.ready v hv n hn hr),
      fun v hv hd => hmono (h.child v hv hd), h.pass.mono hmono, h.sfc.mono hmono,
      h.siCall.mono hmono, h.sweep.mono hmono⟩
  | restart =>
    cases hst
    have hmono : w.Known → (w.nsi.relist).Knows (Holds w.set) := fun hk => hk.relist h.kept
    exact ⟨h.shard, h.kept, fun v hv n hn hr => hmono (h.ready v hv n hn hr),
      fun v hv hd => hmono (h.child v hv hd), h.pass.mono hmono, trivial, trivial, trivial⟩
  | sfcRead => exact h.sfcRead hst
  | sfcAct o => exact h.sfcAct hst
  | sfcWrite => exact h.sfcWrite hst
  | sfcStop =>
    cases hst
    exact h.setSfc trivial
  | siRead version => exact h.siRead hst
  | siStep o => exact h.siStep hsh hst
  | siStop =>
    cases hst
    exact h.setSi trivial
  | sweepPorts skipped =>
    have he : w.sweepPorts skipped = some w' := hst
    unfold World.sweepPorts at he
    split at he
    next => cases he
    next =>
      cases he
      exact h.setSweep trivial
  | sweepLegacy version found => exact h.sweepLegacy hsh hst
  | sweepNSI found => exact h.sweepNSI hst
  | sweepDelete done =>
    have he : w.sweepDelete done = some w' := hst
    unfold World.sweepDelete at he
    split at he
    next =>
      cases he
      have hno : SweepInv w.interfacePort w.Known none := trivial
      exact (h.setSweep hno).setPorts _
    next => cases he
  | sweepStop =>
    cases hst
    exact h.setSweep trivial

/-- A step leaves the set as it is, and the ports too unless it acts on OVS. -/
theorem exec_frame {e : Event} (hs : Step w e w') :
    w'.set = w.set ∧ (w'.ports = w.ports ∨ (∃ o, e = .sfcAct o) ∨ (∃ o, e = .siStep o) ∨
      ∃ done, e = .sweepDelete done) := by
  unfold Step World.exec at hs
  cases e with
  | passStop | watch | restart | sfcStop | siStop | sweepStop =>
    cases hs
    exact ⟨rfl, .inl rfl⟩
  | deleteEmpty | otherSets =>
    obtain ⟨shard, -, rfl⟩ := map_eq_some_iff.mp hs
    exact ⟨rfl, .inl rfl⟩
  | passRead | passDelete =>
    dsimp only at hs
    split at hs <;> cases hs
    exact ⟨rfl, .inl rfl⟩
  | passApply =>
    dsimp only [World.passApply] at hs
    split at hs <;> cases hs <;> exact ⟨rfl, .inl rfl⟩
  | passChildren =>
    dsimp only [World.passChildren] at hs
    split at hs
    · split_ifs at hs <;> cases hs <;> exact ⟨rfl, .inl rfl⟩
    · cases hs
  | sfcRead =>
    dsimp only [World.sfcRead] at hs
    split at hs <;> cases hs
    exact ⟨rfl, .inl rfl⟩
  | sfcWrite =>
    dsimp only [World.sfcWrite] at hs
    split at hs <;> cases hs
    exact ⟨rfl, .inl rfl⟩
  | siRead =>
    dsimp only [World.siRead] at hs
    split at hs <;> cases hs
    exact ⟨rfl, .inl rfl⟩
  | sweepPorts =>
    dsimp only [World.sweepPorts] at hs
    split at hs <;> cases hs
    exact ⟨rfl, .inl rfl⟩
  | sweepLegacy =>
    dsimp only [World.sweepLegacy] at hs
    split at hs <;> cases hs
    exact ⟨rfl, .inl rfl⟩
  | sweepNSI =>
    dsimp only [World.sweepNSI] at hs
    split at hs <;> cases hs
    exact ⟨rfl, .inl rfl⟩
  | sfcAct o =>
    refine ⟨?_, .inr (.inl ⟨o, rfl⟩)⟩
    dsimp only [World.sfcAct] at hs
    split at hs <;> cases hs <;> rfl
  | siStep o =>
    refine ⟨?_, .inr (.inr (.inl ⟨o, rfl⟩))⟩
    dsimp only [World.siStep] at hs
    split at hs
    next => cases hs; rfl
    next => cases hs; rfl
    next => obtain ⟨shard, -, rfl⟩ := map_eq_some_iff.mp hs; rfl
    next => cases hs; rfl
    next => cases hs; rfl
    next => cases hs
  | sweepDelete done =>
    refine ⟨?_, .inr (.inr (.inr ⟨done, rfl⟩))⟩
    dsimp only [World.sweepDelete] at hs
    split at hs <;> cases hs
    rfl

theorem reachable_inv (hr : Reachable Init (Restrict (fun w e => w.allowed e = true) Step) w)
    (hs : hashedPatchPortsOwnedBySI w.set.definition = false) : Inv w := by
  induction hr with
  | start hi => exact hi.inv
  | next _ hst ih =>
    rw [(exec_frame hst.2).1] at hs
    exact (ih hs).step hs hst.1 hst.2

theorem mem_addInterfaces {ports : List Port} (hp : p ∈ ports) (e : InterfaceEntry) (a : Answers) :
    p ∈ (addInterfaces e a ports).1 := by
  unfold addInterfaces
  cases portsToAdd e a.resolved with
  | none => exact hp
  | some added => exact mem_append_left _ hp

/-- In runs in which the entry is written only into a shard that is not being deleted, and the set
has no entry for the node in another shard, no step deletes the port of the interface. -/
theorem migration_keeps_port {e : Event} {p : Port}
    (hreach : Reachable Init (Restrict (fun w e => w.allowed e = true) Step) w)
    (hshared : hashedPatchPortsOwnedBySI w.set.definition = false)
    (hport : w.interfacePort = some p) (hp : p ∈ w.ports) (hstep : Step w e w') : p ∈ w'.ports := by
  have hinv := reachable_inv hreach hshared
  rcases (exec_frame hstep).2 with hpo | ⟨o, rfl⟩ | ⟨o, rfl⟩ | ⟨done, rfl⟩
  · rw [hpo]
    exact hp
  · have he : w.sfcAct o = some w' := hstep
    have hs := hinv.sfc
    unfold World.sfcAct at he
    split at he
    next => cases he; exact hp
    next e status hc =>
      rw [hc] at hs
      obtain ⟨rfl, -⟩ := hs
      cases he
      exact mem_addInterfaces hp _ _
    next => cases he; exact hp
    next hc => rw [hc] at hs; cases hs
    next => cases he
  · have he : w.siStep o = some w' := hstep
    have hsi := hinv.siCall
    unfold World.siStep at he
    split at he
    next => cases he; exact hp
    next => cases he; exact mem_addInterfaces hp _ _
    next => obtain ⟨shard, -, rfl⟩ := map_eq_some_iff.mp he; exact hp
    next hc => rw [hc] at hsi; exact hsi.elim
    next => cases he; exact hp
    next => cases he
  · have he : w.sweepDelete done = some w' := hstep
    have hsw := hinv.sweep
    unfold World.sweepDelete at he
    split at he
    next names hc =>
      rw [hc] at hsw
      cases he
      refine mem_filter.mpr ⟨hp, decide_eq_true fun hd => ?_⟩
      obtain ⟨name, hn, rfl⟩ := List.mem_map.mp hd
      exact hsw _ hport (mem_of_mem_take hn)
    next => cases he

def pfSet : MigratedSet where
  ns := "dpf"
  name := "pfs"
  labels := []
  noopRemoval := false
  definition := .pf "0"
  ns_ne := by decide
  name_ne := by decide
  dns := by decide +kernel

def pfPort : Port := ⟨sfcBridge, "pf0hpf"⟩

/-- The ServiceInterface has added the port. -/
def pfWorld : World where
  set := pfSet
  siKey := "dpf/pfs-1"
  representor := "pf0hpf"
  si := ⟨[], some ⟨false, true⟩, 0⟩
  nsi := ⟨[], none, 0⟩
  pass := none
  sfc := none
  siCall := none
  sweep := none
  ports := [pfPort]

theorem pfWorld_init : Init pfWorld := by
  refine ⟨⟨rfl, _, rfl, rfl⟩, ⟨rfl, rfl⟩, fun n hn => ?_, rfl, rfl, rfl, rfl⟩
  cases hn

/-- Every call goes through. -/
def fine : Outcome := ⟨true, none, 2, true⟩

/-- The ServiceInterface is about to lose its finalizer. -/
def unfinalizing : Option SiCall → Bool
  | some .unfinalize => true
  | _ => false

theorem migrated_pf_keeps_port :
    ∃ w w' : World, Reachable Init (Restrict (fun w e => w.allowed e = true) Step) w ∧
      unfinalizing w.siCall = true ∧ Step w (.siStep fine) w' ∧ pfPort ∈ w'.ports := by
  obtain ⟨w, hr, ho⟩ := Reachable.exists_of_runIf pfWorld_init World.allowed World.exec
    [.passRead 0, .passApply, .watch 1, .sfcRead, .sfcWrite, .watch 2, .sfcRead, .sfcAct fine,
      .sfcWrite, .passChildren 0 3 none, .passDelete, .siRead 1, .siStep fine]
    (fun w => (hashedPatchPortsOwnedBySI w.set.definition, w.interfacePort,
      decide (pfPort ∈ w.ports), unfinalizing w.siCall, (w.exec (.siStep fine)).isSome))
    (false, some pfPort, true, true, true) (by decide +kernel)
  simp only [Prod.mk.injEq, decide_eq_true_eq] at ho
  obtain ⟨hs, hp, hmem, hc, hso⟩ := ho
  obtain ⟨w', hst⟩ := isSome_iff_exists.mp hso
  exact ⟨w, w', hr, hc, hst, migration_keeps_port hr hs hp hmem hst⟩

/-- The shard of the node was emptied by another set and is being deleted when the entry is
written into it. The sfc-controller then deletes the ports of all its entries, while the
ServiceInterface still serves the node. -/
theorem deleted_shard_takes_port :
    ∃ w w' : World, Reachable Init Step w ∧ hashedPatchPortsOwnedBySI w.set.definition = false ∧
      w.interfacePort = some pfPort ∧ pfPort ∈ w.ports ∧ Step w (.sfcAct fine) w' ∧
      pfPort ∉ w'.ports := by
  obtain ⟨w, hr, ho⟩ := Reachable.exists_of_run pfWorld_init World.exec
    [.otherSets true, .watch 1, .sfcRead, .sfcWrite, .otherSets false, .deleteEmpty, .passRead 4,
      .passApply, .watch 5, .sfcRead]
    (fun w => (hashedPatchPortsOwnedBySI w.set.definition, w.interfacePort,
      decide (pfPort ∈ w.ports), (w.sfcAct fine).map fun w' : World => decide (pfPort ∈ w'.ports)))
    (false, some pfPort, true, some false) (by decide +kernel)
  simp only [Prod.mk.injEq, decide_eq_true_eq] at ho
  obtain ⟨hs, hp, hmem, ha⟩ := ho
  obtain ⟨w', hst, hg⟩ := map_eq_some_iff.mp ha
  exact ⟨w, w', hr, hs, hp, hmem, hst, of_decide_eq_false hg⟩

end DocaPlatform.LegacyHandoff
