import DocaPlatform.KeyedStore
import DocaPlatform.LabelSelectors
import DocaPlatform.Runs

/-!
# The entries of a ServiceInterfaceSet in all shards

A ServiceInterfaceSet keeps one entry for each selected node, in the NodeServiceInterfaces object
of the node and of the type of the set. The type follows from the template and from a label, so it
can change, and a pass then finds entries in shards of an earlier type. A pass sorts the entries it
finds by node only. What it leaves is compared with one entry for each selected node.
-/
namespace DocaPlatform.InterfaceShards

open KeyedStore LabelSelectors Option Store List

/-! ## Templates and entries -/

inductive InterfaceType where
  | vlan
  | physical
  | pf
  | vf
  | ovn
  | patch
  | service
  deriving DecidableEq

structure NICSelector where
  type : String
  pci : Option String
  controllerNumber : Option ℤ
  deriving DecidableEq

structure VLAN where
  vlanID : ℤ
  parentInterfaceRef : String
  deriving DecidableEq

structure VF where
  nicSelector : Option NICSelector
  vfID : ℤ
  pfID : ℤ
  parentInterfaceRef : Option String
  virtualNetwork : Option String
  deriving DecidableEq

structure PF where
  nicSelector : Option NICSelector
  id : ℤ
  virtualNetwork : Option String
  deriving DecidableEq

structure ServiceDef where
  serviceID : String
  network : String
  interfaceName : String
  virtualNetwork : Option String
  deriving DecidableEq

structure OVN where
  externalBridge : Option String
  deriving DecidableEq

structure PatchDef where
  peerBridge : String
  peerPatchName : Option String
  peerExternalIDs : Labels
  deriving DecidableEq

/-- The fields that `ServiceInterfaceSpec` and `InterfaceEntry` share. -/
structure Definition where
  interfaceType : InterfaceType
  /-- The name of the interface. -/
  physical : Option String := none
  vlan : Option VLAN := none
  vf : Option VF := none
  pf : Option PF := none
  service : Option ServiceDef := none
  ovn : Option OVN := none
  patch : Option PatchDef := none
  deriving DecidableEq

def Definition.getVirtualNetworkName (d : Definition) : String :=
  match d.interfaceType with
  | .pf => (d.pf.bind (·.virtualNetwork)).getD ""
  | .vf => (d.vf.bind (·.virtualNetwork)).getD ""
  | .service => (d.service.bind (·.virtualNetwork)).getD ""
  | _ => ""

/-- An entry, without its name. -/
structure InterfaceEntry where
  terminating : Bool
  labels : Labels
  annotations : Labels
  definition : Definition
  deriving DecidableEq

structure ServiceInterfaceSet where
  ns : String
  name : String
  labels : Labels
  templateLabels : Labels
  templateAnnotations : Labels
  template : Definition

def serviceInterfaceSetNameLabel : String := "svc.dpu.nvidia.com/serviceinterfaceset-name"

def serviceInterfaceSetNamespaceLabel : String := "svc.dpu.nvidia.com/serviceinterfaceset-namespace"

def serviceInterfaceServiceIDLabel : String := "svc.dpu.nvidia.com/service-id"

def provisionerNameLabel : String := "vpc.dpu.nvidia.com/provisioner"

def interfaceEntryName (ns name : String) : String := ns ++ "_" ++ name

def ServiceInterfaceSet.entryName (set : ServiceInterfaceSet) : String :=
  interfaceEntryName set.ns set.name

def nsiTypeForSet (set : ServiceInterfaceSet) : String :=
  if set.template.getVirtualNetworkName ≠ "" then
    match set.labels.get provisionerNameLabel with
    | some provisioner => "vpc-" ++ provisioner
    | none => "vpc"
  else "sfc"

/-- A map with one more entry. -/
def setLabel (labels : Labels) (kv : String × String) : Labels :=
  kv :: labels.filter (·.1 ≠ kv.1)

def buildInterfaceEntry (set : ServiceInterfaceSet) (nodeName : String) : InterfaceEntry :=
  let t := set.template
  let labels := setLabel (setLabel set.templateLabels (serviceInterfaceSetNameLabel, set.name))
    (serviceInterfaceSetNamespaceLabel, set.ns)
  let empty : Definition := { interfaceType := t.interfaceType }
  { terminating := false
    labels := match t.service with
      | some service => setLabel labels (serviceInterfaceServiceIDLabel, service.serviceID)
      | none => labels
    annotations := set.templateAnnotations
    definition := match t.interfaceType with
      | .physical => { empty with physical := t.physical }
      | .vlan => { empty with vlan := t.vlan.map fun v =>
          { v with parentInterfaceRef := v.parentInterfaceRef ++ "-" ++ nodeName } }
      | .vf => { empty with vf := t.vf.map fun v =>
          { v with parentInterfaceRef := v.parentInterfaceRef.map (· ++ "-" ++ nodeName) } }
      | .pf => { empty with pf := t.pf }
      | .service => { empty with service := t.service }
      | .ovn => { empty with ovn := t.ovn }
      | .patch => { empty with patch := t.patch } }

/-- The observed spec hash is given by the entry it is the digest of. -/
structure InterfaceEntryStatus where
  observedSpecHash : Option InterfaceEntry
  resourceReleased : Bool

structure NSI where
  node : String
  type : String
  nodeLabel : Option String
  typeLabel : Option String
  /-- The entries under their names. -/
  interfaces : Store String InterfaceEntry
  statuses : String → Option InterfaceEntryStatus
  deleting : Bool
  finalizer : Bool

def NSI.isEntryResourceReleased (o : NSI) (name : String) (entry : InterfaceEntry) : Bool :=
  (o.statuses name).any fun s => s.observedSpecHash = some entry && s.resourceReleased

def NSI.isEmpty (o : NSI) : Bool := o.interfaces.items.isEmpty

abbrev Shards := Store String NSI

/-- `GenerateName`, given the short digest. -/
def generateName (base shortDigest : String) : String :=
  if shortDigest = "" then base
  else if base = "" then shortDigest
  else String.ofList (base.toList.take 57) ++ "-" ++ shortDigest

/-! ## A pass -/

/-- Where in a pass a call is made. -/
inductive Stage where
  | drain
  | afterRemoval
  | cleanup

/-- What the calls of a pass return, and the order in which a map of nodes is visited. -/
structure Env where
  isNodeGone : Stage → String → Option Bool
  apply : String → Bool
  delete : Stage → String → Bool
  releaseFinalizers : Stage → String → Bool
  mapOrder : List String → List String
  mapOrder_perm : ∀ nodes, (mapOrder nodes).Perm nodes

structure OwnedNSIEntry where
  name : String
  nsi : NSI
  entry : InterfaceEntry

section Pass

variable (shortDigest : String → String → String) (env : Env) (set : ServiceInterfaceSet)

def nsiName (nodeName nsiType : String) : String :=
  generateName (nodeName ++ "-" ++ nsiType) (shortDigest nodeName nsiType)

def listNSIEntriesForServiceInterfaceSet (shards : Shards) : List OwnedNSIEntry :=
  shards.items.filterMap fun o => (o.2.interfaces.get set.entryName).map fun e => ⟨o.1, o.2, e⟩

/-- The map from nodes to entries: of the entries of a node the one that is listed last counts. -/
def byNode (owned : List OwnedNSIEntry) (nodeName : String) : Option OwnedNSIEntry :=
  (owned.filter (·.nsi.node = nodeName)).getLast?

def nsiEntryUpToDate (owned : OwnedNSIEntry) (desired : InterfaceEntry)
    (nodeName nsiType : String) : Bool :=
  owned.name = nsiName shortDigest nodeName nsiType && owned.nsi.type = nsiType &&
    owned.nsi.nodeLabel = some nodeName && owned.nsi.typeLabel = some nsiType &&
    owned.entry = desired

/-- The object after a server-side apply of the set: its entry is the given one, or goes. -/
def NSI.applied (old : Option NSI) (name nodeName nsiType : String)
    (entry : Option InterfaceEntry) : NSI :=
  let interfaces := (old.map (·.interfaces)).getD .empty
  { node := nodeName
    type := nsiType
    nodeLabel := some nodeName
    typeLabel := some nsiType
    interfaces := match entry with
      | some e => interfaces.put name e
      | none => interfaces.erase name
    statuses := (old.map (·.statuses)).getD fun _ => none
    deleting := (old.map (·.deleting)).getD false
    finalizer := (old.map (·.finalizer)).getD false }

def applyNSIEntry (nodeName nsiType : String) (entry : Option InterfaceEntry) (shards : Shards) :
    Option Shards :=
  let name := nsiName shortDigest nodeName nsiType
  if env.apply name then
    some (shards.put name (NSI.applied (shards.get name) set.entryName nodeName nsiType entry))
  else none

def createOrUpdateEntryInNSI (nodeName : String) (shards : Shards) : Option Shards :=
  applyNSIEntry shortDigest env set nodeName (nsiTypeForSet set)
    (some (buildInterfaceEntry set nodeName)) shards

def markEntryTerminating (nsi : NSI) (shards : Shards) : Option Shards :=
  applyNSIEntry shortDigest env set nsi.node nsi.type
    (some { buildInterfaceEntry set nsi.node with terminating := true }) shards

def removeEntryFromNSI (nsi : NSI) (shards : Shards) : Option Shards :=
  applyNSIEntry shortDigest env set nsi.node nsi.type none shards

/-- The object is gone, or waits for its finalizer. -/
def deleteObject (name : String) (shards : Shards) : Shards :=
  match shards.get name with
  | some o => if o.finalizer then shards.put name { o with deleting := true } else shards.erase name
  | none => shards

def releaseFinalizers (name : String) (shards : Shards) : Shards :=
  match shards.get name with
  | some o =>
    if o.deleting then shards.erase name else shards.put name { o with finalizer := false }
  | none => shards

def requestDeletion (stage : Stage) (name : String) (nsi : NSI) (shards : Shards) :
    Option Shards :=
  if nsi.deleting then some shards
  else if env.delete stage name then some (deleteObject name shards) else none

/-- Without its node nothing else releases the finalizer. -/
def releaseIfNodeGone (stage : Stage) (name : String) (nsi : NSI) (shards : Shards) :
    Option Shards :=
  (env.isNodeGone stage nsi.node).bind fun nodeGone =>
    if !nodeGone then some shards
    else if env.releaseFinalizers stage name then some (releaseFinalizers name shards) else none

def deleteNSIIfEmpty (stage : Stage) (name : String) (nsi : NSI) (shards : Shards) :
    Option Shards :=
  if !nsi.isEmpty then some shards
  else (requestDeletion env stage name nsi shards).bind (releaseIfNodeGone env stage name nsi)

def deleteEmptyNSIs (shards : Shards) : Option Shards :=
  shards.items.foldlM (fun shards o => deleteNSIIfEmpty env .cleanup o.1 o.2 shards) shards

/-- What the apply returned is looked at again, if it is still there. -/
def deleteIfEmptied (nsi : NSI) (shards : Shards) : Option Shards :=
  let name := nsiName shortDigest nsi.node nsi.type
  match shards.get name with
  | some updated => deleteNSIIfEmpty env .afterRemoval name updated shards
  | none => some shards

def drainNSIEntry (owned : OwnedNSIEntry) (shards : Shards) : Option Shards :=
  (env.isNodeGone .drain owned.nsi.node).bind fun nodeGone =>
    if !nodeGone && !owned.entry.terminating then
      markEntryTerminating shortDigest env set owned.nsi shards
    else if !nodeGone && !owned.nsi.isEntryResourceReleased set.entryName owned.entry then
      some shards
    else
      (removeEntryFromNSI shortDigest env set owned.nsi shards).bind
        (deleteIfEmptied shortDigest env owned.nsi)

def staleNodes (nodes : List String) (owned : List OwnedNSIEntry) : List String :=
  (owned.map (·.nsi.node)).dedup.filter (· ∉ nodes)

def upsertNode (owned : List OwnedNSIEntry) (shards : Shards) (nodeName : String) :
    Option Shards :=
  if (byNode owned nodeName).any fun o =>
      nsiEntryUpToDate shortDigest o (buildInterfaceEntry set nodeName) nodeName (nsiTypeForSet set)
  then some shards
  else createOrUpdateEntryInNSI shortDigest env set nodeName shards

def drainNode (owned : List OwnedNSIEntry) (shards : Shards) (nodeName : String) :
    Option Shards :=
  match byNode owned nodeName with
  | some o => drainNSIEntry shortDigest env set o shards
  | none => some shards

def reconcileNSI (nodes : List String) (shards : Shards) : Option Shards := do
  let owned := listNSIEntriesForServiceInterfaceSet set shards
  let upserted ← nodes.foldlM (upsertNode shortDigest env set owned) shards
  let drained ← (env.mapOrder (staleNodes nodes owned)).foldlM
    (drainNode shortDigest env set owned) upserted
  deleteEmptyNSIs env drained

end Pass

/-- An entry with the node and the type of its shard. -/
structure Placed where
  node : String
  type : String
  entry : InterfaceEntry
  deriving DecidableEq

def entryAt (shards : Shards) (name key : String) : Option Placed :=
  (shards.get name).bind fun o => (o.interfaces.get key).map fun e => ⟨o.node, o.type, e⟩

variable {shards shards' : Shards} {name : String}

theorem entryAt_eq_some {key : String} {p : Placed} :
    entryAt shards name key = some p ↔
      ∃ o, shards.get name = some o ∧ o.interfaces.get key = some p.entry ∧ o.node = p.node ∧
        o.type = p.type := by
  unfold entryAt
  constructor
  · intro h
    obtain ⟨o, ho, h⟩ := bind_eq_some_iff.mp h
    obtain ⟨e, he, rfl⟩ := map_eq_some_iff.mp h
    exact ⟨o, ho, he, rfl, rfl⟩
  · rintro ⟨o, ho, he, hn, ht⟩
    rw [ho, bind_some, he, map_some, hn, ht]

theorem entryAt_of_get_eq (h : shards'.get name = shards.get name) (key : String) :
    entryAt shards' name key = entryAt shards name key := by
  unfold entryAt
  rw [h]

theorem entryAt_of_isEmpty {o : NSI} (ho : shards.get name = some o) (hem : o.isEmpty = true)
    (key : String) : entryAt shards name key = none := by
  have hk : o.interfaces.get key = none := by
    by_contra hne
    obtain ⟨e, he⟩ := ne_none_iff_exists'.mp hne
    have hmem := mem_items.mpr he
    rw [List.isEmpty_iff.mp hem] at hmem
    exact not_mem_nil hmem
  unfold entryAt
  rw [ho, bind_some, hk, map_none]

/-- The objects of other names stay, and what is left under this one has the same entries. -/
structure SameEntries (name : String) (shards shards' : Shards) : Prop where
  get_of_ne : ∀ n, n ≠ name → shards'.get n = shards.get n
  get_self : shards'.get name = none ∨ ∃ o o', shards.get name = some o ∧
    shards'.get name = some o' ∧ o'.node = o.node ∧ o'.type = o.type ∧
      o'.interfaces = o.interfaces

theorem SameEntries.rfl : SameEntries name shards shards where
  get_of_ne _ _ := Eq.refl _
  get_self := by
    cases h : shards.get name with
    | none => exact .inl (Eq.refl _)
    | some o => exact .inr ⟨o, o, Eq.refl _, Eq.refl _, Eq.refl _, Eq.refl _, Eq.refl _⟩

theorem sameEntries_erase (name : String) (shards : Shards) :
    SameEntries name shards (shards.erase name) where
  get_of_ne n hn := by rw [get_erase, if_neg hn]
  get_self := .inl (by rw [get_erase, if_pos rfl])

theorem sameEntries_put {o o' : NSI} (ho : shards.get name = some o) (hno : o'.node = o.node)
    (ht : o'.type = o.type) (hi : o'.interfaces = o.interfaces) :
    SameEntries name shards (shards.put name o') where
  get_of_ne _ hn := get_put_of_ne hn
  get_self := .inr ⟨o, o', ho, get_put_self, hno, ht, hi⟩

theorem sameEntries_deleteObject (name : String) (shards : Shards) :
    SameEntries name shards (deleteObject name shards) := by
  unfold deleteObject
  cases ho : shards.get name with
  | none => exact .rfl
  | some o =>
    dsimp only
    split_ifs
    · exact sameEntries_put ho rfl rfl rfl
    · exact sameEntries_erase name shards

theorem sameEntries_releaseFinalizers (name : String) (shards : Shards) :
    SameEntries name shards (releaseFinalizers name shards) := by
  unfold releaseFinalizers
  cases ho : shards.get name with
  | none => exact .rfl
  | some o =>
    dsimp only
    split_ifs
    · exact sameEntries_erase name shards
    · exact sameEntries_put ho rfl rfl rfl

theorem SameEntries.trans {a b c : Shards} (h : SameEntries name a b) (h' : SameEntries name b c) :
    SameEntries name a c where
  get_of_ne n hn := (h'.get_of_ne n hn).trans (h.get_of_ne n hn)
  get_self := by
    rcases h'.get_self with hc | ⟨o, o', ho, ho', hno, ht, hi⟩
    · exact .inl hc
    · rcases h.get_self with hb | ⟨p, p', hp, hp', pnode, ptype, pint⟩
      · rw [hb] at ho
        cases ho
      · cases hp'.symm.trans ho
        exact .inr ⟨p, o', hp, ho', hno.trans pnode, ht.trans ptype, hi.trans pint⟩

theorem deleteNSIIfEmpty_spec {env : Env} {stage : Stage} {nsi : NSI}
    (h : deleteNSIIfEmpty env stage name nsi shards = some shards') :
    shards' = shards ∨ nsi.isEmpty = true ∧ SameEntries name shards shards' := by
  unfold deleteNSIIfEmpty at h
  split_ifs at h with he
  · exact .inl (some.inj h).symm
  · refine .inr ⟨by simpa using he, ?_⟩
    obtain ⟨deleted, hd, h⟩ := bind_eq_some_iff.mp h
    obtain ⟨gone, -, h⟩ := bind_eq_some_iff.mp h
    have hs : SameEntries name shards deleted := by
      unfold requestDeletion at hd
      split_ifs at hd
      · cases hd
        exact .rfl
      · cases hd
        exact sameEntries_deleteObject name shards
    split_ifs at h
    · cases h
      exact hs
    · cases h
      exact hs.trans (sameEntries_releaseFinalizers name deleted)

theorem SameEntries.entryAt (h : SameEntries name shards shards')
    (hnone : ∀ key, InterfaceShards.entryAt shards name key = none) (n key : String) :
    InterfaceShards.entryAt shards' n key = InterfaceShards.entryAt shards n key := by
  by_cases hn : n = name
  · subst hn
    rcases h.get_self with hg | ⟨o, o', ho, ho', hno, ht, hi⟩
    · rw [hnone key]
      unfold InterfaceShards.entryAt
      rw [hg, bind_none]
    · unfold InterfaceShards.entryAt
      rw [ho, ho', bind_some, bind_some, hno, ht, hi]
  · exact entryAt_of_get_eq (h.get_of_ne n hn) key

/-! ### Objects under their names -/

/-- Every object has the name for its node and type, which are among those in play. -/
structure Named (shortDigest : String → String → String) (inPlay : Set (String × String))
    (shards : Shards) : Prop where
  name_eq : ∀ n o, shards.get n = some o → n = nsiName shortDigest o.node o.type
  mem : ∀ n o, shards.get n = some o → (o.node, o.type) ∈ inPlay

/-- No two of the nodes and types in play have the same name. -/
def Collisionless (shortDigest : String → String → String) (inPlay : Set (String × String)) :
    Prop :=
  Set.InjOn (fun p => nsiName shortDigest p.1 p.2) inPlay

section Spec

variable {shortDigest : String → String → String} {env : Env} {set : ServiceInterfaceSet}
  {inPlay : Set (String × String)} {shards shards' : Shards} {nodes : List String}

theorem Named.sameEntries (h : Named shortDigest inPlay shards)
    (hs : SameEntries name shards shards') : Named shortDigest inPlay shards' := by
  -- Each object that is left has the node and type of one that was there under its name.
  have hold : ∀ n o', shards'.get n = some o' →
      ∃ o, shards.get n = some o ∧ o'.node = o.node ∧ o'.type = o.type := by
    intro n o' ho'
    by_cases hn : n = name
    · subst hn
      rcases hs.get_self with hg | ⟨o, p', ho, hp', hno, ht, -⟩
      · rw [hg] at ho'
        cases ho'
      · cases hp'.symm.trans ho'
        exact ⟨o, ho, hno, ht⟩
    · exact ⟨o', (hs.get_of_ne n hn) ▸ ho', rfl, rfl⟩
  constructor
  · intro n o' ho'
    obtain ⟨o, ho, hno, ht⟩ := hold n o' ho'
    rw [hno, ht]
    exact h.name_eq n o ho
  · intro n o' ho'
    obtain ⟨o, ho, hno, ht⟩ := hold n o' ho'
    rw [hno, ht]
    exact h.mem n o ho

/-- One entry of the set is written in one object, and nothing else. -/
structure Rewrites (shortDigest : String → String → String) (set : ServiceInterfaceSet)
    (inPlay : Set (String × String)) (name : String) (p : Option Placed)
    (shards shards' : Shards) : Prop where
  named : Named shortDigest inPlay shards'
  self : entryAt shards' name set.entryName = p
  rest : ∀ n key, n ≠ name ∨ key ≠ set.entryName → entryAt shards' n key = entryAt shards n key

variable {nodeName : String} {o : OwnedNSIEntry}

theorem applyNSIEntry_spec (hinj : Collisionless shortDigest inPlay)
    (hna : Named shortDigest inPlay shards) {nsiType : String} (hmem : (nodeName, nsiType) ∈ inPlay)
    {entry : Option InterfaceEntry}
    (h : applyNSIEntry shortDigest env set nodeName nsiType entry shards = some shards') :
    Rewrites shortDigest set inPlay (nsiName shortDigest nodeName nsiType)
      (entry.map fun e => ⟨nodeName, nsiType, e⟩) shards shards' := by
  obtain ⟨-, h⟩ := ite_none_right_eq_some.mp h
  cases h
  -- The object that was under the name is one of the same node and type.
  have hold : ∀ o, shards.get (nsiName shortDigest nodeName nsiType) = some o →
      o.node = nodeName ∧ o.type = nsiType := by
    intro o ho
    have hp := hinj (hna.mem _ o ho) hmem (hna.name_eq _ o ho).symm
    exact Prod.mk.inj hp
  refine ⟨⟨fun n o ho => ?_, fun n o ho => ?_⟩, ?_, fun n key hne => ?_⟩
  · rcases eq_of_put ho with ⟨rfl, rfl⟩ | ⟨-, ho⟩
    · rfl
    · exact hna.name_eq n o ho
  · rcases eq_of_put ho with ⟨rfl, rfl⟩ | ⟨-, ho⟩
    · exact hmem
    · exact hna.mem n o ho
  · unfold entryAt
    rw [get_put_self, bind_some]
    cases entry with
    | none => simp [NSI.applied, get_erase]
    | some e => simp [NSI.applied]
  · by_cases hn : n = nsiName shortDigest nodeName nsiType
    · subst hn
      have hk : key ≠ set.entryName := hne.resolve_left (fun h => h rfl)
      unfold entryAt
      rw [get_put_self, bind_some]
      cases ho : shards.get (nsiName shortDigest nodeName nsiType) with
      | none => cases entry <;> simp [NSI.applied, get_erase, get_put_of_ne hk]
      | some o =>
        obtain ⟨rfl, rfl⟩ := hold o ho
        cases entry <;> simp [NSI.applied, get_erase, get_put_of_ne hk, hk]
    · exact entryAt_of_get_eq (get_put_of_ne hn) key

theorem deleteIfEmptied_spec {nsi : NSI} (hn : Named shortDigest inPlay shards)
    (h : deleteIfEmptied shortDigest env nsi shards = some shards') :
    Named shortDigest inPlay shards' ∧ ∀ n key, entryAt shards' n key = entryAt shards n key := by
  unfold deleteIfEmptied at h
  cases ho : shards.get (nsiName shortDigest nsi.node nsi.type) with
  | none =>
    simp only [ho] at h
    cases h
    exact ⟨hn, fun _ _ => rfl⟩
  | some o =>
    simp only [ho] at h
    rcases deleteNSIIfEmpty_spec h with rfl | ⟨he, hs⟩
    · exact ⟨hn, fun _ _ => rfl⟩
    · exact ⟨hn.sameEntries hs, hs.entryAt (entryAt_of_isEmpty ho he)⟩

def Quiet (p : Option Placed) : Prop := ∀ q, p = some q → q.entry.terminating = true

theorem quiet_none : Quiet none := fun q hq => by cases hq

theorem quiet_some {p : Placed} (h : p.entry.terminating = true) : Quiet (some p) := by
  intro q hq
  cases hq
  exact h

/-! ### The loop over the selected nodes -/

theorem mem_listNSIEntries :
    o ∈ listNSIEntriesForServiceInterfaceSet set shards ↔
      shards.get o.name = some o.nsi ∧ o.nsi.interfaces.get set.entryName = some o.entry := by
  unfold listNSIEntriesForServiceInterfaceSet
  constructor
  · intro h
    obtain ⟨item, hi, h⟩ := mem_filterMap.mp h
    obtain ⟨e, he, rfl⟩ := map_eq_some_iff.mp h
    exact ⟨get_of_mem_items hi, he⟩
  · rintro ⟨hg, hen⟩
    exact mem_filterMap.mpr ⟨(o.name, o.nsi), mem_items.mpr hg, by rw [hen]; rfl⟩

theorem entryAt_of_mem_list (h : o ∈ listNSIEntriesForServiceInterfaceSet set shards) :
    entryAt shards o.name set.entryName = some ⟨o.nsi.node, o.nsi.type, o.entry⟩ :=
  entryAt_eq_some.mpr ⟨o.nsi, (mem_listNSIEntries.mp h).1, (mem_listNSIEntries.mp h).2, rfl, rfl⟩

theorem byNode_eq_some {owned : List OwnedNSIEntry} (h : byNode owned nodeName = some o) :
    o ∈ owned ∧ o.nsi.node = nodeName := by
  have hmem := mem_filter.mp (mem_of_getLast? h)
  exact ⟨hmem.1, of_decide_eq_true hmem.2⟩

theorem entryAt_of_nsiEntryUpToDate
    (h : ((byNode (listNSIEntriesForServiceInterfaceSet set shards) nodeName).any fun o =>
      nsiEntryUpToDate shortDigest o (buildInterfaceEntry set nodeName) nodeName
        (nsiTypeForSet set)) = true) :
    entryAt shards (nsiName shortDigest nodeName (nsiTypeForSet set)) set.entryName =
      some ⟨nodeName, nsiTypeForSet set, buildInterfaceEntry set nodeName⟩ := by
  obtain ⟨o, ho, hok⟩ := (any_eq_true _ _).mp h
  obtain ⟨hmem, hn⟩ := byNode_eq_some ho
  simp only [nsiEntryUpToDate, Bool.and_eq_true, decide_eq_true_eq] at hok
  obtain ⟨⟨⟨⟨hname, ht⟩, -⟩, -⟩, he⟩ := hok
  rw [← hname, entryAt_of_mem_list hmem, hn, ht, he]

/-- Where the loop over the selected nodes stands. -/
structure Upserted (shortDigest : String → String → String) (set : ServiceInterfaceSet)
    (inPlay : Set (String × String)) (nodes : List String) (start : Shards)
    (visited : List String) (shards : Shards) : Prop where
  named : Named shortDigest inPlay shards
  others : ∀ n key, key ≠ set.entryName → entryAt shards n key = entryAt start n key
  own : ∀ n, entryAt shards n set.entryName = entryAt start n set.entryName ∨
    ∃ node ∈ nodes, n = nsiName shortDigest node (nsiTypeForSet set) ∧
      entryAt shards n set.entryName =
        some ⟨node, nsiTypeForSet set, buildInterfaceEntry set node⟩
  done : ∀ node ∈ visited, entryAt shards (nsiName shortDigest node (nsiTypeForSet set))
    set.entryName = some ⟨node, nsiTypeForSet set, buildInterfaceEntry set node⟩

section Loops

variable (hinj : Collisionless shortDigest inPlay)
  (hnodes : ∀ node ∈ nodes, (node, nsiTypeForSet set) ∈ inPlay)

include hinj hnodes

theorem nsiName_inj {a b : String} (ha : a ∈ nodes) (hb : b ∈ nodes)
    (h : nsiName shortDigest a (nsiTypeForSet set) = nsiName shortDigest b (nsiTypeForSet set)) :
    a = b :=
  (Prod.mk.inj (hinj (hnodes a ha) (hnodes b hb) h)).1

variable {start mid : Shards} {visited : List String}

theorem Upserted.node {node : String}
    (h : Upserted shortDigest set inPlay nodes start visited shards) (hno : node ∈ nodes)
    (hv : ∀ x ∈ visited, x ∈ nodes)
    (hst : upsertNode shortDigest env set (listNSIEntriesForServiceInterfaceSet set start) shards
      node = some shards') :
    Upserted shortDigest set inPlay nodes start (visited ++ [node]) shards' := by
  unfold upsertNode at hst
  split_ifs at hst with hok
  · cases hst
    refine ⟨h.named, h.others, h.own, fun x hx => ?_⟩
    rcases mem_append.mp hx with hx | hx
    · exact h.done x hx
    · obtain rfl := mem_singleton.mp hx
      rcases h.own (nsiName shortDigest x (nsiTypeForSet set)) with hs | ⟨y, hy, hname, ho⟩
      · rw [hs]
        exact entryAt_of_nsiEntryUpToDate hok
      · obtain rfl := nsiName_inj hinj hnodes hno hy hname
        exact ho
  · have hw := applyNSIEntry_spec hinj h.named (hnodes node hno) hst
    refine ⟨hw.named, fun n key hk => ?_, fun n => ?_, fun x hx => ?_⟩
    · rw [hw.rest n key (.inr hk)]
      exact h.others n key hk
    · by_cases hn : n = nsiName shortDigest node (nsiTypeForSet set)
      · exact .inr ⟨node, hno, hn, by rw [hn]; exact hw.self⟩
      · rw [hw.rest n _ (.inl hn)]
        exact h.own n
    · by_cases hn : nsiName shortDigest x (nsiTypeForSet set) =
          nsiName shortDigest node (nsiTypeForSet set)
      · have hxn : x ∈ nodes := by
          rcases mem_append.mp hx with hx | hx
          · exact hv x hx
          · rw [mem_singleton.mp hx]
            exact hno
        obtain rfl := nsiName_inj hinj hnodes hxn hno hn
        exact hw.self
      · rw [hw.rest _ _ (.inl hn)]
        rcases mem_append.mp hx with hx | hx
        · exact h.done x hx
        · exact absurd (by rw [mem_singleton.mp hx]) hn

theorem upsert_spec (hn : Named shortDigest inPlay start)
    (h : nodes.foldlM
      (upsertNode shortDigest env set (listNSIEntriesForServiceInterfaceSet set start)) start =
        some shards') :
    Upserted shortDigest set inPlay nodes start nodes shards' := by
  have hl := @Runs.foldlM_induction String Shards
    (upsertNode shortDigest env set (listNSIEntriesForServiceInterfaceSet set start))
    (fun visited shards => (∀ x ∈ visited, x ∈ nodes) ∧
      Upserted shortDigest set inPlay nodes start visited shards) nodes start shards'
    ⟨nofun, hn, fun _ _ _ => rfl, fun _ => .inl rfl, nofun⟩ ?_ h
  · exact hl.2
  · rintro visited node c c' hno ⟨hv, hc⟩ hs
    refine ⟨fun x hx => ?_, hc.node hinj hnodes hno hv hs⟩
    rcases mem_append.mp hx with hx | hx
    · exact hv x hx
    · rw [mem_singleton.mp hx]
      exact hno

/-! ### Draining -/

omit hnodes in
theorem drainNSIEntry_spec (hn : Named shortDigest inPlay shards)
    (hname : o.name = nsiName shortDigest o.nsi.node o.nsi.type)
    (hmem : (o.nsi.node, o.nsi.type) ∈ inPlay)
    (h : drainNSIEntry shortDigest env set o shards = some shards') :
    shards' = shards ∧ o.entry.terminating = true ∨
      ∃ p, Quiet p ∧ Rewrites shortDigest set inPlay o.name p shards shards' := by
  obtain ⟨nodeGone, -, h⟩ := bind_eq_some_iff.mp h
  rw [hname]
  split_ifs at h with hm hwa
  · refine .inr ⟨_, ?_, applyNSIEntry_spec hinj hn hmem h⟩
    exact quiet_some rfl
  · cases h
    refine .inl ⟨rfl, ?_⟩
    rw [Bool.and_eq_true] at hwa
    simpa [hwa.1] using hm
  · obtain ⟨removed, hr, h⟩ := bind_eq_some_iff.mp h
    have hw := applyNSIEntry_spec hinj hn hmem hr
    obtain ⟨hnamed', hs⟩ := deleteIfEmptied_spec hw.named h
    refine .inr ⟨none, quiet_none, hnamed', ?_, fun n key hne => ?_⟩
    · rw [hs]
      exact hw.self
    · rw [hs]
      exact hw.rest n key hne

/-- Where the loop over the stale nodes stands. -/
structure Drained (shortDigest : String → String → String) (set : ServiceInterfaceSet)
    (inPlay : Set (String × String)) (nodes : List String) (start mid : Shards)
    (visited : List String) (shards : Shards) : Prop where
  named : Named shortDigest inPlay shards
  others : ∀ n key, key ≠ set.entryName → entryAt shards n key = entryAt mid n key
  own : ∀ n, entryAt shards n set.entryName = entryAt mid n set.entryName ∨
    Quiet (entryAt shards n set.entryName) ∧ ∃ node o, node ∉ nodes ∧
      byNode (listNSIEntriesForServiceInterfaceSet set start) node = some o ∧ n = o.name
  done : ∀ node ∈ visited, ∀ o,
    byNode (listNSIEntriesForServiceInterfaceSet set start) node = some o →
      Quiet (entryAt shards o.name set.entryName)

/-- The shard of an entry on a node that is not selected is none of those of selected nodes. -/
theorem Upserted.entryAt_stale (h : Upserted shortDigest set inPlay nodes start visited mid)
    (hn : Named shortDigest inPlay start) (ho : o ∈ listNSIEntriesForServiceInterfaceSet set start)
    (hst : o.nsi.node ∉ nodes) :
    entryAt mid o.name set.entryName = some ⟨o.nsi.node, o.nsi.type, o.entry⟩ := by
  have hg := (mem_listNSIEntries.mp ho).1
  rcases h.own o.name with hs | ⟨node, hno, hname, -⟩
  · rw [hs]
    exact entryAt_of_mem_list ho
  · have hp := hinj (hn.mem _ _ hg) (hnodes node hno)
      ((hn.name_eq _ _ hg).symm.trans hname)
    exact absurd ((Prod.mk.inj hp).1 ▸ hno) hst

theorem Drained.node {node : String}
    (h : Drained shortDigest set inPlay nodes start mid visited shards)
    (hna : Named shortDigest inPlay start)
    (hm : Upserted shortDigest set inPlay nodes start nodes mid) (hst : node ∉ nodes)
    (hstep : drainNode shortDigest env set (listNSIEntriesForServiceInterfaceSet set start) shards
      node = some shards') :
    Drained shortDigest set inPlay nodes start mid (visited ++ [node]) shards' := by
  unfold drainNode at hstep
  cases ho : byNode (listNSIEntriesForServiceInterfaceSet set start) node with
  | none =>
    simp only [ho] at hstep
    cases hstep
    refine ⟨h.named, h.others, h.own, fun x hx o hxo => ?_⟩
    rcases mem_append.mp hx with hx | hx
    · exact h.done x hx o hxo
    · rw [mem_singleton.mp hx, ho] at hxo
      cases hxo
  | some o =>
    simp only [ho] at hstep
    obtain ⟨hmem, hno⟩ := byNode_eq_some ho
    have hg := (mem_listNSIEntries.mp hmem).1
    rcases drainNSIEntry_spec hinj h.named (hna.name_eq _ _ hg) (hna.mem _ _ hg) hstep
      with ⟨rfl, ht⟩ | ⟨p, hp, hw⟩
    · refine ⟨h.named, h.others, h.own, fun x hx o' hxo => ?_⟩
      rcases mem_append.mp hx with hx | hx
      · exact h.done x hx o' hxo
      · rw [mem_singleton.mp hx, ho] at hxo
        cases hxo
        rcases h.own o.name with hs | ⟨hq, -⟩
        · rw [hs, hm.entryAt_stale hinj hnodes hna hmem (hno ▸ hst)]
          exact quiet_some ht
        · exact hq
    · have hq : Quiet (entryAt shards' o.name set.entryName) := by
        rw [hw.self]
        exact hp
      refine ⟨hw.named, fun n key hk => ?_, fun n => ?_, fun x hx o' hxo => ?_⟩
      · rw [hw.rest n key (.inr hk)]
        exact h.others n key hk
      · by_cases hn : n = o.name
        · exact .inr ⟨by rw [hn]; exact hq, node, o, hst, ho, hn⟩
        · rw [hw.rest n _ (.inl hn)]
          exact h.own n
      · by_cases hn : o'.name = o.name
        · rw [hn]
          exact hq
        · rw [hw.rest _ _ (.inl hn)]
          rcases mem_append.mp hx with hx | hx
          · exact h.done x hx o' hxo
          · rw [mem_singleton.mp hx, ho] at hxo
            exact absurd (congrArg OwnedNSIEntry.name (some.inj hxo).symm) hn

theorem drain_spec {stale : List String} (hn : Named shortDigest inPlay start)
    (hm : Upserted shortDigest set inPlay nodes start nodes mid) (hs : ∀ node ∈ stale, node ∉ nodes)
    (h : stale.foldlM
      (drainNode shortDigest env set (listNSIEntriesForServiceInterfaceSet set start)) mid =
        some shards') :
    Drained shortDigest set inPlay nodes start mid stale shards' := by
  refine @Runs.foldlM_induction String Shards
    (drainNode shortDigest env set (listNSIEntriesForServiceInterfaceSet set start))
    (Drained shortDigest set inPlay nodes start mid) stale mid shards'
    ⟨hm.named, fun _ _ _ => rfl, fun _ => .inl rfl, nofun⟩ ?_ h
  intro visited node c c' hno hc hst
  exact hc.node hinj hnodes hn hm (hs node hno) hst

end Loops

theorem deleteEmptyNSIs_spec (h : deleteEmptyNSIs env shards = some shards') (n key : String) :
    entryAt shards' n key = entryAt shards n key := by
  refine @Runs.foldlM_induction (String × NSI) Shards
    (fun shards o => deleteNSIIfEmpty env .cleanup o.1 o.2 shards)
    (fun _ c => ∀ n key, entryAt c n key = entryAt shards n key) shards.items shards shards'
    (fun _ _ => rfl) ?_ h n key
  intro _ o c c' ho hc hst
  rcases deleteNSIIfEmpty_spec hst with rfl | ⟨he, hs⟩
  · exact hc
  · have hn : ∀ key, entryAt c o.1 key = none := fun key =>
      (hc o.1 key).trans (entryAt_of_isEmpty (get_of_mem_items ho) he key)
    exact fun n key => (hs.entryAt hn n key).trans (hc n key)

end Spec

/-! ## One entry for each selected node -/

/-- The set has one entry that is not terminating for each selected node, the built one in the
shard of its type, and the entries of other sets are those there were. -/
structure Exact (shortDigest : String → String → String) (set : ServiceInterfaceSet)
    (nodes : List String) (before after : Shards) : Prop where
  own : ∀ n p, entryAt after n set.entryName = some p → p.entry.terminating = false →
    p.node ∈ nodes ∧ p.type = nsiTypeForSet set ∧
      n = nsiName shortDigest p.node (nsiTypeForSet set) ∧
      p.entry = buildInterfaceEntry set p.node
  each : ∀ node ∈ nodes, entryAt after (nsiName shortDigest node (nsiTypeForSet set))
    set.entryName = some ⟨node, nsiTypeForSet set, buildInterfaceEntry set node⟩
  others : ∀ n key, key ≠ set.entryName → entryAt after n key = entryAt before n key

/-- Of the entries that are not terminating, those on selected nodes are in the shard of the type
of the set, and each other node has none but the one that is listed last. -/
def Settled (set : ServiceInterfaceSet) (nodes : List String) (shards : Shards) : Prop :=
  ∀ o ∈ listNSIEntriesForServiceInterfaceSet set shards, o.entry.terminating = false →
    (o.nsi.node ∈ nodes → o.nsi.type = nsiTypeForSet set) ∧
    (o.nsi.node ∉ nodes →
      byNode (listNSIEntriesForServiceInterfaceSet set shards) o.nsi.node = some o)

/-- The nodes and types of the objects there are, and those of the selected nodes. -/
def inPlay (set : ServiceInterfaceSet) (nodes : List String) (shards : Shards) :
    Set (String × String) :=
  { p | (∃ n o, shards.get n = some o ∧ p = (o.node, o.type)) ∨
    p.1 ∈ nodes ∧ p.2 = nsiTypeForSet set }

theorem mem_staleNodes {nodes : List String} {owned : List OwnedNSIEntry} {node : String} :
    node ∈ staleNodes nodes owned ↔ (∃ o ∈ owned, o.nsi.node = node) ∧ node ∉ nodes := by
  simp [staleNodes]

/-- What a pass does to each entry of the set. -/
structure Passed (shortDigest : String → String → String) (set : ServiceInterfaceSet)
    (nodes : List String) (before after : Shards) : Prop where
  each : ∀ node ∈ nodes, entryAt after (nsiName shortDigest node (nsiTypeForSet set))
    set.entryName = some ⟨node, nsiTypeForSet set, buildInterfaceEntry set node⟩
  drained : ∀ node o, node ∉ nodes →
    byNode (listNSIEntriesForServiceInterfaceSet set before) node = some o →
      Quiet (entryAt after o.name set.entryName)
  kept : ∀ n, (∀ node ∈ nodes, n ≠ nsiName shortDigest node (nsiTypeForSet set)) →
    (∀ node o, node ∉ nodes →
      byNode (listNSIEntriesForServiceInterfaceSet set before) node = some o → n ≠ o.name) →
    entryAt after n set.entryName = entryAt before n set.entryName
  others : ∀ n key, key ≠ set.entryName → entryAt after n key = entryAt before n key

section Result

variable {shortDigest : String → String → String} {env : Env} {set : ServiceInterfaceSet}
  {shards shards' : Shards} {nodes : List String}
  (hname : ∀ n o, shards.get n = some o → n = nsiName shortDigest o.node o.type)
  (hinj : Collisionless shortDigest (inPlay set nodes shards))

include hname hinj

theorem reconcileNSI_passed (h : reconcileNSI shortDigest env set nodes shards = some shards') :
    Passed shortDigest set nodes shards shards' := by
  obtain ⟨mid, hm, h⟩ := bind_eq_some_iff.mp h
  obtain ⟨drained, hd, h⟩ := bind_eq_some_iff.mp h
  have hna : Named shortDigest (inPlay set nodes shards) shards :=
    ⟨hname, fun n o ho => .inl ⟨n, o, ho, rfl⟩⟩
  have hnodes : ∀ node ∈ nodes, (node, nsiTypeForSet set) ∈ inPlay set nodes shards :=
    fun node hno => .inr ⟨hno, rfl⟩
  have hup := upsert_spec hinj hnodes hna hm
  have hst : ∀ node, node ∈ env.mapOrder
      (staleNodes nodes (listNSIEntriesForServiceInterfaceSet set shards)) ↔ _ := fun node =>
    (env.mapOrder_perm _).mem_iff.trans mem_staleNodes
  have hdr := drain_spec hinj hnodes hna hup (fun node hno => ((hst node).mp hno).2)
    hd
  have hs := deleteEmptyNSIs_spec h
  refine ⟨fun node hno => ?_, fun node o hno ho => ?_, fun n hse hl => ?_, fun n key hk => ?_⟩
  · rw [hs]
    rcases hdr.own (nsiName shortDigest node (nsiTypeForSet set)) with how | ⟨-, x, o, hx, ho, hn⟩
    · rw [how]
      exact hup.done node hno
    · -- The drained entries are on other nodes, so in other objects.
      obtain ⟨hmem, rfl⟩ := byNode_eq_some ho
      have hg := (mem_listNSIEntries.mp hmem).1
      have hp := hinj (hna.mem _ _ hg) (hnodes node hno)
        ((hname _ _ hg).symm.trans hn.symm)
      exact absurd ((Prod.mk.inj hp).1 ▸ hno) hx
  · obtain ⟨hmem, hnode'⟩ := byNode_eq_some ho
    rw [hs]
    exact hdr.done node ((hst node).mpr ⟨⟨o, hmem, hnode'⟩, hno⟩) o ho
  · rw [hs]
    rcases hdr.own n with how | ⟨-, node, o, hno, ho, hn⟩
    · rw [how]
      rcases hup.own n with how | ⟨node, hno, hn, -⟩
      · exact how
      · exact absurd hn (hse node hno)
    · exact absurd hn (hl node o hno ho)
  · rw [hs, hdr.others n key hk]
    exact hup.others n key hk

/-- What a pass leaves is exact if and only if what it found was settled. -/
theorem reconcileNSI_exact_iff (h : reconcileNSI shortDigest env set nodes shards = some shards') :
    Exact shortDigest set nodes shards shards' ↔ Settled set nodes shards := by
  have hpas := reconcileNSI_passed hname hinj h
  -- An entry in a shard that is neither written nor drained stays.
  have hk : ∀ o ∈ listNSIEntriesForServiceInterfaceSet set shards,
      (o.nsi.node ∈ nodes → o.nsi.type ≠ nsiTypeForSet set) →
      (o.nsi.node ∉ nodes → byNode (listNSIEntriesForServiceInterfaceSet set shards) o.nsi.node ≠
        some o) →
      entryAt shards' o.name set.entryName = some ⟨o.nsi.node, o.nsi.type, o.entry⟩ := by
    intro o ho ht hl
    have hg := (mem_listNSIEntries.mp ho).1
    rw [← entryAt_of_mem_list ho]
    refine hpas.kept o.name (fun node hno hn => ?_) fun node o' hno ho' hn => ?_
    · have hpa : (o.nsi.node, o.nsi.type) = (node, nsiTypeForSet set) :=
        hinj (.inl ⟨_, _, hg, rfl⟩) (.inr ⟨hno, rfl⟩) ((hname _ _ hg).symm.trans hn)
      obtain ⟨hnode', htype'⟩ := Prod.mk.inj hpa
      exact ht (hnode' ▸ hno) htype'
    · obtain ⟨hmem', rfl⟩ := byNode_eq_some ho'
      have hs : o' = o := by
        obtain ⟨hget', hentry'⟩ := mem_listNSIEntries.mp hmem'
        have he := (mem_listNSIEntries.mp ho).2
        cases o
        cases o'
        obtain rfl := hn
        cases hg.symm.trans hget'
        cases he.symm.trans hentry'
        rfl
      subst hs
      exact hl hno ho'
  constructor
  · intro hex o ho ha
    by_contra hnot
    rw [not_and_or, Classical.not_imp, Classical.not_imp] at hnot
    have hat := hk o ho
      (fun hno => by
        rcases hnot with hnot | hnot
        · exact hnot.2
        · exact absurd hno hnot.1)
      (fun hno => by
        rcases hnot with hnot | hnot
        · exact absurd hnot.1 hno
        · exact hnot.2)
    obtain ⟨hno, ht, -⟩ := hex.own o.name _ hat ha
    rcases hnot with hnot | hnot
    · exact hnot.2 ht
    · exact hnot.1 hno
  · intro hset
    refine ⟨fun n p hp ha => ?_, hpas.each, hpas.others⟩
    by_cases hse : ∃ node ∈ nodes, n = nsiName shortDigest node (nsiTypeForSet set)
    · obtain ⟨node, hno, rfl⟩ := hse
      obtain rfl := some.inj (hp.symm.trans (hpas.each node hno))
      exact ⟨hno, rfl, rfl, rfl⟩
    -- Any other entry that is left was there before, and then it was drained.
    exfalso
    have hd : ∀ node o, node ∉ nodes →
        byNode (listNSIEntriesForServiceInterfaceSet set shards) node = some o → n ≠ o.name := by
      rintro node o hno ho rfl
      rw [hpas.drained node o hno ho p hp] at ha
      cases ha
    have hb := hpas.kept n (fun node hno hn => hse ⟨node, hno, hn⟩) hd
    rw [hp] at hb
    obtain ⟨nsi, hg, he, hno, ht⟩ := entryAt_eq_some.mp hb.symm
    have ho : (⟨n, nsi, p.entry⟩ : OwnedNSIEntry) ∈
        listNSIEntriesForServiceInterfaceSet set shards := mem_listNSIEntries.mpr ⟨hg, he⟩
    obtain ⟨hin, hou⟩ := hset _ ho ha
    by_cases hmem : nsi.node ∈ nodes
    · refine hse ⟨nsi.node, hmem, ?_⟩
      rw [← hin hmem]
      exact hname n nsi hg
    · exact hd nsi.node _ hmem (hou hmem) rfl

end Result

/-! ### A set with another provisioner -/

def vfTemplate : Definition :=
  { interfaceType := .vf, vf := some ⟨none, 1, 0, none, some "net"⟩ }

def vpcSet (provisioner : String) : ServiceInterfaceSet where
  ns := "dpf"
  name := "vfs"
  labels := [(provisionerNameLabel, provisioner)]
  templateLabels := []
  templateAnnotations := []
  template := vfTemplate

/-- The object of a node and type with one entry of the set. -/
def vpcShard (node type : String) (entry : InterfaceEntry) : NSI where
  node := node
  type := type
  nodeLabel := some node
  typeLabel := some type
  interfaces := Store.empty.put "dpf_vfs" entry
  statuses _ := none
  deleting := false
  finalizer := true

def typeDigest (_ nsiType : String) : String := nsiType

/-- Every call succeeds and every node is there. -/
def calmEnv : Env where
  isNodeGone _ _ := some false
  apply _ := true
  delete _ _ := true
  releaseFinalizers _ _ := true
  mapOrder nodes := nodes
  mapOrder_perm _ := List.Perm.refl _

/-- What the first provisioner's passes left on a node. -/
def vpcShards (entry : InterfaceEntry) : Shards :=
  Store.empty.put "n1-vpc-a-vpc-a" (vpcShard "n1" "vpc-a" entry)

theorem vpcShards_get {entry : InterfaceEntry} {n : String} {o : NSI}
    (h : (vpcShards entry).get n = some o) :
    n = "n1-vpc-a-vpc-a" ∧ o = vpcShard "n1" "vpc-a" entry := by
  unfold vpcShards at h
  rw [get_put] at h
  split_ifs at h with hn
  · exact ⟨hn, (some.inj h).symm⟩
  · cases h

theorem vpcShards_named {entry : InterfaceEntry} {n : String} {o : NSI}
    (h : (vpcShards entry).get n = some o) : n = nsiName typeDigest o.node o.type := by
  obtain ⟨rfl, rfl⟩ := vpcShards_get h
  show "n1-vpc-a-vpc-a" = nsiName typeDigest "n1" "vpc-a"
  decide +kernel

theorem vpcShards_collisionless (entry : InterfaceEntry) :
    Collisionless typeDigest (inPlay (vpcSet "b") ["n1"] (vpcShards entry)) := by
  have hmem : ∀ p ∈ inPlay (vpcSet "b") ["n1"] (vpcShards entry),
      p = ("n1", "vpc-a") ∨ p = ("n1", "vpc-b") := by
    rintro p (⟨n, o, ho, rfl⟩ | ⟨hn, ht⟩)
    · obtain ⟨-, rfl⟩ := vpcShards_get ho
      exact .inl rfl
    · exact .inr (Prod.ext (mem_singleton.mp hn) (ht.trans (by decide +kernel)))
  intro p hp q hq h
  rcases hmem p hp with rfl | rfl <;> rcases hmem q hq with rfl | rfl
  · rfl
  · exact absurd h (by decide +kernel)
  · exact absurd h (by decide +kernel)
  · rfl

/-- The entry for the first provisioner, once it is to go. -/
def drainingEntry : InterfaceEntry :=
  { buildInterfaceEntry (vpcSet "a") "n1" with terminating := true }

theorem drained_shard_exact :
    ∃ shards', reconcileNSI typeDigest calmEnv (vpcSet "b") ["n1"] (vpcShards drainingEntry) =
        some shards' ∧ Exact typeDigest (vpcSet "b") ["n1"] (vpcShards drainingEntry) shards' := by
  obtain ⟨shards', h⟩ := isSome_iff_exists.mp (by decide +kernel :
    (reconcileNSI typeDigest calmEnv (vpcSet "b") ["n1"] (vpcShards drainingEntry)).isSome = true)
  refine ⟨shards', h, (reconcileNSI_exact_iff (fun _ _ => vpcShards_named)
    (vpcShards_collisionless _) h).mpr fun o ho ha => ?_⟩
  -- The only entry is terminating.
  obtain ⟨hg, he⟩ := mem_listNSIEntries.mp ho
  obtain ⟨-, hn⟩ := vpcShards_get hg
  rw [hn] at he
  have ht : true = o.entry.terminating :=
    congrArg InterfaceEntry.terminating (some.inj he)
  rw [← ht] at ha
  cases ha

/-- The provisioner of the set changes. Its entry for the first one stays in the old shard and is
not drained, since its node is selected. -/
theorem old_shard_keeps_entry :
    ∃ shards', reconcileNSI typeDigest calmEnv (vpcSet "b") ["n1"]
        (vpcShards (buildInterfaceEntry (vpcSet "a") "n1")) = some shards' ∧
      ¬ Exact typeDigest (vpcSet "b") ["n1"]
        (vpcShards (buildInterfaceEntry (vpcSet "a") "n1")) shards' := by
  obtain ⟨shards', h, hat⟩ := map_eq_some_iff.mp (by decide +kernel :
    (reconcileNSI typeDigest calmEnv (vpcSet "b") ["n1"]
      (vpcShards (buildInterfaceEntry (vpcSet "a") "n1"))).map
        (fun s => entryAt s "n1-vpc-a-vpc-a" "dpf_vfs") =
      some (some ⟨"n1", "vpc-a", buildInterfaceEntry (vpcSet "a") "n1"⟩))
  refine ⟨shards', h, fun he => ?_⟩
  obtain ⟨-, ht, -⟩ := he.own "n1-vpc-a-vpc-a" _ hat rfl
  exact absurd ht (by decide +kernel)

end DocaPlatform.InterfaceShards
