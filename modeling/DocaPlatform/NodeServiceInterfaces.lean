import Mathlib.Tactic

/-!
# Entries of a NodeServiceInterfaces object

The entry that a ServiceInterfaceSet keeps in the NodeServiceInterfaces object of a node, its
status, and the OVS ports that the sfc-controller adds and deletes for it.
-/
namespace DocaPlatform.NodeServiceInterfaces

/-- What an entry asks for; for a PF and a VF the data that selects its representor. -/
inductive Definition where
  | vlan
  | physical (interfaceName : String)
  | pf (selector : String)
  | vf (selector : String)
  | service
  | ovn (externalBridge : Option String)
  /-- `reserved` if the external ids of the peer hold the reserved `dpf-id`. -/
  | patch (peerBridge : String) (peerPatchName : Option String) (reserved : Bool)
  deriving DecidableEq

structure InterfaceEntry where
  name : String
  terminating : Bool
  labels : List (String × String)
  /-- The annotation `noop-physical-removal` is there. -/
  noopRemoval : Bool
  definition : Definition
  deriving DecidableEq

/-- The template of a ServiceInterfaceSet. -/
structure Template where
  labels : List (String × String)
  noopRemoval : Bool
  definition : Definition
  deriving DecidableEq

def buildInterfaceEntry (name : String) (t : Template) : InterfaceEntry where
  name := name
  terminating := false
  labels := t.labels
  noopRemoval := t.noopRemoval
  definition := t.definition

/-- `InterfaceEntryStatus`. The observed spec hash is given by the entry it is the digest of. -/
structure InterfaceEntryStatus where
  observedSpecHash : Option InterfaceEntry
  ready : Bool
  resourceReleased : Bool
  deriving DecidableEq

def ensureEntryStatus : Option InterfaceEntryStatus → InterfaceEntryStatus
  | none => ⟨none, false, false⟩
  | some s => s

def isEntryResourceReleased (status : Option InterfaceEntryStatus) (entry : InterfaceEntry) :
    Bool :=
  match status with
  | none => false
  | some s => s.observedSpecHash = some entry && s.resourceReleased

theorem isEntryResourceReleased_iff {status : Option InterfaceEntryStatus}
    {entry : InterfaceEntry} :
    isEntryResourceReleased status entry = true ↔
      ∃ s, status = some s ∧ s.observedSpecHash = some entry ∧ s.resourceReleased = true := by
  cases status with
  | none => simp [isEntryResourceReleased]
  | some s => simp [isEntryResourceReleased]

/-! ## OVS ports -/

structure Port where
  bridge : String
  name : String
  deriving DecidableEq

def sfcBridge : String := "br-sfc"

def ovnBridge : String := "br-ovn"

/-- `strings.ReplaceAll(s, "-", "")`. -/
def stripped (s : String) : String := String.ofList (s.toList.filter (· ≠ '-'))

def fnv32a (s : String) : ℕ :=
  s.toUTF8.toList.foldl (fun h b => ((h ^^^ b.toNat) * 16777619) % 2 ^ 32) 2166136261

/-- Eight hexadecimal digits. -/
def hex8 (n : ℕ) : String :=
  String.ofList ((List.range 8).map fun i => Nat.digitChar (n / 16 ^ (7 - i) % 16))

def getPatchPortNames (metadata peerBridge : String) (peerPatchName : Option String) :
    String × String :=
  let a := stripped sfcBridge
  let b := stripped peerBridge
  match peerPatchName with
  | some name => ("p_" ++ a ++ "_to_" ++ name, name)
  | none =>
    let h := hex8 (fnv32a metadata)
    ("p_" ++ a ++ "_to_" ++ b ++ "_" ++ h, "p_" ++ b ++ "_to_" ++ a ++ "_" ++ h)

def getOVNPatchPortNames (brA brB : String) : String × String :=
  ("puplink" ++ stripped brA ++ "to" ++ stripped brB,
    "puplink" ++ stripped brB ++ "to" ++ stripped brA)

/-- `FigureOutName`: `resolved` is the representor that is found for a PF or a VF. -/
def figureOutName (resolved : Option String) : Definition → Option String
  | .physical interfaceName => some interfaceName
  | .pf _ | .vf _ => resolved
  | _ => some ""

/-- The port of a name on the SFC bridge; the empty name stands for no port. -/
def portOf (name : String) : List Port := if name = "" then [] else [⟨sfcBridge, name⟩]

/-- The two ends of a patch between the SFC bridge and another one. -/
def patchPorts (peerBridge : String) (names : String × String) : List Port :=
  [⟨sfcBridge, names.1⟩, ⟨peerBridge, names.2⟩]

/-- The ports that `AddInterfacesToOvs` adds, in this order, unless it fails before. -/
def portsToAdd (entry : InterfaceEntry) (resolved : Option String) : Option (List Port) :=
  match entry.definition with
  | .ovn externalBridge =>
    let peer := externalBridge.getD ovnBridge
    some (patchPorts peer (getOVNPatchPortNames sfcBridge peer)).reverse
  | .patch peerBridge peerPatchName reserved =>
    if peerBridge = "" || reserved then none
    else some (patchPorts peerBridge (getPatchPortNames entry.name peerBridge peerPatchName)).reverse
  | d => (figureOutName resolved d).map portOf

/-- Whether `DeleteInterfacesFromOvs` leaves a physical interface where it is. -/
def keepsPhysical (entry : InterfaceEntry) : Bool :=
  match entry.definition with
  | .physical _ => entry.noopRemoval
  | _ => false

/-- The ports that `DeleteInterfacesFromOvs` deletes, in this order, unless it fails before. If the
representor is not found, `recovered` is what `recoverPortNameForDeletion` says: the port that OVS
holds with the entry's `dpf-id`, empty if there is none, or nothing if OVS cannot be asked. -/
def portsToDelete (entry : InterfaceEntry) (resolved : Option String)
    (recovered : Option String) : Option (List Port) :=
  if keepsPhysical entry then some []
  else
    match entry.definition with
    | .ovn externalBridge =>
      let peer := externalBridge.getD ovnBridge
      some (patchPorts peer (getOVNPatchPortNames sfcBridge peer))
    | .patch peerBridge peerPatchName _ =>
      if peerBridge = "" then none
      else some (patchPorts peerBridge (getPatchPortNames entry.name peerBridge peerPatchName))
    | d => ((figureOutName resolved d).or recovered).map portOf

/-- The definition says itself which ports it needs. -/
def Definition.isFixed : Definition → Bool
  | .pf _ | .vf _ => false
  | _ => true

theorem portsToAdd_congr {e e' : InterfaceEntry} (hn : e'.name = e.name)
    (hd : e'.definition = e.definition) (resolved : Option String) :
    portsToAdd e' resolved = portsToAdd e resolved := by
  unfold portsToAdd
  rw [hd, hn]

/-- What is deleted for an entry is what was added for it, if the definition says itself which ports
it needs. -/
theorem mem_portsToDelete_of_mem_portsToAdd {e e' : InterfaceEntry}
    {resolved resolved' recovered : Option String} {added deleted : List Port} (hf : e.definition.isFixed = true)
    (hn : e'.name = e.name) (hde : e'.definition = e.definition)
    (hk : keepsPhysical e' = false) (ha : portsToAdd e resolved = some added)
    (hdel : portsToDelete e' resolved' recovered = some deleted) {p : Port} (hp : p ∈ added) :
    p ∈ deleted := by
  unfold portsToDelete at hdel
  unfold portsToAdd at ha
  rw [hk, if_neg Bool.false_ne_true, hde, hn] at hdel
  cases hd : e.definition with
  | ovn externalBridge =>
    simp only [hd] at ha hdel
    cases ha
    cases hdel
    exact List.mem_reverse.mp hp
  | patch peerBridge peerPatchName reserved =>
    simp only [hd] at ha hdel
    split_ifs at ha hdel
    · cases ha
      cases hdel
      exact List.mem_reverse.mp hp
  | pf | vf => exact absurd (hd ▸ hf) (by simp [Definition.isFixed])
  | physical | vlan | service =>
    simp only [hd, figureOutName, Option.map_some, Option.or, Option.some.injEq] at ha hdel
    subst ha hdel
    exact hp

end DocaPlatform.NodeServiceInterfaces
