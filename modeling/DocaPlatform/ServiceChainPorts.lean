import DocaPlatform.ServiceChainFlows
import DocaPlatform.LabelSelectors

/-!
# The ports of a service chain

How the ServiceChain controller finds the OpenFlow port for a port of a switch: the labels of the
port select one interface, an entry of the NodeServiceInterfaces of the node or a ServiceInterface,
and the `dpf-id` of the interface selects a row of OVS. For a service the `dpf-id` is that of the
pod. A Firefly pod and one uplink in a switch also get the flows of PTP between them.
-/
namespace DocaPlatform.ServiceChainPorts

open FlowTables (Flow exactly)
open LabelSelectors

/-! ## Interfaces and ports -/

def dpfServiceIDLabelKey : String := "svc.dpu.nvidia.com/service"

def customFlowsLabelKey : String := "svc.dpu.nvidia.com/custom-flows"

def customFlowsFireflyValue : String := "firefly"

structure ServiceDef where
  serviceID : String
  interfaceName : String
  deriving DecidableEq

/-- The type of an interface, with the `Service` field of one of type service. -/
inductive InterfaceType where
  | service (definition : Option ServiceDef)
  | physical
  | other
  deriving DecidableEq

structure InterfaceEntry where
  ns : String
  /-- The name of the entry, which is the `dpf-id` of its port. -/
  name : String
  labels : Labels
  terminating : Bool
  ready : Bool
  interfaceType : InterfaceType

structure ServiceInterface where
  ns : String
  name : String
  labels : Labels
  node : Option String
  virtualNetwork : Bool
  ready : Bool
  interfaceType : InterfaceType

structure Pod where
  ns : String
  name : String
  labels : Labels
  nodeName : String

/-- An `Interface` row of OVS. -/
structure OvsInterface where
  name : String
  dpfID : Option String
  ofport : Option ℤ

/-- What the calls made for one port return. Each of them may fail. -/
structure View where
  serviceInterfaces : Option (List ServiceInterface)
  pods : Option (List Pod)
  interfaces : Option (List OvsInterface)
  /-- `IsPortInBr` for the bridge `br-sfc`. -/
  isPortInBr : String → Option Bool
  /-- The ofport of the row that `Get` reads by name. -/
  get : String → Option (Option ℤ)

/-- `MatchingLabels`. -/
def selects (lbls labels : Labels) : Bool := lbls.all fun kv => labels.get kv.1 = some kv.2

structure ResolvedInterface where
  interfaceType : InterfaceType
  condition : String
  ready : Bool

/-- The controller of one node, and the chain it is looked at for. -/
structure Site where
  nodeName : String
  ns : String
  hashedName : ℕ

namespace Site

variable (s : Site)

/-- Rows in the bridge, in the order of the list; `none` for a failed call, and for a row without
an ofport. -/
def firstInBr (v : View) : List OvsInterface → Option (Option String)
  | [] => some none
  | i :: rest =>
    match v.isPortInBr i.name with
    | none => none
    | some false => firstInBr v rest
    | some true => i.ofport.map fun p => some (toString p)

def findInterface (v : View) (condition : String) : Option String := do
  let all ← v.interfaces
  let ifaces := all.filter (·.dpfID = some condition)
  if ifaces.length = 0 ∨ 2 < ifaces.length then none
  else
    match ← firstInBr v ifaces with
    | some port => some port
    | none =>
      match ifaces with
      | [iface] =>
        -- The port that the OVS CNI made for a pod of HBN.
        let portName := "p" ++ iface.name ++ "brsfc"
        if ← v.isPortInBr portName then (← v.get portName).map toString else none
      | _ => none

inductive PodLookup where
  | found (pod : Pod)
  | notFound
  | failed

def getPodWithLabels (v : View) (lbls : Labels) : PodLookup :=
  match v.pods with
  | none => .failed
  | some pods =>
    match pods.filter fun p => p.ns = s.ns && p.nodeName = s.nodeName && selects lbls p.labels with
    | [] => .notFound
    | [pod] => .found pod
    | _ => .failed

def getServiceInterfaceListWithLabels (v : View) (lbls : Labels) :
    Option (List ServiceInterface) :=
  v.serviceInterfaces.map fun sil =>
    sil.filter fun si => si.ns = s.ns && selects lbls si.labels && si.node = some s.nodeName

/-- Entries of the NodeServiceInterfaces come first; ServiceInterfaces count where no entry
matches. An entry that is being drained is no match. -/
def getInterfaceCandidates (v : View) (nsi : Option (List InterfaceEntry)) (lbls : Labels) :
    Option (List ResolvedInterface) :=
  let entries := (nsi.getD []).filter fun e =>
    e.ns = s.ns && selects lbls e.labels && !e.terminating
  if entries.length ≠ 0 then
    some (entries.map fun e => ⟨e.interfaceType, e.name, e.ready⟩)
  else
    (s.getServiceInterfaceListWithLabels v lbls).map fun sil =>
      sil.map fun si => ⟨si.interfaceType, si.ns ++ "/" ++ si.name, !si.virtualNetwork && si.ready⟩

def getSingleInterfaceCandidate (v : View) (nsi : Option (List InterfaceEntry)) (lbls : Labels) :
    Option ResolvedInterface :=
  match s.getInterfaceCandidates v nsi lbls with
  | some [candidate] => some candidate
  | _ => none

def getPortNameForInterfaceEntry (v : View) (interfaceType : InterfaceType) (condition : String) :
    Option String :=
  match interfaceType with
  | .service none => none
  | .service (some svc) =>
    match s.getPodWithLabels v [(dpfServiceIDLabelKey, svc.serviceID)] with
    | .found pod => findInterface v (pod.ns ++ "/" ++ pod.name ++ "/" ++ svc.interfaceName)
    | _ => none
  | _ => findInterface v condition

def resolveSwitchPort (v : View) (nsi : Option (List InterfaceEntry)) (port : Labels) :
    Option String := do
  let candidate ← s.getSingleInterfaceCandidate v nsi port
  if candidate.ready then
    s.getPortNameForInterfaceEntry v candidate.interfaceType candidate.condition
  else none

/-- Whether the pod of the service is one of Firefly; `none` for a failed call. -/
def isFireflyServicePod (v : View) (serviceID : String) : Option Bool :=
  match s.getPodWithLabels v [(dpfServiceIDLabelKey, serviceID)] with
  | .found pod => some (pod.labels.get customFlowsLabelKey = some customFlowsFireflyValue)
  | .notFound => some false
  | .failed => none

/-- The port of a Firefly service or of an uplink; `some none` for an interface that plays no
part. -/
def resolveFireflyPort (v v' : View) (nsi : Option (List InterfaceEntry)) (port : Labels) :
    Option (Option (String × Bool)) := do
  let candidate ← s.getSingleInterfaceCandidate v nsi port
  let resolve (isService : Bool) : Option (Option (String × Bool)) :=
    if candidate.ready then
      (s.getPortNameForInterfaceEntry v' candidate.interfaceType candidate.condition).map
        fun ofPort => some (ofPort, isService)
    else none
  match candidate.interfaceType with
  | .service none => none
  | .service (some svc) =>
    if ← s.isFireflyServicePod v svc.serviceID then resolve true else some none
  | .physical => resolve false
  | .other => some none

/-- What the loop over the ports of a switch gathers. -/
structure FireflySwitch where
  serviceOfPort : Option String := none
  uplinkOfPorts : List String := []
  failed : Bool := false

def FireflySwitch.port (sw : FireflySwitch) : Option (Option (String × Bool)) → FireflySwitch
  | none => { sw with failed := true }
  | some none => sw
  | some (some (ofPort, true)) =>
    if sw.serviceOfPort.isSome then { sw with failed := true }
    else { sw with serviceOfPort := some ofPort }
  | some (some (ofPort, false)) => { sw with uplinkOfPorts := sw.uplinkOfPorts ++ [ofPort] }

/-- The service port and the uplink that PTP flows are written for. -/
def FireflySwitch.pair (sw : FireflySwitch) : Option (String × String) :=
  match sw.serviceOfPort, sw.uplinkOfPorts with
  | some service, [uplink] => some (service, uplink)
  | _, _ => none

/-- The loop failed, or there is a service port without exactly one uplink. -/
def FireflySwitch.hasErrors (sw : FireflySwitch) : Bool :=
  sw.failed || (sw.serviceOfPort.isSome && sw.pair.isNone)

end Site

def priorityCustomFlows : ℕ := 50

def nonForwardablePTPMulticastMac : FlowTables.Mac := 0x0180c200000e#48

/-- The flow of one direction of `ensurePTPMulticastFlows`. -/
def ptpFlow (hashedName : ℕ) (inPort outPort : String) : Flow String where
  cookie := hashedName
  table := 0
  priority := priorityCustomFlows
  criteria := exactly inPort nonForwardablePTPMulticastMac
  idleTimeout := none
  actions := [.output outPort]

end DocaPlatform.ServiceChainPorts
