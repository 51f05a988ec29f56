import DocaPlatform.KeyedStore
import DocaPlatform.Words
import Mathlib.Data.String.Basic

/-!
# Service and interface revisions of a DPUDeployment

One pass of the DPUDeployment controller over the DPUServices and the DPUServiceInterfaces of a
deployment. A pass plans the names of the interfaces (`constructDPUServiceInterfaceNames`), then
writes one DPUService per service (`reconcileDPUServices`) and, if that succeeds, one
DPUServiceInterface per interface (`reconcileDPUServiceInterfaces`). Which revision of an object a
service or interface has is read off the generated names and off the version digest that each object
carries. What a pass does to the cluster is the list of its calls, each with the service or interface
on whose behalf it is made; any call may fail.
-/
namespace DocaPlatform.DeploymentRevisions

open KeyedStore Words List

/-- The name of an object, a service or an interface. -/
abbrev Name := List Char

/-- The alphabet of `utilrand.String`. -/
def alphanums : List Char :=
  ['b', 'c', 'd', 'f', 'g', 'h', 'j', 'k', 'l', 'm', 'n', 'p', 'q', 'r', 's', 't', 'v', 'w', 'x',
    'z', '2', '4', '5', '6', '7', '8', '9']

def resourceNameGeneratedSuffixLength : ℕ := 5

/-- A result of `utilrand.String(resourceNameGeneratedSuffixLength)`. -/
abbrev Suffix := Word alphanums resourceNameGeneratedSuffixLength

/-- The name that `generateDPUService` gives to a DPUService. -/
def generatedServiceName (service : Name) (suffix : Suffix) : Name :=
  service ++ '-' :: suffix.chars

/-- `strings.ReplaceAll(interface, "_", "-")`. -/
def replaceUnderscores (interface : Name) : Name :=
  interface.map fun c => if c = '_' then '-' else c

/-- The part of an interface's generated name that is not random, without its last dash. -/
def interfaceStem (service interface : Name) : Name :=
  service ++ '-' :: replaceUnderscores interface

def generatedInterfaceName (service interface : Name) (suffix : Suffix) : Name :=
  interfaceStem service interface ++ '-' :: suffix.chars

/-- `strings.LastIndex` for a single character. -/
def lastIndex (c : Char) (name : Name) : Option ℕ :=
  (name.reverse.findIdx? (· == c)).map fun k => name.length - 1 - k

def matchDPUServiceName (name dpuServiceName : Name) : Bool :=
  -- the legacy format, `<deployment>-<service>`
  if dpuServiceName.isSuffixOf name then true
  else
    match lastIndex '-' name with
    | none => false
    | some index =>
      if (name.drop index).length ≠ resourceNameGeneratedSuffixLength + 1 then false
      else name.take index == dpuServiceName

/-- The test on names in `getCurrentAndStaleDPUServiceInterfaces`. -/
def matchInterfaceName (name serviceName interfaceName : Name) : Bool :=
  (interfaceStem serviceName interfaceName).isPrefixOf name

/-! ## Objects and what a pass reads -/

structure DPUService where
  versionDigest : String
  creationTimestamp : ℕ
  paused : Bool
  /-- `spec.interfaces`. -/
  interfaces : List Name
  deleting : Bool
  deriving DecidableEq

structure DPUServiceInterface where
  versionDigest : String
  creationTimestamp : ℕ
  /-- The DPUService among its owner references. -/
  owner : Name
  /-- The service and the interface that its spec was written for. -/
  service : Name
  interface : Name
  deleting : Bool
  deriving DecidableEq

structure Cluster where
  services : Store Name DPUService
  interfaces : Store Name DPUServiceInterface

/-- The spec of a DPUServiceConfiguration: `values` stands for all of it that the pass does not look
into. -/
structure ServiceConfiguration (Values : Type) where
  values : Values
  interfaces : List Name
  /-- `upgradePolicy.applyNodeEffect`. -/
  applyNodeEffect : Option Bool

/-- A change of the configuration is disruptive unless the policy says otherwise. -/
def ServiceConfiguration.shouldApplyNodeEffect {Values : Type}
    (configuration : ServiceConfiguration Values) : Bool :=
  configuration.applyNodeEffect.getD true

structure Dependencies (Values Template : Type) where
  configurations : Name → ServiceConfiguration Values
  templates : Name → Template

structure Service where
  name : Name
  dependsOn : List Name

/-- A DPUDeployment, with the two orders in which a pass goes through its services. -/
structure DPUDeployment where
  /-- The services in the order of `servicesTopologicalSort`. -/
  services : List Service
  /-- The services in the order of a range over the map. -/
  ranged : List Name
  perm : ranged.Perm (services.map Service.name)
  distinct : (services.map Service.name).Nodup
  revisionHistoryLimit : ℕ
  positive : 0 < revisionHistoryLimit

/-- What the pass uses from elsewhere. -/
structure Library (Values Template : Type) where
  /-- The digest of a configuration without its upgrade policy, and of a template. -/
  digest : Values → List Name → Template → String
  /-- Renders values with the names of the DPUServices patched so far. -/
  template : Values → List Name → List (Name × Name) → Except String Values
  /-- Whether the values of a template and of a configuration can be merged. -/
  merge : Template → Values → Except String Unit

inductive ServiceCall where
  | pause (name : Name)
  | resume (name : Name)
  | delete (name : Name)
  | apply (name : Name) (versionDigest : String) (interfaces : List Name)
  deriving DecidableEq

def ServiceCall.name : ServiceCall → Name
  | .pause name | .resume name | .delete name | .apply name _ _ => name

inductive InterfaceCall where
  | delete (name : Name)
  | apply (name : Name) (versionDigest : String) (owner service interface : Name)
  deriving DecidableEq

def InterfaceCall.name : InterfaceCall → Name
  | .delete name | .apply name _ _ _ _ => name

/-- What one pass reads and meets besides the objects of the cluster. -/
structure Inputs (Values Template : Type) where
  now : ℕ
  dependencies : Dependencies Values Template
  /-- `checkDPUServiceDependencies` for a service that depends on others. -/
  check : Name → Except String Unit
  suffix : Name → Suffix
  interfaceSuffix : Name → Name → Suffix
  /-- Whether `reconcileDPUServices` finds the current revision of the service and the DPUSets
  ready. -/
  ready : Name → Bool
  /-- Whether `reconcileDPUServiceInterfaces` finds them ready. -/
  readyLater : Name → Bool
  /-- Whether a call succeeds, by the service or interface it is made for. -/
  serviceOk : Option Name → ServiceCall → Bool
  interfaceOk : Option (Name × Name) → InterfaceCall → Bool

inductive PassError where
  | checkDependencies (service : Name) (cause : String)
  | templating (service : Name) (cause : String)
  | generate (service : Name) (cause : String)
  | pause (service : Name)
  | patch (name : Name)
  | noCurrent (service : Name)
  | delete
  deriving DecidableEq

/-! ## Revisions -/

structure Revisions (α : Type) where
  current : Option (Name × α)
  stale : List (Name × α)

/-- The loop of `getCurrentAndStaleDPUServices` and of `getCurrentAndStaleDPUServiceInterfaces`: of
several objects with the digest the last one is the current revision, and the others are in neither
result. -/
def getCurrentAndStale {α : Type} (matched : Name → Bool) (versionDigest : α → String)
    (currentVersionDigest : String) (existing : List (Name × α)) : Revisions α where
  current := (existing.filter fun o =>
    matched o.1 && versionDigest o.2 == currentVersionDigest).getLast?
  stale := existing.filter fun o => matched o.1 && versionDigest o.2 != currentVersionDigest

def getCurrentAndStaleDPUServices (dpuServiceName : Name) (currentVersionDigest : String)
    (existing : List (Name × DPUService)) : Revisions DPUService :=
  getCurrentAndStale (fun name => matchDPUServiceName name dpuServiceName)
    DPUService.versionDigest currentVersionDigest existing

def getCurrentAndStaleDPUServiceInterfaces (serviceInterfaceName serviceName : Name)
    (currentVersionDigest : String) (existing : List (Name × DPUServiceInterface)) :
    Revisions DPUServiceInterface :=
  getCurrentAndStale (fun name => matchInterfaceName name serviceName serviceInterfaceName)
    DPUServiceInterface.versionDigest currentVersionDigest existing

/-- The youngest old revisions, the youngest first. -/
def getRevisionHistoryLimitList {α : Type} (creationTimestamp : α → ℕ)
    (oldRevisions : List (Name × α)) (revisionHistoryLimit : ℕ) : List (Name × α) :=
  (oldRevisions.insertionSort fun a b =>
    creationTimestamp a.2 ≤ creationTimestamp b.2).reverse.take revisionHistoryLimit

def firstName {α : Type} (revisions : List (Name × α)) (otherwise : Name) : Name :=
  match revisions with
  | [] => otherwise
  | first :: _ => first.1

/-- Calls made one after the other until one fails. -/
def untilFailure {γ : Type} (ok : γ → Bool) : List γ → List γ
  | [] => []
  | call :: rest => if ok call then call :: untilFailure ok rest else [call]

def failure {α : Type} : Except PassError α → Option PassError
  | .ok _ => none
  | .error e => some e

/-- The existing objects that no round has taken out of the map. -/
def leftovers {α : Type} (existing : List (Name × α)) (retained : List Name) : List (Name × α) :=
  existing.filter fun o => !retained.contains o.1

section Lists

variable {α γ : Type} {matched : Name → Bool} {versionDigest : α → String} {digest : String}
  {existing : List (Name × α)} {o : Name × α}

theorem mem_of_current (h : (getCurrentAndStale matched versionDigest digest existing).current =
    some o) : o ∈ existing ∧ matched o.1 = true ∧ versionDigest o.2 = digest := by
  have hmem := mem_filter.mp (mem_of_getLast? h)
  simpa using hmem

theorem current_eq_none :
    (getCurrentAndStale matched versionDigest digest existing).current = none ↔
      ∀ o ∈ existing, matched o.1 = true → versionDigest o.2 ≠ digest := by
  unfold getCurrentAndStale
  rw [getLast?_eq_none_iff, filter_eq_nil_iff]
  simp

theorem mem_stale :
    o ∈ (getCurrentAndStale matched versionDigest digest existing).stale ↔
      o ∈ existing ∧ matched o.1 = true ∧ versionDigest o.2 ≠ digest := by
  simp [getCurrentAndStale]

theorem mem_of_getRevisionHistoryLimitList {creationTimestamp : α → ℕ} {limit : ℕ}
    (h : o ∈ getRevisionHistoryLimitList creationTimestamp existing limit) : o ∈ existing := by
  have hmem := mem_reverse.mp (mem_of_mem_take h)
  exact (perm_insertionSort _ existing).mem_iff.mp hmem

theorem getRevisionHistoryLimitList_ne_nil (creationTimestamp : α → ℕ) {limit : ℕ}
    (hli : 0 < limit) (h : existing ≠ []) :
    getRevisionHistoryLimitList creationTimestamp existing limit ≠ [] := by
  unfold getRevisionHistoryLimitList
  intro hn
  have hl := congrArg List.length hn
  simp only [length_take, length_reverse, length_insertionSort,
    length_nil] at hl
  have := length_pos_iff.mpr h
  omega

theorem exists_firstName (h : existing ≠ []) (otherwise : Name) :
    ∃ o ∈ existing, firstName existing otherwise = o.1 := by
  cases existing with
  | nil => exact absurd rfl h
  | cons first rest => exact ⟨first, mem_cons_self, rfl⟩

/-- There is a youngest revision, and it is kept. -/
theorem exists_youngest (creationTimestamp : α → ℕ) {limit : ℕ} (hli : 0 < limit)
    (h : existing ≠ []) (otherwise : Name) :
    ∃ o ∈ existing, o ∈ getRevisionHistoryLimitList creationTimestamp existing limit ∧
      firstName (getRevisionHistoryLimitList creationTimestamp existing limit) otherwise = o.1 := by
  obtain ⟨o, ho, hf⟩ :=
    exists_firstName (getRevisionHistoryLimitList_ne_nil creationTimestamp hli h) otherwise
  exact ⟨o, mem_of_getRevisionHistoryLimitList ho, ho, hf⟩

theorem mem_leftovers {retained : List Name} :
    o ∈ leftovers existing retained ↔ o ∈ existing ∧ o.1 ∉ retained := by
  simp [leftovers]

theorem failure_eq_none {result : Except PassError α} :
    failure result = none ↔ ∃ a, result = .ok a := by
  cases result <;> simp [failure]

variable {ok : γ → Bool} {calls : List γ} {call : γ}

theorem mem_of_untilFailure (h : call ∈ untilFailure ok calls) : call ∈ calls := by
  induction calls with
  | nil => exact h
  | cons first rest ih =>
    unfold untilFailure at h
    split_ifs at h with hok
    · rcases mem_cons.mp h with rfl | h
      · exact mem_cons_self
      · exact mem_cons_of_mem _ (ih h)
    · rw [mem_singleton.mp h]
      exact mem_cons_self

theorem untilFailure_of_all (h : ∀ call ∈ calls, ok call = true) : untilFailure ok calls = calls := by
  induction calls with
  | nil => rfl
  | cons first rest ih =>
    unfold untilFailure
    rw [if_pos (h first mem_cons_self), ih fun call hc =>
      h call (mem_cons_of_mem _ hc)]

end Lists

/-- What a pass does about the old revisions before it writes the new one: the calls, the objects
that it takes out of the ones to be cleaned up, and the name that it writes under. -/
structure Revision (γ : Type) where
  calls : List γ
  retained : List Name
  target : Except PassError Name

section Pass

variable {Values Template : Type} (lib : Library Values Template) (deployment : DPUDeployment)
  (inputs : Inputs Values Template)

def calculateDPUServiceVersionDigest (configuration : ServiceConfiguration Values)
    (template : Template) : String :=
  lib.digest configuration.values configuration.interfaces template

/-- The name that `constructCurrentDPUServiceInterfaceNamesForService` plans for an interface. -/
def plannedName (existing : List (Name × DPUServiceInterface)) (service interface : Name) : Name :=
  let configuration := inputs.dependencies.configurations service
  let versionDigest := calculateDPUServiceVersionDigest lib configuration
    (inputs.dependencies.templates service)
  let generated := generatedInterfaceName service interface
    (inputs.interfaceSuffix service interface)
  let revisions := getCurrentAndStaleDPUServiceInterfaces interface service versionDigest existing
  match revisions.current with
  | some current => current.1
  | none =>
    if revisions.stale ≠ [] then
      if configuration.shouldApplyNodeEffect then generated
      else
        firstName (getRevisionHistoryLimitList DPUServiceInterface.creationTimestamp
          revisions.stale deployment.revisionHistoryLimit) generated
    else generated

/-- `spec.interfaces` of the DPUService of a service: the planned names of its interfaces, sorted. -/
def plannedInterfaces (existing : List (Name × DPUServiceInterface)) (service : Name) :
    List Name :=
  ((inputs.dependencies.configurations service).interfaces.dedup.map
    (plannedName lib deployment inputs existing service)).insertionSort (· ≤ ·)

/-! ## The services -/

def renderedConfiguration (patched : List (Name × Name)) (service : Service) :
    Except PassError (ServiceConfiguration Values) :=
  let configuration := inputs.dependencies.configurations service.name
  if service.dependsOn ≠ [] then
    match inputs.check service.name with
    | .error cause => .error (.checkDependencies service.name cause)
    | .ok _ =>
      match lib.template configuration.values service.dependsOn patched with
      | .error cause => .error (.templating service.name cause)
      | .ok rendered => .ok { configuration with values := rendered }
  else .ok configuration

/-- `cleanStaleDPUServices`: the objects are resumed only after all of them are deleted. -/
def cleanStaleDPUServices (ok : ServiceCall → Bool) (oldRevisions : List (Name × DPUService)) :
    List ServiceCall :=
  let deletions := oldRevisions.map fun o => ServiceCall.delete o.1
  if deletions.all ok then
    deletions ++ untilFailure ok (oldRevisions.map fun o => ServiceCall.resume o.1)
  else untilFailure ok deletions

def reconcileCurrentDPUServiceRevision (service : Name) (current : Name × DPUService)
    (oldRevisions : List (Name × DPUService)) : Revision ServiceCall where
  calls := if oldRevisions ≠ [] ∧ inputs.ready service = true then
    cleanStaleDPUServices (inputs.serviceOk (some service)) oldRevisions else []
  retained := current.1 :: oldRevisions.map Prod.fst
  target := .ok current.1

def reconcileDPUServiceWithOldRevisions (service : Name)
    (configuration : ServiceConfiguration Values) (oldRevisions : List (Name × DPUService)) :
    Revision ServiceCall :=
  let generated := generatedServiceName service (inputs.suffix service)
  if configuration.shouldApplyNodeEffect then
    let toRetain := getRevisionHistoryLimitList DPUService.creationTimestamp oldRevisions
      (deployment.revisionHistoryLimit - 1)
    let pauses := toRetain.map fun o => ServiceCall.pause o.1
    { calls := untilFailure (inputs.serviceOk (some service)) pauses
      retained := toRetain.map Prod.fst
      target := if pauses.all (inputs.serviceOk (some service)) then .ok generated
        else .error (.pause service) }
  else
    let toRetain := getRevisionHistoryLimitList DPUService.creationTimestamp oldRevisions
      deployment.revisionHistoryLimit
    { calls := []
      retained := toRetain.map Prod.fst
      target := .ok (firstName toRetain generated) }

def reconcileNewDPUServiceRevision (service : Name) : Revision ServiceCall where
  calls := []
  retained := []
  target := .ok (generatedServiceName service (inputs.suffix service))

/-- The switch in the loop of `reconcileDPUServices`. -/
def serviceRevision (existing : List (Name × DPUService)) (service : Name)
    (configuration : ServiceConfiguration Values) : Revision ServiceCall :=
  let versionDigest := calculateDPUServiceVersionDigest lib configuration
    (inputs.dependencies.templates service)
  let revisions := getCurrentAndStaleDPUServices service versionDigest existing
  match revisions.current with
  | some current => reconcileCurrentDPUServiceRevision inputs service current revisions.stale
  | none =>
    if revisions.stale ≠ [] then
      reconcileDPUServiceWithOldRevisions deployment inputs service configuration revisions.stale
    else reconcileNewDPUServiceRevision inputs service

/-- A DPUService as the pass wrote it. -/
structure PatchedService where
  name : Name
  interfaces : List Name

/-- What one round of the loop does. -/
structure ServiceTurn (Values : Type) where
  /-- The configuration that the rest of the pass sees. -/
  configuration : ServiceConfiguration Values
  calls : List ServiceCall
  retained : List Name
  result : Except PassError PatchedService

/-- One round of the loop, given the services of the cluster, the names planned for the interfaces
and the names of the DPUServices patched so far. -/
def serviceTurn (existing : List (Name × DPUService)) (interfaces : Name → List Name)
    (patched : List (Name × Name)) (service : Service) : ServiceTurn Values :=
  match renderedConfiguration lib inputs patched service with
  | .error e => ⟨inputs.dependencies.configurations service.name, [], [], .error e⟩
  | .ok configuration =>
    let template := inputs.dependencies.templates service.name
    match lib.merge template configuration.values with
    | .error cause => ⟨configuration, [], [], .error (.generate service.name cause)⟩
    | .ok _ =>
      let revision := serviceRevision lib deployment inputs existing service.name configuration
      match revision.target with
      | .error e => ⟨configuration, revision.calls, revision.retained, .error e⟩
      | .ok name =>
        let newRevision := ServiceCall.apply name
          (calculateDPUServiceVersionDigest lib configuration template) (interfaces service.name)
        ⟨configuration, revision.calls ++ [newRevision], revision.retained,
          if inputs.serviceOk (some service.name) newRevision then
            .ok ⟨name, interfaces service.name⟩
          else .error (.patch name)⟩

/-- The names under which the rounds so far have written. -/
def patchedNames (turns : List (Name × ServiceTurn Values)) : List (Name × Name) :=
  turns.filterMap fun turn => turn.2.result.toOption.map fun patched => (turn.1, patched.name)

/-- The rounds of the loop, after the ones that are done. -/
def serviceTurns (existing : List (Name × DPUService)) (interfaces : Name → List Name) :
    List (Name × ServiceTurn Values) → List Service → List (Name × ServiceTurn Values)
  | done, [] => done
  | done, service :: rest =>
    serviceTurns existing interfaces
      (done ++ [(service.name,
        serviceTurn lib deployment inputs existing interfaces (patchedNames done) service)]) rest

structure ServicesResult (Values : Type) where
  turns : List (Name × ServiceTurn Values)
  calls : List (Option Name × ServiceCall)
  errors : List PassError

def ServicesResult.patchedDPUServices (result : ServicesResult Values) :
    List (Name × PatchedService) :=
  result.turns.filterMap fun turn => turn.2.result.toOption.map fun patched => (turn.1, patched)

/-- The configuration of a service after `reconcileDPUServices`, which renders it in place. -/
def ServicesResult.configuration (result : ServicesResult Values) (service : Name) :
    ServiceConfiguration Values :=
  match result.turns.find? fun turn => turn.1 == service with
  | some turn => turn.2.configuration
  | none => inputs.dependencies.configurations service

def reconcileDPUServices (existing : List (Name × DPUService)) (interfaces : Name → List Name) :
    ServicesResult Values :=
  let turns := serviceTurns lib deployment inputs existing interfaces [] deployment.services
  let calls := turns.flatMap fun turn => turn.2.calls.map fun call => (some turn.1, call)
  let errors := turns.filterMap fun turn => failure turn.2.result
  if errors ≠ [] then ⟨turns, calls, errors⟩
  else
    let retained := turns.flatMap fun turn => turn.2.retained
    let deletions := (leftovers existing retained).map fun o => ServiceCall.delete o.1
    ⟨turns, calls ++ (untilFailure (inputs.serviceOk none) deletions).map fun call => (none, call),
      if deletions.all (inputs.serviceOk none) then [] else [.delete]⟩

/-- What a successful call does to the DPUServices. An apply leaves out `paused`, so that it takes
the field back. -/
def ServiceCall.effect (now : ℕ) (services : Store Name DPUService) :
    ServiceCall → Store Name DPUService
  | .pause name => services.modify name fun v => { v with paused := true }
  | .resume name => services.modify name fun v => { v with paused := false }
  | .delete name => services.modify name fun v => { v with deleting := true }
  | .apply name versionDigest interfaces =>
    services.put name <|
      match services.get name with
      | some v => { v with versionDigest, interfaces, paused := false }
      | none => ⟨versionDigest, now, false, interfaces, false⟩

def serviceEffects (services : Store Name DPUService) (calls : List (Option Name × ServiceCall)) :
    Store Name DPUService :=
  (calls.filter fun c => inputs.serviceOk c.1 c.2).foldl
    (fun services c => c.2.effect inputs.now services) services

/-! ## The interfaces -/

def reconcileCurrentDPUServiceInterfaceRevision (service interface : Name)
    (current : Name × DPUServiceInterface) (oldRevisions : List (Name × DPUServiceInterface)) :
    Revision InterfaceCall where
  -- `cleanStaleDPUServiceInterfaces`; the old revisions stay among the ones to be cleaned up
  calls := if oldRevisions ≠ [] ∧ inputs.readyLater service = true then
    untilFailure (inputs.interfaceOk (some (service, interface)))
      (oldRevisions.map fun o => InterfaceCall.delete o.1) else []
  retained := [current.1]
  target := .ok current.1

def reconcileDPUServiceInterfaceWithOldRevisions (configuration : ServiceConfiguration Values)
    (newName : Name) (oldRevisions : List (Name × DPUServiceInterface)) :
    Revision InterfaceCall :=
  if configuration.shouldApplyNodeEffect then
    let toRetain := getRevisionHistoryLimitList DPUServiceInterface.creationTimestamp oldRevisions
      (deployment.revisionHistoryLimit - 1)
    { calls := [], retained := toRetain.map Prod.fst, target := .ok newName }
  else
    let toRetain := getRevisionHistoryLimitList DPUServiceInterface.creationTimestamp oldRevisions
      deployment.revisionHistoryLimit
    { calls := [], retained := toRetain.map Prod.fst, target := .ok (firstName toRetain newName) }

/-- The switch in the loop of `reconcileDPUServiceInterfaces`. -/
def interfaceRevision (existing : List (Name × DPUServiceInterface)) (service interface : Name)
    (configuration : ServiceConfiguration Values) (versionDigest : String) (newName : Name) :
    Revision InterfaceCall :=
  let revisions := getCurrentAndStaleDPUServiceInterfaces interface service versionDigest existing
  match revisions.current with
  | some current =>
    reconcileCurrentDPUServiceInterfaceRevision inputs service interface current revisions.stale
  | none =>
    if revisions.stale ≠ [] then
      reconcileDPUServiceInterfaceWithOldRevisions deployment configuration newName revisions.stale
    else { calls := [], retained := [], target := .ok newName }

structure InterfaceTurn where
  calls : List InterfaceCall
  retained : List Name
  result : Except PassError Name

/-- One round of the inner loop, for an interface of a service whose DPUService is `owner`. -/
def interfaceTurn (existing : List (Name × DPUServiceInterface)) (service interface : Name)
    (configuration : ServiceConfiguration Values) (owner newName : Name) : InterfaceTurn :=
  let versionDigest := calculateDPUServiceVersionDigest lib configuration
    (inputs.dependencies.templates service)
  let revision := interfaceRevision deployment inputs existing service interface configuration
    versionDigest newName
  match revision.target with
  | .error e => ⟨revision.calls, revision.retained, .error e⟩
  | .ok name =>
    let newRevision := InterfaceCall.apply name versionDigest owner service interface
    ⟨revision.calls ++ [newRevision], revision.retained,
      if inputs.interfaceOk (some (service, interface)) newRevision then .ok name
      else .error (.patch name)⟩

/-- The name of the DPUService that the interfaces of a service belong to. -/
def currentDPUService (merged : List (Name × DPUService))
    (configurations : Name → ServiceConfiguration Values) (service : Name) : Option Name :=
  let versionDigest := calculateDPUServiceVersionDigest lib (configurations service)
    (inputs.dependencies.templates service)
  (getCurrentAndStaleDPUServices service versionDigest merged).current.map Prod.fst

/-- The rounds for the interfaces of one service. -/
def interfaceTurns (merged : List (Name × DPUService))
    (existing : List (Name × DPUServiceInterface))
    (configurations : Name → ServiceConfiguration Values) (planned : Name → Name → Name)
    (service : Name) : List ((Name × Name) × InterfaceTurn) :=
  match currentDPUService lib inputs merged configurations service with
  | none => []
  | some owner =>
    (configurations service).interfaces.map fun interface =>
      ((service, interface), interfaceTurn lib deployment inputs existing service interface
        (configurations service) owner (planned service interface))

structure InterfacesResult where
  turns : List ((Name × Name) × InterfaceTurn)
  calls : List (Option (Name × Name) × InterfaceCall)
  errors : List PassError

/-- An interface whose DPUService is paused is left alone by the cleanup. -/
def ownedByPaused (merged : List (Name × DPUService)) (o : DPUServiceInterface) : Bool :=
  merged.any fun v => v.2.paused && v.1 == o.owner

def reconcileDPUServiceInterfaces (merged : List (Name × DPUService))
    (existing : List (Name × DPUServiceInterface))
    (configurations : Name → ServiceConfiguration Values) (planned : Name → Name → Name) :
    InterfacesResult :=
  let turns := deployment.ranged.flatMap
    (interfaceTurns lib deployment inputs merged existing configurations planned)
  let calls := turns.flatMap fun turn => turn.2.calls.map fun call => (some turn.1, call)
  let missing := deployment.ranged.filter fun service =>
    (currentDPUService lib inputs merged configurations service).isNone
  let errors := missing.map PassError.noCurrent ++
    turns.filterMap fun turn => failure turn.2.result
  if errors ≠ [] then ⟨turns, calls, errors⟩
  else
    let retained := turns.flatMap fun turn => turn.2.retained
    let deletions := ((leftovers existing retained).filter fun o => !ownedByPaused merged o.2).map
      fun o => InterfaceCall.delete o.1
    ⟨turns, calls ++ (untilFailure (inputs.interfaceOk none) deletions).map fun call => (none, call),
      if deletions.all (inputs.interfaceOk none) then [] else [.delete]⟩

def InterfaceCall.effect (now : ℕ) (interfaces : Store Name DPUServiceInterface) :
    InterfaceCall → Store Name DPUServiceInterface
  | .delete name => interfaces.modify name fun o => { o with deleting := true }
  | .apply name versionDigest owner service interface =>
    interfaces.put name <|
      match interfaces.get name with
      | some o => { o with versionDigest, owner, service, interface }
      | none => ⟨versionDigest, now, owner, service, interface, false⟩

def interfaceEffects (interfaces : Store Name DPUServiceInterface)
    (calls : List (Option (Name × Name) × InterfaceCall)) : Store Name DPUServiceInterface :=
  (calls.filter fun c => inputs.interfaceOk c.1 c.2).foldl
    (fun interfaces c => c.2.effect inputs.now interfaces) interfaces

/-- What `reconcileDPUServices` does from a cluster. -/
def servicesPart (cluster : Cluster) : ServicesResult Values :=
  reconcileDPUServices lib deployment inputs cluster.services.items
    (plannedInterfaces lib deployment inputs cluster.interfaces.items)

def servicesAfter (cluster : Cluster) : Store Name DPUService :=
  serviceEffects inputs cluster.services (servicesPart lib deployment inputs cluster).calls

/-- What `reconcileDPUServiceInterfaces` does in the same pass, if it is reached. -/
def interfacesPart (cluster : Cluster) : Option InterfacesResult :=
  let services := servicesPart lib deployment inputs cluster
  if services.errors ≠ [] then none
  else
    some (reconcileDPUServiceInterfaces lib deployment inputs
      (servicesAfter lib deployment inputs cluster).items cluster.interfaces.items
      (services.configuration inputs) (plannedName lib deployment inputs cluster.interfaces.items))

/-- The calls of `reconcileDPUServiceInterfaces`. -/
def interfaceCalls (cluster : Cluster) : List (Option (Name × Name) × InterfaceCall) :=
  match interfacesPart lib deployment inputs cluster with
  | none => []
  | some result => result.calls

def reconcile (cluster : Cluster) : Cluster where
  services := servicesAfter lib deployment inputs cluster
  interfaces := interfaceEffects inputs cluster.interfaces
    (interfaceCalls lib deployment inputs cluster)

end Pass

end DocaPlatform.DeploymentRevisions
