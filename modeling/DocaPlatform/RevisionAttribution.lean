import DocaPlatform.RevisionPasses

/-!
# Passes that mistake one revision for another

For which names of services and interfaces each object that a pass generated is found, written and
deleted only on behalf of the service or interface it was generated for.
-/
namespace DocaPlatform.DeploymentRevisions

open KeyedStore Words

/-- The object is among the revisions that were found. -/
def Revisions.Finds {α : Type} (revisions : Revisions α) (o : Name × α) : Prop :=
  revisions.current = some o ∨ o ∈ revisions.stale

theorem finds_matched {α : Type} {matched : Name → Bool} {versionDigest : α → String}
    {digest : String} {existing : List (Name × α)} {o : Name × α}
    (h : (getCurrentAndStale matched versionDigest digest existing).Finds o) :
    matched o.1 = true := by
  rcases h with h | h
  · exact (mem_of_current h).2.1
  · exact (mem_stale.mp h).2.1

theorem finds_singleton {α : Type} {matched : Name → Bool} {versionDigest : α → String}
    {o : Name × α} (h : matched o.1 = true) :
    (getCurrentAndStale matched versionDigest (versionDigest o.2) [o]).Finds o := by
  left
  simp [getCurrentAndStale, h]

section Calls

variable {Values Template : Type} {lib : Library Values Template} {deployment : DPUDeployment}
  {inputs : Inputs Values Template} {cluster : Cluster}

theorem serviceCall_matched {behalf : Name} {call : ServiceCall}
    (h : (some behalf, call) ∈ (servicesPart lib deployment inputs cluster).calls) :
    (∃ service ∈ deployment.services, service.name = behalf) ∧
      matchDPUServiceName call.name behalf = true := by
  rcases mem_reconcileDPUServices_calls h with ⟨service, hs, patched, hb, hc⟩ | ⟨h, -⟩
  · cases hb
    refine ⟨⟨service, hs, rfl⟩, ?_⟩
    obtain ⟨configuration, -, hold | ⟨target, ht, rfl⟩⟩ := mem_serviceTurn_calls hc
    · obtain ⟨o, ho, rfl | rfl | rfl⟩ := mem_serviceRevision_calls hold
      · exact (mem_stale.mp ho).2.1
      · exact (mem_stale.mp ho).2.1
      · exact (mem_stale.mp ho).2.1
    · obtain rfl := serviceRevision_target ht
      exact matchDPUServiceName_revisionName _ _ _ _ _ _
  · cases h

theorem interfaceCall_matched {behalf : Name × Name} {call : InterfaceCall}
    (h : (some behalf, call) ∈ interfaceCalls lib deployment inputs cluster) :
    behalf.1 ∈ deployment.ranged ∧
      behalf.2 ∈ (inputs.dependencies.configurations behalf.1).interfaces ∧
      matchInterfaceName call.name behalf.1 behalf.2 = true := by
  obtain ⟨result, -, ⟨service, hs, owner, -, interface, hi, hb, hc⟩ | ⟨h, -⟩⟩ :=
    mem_interfaceCalls h
  · cases hb
    refine ⟨hs, hi, ?_⟩
    rcases mem_interfaceTurn_calls hc with hold | rfl
    · obtain ⟨-, -, o, ho, rfl⟩ := mem_interfaceRevision_calls hold
      exact (mem_stale.mp ho).2.1
    · exact matchInterfaceName_writtenName
        (matchInterfaceName_plannedName lib deployment inputs _ service interface)
  · cases h

end Calls

/-- The objects generated for the interfaces of a set are found only for their own interface, and
passes over interfaces of the set write and delete them only on behalf of it, exactly if the names
of the set are apart. -/
theorem interface_revisions_attributed_iff {Values Template : Type}
    (interfaces : Set (Name × Name)) :
    ((∀ q ∈ interfaces, ∀ p ∈ interfaces, ∀ (suffix : Suffix) (versionDigest : String)
        (existing : List (Name × DPUServiceInterface)) (o : DPUServiceInterface),
        (getCurrentAndStaleDPUServiceInterfaces p.2 p.1 versionDigest existing).Finds
          (generatedInterfaceName q.1 q.2 suffix, o) → p = q) ∧
      ∀ (lib : Library Values Template) (deployment : DPUDeployment)
        (inputs : Inputs Values Template) (cluster : Cluster),
        (∀ service ∈ deployment.ranged,
          ∀ interface ∈ (inputs.dependencies.configurations service).interfaces,
            (service, interface) ∈ interfaces) →
        ∀ p call, (some p, call) ∈ interfaceCalls lib deployment inputs cluster →
          ∀ q ∈ interfaces, ∀ suffix : Suffix,
            call.name = generatedInterfaceName q.1 q.2 suffix → p = q) ↔
      InterfaceNamesApart interfaces := by
  rw [interfaceNamesApart_iff]
  constructor
  · rintro ⟨hf, -⟩ q hq p hp suffix hm
    -- the object alone in the cluster, with the digest that is asked for
    exact hf q hq p hp suffix _ _ ⟨"", 0, [], q.1, q.2, false⟩ (finds_singleton hm)
  · intro ha
    refine ⟨?_, ?_⟩
    · intro q hq p hp suffix versionDigest existing o hf
      exact ha q hq p hp suffix (finds_matched hf)
    · intro lib deployment inputs cluster hco p call hc q hq suffix hn
      obtain ⟨hs, hi, hm⟩ := interfaceCall_matched hc
      rw [hn] at hm
      exact ha q hq p (hco p.1 hs p.2 hi) suffix hm

/-- A DPUService generated for a service of a set is found for it and for no other service of the
set, and passes over services of the set patch, pause and delete it only on behalf of it, exactly if
the names of the set are apart. -/
theorem service_revisions_attributed_iff {Values Template : Type} (services : Set Name) :
    ((∀ s ∈ services, ∀ t ∈ services, ∀ (suffix : Suffix) (v : DPUService),
        (∀ (versionDigest : String) (existing : List (Name × DPUService)),
          (getCurrentAndStaleDPUServices t versionDigest existing).Finds
            (generatedServiceName s suffix, v) → t = s) ∧
        (getCurrentAndStaleDPUServices s v.versionDigest
          [(generatedServiceName s suffix, v)]).Finds (generatedServiceName s suffix, v)) ∧
      ∀ (lib : Library Values Template) (deployment : DPUDeployment)
        (inputs : Inputs Values Template) (cluster : Cluster),
        (∀ service ∈ deployment.services, service.name ∈ services) →
        ∀ t call, (some t, call) ∈ (servicesPart lib deployment inputs cluster).calls →
          ∀ s ∈ services, ∀ suffix : Suffix,
            call.name = generatedServiceName s suffix → t = s) ↔
      ServiceNamesApart services := by
  rw [serviceNamesApart_iff]
  constructor
  · rintro ⟨hf, -⟩ s hs t ht suffix hm
    exact (hf s hs t ht suffix ⟨"", 0, false, [], false⟩).1 _ _ (finds_singleton hm)
  · intro ha
    refine ⟨?_, ?_⟩
    · intro s hs t ht suffix v
      refine ⟨?_, ?_⟩
      · intro versionDigest existing hf
        exact ha s hs t ht suffix (finds_matched hf)
      · have ho := matchDPUServiceName_generated s suffix
        exact @finds_singleton _ (fun name => matchDPUServiceName name s) DPUService.versionDigest
          (generatedServiceName s suffix, v) ho
    · intro lib deployment inputs cluster hco t call hc s hs suffix hn
      obtain ⟨⟨service, hsv, rfl⟩, hm⟩ := serviceCall_matched hc
      rw [hn] at hm
      exact ha s hs _ (hco service hsv) suffix hm

def sampleLibrary : Library ℕ Unit where
  digest values _ _ := if values = 0 then "digest-0" else "digest-1"
  template values _ _ := .ok values
  merge _ _ := .ok ()

def sampleSuffix : Suffix := ⟨['b', 'b', 'b', 'b', 'b'], by decide,
  mem_of_mem_replicate (n := 5) (by decide)⟩

/-- Two services without dependencies, with the default history limit. -/
def samplePair : DPUDeployment where
  services := [⟨['a'], []⟩, ⟨['b'], []⟩]
  ranged := [['a'], ['b']]
  perm := by decide
  distinct := by decide
  revisionHistoryLimit := 10
  positive := Nat.zero_lt_succ _

def sampleSingle : DPUDeployment where
  services := [⟨['s'], []⟩]
  ranged := [['s']]
  perm := by decide
  distinct := by decide
  revisionHistoryLimit := 10
  positive := Nat.zero_lt_succ _

/-- A pass in which every call succeeds. -/
def sampleInputs (configurations : Name → ServiceConfiguration ℕ) (ready : Bool) :
    Inputs ℕ Unit where
  now := 0
  dependencies := ⟨configurations, fun _ => ()⟩
  check _ := .ok ()
  suffix _ := sampleSuffix
  interfaceSuffix _ _ := sampleSuffix
  ready _ := ready
  readyLater _ := ready
  serviceOk _ _ := true
  interfaceOk _ _ := true

def emptyCluster : Cluster := ⟨.empty, .empty⟩

/-- Interfaces `p1` and `p10` of one service. -/
def numberedPorts : Inputs ℕ Unit :=
  sampleInputs (fun _ => ⟨0, [['p', '1'], ['p', '1', '0']], none⟩) false

/-- The second pass over an unchanged deployment with interfaces `p1` and `p10` takes the object of
`p10` for the one of `p1`, writes the spec of `p1` onto it and deletes the object of `p1`. -/
theorem longer_interface_taken_over :
    let cluster := reconcile sampleLibrary sampleSingle numberedPorts emptyCluster
    (some (['s'], ['p', '1']),
        InterfaceCall.apply (generatedInterfaceName ['s'] ['p', '1', '0'] sampleSuffix) "digest-0"
          (generatedServiceName ['s'] sampleSuffix) ['s'] ['p', '1']) ∈
      interfaceCalls sampleLibrary sampleSingle numberedPorts cluster ∧
    (none, InterfaceCall.delete (generatedInterfaceName ['s'] ['p', '1'] sampleSuffix)) ∈
      interfaceCalls sampleLibrary sampleSingle numberedPorts cluster := by
  decide +kernel

/-- Services `a` and `b` with different values. -/
def shortNames (ready : Bool) : Inputs ℕ Unit :=
  sampleInputs (fun service => ⟨if service = ['a'] then 0 else 1, [], none⟩) ready

/-- A revision of service `a` whose suffix ends with `b` is taken for an old revision of service
`b`: once `b` is ready, the only revision of `a` is deleted on behalf of `b`. -/
theorem short_service_deletes_other :
    let cluster := reconcile sampleLibrary samplePair (shortNames false) emptyCluster
    (some ['b'], ServiceCall.delete (generatedServiceName ['a'] sampleSuffix)) ∈
        (servicesPart sampleLibrary samplePair (shortNames true) cluster).calls ∧
      ((servicesAfter sampleLibrary samplePair (shortNames true) cluster).get
        (generatedServiceName ['a'] sampleSuffix)).map DPUService.deleting = some true := by
  decide +kernel

end DocaPlatform.DeploymentRevisions
