import DocaPlatform.RevisionNames

/-!
# The calls of a pass

What the two parts of a pass can do, read off their loops once: which rounds there are, under which
name each of them writes and which objects it touches.
-/
namespace DocaPlatform.DeploymentRevisions

open KeyedStore Words List

section Services

variable {Values Template : Type} {lib : Library Values Template} {deployment : DPUDeployment}
  {inputs : Inputs Values Template} {existing : List (Name × DPUService)}
  {interfaces : Name → List Name} {patched : List (Name × Name)} {service : Service}
  {configuration : ServiceConfiguration Values}

def versionDigestOf (lib : Library Values Template) (inputs : Inputs Values Template)
    (service : Name) (configuration : ServiceConfiguration Values) : String :=
  calculateDPUServiceVersionDigest lib configuration (inputs.dependencies.templates service)

/-- Rendering changes the values only. -/
theorem renderedConfiguration_eq_ok
    (h : renderedConfiguration lib inputs patched service = .ok configuration) :
    configuration.interfaces = (inputs.dependencies.configurations service.name).interfaces ∧
      configuration.applyNodeEffect =
        (inputs.dependencies.configurations service.name).applyNodeEffect := by
  unfold renderedConfiguration at h
  dsimp only at h
  split_ifs at h with hd
  · split at h
    · cases h
    · split at h
      · cases h
      · cases h
        exact ⟨rfl, rfl⟩
  · cases h
    exact ⟨rfl, rfl⟩

theorem renderedConfiguration_of_independent (h : service.dependsOn = []) :
    renderedConfiguration lib inputs patched service =
      .ok (inputs.dependencies.configurations service.name) := by
  simp [renderedConfiguration, h]

/-! ### Rounds -/

variable (lib deployment inputs existing) in
/-- A round goes on with the current revision, or there is none and it pauses old revisions before it
creates a new one, or it updates the youngest one. -/
theorem serviceRevision_cases (name : Name) (configuration : ServiceConfiguration Values) :
    let revisions := getCurrentAndStaleDPUServices name
      (versionDigestOf lib inputs name configuration) existing
    let revision := serviceRevision lib deployment inputs existing name configuration
    let ok := inputs.serviceOk (some name)
    let generated := generatedServiceName name (inputs.suffix name)
    let kept := getRevisionHistoryLimitList DPUService.creationTimestamp revisions.stale
    let pauses := (kept (deployment.revisionHistoryLimit - 1)).map fun o => ServiceCall.pause o.1
    (∃ current, revisions.current = some current ∧
        revision = reconcileCurrentDPUServiceRevision inputs name current revisions.stale) ∨
      (revisions.current = none ∧ configuration.shouldApplyNodeEffect = true ∧
        revision = ⟨untilFailure ok pauses,
          (kept (deployment.revisionHistoryLimit - 1)).map Prod.fst,
          if pauses.all ok then .ok generated else .error (.pause name)⟩) ∨
      (revisions.current = none ∧ configuration.shouldApplyNodeEffect = false ∧
        revision = ⟨[], (kept deployment.revisionHistoryLimit).map Prod.fst,
          .ok (firstName (kept deployment.revisionHistoryLimit) generated)⟩) := by
  intro revisions revision ok generated kept pauses
  cases hc : revisions.current with
  | some current =>
    refine .inl ⟨current, rfl, ?_⟩
    simp only [revisions, versionDigestOf] at hc
    simp [revision, serviceRevision, hc, revisions, versionDigestOf]
  | none =>
    -- a service without revisions is one with no old revision to keep
    have hr : revision = reconcileDPUServiceWithOldRevisions deployment inputs name configuration
        revisions.stale := by
      simp only [revisions, versionDigestOf] at hc
      simp only [revision, serviceRevision, hc, revisions, versionDigestOf]
      split_ifs with hs
      · rfl
      · simp [not_not.mp hs, reconcileDPUServiceWithOldRevisions, reconcileNewDPUServiceRevision,
          getRevisionHistoryLimitList, untilFailure, firstName]
    rw [hr]
    unfold reconcileDPUServiceWithOldRevisions
    cases hd : configuration.shouldApplyNodeEffect with
    | true => exact .inr (.inl ⟨rfl, rfl, rfl⟩)
    | false => exact .inr (.inr ⟨rfl, rfl, rfl⟩)

variable {call : ServiceCall}

theorem mem_of_cleanStaleDPUServices {ok : ServiceCall → Bool} {old : List (Name × DPUService)}
    (h : call ∈ cleanStaleDPUServices ok old) :
    ∃ o ∈ old, call = .delete o.1 ∨ call = .resume o.1 := by
  unfold cleanStaleDPUServices at h
  simp only at h
  split_ifs at h
  · rcases mem_append.mp h with h | h
    · obtain ⟨o, ho, rfl⟩ := mem_map.mp h
      exact ⟨o, ho, .inl rfl⟩
    · obtain ⟨o, ho, rfl⟩ := mem_map.mp (mem_of_untilFailure h)
      exact ⟨o, ho, .inr rfl⟩
  · obtain ⟨o, ho, rfl⟩ := mem_map.mp (mem_of_untilFailure h)
    exact ⟨o, ho, .inl rfl⟩

/-- Before it writes, a round touches only old revisions of its service. -/
theorem mem_serviceRevision_calls {name : Name}
    (h : call ∈ (serviceRevision lib deployment inputs existing name configuration).calls) :
    ∃ o ∈ (getCurrentAndStaleDPUServices name (versionDigestOf lib inputs name configuration)
      existing).stale, call = .delete o.1 ∨ call = .resume o.1 ∨ call = .pause o.1 := by
  rcases serviceRevision_cases lib deployment inputs existing name configuration with
    ⟨current, -, heq⟩ | ⟨-, -, heq⟩ | ⟨-, -, heq⟩
  · rw [heq] at h
    simp only [reconcileCurrentDPUServiceRevision] at h
    split_ifs at h
    · obtain ⟨o, ho, hc⟩ := mem_of_cleanStaleDPUServices h
      exact ⟨o, ho, hc.imp_right .inl⟩
    · cases h
  · rw [heq] at h
    obtain ⟨o, ho, rfl⟩ := mem_map.mp (mem_of_untilFailure h)
    exact ⟨o, mem_of_getRevisionHistoryLimitList ho, .inr (.inr rfl)⟩
  · rw [heq] at h
    cases h

/-- The name that a round writes under, if it gets so far. -/
def revisionName (lib : Library Values Template) (deployment : DPUDeployment)
    (inputs : Inputs Values Template) (existing : List (Name × DPUService)) (name : Name)
    (configuration : ServiceConfiguration Values) : Name :=
  let revisions := getCurrentAndStaleDPUServices name
    (versionDigestOf lib inputs name configuration) existing
  let generated := generatedServiceName name (inputs.suffix name)
  match revisions.current with
  | some current => current.1
  | none =>
    if revisions.stale ≠ [] ∧ configuration.shouldApplyNodeEffect = false then
      firstName (getRevisionHistoryLimitList DPUService.creationTimestamp revisions.stale
        deployment.revisionHistoryLimit) generated
    else generated

theorem serviceRevision_target {name target : Name}
    (h : (serviceRevision lib deployment inputs existing name configuration).target = .ok target) :
    target = revisionName lib deployment inputs existing name configuration := by
  unfold revisionName
  rcases serviceRevision_cases lib deployment inputs existing name configuration with
    ⟨current, hc, heq⟩ | ⟨hc, hd, heq⟩ | ⟨hc, hd, heq⟩
  · rw [heq] at h
    simp only [hc]
    exact (Except.ok.inj h).symm
  · rw [heq] at h
    dsimp only at h
    split_ifs at h
    simp [hc, hd, Except.ok.inj h]
  · rw [heq] at h
    obtain rfl := Except.ok.inj h
    dsimp only
    rw [hc]
    by_cases hs : (getCurrentAndStaleDPUServices name
      (versionDigestOf lib inputs name configuration) existing).stale = []
    · simp [hs, getRevisionHistoryLimitList, firstName]
    · simp [hs, hd]

/-- A round writes under the name of a revision of its service, or under a new name. -/
theorem revisionName_cases (lib : Library Values Template) (deployment : DPUDeployment)
    (inputs : Inputs Values Template) (existing : List (Name × DPUService)) (name : Name)
    (configuration : ServiceConfiguration Values) :
    revisionName lib deployment inputs existing name configuration =
        generatedServiceName name (inputs.suffix name) ∨
      ∃ o ∈ existing, o.1 = revisionName lib deployment inputs existing name configuration ∧
        matchDPUServiceName o.1 name = true := by
  unfold revisionName
  dsimp only
  split
  · next current hc =>
    obtain ⟨hmem, hm, -⟩ := mem_of_current hc
    exact .inr ⟨current, hmem, rfl, hm⟩
  · split_ifs with hs
    · obtain ⟨o, ho, -, hf⟩ := exists_youngest DPUService.creationTimestamp deployment.positive hs.1
        (generatedServiceName name (inputs.suffix name))
      obtain ⟨hmem, hm, -⟩ := mem_stale.mp ho
      exact .inr ⟨o, hmem, hf.symm, hm⟩
    · exact .inl rfl

theorem matchDPUServiceName_revisionName (lib : Library Values Template)
    (deployment : DPUDeployment) (inputs : Inputs Values Template)
    (existing : List (Name × DPUService)) (name : Name)
    (configuration : ServiceConfiguration Values) :
    matchDPUServiceName (revisionName lib deployment inputs existing name configuration) name =
      true := by
  rcases revisionName_cases lib deployment inputs existing name configuration with
    heq | ⟨o, -, heq, hm⟩
  · rw [heq]
    exact matchDPUServiceName_generated _ _
  · rw [← heq]
    exact hm

theorem mem_serviceTurn_calls
    (h : call ∈ (serviceTurn lib deployment inputs existing interfaces patched service).calls) :
    ∃ configuration, renderedConfiguration lib inputs patched service = .ok configuration ∧
      (call ∈ (serviceRevision lib deployment inputs existing service.name configuration).calls ∨
        ∃ target, (serviceRevision lib deployment inputs existing service.name
            configuration).target = .ok target ∧
          call = .apply target (versionDigestOf lib inputs service.name configuration)
            (interfaces service.name)) := by
  unfold serviceTurn at h
  cases hr : renderedConfiguration lib inputs patched service with
  | error e =>
    rw [hr] at h
    cases h
  | ok configuration =>
    refine ⟨configuration, rfl, ?_⟩
    simp only [hr] at h
    split at h
    · cases h
    · split at h
      · exact .inl h
      · next target ht =>
        rcases mem_append.mp h with h | h
        · exact .inl h
        · exact .inr ⟨target, ht, mem_singleton.mp h⟩

/-- A round that succeeds has rendered the configuration, made the calls about the old revisions and
written its DPUService. -/
theorem serviceTurn_eq_ok {written : PatchedService}
    (h : (serviceTurn lib deployment inputs existing interfaces patched service).result =
      .ok written) :
    ∃ configuration, renderedConfiguration lib inputs patched service = .ok configuration ∧
      (serviceRevision lib deployment inputs existing service.name configuration).target =
        .ok written.name ∧
      written.interfaces = interfaces service.name ∧
      inputs.serviceOk (some service.name) (.apply written.name
        (versionDigestOf lib inputs service.name configuration) written.interfaces) = true ∧
      serviceTurn lib deployment inputs existing interfaces patched service =
        ⟨configuration,
          (serviceRevision lib deployment inputs existing service.name configuration).calls ++
            [.apply written.name (versionDigestOf lib inputs service.name configuration)
              written.interfaces],
          (serviceRevision lib deployment inputs existing service.name configuration).retained,
          .ok written⟩ := by
  cases hr : renderedConfiguration lib inputs patched service with
  | error e =>
    simp only [serviceTurn, hr] at h
    cases h
  | ok configuration =>
    cases hm : lib.merge (inputs.dependencies.templates service.name) configuration.values with
    | error cause =>
      simp only [serviceTurn, hr, hm] at h
      cases h
    | ok merged =>
      cases ht : (serviceRevision lib deployment inputs existing service.name
          configuration).target with
      | error e =>
        simp only [serviceTurn, hr, hm, ht] at h
        cases h
      | ok target =>
        simp only [serviceTurn, hr, hm, ht] at h
        split_ifs at h with hok
        cases h
        refine ⟨configuration, rfl, ht, rfl, hok, ?_⟩
        simp [serviceTurn, hr, hm, ht, hok, versionDigestOf]

theorem serviceTurn_configuration :
    (serviceTurn lib deployment inputs existing interfaces patched service).configuration.interfaces
        = (inputs.dependencies.configurations service.name).interfaces ∧
      (serviceTurn lib deployment inputs existing interfaces patched
          service).configuration.applyNodeEffect =
        (inputs.dependencies.configurations service.name).applyNodeEffect := by
  unfold serviceTurn
  cases hr : renderedConfiguration lib inputs patched service with
  | error e => exact ⟨rfl, rfl⟩
  | ok configuration =>
    have hs := renderedConfiguration_eq_ok hr
    dsimp only
    split
    · exact hs
    · split
      · exact hs
      · exact hs

/-- Every round of the loop is the round of one of the services. -/
theorem mem_serviceTurns {done : List (Name × ServiceTurn Values)} {services : List Service}
    {turn : Name × ServiceTurn Values}
    (h : turn ∈ serviceTurns lib deployment inputs existing interfaces done services) :
    turn ∈ done ∨ ∃ service ∈ services, ∃ patched,
      turn = (service.name,
        serviceTurn lib deployment inputs existing interfaces patched service) := by
  induction services generalizing done with
  | nil => exact .inl h
  | cons service rest ih =>
    rcases ih h with hd | ⟨later, hl, patched, rfl⟩
    · rcases mem_append.mp hd with hd | hn
      · exact .inl hd
      · exact .inr ⟨service, mem_cons_self, patchedNames done, mem_singleton.mp hn⟩
    · exact .inr ⟨later, mem_cons_of_mem _ hl, patched, rfl⟩

theorem serviceTurns_names (done : List (Name × ServiceTurn Values)) (services : List Service) :
    (serviceTurns lib deployment inputs existing interfaces done services).map Prod.fst =
      done.map Prod.fst ++ services.map Service.name := by
  induction services generalizing done with
  | nil => simp [serviceTurns]
  | cons service rest ih =>
    unfold serviceTurns
    rw [ih]
    simp

/-! ### The whole of `reconcileDPUServices` -/

theorem reconcileDPUServices_turns :
    (reconcileDPUServices lib deployment inputs existing interfaces).turns =
      serviceTurns lib deployment inputs existing interfaces [] deployment.services := by
  unfold reconcileDPUServices
  dsimp only
  split_ifs <;> rfl

theorem mem_reconcileDPUServices_turns {turn : Name × ServiceTurn Values}
    (h : turn ∈ (reconcileDPUServices lib deployment inputs existing interfaces).turns) :
    ∃ service ∈ deployment.services, ∃ patched, turn = (service.name,
      serviceTurn lib deployment inputs existing interfaces patched service) := by
  rw [reconcileDPUServices_turns] at h
  exact (mem_serviceTurns h).resolve_left not_mem_nil

theorem exists_reconcileDPUServices_turn (h : service ∈ deployment.services) :
    ∃ patched, (service.name,
        serviceTurn lib deployment inputs existing interfaces patched service) ∈
      (reconcileDPUServices lib deployment inputs existing interfaces).turns := by
  have hn : service.name ∈
      (reconcileDPUServices lib deployment inputs existing interfaces).turns.map Prod.fst := by
    rw [reconcileDPUServices_turns, serviceTurns_names]
    exact mem_map_of_mem h
  obtain ⟨turn, ht, hf⟩ := mem_map.mp hn
  obtain ⟨other, ho, patched, rfl⟩ := mem_reconcileDPUServices_turns ht
  obtain rfl := inj_on_of_nodup_map deployment.distinct ho h hf
  exact ⟨patched, ht⟩

/-- The names that the rounds have taken out of the map. -/
def ServicesResult.retained (result : ServicesResult Values) : List Name :=
  result.turns.flatMap fun turn => turn.2.retained

def ServicesResult.turnCalls (result : ServicesResult Values) :
    List (Option Name × ServiceCall) :=
  result.turns.flatMap fun turn => turn.2.calls.map fun call => (some turn.1, call)

theorem ServicesResult.mem_turnCalls {result : ServicesResult Values} {behalf : Option Name} :
    (behalf, call) ∈ result.turnCalls ↔
      ∃ turn ∈ result.turns, behalf = some turn.1 ∧ call ∈ turn.2.calls := by
  simp only [turnCalls, mem_flatMap, mem_map, Prod.mk.injEq]
  constructor
  · rintro ⟨turn, ht, other, ho, rfl, rfl⟩
    exact ⟨turn, ht, rfl, ho⟩
  · rintro ⟨turn, ht, rfl, hc⟩
    exact ⟨turn, ht, call, hc, rfl, rfl⟩

/-- The services part has failed in a round, or it cleans up what is left over. -/
theorem reconcileDPUServices_cases (lib : Library Values Template) (deployment : DPUDeployment)
    (inputs : Inputs Values Template) (existing : List (Name × DPUService))
    (interfaces : Name → List Name) :
    let result := reconcileDPUServices lib deployment inputs existing interfaces
    let deletions := (leftovers existing result.retained).map fun o => ServiceCall.delete o.1
    (result.errors ≠ [] ∧ result.calls = result.turnCalls) ∨
      ((∀ turn ∈ result.turns, ∃ written, turn.2.result = .ok written) ∧
        result.calls = result.turnCalls ++
          (untilFailure (inputs.serviceOk none) deletions).map (fun call => (none, call)) ∧
        (result.errors = [] → ∀ call ∈ deletions, inputs.serviceOk none call = true)) := by
  intro result deletions
  have ht : result.turns =
      serviceTurns lib deployment inputs existing interfaces [] deployment.services :=
    reconcileDPUServices_turns
  by_cases he : ((serviceTurns lib deployment inputs existing interfaces []
      deployment.services).filterMap fun turn => failure turn.2.result) = []
  · refine .inr ⟨?_, ?_, ?_⟩
    · intro turn htu
      rw [ht] at htu
      exact failure_eq_none.mp (filterMap_eq_nil_iff.mp he turn htu)
    · simp [result, deletions, reconcileDPUServices, he, ServicesResult.turnCalls,
        ServicesResult.retained]
    · intro hn call hc
      have hall : deletions.all (inputs.serviceOk none) = true := by
        by_contra hf
        simp only [result, deletions, reconcileDPUServices, he, ServicesResult.retained,
          ne_eq, not_true_eq_false, if_false] at hn hf
        simp [hf] at hn
      exact all_eq_true.mp hall call hc
  · refine .inl ⟨?_, ?_⟩
    · simp [result, reconcileDPUServices, he]
    · simp [result, reconcileDPUServices, he, ServicesResult.turnCalls]

theorem mem_reconcileDPUServices_calls {behalf : Option Name}
    (h : (behalf, call) ∈ (reconcileDPUServices lib deployment inputs existing interfaces).calls) :
    (∃ service ∈ deployment.services, ∃ patched, behalf = some service.name ∧ call ∈
        (serviceTurn lib deployment inputs existing interfaces patched service).calls) ∨
      behalf = none ∧ ∃ o ∈ leftovers existing
        (reconcileDPUServices lib deployment inputs existing interfaces).retained,
        call = .delete o.1 := by
  have hr : (behalf, call) ∈
      (reconcileDPUServices lib deployment inputs existing interfaces).turnCalls →
      ∃ service ∈ deployment.services, ∃ patched, behalf = some service.name ∧ call ∈
        (serviceTurn lib deployment inputs existing interfaces patched service).calls := by
    intro hmem
    obtain ⟨turn, ht, hb, hca⟩ := ServicesResult.mem_turnCalls.mp hmem
    obtain ⟨service, hs, patched, rfl⟩ := mem_reconcileDPUServices_turns ht
    exact ⟨service, hs, patched, hb, hca⟩
  rcases reconcileDPUServices_cases lib deployment inputs existing interfaces with
    ⟨-, hc⟩ | ⟨-, hc, -⟩
  · exact .inl (hr (hc ▸ h))
  · rw [hc] at h
    rcases mem_append.mp h with h | h
    · exact .inl (hr h)
    · obtain ⟨deletion, hd, heq⟩ := mem_map.mp h
      obtain ⟨rfl, rfl⟩ := Prod.mk.inj heq
      obtain ⟨o, ho, rfl⟩ := mem_map.mp (mem_of_untilFailure hd)
      exact .inr ⟨rfl, o, ho, rfl⟩

/-- The interfaces and the upgrade policy of a service are the same before and after it is
rendered. -/
theorem reconcileDPUServices_configuration (name : Name) :
    ((reconcileDPUServices lib deployment inputs existing interfaces).configuration inputs
        name).interfaces = (inputs.dependencies.configurations name).interfaces ∧
      ((reconcileDPUServices lib deployment inputs existing interfaces).configuration inputs
        name).applyNodeEffect = (inputs.dependencies.configurations name).applyNodeEffect := by
  unfold ServicesResult.configuration
  split
  · next turn hf =>
    obtain ⟨service, -, patched, rfl⟩ :=
      mem_reconcileDPUServices_turns (mem_of_find?_eq_some hf)
    have hn : service.name = name := by simpa using find?_some hf
    subst hn
    exact serviceTurn_configuration
  · exact ⟨rfl, rfl⟩

end Services

section Interfaces

variable {Values Template : Type} {lib : Library Values Template} {deployment : DPUDeployment}
  {inputs : Inputs Values Template} {existing : List (Name × DPUServiceInterface)}
  {service interface : Name} {configuration : ServiceConfiguration Values} {newName : Name}

/-! ### Rounds -/

variable (deployment inputs existing service interface configuration) in
/-- A round goes on with the current revision of its interface, or there is none and it takes a new
name or that of the youngest one. -/
theorem interfaceRevision_cases (versionDigest : String) (newName : Name) :
    let revisions := getCurrentAndStaleDPUServiceInterfaces interface service versionDigest existing
    let revision := interfaceRevision deployment inputs existing service interface configuration
      versionDigest newName
    let limit := deployment.revisionHistoryLimit
    let kept := getRevisionHistoryLimitList DPUServiceInterface.creationTimestamp revisions.stale
      (if configuration.shouldApplyNodeEffect then limit - 1 else limit)
    (∃ current, revisions.current = some current ∧
        revision = reconcileCurrentDPUServiceInterfaceRevision inputs service interface current
          revisions.stale) ∨
      (revisions.current = none ∧ revision = ⟨[], kept.map Prod.fst,
        .ok (if configuration.shouldApplyNodeEffect then newName else firstName kept newName)⟩) := by
  intro revisions revision limit kept
  cases hc : revisions.current with
  | some current =>
    refine .inl ⟨current, rfl, ?_⟩
    simp only [revisions] at hc
    simp [revision, interfaceRevision, hc, revisions]
  | none =>
    refine .inr ⟨rfl, ?_⟩
    simp only [revisions] at hc
    simp only [revision, interfaceRevision, hc, kept, revisions, limit,
      reconcileDPUServiceInterfaceWithOldRevisions]
    split_ifs with hs hd hd
    · rfl
    · rfl
    all_goals simp [not_not.mp hs, getRevisionHistoryLimitList, firstName]

variable {call : InterfaceCall} {result : InterfacesResult}

/-- Before it writes, a round deletes old revisions of its interface at most, and only if there is a
current one and the service is ready. -/
theorem mem_interfaceRevision_calls {versionDigest : String}
    (h : call ∈ (interfaceRevision deployment inputs existing service interface configuration
      versionDigest newName).calls) :
    inputs.readyLater service = true ∧
      (getCurrentAndStaleDPUServiceInterfaces interface service versionDigest existing).current ≠
        none ∧
      ∃ o ∈ (getCurrentAndStaleDPUServiceInterfaces interface service versionDigest existing).stale,
        call = .delete o.1 := by
  rcases interfaceRevision_cases deployment inputs existing service interface configuration
    versionDigest newName with ⟨current, hc, heq⟩ | ⟨-, heq⟩
  · rw [heq] at h
    simp only [reconcileCurrentDPUServiceInterfaceRevision] at h
    split_ifs at h with hr
    · obtain ⟨o, ho, rfl⟩ := mem_map.mp (mem_of_untilFailure h)
      exact ⟨hr.2, by simp [hc], o, ho, rfl⟩
    · cases h
  · rw [heq] at h
    cases h

/-- The name that a round writes under. -/
def writtenName (deployment : DPUDeployment) (existing : List (Name × DPUServiceInterface))
    (service interface : Name) (configuration : ServiceConfiguration Values)
    (versionDigest : String) (newName : Name) : Name :=
  let revisions := getCurrentAndStaleDPUServiceInterfaces interface service versionDigest existing
  match revisions.current with
  | some current => current.1
  | none =>
    if revisions.stale ≠ [] ∧ configuration.shouldApplyNodeEffect = false then
      firstName (getRevisionHistoryLimitList DPUServiceInterface.creationTimestamp revisions.stale
        deployment.revisionHistoryLimit) newName
    else newName

theorem interfaceRevision_target (versionDigest : String) :
    (interfaceRevision deployment inputs existing service interface configuration versionDigest
        newName).target =
      .ok (writtenName deployment existing service interface configuration versionDigest
        newName) := by
  unfold writtenName
  rcases interfaceRevision_cases deployment inputs existing service interface configuration
    versionDigest newName with ⟨current, hc, heq⟩ | ⟨hc, heq⟩
  · rw [heq]
    simp only [hc]
    rfl
  · rw [heq]
    dsimp only
    rw [hc]
    by_cases hs : (getCurrentAndStaleDPUServiceInterfaces interface service versionDigest
      existing).stale = []
    · simp [hs, getRevisionHistoryLimitList, firstName]
    · cases hd : configuration.shouldApplyNodeEffect <;> simp [hs]

theorem matchInterfaceName_writtenName {versionDigest : String}
    (h : matchInterfaceName newName service interface = true) :
    matchInterfaceName (writtenName deployment existing service interface configuration
      versionDigest newName) service interface = true := by
  unfold writtenName
  dsimp only
  split
  · next current hc => exact (mem_of_current hc).2.1
  · split_ifs with hs
    · obtain ⟨o, ho, -, hf⟩ := exists_youngest DPUServiceInterface.creationTimestamp
        deployment.positive hs.1 newName
      rw [hf]
      exact (mem_stale.mp ho).2.1
    · exact h

variable (lib inputs) in
/-- The plan makes the choice of the interfaces part, with the digest of what was read and a new
name. -/
theorem plannedName_eq_writtenName :
    plannedName lib deployment inputs existing service interface =
      writtenName deployment existing service interface (inputs.dependencies.configurations service)
        (versionDigestOf lib inputs service (inputs.dependencies.configurations service))
        (generatedInterfaceName service interface (inputs.interfaceSuffix service interface)) := by
  unfold plannedName writtenName versionDigestOf
  dsimp only
  generalize getCurrentAndStaleDPUServiceInterfaces interface service _ existing = revisions
  obtain ⟨current, stale⟩ := revisions
  cases current with
  | some current => rfl
  | none =>
    by_cases hs : stale = []
    · simp [hs]
    · cases (inputs.dependencies.configurations service).shouldApplyNodeEffect <;> simp [hs]

variable (lib deployment inputs existing) in
theorem matchInterfaceName_plannedName (service interface : Name) :
    matchInterfaceName (plannedName lib deployment inputs existing service interface) service
      interface = true := by
  rw [plannedName_eq_writtenName]
  exact matchInterfaceName_writtenName (matchInterfaceName_generated _ _ _)

theorem interfaceTurn_eq (owner : Name) :
    let versionDigest := versionDigestOf lib inputs service configuration
    let revision := interfaceRevision deployment inputs existing service interface configuration
      versionDigest newName
    let name := writtenName deployment existing service interface configuration versionDigest
      newName
    let newRevision := InterfaceCall.apply name versionDigest owner service interface
    interfaceTurn lib deployment inputs existing service interface configuration owner newName =
      ⟨revision.calls ++ [newRevision], revision.retained,
        if inputs.interfaceOk (some (service, interface)) newRevision then .ok name
        else .error (.patch name)⟩ := by
  simp only [interfaceTurn, interfaceRevision_target, versionDigestOf]
  rfl

theorem mem_interfaceTurn_calls {owner : Name}
    (h : call ∈ (interfaceTurn lib deployment inputs existing service interface configuration owner
      newName).calls) :
    call ∈ (interfaceRevision deployment inputs existing service interface configuration
        (versionDigestOf lib inputs service configuration) newName).calls ∨
      call = .apply (writtenName deployment existing service interface configuration
          (versionDigestOf lib inputs service configuration) newName)
        (versionDigestOf lib inputs service configuration) owner service interface := by
  rw [interfaceTurn_eq] at h
  rcases mem_append.mp h with h | h
  · exact .inl h
  · exact .inr (mem_singleton.mp h)

variable {merged : List (Name × DPUService)}
  {configurations : Name → ServiceConfiguration Values} {planned : Name → Name → Name}

/-- The names that the rounds have taken out of the map. -/
def InterfacesResult.retained (result : InterfacesResult) : List Name :=
  result.turns.flatMap fun turn => turn.2.retained

def InterfacesResult.turnCalls (result : InterfacesResult) :
    List (Option (Name × Name) × InterfaceCall) :=
  result.turns.flatMap fun turn => turn.2.calls.map fun call => (some turn.1, call)

theorem InterfacesResult.mem_turnCalls {behalf : Option (Name × Name)} :
    (behalf, call) ∈ result.turnCalls ↔
      ∃ turn ∈ result.turns, behalf = some turn.1 ∧ call ∈ turn.2.calls := by
  simp only [turnCalls, mem_flatMap, mem_map, Prod.mk.injEq]
  constructor
  · rintro ⟨turn, ht, other, ho, rfl, rfl⟩
    exact ⟨turn, ht, rfl, ho⟩
  · rintro ⟨turn, ht, rfl, hc⟩
    exact ⟨turn, ht, call, hc, rfl, rfl⟩

theorem reconcileDPUServiceInterfaces_turns :
    (reconcileDPUServiceInterfaces lib deployment inputs merged existing configurations
        planned).turns =
      deployment.ranged.flatMap
        (interfaceTurns lib deployment inputs merged existing configurations planned) := by
  unfold reconcileDPUServiceInterfaces
  dsimp only
  split_ifs <;> rfl

/-- The rounds: one for each interface of each service that has a current DPUService. -/
theorem mem_reconcileDPUServiceInterfaces_turns {turn : (Name × Name) × InterfaceTurn} :
    turn ∈ (reconcileDPUServiceInterfaces lib deployment inputs merged existing configurations
        planned).turns ↔
      ∃ service ∈ deployment.ranged, ∃ owner,
        currentDPUService lib inputs merged configurations service = some owner ∧
        ∃ interface ∈ (configurations service).interfaces,
          turn = ((service, interface), interfaceTurn lib deployment inputs existing service
            interface (configurations service) owner (planned service interface)) := by
  rw [reconcileDPUServiceInterfaces_turns, mem_flatMap]
  constructor
  · rintro ⟨service, hs, ht⟩
    unfold interfaceTurns at ht
    split at ht
    · cases ht
    · next owner ho =>
      obtain ⟨interface, hi, rfl⟩ := mem_map.mp ht
      exact ⟨service, hs, owner, ho, interface, hi, rfl⟩
  · rintro ⟨service, hs, owner, ho, interface, hi, rfl⟩
    refine ⟨service, hs, ?_⟩
    simp only [interfaceTurns, ho]
    exact mem_map_of_mem hi

/-- The interfaces part has failed in a round, or it cleans up what is left over. -/
theorem reconcileDPUServiceInterfaces_cases (lib : Library Values Template)
    (deployment : DPUDeployment) (inputs : Inputs Values Template)
    (merged : List (Name × DPUService)) (existing : List (Name × DPUServiceInterface))
    (configurations : Name → ServiceConfiguration Values) (planned : Name → Name → Name) :
    let result := reconcileDPUServiceInterfaces lib deployment inputs merged existing configurations
      planned
    let deletions := ((leftovers existing result.retained).filter fun o =>
      !ownedByPaused merged o.2).map fun o => InterfaceCall.delete o.1
    (result.errors ≠ [] ∧ result.calls = result.turnCalls) ∨
      ((∀ service ∈ deployment.ranged,
          currentDPUService lib inputs merged configurations service ≠ none) ∧
        result.calls = result.turnCalls ++
          (untilFailure (inputs.interfaceOk none) deletions).map fun call => (none, call)) := by
  intro result deletions
  by_cases he : ((deployment.ranged.filter fun service =>
        (currentDPUService lib inputs merged configurations service).isNone).map
          PassError.noCurrent ++
      (deployment.ranged.flatMap (interfaceTurns lib deployment inputs merged existing
        configurations planned)).filterMap fun turn => failure turn.2.result) = []
  · refine .inr ⟨?_, ?_⟩
    · intro service hs hn
      have hm := (append_eq_nil_iff.mp he).1
      have hmem : service ∈ deployment.ranged.filter fun service =>
          (currentDPUService lib inputs merged configurations service).isNone :=
        mem_filter.mpr ⟨hs, by simp [hn]⟩
      rw [map_eq_nil_iff.mp hm] at hmem
      cases hmem
    · simp [result, deletions, reconcileDPUServiceInterfaces, he, InterfacesResult.turnCalls,
        InterfacesResult.retained]
  · refine .inl ⟨?_, ?_⟩
    · simp [result, reconcileDPUServiceInterfaces, he]
    · simp [result, reconcileDPUServiceInterfaces, he, InterfacesResult.turnCalls]

/-! ### In a pass -/

section Pass

variable (lib deployment inputs) (cluster : Cluster)

/-- The configuration of a service as the interfaces part sees it. -/
def configurationAfter (service : Name) : ServiceConfiguration Values :=
  (servicesPart lib deployment inputs cluster).configuration inputs service

/-- The DPUService that the interfaces part takes as the current one of a service. -/
def ownerAfter (service : Name) : Option Name :=
  currentDPUService lib inputs (servicesAfter lib deployment inputs cluster).items
    (configurationAfter lib deployment inputs cluster) service

def interfaceRound (owner service interface : Name) : InterfaceTurn :=
  interfaceTurn lib deployment inputs cluster.interfaces.items service interface
    (configurationAfter lib deployment inputs cluster service) owner
    (plannedName lib deployment inputs cluster.interfaces.items service interface)

end Pass

variable {cluster : Cluster}

theorem configurationAfter_same (service : Name) :
    (configurationAfter lib deployment inputs cluster service).interfaces =
        (inputs.dependencies.configurations service).interfaces ∧
      (configurationAfter lib deployment inputs cluster service).applyNodeEffect =
        (inputs.dependencies.configurations service).applyNodeEffect :=
  reconcileDPUServices_configuration service

/-- What `reconcileDPUServiceInterfaces` is called with in a pass. -/
theorem interfacesPart_eq_some (h : interfacesPart lib deployment inputs cluster = some result) :
    (servicesPart lib deployment inputs cluster).errors = [] ∧
      result = reconcileDPUServiceInterfaces lib deployment inputs
        (servicesAfter lib deployment inputs cluster).items cluster.interfaces.items
        (configurationAfter lib deployment inputs cluster)
        (plannedName lib deployment inputs cluster.interfaces.items) := by
  unfold interfacesPart at h
  dsimp only at h
  split_ifs at h with he
  exact ⟨not_not.mp he, (Option.some.inj h).symm⟩

theorem mem_interfacesPart_turns (h : interfacesPart lib deployment inputs cluster = some result)
    {turn : (Name × Name) × InterfaceTurn} :
    turn ∈ result.turns ↔ ∃ service ∈ deployment.ranged, ∃ owner,
      ownerAfter lib deployment inputs cluster service = some owner ∧
      ∃ interface ∈ (inputs.dependencies.configurations service).interfaces,
        turn = ((service, interface),
          interfaceRound lib deployment inputs cluster owner service interface) := by
  obtain ⟨-, rfl⟩ := interfacesPart_eq_some h
  rw [mem_reconcileDPUServiceInterfaces_turns]
  simp only [(configurationAfter_same _).1]
  rfl

/-- A call of the interfaces part is one of a round, for an interface of a configured service, or
one of the cleanup. -/
theorem mem_interfaceCalls {behalf : Option (Name × Name)}
    (h : (behalf, call) ∈ interfaceCalls lib deployment inputs cluster) :
    ∃ result, interfacesPart lib deployment inputs cluster = some result ∧
      ((∃ service ∈ deployment.ranged, ∃ owner,
          ownerAfter lib deployment inputs cluster service = some owner ∧
          ∃ interface ∈ (inputs.dependencies.configurations service).interfaces,
            behalf = some (service, interface) ∧
            call ∈ (interfaceRound lib deployment inputs cluster owner service interface).calls) ∨
        behalf = none ∧
          (∀ service ∈ deployment.ranged, ownerAfter lib deployment inputs cluster service ≠ none) ∧
          ∃ o ∈ leftovers cluster.interfaces.items result.retained,
            ownedByPaused (servicesAfter lib deployment inputs cluster).items o.2 = false ∧
            call = .delete o.1) := by
  unfold interfaceCalls at h
  cases hp : interfacesPart lib deployment inputs cluster with
  | none =>
    rw [hp] at h
    cases h
  | some result =>
    rw [hp] at h
    dsimp only at h
    refine ⟨result, rfl, ?_⟩
    have hr (hmem : (behalf, call) ∈ result.turnCalls) :
        ∃ service ∈ deployment.ranged, ∃ owner,
          ownerAfter lib deployment inputs cluster service = some owner ∧
          ∃ interface ∈ (inputs.dependencies.configurations service).interfaces,
            behalf = some (service, interface) ∧
            call ∈ (interfaceRound lib deployment inputs cluster owner service
              interface).calls := by
      obtain ⟨turn, ht, hb, hca⟩ := InterfacesResult.mem_turnCalls.mp hmem
      obtain ⟨service, hs, owner, how, interface, hi, rfl⟩ :=
        (mem_interfacesPart_turns hp).mp ht
      exact ⟨service, hs, owner, how, interface, hi, hb, hca⟩
    have hcas := reconcileDPUServiceInterfaces_cases lib deployment inputs
      (servicesAfter lib deployment inputs cluster).items cluster.interfaces.items
      (configurationAfter lib deployment inputs cluster)
      (plannedName lib deployment inputs cluster.interfaces.items)
    rw [← (interfacesPart_eq_some hp).2] at hcas
    rcases hcas with ⟨-, hc⟩ | ⟨hf, hc⟩
    · exact .inl (hr (hc ▸ h))
    · rw [hc] at h
      rcases mem_append.mp h with h | h
      · exact .inl (hr h)
      · obtain ⟨deletion, hd, heq⟩ := mem_map.mp h
        obtain ⟨rfl, rfl⟩ := Prod.mk.inj heq
        obtain ⟨o, ho, rfl⟩ := mem_map.mp (mem_of_untilFailure hd)
        obtain ⟨hl, hpa⟩ := mem_filter.mp ho
        exact .inr ⟨rfl, hf, o, hl, by simpa using hpa, rfl⟩

end Interfaces

end DocaPlatform.DeploymentRevisions
