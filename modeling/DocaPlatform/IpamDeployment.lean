import DocaPlatform.IpamStatus

/-!
# Pools of a DPUServiceIPAM in the DPU clusters

`reconcileObjectsInDPUClusters` for a `DPUServiceIPAM`. A pass that changes the recorded allocation
commits it and ends; any other pass applies a pool in every target cluster and then deletes the
leftover pools of the other clusters. Every remote call is a step of its own, a pass may end after
any of them, and the object changes between passes.
-/
namespace DocaPlatform.IpamDeployment

open Netip IpRange IpamAllocator IpamWebhook IpamStatus Runs List

inductive PoolKind where
  | ipPool
  | cidrPool
  deriving DecidableEq, Repr

structure IPPoolSpec where
  subnet : String
  perNodeBlockSize : ℤ
  gateway : String
  defaultGateway : Bool
  routes : List String
  exclusions : List ApiIPRange
  deriving DecidableEq

structure CIDRPoolSpec where
  cidr : String
  gatewayIndex : Option ℤ
  perNodeNetworkPrefix : ℤ
  staticAllocations : List (String × String)
  defaultGateway : Bool
  routes : List String
  exclusions : List ApiIPRange
  deriving DecidableEq

inductive Pool where
  | ipPool (spec : IPPoolSpec)
  | cidrPool (spec : CIDRPoolSpec)
  deriving DecidableEq

def Pool.kind : Pool → PoolKind
  | .ipPool _ => .ipPool
  | .cidrPool _ => .cidrPool

def Pool.network : Pool → String
  | .ipPool spec => spec.subnet
  | .cidrPool spec => spec.cidr

def Pool.exclusions : Pool → List ApiIPRange
  | .ipPool spec => spec.exclusions
  | .cidrPool spec => spec.exclusions

/-- Only a `CIDRPool` has static allocations. -/
def Pool.staticAllocations : Pool → List (String × String)
  | .ipPool _ => []
  | .cidrPool spec => spec.staticAllocations

def generateIPPool (spec : Subnet) : IPPoolSpec where
  subnet := spec.subnet
  perNodeBlockSize := spec.perNodeIPCount
  gateway := spec.gateway
  defaultGateway := spec.defaultGateway
  routes := spec.routes
  exclusions := []

def generateCIDRPool (spec : Network) : CIDRPoolSpec where
  cidr := spec.network
  gatewayIndex := spec.gatewayIndex
  perNodeNetworkPrefix := spec.prefixSize
  staticAllocations := spec.allocations
  defaultGateway := spec.defaultGateway
  routes := spec.routes
  exclusions := []

/-- The calls of a pass that change a DPU cluster. The last argument of `deleteAllOf` says whether
the pass goes on when the cluster does not serve the kind. -/
inductive RemoteCall where
  | delete (cluster : String) (kind : PoolKind) (name : String)
  | patch (cluster : String) (name : String) (pool : Pool)
  | deleteAllOf (cluster : String) (kind : PoolKind) (leftover : Bool)
  deriving DecidableEq

def RemoteCall.cluster : RemoteCall → String
  | .delete cluster _ _ => cluster
  | .patch cluster _ _ => cluster
  | .deleteAllOf cluster _ _ => cluster

/-- The object of one pass: its name, its specification, the pool name that the override
annotation asks for and the recorded allocation. -/
structure Parent where
  name : String
  spec : DPUServiceIPAMSpec
  nameOverride : Option String
  allocations : List DPUClusterAllocation

def reconcilePoolMode (parent : Parent) (cluster : String) (pool : Pool)
    (leftoverPoolKind : PoolKind) : List RemoteCall :=
  match parent.nameOverride with
  | some overridden =>
    (if parent.name ≠ overridden then [.delete cluster pool.kind parent.name] else []) ++
      [.patch cluster overridden pool, .deleteAllOf cluster leftoverPoolKind false]
  | none => [.patch cluster parent.name pool, .deleteAllOf cluster leftoverPoolKind false]

def reconcileIPPoolMode (parent : Parent) (cluster : String) (spec : Subnet)
    (exclusions : List ApiIPRange) : List RemoteCall :=
  reconcilePoolMode parent cluster (.ipPool { generateIPPool spec with exclusions := exclusions })
    .cidrPool

def reconcileCIDRPoolMode (parent : Parent) (cluster : String) (spec : Network)
    (exclusions : List ApiIPRange) : List RemoteCall :=
  reconcilePoolMode parent cluster
    (.cidrPool { generateCIDRPool spec with exclusions := exclusions }) .ipPool

def createOrUpdateObjectsInDPUCluster (m : Calculator) (parent : Parent) (cluster : String) :
    Except String (List RemoteCall) := do
  let exclusions ← (m.computeExclusions (getAllocationsForDPUCluster parent.allocations cluster)).mapError
    fun e => "failed to compute exclusions for DPUCluster " ++ cluster ++ ": " ++ e
  match subnetSpec parent.spec, networkSpec parent.spec with
  | some s, _ => .ok (reconcileIPPoolMode parent cluster s exclusions)
  | none, some n => .ok (reconcileCIDRPoolMode parent cluster n exclusions)
  | none, none => .ok []

def deleteObjectsInDPUCluster (cluster : String) : List RemoteCall :=
  [.deleteAllOf cluster .ipPool true, .deleteAllOf cluster .cidrPool true]

/-- The calls that apply the pools, up to the first cluster without exclusions, and whether all
clusters have theirs. -/
def applyCalls (m : Calculator) (parent : Parent) : List String → List RemoteCall × Bool
  | [] => ([], true)
  | cluster :: clusters =>
    match createOrUpdateObjectsInDPUCluster m parent cluster with
    | .error _ => ([], false)
    | .ok calls =>
      let rest := applyCalls m parent clusters
      (calls ++ rest.1, rest.2)

inductive Pass where
  | commit (allocations : List DPUClusterAllocation)
  | calls (pending : List RemoteCall)
  deriving DecidableEq

/-- `reconcileObjectsInDPUClusters`: the pass over the target clusters and the other clusters, in
the order in which their map is visited. There is none when the calculation fails. -/
def reconcileObjectsInDPUClusters (parent : Parent) (targets leftovers : List String) :
    Option Pass :=
  let o := calculateDPUServiceObjectStateBasedOnStatus parent.spec parent.allocations targets
  match o.result, o.calculator with
  | .ok true, _ => some (.commit o.allocations)
  | .ok false, some m =>
    let apply := applyCalls m parent (sortTargets targets)
    some (.calls (apply.1 ++ if apply.2 then leftovers.flatMap deleteObjectsInDPUCluster else []))
  | _, _ => none

/-- A pool of the object in a DPU cluster. A deleted pool stays until its finalizers are gone. -/
structure DeployedPool where
  cluster : String
  name : String
  pool : Pool
  deleting : Bool

def DeployedPool.Is (cluster : String) (kind : PoolKind) (name : String) (d : DeployedPool) :
    Prop :=
  d.cluster = cluster ∧ d.pool.kind = kind ∧ d.name = name

instance (cluster : String) (kind : PoolKind) (name : String) (d : DeployedPool) :
    Decidable (d.Is cluster kind name) :=
  inferInstanceAs (Decidable (_ ∧ _ ∧ _))

/-- The pools after a call. A patch replaces the pool of its key and keeps its deletion. -/
def execute (pools : List DeployedPool) : RemoteCall → List DeployedPool
  | .delete cluster kind name =>
    pools.map fun d => if d.Is cluster kind name then { d with deleting := true } else d
  | .patch cluster name pool =>
    ⟨cluster, name, pool, pools.any fun d => d.Is cluster pool.kind name ∧ d.deleting⟩ ::
      pools.filter fun d => ¬ d.Is cluster pool.kind name
  | .deleteAllOf cluster kind _ =>
    pools.map fun d =>
      if d.cluster = cluster ∧ d.pool.kind = kind then { d with deleting := true } else d

/-- The object, its pools and the pass that is under way. -/
structure World where
  name : String
  object : DPUServiceIPAM
  nameOverride : Option String
  allocations : List DPUClusterAllocation
  pools : List DeployedPool
  pass : Option Pass

/-- What a pass reads of the object. -/
def World.parent (w : World) : Parent :=
  ⟨w.name, w.object.spec, w.nameOverride, w.allocations⟩

inductive Event where
  | update (new : DPUServiceIPAM)
  | annotate (nameOverride : Option String)
  | start (targets leftovers : List String)
  | commit
  | call
  | unavailable
  | stop
  | finalized (cluster : String) (kind : PoolKind) (name : String)
  | clusterGone (cluster : String)

def Init (w : World) : Prop :=
  validateDPUServiceIPAM w.object none = [] ∧ w.allocations = [] ∧ w.pools = [] ∧ w.pass = none

inductive Step : World → Event → World → Prop where
  /-- An update that the webhook accepts. -/
  | update {w : World} {new : DPUServiceIPAM} : w.pass = none →
      validateDPUServiceIPAM new (some w.object) = [] →
      Step w (.update new) { w with object := new }
  | annotate {w : World} {nameOverride : Option String} : w.pass = none →
      Step w (.annotate nameOverride) { w with nameOverride := nameOverride }
  /-- A pass over the clusters that exist now, the selected ones first. -/
  | start {w : World} {targets leftovers : List String} : w.pass = none →
      (targets ++ leftovers).Nodup →
      Step w (.start targets leftovers)
        { w with pass := reconcileObjectsInDPUClusters w.parent targets leftovers }
  | commit {w : World} {allocations : List DPUClusterAllocation} :
      w.pass = some (.commit allocations) →
      Step w .commit { w with allocations := allocations, pass := none }
  | call {w : World} {c : RemoteCall} {cs : List RemoteCall} :
      w.pass = some (.calls (c :: cs)) →
      Step w .call { w with pools := execute w.pools c, pass := some (.calls cs) }
  /-- A cluster does not serve a kind of pool. Its other deletion is skipped as well. -/
  | unavailable {w : World} {cluster : String} {kind : PoolKind} {cs : List RemoteCall} :
      w.pass = some (.calls (.deleteAllOf cluster kind true :: cs)) →
      Step w .unavailable
        { w with pass := some (.calls (cs.filter fun c => c.cluster ≠ cluster)) }
  /-- The pass is done, or it fails here. -/
  | stop {w : World} : Step w .stop { w with pass := none }
  | finalized {w : World} {cluster : String} {kind : PoolKind} {name : String} :
      Step w (.finalized cluster kind name)
        { w with pools := w.pools.filter fun d => ¬ (d.Is cluster kind name ∧ d.deleting) }
  | clusterGone {w : World} {cluster : String} :
      Step w (.clusterGone cluster)
        { w with pools := w.pools.filter fun d => d.cluster ≠ cluster }

/-- The pool does not exclude the address of its network. -/
def Pool.Offers (pool : Pool) (a : Addr) : Prop :=
  (∃ p, parsePrefix pool.network = .ok p ∧ a ∈ rangeFromPrefix p) ∧
    ∀ r ∈ pool.exclusions, ¬ InText r a

/-- The address is in a static allocation of the pool. -/
def Pool.Static (pool : Pool) (a : Addr) : Prop :=
  Calculator.StaticallyAllocated pool.staticAllocations a

/-- Pools of different clusters have in common only addresses that are static in one of them. -/
def Safe (w : World) : Prop :=
  ∀ d ∈ w.pools, ∀ d' ∈ w.pools, d.cluster ≠ d'.cluster →
    ∀ a, d.pool.Offers a → d'.pool.Offers a → d.pool.Static a ∨ d'.pool.Static a

/-- A pass starts only while every cluster that has a pool and a recorded allocation is a target,
and that allocation has a block which the user did not fully exclude. -/
def KeepsDeployed (w : World) : Event → Prop
  | .start targets _ => ∀ d ∈ w.pools, recordedRanges w.allocations d.cluster ≠ [] →
      d.cluster ∈ targets ∧
        HasAllocatableBlock w.object.spec (recordedRanges w.allocations d.cluster)
  | _ => True

/-- What a pool offers apart from static allocations is recorded for its cluster. -/
def Backed (allocations : List DPUClusterAllocation) (cluster : String) (pool : Pool) : Prop :=
  ∀ a, pool.Offers a → pool.Static a ∨ Holds allocations cluster a

/-- The calls that are left apply only backed pools. -/
def CallsBacked (allocations : List DPUClusterAllocation) (calls : List RemoteCall) : Prop :=
  ∀ cluster name pool, RemoteCall.patch cluster name pool ∈ calls →
    Backed allocations cluster pool

/-- The recorded allocation is sound and backs every pool of a list. -/
structure Supports (object : DPUServiceIPAM) (allocations : List DPUClusterAllocation)
    (pools : List DeployedPool) : Prop where
  recorded : IpamStatus.Inv ⟨object, allocations⟩
  backed : ∀ d ∈ pools, Backed allocations d.cluster d.pool

/-- What the rest of a pass may rely on. -/
def PassSound (w : World) : Option Pass → Prop
  | none => True
  | some (.commit allocations) => Supports w.object allocations w.pools
  | some (.calls calls) => CallsBacked w.allocations calls

structure Inv (w : World) : Prop where
  supports : Supports w.object w.allocations w.pools
  pass : PassSound w w.pass

variable {allocations : List DPUClusterAllocation} {pools : List DeployedPool} {parent : Parent}
  {cluster : String} {w : World}

theorem Supports.safe {object : DPUServiceIPAM} (h : Supports object allocations pools)
    {d d' : DeployedPool} (hd : d ∈ pools) (hd' : d' ∈ pools) (hne : d.cluster ≠ d'.cluster)
    {a : Addr} (ha : d.pool.Offers a) (ha' : d'.pool.Offers a) :
    d.pool.Static a ∨ d'.pool.Static a := by
  rcases h.backed d hd a ha with hs | hold
  · exact .inl hs
  rcases h.backed d' hd' a ha' with hs | hold'
  · exact .inr hs
  obtain ⟨table, -, hr, hp, -⟩ := h.recorded
  change allocations = render table at hr
  rw [hr, holds_render] at hold hold'
  exact absurd hold' (hp.disjoint _ _ hne a hold)

theorem Supports.subset {object : DPUServiceIPAM} {pools' : List DeployedPool}
    (h : Supports object allocations pools) (hs : pools' ⊆ pools) :
    Supports object allocations pools' :=
  ⟨h.recorded, fun d hd => h.backed d (hs hd)⟩

theorem CallsBacked.subset {calls calls' : List RemoteCall} (h : CallsBacked allocations calls)
    (hs : calls' ⊆ calls) : CallsBacked allocations calls' :=
  fun cluster name pool hmem => h cluster name pool (hs hmem)

theorem mem_reconcilePoolMode {cluster' name : String} {pool pool' : Pool} {kind : PoolKind}
    (h : RemoteCall.patch cluster' name pool' ∈ reconcilePoolMode parent cluster pool kind) :
    cluster' = cluster ∧ pool' = pool := by
  unfold reconcilePoolMode at h
  split at h
  · split_ifs at h <;> simp_all
  · simp_all

/-- The pool of a cluster offers what the calculator leaves to it. -/
theorem createOrUpdate_backed {m : Calculator} {calls : List RemoteCall} {p : Prefix}
    {table : List (String × List IPRange)} (ht : parent.allocations = render table)
    (hp : parsePrefix parent.spec.cidr = .ok p) (hpa : m.parentRange = rangeFromPrefix p)
    (hsta : m.staticAllocations = staticsOf parent.spec)
    (h : createOrUpdateObjectsInDPUCluster m parent cluster = .ok calls) :
    CallsBacked parent.allocations calls := by
  obtain ⟨exclusions, he, h⟩ := bind_eq_ok.mp h
  obtain ⟨allocs, l, hall, rfl, -, hco⟩ :=
    Calculator.computeExclusions_spec (mapError_eq_ok.mp he)
  rw [ht, get_render] at hall
  obtain rfl := parseIPRanges_toApiRanges hall
  have hb : ∀ pool : Pool, pool.network = parent.spec.cidr →
      pool.exclusions = toApiRanges l → pool.staticAllocations = staticsOf parent.spec →
      Backed parent.allocations cluster pool := by
    intro pool hnet hex hst a ho
    obtain ⟨⟨q, hq, hin⟩, hno⟩ := ho
    rw [hnet, hp] at hq
    cases hq
    have hl : ¬ Covered l a := by
      rw [← inText_toApiRanges, ← hex]
      rintro ⟨r, hr, hra⟩
      exact hno r hr hra
    rw [hco, not_or, hpa, hsta] at hl
    rw [ht, holds_render, Pool.Static, hst]
    by_contra hc
    rw [not_or] at hc
    exact hl.2 ⟨hin, hc.2, hc.1⟩
  intro cluster' name pool hmem
  rcases configuration_cases parent.spec with ⟨s, hs, hsp⟩ | ⟨n, hn, hsp, hspec'⟩
  · simp only [hsp] at h
    cases h
    obtain ⟨rfl, rfl⟩ := mem_reconcilePoolMode hmem
    apply hb
    · simp [Pool.network, generateIPPool, DPUServiceIPAMSpec.cidr, hs, Configuration.updateInput,
        Subnet.updateInput]
    · rfl
    · simp [Pool.staticAllocations, staticsOf, hs]
  · simp only [hsp, hspec'] at h
    cases h
    obtain ⟨rfl, rfl⟩ := mem_reconcilePoolMode hmem
    apply hb
    · simp [Pool.network, generateCIDRPool, DPUServiceIPAMSpec.cidr, hn, Configuration.updateInput,
        Network.updateInput]
    · rfl
    · simp [Pool.staticAllocations, generateCIDRPool, staticsOf, hn]

theorem applyCalls_backed {m : Calculator}
    (hs : ∀ cluster calls, createOrUpdateObjectsInDPUCluster m parent cluster = .ok calls →
      CallsBacked allocations calls)
    (clusters : List String) : CallsBacked allocations (applyCalls m parent clusters).1 := by
  induction clusters with
  | nil => simp [applyCalls, CallsBacked]
  | cons cluster clusters ih =>
    intro cluster' name pool hmem
    rw [applyCalls] at hmem
    cases hc : createOrUpdateObjectsInDPUCluster m parent cluster with
    | error e =>
      rw [hc] at hmem
      simp at hmem
    | ok calls =>
      rw [hc] at hmem
      rcases mem_append.mp hmem with hmem | hmem
      · exact hs cluster calls hc cluster' name pool hmem
      · exact ih cluster' name pool hmem

theorem patch_not_mem_deleteObjects {leftovers : List String} {name : String} {pool : Pool} :
    RemoteCall.patch cluster name pool ∉ leftovers.flatMap deleteObjectsInDPUCluster := by
  simp [deleteObjectsInDPUCluster]

/-! ## One step -/

theorem Supports.start (h : Supports w.object w.allocations w.pools)
    {targets leftovers : List String} (hnd : (targets ++ leftovers).Nodup)
    (hke : KeepsDeployed w (.start targets leftovers)) :
    PassSound w (reconcileObjectsInDPUClusters w.parent targets leftovers) := by
  have hnd' : targets.Nodup := hnd.of_append_left
  set o := calculateDPUServiceObjectStateBasedOnStatus w.object.spec w.allocations targets with ho
  have hpass : reconcileObjectsInDPUClusters w.parent targets leftovers =
      match o.result, o.calculator with
      | .ok true, _ => some (.commit o.allocations)
      | .ok false, some m =>
        let apply := applyCalls m w.parent (sortTargets targets)
        some (.calls (apply.1 ++
          if apply.2 then leftovers.flatMap deleteObjectsInDPUCluster else []))
      | _, _ => none := rfl
  rw [hpass]
  cases hre : o.result with
  | error e => trivial
  | ok changed =>
    have hru := IpamStatus.Inv.run h.recorded hnd' hre
    cases changed with
    | true =>
      refine ⟨IpamStatus.Inv.step h.recorded (IpamStatus.Step.run hnd'), ?_⟩
      intro d hd a ha
      rcases h.backed d hd a ha with hs | hold
      · exact .inl hs
      have hne : recordedRanges w.allocations d.cluster ≠ [] := by
        obtain ⟨r, hr, q, hq, -⟩ := hold
        exact ne_nil_of_mem (mem_filterMap.mpr ⟨r, hr, hq⟩)
      obtain ⟨hk, hbl⟩ := hke d hd hne
      exact .inr (IpamStatus.Inv.run_keeps h.recorded hnd' hre hk hbl hold)
    | false =>
      obtain ⟨table, table', m, m', p, ht, -, hca, hf, hp, -, hpa, -, hru⟩ := hru
      rw [← ho] at hca
      rw [hca]
      have hparent' : m'.parentRange = rangeFromPrefix p :=
        (congrArg Calculator.parentRange hf).trans hpa
      have hst : m'.staticAllocations = staticsOf w.parent.spec :=
        (congrArg Calculator.staticAllocations hf).trans hru.statics
      have hb : ∀ cluster calls,
          createOrUpdateObjectsInDPUCluster m' w.parent cluster = .ok calls →
          CallsBacked w.parent.allocations calls := by
        intro cluster calls hc
        change w.parent.allocations = render table at ht
        change parsePrefix w.parent.spec.cidr = .ok p at hp
        exact createOrUpdate_backed ht hp hparent' hst hc
      intro cluster name pool hmem
      rcases mem_append.mp hmem with hmem | hmem
      · exact applyCalls_backed hb _ cluster name pool hmem
      · split_ifs at hmem
        · exact absurd hmem patch_not_mem_deleteObjects
        · simp at hmem

theorem mem_execute {c : RemoteCall} {d : DeployedPool} (h : d ∈ execute pools c) :
    (∃ d' ∈ pools, d.cluster = d'.cluster ∧ d.pool = d'.pool) ∨
      ∃ name, c = .patch d.cluster name d.pool := by
  cases c with
  | delete cluster kind name | deleteAllOf cluster kind leftover =>
    obtain ⟨d', hd', rfl⟩ := mem_map.mp h
    refine .inl ⟨d', hd', ?_⟩
    split_ifs <;> exact ⟨rfl, rfl⟩
  | patch cluster name pool =>
    rcases mem_cons.mp h with rfl | h
    · exact .inr ⟨name, rfl⟩
    · exact .inl ⟨d, (mem_filter.mp h).1, rfl, rfl⟩

theorem Inv.removePools (h : Inv w) (hs : pools ⊆ w.pools) : Inv { w with pools := pools } := by
  refine ⟨h.supports.subset hs, ?_⟩
  have hp := h.pass
  unfold PassSound at hp ⊢
  dsimp only
  split <;> rename_i heq <;> rw [heq] at hp
  · trivial
  · exact hp.subset hs
  · exact hp

theorem Inv.step {w' : World} {e : Event} (h : Inv w) (hs : Step w e w') (hk : KeepsDeployed w e) :
    Inv w' := by
  cases hs with
  | update hn hv =>
    refine ⟨⟨IpamStatus.Inv.step h.supports.recorded (IpamStatus.Step.update hv),
      h.supports.backed⟩, ?_⟩
    dsimp only
    rw [hn]
    trivial
  | annotate hn =>
    refine ⟨h.supports, ?_⟩
    dsimp only
    rw [hn]
    trivial
  | start _ hnd => exact ⟨h.supports, h.supports.start hnd hk⟩
  | commit hp =>
    have hso := h.pass
    rw [hp] at hso
    exact ⟨hso, trivial⟩
  | @call c cs hp =>
    have hso := h.pass
    rw [hp] at hso
    refine ⟨⟨h.supports.recorded, ?_⟩, hso.subset (subset_cons_self c cs)⟩
    intro d hd
    rcases mem_execute hd with ⟨d', hd', hcl, hpo⟩ | ⟨name, hc⟩
    · rw [hcl, hpo]
      exact h.supports.backed d' hd'
    · exact hso d.cluster name d.pool (hc ▸ mem_cons_self)
  | @unavailable cluster kind cs hp =>
    have hso := h.pass
    rw [hp] at hso
    refine ⟨h.supports, hso.subset ?_⟩
    intro c hc
    exact mem_cons_of_mem _ (mem_filter.mp hc).1
  | stop => exact ⟨h.supports, trivial⟩
  | finalized | clusterGone => exact h.removePools (filter_subset_self _)

theorem inv_init (h : Init w) : Inv w := by
  obtain ⟨hv, hall, hpo, hp⟩ := h
  refine ⟨⟨IpamStatus.inv_init ⟨hv, hall⟩, ?_⟩, ?_⟩
  · simp [hpo]
  · rw [hp]
    trivial

/-- A world between two passes over the sample object. -/
def sampleWorld (allocations : List DPUClusterAllocation) (pools : List DeployedPool) : World :=
  ⟨"pool", sampleObject "10.0.0.0/24", none, allocations, pools, none⟩

def samplePool (exclusions : List ApiIPRange) : Pool :=
  .ipPool { generateIPPool
    ⟨"10.0.0.0/24", "10.0.0.1", 10, [], false, [], none⟩ with exclusions := exclusions }

def firstBlockPool : Pool :=
  samplePool [⟨"10.0.0.0", "10.0.0.0"⟩, ⟨"10.0.0.5", "10.0.0.255"⟩]

def firstBlock (cluster : String) : List DPUClusterAllocation :=
  [⟨cluster, [⟨"10.0.0.1", "10.0.0.10"⟩]⟩]

def thirdBlockPool : Pool :=
  samplePool [⟨"10.0.0.0", "10.0.0.24"⟩, ⟨"10.0.0.31", "10.0.0.255"⟩]

theorem firstBlockPool_offers : firstBlockPool.Offers ⟨.v4, 0x0a000003, by decide⟩ :=
  ⟨⟨_, rfl, by decide⟩, by decide⟩

/-- When the selector moves from one cluster to another, the second one gets the reclaimed block
in the status, and its pool is applied while the pool of the first one still exists. -/
theorem reclaimed_block_offered_twice :
    ∃ w, Reachable Init Step w ∧ isPerClusterAllocationEnabled w.object.spec ∧ ¬ Safe w := by
  have h₀ : Reachable Init Step (sampleWorld [] []) := .start ⟨by decide, rfl, rfl, rfl⟩
  -- The first cluster is selected: one pass commits its block, the next one applies its pool.
  have h₁ : Reachable Init Step (sampleWorld (firstBlock "ns/a") []) :=
    .next (.next h₀ (@Step.start _ ["ns/a"] ["ns/b"] rfl (by decide))) (Step.commit (by decide))
  have h₂ : Reachable Init Step (sampleWorld (firstBlock "ns/a")
      [⟨"ns/a", "pool", firstBlockPool, false⟩]) :=
    .next (.next (.next h₁ (@Step.start _ ["ns/a"] ["ns/b"] rfl (by decide)))
      (@Step.call _ (.patch "ns/a" "pool" firstBlockPool)
        (.deleteAllOf "ns/a" .cidrPool false :: deleteObjectsInDPUCluster "ns/b") (by decide)))
      Step.stop
  -- Now the second cluster is selected instead.
  have h₃ : Reachable Init Step (sampleWorld (firstBlock "ns/b")
      [⟨"ns/a", "pool", firstBlockPool, false⟩]) :=
    .next (.next h₂ (@Step.start _ ["ns/b"] ["ns/a"] rfl (by decide))) (Step.commit (by decide))
  refine ⟨_, .next (.next h₃ (@Step.start _ ["ns/b"] ["ns/a"] rfl (by decide)))
    (@Step.call _ (.patch "ns/b" "pool" firstBlockPool)
      (.deleteAllOf "ns/b" .cidrPool false :: deleteObjectsInDPUCluster "ns/a") (by decide)),
    rfl, ?_⟩
  intro hs
  have hst := hs ⟨"ns/b", "pool", firstBlockPool, false⟩
    (by simp [execute, sampleWorld, DeployedPool.Is])
    ⟨"ns/a", "pool", firstBlockPool, false⟩
    (by simp [execute, sampleWorld, DeployedPool.Is]) (by decide) _
    firstBlockPool_offers firstBlockPool_offers
  simp [Pool.Static, Calculator.StaticallyAllocated, firstBlockPool, samplePool,
    Pool.staticAllocations] at hst

/-- In every run whose passes all keep the deployed allocations, at every point between two remote
calls, pools of different clusters offer no common address outside the static allocations. -/
theorem deployed_pools_safe {w : World}
    (h : Reachable Init (Restrict KeepsDeployed Step) w) : Safe w := by
  have hinv : Inv w := h.invariant (fun _ => inv_init)
    fun _ _ _ _ hi hs => hi.step hs.2 hs.1
  intro d hd d' hd' hne a ha ha'
  exact hinv.supports.safe hd hd' hne ha ha'

/-- Two clusters that stay selected get their pools one after the other. -/
theorem deployed_pools_safe_two_clusters :
    ∃ w, Reachable Init (Restrict KeepsDeployed Step) w ∧
      w.pools.map DeployedPool.cluster = ["ns/b", "ns/a"] ∧ Safe w := by
  have h₀ : Reachable Init (Restrict KeepsDeployed Step) (sampleWorld [] []) :=
    .start ⟨by decide, rfl, rfl, rfl⟩
  have he : ∀ allocations targets leftovers,
      KeepsDeployed (sampleWorld allocations []) (.start targets leftovers) := by
    simp [KeepsDeployed, sampleWorld]
  have h₁ : Reachable Init (Restrict KeepsDeployed Step) (sampleWorld (firstBlock "ns/a") []) :=
    .next (.next h₀ (.of_step (@Step.start _ ["ns/a"] ["ns/b"] rfl (by decide)) (he _ _ _)))
      (.of_step (Step.commit (by decide)) trivial)
  have h₂ : Reachable Init (Restrict KeepsDeployed Step) (sampleWorld (firstBlock "ns/a")
      [⟨"ns/a", "pool", firstBlockPool, false⟩]) :=
    .next (.next (.next h₁
      (.of_step (@Step.start _ ["ns/a"] ["ns/b"] rfl (by decide)) (he _ _ _)))
      (.of_step (@Step.call _ (.patch "ns/a" "pool" firstBlockPool)
        (.deleteAllOf "ns/a" .cidrPool false :: deleteObjectsInDPUCluster "ns/b") (by decide))
        trivial))
      (.of_step Step.stop trivial)
  -- The second cluster joins, and the first one keeps a block that is only partly excluded.
  have hk : ∀ allocations, getAllocationsForDPUCluster allocations "ns/a" =
        [⟨"10.0.0.1", "10.0.0.10"⟩] →
      KeepsDeployed (sampleWorld allocations [⟨"ns/a", "pool", firstBlockPool, false⟩])
        (.start ["ns/a", "ns/b"] []) := by
    intro allocations hg d hd _
    obtain rfl : d = ⟨"ns/a", "pool", firstBlockPool, false⟩ := by simpa [sampleWorld] using hd
    refine ⟨by decide, ?_⟩
    change HasAllocatableBlock (sampleObject "10.0.0.0/24").spec
      ((getAllocationsForDPUCluster allocations "ns/a").filterMap readRange)
    rw [hg]
    exact ⟨⟨.v4, 0x0a000001, 0x0a00000a, by decide, by decide⟩, by decide, 0, by decide,
      ⟨.v4, 0x0a000001, by decide⟩, rfl, by decide, by decide, by decide⟩
  have h₃ : Reachable Init (Restrict KeepsDeployed Step)
      (sampleWorld (firstBlock "ns/a" ++ [⟨"ns/b", [⟨"10.0.0.21", "10.0.0.30"⟩]⟩])
        [⟨"ns/a", "pool", firstBlockPool, false⟩]) :=
    .next (.next h₂ (.of_step (@Step.start _ ["ns/a", "ns/b"] [] rfl (by decide)) (hk _ rfl)))
      (.of_step (Step.commit (by decide)) trivial)
  have h₄ := Reachable.next h₃
    (.of_step (@Step.start _ ["ns/a", "ns/b"] [] rfl (by decide)) (hk _ rfl))
  have h₅ := Reachable.next h₄ (.of_step (@Step.call _ (.patch "ns/a" "pool" firstBlockPool)
    (.deleteAllOf "ns/a" .cidrPool false :: .patch "ns/b" "pool" thirdBlockPool ::
      [.deleteAllOf "ns/b" .cidrPool false]) (by decide)) trivial)
  have h₆ := Reachable.next (Reachable.next h₅ (.of_step (Step.call rfl) trivial))
    (.of_step (Step.call rfl) trivial)
  exact ⟨_, h₆, by decide, deployed_pools_safe h₆⟩

end DocaPlatform.IpamDeployment
