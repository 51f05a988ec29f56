import DocaPlatform.IpamWebhook

/-!
# The recorded allocation of a DPUServiceIPAM

`calculateDPUServiceObjectStateBasedOnStatus` over whole histories of an object: the specification
changes by accepted updates, the target clusters change freely, and every run starts from the
allocation that the runs before it recorded in the status.
-/
namespace DocaPlatform.IpamStatus

open Netip Spans IpRange IpamAllocator IpamWebhook Runs List

structure DPUClusterAllocation where
  dpuCluster : String
  ipRanges : List ApiIPRange
  deriving DecidableEq, Repr

def getAllocationsForDPUCluster (allocations : List DPUClusterAllocation) (dpuCluster : String) :
    List ApiIPRange :=
  match allocations.find? (fun a => a.dpuCluster = dpuCluster) with
  | some a => a.ipRanges
  | none => []

def subnetSpec (spec : DPUServiceIPAMSpec) : Option Subnet :=
  match spec.subnet with
  | some s => some s
  | none => spec.ipv4Subnet

def networkSpec (spec : DPUServiceIPAMSpec) : Option Network :=
  match spec.network with
  | some n => some n
  | none => spec.ipv4Network

def isPerClusterAllocationEnabled (spec : DPUServiceIPAMSpec) : Bool :=
  match subnetSpec spec with
  | some s => s.blocksPerDPUCluster.isSome
  | none =>
    match networkSpec spec with
    | some n => n.subnetsPerDPUCluster.isSome
    | none => false

/-- `NewMultiDPUClusterExclusionCalculatorForSubnet`. -/
def newCalculatorForSubnet (spec : Subnet) (current : List (List ApiIPRange)) :
    Except String Calculator :=
  newMultiDPUClusterExclusionCalculator spec.subnet spec.perNodeIPCount spec.blocksPerDPUCluster
    false spec.excludeRanges current []

/-- The exclusions of a network, single addresses first. -/
def Network.allExclusions (spec : Network) : List ApiIPRange :=
  spec.exclusions.map (fun address => ⟨address, address⟩) ++ spec.excludeRanges

/-- `NewMultiDPUClusterExclusionCalculatorForNetwork`. -/
def newCalculatorForNetwork (spec : Network) (current : List (List ApiIPRange)) :
    Except String Calculator :=
  match parsePrefix spec.network with
  | .error e => .error ("invalid network " ++ quote spec.network ++ ": " ++ e)
  | .ok p =>
    if p.addr.is4In6 then
      .error ("IPv4-mapped IPv6 network " ++ quote spec.network ++ " is not supported")
    else
      newMultiDPUClusterExclusionCalculator spec.network
        (prefixAddressCount p.addr.family.bitLen spec.prefixSize) spec.subnetsPerDPUCluster true
        (Network.allExclusions spec) current spec.allocations

def newCalculator (spec : DPUServiceIPAMSpec) (current : List (List ApiIPRange)) :
    Except String Calculator :=
  let wrap (e : String) := "failed to create multi DPUCluster exclusion calculator: " ++ e
  match subnetSpec spec with
  | some s => (newCalculatorForSubnet s current).mapError wrap
  | none =>
    match networkSpec spec with
    | some n => (newCalculatorForNetwork n current).mapError wrap
    | none => .error "exactly one IPAM configuration must be specified"

/-- The allocation loop over the target clusters. -/
def allocateAll (allocations : List DPUClusterAllocation) :
    Calculator → List String → Except String (List DPUClusterAllocation × Calculator)
  | m, [] => .ok ([], m)
  | m, key :: keys => do
    let (blocks, m') ← (m.allocateClusterBlocks (getAllocationsForDPUCluster allocations key)).mapError
      fun e => "failed to allocate for DPUCluster " ++ key ++ ": " ++ e
    let (rest, m'') ← allocateAll allocations m' keys
    .ok (⟨key, blocks⟩ :: rest, m'')

def sortTargets (targetClusters : List String) : List String :=
  targetClusters.insertionSort (· ≤ ·)

/-- The allocations and the calculator that a run computes before it compares them with the
status. -/
def computeAllocations (spec : DPUServiceIPAMSpec) (allocations : List DPUClusterAllocation)
    (targetClusters : List String) : Except String (List DPUClusterAllocation × Calculator) :=
  if isPerClusterAllocationEnabled spec = false ∧ 1 < targetClusters.length then
    .error ("blocksPerDPUCluster or subnetsPerDPUCluster must be set when targeting more than " ++
      "one DPU cluster")
  else do
    let targets := sortTargets targetClusters
    let m ← newCalculator spec (targets.map (getAllocationsForDPUCluster allocations))
    allocateAll allocations m targets

/-- What `calculateDPUServiceObjectStateBasedOnStatus` leaves behind: its result, the status in
memory and the calculator of the pass. -/
structure Outcome where
  result : Except String Bool
  allocations : List DPUClusterAllocation
  calculator : Option Calculator

def calculateDPUServiceObjectStateBasedOnStatus (spec : DPUServiceIPAMSpec)
    (allocations : List DPUClusterAllocation) (targetClusters : List String) : Outcome :=
  match computeAllocations spec allocations targetClusters with
  | .error e => ⟨.error e, allocations, none⟩
  | .ok (newAllocations, m) =>
    if newAllocations = allocations then ⟨.ok false, allocations, some m⟩
    else ⟨.ok true, newAllocations, some m⟩

/-- The object as the API server stores it. -/
structure State where
  object : DPUServiceIPAM
  allocations : List DPUClusterAllocation

inductive Event where
  | update (new : DPUServiceIPAM)
  | run (targetClusters : List String)

/-- A created object that the webhook accepts has no allocation yet. -/
def Init (s : State) : Prop :=
  validateDPUServiceIPAM s.object none = [] ∧ s.allocations = []

def State.afterRun (s : State) (targetClusters : List String) : State :=
  { s with allocations :=
      (calculateDPUServiceObjectStateBasedOnStatus s.object.spec s.allocations
        targetClusters).allocations }

/-- An accepted update of the specification, or a run over target clusters with distinct keys. -/
inductive Step : State → Event → State → Prop where
  | update {s : State} {new : DPUServiceIPAM} :
      validateDPUServiceIPAM new (some s.object) = [] →
      Step s (.update new) { s with object := new }
  | run {s : State} {targetClusters : List String} :
      targetClusters.Nodup → Step s (.run targetClusters) (s.afterRun targetClusters)

/-- A recorded range read with `netip.ParseAddr`. -/
def readRange (r : ApiIPRange) : Option IPRange :=
  match Netip.parseAddr r.startIP, Netip.parseAddr r.endIP with
  | .ok start, .ok stop =>
    if h : start.val ≤ stop.val ∧ start.family = stop.family then
      some ⟨start.family, start.val, stop.val, h.1, h.2 ▸ stop.lt⟩
    else none
  | _, _ => none

/-- The address lies in the range that the text denotes. -/
def InText (r : ApiIPRange) (a : Addr) : Prop :=
  ∃ p, readRange r = some p ∧ a ∈ p

instance (r : ApiIPRange) (a : Addr) : Decidable (InText r a) :=
  match h : readRange r with
  | none => isFalse fun ⟨_, hp, _⟩ => by simp [h] at hp
  | some p => decidable_of_iff (a ∈ p) ⟨fun ha => ⟨p, h, ha⟩, fun ⟨_, hq, ha⟩ => by
      rw [h] at hq
      cases hq
      exact ha⟩

def Holds (allocations : List DPUClusterAllocation) (dpuCluster : String) (a : Addr) : Prop :=
  ∃ r ∈ getAllocationsForDPUCluster allocations dpuCluster, InText r a

instance (allocations : List DPUClusterAllocation) (dpuCluster : String) (a : Addr) :
    Decidable (Holds allocations dpuCluster a) :=
  inferInstanceAs (Decidable (∃ r ∈ getAllocationsForDPUCluster allocations dpuCluster, _))

/-- The allocation of clusters, each with merged ranges in the parent network. -/
structure WellRecorded (parent : IPRange) (allocations : List DPUClusterAllocation) : Prop where
  keys : (allocations.map DPUClusterAllocation.dpuCluster).Nodup
  /-- Ranges of two different clusters share no address. -/
  disjoint : ∀ k k', k ≠ k' → ∀ a, Holds allocations k a → ¬ Holds allocations k' a
  /-- Every recorded range is a range of the parent network. -/
  inParent : ∀ x ∈ allocations, ∀ r ∈ x.ipRanges, ∃ p, readRange r = some p ∧ p.isIn parent
  /-- The ranges of one cluster are sorted, disjoint and not adjacent. -/
  merged : ∀ x ∈ allocations, x.ipRanges.Pairwise fun r r' => ∀ p p',
    readRange r = some p → readRange r' = some p' → key p.stop + 1 < key p'.start

/-! ## The recorded allocation as ranges -/

/-- A table of clusters with their ranges, as the status records it. -/
def render (table : List (String × List IPRange)) : List DPUClusterAllocation :=
  table.map fun e => ⟨e.1, toApiRanges e.2⟩

def rangesOf (table : List (String × List IPRange)) (dpuCluster : String) : List IPRange :=
  match table.find? (fun e => e.1 = dpuCluster) with
  | some e => e.2
  | none => []

theorem get_render (table : List (String × List IPRange)) (k : String) :
    getAllocationsForDPUCluster (render table) k = toApiRanges (rangesOf table k) := by
  induction table with
  | nil => rfl
  | cons e table ih =>
    by_cases he : e.1 = k
    · simp [getAllocationsForDPUCluster, rangesOf, render, he]
    · simpa [getAllocationsForDPUCluster, rangesOf, render, he] using ih

variable {table : List (String × List IPRange)} {l : List IPRange} {a : Addr} {k : String}
  {allocations res : List DPUClusterAllocation} {m m' : Calculator} {spec : DPUServiceIPAMSpec}
  {r : IPRange} {targets : List String} {b : Bool} {s : State}

theorem rangesOf_of_mem (h : (table.map Prod.fst).Nodup) {e : String × List IPRange}
    (he : e ∈ table) : rangesOf table e.1 = e.2 := by
  induction table with
  | nil => simp at he
  | cons x table ih =>
    obtain ⟨hx, hnd⟩ := nodup_cons.mp h
    rcases mem_cons.mp he with rfl | he
    · simp [rangesOf]
    · have hne : x.1 ≠ e.1 := fun heq => hx (heq ▸ mem_map_of_mem he)
      simpa [rangesOf, hne] using ih hnd he

theorem rangesOf_cases (table : List (String × List IPRange)) (k : String) :
    rangesOf table k = [] ∨ (k, rangesOf table k) ∈ table := by
  unfold rangesOf
  cases h : table.find? (fun e => e.1 = k) with
  | none => exact .inl rfl
  | some e =>
    right
    have hk : e.1 = k := by simpa using find?_some h
    simpa [← hk] using mem_of_find?_eq_some h

theorem readRange_render (p : IPRange) : readRange ⟨p.start.string, p.stop.string⟩ = some p := by
  have hf : p.start.val ≤ p.stop.val ∧ p.start.family = p.stop.family := ⟨p.le, rfl⟩
  simp only [readRange, parseAddr_string, dif_pos hf]
  rfl

theorem inText_toApiRanges : (∃ r ∈ toApiRanges l, InText r a) ↔ Covered l a := by
  constructor
  · rintro ⟨r, hr, p, hp, ha⟩
    obtain ⟨q, hq, rfl⟩ := mem_map.mp hr
    rw [readRange_render] at hp
    cases hp
    exact ⟨p, hq, ha⟩
  · rintro ⟨p, hp, ha⟩
    exact ⟨_, mem_map_of_mem hp, p, readRange_render p, ha⟩

theorem holds_render : Holds (render table) k a ↔ Covered (rangesOf table k) a := by
  unfold Holds
  rw [get_render, inText_toApiRanges]

/-- The texts of merged ranges denote sorted ranges with a gap between any two of them. -/
theorem pairwise_toApiRanges (h : Separated (spans l)) :
    (toApiRanges l).Pairwise fun r r' => ∀ p p',
      readRange r = some p → readRange r' = some p' → key p.stop + 1 < key p'.start := by
  refine pairwise_map.mpr ((pairwise_map.mp h).imp ?_)
  intro p p' hpp q q' hq hq'
  rw [readRange_render] at hq hq'
  cases hq
  cases hq'
  rw [key_eq, key_eq]
  exact hpp

/-- A table of clusters whose merged ranges share no address. -/
structure Partition (table : List (String × List IPRange)) : Prop where
  keys : (table.map Prod.fst).Nodup
  separated : ∀ e ∈ table, Separated (spans e.2)
  disjoint : ∀ k k', k ≠ k' → ∀ a, Covered (rangesOf table k) a → ¬ Covered (rangesOf table k') a

/-- Every range of the table lies in the parent range. -/
def InParent (parent : IPRange) (table : List (String × List IPRange)) : Prop :=
  ∀ e ∈ table, ∀ r ∈ e.2, r.isIn parent

theorem partition_nil : Partition [] := by
  refine ⟨by simp, by simp, ?_⟩
  rintro k k' - a ⟨r, hr, -⟩
  simp [rangesOf] at hr

theorem wellRecorded_render {parent : IPRange} (h : Partition table) (hp : InParent parent table) :
    WellRecorded parent (render table) where
  keys := by simpa [render, Function.comp_def] using h.keys
  disjoint := by
    intro k k' hk a ha ha'
    rw [holds_render] at ha ha'
    exact h.disjoint k k' hk a ha ha'
  inParent := by
    intro x hx r hr
    obtain ⟨e, he, rfl⟩ := mem_map.mp hx
    obtain ⟨p, hpe, rfl⟩ := mem_map.mp hr
    exact ⟨p, readRange_render p, hp e he p hpe⟩
  merged := by
    intro x hx
    obtain ⟨e, he, rfl⟩ := mem_map.mp hx
    exact pairwise_toApiRanges (h.separated e he)

/-! ## One run -/

/-- The ranges of a cluster that a run starts from. -/
def oldRanges (allocations : List DPUClusterAllocation) (dpuCluster : String) : List IPRange :=
  ((parseIPRanges (getAllocationsForDPUCluster allocations dpuCluster)).toOption).getD []

theorem oldRanges_of_parse (h : parseIPRanges (getAllocationsForDPUCluster allocations k) = .ok l) :
    oldRanges allocations k = l := by
  simp [oldRanges, h, Except.toOption]

/-- What one entry of the new allocation holds: the old ranges where they are kept, and blocks
that were available. -/
structure EntrySpec (m : Calculator) (old new : List IPRange) : Prop where
  separated : Separated (spans new)
  source : ∀ a, Covered new a → (m.Keeps old ∧ Covered old a) ∨
    ∃ i, Covers m.availableBlockRanges i ∧ m.grid.InBlock i a
  kept : m.Keeps old → ∀ a, Covered old a → Covered new a

theorem EntrySpec.of_takes {old new taken : List IPRange} (ht : m.Takes m' taken)
    (h : EntrySpec m' old new) : EntrySpec m old new where
  separated := h.separated
  source := by
    intro a ha
    rcases h.source a ha with ⟨hk, ho⟩ | ⟨i, hi, hb⟩
    · exact .inl ⟨(ht.keeps_iff old).mp hk, ho⟩
    · exact .inr ⟨i, ht.available i hi, ht.grid_eq ▸ hb⟩
  kept := fun hk => h.kept ((ht.keeps_iff old).mpr hk)

theorem allocateAll_cons {ks : List String}
    (h : allocateAll allocations m (k :: ks) = .ok (res, m')) :
    ∃ blocks m₁ rest,
      m.allocateClusterBlocks (getAllocationsForDPUCluster allocations k) = .ok (blocks, m₁) ∧
      allocateAll allocations m₁ ks = .ok (rest, m') ∧ res = ⟨k, blocks⟩ :: rest := by
  rw [allocateAll] at h
  obtain ⟨⟨blocks, m₁⟩, hb, h⟩ := bind_eq_ok.mp h
  obtain ⟨⟨rest, m₂⟩, hr, h⟩ := bind_eq_ok.mp h
  cases h
  exact ⟨blocks, m₁, rest, mapError_eq_ok.mp hb, hr, rfl⟩

/-- The allocation loop: every entry meets its specification, and an address in two entries is
an old address of one of them. -/
theorem allocateAll_spec {keys : List String} (hm : m.Sound)
    (h : allocateAll allocations m keys = .ok (res, m')) :
    ∃ table, res = render table ∧ table.map Prod.fst = keys ∧
      m' = { m with availableBlockRanges := m'.availableBlockRanges } ∧
      (∀ e ∈ table, EntrySpec m (oldRanges allocations e.1) e.2) ∧
      table.Pairwise fun e e' => ∀ a, Covered e.2 a → Covered e'.2 a →
        (m.Keeps (oldRanges allocations e.1) ∧ Covered (oldRanges allocations e.1) a) ∨
        (m.Keeps (oldRanges allocations e'.1) ∧ Covered (oldRanges allocations e'.1) a) := by
  induction keys generalizing m res with
  | nil =>
    cases h
    exact ⟨[], rfl, rfl, rfl, by simp, List.Pairwise.nil⟩
  | cons k ks ih =>
    obtain ⟨blocks, m₁, rest, hbl, hr, rfl⟩ := allocateAll_cons h
    obtain ⟨old, merged, taken, hold, rfl, ht, hc⟩ :=
      Calculator.allocateClusterBlocks_spec hm hbl
    obtain ⟨table, rfl, hkeys, hf, hsp, hp⟩ := ih ht.sound hr
    have hold' := oldRanges_of_parse hold
    -- The addresses of the new entry are old ones or lie in the blocks just taken.
    have hs : ∀ a, Covered (mergeRanges merged) a → (m.Keeps old ∧ Covered old a) ∨
        ∃ i, Covers m.availableBlockRanges i ∧ ¬ Covers m₁.availableBlockRanges i ∧
          m.grid.InBlock i a := by
      intro a ha
      rw [covered_mergeRanges] at ha
      rcases hc with ⟨hk, rfl⟩ | ⟨-, rfl⟩
      · rcases covered_append.mp ha with ho | hn
        · exact .inl ⟨hk, ho⟩
        · exact .inr ((ht.blocks a).mp hn)
      · exact .inr ((ht.blocks a).mp ha)
    refine ⟨(k, mergeRanges merged) :: table, rfl, by simp [hkeys], ?_, ?_, ?_⟩
    · rw [hf, ht.frame]
    · intro e he
      rcases mem_cons.mp he with rfl | he
      · rw [hold']
        refine ⟨separated_mergeRanges merged, ?_, ?_⟩
        · intro a ha
          rcases hs a ha with ho | ⟨i, hi, -, hb⟩
          · exact .inl ho
          · exact .inr ⟨i, hi, hb⟩
        · intro hk a ha
          rcases hc with ⟨-, rfl⟩ | ⟨hnk, -⟩
          · exact covered_mergeRanges.mpr (covered_append.mpr (.inl ha))
          · exact absurd hk hnk
      · exact (hsp e he).of_takes ht
    · refine pairwise_cons.mpr ⟨?_, hp.imp ?_⟩
      · intro e he a hk hea
        dsimp only at hk ⊢
        rw [hold']
        rcases hs a hk with ho | ⟨i, hi, hni, hb⟩
        · exact .inl ho
        · rcases (hsp e he).source a hea with ⟨hke, hoe⟩ | ⟨j, hj, hbj⟩
          · exact .inr ⟨(ht.keeps_iff _).mp hke, hoe⟩
          · -- Both entries would hold the same block, which is taken and still available.
            rw [ht.grid_eq] at hbj
            rw [m.grid.inBlock_unique hb hbj] at hni
            exact absurd hj hni
      · intro e e' hee a ha ha'
        rcases hee a ha ha' with ⟨hk, ho⟩ | ⟨hk, ho⟩
        · exact .inl ⟨(ht.keeps_iff _).mp hk, ho⟩
        · exact .inr ⟨(ht.keeps_iff _).mp hk, ho⟩

def blockSizeOf (spec : DPUServiceIPAMSpec) : ℤ :=
  match spec.configuration with
  | .subnet s => s.perNodeIPCount
  | .network n =>
    match parsePrefix n.network with
    | .ok p => prefixAddressCount p.addr.family.bitLen n.prefixSize
    | .error _ => 0

def exclusionsOf (spec : DPUServiceIPAMSpec) : List ApiIPRange :=
  match spec.configuration with
  | .subnet s => s.excludeRanges
  | .network n => Network.allExclusions n

/-- The static allocations that the user configured. -/
def staticsOf (spec : DPUServiceIPAMSpec) : List (String × String) :=
  match spec.configuration with
  | .subnet _ => []
  | .network n => n.allocations

/-- The controller reads the configuration that the object has. -/
theorem configuration_cases (spec : DPUServiceIPAMSpec) :
    (∃ s, spec.configuration = .subnet s ∧ subnetSpec spec = some s) ∨
      ∃ n, spec.configuration = .network n ∧ subnetSpec spec = none ∧
        networkSpec spec = some n := by
  obtain ⟨n4, s4, n, s, ho⟩ := spec
  cases n4 <;> cases s4 <;> cases n <;> cases s <;>
    first
    | exact .inl ⟨_, rfl, rfl⟩
    | exact .inr ⟨_, rfl, rfl, rfl⟩
    | simp at ho

/-- The number of blocks per cluster that the user configured. -/
def quotaOf (spec : DPUServiceIPAMSpec) : Option ℤ :=
  spec.configuration.updateInput.perCluster

/-- Every node gets a subnet of its own, so no address of the network is reserved. -/
def isCIDRPoolOf (spec : DPUServiceIPAMSpec) : Bool :=
  match spec.configuration with
  | .subnet _ => false
  | .network _ => true

/-- The calculator of a run is built from the values that the specification has. -/
theorem newCalculator_eq_ok {current : List (List ApiIPRange)} :
    newCalculator spec current = .ok m ↔
      newMultiDPUClusterExclusionCalculator spec.cidr (blockSizeOf spec) (quotaOf spec)
        (isCIDRPoolOf spec) (exclusionsOf spec) current (staticsOf spec) = .ok m := by
  unfold newCalculator
  rcases configuration_cases spec with ⟨s, hs, hsp⟩ | ⟨n, hn, hsp, hspec'⟩
  · simp [hsp, mapError_eq_ok, newCalculatorForSubnet, DPUServiceIPAMSpec.cidr,
      Configuration.updateInput, Subnet.updateInput, blockSizeOf, exclusionsOf, staticsOf, quotaOf,
      isCIDRPoolOf, hs]
  · simp only [hsp, hspec', mapError_eq_ok, DPUServiceIPAMSpec.cidr, Configuration.updateInput,
      Network.updateInput, blockSizeOf, exclusionsOf, staticsOf, quotaOf, isCIDRPoolOf, hn]
    unfold newCalculatorForNetwork
    cases hp : parsePrefix n.network with
    | error e => simp [newMultiDPUClusterExclusionCalculator_eq_ok, hp]
    | ok p =>
      cases hm : p.addr.is4In6 with
      | true => simp [newMultiDPUClusterExclusionCalculator_eq_ok, hp, hm]
      | false => simp [hm]

theorem newCalculator_built {current : List (List ApiIPRange)}
    (h : newCalculator spec current = .ok m) :
    ∃ existing, parseAllRanges current = .ok existing ∧
      Built spec.cidr (blockSizeOf spec) (exclusionsOf spec) (staticsOf spec) existing m :=
  newMultiDPUClusterExclusionCalculator_built (newCalculator_eq_ok.mp h)

/-! ## What a successful run records -/

theorem IPRange.start_mem (r : IPRange) : r.start ∈ r :=
  ⟨rfl, le_rfl, r.le⟩

theorem IPRange.stop_mem (r : IPRange) : r.stop ∈ r :=
  ⟨rfl, r.le, le_rfl⟩

theorem mem_of_isIn {parent : IPRange} (h : r.isIn parent) (ha : a ∈ r) : a ∈ parent :=
  ⟨ha.1.trans h.1, h.2.1.trans ha.2.1, ha.2.2.trans h.2.2⟩

theorem EntrySpec.isIn_parent (hm : m.Sound) {old new : List IPRange} (h : EntrySpec m old new)
    (hr : r ∈ new) : r.isIn m.parentRange := by
  have hmem : ∀ a ∈ r, a ∈ m.parentRange := by
    intro a ha
    rcases h.source a ⟨r, hr, ha⟩ with ⟨hk, x, hx, hax⟩ | ⟨i, hi, hb⟩
    · exact mem_of_isIn (hk.2.1 x hx) hax
    · exact hm.mem_parent (hm.lt_of_covers hi) hb
  have hst := hmem _ (IPRange.start_mem r)
  have hs := hmem _ (IPRange.stop_mem r)
  exact ⟨hst.1, hst.2.1, hs.2.2⟩

/-- The new table of a successful run, its parent network and the calculator it started from. -/
structure RunSpec (spec : DPUServiceIPAMSpec) (table table' : List (String × List IPRange))
    (targets : List String) (m : Calculator) : Prop where
  partition : Partition table'
  keys : table'.map Prod.fst = sortTargets targets
  parent : ∃ p, parsePrefix spec.cidr = .ok p ∧ m.parentRange = rangeFromPrefix p
  inParent : InParent m.parentRange table'
  blockSize : m.grid.blockSize = (blockSizeOf spec).toNat
  exclusions : ∃ parsed, parseIPRanges (exclusionsOf spec) = .ok parsed ∧
    m.mergedExclusions = mergeRanges parsed
  statics : m.staticAllocations = staticsOf spec
  kept : ∀ k ∈ targets, m.Keeps (rangesOf table k) →
    ∀ a, Covered (rangesOf table k) a → Covered (rangesOf table' k) a

/-- Entries of different clusters that share at most addresses that one of them had before. -/
def SharesOnlyOld (table : List (String × List IPRange)) (e e' : String × List IPRange) : Prop :=
  e.1 ≠ e'.1 ∧ ∀ a, Covered e.2 a → Covered e'.2 a →
    Covered (rangesOf table e.1) a ∨ Covered (rangesOf table e'.1) a

instance (table : List (String × List IPRange)) : Std.Symm (SharesOnlyOld table) :=
  ⟨fun _ _ h => ⟨h.1.symm, fun a ha ha' => (h.2 a ha' ha).symm⟩⟩

theorem computeAllocations_spec (hT : Partition table) (hnd : targets.Nodup)
    (h : computeAllocations spec (render table) targets = .ok (res, m')) :
    ∃ table' m, res = render table' ∧
      m' = { m with availableBlockRanges := m'.availableBlockRanges } ∧
      RunSpec spec table table' targets m := by
  unfold computeAllocations at h
  split_ifs at h
  obtain ⟨m, hm, h⟩ := bind_eq_ok.mp h
  obtain ⟨existing, hex, hbu⟩ := newCalculator_built hm
  obtain ⟨table', rfl, hkeys, hf, hsp, hp⟩ := allocateAll_spec hbu.sound h
  have hpe : (sortTargets targets).Perm targets := perm_insertionSort _ _
  have hkey : (table'.map Prod.fst).Nodup := by
    rw [hkeys]
    exact hpe.nodup_iff.mpr hnd
  -- The ranges that the run starts from are those of the table, and the grid avoids them.
  have hold : ∀ e ∈ table', oldRanges (render table) e.1 = rangesOf table e.1 ∧
      ∀ a, Covered (rangesOf table e.1) a → Covered existing a := by
    intro e he
    have hmem : e.1 ∈ sortTargets targets := hkeys ▸ mem_map_of_mem he
    obtain ⟨old, hpr, hco⟩ := covered_of_parseAllRanges hex (mem_map_of_mem hmem)
    have hold' := oldRanges_of_parse hpr
    rw [get_render] at hpr
    obtain rfl := parseIPRanges_toApiRanges hpr
    exact ⟨hold', hco⟩
  have hc : ∀ e ∈ table', ∀ e' ∈ table', e.1 ≠ e'.1 → ∀ a,
      Covered (rangesOf table e.1) a → ¬ Covered e'.2 a := by
    intro e he e' he' hne a ha ha'
    have hs := (hsp e' he').source a ha'
    rw [(hold e' he').1] at hs
    rcases hs with ⟨-, ho⟩ | ⟨i, hi, hb⟩
    · exact hT.disjoint e.1 e'.1 hne a ha ho
    · exact ((hbu.available i).mp hi).2.2 a ((hold e he).2 a ha) hb
  have hd : ∀ e ∈ table', ∀ e' ∈ table', e ≠ e' → ∀ a, Covered e.2 a → ¬ Covered e'.2 a := by
    have hsh : table'.Pairwise (SharesOnlyOld table) := by
      have hne : table'.Pairwise fun e e' => e.1 ≠ e'.1 := pairwise_map.mp hkey
      refine (hne.and hp).imp_of_mem ?_
      intro e e' he he' hee
      refine ⟨hee.1, fun a ha ha' => ?_⟩
      rcases hee.2 a ha ha' with ⟨-, ho⟩ | ⟨-, ho⟩
      · exact .inl ((hold e he).1 ▸ ho)
      · exact .inr ((hold e' he').1 ▸ ho)
    intro e he e' he' hne a ha ha'
    obtain ⟨hk, hor⟩ := hsh.forall he he' hne
    rcases hor a ha ha' with ho | ho
    · exact hc e he e' he' hk a ho ha'
    · exact hc e' he' e he hk.symm a ho ha
  refine ⟨table', m, rfl, hf, ⟨?_, hkeys, hbu.parent, ?_, hbu.blockSize,
    hbu.exclusions, hbu.statics, ?_⟩⟩
  · refine ⟨hkey, fun e he => (hsp e he).separated, ?_⟩
    intro k k' hk a ha ha'
    rcases rangesOf_cases table' k with hn | hmem
    · simp [hn, Covered] at ha
    rcases rangesOf_cases table' k' with hn | hmem'
    · simp [hn, Covered] at ha'
    exact hd _ hmem _ hmem' (fun heq => hk (congrArg Prod.fst heq)) a ha ha'
  · intro e he r hr
    exact (hsp e he).isIn_parent hbu.sound hr
  · intro k hk hke a ha
    have hmem : k ∈ table'.map Prod.fst := hkeys ▸ hpe.mem_iff.mpr hk
    obtain ⟨e, he, rfl⟩ := mem_map.mp hmem
    rw [rangesOf_of_mem hkey he]
    have hs := hsp e he
    rw [(hold e he).1] at hs
    exact hs.kept hke a ha

/-! ## Whole histories -/

theorem calculate_error {e : String}
    (h : (calculateDPUServiceObjectStateBasedOnStatus spec allocations targets).result = .error e) :
    (calculateDPUServiceObjectStateBasedOnStatus spec allocations targets).allocations =
      allocations := by
  unfold calculateDPUServiceObjectStateBasedOnStatus at h ⊢
  split
  · rfl
  · split_ifs with heq
    · rfl
    · rename_i hc
      rw [hc] at h
      simp [heq] at h

/-- After a successful run the status is what the run computed, changed or not. -/
theorem calculate_ok
    (h : (calculateDPUServiceObjectStateBasedOnStatus spec allocations targets).result = .ok b) :
    ∃ m, computeAllocations spec allocations targets =
        .ok ((calculateDPUServiceObjectStateBasedOnStatus spec allocations targets).allocations, m) ∧
      (calculateDPUServiceObjectStateBasedOnStatus spec allocations targets).calculator = some m := by
  unfold calculateDPUServiceObjectStateBasedOnStatus at h ⊢
  cases hc : computeAllocations spec allocations targets with
  | error e =>
    rw [hc] at h
    cases h
  | ok r =>
    dsimp only
    split_ifs with heq
    · exact ⟨r.2, by rw [← heq], rfl⟩
    · exact ⟨r.2, rfl, rfl⟩

/-- The recorded allocation is a partition inside the network of the current specification. -/
def Inv (s : State) : Prop :=
  ∃ table p, s.allocations = render table ∧ Partition table ∧
    parsePrefix s.object.spec.cidr = .ok p ∧ p.addr.is4In6 = false ∧
    InParent (rangeFromPrefix p) table

theorem isIn_trans {s t : IPRange} (hrs : r.isIn s) (hst : s.isIn t) : r.isIn t :=
  ⟨hrs.1.trans hst.1, hst.2.1.trans hrs.2.1, hrs.2.2.trans hst.2.2⟩

theorem inv_init (h : Init s) : Inv s := by
  obtain ⟨p, hp, hm⟩ := validateDPUServiceIPAM_cidr h.1
  exact ⟨[], p, h.2, partition_nil, hp, hm, by simp [InParent]⟩

theorem Inv.run (h : Inv s) (hnd : targets.Nodup)
    (hok : (calculateDPUServiceObjectStateBasedOnStatus s.object.spec s.allocations
      targets).result = .ok b) :
    ∃ table table' m m' p, s.allocations = render table ∧
      (calculateDPUServiceObjectStateBasedOnStatus s.object.spec s.allocations
        targets).allocations = render table' ∧
      (calculateDPUServiceObjectStateBasedOnStatus s.object.spec s.allocations
        targets).calculator = some m' ∧
      m' = { m with availableBlockRanges := m'.availableBlockRanges } ∧
      parsePrefix s.object.spec.cidr = .ok p ∧ p.addr.is4In6 = false ∧
      m.parentRange = rangeFromPrefix p ∧ InParent (rangeFromPrefix p) table ∧
      RunSpec s.object.spec table table' targets m := by
  obtain ⟨table, p, hr, hT, hp, hpm, hin⟩ := h
  obtain ⟨m', hco, hc⟩ := calculate_ok hok
  rw [hr] at hco hc ⊢
  obtain ⟨table', m, hre, hf, hru⟩ := computeAllocations_spec hT hnd hco
  obtain ⟨q, hq, hpa⟩ := hru.parent
  rw [hp] at hq
  cases hq
  exact ⟨table, table', m, m', p, rfl, hre, hc, hf, hp, hpm, hpa, hin, hru⟩

theorem Inv.step {t : State} {l : Event} (h : Inv s) (hs : Step s l t) : Inv t := by
  cases hs with
  | update hv =>
    obtain ⟨table, q, hre, hT, hq, hqm, hin⟩ := h
    obtain ⟨p, hp, hpm⟩ := validateDPUServiceIPAM_cidr hv
    have hg := validateDPUServiceIPAM_update hv hq hqm hp
    exact ⟨table, p, hre, hT, hp, hpm, fun e he r hr => isIn_trans (hin e he r hr) hg⟩
  | @run targets hnd =>
    cases hres : (calculateDPUServiceObjectStateBasedOnStatus s.object.spec s.allocations
      targets).result with
    | error e =>
      obtain ⟨table, p, hre, hT, hp, hpm, hin⟩ := h
      exact ⟨table, p, (calculate_error hres).trans hre, hT, hp, hpm, hin⟩
    | ok b =>
      obtain ⟨table, table', m, m', p, -, hres', -, -, hp, hpm, hpa, -, hru⟩ := h.run hnd hres
      exact ⟨table', p, hres', hru.partition, hp, hpm, hpa ▸ hru.inParent⟩

theorem inv_reachable (h : Reachable Init Step s) : Inv s :=
  h.invariant (fun _ => inv_init) fun _ _ _ _ hi hs => hi.step hs

/-- After every successful run, the ranges of different clusters are disjoint and every range lies
in the parent network of the specification that the run used; a failed run changes nothing. -/
theorem calculate_wellRecorded {s : State} (h : Reachable Init Step s) {targets : List String}
    (hnd : targets.Nodup) :
    (∀ b, (calculateDPUServiceObjectStateBasedOnStatus s.object.spec s.allocations
        targets).result = .ok b →
      ∃ p, parsePrefix s.object.spec.cidr = .ok p ∧
        WellRecorded (rangeFromPrefix p) (calculateDPUServiceObjectStateBasedOnStatus
          s.object.spec s.allocations targets).allocations) ∧
    ∀ e, (calculateDPUServiceObjectStateBasedOnStatus s.object.spec s.allocations
        targets).result = .error e →
      (calculateDPUServiceObjectStateBasedOnStatus s.object.spec s.allocations
        targets).allocations = s.allocations := by
  refine ⟨fun b hok => ?_, fun e he => calculate_error he⟩
  obtain ⟨table, table', m, m', p, -, hr, -, -, hp, -, hpa, -, hru⟩ :=
    (inv_reachable h).run hnd hok
  rw [hr]
  exact ⟨p, hp, wellRecorded_render hru.partition (hpa ▸ hru.inParent)⟩

/-- A shared subnet with ten addresses per node, one block per cluster and an excluded range. -/
def sampleObject (subnet : String) : DPUServiceIPAM where
  objectNamespace := "dpf-operator-system"
  spec :=
    { ipv4Network := none
      ipv4Subnet := none
      network := none
      subnet := some
        { subnet := subnet
          gateway := "10.0.0.1"
          perNodeIPCount := 10
          excludeRanges := [⟨"10.0.0.5", "10.0.0.24"⟩]
          defaultGateway := false
          routes := []
          blocksPerDPUCluster := some 1 }
      exactlyOne := rfl }

theorem calculate_wellRecorded_two_clusters :
    validateDPUServiceIPAM (sampleObject "10.0.0.0/24") none = [] ∧
      ∃ p, parsePrefix "10.0.0.0/24" = .ok p ∧
        WellRecorded (rangeFromPrefix p) (calculateDPUServiceObjectStateBasedOnStatus
          (sampleObject "10.0.0.0/24").spec [] ["ns/b", "ns/a"]).allocations :=
  ⟨by decide, (calculate_wellRecorded (s := ⟨sampleObject "10.0.0.0/24", []⟩)
    (.start ⟨by decide, rfl⟩) (by decide)).1 true rfl⟩

/-! ## Stability under updates -/

def recordedRanges (allocations : List DPUClusterAllocation) (dpuCluster : String) :
    List IPRange :=
  (getAllocationsForDPUCluster allocations dpuCluster).filterMap readRange

/-- The user excluded the address. -/
def Excluded (spec : DPUServiceIPAMSpec) (a : Addr) : Prop :=
  ∃ x ∈ exclusionsOf spec, InText x a

instance (spec : DPUServiceIPAMSpec) (a : Addr) : Decidable (Excluded spec a) :=
  inferInstanceAs (Decidable (∃ x ∈ exclusionsOf spec, InText x a))

/-- One of the merged ranges has a per-node block, counted from its start, with an address that
the user did not exclude. -/
def HasAllocatableBlock (spec : DPUServiceIPAMSpec) (ranges : List IPRange) : Prop :=
  ∃ r ∈ mergeRanges ranges, ∃ i,
    r.lo + (i + 1) * (blockSizeOf spec).toNat ≤ r.hi + 1 ∧
    ∃ a : Addr, a.family = r.family ∧ r.lo + i * (blockSizeOf spec).toNat ≤ a.val ∧
      a.val < r.lo + (i + 1) * (blockSizeOf spec).toNat ∧ ¬ Excluded spec a

theorem recordedRanges_render (table : List (String × List IPRange)) (k : String) :
    recordedRanges (render table) k = rangesOf table k := by
  rw [recordedRanges, get_render, toApiRanges, filterMap_map]
  have hr : (readRange ∘ fun r : IPRange => ⟨r.start.string, r.stop.string⟩) = some :=
    funext readRange_render
  rw [hr, filterMap_some]

theorem readRange_of_parse {x : ApiIPRange} {p : IPRange} (h : parseIPRange x = .ok p) :
    readRange x = some p := by
  obtain ⟨hs, he⟩ := parseIPRange_eq_ok.mp h
  have hf : p.start.val ≤ p.stop.val ∧ p.start.family = p.stop.family := ⟨p.le, rfl⟩
  simp only [readRange, (parseAddr_eq_ok.mp hs).1, (parseAddr_eq_ok.mp he).1, dif_pos hf]
  rfl

theorem covered_iff_inText {l : List ApiIPRange} {parsed : List IPRange}
    (h : parseIPRanges l = .ok parsed) : Covered parsed a ↔ ∃ x ∈ l, InText x a := by
  induction l generalizing parsed with
  | nil =>
    cases h
    simp [Covered]
  | cons x xs ih =>
    obtain ⟨p, ps, hp, hps, rfl⟩ := parseIPRanges_cons.mp h
    have hx : a ∈ p ↔ InText x a := by
      simp [InText, readRange_of_parse hp, exists_eq_left']
    have hc : Covered (p :: ps) a ↔ a ∈ p ∨ Covered ps a := by simp [Covered]
    rw [hc, hx, ih hps]
    simp

/-- The calculator keeps an allocation in its parent range that has an allocatable block. -/
theorem RunSpec.keeps {table' : List (String × List IPRange)}
    (h : RunSpec spec table table' targets m) {ranges : List IPRange}
    (hin : m.areClusterBlocksCompatible ranges) (hb : HasAllocatableBlock spec ranges) :
    m.Keeps ranges := by
  obtain ⟨r, hr, i, hfi, a, hf, hlo, hhi, hex⟩ := hb
  obtain ⟨parsed, hp, hm⟩ := h.exclusions
  have hs : Separated (spans m.mergedExclusions) := hm ▸ separated_mergeRanges parsed
  have hn : ¬ Covered m.mergedExclusions a := by
    rw [hm, covered_mergeRanges]
    exact fun hc => hex ((covered_iff_inText hp).mp hc)
  have hcn : 0 < m.countInRange r := by
    rw [add_mul, one_mul, ← add_assoc] at hhi
    rw [Calculator.countInRange_pos_iff hs, h.blockSize]
    exact ⟨i, hfi, a, hf, hlo, h.blockSize ▸ hhi, hn⟩
  refine ⟨?_, hin, Calculator.countAllocatableBlocks_pos_iff.mpr ⟨r, hr, hcn⟩⟩
  rintro rfl
  simp [mergeRanges, sortRanges] at hr

/-- A successful run keeps the allocation of every target cluster that still has an allocatable
block. -/
theorem Inv.run_keeps (h : Inv s) (hnd : targets.Nodup)
    (hok : (calculateDPUServiceObjectStateBasedOnStatus s.object.spec s.allocations
      targets).result = .ok b)
    (hk : k ∈ targets) (hb : HasAllocatableBlock s.object.spec (recordedRanges s.allocations k))
    (ha : Holds s.allocations k a) :
    Holds (calculateDPUServiceObjectStateBasedOnStatus s.object.spec s.allocations
      targets).allocations k a := by
  obtain ⟨table, table', m, m', p, hold, hre, -, -, -, -, hp, hin, hru⟩ :=
    h.run hnd hok
  rw [hre, holds_render]
  rw [hold, recordedRanges_render] at hb
  rw [hold, holds_render] at ha
  refine hru.kept k hk (hru.keeps ?_ hb) a ha
  intro r hr
  rcases rangesOf_cases table k with hn | hmem
  · simp [hn] at hr
  · exact hp ▸ hin _ hmem r hr

/-- An accepted update never makes a recorded allocation leave the parent network, and the next
successful run keeps every address of a target cluster whose allocation still has a block that the
user did not fully exclude. -/
theorem update_then_run_keeps_allocation {s : State} (h : Reachable Init Step s)
    {new : DPUServiceIPAM} (hnew : validateDPUServiceIPAM new (some s.object) = []) :
    (∀ p, parsePrefix new.spec.cidr = .ok p → ∀ x ∈ s.allocations, ∀ r ∈ x.ipRanges,
      ∃ q, readRange r = some q ∧ q.isIn (rangeFromPrefix p)) ∧
    ∀ targets : List String, targets.Nodup → ∀ b,
      (calculateDPUServiceObjectStateBasedOnStatus new.spec s.allocations targets).result = .ok b →
      ∀ k ∈ targets, HasAllocatableBlock new.spec (recordedRanges s.allocations k) →
      ∀ a, Holds s.allocations k a →
        Holds (calculateDPUServiceObjectStateBasedOnStatus new.spec s.allocations
          targets).allocations k a := by
  have hn : Reachable Init Step { s with object := new } := h.next (Step.update hnew)
  constructor
  · intro p hp x hx r hr
    obtain ⟨table, q, hre, -, hq, -, hin⟩ := inv_reachable hn
    rw [hp] at hq
    cases hq
    change s.allocations = render table at hre
    rw [hre] at hx
    obtain ⟨e, he, rfl⟩ := mem_map.mp hx
    obtain ⟨y, hy, rfl⟩ := mem_map.mp hr
    exact ⟨y, readRange_render y, hin e he y hy⟩
  · intro targets hnd b hok k hk hb a ha
    exact (inv_reachable hn).run_keeps hnd hok hk hb ha

/-- The first cluster keeps its block when the subnet grows and a second cluster is added. -/
theorem update_then_run_keeps_first_block :
    Holds ((State.afterRun ⟨sampleObject "10.0.0.0/24", []⟩ ["ns/a"]).allocations) "ns/a"
        ⟨.v4, 0x0a000003, by decide⟩ ∧
      Holds (calculateDPUServiceObjectStateBasedOnStatus (sampleObject "10.0.0.0/23").spec
        (State.afterRun ⟨sampleObject "10.0.0.0/24", []⟩ ["ns/a"]).allocations
        ["ns/a", "ns/b"]).allocations "ns/a" ⟨.v4, 0x0a000003, by decide⟩ :=
  ⟨by decide, (update_then_run_keeps_allocation
    (s := State.afterRun ⟨sampleObject "10.0.0.0/24", []⟩ ["ns/a"])
    (.next (.start ⟨by decide, rfl⟩) (.run (by decide)))
    (by decide : validateDPUServiceIPAM (sampleObject "10.0.0.0/23")
      (some (sampleObject "10.0.0.0/24")) = [])).2 ["ns/a", "ns/b"] (by decide) true rfl "ns/a"
    (by decide) ⟨⟨.v4, 0x0a000001, 0x0a00000a, by decide, by decide⟩, by decide, 0, by decide,
      ⟨.v4, 0x0a000001, by decide⟩, rfl, by decide, by decide, by decide⟩ _ (by decide)⟩

end DocaPlatform.IpamStatus
