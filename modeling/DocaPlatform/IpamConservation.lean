import DocaPlatform.IpamStability

/-!
# No block is left over

In a run with a quota the clusters are served in order, each from the lowest blocks that are free at
its turn. A cluster goes short only when nothing is left. The existing allocations may be any
ranges, also such as no run has written.
-/
namespace DocaPlatform.IpamStatus

open Netip Spans IpRange Runs IpamAllocator IpamWebhook List

/-- The user excluded every address of the block. -/
def FullyExcluded (spec : DPUServiceIPAMSpec) (g : BlockGrid) (i : ℕ) : Prop :=
  ∀ a, g.InBlock i a → Excluded spec a

/-- An allocation has an address of the block. -/
def Touched (g : BlockGrid) (allocations : List DPUClusterAllocation) (i : ℕ) : Prop :=
  ∃ x ∈ allocations, ∃ r ∈ x.ipRanges, ∃ a, InText r a ∧ g.InBlock i a

/-- The allocations that a run looks at: those of its clusters. -/
def allocationsOf (allocations : List DPUClusterAllocation) (keys : List String) :
    List DPUClusterAllocation :=
  keys.map fun k => ⟨k, getAllocationsForDPUCluster allocations k⟩

open Classical in
/-- The blocks that are free after the clusters with the new allocations `earlier` were served:
not fully excluded, and touched neither by an existing allocation nor by a new one. -/
noncomputable def freeBlocks (spec : DPUServiceIPAMSpec) (g : BlockGrid)
    (existing earlier : List DPUClusterAllocation) : Finset ℕ :=
  (Finset.range g.totalBlocks).filter fun i =>
    ¬ FullyExcluded spec g i ∧ ¬ Touched g existing i ∧ ¬ Touched g earlier i

variable {g : BlockGrid} {i : ℕ} {allocations : List DPUClusterAllocation} {keys : List String}
  {m : Calculator}

theorem mem_freeBlocks {spec : DPUServiceIPAMSpec} {existing earlier : List DPUClusterAllocation} :
    i ∈ freeBlocks spec g existing earlier ↔ i < g.totalBlocks ∧ ¬ FullyExcluded spec g i ∧
      ¬ Touched g existing i ∧ ¬ Touched g earlier i := by
  simp [freeBlocks]

theorem touched_render {table : List (String × List IPRange)} :
    Touched g (render table) i ↔ ∃ e ∈ table, ∃ a, Covered e.2 a ∧ g.InBlock i a := by
  constructor
  · rintro ⟨x, hx, r, hr, a, ha, hia⟩
    obtain ⟨e, he, rfl⟩ := mem_map.mp hx
    exact ⟨e, he, a, inText_toApiRanges.mp ⟨r, hr, ha⟩, hia⟩
  · rintro ⟨e, he, a, ha, hia⟩
    obtain ⟨r, hr, hra⟩ := inText_toApiRanges.mpr ha
    exact ⟨_, mem_map_of_mem he, r, hr, a, hra, hia⟩

/-- The existing ranges that a run has read are those of its clusters. -/
theorem touched_allocationsOf {existing : List IPRange}
    (h : parseAllRanges (keys.map (getAllocationsForDPUCluster allocations)) = .ok existing) :
    Touched g (allocationsOf allocations keys) i ↔ ∃ a, Covered existing a ∧ g.InBlock i a := by
  unfold Touched allocationsOf
  constructor
  · rintro ⟨x, hx, r, hr, a, ha, hia⟩
    obtain ⟨k, hk, rfl⟩ := mem_map.mp hx
    obtain ⟨l, hl, hc⟩ := covered_of_parseAllRanges h (mem_map_of_mem hk)
    exact ⟨a, hc a ((covered_iff_inText hl).mpr ⟨r, hr, ha⟩), hia⟩
  · rintro ⟨a, ha, hia⟩
    obtain ⟨x, hx, l, hl, hc⟩ := exists_of_covered_parseAllRanges h ha
    obtain ⟨k, hk, rfl⟩ := mem_map.mp hx
    obtain ⟨r, hr, hra⟩ := (covered_iff_inText hl).mp hc
    exact ⟨_, mem_map_of_mem hk, r, hr, a, hra, hia⟩

/-- The clusters of a run have no allocations but those recorded before it. -/
theorem touched_of_allocationsOf (h : Touched g (allocationsOf allocations keys) i) :
    Touched g allocations i := by
  obtain ⟨x, hx, r, hr, hra⟩ := h
  obtain ⟨k, -, rfl⟩ := mem_map.mp hx
  dsimp only [getAllocationsForDPUCluster] at hr
  cases hf : allocations.find? (fun a => a.dpuCluster = k) with
  | none => simp [hf] at hr
  | some y =>
    rw [hf] at hr
    exact ⟨y, mem_of_find?_eq_some hf, r, hr, hra⟩

/-- The blocks that the calculator of a run starts with. -/
theorem covers_newCalculator {spec : DPUServiceIPAMSpec}
    (hm : newCalculator spec (keys.map (getAllocationsForDPUCluster allocations)) = .ok m) :
    Covers m.availableBlockRanges i ↔ i < m.grid.totalBlocks ∧ ¬ FullyExcluded spec m.grid i ∧
      ¬ Touched m.grid (allocationsOf allocations keys) i := by
  obtain ⟨existing, he, hb⟩ := newCalculator_built hm
  have hr := hb.ready
  obtain ⟨parsed, hp, hme⟩ := hb.exclusions
  rw [touched_allocationsOf he, hb.available]
  refine and_congr_right fun hi => and_congr ?_ ?_
  · have hs := not_congr (block_subset_iff_covered m.grid hr.merged hi)
    push Not at hs
    rw [hs, FullyExcluded]
    push Not
    refine exists_congr fun a => and_congr_right fun _ => not_congr ?_
    rw [hme, covered_mergeRanges, covered_iff_inText hp]
    rfl
  · push Not
    exact forall_congr' fun a => Iff.rfl

/-- The loop over the clusters, cut at one of them. -/
theorem allocateAll_split {res : List DPUClusterAllocation} {m' : Calculator}
    {before after : List String} {k : String}
    (h : allocateAll allocations m (before ++ k :: after) = .ok (res, m')) :
    ∃ earlier m₁ ranges m₂ later, allocateAll allocations m before = .ok (earlier, m₁) ∧
      m₁.allocateClusterBlocks (getAllocationsForDPUCluster allocations k) = .ok (ranges, m₂) ∧
      allocateAll allocations m₂ after = .ok (later, m') ∧ res = earlier ++ ⟨k, ranges⟩ :: later := by
  induction before generalizing m res with
  | nil =>
    obtain ⟨ranges, m₂, later, hr, hl, rfl⟩ := allocateAll_cons h
    exact ⟨[], m, ranges, m₂, later, rfl, hr, hl, rfl⟩
  | cons k' before ih =>
    obtain ⟨blocks, m₀, rest, hb, hre, rfl⟩ := allocateAll_cons h
    obtain ⟨earlier, m₁, ranges, m₂, later, he, hr, hl, rfl⟩ := ih hre
    refine ⟨⟨k', blocks⟩ :: earlier, m₁, ranges, m₂, later, ?_, hr, hl, rfl⟩
    rw [allocateAll, hb]
    exact bind_eq_ok.mpr ⟨_, rfl, bind_eq_ok.mpr ⟨_, he, rfl⟩⟩

/-- Every block of the grid is fully excluded or touched by one of the allocations. -/
def NothingLeft (spec : DPUServiceIPAMSpec) (g : BlockGrid)
    (old new : List DPUClusterAllocation) : Prop :=
  ∀ i < g.totalBlocks, FullyExcluded spec g i ∨ Touched g old i ∨ Touched g new i

/-- What one cluster with the previous ranges `old` gets at its turn: the lowest free blocks, as
many as it lacks. -/
structure Served (m : Calculator) (quota : ℤ) (g : BlockGrid) (free : Finset ℕ)
    (old : List IPRange) (ranges : List ApiIPRange) (given : Finset ℕ) : Prop where
  subset : given ⊆ free
  lowest : ∀ i ∈ given, ∀ j ∈ free, j ∉ given → i < j
  count : given.card = min (quota - m.keptCount old).toNat free.card
  holds : ∀ a, (∃ r ∈ ranges, InText r a) ↔
    Covered (m.keptRanges old) a ∨ ∃ i ∈ given, g.InBlock i a
  whole : (∀ r ∈ mergeRanges (m.keptRanges old), g.Whole r) →
    m.countAllocatableBlocks (ranges.filterMap readRange) = m.keptCount old + given.card

theorem filterMap_readRange (l : List IPRange) : (toApiRanges l).filterMap readRange = l := by
  rw [toApiRanges, filterMap_map]
  have hr : (readRange ∘ fun r : IPRange => ⟨r.start.string, r.stop.string⟩) = some :=
    funext readRange_render
  rw [hr, filterMap_some]

theorem card_given (hm : m.Ready) {old : List IPRange} :
    ((Finset.range m.grid.totalBlocks).filter (Covers (m.given old))).card = size (m.given old) :=
  card_covers (hm.sound.separated.take_fst _) fun _ hs => hm.sound.taken_lt hs

/-- The turn of a cluster, in terms of the free blocks. -/
theorem served_turn (hm : m.Ready) {quota : ℤ} (htg : m.targetBlocksPerDPUCluster = quota)
    (hq : m.allocateAllRemainingBlocks = false) {free : Finset ℕ}
    (hf : ∀ i, i ∈ free ↔ Covers m.availableBlockRanges i) {old new : List IPRange}
    (hn : List.Forall₂ m.grid.IsSpan (m.given old) new)
    (hold : ∀ a, Covered old a → ∀ i, Covers m.availableBlockRanges i → ¬ m.grid.InBlock i a) :
    Served m quota m.grid free old (toApiRanges (mergeRanges (m.keptRanges old ++ new)))
      ((Finset.range m.grid.totalBlocks).filter (Covers (m.given old))) := by
  have hmem : ∀ i, i ∈ (Finset.range m.grid.totalBlocks).filter (Covers (m.given old)) ↔
      Covers (m.given old) i := by
    intro i
    rw [Finset.mem_filter, Finset.mem_range]
    exact ⟨And.right, fun h => ⟨hm.sound.lt_of_covers (Calculator.covers_of_given h), h⟩⟩
  have hfr : free.card = size m.availableBlockRanges := by
    rw [← card_covers hm.sound.separated hm.sound.inGrid]
    congr 1
    ext i
    rw [hf, Finset.mem_filter, Finset.mem_range]
    exact ⟨fun h => ⟨hm.sound.lt_of_covers h, h⟩, And.right⟩
  have hl : m.lacks old = (quota - m.keptCount old).toNat := by
    rw [Calculator.lacks, hq, htg]
    rfl
  refine ⟨?_, ?_, ?_, ?_, ?_⟩
  · intro i hi
    exact (hf i).mpr (Calculator.covers_of_given ((hmem i).mp hi))
  · intro i hi j hj hno
    rw [hmem] at hi hno
    obtain ⟨s, hs, hsi⟩ := hi
    obtain ⟨t, ht, htj⟩ := (Calculator.covers_afterTurn hm.sound).mpr ⟨(hf j).mp hj, hno⟩
    have hst : s.hi < t.lo := take_ordered hm.sound.separated hs ht
    rw [mem_span] at hsi htj
    omega
  · rw [card_given hm, hfr, ← hl]
    exact size_take _ _
  · intro a
    rw [inText_toApiRanges, Calculator.covered_turn hn]
    simp [hmem]
  · intro hw
    rw [filterMap_readRange, card_given hm]
    exact Calculator.countAllocatableBlocks_turn hm hn hw hold

/-- A run with a quota serves every cluster from the lowest blocks that are free at its turn. A
cluster without previous ranges gets the quota or all that is free. If the blocks that a cluster
keeps and the blocks that it gets are fewer than the quota, nothing is left; and they are the blocks
counted in its new ranges if its previous ranges hold whole blocks. -/
theorem allocation_work_conserving {spec : DPUServiceIPAMSpec} {quota : ℤ}
    (hquota : quotaOf spec = some quota) {allocations : List DPUClusterAllocation}
    {targets : List String} {b : Bool}
    (hok : (calculateDPUServiceObjectStateBasedOnStatus spec allocations targets).result = .ok b) :
    ∃ g m, gridOf spec = some g ∧
      (calculateDPUServiceObjectStateBasedOnStatus spec allocations targets).calculator = some m ∧
      ∀ before k after, sortTargets targets = before ++ k :: after →
        ∃ earlier ranges later given,
          (calculateDPUServiceObjectStateBasedOnStatus spec allocations targets).allocations =
            earlier ++ ⟨k, ranges⟩ :: later ∧
          earlier.map DPUClusterAllocation.dpuCluster = before ∧
          Served m quota g (freeBlocks spec g (allocationsOf allocations (sortTargets targets))
            earlier) (oldRanges allocations k) ranges given ∧
          (getAllocationsForDPUCluster allocations k = [] →
            given.card = min quota.toNat (freeBlocks spec g
              (allocationsOf allocations (sortTargets targets)) earlier).card ∧
            (∀ i ∈ given, ¬ FullyExcluded spec g i) ∧
            ∀ a, (∃ r ∈ ranges, InText r a) ↔ ∃ i ∈ given, g.InBlock i a) ∧
          (m.keptCount (oldRanges allocations k) + given.card < quota →
            NothingLeft spec g allocations (calculateDPUServiceObjectStateBasedOnStatus spec
              allocations targets).allocations) := by
  obtain ⟨m', hco, hc⟩ := calculate_ok hok
  obtain ⟨-, m, hm, hlo⟩ := computeAllocations_eq_ok.mp hco
  obtain ⟨existing, hex, hbu⟩ := newCalculator_built hm
  have hta := oldTaken_of_built hex hbu
  refine ⟨m.grid, m', newCalculator_grid hm, hc, fun before k after hsp => ?_⟩
  obtain ⟨table, ht, -, hall⟩ := allocateAll_turns hbu.ready hta hlo
  rw [hsp] at hlo hta
  obtain ⟨earlier, m₁, ranges, m₂, later, he, hr, hl, hre⟩ := allocateAll_split hlo
  obtain ⟨table₁, rfl, hkeys, hb⟩ := allocateAll_turns hbu.ready
    (fun k' hk' => hta k' (mem_append_left _ hk')) he
  obtain ⟨available, rfl⟩ : ∃ available, m₁ = m.withAvailable available := ⟨_, hb.frame⟩
  obtain ⟨old, new, hp, -, hn, rfl, rfl⟩ :=
    Calculator.allocateClusterBlocks_turn hb.ready.sound hr
  have hf : ∀ i, i ∈ freeBlocks spec m.grid (allocationsOf allocations (sortTargets targets))
      (render table₁) ↔ Covers available i := by
    intro i
    have hi := hb.available i
    rw [covers_newCalculator hm] at hi
    rw [mem_freeBlocks, touched_render]
    refine Iff.trans ?_ hi.symm
    push Not
    tauto
  have hke : ∀ a, Covered old a → ∀ i, Covers available i → ¬ m.grid.InBlock i a :=
    fun a ha i hi => hta k (by simp) old hp a ha i ((hb.available i).mp hi).1
  have hm₁ : m.targetBlocksPerDPUCluster = quota ∧ m.allocateAllRemainingBlocks = false := by
    obtain ⟨_, _, _, _, -, -, -, -, -, rfl⟩ := newCalculator_cases.mp hm
    simp [calculatorOf, hquota]
  have hs := served_turn hb.ready hm₁.1 hm₁.2 hf hn hke
  obtain ⟨_, rfl, -, haf⟩ := allocateAll_turns (hb.ready.afterTurn old)
    (fun k' hk' old' hparse' a ha i hi => hta k' (by simp [hk']) old' hparse' a ha i
      ((hb.available i).mp ((Calculator.covers_afterTurn hb.ready.sound).mp hi).1).1)
    hl
  obtain ⟨left, rfl⟩ : ∃ left, m' = m.withAvailable left := ⟨_, hall.frame⟩
  rw [oldRanges_of_parse hp]
  refine ⟨render table₁, _, _, _, hre, ?_, ⟨hs.subset, hs.lowest, hs.count,
    hs.holds, hs.whole⟩, ?_, ?_⟩
  · rw [← hkeys]
    simp [render]
  · intro hno
    rw [hno] at hp
    cases hp
    have hk : ¬ (m.withAvailable available).Keeps [] := fun h => h.1 rfl
    have hcn := hs.count
    have hh := hs.holds
    rw [Calculator.keptCount, if_neg hk, sub_zero] at hcn
    refine ⟨hcn, fun i hi => (mem_freeBlocks.mp (hs.subset hi)).2.1, fun a => ?_⟩
    rw [hh, Calculator.keptRanges, if_neg hk]
    exact or_iff_right (by simp [Covered])
  · intro hsh i hi
    rw [card_given hb.ready] at hsh
    have hem : ((m.withAvailable available).afterTurn old).availableBlockRanges = [] :=
      Calculator.afterTurn_exhausted hm₁.2 (hm₁.1.symm ▸ hsh)
    by_contra hnot
    rw [not_or, not_or] at hnot
    obtain ⟨ho, hold, hnewl⟩ := hnot
    rw [ht, touched_render] at hnewl
    push Not at hnewl
    have hst := (hall.available i).mpr ⟨(covers_newCalculator hm).mpr
      ⟨hi, ho, fun h => hold (touched_of_allocationsOf h)⟩, hnewl⟩
    have htu := ((haf.available i).mp hst).1
    rw [hem] at htu
    exact covers_nil _ htu

/-- The second of two new clusters gets one block, the lowest that the first one left. -/
theorem second_cluster_conserved :
    ∃ g earlier ranges later, ∃ given : Finset ℕ, gridOf (sampleObject "10.0.0.0/24").spec = some g ∧
      (calculateDPUServiceObjectStateBasedOnStatus (sampleObject "10.0.0.0/24").spec []
        ["ns/b", "ns/a"]).allocations = earlier ++ ⟨"ns/b", ranges⟩ :: later ∧
      given.card = min 1 (freeBlocks (sampleObject "10.0.0.0/24").spec g
        (allocationsOf [] ["ns/a", "ns/b"]) earlier).card ∧
      ∀ a, (∃ r ∈ ranges, InText r a) ↔ ∃ i ∈ given, g.InBlock i a := by
  obtain ⟨g, m, hg, -, hs⟩ := allocation_work_conserving
    (show quotaOf (sampleObject "10.0.0.0/24").spec = some 1 from rfl) (b := true)
    (show (calculateDPUServiceObjectStateBasedOnStatus (sampleObject "10.0.0.0/24").spec []
      ["ns/b", "ns/a"]).result = .ok true from rfl)
  obtain ⟨earlier, ranges, later, given, hr, -, -, hn, -⟩ :=
    hs ["ns/a"] "ns/b" [] (by decide)
  obtain ⟨hc, -, hh⟩ := hn rfl
  exact ⟨g, earlier, ranges, later, given, hg, hr, hc, hh⟩

/-- A quota of two blocks of ten addresses, and ten excluded addresses that are no block. -/
def offGridSpec : DPUServiceIPAMSpec where
  ipv4Network := none
  ipv4Subnet := none
  network := none
  subnet := some
    { subnet := "10.0.0.0/24"
      gateway := "10.0.0.1"
      perNodeIPCount := 10
      excludeRanges := [⟨"10.0.0.15", "10.0.0.24"⟩]
      defaultGateway := false
      routes := []
      blocksPerDPUCluster := some 2 }
  exactlyOne := rfl

/-- Sixteen addresses from the middle of the first block on. -/
def offGridAllocation : List DPUClusterAllocation :=
  [⟨"ns/a", [⟨"10.0.0.5", "10.0.0.20"⟩]⟩]

def offGrid : BlockGrid where
  start := ⟨.v4, 0x0a000001, by decide⟩
  blockSize := 10
  totalBlocks := 25
  blockSize_pos := by decide
  fits := by decide

/-- The added block joins the six addresses after the first ten, and the merged range counts the
excluded addresses as its second block: the cluster stays below its quota of two blocks, and the
fourth block of the grid is free. -/
theorem off_grid_allocation_short :
    gridOf offGridSpec = some offGrid ∧
      (calculateDPUServiceObjectStateBasedOnStatus offGridSpec offGridAllocation ["ns/a"]).result =
        .ok true ∧
      (calculateDPUServiceObjectStateBasedOnStatus offGridSpec offGridAllocation
        ["ns/a"]).allocations = [⟨"ns/a", [⟨"10.0.0.5", "10.0.0.30"⟩]⟩] ∧
      ((calculateDPUServiceObjectStateBasedOnStatus offGridSpec offGridAllocation
        ["ns/a"]).calculator.map fun m => m.countAllocatableBlocks
          (recordedRanges [⟨"ns/a", [⟨"10.0.0.5", "10.0.0.30"⟩]⟩] "ns/a")) = some 1 ∧
      ¬ NothingLeft offGridSpec offGrid offGridAllocation
        [⟨"ns/a", [⟨"10.0.0.5", "10.0.0.30"⟩]⟩] := by
  refine ⟨?_, by decide +kernel, by decide +kernel, by decide +kernel, ?_⟩
  · rfl
  · intro h
    -- Both allocations end before the fourth block.
    have hu : ∀ stop : IPRange, stop.hi ≤ 0x0a00001e → ∀ text : ApiIPRange,
        readRange text = some stop → ¬ Touched offGrid [⟨"ns/a", [text]⟩] 3 := by
      rintro stop hs text hre ⟨x, hx, r, hr, a, ⟨p, hp, -, -, hap⟩, -, hlo, -⟩
      obtain rfl := mem_singleton.mp hx
      obtain rfl := mem_singleton.mp hr
      rw [hre] at hp
      cases hp
      change 0x0a000001 + 3 * 10 ≤ a.val at hlo
      omega
    rcases h 3 (by decide) with he | ht | ht
    · exact absurd (he ⟨.v4, 0x0a00001f, by decide⟩ (by decide)) (by decide)
    · exact hu ⟨.v4, 0x0a000005, 0x0a000014, by decide, by decide⟩ (by decide) _
        (by decide) ht
    · exact hu ⟨.v4, 0x0a000005, 0x0a00001e, by decide, by decide⟩ (by decide) _
        (by decide) ht

end DocaPlatform.IpamStatus
