import DocaPlatform.IpamBlocks
import DocaPlatform.IpamStatus

/-!
# Repeated runs over one network

With a fixed network and per-node size every recorded range consists of blocks of one grid. After
a successful run each cluster has its quota or nothing is left, so that the same run again finds
nothing to do, as far as it can read what the run before it has written.
-/
namespace DocaPlatform.IpamStatus

open Netip Spans IpRange Runs IpamAllocator IpamWebhook List Calculator

/-- The network of a specification, without host bits. -/
def networkOf (spec : DPUServiceIPAMSpec) : Option Prefix :=
  (parsePrefix spec.cidr).toOption.map Prefix.masked

/-- The grid that the blocks of a specification lie on. -/
def gridOf (spec : DPUServiceIPAMSpec) : Option BlockGrid :=
  (networkOf spec).bind fun p =>
    (effectiveGrid p (blockSizeOf spec) (isCIDRPoolOf spec)).toOption

variable {spec : DPUServiceIPAMSpec} {m m' : Calculator} {table : List (String × List IPRange)}
  {old new ranges : List IPRange} {allocations res : List DPUClusterAllocation}
  {keys targets : List String}

/-- The calculator of a specification, in its parts. -/
theorem newCalculator_cases {current : List (List ApiIPRange)} :
    newCalculator spec current = .ok m ↔
      ∃ p grid exclusions existing, parsePrefix spec.cidr = .ok p ∧ p.addr.is4In6 = false ∧
        gridOf spec = some grid ∧ parseIPRanges (exclusionsOf spec) = .ok exclusions ∧
        parseAllRanges current = .ok existing ∧
        m = calculatorOf p grid exclusions existing (quotaOf spec) (staticsOf spec) := by
  rw [newCalculator_eq_ok, newMultiDPUClusterExclusionCalculator_eq_ok]
  refine exists_congr fun p => exists_congr fun grid => exists_congr fun exclusions =>
    exists_congr fun existing => and_congr_right fun hp => ?_
  have hg : gridOf spec = some grid ↔
      effectiveGrid p.masked (blockSizeOf spec) (isCIDRPoolOf spec) = .ok grid := by
    simp only [gridOf, networkOf, hp, Except.toOption, Option.map_some, Option.bind_some]
    cases effectiveGrid p.masked (blockSizeOf spec) (isCIDRPoolOf spec) <;> simp
  rw [hg]

theorem isCIDRPoolOf_eq (spec : DPUServiceIPAMSpec) :
    isCIDRPoolOf spec = decide (spec.configuration.mode = .network) := by
  unfold isCIDRPoolOf
  cases spec.configuration <;> rfl

theorem isCIDRPoolOf_update {new old : DPUServiceIPAM}
    (h : validateDPUServiceIPAM new (some old) = []) :
    isCIDRPoolOf new.spec = isCIDRPoolOf old.spec := by
  simp only [validateDPUServiceIPAM, append_eq_nil_iff, Option.map_some, Option.getD_some] at h
  have ht := h.1.1.2
  unfold validateTransition at ht
  dsimp only at ht
  rw [if_neg (selectConfiguration_ne_unknown old.spec)] at ht
  rw [configurationMode_select, configurationMode_select] at ht
  by_cases hm : old.spec.configuration.mode = new.spec.configuration.mode
  · rw [isCIDRPoolOf_eq, isCIDRPoolOf_eq, hm]
  · rw [if_pos hm] at ht
    cases ht

/-- No end of the ranges is written as an IPv4-mapped address. -/
def Readable (ranges : List ApiIPRange) : Prop :=
  ∀ r ∈ ranges, isMappedText r.startIP = false ∧ isMappedText r.endIP = false

instance (ranges : List ApiIPRange) : Decidable (Readable ranges) :=
  inferInstanceAs (Decidable (∀ r ∈ ranges, _))

theorem isMappedText_string (a : Addr) : isMappedText a.string = a.is4In6 := by
  simp [isMappedText, parseAddr_string]

theorem parse_toApiRanges_iff {l : List IPRange} :
    parseIPRanges (toApiRanges l) = .ok l ↔ Readable (toApiRanges l) := by
  induction l with
  | nil => simp [toApiRanges, parseIPRanges, Readable]
  | cons r l ih =>
    have hc : toApiRanges (r :: l) = ⟨r.start.string, r.stop.string⟩ :: toApiRanges l := rfl
    have hre : parseIPRange ⟨r.start.string, r.stop.string⟩ = .ok r ↔
        r.start.is4In6 = false ∧ r.stop.is4In6 = false := by
      simp [parseIPRange_eq_ok, parseAddr_eq_ok, parseAddr_string]
    rw [hc, parseIPRanges_cons, Readable, forall_mem_cons, ← Readable, ← ih,
      isMappedText_string, isMappedText_string, ← hre]
    constructor
    · rintro ⟨p, ps, hp, hps, heq⟩
      cases heq
      exact ⟨hp, hps⟩
    · rintro ⟨hr, hl⟩
      exact ⟨r, l, hr, hl, rfl⟩

theorem parseAllRanges_map (h : ∀ e ∈ table, parseIPRanges (toApiRanges e.2) = .ok e.2) :
    parseAllRanges (table.map fun e => toApiRanges e.2) = .ok (table.flatMap Prod.snd) := by
  induction table with
  | nil => rfl
  | cons e table ih =>
    rw [map_cons, parseAllRanges_cons]
    exact ⟨e.2, table.flatMap Prod.snd, h e (by simp), ih fun x hx => h x (by simp [hx]), rfl⟩

/-! ## What a run leaves behind -/

/-- The ranges of a cluster that a run keeps as they are when no more than the blocks of `m'` are
available. -/
structure Settled (m m' : Calculator) (ranges : List IPRange) : Prop where
  separated : Separated (spans ranges)
  aligned : ∀ r ∈ ranges, m.grid.Aligned r
  keeps : m.Keeps ranges
  served : m'.availableBlockRanges = [] ∨ (m.allocateAllRemainingBlocks = false ∧
    m.targetBlocksPerDPUCluster ≤ m.countAllocatableBlocks ranges)

theorem settled_turn (hm : m.Ready) (hso : m.Keeps old ∨ m.given old ≠ [])
    (hn : List.Forall₂ m.grid.IsSpan (m.given old) new) (hold : ∀ r ∈ old, m.grid.Aligned r)
    (hf : ∀ a, Covered old a → ∀ i, Covers m.availableBlockRanges i → ¬ m.grid.InBlock i a) :
    Settled m (m.afterTurn old) (mergeRanges (m.keptRanges old ++ new)) := by
  have hke : ∀ r ∈ m.keptRanges old, m.grid.Aligned r := by
    unfold Calculator.keptRanges
    split_ifs
    · exact hold
    · simp
  have hnewAligned := aligned_of_isSpan hn fun s hs => hm.sound.taken_lt hs
  have ha : ∀ r ∈ mergeRanges (m.keptRanges old ++ new), m.grid.Aligned r := fun r hr =>
    aligned_mergeRanges (fun q hq => (mem_append.mp hq).elim (hke q) (hnewAligned q)) hr
  have hc := countAllocatableBlocks_turn hm hn
    (fun r hr => (aligned_mergeRanges hke hr).whole) hf
  have hp : 0 < m.keptCount old + size (m.given old) := by
    unfold Calculator.keptCount
    by_cases hk : m.Keeps old
    · rw [if_pos hk]
      have := hk.2.2
      omega
    · have hsi : size (m.given old) ≠ 0 := fun h =>
        (hso.resolve_left hk) (size_eq_zero.mp h)
      rw [if_neg hk]
      omega
  refine ⟨separated_mergeRanges _, ha, ⟨?_, fun r hr => hm.sound.isIn_parent (ha r hr),
    by rwa [hc]⟩, ?_⟩
  · intro hni
    rw [hni] at hc
    change (0 : ℤ) = _ at hc
    omega
  · cases hall : m.allocateAllRemainingBlocks with
    | true => exact .inl (afterTurn_of_all hall)
    | false =>
      by_cases hse : m.targetBlocksPerDPUCluster ≤ m.keptCount old + size (m.given old)
      · exact .inr ⟨rfl, hc ▸ hse⟩
      · exact .inl (afterTurn_exhausted hall (by omega))

/-- The turn of one cluster in the allocation loop from `m` to `m'`, which finds the blocks
`available`. -/
structure TurnIn (m m' : Calculator) (old ranges : List IPRange) (available : List Span)
    (new : List IPRange) : Prop where
  ready : (m.withAvailable available).Ready
  earlier : ∀ i, Covers available i → Covers m.availableBlockRanges i
  some : m.Keeps old ∨ (m.withAvailable available).given old ≠ []
  given : List.Forall₂ m.grid.IsSpan ((m.withAvailable available).given old) new
  ranges_eq : ranges = mergeRanges (m.keptRanges old ++ new)
  later : ∀ i, Covers m'.availableBlockRanges i →
    Covers ((m.withAvailable available).afterTurn old).availableBlockRanges i

/-- The old ranges of the clusters touch no available block. -/
def OldTaken (allocations : List DPUClusterAllocation) (m : Calculator) (keys : List String) :
    Prop :=
  ∀ k ∈ keys, ∀ old, parseIPRanges (getAllocationsForDPUCluster allocations k) = .ok old →
    ∀ a, Covered old a → ∀ i, Covers m.availableBlockRanges i → ¬ m.grid.InBlock i a

/-- The allocation loop: every entry is the result of a turn, and the blocks that are left are the
available blocks that no entry touches. -/
structure LoopSpec (allocations : List DPUClusterAllocation) (m m' : Calculator)
    (table : List (String × List IPRange)) : Prop where
  frame : m' = m.withAvailable m'.availableBlockRanges
  ready : m'.Ready
  available : ∀ i, Covers m'.availableBlockRanges i ↔ Covers m.availableBlockRanges i ∧
    ∀ e ∈ table, ∀ a, Covered e.2 a → ¬ m.grid.InBlock i a
  turn : ∀ e ∈ table, ∃ old available new,
    parseIPRanges (getAllocationsForDPUCluster allocations e.1) = .ok old ∧
      TurnIn m m' old e.2 available new

theorem allocateAll_turns (hm : m.Ready) (hold : OldTaken allocations m keys)
    (h : allocateAll allocations m keys = .ok (res, m')) :
    ∃ table, res = render table ∧ table.map Prod.fst = keys ∧ LoopSpec allocations m m' table := by
  induction keys generalizing m res with
  | nil =>
    cases h
    exact ⟨[], rfl, rfl, rfl, hm, by simp, by simp⟩
  | cons k ks ih =>
    obtain ⟨blocks, m₁, rest, hb, hr, rfl⟩ := allocateAll_cons h
    obtain ⟨old, new, hp, hso, hn, rfl, rfl⟩ :=
      allocateClusterBlocks_turn hm.sound hb
    have hf := hold k (by simp) old hp
    have hs : ∀ i, Covers (m.afterTurn old).availableBlockRanges i →
        Covers m.availableBlockRanges i := fun i hi =>
      ((covers_afterTurn hm.sound).mp hi).1
    obtain ⟨table, rfl, hke, hsp⟩ := ih (hm.afterTurn old)
      (fun k' hk' old' hparse' a ha i hi => hold k' (by simp [hk']) old' hparse' a ha i
        (hs i hi)) hr
    refine ⟨(k, mergeRanges (m.keptRanges old ++ new)) :: table, rfl, by simp [hke],
      hsp.frame, hsp.ready, fun i => ?_, ?_⟩
    · -- An available block is touched by the new entry exactly if the turn took it.
      have hto : Covers m.availableBlockRanges i → (Covers (m.given old) i ↔
          ∃ a, Covered (mergeRanges (m.keptRanges old ++ new)) a ∧ m.grid.InBlock i a) := by
        intro hi
        constructor
        · intro hg
          obtain ⟨a, -, ha, -, -, -⟩ := m.grid.exists_ends (hm.sound.lt_of_covers hi)
          exact ⟨a, (covered_turn hn).mpr (.inr ⟨i, hg, ha⟩), ha⟩
        · rintro ⟨a, hc, hia⟩
          rcases (covered_turn hn).mp hc with hk | ⟨j, hj, hja⟩
          · exact absurd hia (hf a (covered_of_keptRanges hk) i hi)
          · rwa [m.grid.inBlock_unique hia hja]
      rw [hsp.available, covers_afterTurn hm.sound, forall_mem_cons, and_assoc]
      refine and_congr_right fun hi => ?_
      rw [hto hi]
      push Not
      exact Iff.rfl
    · intro e he
      rcases mem_cons.mp he with rfl | he
      · exact ⟨old, m.availableBlockRanges, new, hp, hm, fun i hi => hi, hso, hn, rfl,
          fun i hi => ((hsp.available i).mp hi).1⟩
      · obtain ⟨old', available, new', hparse', ht⟩ := hsp.turn e he
        exact ⟨old', available, new', hparse', ht.ready, fun i hi => hs i (ht.earlier i hi),
          ht.some, ht.given, ht.ranges_eq, ht.later⟩

theorem TurnIn.settled {available : List Span} (h : TurnIn m m' old ranges available new)
    (hold : ∀ r ∈ old, m.grid.Aligned r)
    (hf : ∀ a, Covered old a → ∀ i, Covers m.availableBlockRanges i → ¬ m.grid.InBlock i a) :
    Settled m m' ranges := by
  have hs := settled_turn h.ready h.some h.given hold fun a ha i hi => hf a ha i (h.earlier i hi)
  rw [h.ranges_eq]
  refine ⟨hs.separated, hs.aligned, hs.keeps, hs.served.imp_left fun hn => ?_⟩
  rw [eq_nil_iff_forall_not_mem]
  intro s hmem
  have hc := h.later s.lo ⟨s, hmem, le_rfl, s.le⟩
  rw [hn] at hc
  exact covers_nil _ hc

/-- An old block that is not recorded any more is fully excluded. -/
theorem TurnIn.dropped {available : List Span} (h : TurnIn m m' old ranges available new)
    (hold : ∀ r ∈ old, m.grid.Aligned r) {i : ℕ} {a : Addr} (ha : Covered old a)
    (hia : m.grid.InBlock i a) : Covered ranges a ∨ ¬ m.OpenBlock i := by
  by_cases hk : m.Keeps old
  · left
    rw [h.ranges_eq, covered_mergeRanges, covered_append, Calculator.keptRanges, if_pos hk]
    exact .inl ha
  · exact .inr (not_openBlock_of_not_keeps (m := m.withAvailable available) h.ready
      hold hk ha hia)

/-- The entry is settled, and an old block of the cluster that it does not hold any more is fully
excluded. -/
structure SettledFrom (allocations : List DPUClusterAllocation) (m m' : Calculator)
    (e : String × List IPRange) : Prop where
  settled : Settled m m' e.2
  dropped : ∀ old, parseIPRanges (getAllocationsForDPUCluster allocations e.1) = .ok old →
    ∀ i a, Covered old a → m.grid.InBlock i a → Covered e.2 a ∨ ¬ m.OpenBlock i

theorem allocateClusterBlocks_settled (hm : m.Sound) (h : Settled m m ranges)
    (hr : parseIPRanges (toApiRanges ranges) = .ok ranges) :
    m.allocateClusterBlocks (toApiRanges ranges) = .ok (toApiRanges ranges, m) := by
  have hno : m.given ranges = [] := by
    have hs : size (m.given ranges) = min (m.lacks ranges) (size m.availableBlockRanges) :=
      size_take _ _
    refine size_eq_zero.mp ?_
    rcases h.served with hni | ⟨hq, he⟩
    · rw [hs, hni]
      simp
    · have hl : m.lacks ranges = 0 := by
        rw [Calculator.lacks, hq, Calculator.keptCount, if_pos h.keeps]
        simp only [Bool.false_eq_true, if_false]
        omega
      rw [hs, hl]
      simp
  obtain ⟨new, hn, heq⟩ := allocateClusterBlocks_ok hm hr (.inl h.keeps)
  rw [hno] at hn
  cases hn
  have hk : m.keptRanges ranges = ranges := if_pos h.keeps
  rw [heq, hk, append_nil, mergeRanges_of_separated h.separated, Calculator.afterTurn,
    withoutLowest_of_taken_nil hno]

theorem allocateAll_settled (hm : m.Sound)
    (h : ∀ e ∈ table, Settled m m e.2 ∧ parseIPRanges (toApiRanges e.2) = .ok e.2 ∧
      getAllocationsForDPUCluster allocations e.1 = toApiRanges e.2) :
    allocateAll allocations m (table.map Prod.fst) = .ok (render table, m) := by
  induction table with
  | nil => rfl
  | cons e table ih =>
    obtain ⟨hs, hr, hg⟩ := h e (by simp)
    have ht := allocateClusterBlocks_settled hm hs hr
    rw [map_cons, allocateAll, hg, ht]
    refine bind_eq_ok.mpr ⟨_, rfl, bind_eq_ok.mpr ⟨_, ih fun x hx => h x (by simp [hx]), rfl⟩⟩

/-! ## Runs over one network -/

/-- The network and the per-node size of the specification stay. The quota never decreases, since
the webhook refuses such an update. -/
def KeepsNetwork (s : State) : Event → Prop
  | .update new => networkOf new.spec = networkOf s.object.spec ∧
      blockSizeOf new.spec = blockSizeOf s.object.spec
  | .run _ => True

/-- Every recorded range consists of blocks of the grid of the specification. -/
def OnGrid (s : State) : Prop :=
  ∃ table, s.allocations = render table ∧
    ∀ g, gridOf s.object.spec = some g → ∀ e ∈ table, ∀ r ∈ e.2, g.Aligned r

theorem aligned_rangesOf {g : BlockGrid} (h : ∀ e ∈ table, ∀ r ∈ e.2, g.Aligned r) (k : String) :
    ∀ r ∈ rangesOf table k, g.Aligned r := by
  intro r hr
  rcases rangesOf_cases table k with hn | hmem
  · simp [hn] at hr
  · exact h _ hmem r hr

theorem newCalculator_grid {current : List (List ApiIPRange)}
    (h : newCalculator spec current = .ok m) : gridOf spec = some m.grid := by
  obtain ⟨p, grid, exclusions, existing, -, -, hg, -, -, rfl⟩ := newCalculator_cases.mp h
  exact hg

/-- The calculator of a run hands out no block that an existing allocation touches. -/
theorem oldTaken_of_built {network : String} {blockSizePerNode : ℤ}
    {excludeRanges : List ApiIPRange} {statics : List (String × String)} {existing : List IPRange}
    (he : parseAllRanges (keys.map (getAllocationsForDPUCluster allocations)) = .ok existing)
    (hm : Built network blockSizePerNode excludeRanges statics existing m) :
    OldTaken allocations m keys := by
  intro k hk old hp a ha i hi
  obtain ⟨old', hparse', hc⟩ := covered_of_parseAllRanges he (mem_map_of_mem hk)
  rw [hp] at hparse'
  cases hparse'
  exact ((hm.available i).mp hi).2.2 a (hc a ha)

theorem computeAllocations_eq_ok :
    computeAllocations spec allocations targets = .ok (res, m') ↔
      ¬ (isPerClusterAllocationEnabled spec = false ∧ 1 < targets.length) ∧
      ∃ m, newCalculator spec ((sortTargets targets).map
          (getAllocationsForDPUCluster allocations)) = .ok m ∧
        allocateAll allocations m (sortTargets targets) = .ok (res, m') := by
  unfold computeAllocations
  by_cases hm : isPerClusterAllocationEnabled spec = false ∧ 1 < targets.length
  · rw [if_pos hm]
    simp [hm]
  · rw [if_neg hm, bind_eq_ok]
    simp [hm]

/-- A successful run from ranges on the grid, and the calculator that it started from. -/
theorem run_settles (hg : ∀ g, gridOf spec = some g → ∀ e ∈ table, ∀ r ∈ e.2, g.Aligned r)
    (h : computeAllocations spec (render table) targets = .ok (res, m')) :
    ∃ table' m, res = render table' ∧ table'.map Prod.fst = sortTargets targets ∧
      newCalculator spec ((sortTargets targets).map
        (getAllocationsForDPUCluster (render table))) = .ok m ∧
      gridOf spec = some m.grid ∧ LoopSpec (render table) m m' table' ∧
      ∀ e ∈ table', SettledFrom (render table) m m' e := by
  obtain ⟨-, m, hm, hl⟩ := computeAllocations_eq_ok.mp h
  obtain ⟨existing, hex, hb⟩ := newCalculator_built hm
  have hmg := newCalculator_grid hm
  have ht := oldTaken_of_built hex hb
  obtain ⟨table', rfl, hk, hs⟩ := allocateAll_turns hb.ready ht hl
  refine ⟨table', m, rfl, hk, hm, hmg, hs, fun e he => ?_⟩
  obtain ⟨old, available, new, hp, htu⟩ := hs.turn e he
  have hmem : e.1 ∈ sortTargets targets := hk ▸ mem_map_of_mem he
  have hold : ∀ r ∈ old, m.grid.Aligned r := by
    have hr := hp
    rw [get_render] at hr
    rw [parseIPRanges_toApiRanges hr]
    exact aligned_rangesOf (hg _ hmg) e.1
  refine ⟨htu.settled hold (ht e.1 hmem old hp), ?_⟩
  intro old' hparse' i a ha hia
  rw [hp] at hparse'
  cases hparse'
  exact htu.dropped hold ha hia

theorem OnGrid.step {s t : State} {l : Event} (h : OnGrid s)
    (hs : Restrict KeepsNetwork Step s l t) : OnGrid t := by
  obtain ⟨hk, hs⟩ := hs
  obtain ⟨table, hre, hgr⟩ := h
  cases hs with
  | update hv =>
    refine ⟨table, hre, fun g hg => hgr g ?_⟩
    rw [← hg, gridOf, gridOf, hk.1, hk.2, isCIDRPoolOf_update hv]
  | @run targets hnd =>
    cases hres : (calculateDPUServiceObjectStateBasedOnStatus s.object.spec s.allocations
      targets).result with
    | error e => exact ⟨table, (calculate_error hres).trans hre, hgr⟩
    | ok b =>
      obtain ⟨m', hc, -⟩ := calculate_ok hres
      nth_rewrite 1 [hre] at hc
      obtain ⟨table', m, hres', -, -, hm, -, hse⟩ := run_settles hgr hc
      refine ⟨table', hres', fun g hg e he r hr => ?_⟩
      change gridOf s.object.spec = some g at hg
      cases hm.symm.trans hg
      exact (hse e he).settled.aligned r hr

theorem onGrid_reachable {s : State} (h : Reachable Init (Restrict KeepsNetwork Step) s) :
    OnGrid s :=
  h.invariant (fun _ hs => ⟨[], hs.2, by simp⟩) fun _ _ _ _ hi hs => hi.step hs

theorem sortTargets_perm {targets' : List String} (h : targets'.Perm targets) :
    sortTargets targets' = sortTargets targets := by
  have hp : (sortTargets targets').Perm (sortTargets targets) :=
    (perm_insertionSort _ _).trans (h.trans (perm_insertionSort _ _).symm)
  exact hp.eq_of_pairwise' (pairwise_insertionSort _ _) (pairwise_insertionSort _ _)

/-- The calculator of the next run with the same clusters has nothing left that the run before it
would not have handed out. -/
theorem rerun_settled {table' : List (String × List IPRange)} (hkeys : table'.map Prod.fst = keys)
    (hm : newCalculator spec (keys.map (getAllocationsForDPUCluster (render table))) = .ok m)
    (hspec : LoopSpec (render table) m m' table')
    (hse : ∀ e ∈ table', SettledFrom (render table) m m' e)
    (hre : ∀ e ∈ table', parseIPRanges (toApiRanges e.2) = .ok e.2) :
    ∃ m₂, newCalculator spec (table'.map fun e => toApiRanges e.2) = .ok m₂ ∧ m₂.Sound ∧
      ∀ e ∈ table', Settled m₂ m₂ e.2 := by
  obtain ⟨p, grid, exclusions, existing, hp, hma, hg, hexcl, hexi, rfl⟩ :=
    newCalculator_cases.mp hm
  have hm₂ := newCalculator_cases.mpr ⟨p, grid, exclusions, table'.flatMap Prod.snd, hp, hma,
    hg, hexcl, parseAllRanges_map hre, rfl⟩
  obtain ⟨_, -, hbu⟩ := newCalculator_built hm₂
  refine ⟨_, hm₂, hbu.sound, fun e he => ?_⟩
  have hs := (hse e he).settled
  refine ⟨hs.separated, hs.aligned, hs.keeps, hs.served.imp_left fun hn => ?_⟩
  rw [eq_nil_iff_forall_not_mem]
  intro span hsp
  -- A block that is free now was free before, or it belonged to an allocation that is given up.
  have hf := (⟨span, hsp, le_rfl, span.le⟩ : Covers _ span.lo)
  have ho := hbu.ready.isOpen _ hf
  have ht : 0 < grid.totalBlocks := Nat.zero_lt_of_lt (hbu.sound.lt_of_covers hf)
  obtain ⟨hlt, hex, hu⟩ := (covers_calculatorOf ht).mp hf
  have hno : ∀ x ∈ table', ∀ a, Covered x.2 a → ¬ grid.InBlock span.lo a := by
    rintro x hx a ⟨r, hr, har⟩
    exact hu a ⟨r, mem_flatMap.mpr ⟨x, hx, hr⟩, har⟩
  have hb : ∀ a, Covered existing a → ¬ grid.InBlock span.lo a := by
    intro a ha hia
    obtain ⟨x, hx, old, hpr, hco⟩ := exists_of_covered_parseAllRanges hexi ha
    obtain ⟨k, hk, rfl⟩ := mem_map.mp hx
    rw [← hkeys] at hk
    obtain ⟨y, hy, rfl⟩ := mem_map.mp hk
    rcases (hse y hy).dropped old hpr _ a hco hia with hke | hc
    · exact hno y hy a hke hia
    · exact hc ho
  have hst := (hspec.available _).mpr
    ⟨(covers_calculatorOf ht).mpr ⟨hlt, hex, hb⟩, hno⟩
  rw [hn] at hst
  exact covers_nil _ hst

/-- After any sequence of runs over one network, the same run again over the same clusters, in any
order, reports no change and leaves the status as it is, exactly if no end of a recorded range is
an IPv4-mapped address. -/
theorem rerun_unchanged_iff {s : State} (h : Reachable Init (Restrict KeepsNetwork Step) s)
    {targets : List String} (hnd : targets.Nodup) {b : Bool}
    (hok : (calculateDPUServiceObjectStateBasedOnStatus s.object.spec s.allocations
      targets).result = .ok b) {targets' : List String} (hperm : targets'.Perm targets) :
    ((calculateDPUServiceObjectStateBasedOnStatus s.object.spec (s.afterRun targets).allocations
        targets').result = .ok false ∧
      (calculateDPUServiceObjectStateBasedOnStatus s.object.spec (s.afterRun targets).allocations
        targets').allocations = (s.afterRun targets).allocations) ↔
    ∀ x ∈ (s.afterRun targets).allocations, Readable x.ipRanges := by
  obtain ⟨table, hren, hgr⟩ := onGrid_reachable h
  obtain ⟨m', hc, -⟩ := calculate_ok hok
  nth_rewrite 1 [hren] at hc
  obtain ⟨table', m, hres, hk, hm, -, hsp, hs⟩ := run_settles hgr hc
  have hma := (computeAllocations_eq_ok.mp hc).1
  have ha : (s.afterRun targets).allocations = render table' := hres
  have hn : (table'.map Prod.fst).Nodup := by
    rw [hk]
    exact (perm_insertionSort _ _).nodup_iff.mpr hnd
  have hg : ∀ e ∈ table', getAllocationsForDPUCluster (render table') e.1 = toApiRanges e.2 := by
    intro e he
    rw [get_render, rangesOf_of_mem hn he]
  have hcu : (sortTargets targets').map (getAllocationsForDPUCluster (render table')) =
      table'.map fun e => toApiRanges e.2 := by
    rw [sortTargets_perm hperm, ← hk, map_map]
    exact map_congr_left hg
  have hr : (∀ x ∈ render table', Readable x.ipRanges) ↔
      ∀ e ∈ table', parseIPRanges (toApiRanges e.2) = .ok e.2 := by
    simp only [render, forall_mem_map, parse_toApiRanges_iff]
  rw [ha, hr]
  constructor
  · rintro ⟨hrer, -⟩ e he
    obtain ⟨m₃, hcompute', -⟩ := calculate_ok hrer
    obtain ⟨-, m₂, hm₂, -⟩ := computeAllocations_eq_ok.mp hcompute'
    rw [hcu] at hm₂
    obtain ⟨_, _, _, existing, -, -, -, -, hex, -⟩ := newCalculator_cases.mp hm₂
    obtain ⟨l, hl, -⟩ := covered_of_parseAllRanges hex (mem_map_of_mem he)
    rw [parseIPRanges_toApiRanges hl] at hl
    exact hl
  · intro hre
    obtain ⟨m₂, hm₂, hso, hrest⟩ := rerun_settled hk hm hsp hs hre
    have hrer : computeAllocations s.object.spec (render table') targets' =
        .ok (render table', m₂) := by
      refine computeAllocations_eq_ok.mpr ⟨?_, m₂, by rw [hcu, hm₂], ?_⟩
      · rw [hperm.length_eq]
        exact hma
      · rw [sortTargets_perm hperm, ← hk]
        exact allocateAll_settled hso fun e he => ⟨hrest e he, hre e he, hg e he⟩
    unfold calculateDPUServiceObjectStateBasedOnStatus
    rw [hrer]
    simp

/-- The shared subnet of the sample object: the block of the first run is kept. -/
theorem rerun_unchanged_first_block :
    (calculateDPUServiceObjectStateBasedOnStatus (sampleObject "10.0.0.0/24").spec
      (State.afterRun ⟨sampleObject "10.0.0.0/24", []⟩ ["ns/b", "ns/a"]).allocations
      ["ns/a", "ns/b"]).result = .ok false := by
  have hnd : ["ns/b", "ns/a"].Nodup := by decide
  have hp : ["ns/a", "ns/b"].Perm ["ns/b", "ns/a"] := List.Perm.swap _ _ _
  exact ((rerun_unchanged_iff (s := ⟨sampleObject "10.0.0.0/24", []⟩) (.start ⟨by decide, rfl⟩)
    hnd (b := true) rfl hp).mpr (by decide)).1

/-- A network of IPv6 subnets whose first cluster gets all blocks up to the end of
`::ffff:0:0/96`. -/
def mappedObject : DPUServiceIPAM where
  objectNamespace := "dpf-operator-system"
  spec :=
    { ipv4Network := none
      ipv4Subnet := none
      network := some
        { network := "::/64"
          gatewayIndex := none
          prefixSize := 96
          exclusions := []
          excludeRanges := []
          allocations := []
          defaultGateway := false
          routes := []
          subnetsPerDPUCluster := some 65536 }
      subnet := none
      exactlyOne := rfl }

/-- The first run records a range whose end the second run cannot read. -/
theorem mapped_end_fails_rerun :
    validateDPUServiceIPAM mappedObject none = [] ∧
      (calculateDPUServiceObjectStateBasedOnStatus mappedObject.spec [] ["ns/a"]).result =
        .ok true ∧
      (State.afterRun ⟨mappedObject, []⟩ ["ns/a"]).allocations =
        [⟨"ns/a", [⟨"::", "::ffff:255.255.255.255"⟩]⟩] ∧
      (calculateDPUServiceObjectStateBasedOnStatus mappedObject.spec
        (State.afterRun ⟨mappedObject, []⟩ ["ns/a"]).allocations ["ns/a"]).result ≠ .ok false := by
  refine ⟨by decide +kernel, by decide +kernel, by decide +kernel, by decide +kernel⟩

end DocaPlatform.IpamStatus
