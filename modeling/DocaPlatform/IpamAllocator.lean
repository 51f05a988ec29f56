import DocaPlatform.IpRange
import DocaPlatform.Runs

/-!
# Block allocation over several DPU clusters

`MultiDPUClusterExclusionCalculator`: the parent network is cut into a grid of blocks of the
per-node size, and clusters receive whole blocks of the grid. Blocks are kept as spans of block
indices, never one by one.
-/
namespace DocaPlatform.IpamAllocator

open Netip Spans IpRange Runs

/-- `dpuservicev1.IPRange`, a range as the API carries it. -/
structure ApiIPRange where
  startIP : String
  endIP : String
  deriving DecidableEq, Repr

def parseIPRange (r : ApiIPRange) : Except String IPRange :=
  match IpRange.parseAddr r.startIP with
  | .error e => .error ("invalid range start " ++ quote r.startIP ++ ": " ++ e)
  | .ok start =>
    match IpRange.parseAddr r.endIP with
    | .error e => .error ("invalid range end " ++ quote r.endIP ++ ": " ++ e)
    | .ok stop =>
      if h : start.family = stop.family ∧ start.val ≤ stop.val then
        .ok ⟨start.family, start.val, stop.val, h.2, h.1 ▸ stop.lt⟩
      else .error ("invalid range " ++ start.string ++ "-" ++ stop.string)

def parseIPRanges : List ApiIPRange → Except String (List IPRange)
  | [] => .ok []
  | r :: rs => do
    let p ← parseIPRange r
    let ps ← parseIPRanges rs
    .ok (p :: ps)

def parseAndMergeIPRanges (ranges : List ApiIPRange) : Except String (List IPRange) := do
  let parsed ← parseIPRanges ranges
  .ok (mergeRanges parsed)

/-- `toDPUServiceIPAMIPRanges`; `toNVIPAMExcludeRanges` renders the same texts. -/
def toApiRanges (ranges : List IPRange) : List ApiIPRange :=
  ranges.map fun r => ⟨r.start.string, r.stop.string⟩

/-- A row of equal blocks of addresses. The source passes the first address, the last address,
the block size and the number of blocks separately. -/
structure BlockGrid where
  start : Addr
  blockSize : ℕ
  totalBlocks : ℕ
  blockSize_pos : 0 < blockSize
  fits : start.val + totalBlocks * blockSize ≤ 2 ^ start.family.bitLen

namespace BlockGrid

variable (g : BlockGrid)

/-- The last address of the grid, `effectiveEnd`. -/
def last : ℕ :=
  g.start.val + (g.totalBlocks * g.blockSize - 1)

/-- The address lies in block `i`. -/
def InBlock (i : ℕ) (a : Addr) : Prop :=
  a.family = g.start.family ∧ g.start.val + i * g.blockSize ≤ a.val ∧
    a.val < g.start.val + (i + 1) * g.blockSize

instance (i : ℕ) (a : Addr) : Decidable (g.InBlock i a) :=
  inferInstanceAs (Decidable (_ ∧ _ ∧ _))

/-- The part of a range inside the grid, as distances from its first address. -/
def clamp (r : IPRange) : Option (ℕ × ℕ) :=
  if r.family ≠ g.start.family ∨ r.hi < g.start.val ∨ g.last < r.lo then none
  else some (max r.lo g.start.val - g.start.val, min r.hi g.last - g.start.val)

end BlockGrid

def ceilDiv (value divisor : ℕ) : ℕ :=
  if value = 0 then 0 else (value + (divisor - 1)) / divisor

/-- The span of indices from `first` to `last`, cut at the number of blocks. -/
def indexSpan (first last totalBlocks : ℕ) : List Span :=
  if h : first ≤ last ∧ first < totalBlocks then
    [⟨first, if totalBlocks ≤ last then totalBlocks - 1 else last, by split_ifs <;> omega⟩]
  else []

def mergeBlockIndexRanges (ranges : List Span) : List Span :=
  Spans.merge ranges

def subtractBlockIndexRanges (ranges subtract : List Span) : List Span :=
  subtractAll (mergeBlockIndexRanges subtract) (mergeBlockIndexRanges ranges)

def blockIndexRangeCount (ranges : List Span) : ℕ :=
  Spans.size ranges

def takeBlockIndices (ranges : List Span) (count : ℕ) : List Span × List Span :=
  Spans.take count ranges

/-- The indices of the blocks that one range fully covers. -/
def blocksCoveredBy (g : BlockGrid) (r : IPRange) : List Span :=
  match g.clamp r with
  | none => []
  | some (startDistance, endDistance) =>
    if endDistance + 1 < g.blockSize then []
    else indexSpan (ceilDiv startDistance g.blockSize)
      ((endDistance + 1 - g.blockSize) / g.blockSize) g.totalBlocks

def blockRangesFullyCoveredBy (ranges : List IPRange) (g : BlockGrid) : List Span :=
  mergeBlockIndexRanges (ranges.flatMap (blocksCoveredBy g))

/-- The indices of the blocks that share an address with one range. -/
def blocksMeeting (g : BlockGrid) (r : IPRange) : List Span :=
  match g.clamp r with
  | none => []
  | some (startDistance, endDistance) =>
    indexSpan (startDistance / g.blockSize) (endDistance / g.blockSize) g.totalBlocks

def blockRangesOverlapping (ranges : List IPRange) (g : BlockGrid) : List Span :=
  mergeBlockIndexRanges (ranges.flatMap (blocksMeeting g))

/-! ## The calculator -/

/-- `MultiDPUClusterExclusionCalculator`. The static allocations are a Go map; the list is the
order in which a `range` loop happens to visit it. -/
structure Calculator where
  availableBlockRanges : List Span
  excludedBlockRanges : List Span
  mergedExclusions : List IPRange
  targetBlocksPerDPUCluster : ℤ
  allocateAllRemainingBlocks : Bool
  parentRange : IPRange
  grid : BlockGrid
  staticAllocations : List (String × String)

def poolBoundaryOffsets (p : Prefix) (isCIDRPool : Bool) : ℕ × ℕ :=
  if isCIDRPool ∨ p.addr.family.bitLen - 1 ≤ p.bits then (0, 0)
  else match p.addr.family with
    | .v4 => (1, 1)
    | .v6 => (1, 0)

/-- `Prefix.String`. -/
def prefixString (p : Prefix) : String :=
  p.addr.string ++ "/" ++ toString p.bits

/-- The grid of a masked prefix: the part of `newMultiDPUClusterExclusionCalculator` between the
parse of the network and the parse of the exclusions. -/
def effectiveGrid (p : Prefix) (blockSizePerNode : ℤ) (isCIDRPool : Bool) :
    Except String BlockGrid :=
  let parentRange := rangeFromPrefix p
  let parentSize := prefixAddressCount p.addr.family.bitLen p.bits
  if hblock : blockSizePerNode ≤ 0 then .error "per-node block size must be positive"
  else
    let blockSize := blockSizePerNode.toNat
    let offsets := poolBoundaryOffsets p isCIDRPool
    let effectiveSize := parentSize - (offsets.1 + offsets.2)
    if effectiveSize = 0 then
      .error ("network " ++ prefixString p ++ " contains no allocatable addresses")
    else
      let totalBlocks := effectiveSize / blockSize
      if htotal : totalBlocks = 0 then
        .error ("network " ++ prefixString p ++ " cannot fit a per-node block of " ++
          toString blockSize ++ " addresses")
      else
        match add parentRange.start offsets.1 with
        | none =>
          .error ("failed to calculate first allocatable address in " ++ prefixString p)
        | some effectiveStart =>
          if hend : effectiveStart.val + (totalBlocks * blockSize - 1) <
              2 ^ effectiveStart.family.bitLen then
            .ok ⟨effectiveStart, blockSize, totalBlocks, by omega, by
              have : 0 < totalBlocks * blockSize :=
                Nat.mul_pos (Nat.pos_of_ne_zero htotal) (by omega)
              omega⟩
          else .error ("failed to calculate last allocatable address in " ++ prefixString p)

/-- The parse of the current allocations of all target clusters, in one list. -/
def parseAllRanges : List (List ApiIPRange) → Except String (List IPRange)
  | [] => .ok []
  | a :: as => do
    let parsed ← parseIPRanges a
    let rest ← parseAllRanges as
    .ok (parsed ++ rest)

def newMultiDPUClusterExclusionCalculator (network : String) (blockSizePerNode : ℤ)
    (targetBlocksPerDPUCluster : Option ℤ) (isCIDRPool : Bool) (excludeRanges : List ApiIPRange)
    (currentDPUClusterAllocations : List (List ApiIPRange))
    (staticAllocations : List (String × String)) : Except String Calculator := do
  let p ← (parsePrefix network).mapError
    fun e => "invalid network " ++ quote network ++ ": " ++ e
  if p.addr.is4In6 then
    .error ("IPv4-mapped IPv6 network " ++ quote network ++ " is not supported")
  else
    let grid ← effectiveGrid p.masked blockSizePerNode isCIDRPool
    let mergedExclusions ← parseAndMergeIPRanges excludeRanges
    let excludedBlockRanges := blockRangesFullyCoveredBy mergedExclusions grid
    let existingRanges ← parseAllRanges currentDPUClusterAllocations
    let preTaken := blockRangesOverlapping existingRanges grid
    let unavailable := mergeBlockIndexRanges (excludedBlockRanges ++ preTaken)
    let available := subtractBlockIndexRanges
      [⟨0, grid.totalBlocks - 1, Nat.zero_le _⟩] unavailable
    .ok {
      availableBlockRanges := available
      excludedBlockRanges := excludedBlockRanges
      mergedExclusions := mergedExclusions
      targetBlocksPerDPUCluster := targetBlocksPerDPUCluster.getD 0
      allocateAllRemainingBlocks := targetBlocksPerDPUCluster.isNone
      parentRange := rangeFromPrefix p.masked
      grid := grid
      staticAllocations := staticAllocations }

namespace Calculator

variable (m : Calculator)

def areClusterBlocksCompatible (clusterBlocks : List IPRange) : Prop :=
  ∀ block ∈ clusterBlocks, block.isIn m.parentRange

instance (clusterBlocks : List IPRange) : Decidable (m.areClusterBlocksCompatible clusterBlocks) :=
  inferInstanceAs (Decidable (∀ block ∈ clusterBlocks, block.isIn m.parentRange))

/-- The blocks of the per-node size that fit into an allocated range, counted from its start. -/
def ownGrid (allocated : IPRange) : BlockGrid where
  start := allocated.start
  blockSize := m.grid.blockSize
  totalBlocks := (allocated.hi - allocated.lo + 1) / m.grid.blockSize
  blockSize_pos := m.grid.blockSize_pos
  fits := by
    have hle := Nat.div_mul_le_self (allocated.hi - allocated.lo + 1) m.grid.blockSize
    have hlt := allocated.lt
    have := allocated.le
    change allocated.lo + _ ≤ 2 ^ allocated.family.bitLen
    omega

/-- What one merged range adds to the count of allocatable blocks. -/
def countInRange (allocated : IPRange) : ℤ :=
  if (allocated.hi - allocated.lo + 1) / m.grid.blockSize = 0 then 0
  else
    let own := m.ownGrid allocated
    own.totalBlocks - blockIndexRangeCount (blockRangesFullyCoveredBy m.mergedExclusions own)

def countAllocatableBlocks (ranges : List IPRange) : ℤ :=
  ((mergeRanges ranges).map m.countInRange).sum

/-- One range of `blockIndicesToIPRanges`. -/
def blockIndexToIPRange (r : Span) : Except String IPRange :=
  let es := m.grid.start
  if h : es.val + ((r.hi + 1) * m.grid.blockSize - 1) < 2 ^ es.family.bitLen then
    .ok ⟨es.family, es.val + r.lo * m.grid.blockSize, es.val + ((r.hi + 1) * m.grid.blockSize - 1),
      by
        have hmul : r.lo * m.grid.blockSize ≤ r.hi * m.grid.blockSize :=
          Nat.mul_le_mul_right _ r.le
        have := m.grid.blockSize_pos
        rw [add_mul, one_mul]
        omega, h⟩
  else .error ("block index range " ++ toString r.lo ++ "-" ++ toString r.hi ++
    " overflows the allocatable address range")

def blockIndicesToIPRanges : List Span → Except String (List IPRange)
  | [] => .ok []
  | r :: rs => do
    let x ← m.blockIndexToIPRange r
    let xs ← blockIndicesToIPRanges rs
    .ok (x :: xs)

/-- `consumeBlocks`, with the calculator it leaves behind. -/
def consumeBlocks (count : ℤ) : Except String (List IPRange) × Calculator :=
  if count < 1 then (.error "target blocks per DPUCluster must be at least 1", m)
  else
    let taken := takeBlockIndices m.availableBlockRanges count.toNat
    if blockIndexRangeCount taken.1 = 0 then (.error "no allocatable blocks remaining", m)
    else
      (m.blockIndicesToIPRanges taken.1, { m with availableBlockRanges := taken.2 })

/-- `consumeAllBlocks`, with the calculator it leaves behind. -/
def consumeAllBlocks : Except String (List IPRange) × Calculator :=
  if m.availableBlockRanges = [] then (.error "no allocatable blocks remaining", m)
  else
    (m.blockIndicesToIPRanges m.availableBlockRanges, { m with availableBlockRanges := [] })

/-- An existing allocation with more blocks where there are any. -/
def extendAllocation (existing : List IPRange) :
    Except String (List IPRange) × Calculator → Except String (List IPRange) × Calculator
  | (.error _, m') => (.ok existing, m')
  | (.ok additional, m') => (.ok (existing ++ additional), m')

/-- The tests of `computeBlocksForCluster` under which an existing allocation is kept: it is not
empty, it lies in the parent range and it has an allocatable block. -/
def Keeps (existing : List IPRange) : Prop :=
  existing ≠ [] ∧ m.areClusterBlocksCompatible existing ∧ 0 < m.countAllocatableBlocks existing

instance (existing : List IPRange) : Decidable (m.Keeps existing) :=
  inferInstanceAs (Decidable (_ ∧ _ ∧ _))

/-- `computeBlocksForCluster`, with the calculator it leaves behind. -/
def computeBlocksForCluster (existing : List IPRange) :
    Except String (List IPRange) × Calculator :=
  if m.Keeps existing then
    let count := m.countAllocatableBlocks existing
    if m.allocateAllRemainingBlocks then extendAllocation existing m.consumeAllBlocks
    else if m.targetBlocksPerDPUCluster ≤ count then (.ok existing, m)
    else extendAllocation existing (m.consumeBlocks (m.targetBlocksPerDPUCluster - count))
  else if m.allocateAllRemainingBlocks then m.consumeAllBlocks
  else m.consumeBlocks m.targetBlocksPerDPUCluster

/-- `AllocateClusterBlocks`, with the calculator it leaves behind. -/
def allocateClusterBlocks (existingClusterBlocks : List ApiIPRange) :
    Except String (List ApiIPRange × Calculator) := do
  let parsed ← parseIPRanges existingClusterBlocks
  let (blocks, m') := m.computeBlocksForCluster parsed
  let blocks ← blocks
  .ok (toApiRanges (mergeRanges blocks), m')

/-- `subtractStaticAllocations`: a text that is no prefix is skipped. -/
def subtractStaticAllocations (exclusions : List IPRange) :
    List (String × String) → Except String (List IPRange)
  | [] => .ok exclusions
  | (_, prefixString) :: rest =>
    match parsePrefix prefixString with
    | .error _ => subtractStaticAllocations exclusions rest
    | .ok p =>
      if p.addr.is4In6 then
        .error ("IPv4-mapped IPv6 static allocation " ++ quote prefixString ++ " is not supported")
      else subtractStaticAllocations (subtractRange exclusions (rangeFromPrefix p)) rest

def computeExclusions (clusterBlocks : List ApiIPRange) : Except String (List ApiIPRange) := do
  let allocs ← (parseIPRanges clusterBlocks).mapError
    fun e => "failed to parse DPUCluster allocation: " ++ e
  let partitionExclusions := excludeRanges m.parentRange (mergeRanges allocs)
  let partitionExclusions ← subtractStaticAllocations partitionExclusions m.staticAllocations
  .ok (toApiRanges (mergeRanges (partitionExclusions ++ m.mergedExclusions)))

end Calculator

/-! ## Reading ranges back -/

variable {a : Addr} {l : List IPRange}

theorem parseAddr_eq_ok {s : String} :
    IpRange.parseAddr s = .ok a ↔ Netip.parseAddr s = .ok a ∧ a.is4In6 = false := by
  unfold IpRange.parseAddr
  cases h : Netip.parseAddr s with
  | error e => simp
  | ok b =>
    cases hb : b.is4In6 with
    | true =>
      simp only [hb, if_true, reduceCtorEq, Except.ok.injEq, false_iff, not_and]
      rintro rfl
      simp [hb]
    | false =>
      simp only [hb, Bool.false_eq_true, if_false, Except.ok.injEq]
      constructor
      · rintro rfl
        exact ⟨rfl, hb⟩
      · exact And.left

theorem parseIPRange_eq_ok {r : ApiIPRange} {p : IPRange} :
    parseIPRange r = .ok p ↔
      IpRange.parseAddr r.startIP = .ok p.start ∧ IpRange.parseAddr r.endIP = .ok p.stop := by
  unfold parseIPRange
  cases hs : IpRange.parseAddr r.startIP with
  | error e => simp
  | ok start =>
    cases he : IpRange.parseAddr r.endIP with
    | error e => simp
    | ok stop =>
      dsimp only
      split_ifs with h
      · simp only [Except.ok.injEq]
        constructor
        · rintro rfl
          refine ⟨rfl, ?_⟩
          ext
          · exact h.1.symm
          · rfl
        · rintro ⟨rfl, rfl⟩
          rfl
      · simp only [Except.ok.injEq, false_iff]
        rintro ⟨rfl, rfl⟩
        exact h ⟨rfl, p.le⟩

theorem parseIPRanges_cons {r : ApiIPRange} {rs : List ApiIPRange} :
    parseIPRanges (r :: rs) = .ok l ↔
      ∃ p ps, parseIPRange r = .ok p ∧ parseIPRanges rs = .ok ps ∧ l = p :: ps := by
  rw [parseIPRanges]
  simp only [bind_eq_ok, Except.ok.injEq]
  constructor
  · rintro ⟨p, hp, ps, hps, rfl⟩
    exact ⟨p, ps, hp, hps, rfl⟩
  · rintro ⟨p, ps, hp, hps, rfl⟩
    exact ⟨p, hp, ps, hps, rfl⟩

/-- Where rendered ranges are read back at all, they are read back as they were. -/
theorem parseIPRanges_toApiRanges {l' : List IPRange} (h : parseIPRanges (toApiRanges l) = .ok l') :
    l' = l := by
  induction l generalizing l' with
  | nil =>
    cases h
    rfl
  | cons r rs ih =>
    obtain ⟨p, ps, hp, hps, rfl⟩ := parseIPRanges_cons.mp h
    obtain ⟨hst, hs⟩ := parseIPRange_eq_ok.mp hp
    have h1 := (parseAddr_eq_ok.mp hst).1
    have h2 := (parseAddr_eq_ok.mp hs).1
    simp only [parseAddr_string, Except.ok.injEq] at h1 h2
    have hpr : p = r := by
      ext
      · exact (congrArg Addr.family h1).symm
      · exact (congrArg Addr.val h1).symm
      · exact (congrArg Addr.val h2).symm
    rw [hpr, ih hps]

theorem parseAllRanges_cons {r : List ApiIPRange} {rs : List (List ApiIPRange)} :
    parseAllRanges (r :: rs) = .ok l ↔
      ∃ p ps, parseIPRanges r = .ok p ∧ parseAllRanges rs = .ok ps ∧ l = p ++ ps := by
  rw [parseAllRanges]
  simp only [bind_eq_ok, Except.ok.injEq]
  constructor
  · rintro ⟨p, hp, ps, hps, rfl⟩
    exact ⟨p, ps, hp, hps, rfl⟩
  · rintro ⟨p, ps, hp, hps, rfl⟩
    exact ⟨p, hp, ps, hps, rfl⟩

theorem covered_of_parseAllRanges {all : List (List ApiIPRange)} (h : parseAllRanges all = .ok l)
    {x : List ApiIPRange} (hx : x ∈ all) :
    ∃ p, parseIPRanges x = .ok p ∧ ∀ a, Covered p a → Covered l a := by
  induction all generalizing l with
  | nil => simp at hx
  | cons y ys ih =>
    obtain ⟨p, ps, hp, hps, rfl⟩ := parseAllRanges_cons.mp h
    rcases List.mem_cons.mp hx with rfl | hx
    · exact ⟨p, hp, fun a ha => covered_append.mpr (.inl ha)⟩
    · obtain ⟨q, hq, hc⟩ := ih hps hx
      exact ⟨q, hq, fun a ha => covered_append.mpr (.inr (hc a ha))⟩

theorem exists_of_covered_parseAllRanges {all : List (List ApiIPRange)}
    (h : parseAllRanges all = .ok l) (ha : Covered l a) :
    ∃ x ∈ all, ∃ p, parseIPRanges x = .ok p ∧ Covered p a := by
  induction all generalizing l with
  | nil =>
    cases h
    simp [Covered] at ha
  | cons y ys ih =>
    obtain ⟨p, ps, hp, hps, rfl⟩ := parseAllRanges_cons.mp h
    rcases covered_append.mp ha with ha | ha
    · exact ⟨y, by simp, p, hp, ha⟩
    · obtain ⟨x, hx, q, hq, haq⟩ := ih hps ha
      exact ⟨x, by simp [hx], q, hq, haq⟩

/-! ## Blocks and ranges -/

variable {r : IPRange} {s : Span}

section Grid

variable (g : BlockGrid)

variable {i : ℕ} {ranges : List IPRange}

theorem BlockGrid.mul_le (hi : i < g.totalBlocks) :
    i * g.blockSize + g.blockSize ≤ g.totalBlocks * g.blockSize := by
  rw [← Nat.succ_mul]
  exact Nat.mul_le_mul_right _ hi

theorem BlockGrid.exists_ends (hi : i < g.totalBlocks) :
    ∃ a b : Addr, g.InBlock i a ∧ g.InBlock i b ∧ a.val = g.start.val + i * g.blockSize ∧
      b.val = g.start.val + i * g.blockSize + (g.blockSize - 1) := by
  have hle := g.mul_le hi
  have hf := g.fits
  have hp := g.blockSize_pos
  refine ⟨⟨g.start.family, g.start.val + i * g.blockSize, by omega⟩,
    ⟨g.start.family, g.start.val + i * g.blockSize + (g.blockSize - 1), by omega⟩,
    ⟨rfl, le_rfl, ?_⟩, ⟨rfl, by dsimp only; omega, ?_⟩, rfl, rfl⟩
  all_goals
    dsimp only
    rw [add_mul, one_mul]
    omega

theorem BlockGrid.block_subset_iff (hi : i < g.totalBlocks) (r : IPRange) :
    (∀ a, g.InBlock i a → a ∈ r) ↔
      g.start.family = r.family ∧ r.lo ≤ g.start.val + i * g.blockSize ∧
        g.start.val + i * g.blockSize + g.blockSize ≤ r.hi + 1 := by
  have hp := g.blockSize_pos
  constructor
  · intro h
    obtain ⟨a, b, ha, hb, hav, hbv⟩ := g.exists_ends hi
    have h1 := h a ha
    have h2 := h b hb
    rw [IPRange.mem_def] at h1 h2
    refine ⟨ha.1.symm.trans h1.1, ?_, ?_⟩ <;> omega
  · rintro ⟨hf, hlo, hhi⟩ a ⟨haf, hal, hah⟩
    rw [add_mul, one_mul] at hah
    exact ⟨haf.trans hf, by omega, by omega⟩

theorem BlockGrid.block_meets_iff (hi : i < g.totalBlocks) (r : IPRange) :
    (∃ a ∈ r, g.InBlock i a) ↔
      g.start.family = r.family ∧ r.lo < g.start.val + i * g.blockSize + g.blockSize ∧
        g.start.val + i * g.blockSize ≤ r.hi := by
  have hp := g.blockSize_pos
  have hle := g.mul_le hi
  have hfi := g.fits
  have hr := r.le
  constructor
  · rintro ⟨a, ⟨har, hlo, hhi⟩, haf, hal, ha⟩
    rw [add_mul, one_mul] at ha
    exact ⟨haf.symm.trans har, by omega, by omega⟩
  · rintro ⟨hf, hlo, hhi⟩
    refine ⟨⟨g.start.family, max r.lo (g.start.val + i * g.blockSize), by omega⟩,
      ⟨hf, le_max_left _ _, by dsimp only; omega⟩, rfl, le_max_right _ _, ?_⟩
    rw [add_mul, one_mul]
    dsimp only
    omega

theorem BlockGrid.inBlock_unique {j : ℕ} (hi : g.InBlock i a) (hj : g.InBlock j a) : i = j := by
  obtain ⟨-, hil, hih⟩ := hi
  obtain ⟨-, hjl, hjh⟩ := hj
  have hij : i * g.blockSize < (j + 1) * g.blockSize := by omega
  have hji : j * g.blockSize < (i + 1) * g.blockSize := by omega
  have h1 := Nat.lt_of_mul_lt_mul_right hij
  have h2 := Nat.lt_of_mul_lt_mul_right hji
  omega

theorem ceilDiv_le_iff {v d : ℕ} (hd : 0 < d) : ceilDiv v d ≤ i ↔ v ≤ i * d := by
  unfold ceilDiv
  split_ifs with h
  · simp [h]
  · rw [← Nat.lt_succ_iff, Nat.div_lt_iff_lt_mul hd, Nat.succ_mul]
    omega

theorem covers_indexSpan {first last total : ℕ} :
    Covers (indexSpan first last total) i ↔ first ≤ i ∧ i ≤ last ∧ i < total := by
  unfold indexSpan
  split_ifs with h ht <;> simp only [covers_cons, covers_nil, or_false, mem_span, false_iff] <;>
    omega

theorem covers_blocksCoveredBy :
    Covers (blocksCoveredBy g r) i ↔ i < g.totalBlocks ∧ ∀ a, g.InBlock i a → a ∈ r := by
  by_cases hi : i < g.totalBlocks
  · have hp := g.blockSize_pos
    have hle := g.mul_le hi
    have hr := r.le
    simp only [hi, true_and, g.block_subset_iff hi]
    unfold blocksCoveredBy BlockGrid.clamp
    split
    · rename_i hc
      simp only [ite_eq_left_iff, reduceCtorEq, imp_false, not_not] at hc
      simp only [covers_nil, false_iff]
      unfold BlockGrid.last at hc
      rintro ⟨hf, hlo, hhi⟩
      rcases hc with h | h
      · exact h hf.symm
      · omega
    · rename_i sd ed hc
      split_ifs at hc with ho
      cases hc
      push Not at ho
      obtain ⟨hf, hhi, hlo⟩ := ho
      unfold BlockGrid.last at hlo ⊢
      split_ifs with hs
      · simp only [covers_nil, false_iff, hf, true_and]
        omega
      · rw [covers_indexSpan, ceilDiv_le_iff hp, Nat.le_div_iff_mul_le hp]
        simp only [hf, true_and, hi, and_true]
        omega
  · simp only [hi, false_and, iff_false]
    unfold blocksCoveredBy
    split
    · exact covers_nil i
    · split_ifs
      · exact covers_nil i
      · rw [covers_indexSpan]
        exact fun h => hi h.2.2

theorem covers_blocksMeeting :
    Covers (blocksMeeting g r) i ↔ i < g.totalBlocks ∧ ∃ a ∈ r, g.InBlock i a := by
  by_cases hi : i < g.totalBlocks
  · have hp := g.blockSize_pos
    have hle := g.mul_le hi
    have hr := r.le
    simp only [hi, true_and, g.block_meets_iff hi]
    unfold blocksMeeting BlockGrid.clamp
    split
    · rename_i hc
      simp only [ite_eq_left_iff, reduceCtorEq, imp_false, not_not] at hc
      simp only [covers_nil, false_iff]
      unfold BlockGrid.last at hc
      rintro ⟨hf, hlo, hhi⟩
      rcases hc with h | h
      · exact h hf.symm
      · omega
    · rename_i sd ed hc
      split_ifs at hc with ho
      cases hc
      push Not at ho
      obtain ⟨hf, hhi, hlo⟩ := ho
      unfold BlockGrid.last at hlo ⊢
      rw [covers_indexSpan, ← Nat.lt_succ_iff, Nat.div_lt_iff_lt_mul hp,
        Nat.le_div_iff_mul_le hp, Nat.succ_mul]
      simp only [hf, true_and, hi, and_true]
      omega
  · simp only [hi, false_and, iff_false]
    unfold blocksMeeting
    split
    · exact covers_nil i
    · rw [covers_indexSpan]
      exact fun h => hi h.2.2

theorem covers_blockRangesFullyCoveredBy :
    Covers (blockRangesFullyCoveredBy ranges g) i ↔
      i < g.totalBlocks ∧ ∃ r ∈ ranges, ∀ a, g.InBlock i a → a ∈ r := by
  rw [blockRangesFullyCoveredBy, mergeBlockIndexRanges, covers_merge, covers_flatMap]
  simp only [covers_blocksCoveredBy]
  constructor
  · rintro ⟨r, hr, hi, h⟩
    exact ⟨hi, r, hr, h⟩
  · rintro ⟨hi, r, hr, h⟩
    exact ⟨r, hr, hi, h⟩

theorem separated_blockRangesFullyCoveredBy (ranges : List IPRange) :
    Separated (blockRangesFullyCoveredBy ranges g) :=
  separated_merge _

theorem hi_lt_of_mem_blockRangesFullyCoveredBy (hs : s ∈ blockRangesFullyCoveredBy ranges g) :
    s.hi < g.totalBlocks :=
  ((covers_blockRangesFullyCoveredBy g).mp ⟨s, hs, s.le, le_rfl⟩).1

theorem covers_blockRangesOverlapping :
    Covers (blockRangesOverlapping ranges g) i ↔
      i < g.totalBlocks ∧ ∃ a, Covered ranges a ∧ g.InBlock i a := by
  rw [blockRangesOverlapping, mergeBlockIndexRanges, covers_merge, covers_flatMap]
  simp only [covers_blocksMeeting]
  constructor
  · rintro ⟨r, hr, hi, a, ha, hb⟩
    exact ⟨hi, a, ⟨r, hr, ha⟩, hb⟩
  · rintro ⟨hi, a, ⟨r, hr, ha⟩, hb⟩
    exact ⟨r, hr, hi, a, ha, hb⟩

/-- The range holds the blocks of a span of indices. -/
def BlockGrid.IsSpan (s : Span) (r : IPRange) : Prop :=
  r.family = g.start.family ∧ r.lo = g.start.val + s.lo * g.blockSize ∧
    r.hi + 1 = g.start.val + (s.hi + 1) * g.blockSize

variable {g} in
theorem BlockGrid.IsSpan.mem_iff (h : g.IsSpan s r) : a ∈ r ↔ ∃ i, i ∈ s ∧ g.InBlock i a := by
  obtain ⟨hf, hlo, hhi⟩ := h
  have hp := g.blockSize_pos
  rw [IPRange.mem_def]
  constructor
  · rintro ⟨haf, hal, ha⟩
    -- The block of `a` is found by dividing its distance from the first address.
    have hm := Nat.div_add_mod' (a.val - g.start.val) g.blockSize
    have hmo := Nat.mod_lt (a.val - g.start.val) hp
    refine ⟨(a.val - g.start.val) / g.blockSize, ⟨?_, ?_⟩, haf.trans hf, ?_, ?_⟩
    · rw [Nat.le_div_iff_mul_le hp]
      omega
    · rw [← Nat.lt_succ_iff, Nat.div_lt_iff_lt_mul hp, Nat.succ_eq_add_one]
      have : 0 < (s.hi + 1) * g.blockSize := Nat.mul_pos (by omega) hp
      omega
    · omega
    · rw [add_mul, one_mul]
      omega
  · rintro ⟨i, ⟨hil, hih⟩, haf, hal, ha⟩
    have h1 : s.lo * g.blockSize ≤ i * g.blockSize := Nat.mul_le_mul_right _ hil
    have h2 : (i + 1) * g.blockSize ≤ (s.hi + 1) * g.blockSize :=
      Nat.mul_le_mul_right _ (by omega)
    exact ⟨haf.trans hf.symm, by omega, by omega⟩

variable {g} in
theorem covered_of_isSpan {l : List Span} (h : List.Forall₂ g.IsSpan l ranges) :
    Covered ranges a ↔ ∃ i, Covers l i ∧ g.InBlock i a := by
  induction h with
  | nil => simp [Covered]
  | @cons s r l ranges hs _ ih =>
    have hc : Covered (r :: ranges) a ↔ a ∈ r ∨ Covered ranges a := by simp [Covered]
    rw [hc, hs.mem_iff, ih]
    simp only [covers_cons, or_and_right, exists_or]

/-- For merged ranges, a block whose addresses are all covered lies in one of the ranges. -/
theorem block_subset_iff_covered (hse : Separated (spans ranges)) (hi : i < g.totalBlocks) :
    (∃ r ∈ ranges, ∀ a, g.InBlock i a → a ∈ r) ↔ ∀ a, g.InBlock i a → Covered ranges a := by
  constructor
  · rintro ⟨r, hr, h⟩ a ha
    exact ⟨r, hr, h a ha⟩
  intro h
  obtain ⟨a, b, ha, hb, hav, hbv⟩ := g.exists_ends hi
  have hp := g.blockSize_pos
  have hbl := b.lt
  have hf : b.family = a.family := hb.1.trans ha.1.symm
  -- Every number between the places of the ends is the place of an address of the block.
  have hall : ∀ x, key a ≤ x → x ≤ key b → Covers (spans ranges) x := by
    intro x hax hxb
    rw [key_eq] at hax hxb
    rw [hf] at hxb hbl
    have hx := h ⟨a.family, x - base a.family, by omega⟩ ⟨ha.1, by dsimp only; omega, by
      rw [add_mul, one_mul]
      dsimp only
      omega⟩
    rw [covered_iff, key_eq] at hx
    simpa [Nat.add_sub_cancel' (show base a.family ≤ x by omega)] using hx
  have hle : key a ≤ key b := by
    rw [key_eq, key_eq, hf]
    omega
  obtain ⟨s, hs, has, hbs⟩ := exists_span_of_covers hse hle hall
  obtain ⟨r, hr, rfl⟩ := List.mem_map.mp hs
  rw [mem_span_iff, IPRange.mem_def] at has hbs
  refine ⟨r, hr, (g.block_subset_iff hi r).mpr ⟨ha.1.symm.trans has.1, ?_, ?_⟩⟩ <;> omega

/-- The blocks of the grid that the two functions return. For merged ranges, a block in two ranges
together lies in one of them. -/
theorem blocks_overlapping_and_covered (ranges : List IPRange) (i : ℕ) :
    (Covers (blockRangesOverlapping ranges g) i ↔
      i < g.totalBlocks ∧ ∃ r ∈ ranges, ∃ a ∈ r, g.InBlock i a) ∧
    (Covers (blockRangesFullyCoveredBy (mergeRanges ranges) g) i ↔
      i < g.totalBlocks ∧ ∀ a, g.InBlock i a → Covered (mergeRanges ranges) a) := by
  rw [covers_blockRangesOverlapping, covers_blockRangesFullyCoveredBy]
  constructor
  · refine and_congr_right fun _ => ⟨?_, ?_⟩
    · rintro ⟨a, ⟨r, hr, ha⟩, hb⟩
      exact ⟨r, hr, a, ha, hb⟩
    · rintro ⟨r, hr, a, ha, hb⟩
      exact ⟨a, ⟨r, hr, ha⟩, hb⟩
  · exact and_congr_right fun hi => block_subset_iff_covered g (separated_mergeRanges ranges) hi

end Grid

/-! ## What one allocation takes -/

variable {i : ℕ} {existing : List IPRange}

namespace Calculator

/-- The grid lies in the parent range and the available spans lie in the grid. -/
structure Sound (m : Calculator) : Prop where
  family : m.grid.start.family = m.parentRange.family
  first : m.parentRange.lo ≤ m.grid.start.val
  last : m.grid.start.val + m.grid.totalBlocks * m.grid.blockSize ≤ m.parentRange.hi + 1
  separated : Separated m.availableBlockRanges
  inGrid : ∀ s ∈ m.availableBlockRanges, s.hi < m.grid.totalBlocks

/-- `m'` is `m` without the blocks of `new`. -/
structure Takes (m m' : Calculator) (new : List IPRange) : Prop where
  frame : m' = { m with availableBlockRanges := m'.availableBlockRanges }
  sound : m'.Sound
  available : ∀ i, Covers m'.availableBlockRanges i → Covers m.availableBlockRanges i
  blocks : ∀ a, Covered new a ↔ ∃ i, Covers m.availableBlockRanges i ∧
    ¬ Covers m'.availableBlockRanges i ∧ m.grid.InBlock i a

variable {m m' : Calculator}

variable {new blocks : List IPRange}

theorem Takes.grid_eq (h : Takes m m' new) : m'.grid = m.grid := by
  rw [h.frame]

theorem Takes.parent_eq (h : Takes m m' new) : m'.parentRange = m.parentRange := by
  rw [h.frame]

theorem Sound.lt_of_covers (hm : m.Sound) (hi : Covers m.availableBlockRanges i) :
    i < m.grid.totalBlocks := by
  obtain ⟨s, hs, hlo, hhi⟩ := hi
  exact hhi.trans_lt (hm.inGrid s hs)

theorem Takes.keeps_iff (h : Takes m m' new) (existing : List IPRange) :
    m'.Keeps existing ↔ m.Keeps existing := by
  rw [h.frame]
  rfl

theorem Sound.mem_parent (hm : m.Sound) (hi : i < m.grid.totalBlocks) (ha : m.grid.InBlock i a) :
    a ∈ m.parentRange := by
  obtain ⟨hf, hlo, hhi⟩ := ha
  have hle := m.grid.mul_le hi
  have hl := hm.last
  have hfi := hm.first
  rw [add_mul, one_mul] at hhi
  exact ⟨hf.trans hm.family, by omega, by omega⟩

theorem Takes.refl (hm : m.Sound) : Takes m m [] := by
  refine ⟨rfl, hm, fun i hi => hi, fun a => ?_⟩
  constructor
  · rintro ⟨r, hr, -⟩
    simp at hr
  · rintro ⟨i, hi, hni, -⟩
    exact absurd hi hni

theorem blockIndexToIPRange_spec (hs : s.hi < m.grid.totalBlocks) :
    ∃ r, m.blockIndexToIPRange s = .ok r ∧ m.grid.IsSpan s r := by
  have hp := m.grid.blockSize_pos
  have hle := m.grid.mul_le hs
  have hf := m.grid.fits
  have hb : (s.hi + 1) * m.grid.blockSize = s.hi * m.grid.blockSize + m.grid.blockSize := by
    rw [add_mul, one_mul]
  have he : m.grid.start.val + ((s.hi + 1) * m.grid.blockSize - 1) <
      2 ^ m.grid.start.family.bitLen := by
    omega
  unfold blockIndexToIPRange
  simp only [dif_pos he]
  exact ⟨_, rfl, rfl, rfl, by dsimp only; omega⟩

theorem blockIndicesToIPRanges_spec {l : List Span} (hl : ∀ s ∈ l, s.hi < m.grid.totalBlocks) :
    ∃ xs, m.blockIndicesToIPRanges l = .ok xs ∧ List.Forall₂ m.grid.IsSpan l xs := by
  induction l with
  | nil => exact ⟨[], rfl, .nil⟩
  | cons s l ih =>
    obtain ⟨x, hx, hsp⟩ := blockIndexToIPRange_spec (hl s (by simp))
    obtain ⟨xs, hxs, hs⟩ := ih fun t ht => hl t (by simp [ht])
    exact ⟨x :: xs, by rw [blockIndicesToIPRanges, hx, hxs]; rfl, .cons hsp hs⟩

/-- Replacing the available spans by a part of them takes the blocks of the rest. -/
theorem takes_of_split (hm : m.Sound) {sel rest : List Span}
    (hc : ∀ i, Covers m.availableBlockRanges i ↔ Covers sel i ∨ Covers rest i)
    (hd : ∀ i, Covers sel i → ¬ Covers rest i) (hse : Separated rest)
    (hn : ∀ a, Covered new a ↔ ∃ i, Covers sel i ∧ m.grid.InBlock i a) :
    Takes m { m with availableBlockRanges := rest } new := by
  refine ⟨rfl, ⟨hm.family, hm.first, hm.last, hse, ?_⟩, fun i hi => (hc i).mpr (.inr hi), ?_⟩
  · intro s hs
    exact hm.lt_of_covers ((hc s.hi).mpr (.inr ⟨s, hs, s.le, le_rfl⟩))
  · intro a
    rw [hn]
    constructor
    · rintro ⟨i, hi, ha⟩
      exact ⟨i, (hc i).mpr (.inl hi), hd i hi, ha⟩
    · rintro ⟨i, hi, hni, ha⟩
      exact ⟨i, ((hc i).mp hi).resolve_right hni, ha⟩

/-- A consume either fails and leaves the calculator alone, or takes the blocks it returns. -/
def Consumes (m : Calculator) (x : Except String (List IPRange) × Calculator) : Prop :=
  (∃ e, x = (.error e, m)) ∨ ∃ new m', x = (.ok new, m') ∧ Takes m m' new

theorem consumeBlocks_consumes (hm : m.Sound) (count : ℤ) : m.Consumes (m.consumeBlocks count) := by
  unfold consumeBlocks
  dsimp only
  split_ifs with hc he
  · exact .inl ⟨_, rfl⟩
  · exact .inl ⟨_, rfl⟩
  right
  have hse : ∀ s ∈ (takeBlockIndices m.availableBlockRanges count.toNat).1,
      s.hi < m.grid.totalBlocks := fun s hs =>
    hm.lt_of_covers (covers_take.mpr (.inl ⟨s, hs, s.le, le_rfl⟩))
  obtain ⟨new, hn, hsp⟩ := blockIndicesToIPRanges_spec hse
  refine ⟨new, _, by rw [hn]; rfl, takes_of_split hm (fun i => covers_take) ?_
    (hm.separated.take_snd _) fun a => covered_of_isSpan hsp⟩
  rintro i ⟨s, hs, hsi⟩ ⟨t, ht, hti⟩
  have hlt := take_ordered hm.separated hs ht
  rw [mem_span] at hsi hti
  omega

theorem consumeAllBlocks_consumes (hm : m.Sound) : m.Consumes m.consumeAllBlocks := by
  unfold consumeAllBlocks
  split_ifs with he
  · exact .inl ⟨_, rfl⟩
  right
  obtain ⟨new, hn, hs⟩ := blockIndicesToIPRanges_spec hm.inGrid
  exact ⟨new, _, by rw [hn], takes_of_split hm (fun i => by simp) (fun i _ => covers_nil i)
    List.Pairwise.nil fun a => covered_of_isSpan hs⟩

theorem Consumes.takes {x : Except String (List IPRange) × Calculator} (hx : m.Consumes x)
    (h : x = (.ok blocks, m')) : Takes m m' blocks := by
  rcases hx with ⟨e, rfl⟩ | ⟨new, m'', rfl, ht⟩
  · cases h
  · cases h
    exact ht

theorem Consumes.extend (hm : m.Sound) {x : Except String (List IPRange) × Calculator}
    (hx : m.Consumes x) (h : extendAllocation existing x = (.ok blocks, m')) :
    ∃ new, Takes m m' new ∧ blocks = existing ++ new := by
  rcases hx with ⟨e, rfl⟩ | ⟨new, m'', rfl, ht⟩
  · cases h
    exact ⟨[], Takes.refl hm, by simp⟩
  · cases h
    exact ⟨new, ht, rfl⟩

/-- What `computeBlocksForCluster` returns: the existing allocation where it is kept, and the
blocks it took. -/
theorem computeBlocksForCluster_spec (hm : m.Sound)
    (h : m.computeBlocksForCluster existing = (.ok blocks, m')) :
    ∃ new, Takes m m' new ∧
      (m.Keeps existing ∧ blocks = existing ++ new ∨ ¬ m.Keeps existing ∧ blocks = new) := by
  unfold computeBlocksForCluster at h
  by_cases hk : m.Keeps existing
  · rw [if_pos hk] at h
    dsimp only at h
    split_ifs at h
    · obtain ⟨new, ht, hb⟩ := (consumeAllBlocks_consumes hm).extend hm h
      exact ⟨new, ht, .inl ⟨hk, hb⟩⟩
    · cases h
      exact ⟨[], Takes.refl hm, .inl ⟨hk, by simp⟩⟩
    · obtain ⟨new, ht, hb⟩ := (consumeBlocks_consumes hm _).extend hm h
      exact ⟨new, ht, .inl ⟨hk, hb⟩⟩
  · rw [if_neg hk] at h
    split_ifs at h
    · exact ⟨blocks, (consumeAllBlocks_consumes hm).takes h, .inr ⟨hk, rfl⟩⟩
    · exact ⟨blocks, (consumeBlocks_consumes hm _).takes h, .inr ⟨hk, rfl⟩⟩

theorem allocateClusterBlocks_spec (hm : m.Sound) {existing recorded : List ApiIPRange}
    (h : m.allocateClusterBlocks existing = .ok (recorded, m')) :
    ∃ old blocks new, parseIPRanges existing = .ok old ∧ recorded = toApiRanges (mergeRanges blocks) ∧
      Takes m m' new ∧ (m.Keeps old ∧ blocks = old ++ new ∨ ¬ m.Keeps old ∧ blocks = new) := by
  unfold allocateClusterBlocks at h
  simp only [bind_eq_ok, Except.ok.injEq, Prod.mk.injEq] at h
  obtain ⟨old, hold, blocks, hb, hr, hm'⟩ := h
  have hco : m.computeBlocksForCluster old = (.ok blocks, m') := Prod.ext hb hm'
  obtain ⟨new, ht, hc⟩ := computeBlocksForCluster_spec hm hco
  exact ⟨old, blocks, new, hold, hr.symm, ht, hc⟩

/-- The block of the per-node size that begins at a number has an address outside the
exclusions. -/
def OpenAt (m : Calculator) (family : Family) (first : ℕ) : Prop :=
  ∃ a : Addr, a.family = family ∧ first ≤ a.val ∧ a.val < first + m.grid.blockSize ∧
    ¬ Covered m.mergedExclusions a

open Classical in
/-- A range counts its blocks with an address outside the exclusions, from its start on. -/
theorem countInRange_eq_count (hse : Separated (spans m.mergedExclusions)) (r : IPRange) :
    m.countInRange r = Nat.count (fun i => m.OpenAt r.family (r.lo + i * m.grid.blockSize))
      ((r.hi - r.lo + 1) / m.grid.blockSize) := by
  unfold countInRange
  split_ifs with h
  · simp [h]
  set own := m.ownGrid r with how
  have ho : ∀ i < own.totalBlocks, m.OpenAt r.family (r.lo + i * m.grid.blockSize) ↔
      ¬ Covers (blockRangesFullyCoveredBy m.mergedExclusions own) i := by
    intro i hi
    rw [covers_blockRangesFullyCoveredBy, block_subset_iff_covered _ hse hi]
    simp only [hi, true_and, not_forall, exists_prop, OpenAt]
    refine exists_congr fun a => ?_
    have hb : own.InBlock i a ↔ a.family = r.family ∧ r.lo + i * m.grid.blockSize ≤ a.val ∧
        a.val < r.lo + (i + 1) * m.grid.blockSize := Iff.rfl
    rw [hb, add_mul, one_mul, ← add_assoc, and_assoc, and_assoc]
  have hc := card_covers (separated_blockRangesFullyCoveredBy own m.mergedExclusions)
    fun s hs => hi_lt_of_mem_blockRangesFullyCoveredBy own hs
  have hsp := Finset.card_filter_add_card_filter_not (s := Finset.range own.totalBlocks)
    (Covers (blockRangesFullyCoveredBy m.mergedExclusions own))
  rw [Finset.card_range] at hsp
  change (own.totalBlocks : ℤ) - _ = (Nat.count _ own.totalBlocks : ℕ)
  rw [Nat.count_eq_card_filter_range, Finset.filter_congr fun i hi =>
    ho i (Finset.mem_range.mp hi), blockIndexRangeCount, ← hc]
  omega

/-- A range adds a block to the count exactly if one of its blocks, counted from its start, has
an address outside the exclusions. -/
theorem countInRange_pos_iff (hs : Separated (spans m.mergedExclusions)) :
    0 < m.countInRange r ↔ ∃ i, r.lo + (i + 1) * m.grid.blockSize ≤ r.hi + 1 ∧
      m.OpenAt r.family (r.lo + i * m.grid.blockSize) := by
  have hr := r.le
  have hf : ∀ i, r.lo + (i + 1) * m.grid.blockSize ≤ r.hi + 1 ↔
      i < (r.hi - r.lo + 1) / m.grid.blockSize := by
    intro i
    rw [Nat.lt_iff_add_one_le, Nat.le_div_iff_mul_le m.grid.blockSize_pos]
    omega
  rw [countInRange_eq_count hs, Nat.cast_pos, Nat.count_eq_card_filter_range, Finset.card_pos]
  simp only [Finset.Nonempty, Finset.mem_filter, Finset.mem_range, hf]

theorem countInRange_nonneg (r : IPRange) : 0 ≤ m.countInRange r := by
  unfold countInRange
  split_ifs with h
  · exact le_rfl
  · simp only [sub_nonneg, Nat.cast_le, blockIndexRangeCount]
    exact size_le (separated_blockRangesFullyCoveredBy _ _) fun s hs =>
      hi_lt_of_mem_blockRangesFullyCoveredBy _ hs

theorem countAllocatableBlocks_pos_iff {ranges : List IPRange} :
    0 < m.countAllocatableBlocks ranges ↔ ∃ r ∈ mergeRanges ranges, 0 < m.countInRange r := by
  unfold countAllocatableBlocks
  constructor
  · intro h
    by_contra hall
    push Not at hall
    have hz : ((mergeRanges ranges).map m.countInRange).sum = 0 := by
      apply List.sum_eq_zero
      intro x hx
      obtain ⟨r, hr, rfl⟩ := List.mem_map.mp hx
      exact le_antisymm (hall r hr) (countInRange_nonneg r)
    omega
  · rintro ⟨r, hr, hp⟩
    exact hp.trans_le (List.single_le_sum (fun x hx => by
      obtain ⟨q, -, rfl⟩ := List.mem_map.mp hx
      exact countInRange_nonneg q) _ (List.mem_map_of_mem hr))

/-- The address lies in a static allocation whose text is a prefix. -/
def StaticallyAllocated (statics : List (String × String)) (a : Addr) : Prop :=
  ∃ s ∈ statics, ∃ p, parsePrefix s.2 = .ok p ∧ a ∈ rangeFromPrefix p

theorem covered_subtractStaticAllocations {exclusions rest : List IPRange}
    {statics : List (String × String)} (h : subtractStaticAllocations exclusions statics = .ok rest)
    :
    Covered rest a ↔ Covered exclusions a ∧ ¬ StaticallyAllocated statics a := by
  induction statics generalizing exclusions with
  | nil =>
    cases h
    simp [StaticallyAllocated]
  | cons x statics ih =>
    obtain ⟨node, text⟩ := x
    have hc : StaticallyAllocated ((node, text) :: statics) a ↔
        (∃ p, parsePrefix text = .ok p ∧ a ∈ rangeFromPrefix p) ∨
          StaticallyAllocated statics a := by
      simp [StaticallyAllocated]
    rw [subtractStaticAllocations] at h
    cases hp : parsePrefix text with
    | error e =>
      rw [hp] at h
      rw [ih h, hc, hp]
      simp
    | ok p =>
      rw [hp] at h
      dsimp only at h
      split_ifs at h
      rw [ih h, covered_subtractRange, hc, hp]
      simp only [Except.ok.injEq, exists_eq_left', not_or, and_assoc]

/-- Static allocations without an IPv4-mapped prefix can always be cut out. -/
theorem subtractStaticAllocations_ok {statics : List (String × String)}
    (h : ∀ s ∈ statics, ∀ p, parsePrefix s.2 = .ok p → p.addr.is4In6 = false)
    (exclusions : List IPRange) : ∃ rest, subtractStaticAllocations exclusions statics = .ok rest := by
  induction statics generalizing exclusions with
  | nil => exact ⟨exclusions, rfl⟩
  | cons x statics ih =>
    have hr := ih fun s hs => h s (List.mem_cons_of_mem x hs)
    rw [subtractStaticAllocations]
    cases hp : parsePrefix x.2 with
    | error e => exact hr exclusions
    | ok p =>
      have hm := h x List.mem_cons_self p hp
      dsimp only
      rw [if_neg (by simp [hm])]
      exact hr _

/-- `ComputeExclusions` renders the user's exclusions and the part of the parent range that is
neither allocated to the cluster nor statically allocated, as merged ranges. -/
theorem computeExclusions_spec {clusterBlocks excluded : List ApiIPRange}
    (h : m.computeExclusions clusterBlocks = .ok excluded) :
    ∃ allocs l, parseIPRanges clusterBlocks = .ok allocs ∧ excluded = toApiRanges l ∧
      Separated (spans l) ∧
      ∀ a, Covered l a ↔ Covered m.mergedExclusions a ∨
        (a ∈ m.parentRange ∧ ¬ Covered allocs a ∧ ¬ StaticallyAllocated m.staticAllocations a) := by
  unfold computeExclusions at h
  obtain ⟨allocs, hall, h⟩ := bind_eq_ok.mp h
  obtain ⟨rest, hr, h⟩ := bind_eq_ok.mp h
  cases h
  refine ⟨allocs, _, mapError_eq_ok.mp hall, rfl, separated_mergeRanges _, fun a => ?_⟩
  rw [covered_mergeRanges, covered_append, covered_subtractStaticAllocations hr,
    covered_excludeRanges, covered_mergeRanges, and_assoc, or_comm]

/-- `ComputeExclusions` fails on ranges that cannot be read only. -/
theorem computeExclusions_ok {clusterBlocks : List ApiIPRange} {allocs : List IPRange}
    (hp : parseIPRanges clusterBlocks = .ok allocs)
    (hs : ∀ s ∈ m.staticAllocations, ∀ p, parsePrefix s.2 = .ok p →
      p.addr.is4In6 = false) : ∃ excluded, m.computeExclusions clusterBlocks = .ok excluded := by
  obtain ⟨rest, hr⟩ := subtractStaticAllocations_ok hs
    (excludeRanges m.parentRange (mergeRanges allocs))
  unfold computeExclusions
  exact ⟨_, bind_eq_ok.mpr ⟨allocs, mapError_eq_ok.mpr hp, bind_eq_ok.mpr ⟨rest, hr, rfl⟩⟩⟩

end Calculator

/-! ## The calculator of a specification -/

theorem hostBits_masked (p : Prefix) : p.masked.hostBits = p.hostBits := rfl

theorem rangeFromPrefix_masked (p : Prefix) : rangeFromPrefix p.masked = rangeFromPrefix p := by
  have hi : p.addr.val / 2 ^ p.hostBits * 2 ^ p.hostBits / 2 ^ p.hostBits =
      p.addr.val / 2 ^ p.hostBits := Nat.mul_div_cancel _ (Nat.two_pow_pos _)
  ext
  · rfl
  · exact congrArg (· * 2 ^ p.hostBits) hi
  · exact congrArg (· * 2 ^ p.hostBits + (2 ^ p.hostBits - 1)) hi

theorem prefixAddressCount_eq (p : Prefix) :
    prefixAddressCount p.addr.family.bitLen p.bits = 2 ^ p.hostBits := by
  have hle := p.le
  unfold prefixAddressCount Prefix.hostBits
  rw [if_neg (by omega)]
  congr 1
  omega

variable {isCIDRPool : Bool} {target : Option ℤ} {statics : List (String × String)}

/-- The grid of a prefix lies in the range of the prefix. -/
theorem effectiveGrid_spec {p : Prefix} {blockSize : ℤ} {g : BlockGrid}
    (h : effectiveGrid p blockSize isCIDRPool = .ok g) :
    g.start.family = p.addr.family ∧ (rangeFromPrefix p).lo ≤ g.start.val ∧
      g.start.val + g.totalBlocks * g.blockSize ≤ (rangeFromPrefix p).hi + 1 ∧
      g.blockSize = blockSize.toNat ∧ 0 < g.totalBlocks := by
  unfold effectiveGrid at h
  simp only [prefixAddressCount_eq] at h
  split_ifs at h with hb hs ht
  split at h
  · cases h
  rename_i effectiveStart ha
  split_ifs at h with he
  cases h
  unfold add at ha
  split_ifs at ha with hlt
  cases ha
  have hp : 0 < 2 ^ p.hostBits := Nat.two_pow_pos _
  have hf := Nat.div_mul_le_self
    (2 ^ p.hostBits - ((poolBoundaryOffsets p isCIDRPool).1 + (poolBoundaryOffsets p isCIDRPool).2))
    blockSize.toNat
  refine ⟨rfl, Nat.le_add_right _ _, ?_, rfl, Nat.pos_of_ne_zero ht⟩
  simp only [IPRange.start, rangeFromPrefix]
  omega

/-- What `newMultiDPUClusterExclusionCalculator` builds. -/
structure Built (network : String) (blockSizePerNode : ℤ) (excludeRanges : List ApiIPRange)
    (staticAllocations : List (String × String)) (existing : List IPRange) (m : Calculator) :
    Prop where
  sound : m.Sound
  parent : ∃ p, parsePrefix network = .ok p ∧ m.parentRange = rangeFromPrefix p
  blockSize : m.grid.blockSize = blockSizePerNode.toNat
  exclusions : ∃ parsed, parseIPRanges excludeRanges = .ok parsed ∧
    m.mergedExclusions = mergeRanges parsed
  statics : m.staticAllocations = staticAllocations
  available : ∀ i, Covers m.availableBlockRanges i ↔ i < m.grid.totalBlocks ∧
    (∀ r ∈ m.mergedExclusions, ∃ a, m.grid.InBlock i a ∧ a ∉ r) ∧
    ∀ a, Covered existing a → ¬ m.grid.InBlock i a

/-- The calculator that `newMultiDPUClusterExclusionCalculator` returns for what it has read. -/
def calculatorOf (p : Prefix) (grid : BlockGrid) (exclusions existing : List IPRange)
    (targetBlocksPerDPUCluster : Option ℤ) (staticAllocations : List (String × String)) :
    Calculator where
  availableBlockRanges := subtractBlockIndexRanges
    [⟨0, grid.totalBlocks - 1, Nat.zero_le _⟩] (mergeBlockIndexRanges
      (blockRangesFullyCoveredBy (mergeRanges exclusions) grid ++
        blockRangesOverlapping existing grid))
  excludedBlockRanges := blockRangesFullyCoveredBy (mergeRanges exclusions) grid
  mergedExclusions := mergeRanges exclusions
  targetBlocksPerDPUCluster := targetBlocksPerDPUCluster.getD 0
  allocateAllRemainingBlocks := targetBlocksPerDPUCluster.isNone
  parentRange := rangeFromPrefix p.masked
  grid := grid
  staticAllocations := staticAllocations

/-- A calculator is built exactly if the network, the exclusions and the existing allocations can
be read and the network has a block. -/
theorem newMultiDPUClusterExclusionCalculator_eq_ok {network : String} {blockSizePerNode : ℤ}
    {excludeRanges : List ApiIPRange} {current : List (List ApiIPRange)} {m : Calculator} :
    newMultiDPUClusterExclusionCalculator network blockSizePerNode target isCIDRPool
      excludeRanges current statics = .ok m ↔
    ∃ p grid exclusions existing, parsePrefix network = .ok p ∧ p.addr.is4In6 = false ∧
      effectiveGrid p.masked blockSizePerNode isCIDRPool = .ok grid ∧
      parseIPRanges excludeRanges = .ok exclusions ∧ parseAllRanges current = .ok existing ∧
      m = calculatorOf p grid exclusions existing target statics := by
  unfold newMultiDPUClusterExclusionCalculator
  constructor
  · intro h
    obtain ⟨p, hp, h⟩ := bind_eq_ok.mp h
    split_ifs at h with hma
    obtain ⟨grid, hg, h⟩ := bind_eq_ok.mp h
    obtain ⟨merged, hme, h⟩ := bind_eq_ok.mp h
    obtain ⟨exclusions, he, hm⟩ := bind_eq_ok.mp hme
    obtain ⟨existing, hex, h⟩ := bind_eq_ok.mp h
    cases hm
    cases h
    exact ⟨p, grid, exclusions, existing, mapError_eq_ok.mp hp, by simpa using hma, hg,
      he, hex, rfl⟩
  · rintro ⟨p, grid, exclusions, existing, hp, hma, hg, he, hex, rfl⟩
    refine bind_eq_ok.mpr ⟨p, mapError_eq_ok.mpr hp, ?_⟩
    rw [if_neg (by simp [hma])]
    exact bind_eq_ok.mpr ⟨grid, hg, bind_eq_ok.mpr ⟨mergeRanges exclusions,
      bind_eq_ok.mpr ⟨exclusions, he, rfl⟩, bind_eq_ok.mpr ⟨existing, hex, rfl⟩⟩⟩

/-- The blocks that a new calculator hands out: those that no exclusion covers and that no
existing allocation touches. -/
theorem covers_calculatorOf {p : Prefix} {grid : BlockGrid} {exclusions : List IPRange}
    (ht : 0 < grid.totalBlocks) :
    Covers (calculatorOf p grid exclusions existing target statics).availableBlockRanges i ↔
      i < grid.totalBlocks ∧ (∀ r ∈ mergeRanges exclusions, ∃ a, grid.InBlock i a ∧ a ∉ r) ∧
        ∀ a, Covered existing a → ¬ grid.InBlock i a := by
  have hall : Covers [⟨0, grid.totalBlocks - 1, Nat.zero_le _⟩] i ↔ i < grid.totalBlocks := by
    simp only [covers_cons, covers_nil, or_false, mem_span]
    omega
  simp only [calculatorOf, subtractBlockIndexRanges, mergeBlockIndexRanges, covers_subtractAll,
    covers_merge, covers_append, covers_blockRangesFullyCoveredBy, covers_blockRangesOverlapping,
    hall]
  push Not
  tauto

theorem newMultiDPUClusterExclusionCalculator_built {network : String} {blockSizePerNode : ℤ}
    {excludeRanges : List ApiIPRange} {current : List (List ApiIPRange)} {m : Calculator}
    (h : newMultiDPUClusterExclusionCalculator network blockSizePerNode target isCIDRPool
      excludeRanges current statics = .ok m) :
    ∃ existing, parseAllRanges current = .ok existing ∧
      Built network blockSizePerNode excludeRanges statics existing m := by
  obtain ⟨p, grid, exclusions, existing, hp, -, hg, he, hex, rfl⟩ :=
    newMultiDPUClusterExclusionCalculator_eq_ok.mp h
  obtain ⟨hf, hlo, hhi, hb, ht⟩ := effectiveGrid_spec hg
  refine ⟨existing, hex, ⟨hf, hlo, hhi, (separated_merge _).subtractAll _, fun s hs => ?_⟩,
    ⟨p, hp, rangeFromPrefix_masked p⟩, hb, ⟨exclusions, he, rfl⟩, rfl,
    fun i => covers_calculatorOf ht⟩
  exact ((covers_calculatorOf ht).mp ⟨s, hs, s.le, le_rfl⟩).1

end DocaPlatform.IpamAllocator
