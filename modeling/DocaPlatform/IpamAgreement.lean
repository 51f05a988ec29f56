import DocaPlatform.IpamConservation
import DocaPlatform.IpamExclusions

/-!
# What the webhook admits and what the allocator can handle

For an accepted configuration the calculator is always built, and it has the blocks that the webhook
compared the quota with. What it hands out can be read back unless a range begins or ends in
`::ffff:0:0/96`.
-/
namespace DocaPlatform.IpamStatus

open Netip Spans IpRange Runs IpamAllocator IpamWebhook Option List

variable {a : Addr} {network : Prefix} {spec : DPUServiceIPAMSpec}

theorem unmap_of_not_mapped (h : a.is4In6 = false) : a.unmap = a := by
  simp [Addr.unmap, h]

/-- An address that `validateIP` accepts is read by the allocator, in the family of the network. -/
theorem validateIP_eq_ok {ip : String} (hn : network.addr.is4In6 = false)
    (h : validateIP ip network = .ok a) :
    IpRange.parseAddr ip = .ok a ∧ a.family = network.addr.family := by
  unfold validateIP parseIP at h
  cases hp : Netip.parseAddr ip with
  | error e => simp [hp, Except.toOption] at h
  | ok b =>
    simp only [hp, Except.toOption] at h
    split_ifs at h with hm hc
    cases h
    have hno : a.is4In6 = false := by simpa [isMappedText, hp] using hm
    refine ⟨parseAddr_eq_ok.mpr ⟨hp, hno⟩, ?_⟩
    have hin : network.contains a = true := by simpa using hc
    simp only [Prefix.contains, unmap_of_not_mapped hno, unmap_of_not_mapped hn,
      Bool.and_eq_true, beq_iff_eq] at hin
    exact hin.1.symm

/-- Within one family, the order of the 16-byte forms is the order of the addresses. -/
theorem val_le_of_as16 {b : Addr} (hf : a.family = b.family) (h : a.as16 ≤ b.as16) :
    a.val ≤ b.val := by
  unfold Addr.as16 at h
  rw [hf] at h
  cases hb : b.family <;> simp only [hb] at h <;> omega

theorem parseIPRange_of_valid (hn : network.addr.is4In6 = false) {r : ApiIPRange}
    (h : validateExcludeRange network r = []) : ∃ p, parseIPRange r = .ok p := by
  unfold validateExcludeRange at h
  cases hs : validateIP r.startIP network with
  | error e =>
    cases he : validateIP r.endIP network <;> simp [hs, he] at h
  | ok a =>
    cases he : validateIP r.endIP network with
    | error e => simp [hs, he] at h
    | ok b =>
      simp only [hs, he, ite_eq_right_iff, cons_ne_nil, imp_false, not_lt] at h
      obtain ⟨ha, haf⟩ := validateIP_eq_ok hn hs
      obtain ⟨hb, hbf⟩ := validateIP_eq_ok hn he
      have hf : a.family = b.family ∧ a.val ≤ b.val :=
        ⟨haf.trans hbf.symm, val_le_of_as16 (haf.trans hbf.symm) h⟩
      refine ⟨⟨a.family, a.val, b.val, hf.2, hf.1 ▸ b.lt⟩, ?_⟩
      rw [parseIPRange, ha, hb]
      simp [dif_pos hf]

theorem parseIPRanges_of_each {ranges : List ApiIPRange}
    (h : ∀ r ∈ ranges, ∃ p, parseIPRange r = .ok p) : ∃ l, parseIPRanges ranges = .ok l := by
  induction ranges with
  | nil => exact ⟨[], rfl⟩
  | cons r rs ih =>
    obtain ⟨p, hp⟩ := h r (by simp)
    obtain ⟨l, hl⟩ := ih fun x hx => h x (by simp [hx])
    exact ⟨p :: l, parseIPRanges_cons.mpr ⟨p, l, hp, hl, rfl⟩⟩

/-- An excluded address that the webhook accepts is read by the allocator. -/
theorem parseIPRange_of_exclusion (hn : network.addr.is4In6 = false)
    {exclusions : List String} (h : validateExclusions exclusions network = []) {address : String}
    (hmem : address ∈ exclusions) : ∃ p, parseIPRange ⟨address, address⟩ = .ok p := by
  have hvalid := flatMap_eq_nil_iff.mp h address hmem
  cases hv : validateIP address network with
  | error e => simp [hv] at hvalid
  | ok a =>
    obtain ⟨ha, -⟩ := validateIP_eq_ok hn hv
    exact ⟨⟨a.family, a.val, a.val, le_rfl, a.lt⟩, parseIPRange_eq_ok.mpr ⟨ha, ha⟩⟩

/-! ## The calculator of an accepted configuration -/

theorem effectiveGrid_ok {p : Prefix} {blockSize : ℤ} {isCIDRPool : Bool} (hp : 1 ≤ blockSize)
    (hfi : blockSize ≤ (2 ^ p.hostBits - ((poolBoundaryOffsets p isCIDRPool).1 +
      (poolBoundaryOffsets p isCIDRPool).2) : ℕ)) :
    ∃ g, effectiveGrid p blockSize isCIDRPool = .ok g ∧
      g.totalBlocks = (2 ^ p.hostBits - ((poolBoundaryOffsets p isCIDRPool).1 +
        (poolBoundaryOffsets p isCIDRPool).2)) / blockSize.toNat := by
  unfold effectiveGrid
  simp only [prefixAddressCount_eq]
  set effectiveSize := 2 ^ p.hostBits - ((poolBoundaryOffsets p isCIDRPool).1 +
    (poolBoundaryOffsets p isCIDRPool).2) with hs
  have hb : 0 < blockSize.toNat := by omega
  have ht : effectiveSize / blockSize.toNat ≠ 0 := by
    rw [Ne, Nat.div_eq_zero_iff, not_or]
    omega
  have hle := Nat.div_mul_le_self effectiveSize blockSize.toNat
  have hlt := (rangeFromPrefix p).lt
  have hhi : (rangeFromPrefix p).hi = (rangeFromPrefix p).lo + (2 ^ p.hostBits - 1) := rfl
  have hf : (rangeFromPrefix p).family = p.addr.family := rfl
  have ha : (rangeFromPrefix p).start.val + (poolBoundaryOffsets p isCIDRPool).1 <
      2 ^ (rangeFromPrefix p).start.family.bitLen := by
    change (rangeFromPrefix p).lo + _ < 2 ^ (rangeFromPrefix p).family.bitLen
    omega
  have he : (rangeFromPrefix p).lo + (poolBoundaryOffsets p isCIDRPool).1 +
      (effectiveSize / blockSize.toNat * blockSize.toNat - 1) <
        2 ^ (rangeFromPrefix p).family.bitLen := by
    omega
  rw [dif_neg (by omega), if_neg (by omega), dif_neg ht]
  simp only [add, dif_pos ha]
  exact ⟨_, dif_pos he, rfl⟩

/-- The number of blocks that the webhook compares the quota with. -/
def blocksCompared (spec : DPUServiceIPAMSpec) : Option ℕ :=
  match spec.configuration with
  | .subnet s => (parseNetworkCIDR s.subnet "subnet").toOption.map fun network =>
      allocatableAddressCount network / s.perNodeIPCount.toNat
  | .network n => (parseNetworkCIDR n.network "network").toOption.map fun network =>
      prefixAddressCount n.prefixSize network.bits

/-- The webhook and the allocator agree on the addresses of a shared subnet. -/
theorem allocatableAddressCount_eq (hn : network.addr.is4In6 = false)
    (hw : network.bits < network.addr.family.bitLen - 1) :
    allocatableAddressCount network = 2 ^ network.hostBits -
      ((poolBoundaryOffsets network false).1 + (poolBoundaryOffsets network false).2) := by
  unfold allocatableAddressCount poolBoundaryOffsets
  rw [if_pos hw, if_neg (by simp; omega), unmap_of_not_mapped hn, prefixAddressCount_eq]
  cases network.addr.family with
  | v4 => rw [Nat.sub_sub]
  | v6 => rfl

theorem subnet_effectiveGrid {s : Subnet} (h : SubnetAccepted s network)
    (hn : network.addr.is4In6 = false) :
    ∃ g, effectiveGrid network s.perNodeIPCount false = .ok g ∧
      g.totalBlocks = allocatableAddressCount network / s.perNodeIPCount.toNat := by
  have hc := allocatableAddressCount_eq hn h.wide
  rw [hc]
  exact effectiveGrid_ok h.fits.1 (hc ▸ h.fits.2)

theorem network_effectiveGrid {n : Network} (h : NetworkAccepted n network) :
    ∃ g, effectiveGrid network
        (prefixAddressCount network.addr.family.bitLen n.prefixSize) true = .ok g ∧
      g.totalBlocks = prefixAddressCount n.prefixSize network.bits := by
  obtain ⟨hlo, hhi⟩ := h.fits
  obtain ⟨size, hs⟩ : ∃ size : ℕ, n.prefixSize = size :=
    ⟨n.prefixSize.toNat, by have := network.bits; omega⟩
  rw [hs] at hlo hhi ⊢
  norm_cast at hlo hhi
  have hb : prefixAddressCount network.addr.family.bitLen size =
      2 ^ (network.addr.family.bitLen - size) := by
    unfold prefixAddressCount
    rw [if_neg (by omega)]
    congr 1
    omega
  have ht : prefixAddressCount size network.bits = 2 ^ (size - network.bits) := by
    unfold prefixAddressCount
    rw [if_neg (by omega)]
    congr 1
    omega
  have ho : poolBoundaryOffsets network true = (0, 0) := if_pos (.inl rfl)
  have hsp : 2 ^ network.hostBits =
      2 ^ (size - network.bits) * 2 ^ (network.addr.family.bitLen - size) := by
    rw [← pow_add, Prefix.hostBits]
    congr 1
    omega
  have hp : 0 < 2 ^ (network.addr.family.bitLen - size) := Nat.two_pow_pos _
  have hpos' : 0 < 2 ^ (size - network.bits) := Nat.two_pow_pos _
  have hf : ((2 ^ (network.addr.family.bitLen - size) : ℕ) : ℤ) ≤ (2 ^ network.hostBits -
      ((poolBoundaryOffsets network true).1 + (poolBoundaryOffsets network true).2) : ℕ) := by
    rw [ho, hsp]
    exact_mod_cast Nat.le_mul_of_pos_left _ hpos'
  obtain ⟨g, hg, hbl⟩ := effectiveGrid_ok (by omega) hf
  refine ⟨g, by rw [hb]; exact hg, ?_⟩
  rw [hbl, ho, ht, hsp, Int.toNat_natCast]
  exact Nat.mul_div_cancel _ hp

theorem exclusions_parse (h : validateConfiguration spec = []) :
    ∃ l, parseIPRanges (exclusionsOf spec) = .ok l := by
  rw [validateConfiguration_eq] at h
  apply parseIPRanges_of_each
  intro r hr
  rcases configuration_cases spec with ⟨s, hs, -⟩ | ⟨n, hn, -, -⟩
  · rw [hs] at h
    obtain ⟨network, ha⟩ := validateSubnet_eq_nil h
    obtain ⟨p, -, hm, rfl⟩ := parseNetworkCIDR_eq_ok ha.parses
    simp only [exclusionsOf, hs] at hr
    exact parseIPRange_of_valid (is4In6_masked hm)
      (flatMap_eq_nil_iff.mp ha.excludeRanges r hr)
  · rw [hn] at h
    obtain ⟨network, ha⟩ := validateNetwork_eq_nil h
    obtain ⟨p, -, hm, rfl⟩ := parseNetworkCIDR_eq_ok ha.parses
    simp only [exclusionsOf, hn, Network.allExclusions] at hr
    rcases mem_append.mp hr with hr | hr
    · obtain ⟨address, hmem, rfl⟩ := List.mem_map.mp hr
      exact parseIPRange_of_exclusion (is4In6_masked hm) ha.exclusions hmem
    · exact parseIPRange_of_valid (is4In6_masked hm)
        (flatMap_eq_nil_iff.mp ha.excludeRanges r hr)

/-- An accepted configuration has a grid of as many blocks as the webhook compares the quota
with. -/
theorem gridOf_accepted (h : validateConfiguration spec = []) :
    ∃ p g, parsePrefix spec.cidr = .ok p ∧ p.addr.is4In6 = false ∧ gridOf spec = some g ∧
      blocksCompared spec = some g.totalBlocks ∧
      ∀ q, quotaOf spec = some q → 1 ≤ q ∧ q ≤ g.totalBlocks := by
  rw [validateConfiguration_eq] at h
  rcases configuration_cases spec with ⟨s, hs, -⟩ | ⟨n, hn, -, -⟩
  · rw [hs] at h
    obtain ⟨network, ha⟩ := validateSubnet_eq_nil h
    obtain ⟨p, hp, hm, rfl⟩ := parseNetworkCIDR_eq_ok ha.parses
    obtain ⟨g, hg, ht⟩ := subnet_effectiveGrid ha (is4In6_masked hm)
    have hc : spec.cidr = s.subnet := by
      simp [DPUServiceIPAMSpec.cidr, hs, Configuration.updateInput, Subnet.updateInput]
    refine ⟨p, g, by rw [hc, hp], hm, ?_, ?_, ?_⟩
    · simp only [gridOf, networkOf, hc, hp, Except.toOption, map_some, bind_some,
        blockSizeOf, isCIDRPoolOf, hs, hg]
    · simp only [blocksCompared, hs, ha.parses, Except.toOption, map_some, ht]
    · intro q hq
      simp only [quotaOf, hs, Configuration.updateInput, Subnet.updateInput] at hq
      have hqu := ha.quota
      simp only [validateBlocksPerDPUCluster, hq] at hqu
      split_ifs at hqu with h1 h2
      exact ⟨by omega, by rw [ht]; omega⟩
  · rw [hn] at h
    obtain ⟨network, ha⟩ := validateNetwork_eq_nil h
    obtain ⟨p, hp, hm, rfl⟩ := parseNetworkCIDR_eq_ok ha.parses
    obtain ⟨g, hg, ht⟩ := network_effectiveGrid ha
    have hc : spec.cidr = n.network := by
      simp [DPUServiceIPAMSpec.cidr, hn, Configuration.updateInput, Network.updateInput]
    refine ⟨p, g, by rw [hc, hp], hm, ?_, ?_, ?_⟩
    · change effectiveGrid p.masked (prefixAddressCount p.addr.family.bitLen n.prefixSize) true =
        .ok g at hg
      simp only [gridOf, networkOf, hc, hp, Except.toOption, map_some, bind_some,
        blockSizeOf, isCIDRPoolOf, hn, hg]
    · simp only [blocksCompared, hn, ha.parses, Except.toOption, map_some, ht]
    · intro q hq
      simp only [quotaOf, hn, Configuration.updateInput, Network.updateInput] at hq
      have hqu := ha.quota
      simp only [validateSubnetsPerDPUCluster, hq] at hqu
      split_ifs at hqu with h1 h2
      exact ⟨by omega, by rw [ht]; omega⟩

/-- The calculator of an accepted configuration without existing allocations is always built. -/
theorem newCalculator_accepted (h : validateConfiguration spec = []) :
    ∃ m, newCalculator spec [] = .ok m ∧ gridOf spec = some m.grid ∧
      blocksCompared spec = some m.grid.totalBlocks ∧
      ∀ q, quotaOf spec = some q → 1 ≤ q ∧ q ≤ m.grid.totalBlocks := by
  obtain ⟨p, g, hp, hm, hg, hb, hq⟩ := gridOf_accepted h
  obtain ⟨exclusions, he⟩ := exclusions_parse h
  exact ⟨_, newCalculator_cases.mpr ⟨p, g, exclusions, [], hp, hm, hg, he, rfl, rfl⟩, hg, hb, hq⟩

/-! ## Reading back what was handed out -/

/-- The number of an address in `::ffff:0:0/96`. -/
def MappedAt (family : Family) (v : ℕ) : Prop :=
  family = .v6 ∧ v / 2 ^ 32 = 0xffff

instance (family : Family) (v : ℕ) : Decidable (MappedAt family v) :=
  inferInstanceAs (Decidable (_ ∧ _))

theorem is4In6_eq_false_iff (a : Addr) : a.is4In6 = false ↔ ¬ MappedAt a.family a.val := by
  simp [Addr.is4In6, MappedAt]

/-- Ranges of blocks can be read back if no span of blocks begins or ends at an IPv4-mapped
address. -/
theorem readable_iff {g : BlockGrid} {l : List Span} {ranges : List IPRange}
    (h : List.Forall₂ g.IsSpan l ranges) :
    Readable (toApiRanges ranges) ↔ ∀ s ∈ l,
      ¬ MappedAt g.start.family (g.start.val + s.lo * g.blockSize) ∧
      ¬ MappedAt g.start.family (g.start.val + (s.hi + 1) * g.blockSize - 1) := by
  induction h with
  | nil => simp [toApiRanges, Readable]
  | @cons s r l ranges hs _ ih =>
    have hc : toApiRanges (r :: ranges) =
        ⟨r.start.string, r.stop.string⟩ :: toApiRanges ranges := rfl
    rw [hc, Readable, forall_mem_cons, ← Readable, ih, forall_mem_cons,
      isMappedText_string, isMappedText_string, is4In6_eq_false_iff, is4In6_eq_false_iff]
    change (¬ MappedAt r.family r.lo ∧ ¬ MappedAt r.family r.hi) ∧ _ ↔ _
    rw [hs.1, hs.2.1, show r.hi = g.start.val + (s.hi + 1) * g.blockSize - 1 by
      have := hs.2.2
      omega]

/-- The calculator after calls that handed out the `c` lowest of the blocks that were free. -/
structure Handed (m₀ : Calculator) (free : Finset ℕ) (c : ℕ) (m : Calculator) : Prop where
  frame : m = m₀.withAvailable m.availableBlockRanges
  ready : m.Ready
  available : ∀ i, Covers m.availableBlockRanges i ↔ i ∈ free ∧ c ≤ Nat.count (· ∈ free) i

variable {i : ℕ}

section Handing

variable {m₀ m : Calculator} {free : Finset ℕ} {c : ℕ}

theorem Handed.count (h : Handed m₀ free c m) (i : ℕ) :
    Nat.count (Covers m.availableBlockRanges) i = Nat.count (· ∈ free) i - c := by
  rw [← count_of_le_count (· ∈ free) c i, Nat.count_eq_card_filter_range,
    Nat.count_eq_card_filter_range]
  exact congrArg Finset.card (Finset.filter_congr fun j _ => h.available j)

theorem not_keeps_nil (m : Calculator) : ¬ m.Keeps [] :=
  fun h => h.1 rfl

/-- The blocks that the next cluster gets: up to the quota, or all. -/
theorem Handed.given_iff (h : Handed m₀ free c m) :
    Covers (m.given []) i ↔ i ∈ free ∧ c ≤ Nat.count (· ∈ free) i ∧
      (m₀.allocateAllRemainingBlocks = true ∨
        Nat.count (· ∈ free) i < c + m₀.targetBlocksPerDPUCluster.toNat) := by
  have hall : m.allocateAllRemainingBlocks = m₀.allocateAllRemainingBlocks := by rw [h.frame]; rfl
  have ht : m.targetBlocksPerDPUCluster = m₀.targetBlocksPerDPUCluster := by
    rw [h.frame]
    rfl
  unfold Calculator.given Calculator.lacks
  cases hc : m₀.allocateAllRemainingBlocks with
  | true =>
    rw [hall, hc, if_pos rfl, takeBlockIndices, take_size]
    simp [h.available]
  | false =>
    rw [hall, hc, Calculator.keptCount, if_neg (not_keeps_nil m), sub_zero, ht]
    simp only [Bool.false_eq_true, if_false, false_or]
    rw [takeBlockIndices, covers_take_fst_iff h.ready.sound.separated, h.available, h.count,
      and_assoc]
    refine and_congr_right fun _ => and_congr_right fun hle => ?_
    omega

theorem Handed.next (h : Handed m₀ free c m) (hq : m₀.allocateAllRemainingBlocks = false) :
    Handed m₀ free (c + m₀.targetBlocksPerDPUCluster.toNat) (m.afterTurn []) := by
  refine ⟨?_, h.ready.afterTurn [], fun i => ?_⟩
  · rw [h.frame]
    rfl
  · rw [Calculator.covers_afterTurn h.ready.sound, h.given_iff, h.available, hq]
    simp only [Bool.false_eq_true, false_or]
    constructor
    · rintro ⟨⟨hi, hle⟩, hn⟩
      exact ⟨hi, by by_contra hlt; exact hn ⟨hi, hle, by omega⟩⟩
    · rintro ⟨hi, hle⟩
      exact ⟨⟨hi, by omega⟩, fun hg => by omega⟩

/-- The number of blocks that each cluster gets; 0 stands for all that are left. -/
def quotaNumber (spec : DPUServiceIPAMSpec) : ℕ :=
  ((quotaOf spec).getD 0).toNat

/-- If every cluster in turn gets the next `q` blocks of `free`, one of the ranges begins with
the block. -/
def RunStart (free : Finset ℕ) (q i : ℕ) : Prop :=
  i ∈ free ∧ ((∀ j, j + 1 = i → j ∉ free) ∨ q ∣ Nat.count (· ∈ free) i)

/-- If every cluster in turn gets the next `q` blocks of `free`, one of the ranges ends with the
block. -/
def RunEnd (free : Finset ℕ) (q i : ℕ) : Prop :=
  i ∈ free ∧ (i + 1 ∉ free ∨ q ∣ Nat.count (· ∈ free) i + 1)

theorem Handed.exists_lo_iff (h : Handed m₀ free c m) :
    (∃ s ∈ m.given [], s.lo = i) ↔ Covers (m.given []) i ∧
      ((∀ j, j + 1 = i → j ∉ free) ∨ Nat.count (· ∈ free) i = c) := by
  rw [Spans.exists_lo_iff (h.ready.sound.separated_given [])]
  refine and_congr_right fun hi => ?_
  obtain ⟨hf, hle, hq⟩ := h.given_iff.mp hi
  constructor
  · intro hb
    by_cases hj : ∀ j, j + 1 = i → j ∉ free
    · exact .inl hj
    · push Not at hj
      obtain ⟨j, rfl, hj⟩ := hj
      have hno := hb j rfl
      rw [h.given_iff] at hno
      rw [Nat.count_succ, if_pos hj] at hle hq ⊢
      refine .inr ?_
      by_contra hne
      exact hno ⟨hj, by omega, hq.imp_right fun _ => by omega⟩
  · intro hb j hj hco
    subst hj
    obtain ⟨hjf, hjl, -⟩ := h.given_iff.mp hco
    rcases hb with hn | hc
    · exact hn j rfl hjf
    · rw [Nat.count_succ, if_pos hjf] at hc
      omega

theorem Handed.exists_hi_iff (h : Handed m₀ free c m) :
    (∃ s ∈ m.given [], s.hi = i) ↔ Covers (m.given []) i ∧ (i + 1 ∉ free ∨
      m₀.allocateAllRemainingBlocks = false ∧
        Nat.count (· ∈ free) i + 1 = c + m₀.targetBlocksPerDPUCluster.toNat) := by
  rw [Spans.exists_hi_iff (h.ready.sound.separated_given [])]
  refine and_congr_right fun hi => ?_
  obtain ⟨hf, hle, hq⟩ := h.given_iff.mp hi
  rw [h.given_iff, Nat.count_succ, if_pos hf]
  constructor
  · intro hnot
    by_cases hn : i + 1 ∈ free
    · refine .inr ?_
      cases hall : m₀.allocateAllRemainingBlocks with
      | true => exact absurd ⟨hn, by omega, .inl hall⟩ hnot
      | false =>
        rw [hall] at hq hnot
        simp only [Bool.false_eq_true, false_or] at hq hnot
        refine ⟨rfl, ?_⟩
        by_contra hne
        exact hnot ⟨hn, by omega, by omega⟩
    · exact .inl hn
  · rintro (hno | ⟨hall, hc⟩) ⟨hn, -, hb⟩
    · exact hno hn
    · rw [hall] at hb
      simp only [Bool.false_eq_true, false_or] at hb
      omega

/-- The calculator has handed out a multiple of the quota; without a quota, nothing. -/
structure Serving (m₀ : Calculator) (free : Finset ℕ) (c : ℕ) (m : Calculator) : Prop where
  handed : Handed m₀ free c m
  dvd : m₀.targetBlocksPerDPUCluster.toNat ∣ c
  quota : m₀.allocateAllRemainingBlocks = true ↔ m₀.targetBlocksPerDPUCluster.toNat = 0

section Serving

variable (h : Serving m₀ free c m)
include h

theorem Serving.runStart {s : Span} (hs : s ∈ m.given []) :
    RunStart free m₀.targetBlocksPerDPUCluster.toNat s.lo := by
  obtain ⟨hco, hb⟩ := h.handed.exists_lo_iff.mp ⟨s, hs, rfl⟩
  refine ⟨(h.handed.given_iff.mp hco).1, hb.imp_right fun hc => ?_⟩
  rw [hc]
  exact h.dvd

theorem Serving.runEnd {s : Span} (hs : s ∈ m.given []) :
    RunEnd free m₀.targetBlocksPerDPUCluster.toNat s.hi := by
  obtain ⟨hco, ha⟩ := h.handed.exists_hi_iff.mp ⟨s, hs, rfl⟩
  refine ⟨(h.handed.given_iff.mp hco).1, ha.imp_right fun hc => ?_⟩
  rw [hc.2]
  exact dvd_add h.dvd dvd_rfl

/-- The cluster that gets the block gets a range that begins with it. -/
theorem Serving.exists_lo (hi : RunStart free m₀.targetBlocksPerDPUCluster.toNat i)
    (hg : Covers (m.given []) i) : ∃ s ∈ m.given [], s.lo = i := by
  refine h.handed.exists_lo_iff.mpr ⟨hg, hi.2.imp_right fun hdv => ?_⟩
  obtain ⟨-, hle, hq⟩ := h.handed.given_iff.mp hg
  have hd := Nat.dvd_sub hdv h.dvd
  rcases hq with hall | hlt
  · rw [h.quota.mp hall, zero_dvd_iff] at hd
    omega
  · have := Nat.eq_zero_of_dvd_of_lt hd (by omega)
    omega

theorem Serving.exists_hi (hi : RunEnd free m₀.targetBlocksPerDPUCluster.toNat i)
    (hg : Covers (m.given []) i) : ∃ s ∈ m.given [], s.hi = i := by
  refine h.handed.exists_hi_iff.mpr ⟨hg, hi.2.imp_right fun hd => ?_⟩
  obtain ⟨-, hle, hq⟩ := h.handed.given_iff.mp hg
  cases hall : m₀.allocateAllRemainingBlocks with
  | true =>
    rw [h.quota.mp hall, zero_dvd_iff] at hd
    omega
  | false =>
    rw [hall] at hq
    simp only [Bool.false_eq_true, false_or] at hq
    have hle := Nat.le_of_dvd (by omega) (Nat.dvd_sub hd h.dvd)
    exact ⟨rfl, by omega⟩

/-- While a block is left, the next cluster gets one. -/
theorem Serving.given_ne_nil (hleft : m.availableBlockRanges ≠ []) : m.given [] ≠ [] := by
  have hall : m.allocateAllRemainingBlocks = m₀.allocateAllRemainingBlocks := by
    rw [h.handed.frame]
    rfl
  have ht : m.targetBlocksPerDPUCluster = m₀.targetBlocksPerDPUCluster := by
    rw [h.handed.frame]
    rfl
  have hs : 0 < size m.availableBlockRanges :=
    Nat.pos_of_ne_zero fun hz => hleft (size_eq_zero.mp hz)
  have hl : 0 < m.lacks [] := by
    rw [Calculator.lacks, Calculator.keptCount, if_neg (not_keeps_nil m), sub_zero, hall, ht]
    split_ifs with hc
    · exact hs
    · exact Nat.pos_of_ne_zero fun hz => hc (h.quota.mpr hz)
  intro hn
  have hg : size (m.given []) = min (m.lacks []) (size m.availableBlockRanges) :=
    size_take _ _
  rw [hn, size_nil] at hg
  omega

end Serving

/-! ## Every call for a new cluster -/

/-- The call is for a cluster that has no ranges yet. -/
def Fresh (_ : Calculator) (c : AllocateCall) : Prop :=
  c.existing = []

/-- The calculators that are built without existing allocations and then serve new clusters. -/
def ServesNew (spec : DPUServiceIPAMSpec) (m : Calculator) : Prop :=
  Reachable (fun m => newCalculator spec [] = .ok m) (Restrict Fresh Allocates) m

theorem recorded_of_given (hm : m.Sound) {new : List IPRange}
    (hn : List.Forall₂ m.grid.IsSpan (m.given []) new) :
    mergeRanges (m.keptRanges [] ++ new) = new := by
  rw [Calculator.keptRanges, if_neg (not_keeps_nil m), nil_append]
  exact mergeRanges_of_separated (separated_of_isSpan hn (hm.separated_given []))

theorem Allocates.of_fresh (hm : m.Sound) {call : AllocateCall} {m' : Calculator}
    (hc : Allocates m call m') (hf : Fresh m call) :
    m.given [] ≠ [] ∧ m' = m.afterTurn [] ∧ ∃ new,
      List.Forall₂ m.grid.IsSpan (m.given []) new ∧ call.recorded = toApiRanges new := by
  rw [Allocates, hf] at hc
  obtain ⟨old, new, hold, hs, hn, hr, hm'⟩ :=
    Calculator.allocateClusterBlocks_turn hm hc
  obtain rfl : [] = old := Except.ok.inj hold
  rw [recorded_of_given hm hn] at hr
  exact ⟨hs.resolve_left (not_keeps_nil m), hm', new, hn, hr⟩

/-- A call for a new cluster succeeds while it has a block to give. -/
theorem allocates_of_given (hm : m.Sound) (hg : m.given [] ≠ []) :
    ∃ new, List.Forall₂ m.grid.IsSpan (m.given []) new ∧
      Allocates m ⟨[], toApiRanges new⟩ (m.afterTurn []) := by
  have hni : parseIPRanges [] = .ok [] := rfl
  obtain ⟨new, hn, hc⟩ := Calculator.allocateClusterBlocks_ok hm hni (.inr hg)
  rw [recorded_of_given hm hn] at hc
  exact ⟨new, hn, hc⟩

end Handing

variable {m : Calculator}

theorem ServesNew.describes (h : ServesNew spec m) : Describes spec m :=
  h.invariant (fun _ hm => Describes.of_builds ⟨[], hm⟩) fun _ _ _ _ hd hc => hd.allocates hc.2

section Accepted

variable {spec : DPUServiceIPAMSpec} (hvalid : validateConfiguration spec = []) {m₀ : Calculator}
  (hm₀ : newCalculator spec [] = .ok m₀)
include hvalid hm₀

theorem newCalculator_quota : m₀.targetBlocksPerDPUCluster.toNat = quotaNumber spec ∧
    (m₀.allocateAllRemainingBlocks = true ↔ quotaNumber spec = 0) := by
  obtain ⟨m, hm, -, -, hqu⟩ := newCalculator_accepted hvalid
  obtain ⟨p, grid, exclusions, existing, -, -, -, -, -, rfl⟩ := newCalculator_cases.mp hm₀
  refine ⟨rfl, ?_⟩
  change (quotaOf spec).isNone = true ↔ ((quotaOf spec).getD 0).toNat = 0
  cases hq : quotaOf spec with
  | none => simp
  | some q =>
    have := (hqu q hq).1
    simp only [isNone_some, Bool.false_eq_true, getD_some, false_iff]
    omega

theorem serving_start : Serving m₀ (freeBlocks spec m₀.grid [] []) 0 m₀ := by
  obtain ⟨existing, -, hb⟩ := newCalculator_built hm₀
  obtain ⟨ht, hall⟩ := newCalculator_quota hvalid hm₀
  refine ⟨⟨rfl, hb.ready, fun i => ?_⟩, dvd_zero _, by rw [ht, hall]⟩
  have hk : newCalculator spec (([] : List String).map (getAllocationsForDPUCluster [])) =
      .ok m₀ := hm₀
  rw [covers_newCalculator hk, mem_freeBlocks]
  simp [allocationsOf, Touched]

/-- The calculator is empty, or it has served every cluster so far in full. -/
theorem ServesNew.serving (h : ServesNew spec m) :
    m.availableBlockRanges = [] ∨ ∃ c, Serving m₀ (freeBlocks spec m₀.grid [] []) c m := by
  induction h with
  | @start m hm =>
    obtain rfl : m₀ = m := Except.ok.inj (hm₀.symm.trans hm)
    exact .inr ⟨0, serving_start hvalid hm₀⟩
  | @next m m' call hr hst ih =>
    have hs : ServesNew spec m := hr
    obtain ⟨hg, rfl, -⟩ := hst.2.of_fresh hs.describes.sound hst.1
    rcases ih with hn | ⟨c, hse⟩
    · refine absurd ?_ hg
      rw [Calculator.given, hn]
      rfl
    · cases hall : m₀.allocateAllRemainingBlocks with
      | true =>
        refine .inl (Calculator.afterTurn_of_all ?_)
        rw [hse.handed.frame]
        exact hall
      | false =>
        exact .inr ⟨_, hse.handed.next hall, dvd_add hse.dvd dvd_rfl, hse.quota⟩

/-- With a quota, the clusters are served one after the other while a block is left. -/
theorem exists_serving_turn (hall : m₀.allocateAllRemainingBlocks = false)
    (hi : i ∈ freeBlocks spec m₀.grid [] []) (n : ℕ) (hn : n * m₀.targetBlocksPerDPUCluster.toNat ≤
      Nat.count (· ∈ freeBlocks spec m₀.grid [] []) i) :
    ∃ m, ServesNew spec m ∧ Serving m₀ (freeBlocks spec m₀.grid [] [])
      (n * m₀.targetBlocksPerDPUCluster.toNat) m := by
  induction n with
  | zero =>
    rw [zero_mul]
    exact ⟨m₀, .start hm₀, serving_start hvalid hm₀⟩
  | succ n ih =>
    rw [add_mul, one_mul] at hn ⊢
    obtain ⟨m, hm, hs⟩ := ih (by omega)
    have hl : m.availableBlockRanges ≠ [] := by
      intro hni
      have hco := (hs.handed.available i).mpr ⟨hi, by omega⟩
      simp [hni] at hco
    obtain ⟨new, -, hc⟩ :=
      allocates_of_given hs.handed.ready.sound (hs.given_ne_nil hl)
    have hst : Restrict Fresh Allocates m ⟨[], toApiRanges new⟩ (m.afterTurn []) := ⟨rfl, hc⟩
    exact ⟨_, hm.next hst, hs.handed.next hall, dvd_add hs.dvd dvd_rfl, hs.quota⟩

/-- Every free block is handed out in some turn. -/
theorem exists_serving (hi : i ∈ freeBlocks spec m₀.grid [] []) :
    ∃ m c, ServesNew spec m ∧ Serving m₀ (freeBlocks spec m₀.grid [] []) c m ∧
      Covers (m.given []) i := by
  cases hall : m₀.allocateAllRemainingBlocks with
  | true =>
    have hs := serving_start hvalid hm₀
    exact ⟨m₀, 0, .start hm₀, hs, hs.handed.given_iff.mpr ⟨hi, Nat.zero_le _, .inl hall⟩⟩
  | false =>
    have hp : 0 < m₀.targetBlocksPerDPUCluster.toNat := by
      refine Nat.pos_of_ne_zero fun hz => ?_
      rw [(serving_start hvalid hm₀).quota.mpr hz] at hall
      cases hall
    obtain ⟨m, hm, hs⟩ := exists_serving_turn hvalid hm₀ hall hi
      (Nat.count (· ∈ freeBlocks spec m₀.grid [] []) i / m₀.targetBlocksPerDPUCluster.toNat)
      (Nat.div_mul_le_self _ _)
    refine ⟨m, _, hm, hs, hs.handed.given_iff.mpr ⟨hi, Nat.div_mul_le_self _ _, .inr ?_⟩⟩
    exact Nat.lt_div_mul_add hp

end Accepted

/-! ## Agreement -/

/-- The webhook and the allocator agree on a specification: the calculator is built, it has the
blocks that the webhook compared the quota with, and in every state it computes the exclusions of
all ranges that it returns. -/
structure Agrees (spec : DPUServiceIPAMSpec) : Prop where
  builds : ∃ m, newCalculator spec [] = .ok m ∧ blocksCompared spec = some m.grid.totalBlocks ∧
    ∀ q, quotaOf spec = some q → q ≤ m.grid.totalBlocks
  computes : ∀ m call m', ServesNew spec m → Fresh m call → Allocates m call m' →
    ∀ later, ServesNew spec later → ∃ excluded, later.computeExclusions call.recorded = .ok excluded

/-- No range of blocks that a cluster gets begins or ends with an IPv4-mapped address. -/
def EndsUnmapped (spec : DPUServiceIPAMSpec) : Prop :=
  ∀ g, gridOf spec = some g → ∀ i,
    (RunStart (freeBlocks spec g [] []) (quotaNumber spec) i →
      ¬ MappedAt g.start.family (g.start.val + i * g.blockSize)) ∧
    (RunEnd (freeBlocks spec g [] []) (quotaNumber spec) i →
      ¬ MappedAt g.start.family (g.start.val + (i + 1) * g.blockSize - 1))

/-- A calculator of an accepted specification reads what it returns if no range that it gives
begins or ends with an IPv4-mapped address. -/
theorem computes_iff (hvalid : validateConfiguration spec = []) {later : Calculator}
    (hl : Describes spec later) {new : List IPRange}
    (hn : List.Forall₂ m.grid.IsSpan (m.given []) new) :
    (∃ excluded, later.computeExclusions (toApiRanges new) = .ok excluded) ↔ ∀ s ∈ m.given [],
      ¬ MappedAt m.grid.start.family (m.grid.start.val + s.lo * m.grid.blockSize) ∧
      ¬ MappedAt m.grid.start.family (m.grid.start.val + (s.hi + 1) * m.grid.blockSize - 1) := by
  rw [hl.computeExclusions_ok_iff hvalid, ← readable_iff hn, ← parse_toApiRanges_iff]
  constructor
  · rintro ⟨allocs, hall⟩
    obtain rfl := parseIPRanges_toApiRanges hall
    exact hall
  · exact fun hp => ⟨new, hp⟩

/-- For every accepted configuration, the webhook and the allocator agree exactly if no range of
blocks that a cluster gets begins or ends with an IPv4-mapped address. The calculator is built in
any case, with the blocks that the webhook counted. -/
theorem webhook_allocator_agree_iff {spec : DPUServiceIPAMSpec}
    (hvalid : validateConfiguration spec = []) : Agrees spec ↔ EndsUnmapped spec := by
  obtain ⟨m₀, hm₀, hgr, hb, hqu⟩ := newCalculator_accepted hvalid
  have hnu := (newCalculator_quota hvalid hm₀).1
  have hf {c : ℕ} {m : Calculator}
      (h : Serving m₀ (freeBlocks spec m₀.grid [] []) c m) : m.grid = m₀.grid := by
    rw [h.handed.frame]
    rfl
  constructor
  · intro h g hg i
    cases hgr.symm.trans hg
    rw [← hnu]
    -- The cluster that gets the block reads its ranges back, so their ends are not mapped.
    have hen (hi : i ∈ freeBlocks spec m₀.grid [] []) :
        ∃ m c, Serving m₀ (freeBlocks spec m₀.grid [] []) c m ∧ Covers (m.given []) i ∧
          ∀ s ∈ m.given [],
            ¬ MappedAt m.grid.start.family (m.grid.start.val + s.lo * m.grid.blockSize) ∧
            ¬ MappedAt m.grid.start.family
              (m.grid.start.val + (s.hi + 1) * m.grid.blockSize - 1) := by
      obtain ⟨m, c, hm, hse, hco⟩ := exists_serving hvalid hm₀ hi
      have hgi : m.given [] ≠ [] := by
        intro hni
        simp [hni] at hco
      obtain ⟨new, hn, hc⟩ := allocates_of_given hse.handed.ready.sound hgi
      have hfr : Fresh m ⟨[], toApiRanges new⟩ := rfl
      exact ⟨m, c, hse, hco,
        (computes_iff hvalid hm.describes hn).mp (h.computes m _ _ hm hfr hc m hm)⟩
    constructor
    · intro hst
      obtain ⟨m, c, hse, hco, hall⟩ := hen hst.1
      obtain ⟨s, hs, rfl⟩ := hse.exists_lo hst hco
      rw [← hf hse]
      exact (hall s hs).1
    · intro he
      obtain ⟨m, c, hse, hco, hall⟩ := hen he.1
      obtain ⟨s, hs, rfl⟩ := hse.exists_hi he hco
      rw [← hf hse]
      exact (hall s hs).2
  · intro h
    refine ⟨⟨m₀, hm₀, hb, fun q hq => (hqu q hq).2⟩, ?_⟩
    intro m call m' hm hfr hc later hl
    obtain ⟨hgi, -, new, hn, hr⟩ := hc.of_fresh hm.describes.sound hfr
    rw [hr, computes_iff hvalid hl.describes hn]
    rcases ServesNew.serving hvalid hm₀ hm with hni | ⟨c, hse⟩
    · refine absurd ?_ hgi
      rw [Calculator.given, hni]
      rfl
    · intro s hs
      rw [hf hse]
      have hat := h m₀.grid hgr
      rw [← hnu] at hat
      exact ⟨(hat s.lo).1 (hse.runStart hs), (hat s.hi).2 (hse.runEnd hs)⟩

/-- An IPv4 network has no IPv4-mapped address. -/
theorem sampleNetwork_agrees : validateConfiguration sampleNetwork = [] ∧ Agrees sampleNetwork := by
  have hvalid : validateConfiguration sampleNetwork = [] := by decide +kernel
  have hv4 : (gridOf sampleNetwork).map (fun g => g.start.family) = some .v4 := by decide +kernel
  refine ⟨hvalid, (webhook_allocator_agree_iff hvalid).mpr fun g hg i => ?_⟩
  rw [hg] at hv4
  have hf : g.start.family = .v4 := some.inj hv4
  rw [hf]
  have hn (v : ℕ) : ¬ MappedAt .v4 v := fun hm => absurd hm.1 (by decide)
  exact ⟨fun _ => hn _, fun _ => hn _⟩

/-- An accepted network whose first cluster gets a range that the calculator cannot read. -/
theorem mapped_end_disagrees :
    validateConfiguration mappedObject.spec = [] ∧ ¬ Agrees mappedObject.spec := by
  refine ⟨by decide +kernel, fun h => ?_⟩
  have hr : ((newCalculator mappedObject.spec []).bind fun m =>
      (m.allocateClusterBlocks []).bind fun r =>
        .ok (r.1, (r.2.computeExclusions r.1).toOption)) =
      .ok ([⟨"::", "::ffff:255.255.255.255"⟩], none) := by decide +kernel
  obtain ⟨m, hm, hr⟩ := bind_eq_ok.mp hr
  obtain ⟨⟨recorded, m'⟩, hc, hf⟩ := bind_eq_ok.mp hr
  have hall : Allocates m ⟨[], recorded⟩ m' := hc
  have hs : ServesNew mappedObject.spec m := .start hm
  have hfr : Fresh m ⟨[], recorded⟩ := rfl
  obtain ⟨excluded, he⟩ :=
    h.computes m _ m' hs hfr hall m' (hs.next ⟨hfr, hall⟩)
  simp [he, Except.toOption] at hf

end DocaPlatform.IpamStatus
