import DocaPlatform.IpamAllocator

/-!
# Counting blocks and taking them in order

The count of allocatable blocks is additive over ranges that share no address and hold whole
blocks, and a call of `computeBlocksForCluster` takes the lowest available blocks, as many as the
cluster lacks.
-/
namespace DocaPlatform.IpamAllocator

open Netip Spans IpRange Runs List

section Grid

variable {g : BlockGrid}

/-- The range consists of blocks of the grid. -/
def BlockGrid.Aligned (g : BlockGrid) (r : IPRange) : Prop :=
  ∃ s : Span, s.hi < g.totalBlocks ∧ g.IsSpan s r

variable {l : List Span} {ranges : List IPRange} {r : IPRange}

theorem exists_isSpan_of_mem (h : List.Forall₂ g.IsSpan l ranges) (hr : r ∈ ranges) :
    ∃ s ∈ l, g.IsSpan s r := by
  induction h with
  | nil => simp at hr
  | @cons s q l ranges hs _ ih =>
    rcases mem_cons.mp hr with rfl | hr
    · exact ⟨s, by simp, hs⟩
    · obtain ⟨t, ht, htr⟩ := ih hr
      exact ⟨t, by simp [ht], htr⟩

theorem aligned_of_isSpan (h : List.Forall₂ g.IsSpan l ranges)
    (hl : ∀ s ∈ l, s.hi < g.totalBlocks) : ∀ r ∈ ranges, g.Aligned r := by
  intro r hr
  obtain ⟨s, hs, hsr⟩ := exists_isSpan_of_mem h hr
  exact ⟨s, hl s hs, hsr⟩

theorem separated_of_isSpan (h : List.Forall₂ g.IsSpan l ranges) (hl : Separated l) :
    Separated (spans ranges) := by
  induction h with
  | nil => exact .nil
  | @cons s r l ranges hs hre ih =>
    obtain ⟨hg, hl⟩ := pairwise_cons.mp hl
    refine pairwise_cons.mpr ⟨fun x hx => ?_, ih hl⟩
    obtain ⟨q, hq, rfl⟩ := mem_map.mp hx
    obtain ⟨t, ht, htq⟩ := exists_isSpan_of_mem hre hq
    have hp := g.blockSize_pos
    have hle : (s.hi + 1 + 1) * g.blockSize ≤ t.lo * g.blockSize :=
      Nat.mul_le_mul_right _ (hg t ht)
    rw [add_mul, one_mul] at hle
    have hr := hs.2.2
    have hq := htq.2.1
    rw [IPRange.span_hi, IPRange.span_lo, hs.1, htq.1]
    omega

/-- Merging keeps ranges on the grid, since it adds no ends. -/
theorem aligned_mergeRanges {l : List IPRange} (h : ∀ r ∈ l, g.Aligned r) (hr : r ∈ mergeRanges l) :
    g.Aligned r := by
  obtain ⟨q, hq, hqf, hql⟩ := exists_lo_of_mem_mergeRanges hr
  obtain ⟨q', hq', hqf', hqh⟩ := exists_hi_of_mem_mergeRanges hr
  obtain ⟨s, -, hsf, hs, -⟩ := h q hq
  obtain ⟨t, ht, -, -, hth⟩ := h q' hq'
  have hle : s.lo ≤ t.hi := by
    have hr := r.le
    have hlt : s.lo * g.blockSize < (t.hi + 1) * g.blockSize := by omega
    have := Nat.lt_of_mul_lt_mul_right hlt
    omega
  exact ⟨⟨s.lo, t.hi, hle⟩, ht, hqf.symm.trans hsf, hql.symm.trans hs,
    (congrArg (· + 1) hqh).symm.trans hth⟩

/-- The range holds a whole number of blocks. -/
def BlockGrid.Whole (g : BlockGrid) (r : IPRange) : Prop :=
  g.blockSize ∣ r.hi - r.lo + 1

theorem BlockGrid.IsSpan.size_eq {s : Span} (h : g.IsSpan s r) :
    r.hi - r.lo + 1 = s.size * g.blockSize := by
  obtain ⟨-, hlo, hhi⟩ := h
  have hle := r.le
  have hs := s.le
  have hsp : (s.hi + 1) * g.blockSize = s.lo * g.blockSize + s.size * g.blockSize := by
    rw [← add_mul, Span.size]
    congr 1
    omega
  omega

theorem BlockGrid.Aligned.whole (h : g.Aligned r) : g.Whole r := by
  obtain ⟨s, -, hs⟩ := h
  exact ⟨s.size, by rw [hs.size_eq, mul_comm]⟩

end Grid

/-! ## The count of allocatable blocks -/

namespace Calculator

variable {m : Calculator}

/-- The block of the grid has an address outside the exclusions. -/
def OpenBlock (m : Calculator) (i : ℕ) : Prop :=
  m.OpenAt m.grid.start.family (m.grid.start.val + i * m.grid.blockSize)

variable {i : ℕ} {r : IPRange} {l old new : List IPRange} {s : Span} {a : Addr}

theorem openBlock_iff :
    m.OpenBlock i ↔ ∃ a, m.grid.InBlock i a ∧ ¬ Covered m.mergedExclusions a := by
  refine exists_congr fun a => ?_
  unfold BlockGrid.InBlock
  rw [add_mul, one_mul, ← add_assoc, and_assoc, and_assoc]

/-- Two adjacent ranges count together what each of them counts, if the first one holds whole
blocks. -/
theorem countInRange_extend (hs : Separated (spans m.mergedExclusions)) {last : IPRange}
    (hf : last.family = r.family) (ha : last.hi + 1 = r.lo) (hw : m.grid.Whole last) :
    m.countInRange (last.extend r hf) = m.countInRange last + m.countInRange r := by
  classical
  obtain ⟨n, hn⟩ := hw
  have hl := last.le
  have hr := r.le
  have hp := m.grid.blockSize_pos
  have hhi : (last.extend r hf).hi = r.hi := max_eq_right (by omega)
  have hlen : r.hi - last.lo + 1 = m.grid.blockSize * n + (r.hi - r.lo + 1) := by omega
  have hsh : ∀ i, last.lo + (n + i) * m.grid.blockSize = r.lo + i * m.grid.blockSize := by
    intro i
    rw [add_mul, mul_comm n]
    omega
  rw [countInRange_eq_count hs, countInRange_eq_count hs, countInRange_eq_count hs, hhi,
    show (last.extend r hf).lo = last.lo from rfl,
    show (last.extend r hf).family = last.family from rfl, hlen, hn, Nat.mul_add_div hp,
    Nat.mul_div_cancel_left _ hp, Nat.count_add, Nat.cast_add]
  simp only [hsh, hf]

/-- Ranges in ascending order that share no address. -/
def Ascending (l : List IPRange) : Prop :=
  l.Pairwise fun r s => r.span.hi < s.span.lo

variable (hse : Separated (spans m.mergedExclusions))

include hse in
/-- The merge loop keeps the count of ascending ranges of whole blocks. -/
theorem sum_countInRange_mergeLoop {last : IPRange}
    {rs : List IPRange} (h : Ascending (last :: rs)) (hw : ∀ r ∈ last :: rs, m.grid.Whole r) :
    ((mergeLoop last rs).map m.countInRange).sum = ((last :: rs).map m.countInRange).sum := by
  induction rs generalizing last with
  | nil => rfl
  | cons r rs ih =>
    obtain ⟨hl, hrs⟩ := pairwise_cons.mp h
    have hlt := hl r (by simp)
    have hwr := hw r (by simp)
    rw [mergeLoop]
    by_cases ht : last.overlaps r ∨ last.adjacentTo r
    · rw [dif_pos ht]
      have hf : last.family = r.family := ht.elim And.left And.left
      have hle := (touches_iff (by have := last.span.le; omega)).mp ht
      rw [IPRange.span_hi, IPRange.span_lo, hf] at hlt hle
      have ha : last.hi + 1 = r.lo := by omega
      have hhi : (last.extend r hf).hi = r.hi := max_eq_right (by have := r.le; omega)
      have has : Ascending (last.extend r hf :: rs) := by
        refine pairwise_cons.mpr ⟨fun s hs => ?_, (pairwise_cons.mp hrs).2⟩
        have hr := (pairwise_cons.mp hrs).1 s hs
        rw [IPRange.span_hi] at hr ⊢
        rw [hhi, show (last.extend r hf).family = r.family from hf]
        exact hr
      have hwhole' : ∀ s ∈ last.extend r hf :: rs, m.grid.Whole s := by
        intro s hs
        rcases mem_cons.mp hs with rfl | hs
        · have hsu := Nat.dvd_add (hw last (by simp)) hwr
          unfold BlockGrid.Whole
          rw [hhi, show (last.extend r hf).lo = last.lo from rfl]
          have := last.le
          have := r.le
          rwa [show r.hi - last.lo + 1 = last.hi - last.lo + 1 + (r.hi - r.lo + 1) by omega]
        · exact hw s (by simp [hs])
      rw [ih has hwhole', map_cons, sum_cons,
        countInRange_extend hse hf ha (hw last (by simp))]
      simp [add_assoc]
    · rw [dif_neg ht, map_cons, sum_cons, map_cons, sum_cons,
        ih hrs fun s hs => hw s (by simp [mem_cons.mp hs])]

/-- The ranges share no address. -/
def Apart (r s : IPRange) : Prop :=
  ∀ a, a ∈ r → a ∉ s

theorem ascending_sortRanges (h : l.Pairwise Apart) : Ascending (sortRanges l) := by
  have hp : (sortRanges l).Perm l := perm_insertionSort _ _
  have hsy : ∀ {r s : IPRange}, Apart r s → Apart s r := fun h a ha ha' => h a ha' ha
  have hap : (sortRanges l).Pairwise Apart := (hp.pairwise_iff hsy).mpr h
  have hs := pairwise_map.mp (sortedByLo_sortRanges l)
  refine (hap.and hs).imp ?_
  rintro r s ⟨hrs, hle⟩
  by_contra hn
  have hst : s.start ∈ s := ⟨rfl, le_rfl, s.le⟩
  refine hrs s.start ?_ hst
  have hk : key s.start = s.span.lo := key_eq s.start
  rw [← mem_span_iff, hk, mem_span]
  exact ⟨hle, by omega⟩

include hse in
theorem countAllocatableBlocks_of_apart (h : l.Pairwise Apart) (hw : ∀ r ∈ l, m.grid.Whole r) :
    m.countAllocatableBlocks l = (l.map m.countInRange).sum := by
  have hp : (sortRanges l).Perm l := perm_insertionSort _ _
  have ha := ascending_sortRanges h
  have hwhole' : ∀ r ∈ sortRanges l, m.grid.Whole r := fun r hr => hw r (hp.mem_iff.mp hr)
  rw [← (hp.map m.countInRange).sum_eq]
  unfold countAllocatableBlocks mergeRanges
  cases hs : sortRanges l with
  | nil => rfl
  | cons r rs =>
    rw [hs] at ha hwhole'
    exact sum_countInRange_mergeLoop hse ha hwhole'

theorem apart_of_separated (h : Separated (spans l)) : l.Pairwise Apart := by
  refine (pairwise_map.mp h).imp ?_
  intro r s hrs a har has
  rw [← mem_span_iff, mem_span] at har has
  omega

include hse in
/-- Blocks that are added to an allocation of whole blocks add their own count to it. -/
theorem countAllocatableBlocks_append
    (hold : ∀ r ∈ mergeRanges old, m.grid.Whole r) (hn : ∀ r ∈ new, m.grid.Whole r)
    (ha : new.Pairwise Apart) (hd : ∀ a, Covered old a → ¬ Covered new a) :
    m.countAllocatableBlocks (old ++ new) =
      m.countAllocatableBlocks old + (new.map m.countInRange).sum := by
  have hsp : m.countAllocatableBlocks (old ++ new) =
      m.countAllocatableBlocks (mergeRanges old ++ new) := by
    unfold countAllocatableBlocks
    rw [mergeRanges_append_left]
  have hp : (mergeRanges old ++ new).Pairwise Apart := by
    refine pairwise_append.mpr ⟨apart_of_separated (separated_mergeRanges old), ha, ?_⟩
    intro r hr s hs a har has
    exact hd a (covered_mergeRanges.mp ⟨r, hr, har⟩) ⟨s, hs, has⟩
  rw [hsp, countAllocatableBlocks_of_apart hse hp fun r hr =>
    (mem_append.mp hr).elim (hold r) (hn r), map_append, sum_append]
  rfl

include hse in
theorem countInRange_of_isSpan
    (hs : m.grid.IsSpan s r) (ho : ∀ i, i ∈ s → m.OpenBlock i) : m.countInRange r = s.size := by
  classical
  have hall : ∀ i < s.size, m.OpenAt r.family (r.lo + i * m.grid.blockSize) := by
    intro i hi
    have := s.le
    have hb := ho (s.lo + i) ⟨by omega, by unfold Span.size at hi; omega⟩
    unfold OpenBlock at hb
    rwa [add_mul, ← add_assoc, ← hs.1, ← hs.2.1] at hb
  rw [countInRange_eq_count hse, hs.size_eq, Nat.mul_div_cancel _ m.grid.blockSize_pos,
    Nat.count_eq_card_filter_range, Finset.filter_true_of_mem fun i hi =>
      hall i (Finset.mem_range.mp hi), Finset.card_range]

include hse in
theorem countInRange_pos_of_isSpan
    (hs : m.grid.IsSpan s r) (hi : i ∈ s) (ho : m.OpenBlock i) : 0 < m.countInRange r := by
  obtain ⟨hf, hlo, hhi⟩ := hs
  obtain ⟨hil, hih⟩ := hi
  obtain ⟨j, rfl⟩ := Nat.exists_eq_add_of_le hil
  have hle : (s.lo + j + 1) * m.grid.blockSize ≤ (s.hi + 1) * m.grid.blockSize :=
    Nat.mul_le_mul_right _ (by omega)
  have hsp : (s.lo + j + 1) * m.grid.blockSize =
      s.lo * m.grid.blockSize + (j + 1) * m.grid.blockSize := by
    rw [← add_mul, add_assoc]
  refine (countInRange_pos_iff hse).mpr ⟨j, by omega, ?_⟩
  unfold OpenBlock at ho
  rwa [add_mul, ← add_assoc, ← hf, ← hlo] at ho

include hse in
theorem sum_countInRange_of_isSpan {l : List Span}
    {ranges : List IPRange} (h : List.Forall₂ m.grid.IsSpan l ranges)
    (ho : ∀ i, Covers l i → m.OpenBlock i) : (ranges.map m.countInRange).sum = size l := by
  induction h with
  | nil => rfl
  | @cons s r l ranges hs _ ih =>
    rw [map_cons, sum_cons, size_cons, Nat.cast_add,
      countInRange_of_isSpan hse hs fun i hi => ho i (covers_cons.mpr (.inl hi)),
      ih fun i hi => ho i (covers_cons.mpr (.inr hi))]

/-! ## One turn -/

/-- The calculator without the `n` lowest available blocks. -/
def withoutLowest (m : Calculator) (n : ℕ) : Calculator :=
  { m with availableBlockRanges := (takeBlockIndices m.availableBlockRanges n).2 }

/-- A consume of the `n` lowest available blocks: it fails, and changes nothing, exactly if that
is no block. -/
def Serves (m : Calculator) (n : ℕ) (x : Except String (List IPRange) × Calculator) : Prop :=
  ((takeBlockIndices m.availableBlockRanges n).1 = [] ∧ ∃ e, x = (.error e, m)) ∨
    ((takeBlockIndices m.availableBlockRanges n).1 ≠ [] ∧
      ∃ new, List.Forall₂ m.grid.IsSpan (takeBlockIndices m.availableBlockRanges n).1 new ∧
        x = (.ok new, m.withoutLowest n))

theorem Sound.taken_lt (hm : m.Sound) {n : ℕ}
    (hs : s ∈ (takeBlockIndices m.availableBlockRanges n).1) : s.hi < m.grid.totalBlocks :=
  hm.lt_of_covers (covers_take.mpr (.inl ⟨s, hs, s.le, le_rfl⟩))

theorem consumeBlocks_serves (hm : m.Sound) (count : ℤ) :
    m.Serves count.toNat (m.consumeBlocks count) := by
  unfold consumeBlocks
  by_cases hc : count < 1
  · rw [if_pos hc]
    have hz : count.toNat = 0 := by omega
    exact .inl ⟨by rw [hz, takeBlockIndices, Spans.take_zero], _, rfl⟩
  · rw [if_neg hc]
    dsimp only
    by_cases he : blockIndexRangeCount (takeBlockIndices m.availableBlockRanges count.toNat).1 = 0
    · rw [if_pos he]
      exact .inl ⟨size_eq_zero.mp he, _, rfl⟩
    · rw [if_neg he]
      obtain ⟨new, hn, hsp⟩ := blockIndicesToIPRanges_spec fun s hs =>
        hm.taken_lt (n := count.toNat) hs
      exact .inr ⟨fun h => he (size_eq_zero.mpr h), new, hsp, by rw [hn]; rfl⟩

theorem consumeAllBlocks_serves (hm : m.Sound) :
    m.Serves (size m.availableBlockRanges) m.consumeAllBlocks := by
  have hall : takeBlockIndices m.availableBlockRanges (size m.availableBlockRanges) =
      (m.availableBlockRanges, []) := take_size _
  unfold consumeAllBlocks Serves withoutLowest
  rw [hall]
  by_cases he : m.availableBlockRanges = []
  · rw [if_pos he]
    exact .inl ⟨he, _, rfl⟩
  · rw [if_neg he]
    obtain ⟨new, hn, hs⟩ := blockIndicesToIPRanges_spec hm.inGrid
    exact .inr ⟨he, new, hs, by rw [hn]⟩

/-- The part of the old ranges that a cluster keeps: all or nothing. -/
def keptRanges (m : Calculator) (old : List IPRange) : List IPRange :=
  if m.Keeps old then old else []

/-- The allocatable blocks of what a cluster keeps. -/
def keptCount (m : Calculator) (old : List IPRange) : ℤ :=
  if m.Keeps old then m.countAllocatableBlocks old else 0

/-- How many blocks a cluster asks for. -/
def lacks (m : Calculator) (old : List IPRange) : ℕ :=
  if m.allocateAllRemainingBlocks then size m.availableBlockRanges
  else (m.targetBlocksPerDPUCluster - m.keptCount old).toNat

/-- The blocks that a cluster gets. -/
def given (m : Calculator) (old : List IPRange) : List Span :=
  (takeBlockIndices m.availableBlockRanges (m.lacks old)).1

def afterTurn (m : Calculator) (old : List IPRange) : Calculator :=
  m.withoutLowest (m.lacks old)

theorem withoutLowest_of_taken_nil {n : ℕ}
    (h : (takeBlockIndices m.availableBlockRanges n).1 = []) : m.withoutLowest n = m := by
  have hr : (takeBlockIndices m.availableBlockRanges n).2 = m.availableBlockRanges := by
    by_cases hz : n = 0
    · rw [hz, takeBlockIndices, Spans.take_zero]
    · have hs := size_take n m.availableBlockRanges
      rw [takeBlockIndices] at h
      rw [h, size_nil] at hs
      have he : m.availableBlockRanges = [] := size_eq_zero.mp (by omega)
      rw [he]
      rfl
  unfold withoutLowest
  rw [hr]

/-- A cluster keeps its old ranges or loses them, and gets the lowest available blocks as far as it
lacks blocks; the turn fails exactly if it would end without ranges. -/
theorem computeBlocksForCluster_cases (hm : m.Sound) (old : List IPRange) :
    ((m.Keeps old ∨ m.given old ≠ []) ∧
      ∃ new, List.Forall₂ m.grid.IsSpan (m.given old) new ∧
        m.computeBlocksForCluster old = (.ok (m.keptRanges old ++ new), m.afterTurn old)) ∨
    (¬ m.Keeps old ∧ m.given old = [] ∧ ∃ e, m.computeBlocksForCluster old = (.error e, m)) := by
  by_cases hk : m.Keeps old
  · left
    refine ⟨.inl hk, ?_⟩
    have hex : ∀ {n x}, m.Serves n x → ∃ new, List.Forall₂ m.grid.IsSpan
        (takeBlockIndices m.availableBlockRanges n).1 new ∧
          extendAllocation old x = (.ok (old ++ new), m.withoutLowest n) := by
      rintro n x (⟨hn, e, rfl⟩ | ⟨-, new, hsp, rfl⟩)
      · refine ⟨[], by rw [hn]; exact .nil, ?_⟩
        rw [withoutLowest_of_taken_nil hn, append_nil]
        rfl
      · exact ⟨new, hsp, rfl⟩
    have hc : m.keptCount old = m.countAllocatableBlocks old := if_pos hk
    unfold computeBlocksForCluster given afterTurn lacks keptRanges
    rw [if_pos hk, if_pos hk, hc]
    dsimp only
    by_cases hall : m.allocateAllRemainingBlocks
    · rw [if_pos hall, if_pos hall]
      exact hex (consumeAllBlocks_serves hm)
    · rw [if_neg hall, if_neg hall]
      by_cases hen : m.targetBlocksPerDPUCluster ≤ m.countAllocatableBlocks old
      · have hz : (m.targetBlocksPerDPUCluster - m.countAllocatableBlocks old).toNat = 0 := by
          omega
        have hn : (takeBlockIndices m.availableBlockRanges 0).1 = [] := by
          rw [takeBlockIndices, Spans.take_zero]
        rw [if_pos hen, hz]
        refine ⟨[], by rw [hn]; exact .nil, ?_⟩
        rw [withoutLowest_of_taken_nil hn, append_nil]
      · rw [if_neg hen]
        exact hex (consumeBlocks_serves hm _)
  · have hc : m.keptCount old = 0 := if_neg hk
    have hs : m.Serves (m.lacks old) (m.computeBlocksForCluster old) := by
      unfold computeBlocksForCluster lacks
      rw [if_neg hk, hc, sub_zero]
      by_cases hall : m.allocateAllRemainingBlocks
      · rw [if_pos hall, if_pos hall]
        exact consumeAllBlocks_serves hm
      · rw [if_neg hall, if_neg hall]
        exact consumeBlocks_serves hm _
    rcases hs with ⟨hn, he⟩ | ⟨hne, new, hsp, heq⟩
    · exact .inr ⟨hk, hn, he⟩
    · refine .inl ⟨.inr hne, new, hsp, ?_⟩
      rw [heq, keptRanges, if_neg hk, nil_append]
      rfl

theorem Sound.isIn_parent (hm : m.Sound) (h : m.grid.Aligned r) : r.isIn m.parentRange := by
  obtain ⟨s, hlt, hf, hlo, hhi⟩ := h
  have hfi := hm.first
  have hl := hm.last
  have hle := m.grid.mul_le hlt
  rw [add_mul, one_mul] at hhi
  exact ⟨hf.trans hm.family, by omega, by omega⟩

def withAvailable (m : Calculator) (available : List Span) : Calculator :=
  { m with availableBlockRanges := available }

/-- What every calculator in use meets: the exclusions are merged and only blocks with an address
outside them are handed out. -/
structure Ready (m : Calculator) : Prop where
  sound : m.Sound
  merged : Separated (spans m.mergedExclusions)
  isOpen : ∀ i, Covers m.availableBlockRanges i → m.OpenBlock i

theorem covers_afterTurn (hm : m.Sound) :
    Covers (m.afterTurn old).availableBlockRanges i ↔
      Covers m.availableBlockRanges i ∧ ¬ Covers (m.given old) i := by
  have hg : Covers (m.given old) i ↔ _ := covers_take_fst_iff hm.separated
  have hr : Covers (m.afterTurn old).availableBlockRanges i ↔ _ :=
    covers_take_snd_iff hm.separated
  rw [hg, hr]
  constructor
  · rintro ⟨hi, hle⟩
    exact ⟨hi, fun h => absurd h.2 (by omega)⟩
  · rintro ⟨hi, hn⟩
    exact ⟨hi, by by_contra hlt; exact hn ⟨hi, by omega⟩⟩

theorem covers_of_given (h : Covers (m.given old) i) : Covers m.availableBlockRanges i :=
  covers_take.mpr (.inl h)

theorem Sound.separated_given (hm : m.Sound) (old : List IPRange) : Separated (m.given old) :=
  hm.separated.take_fst _

theorem Ready.afterTurn (hm : m.Ready) (old : List IPRange) : (m.afterTurn old).Ready where
  sound := by
    refine ⟨hm.sound.family, hm.sound.first, hm.sound.last, hm.sound.separated.take_snd _, ?_⟩
    intro s hs
    exact hm.sound.lt_of_covers (covers_take.mpr (.inr ⟨s, hs, s.le, le_rfl⟩))
  merged := hm.merged
  isOpen := fun i hi => hm.isOpen i ((covers_afterTurn hm.sound).mp hi).1

theorem keptCount_eq (old : List IPRange) :
    m.keptCount old = m.countAllocatableBlocks (m.keptRanges old) := by
  unfold keptCount keptRanges
  by_cases hk : m.Keeps old
  · rw [if_pos hk, if_pos hk]
  · rw [if_neg hk, if_neg hk]
    rfl

theorem covered_of_keptRanges (h : Covered (m.keptRanges old) a) : Covered old a := by
  unfold keptRanges at h
  split_ifs at h
  · exact h
  · simp [Covered] at h

theorem covered_turn (hn : List.Forall₂ m.grid.IsSpan (m.given old) new) :
    Covered (mergeRanges (m.keptRanges old ++ new)) a ↔ Covered (m.keptRanges old) a ∨
      ∃ i, Covers (m.given old) i ∧ m.grid.InBlock i a := by
  rw [covered_mergeRanges, covered_append, covered_of_isSpan hn]

/-- A cluster whose old ranges hold whole blocks ends with the blocks it kept and the blocks it
got. -/
theorem countAllocatableBlocks_turn (hm : m.Ready)
    (hn : List.Forall₂ m.grid.IsSpan (m.given old) new)
    (hw : ∀ r ∈ mergeRanges (m.keptRanges old), m.grid.Whole r)
    (hf : ∀ a, Covered old a → ∀ i, Covers m.availableBlockRanges i → ¬ m.grid.InBlock i a) :
    m.countAllocatableBlocks (mergeRanges (m.keptRanges old ++ new)) =
      m.keptCount old + size (m.given old) := by
  have hal := aligned_of_isSpan hn fun s hs => hm.sound.taken_lt hs
  have hid : m.countAllocatableBlocks (mergeRanges (m.keptRanges old ++ new)) =
      m.countAllocatableBlocks (m.keptRanges old ++ new) := by
    unfold countAllocatableBlocks
    rw [mergeRanges_of_separated (separated_mergeRanges _)]
  rw [hid, keptCount_eq, countAllocatableBlocks_append hm.merged hw
    (fun r hr => (hal r hr).whole)
    (apart_of_separated (separated_of_isSpan hn (hm.sound.separated.take_fst _))),
    sum_countInRange_of_isSpan hm.merged hn fun i hi => hm.isOpen i (covers_of_given hi)]
  intro a ha hc
  obtain ⟨i, hi, hia⟩ := (covered_of_isSpan hn).mp hc
  exact hf a (covered_of_keptRanges ha) i (covers_of_given hi) hia

theorem not_openBlock_of_not_keeps (hm : m.Ready) (hold : ∀ r ∈ old, m.grid.Aligned r)
    (hk : ¬ m.Keeps old) (ha : Covered old a) (hi : m.grid.InBlock i a) : ¬ m.OpenBlock i := by
  intro ho
  apply hk
  obtain ⟨r, hr, har⟩ := covered_mergeRanges.mpr ha
  obtain ⟨s, -, hs⟩ := aligned_mergeRanges hold hr
  obtain ⟨j, hj, hja⟩ := hs.mem_iff.mp har
  rw [m.grid.inBlock_unique hi hja] at ho
  refine ⟨?_, fun q hq => hm.sound.isIn_parent (hold q hq),
    countAllocatableBlocks_pos_iff.mpr ⟨r, hr, countInRange_pos_of_isSpan hm.merged hs hj ho⟩⟩
  rintro rfl
  simp [Covered] at ha

theorem afterTurn_exhausted (hq : m.allocateAllRemainingBlocks = false)
    (h : m.keptCount old + size (m.given old) < m.targetBlocksPerDPUCluster) :
    (m.afterTurn old).availableBlockRanges = [] := by
  have hl : m.lacks old = (m.targetBlocksPerDPUCluster - m.keptCount old).toNat := by
    rw [lacks, hq]
    rfl
  have hg : size (m.given old) = min (m.lacks old) (size m.availableBlockRanges) :=
    size_take _ _
  have hr : size (m.afterTurn old).availableBlockRanges =
      size m.availableBlockRanges - m.lacks old := size_take_snd _ _
  exact size_eq_zero.mp (by omega)

theorem afterTurn_of_all (hall : m.allocateAllRemainingBlocks = true) :
    (m.afterTurn old).availableBlockRanges = [] := by
  have hl : m.lacks old = size m.availableBlockRanges := by rw [lacks, if_pos hall]
  have hr : size (m.afterTurn old).availableBlockRanges =
      size m.availableBlockRanges - m.lacks old := size_take_snd _ _
  exact size_eq_zero.mp (by omega)

theorem allocateClusterBlocks_turn (hm : m.Sound) {existing recorded : List ApiIPRange}
    {m' : Calculator} (h : m.allocateClusterBlocks existing = .ok (recorded, m')) :
    ∃ old new, parseIPRanges existing = .ok old ∧ (m.Keeps old ∨ m.given old ≠ []) ∧
      List.Forall₂ m.grid.IsSpan (m.given old) new ∧
      recorded = toApiRanges (mergeRanges (m.keptRanges old ++ new)) ∧ m' = m.afterTurn old := by
  unfold allocateClusterBlocks at h
  simp only [bind_eq_ok, Except.ok.injEq, Prod.mk.injEq] at h
  obtain ⟨old, hold, blocks, hb, hr, hm'⟩ := h
  rcases computeBlocksForCluster_cases hm old with ⟨hs, new, hn, heq⟩ | ⟨-, -, e, heq⟩
  · rw [heq] at hb hm'
    cases hb
    exact ⟨old, new, hold, hs, hn, hr.symm, hm'.symm⟩
  · rw [heq] at hb
    cases hb

/-- `AllocateClusterBlocks` succeeds on ranges that it can read if the cluster keeps them or gets
a block. -/
theorem allocateClusterBlocks_ok (hm : m.Sound) {existing : List ApiIPRange}
    (hold : parseIPRanges existing = .ok old) (hs : m.Keeps old ∨ m.given old ≠ []) :
    ∃ new, List.Forall₂ m.grid.IsSpan (m.given old) new ∧
      m.allocateClusterBlocks existing =
        .ok (toApiRanges (mergeRanges (m.keptRanges old ++ new)), m.afterTurn old) := by
  rcases computeBlocksForCluster_cases hm old with ⟨-, new, hn, heq⟩ | ⟨hk, hni, -⟩
  · refine ⟨new, hn, ?_⟩
    unfold allocateClusterBlocks
    simp only [bind_eq_ok, Except.ok.injEq, Prod.mk.injEq]
    exact ⟨old, hold, _, by rw [heq], rfl, by rw [heq]⟩
  · exact absurd hs (not_or.mpr ⟨hk, fun h => h hni⟩)

end Calculator

theorem Built.ready {network : String} {blockSizePerNode : ℤ} {excludeRanges : List ApiIPRange}
    {statics : List (String × String)} {existing : List IPRange} {m : Calculator}
    (h : Built network blockSizePerNode excludeRanges statics existing m) : m.Ready := by
  obtain ⟨parsed, -, hm⟩ := h.exclusions
  have hs : Separated (spans m.mergedExclusions) := hm ▸ separated_mergeRanges parsed
  refine ⟨h.sound, hs, fun i hi => ?_⟩
  obtain ⟨hlt, ho, -⟩ := (h.available i).mp hi
  rw [Calculator.openBlock_iff]
  by_contra hn
  push Not at hn
  obtain ⟨r, hr, hsu⟩ := (block_subset_iff_covered m.grid hs hlt).mpr hn
  obtain ⟨a, ha, har⟩ := ho r hr
  exact har (hsu a ha)

end DocaPlatform.IpamAllocator
