import DocaPlatform.Netip
import DocaPlatform.Spans

/-!
# Address ranges

The range arithmetic of the `iputils` package: merging, subtracting and excluding contiguous
ranges of IPv4 and IPv6 addresses. Addresses are placed on one number line, IPv4 below IPv6 with
a gap between the families, so that every list operation is the operation on spans of numbers.
-/
namespace DocaPlatform.IpRange

open Netip Spans List

/-- `IPRange`: both ends belong to one family and are in order. -/
@[ext]
structure IPRange where
  family : Family
  lo : ℕ
  hi : ℕ
  le : lo ≤ hi
  lt : hi < 2 ^ family.bitLen
  deriving Repr

instance : DecidableEq IPRange := fun _ _ => decidable_of_iff _ IPRange.ext_iff.symm

namespace IPRange

/-- The `Start` field. -/
def start (r : IPRange) : Addr :=
  ⟨r.family, r.lo, r.le.trans_lt r.lt⟩

/-- The `End` field. -/
def stop (r : IPRange) : Addr :=
  ⟨r.family, r.hi, r.lt⟩

instance : Membership Addr IPRange :=
  ⟨fun r a => a.family = r.family ∧ r.lo ≤ a.val ∧ a.val ≤ r.hi⟩

theorem mem_def {a : Addr} {r : IPRange} :
    a ∈ r ↔ a.family = r.family ∧ r.lo ≤ a.val ∧ a.val ≤ r.hi :=
  Iff.rfl

instance (a : Addr) (r : IPRange) : Decidable (a ∈ r) :=
  inferInstanceAs (Decidable (a.family = r.family ∧ r.lo ≤ a.val ∧ a.val ≤ r.hi))

/-- `IPRange.In`. -/
def isIn (r other : IPRange) : Prop :=
  r.family = other.family ∧ other.lo ≤ r.lo ∧ r.hi ≤ other.hi

instance (r other : IPRange) : Decidable (r.isIn other) :=
  inferInstanceAs (Decidable (_ ∧ _ ∧ _))

/-- `IPRange.Overlaps`. -/
def overlaps (r other : IPRange) : Prop :=
  r.family = other.family ∧ r.lo ≤ other.hi ∧ other.lo ≤ r.hi

instance (r other : IPRange) : Decidable (r.overlaps other) :=
  inferInstanceAs (Decidable (_ ∧ _ ∧ _))

/-- The `adjacent` test of `MergeRanges`: the address after the end of `last` exists and is not
before the start of `r`. -/
def adjacentTo (last r : IPRange) : Prop :=
  last.family = r.family ∧ last.hi + 1 < 2 ^ last.family.bitLen ∧ r.lo ≤ last.hi + 1

instance (last r : IPRange) : Decidable (last.adjacentTo r) :=
  inferInstanceAs (Decidable (_ ∧ _ ∧ _))

/-- The range with its end moved to the end of `r` if that is later. -/
def extend (last r : IPRange) (h : last.family = r.family) : IPRange :=
  ⟨last.family, last.lo, max last.hi r.hi, last.le.trans (le_max_left _ _),
    max_lt last.lt (h ▸ r.lt)⟩

end IPRange

def prefixAddressCount (addressBits prefixLen : ℤ) : ℕ :=
  if prefixLen < 0 ∨ addressBits < prefixLen then 0 else 2 ^ (addressBits - prefixLen).toNat

/-- `Add`; the offset of every caller is nonnegative. -/
def add (a : Addr) (offset : ℕ) : Option Addr :=
  if h : a.val + offset < 2 ^ a.family.bitLen then some ⟨a.family, a.val + offset, h⟩ else none

def distance (start stop : Addr) : Option ℕ :=
  if start.family = stop.family ∧ start.val ≤ stop.val then some (stop.val - start.val) else none

/-- `ParseAddr`, which refuses IPv4-mapped IPv6 addresses. -/
def parseAddr (s : String) : Except String Addr :=
  match Netip.parseAddr s with
  | .error e => .error e
  | .ok a =>
    if a.is4In6 then .error ("IPv4-mapped IPv6 address " ++ quote s ++ " is not supported")
    else .ok a

/-- `RangeFromPrefix`. The masked address leaves the host bits free, so the overflow error of the
source has no input. -/
def rangeFromPrefix (p : Prefix) : IPRange where
  family := p.addr.family
  lo := p.addr.val / 2 ^ p.hostBits * 2 ^ p.hostBits
  hi := p.addr.val / 2 ^ p.hostBits * 2 ^ p.hostBits + (2 ^ p.hostBits - 1)
  le := Nat.le_add_right _ _
  lt := by
    have hpos : 0 < 2 ^ p.hostBits := Nat.two_pow_pos _
    have hsplit : 2 ^ p.addr.family.bitLen = 2 ^ p.bits * 2 ^ p.hostBits := by
      rw [← pow_add, Prefix.hostBits, Nat.add_sub_cancel' p.le]
    have hdiv : p.addr.val / 2 ^ p.hostBits < 2 ^ p.bits := by
      rw [Nat.div_lt_iff_lt_mul hpos, ← hsplit]
      exact p.addr.lt
    calc _ < (p.addr.val / 2 ^ p.hostBits + 1) * 2 ^ p.hostBits := by
          rw [add_mul, one_mul]
          omega
      _ ≤ 2 ^ p.bits * 2 ^ p.hostBits := Nat.mul_le_mul_right _ hdiv
      _ = _ := hsplit.symm

/-- The order of `SortRanges`: family, start, end. -/
def rangeLe (a b : IPRange) : Prop :=
  if a.family.bitLen ≠ b.family.bitLen then a.family.bitLen ≤ b.family.bitLen
  else if a.lo ≠ b.lo then a.lo ≤ b.lo
  else a.hi ≤ b.hi

instance : DecidableRel rangeLe := fun a b => by
  unfold rangeLe
  infer_instance

def sortRanges (ranges : List IPRange) : List IPRange :=
  ranges.insertionSort rangeLe

/-- The loop of `MergeRanges`, with the last merged range apart. -/
def mergeLoop (last : IPRange) : List IPRange → List IPRange
  | [] => [last]
  | r :: rs =>
    if h : last.overlaps r ∨ last.adjacentTo r then
      mergeLoop (last.extend r (h.elim And.left And.left)) rs
    else last :: mergeLoop r rs

def mergeRanges (ranges : List IPRange) : List IPRange :=
  match sortRanges ranges with
  | [] => []
  | r :: rs => mergeLoop r rs

/-- What `SubtractRange` keeps of one range. Under the overlap the predecessor of `sub.Start` and
the successor of `sub.End` are valid addresses. -/
def subtractFrom (existing sub : IPRange) : List IPRange :=
  if h : existing.overlaps sub then
    (if hlo : existing.lo < sub.lo then
      [⟨existing.family, existing.lo, sub.lo - 1, by omega, by
        have := existing.lt
        have := h.2.2
        omega⟩]
    else []) ++
    (if hhi : sub.hi < existing.hi then
      [⟨existing.family, sub.hi + 1, existing.hi, hhi, existing.lt⟩]
    else [])
  else [existing]

def subtractRange (ranges : List IPRange) (sub : IPRange) : List IPRange :=
  ranges.flatMap (subtractFrom · sub)

/-- The loop of `ExcludeRanges`, which stops once nothing remains. -/
def excludeLoop (remaining : List IPRange) : List IPRange → List IPRange
  | [] => remaining
  | a :: as =>
    let rest := subtractRange remaining a
    if rest = [] then [] else excludeLoop rest as

def excludeRanges (parent : IPRange) (allocated : List IPRange) : List IPRange :=
  excludeLoop [parent] allocated

/-- The place of an address on the number line. No number is the place of the successor of the
last IPv4 address, so ranges of different families never touch. -/
def key (a : Addr) : ℕ :=
  match a.family with
  | .v4 => a.val
  | .v6 => 2 ^ 32 + 1 + a.val

/-- Where the addresses of a family start on the number line. -/
def base : Family → ℕ
  | .v4 => 0
  | .v6 => 2 ^ 32 + 1

theorem key_eq (a : Addr) : key a = base a.family + a.val := by
  obtain ⟨family, v, hv⟩ := a
  cases family <;> simp [key, base]

/-- The range as a span of the number line. -/
def IPRange.span (r : IPRange) : Span :=
  ⟨base r.family + r.lo, base r.family + r.hi, Nat.add_le_add_left r.le _⟩

theorem IPRange.span_lo (r : IPRange) : r.span.lo = base r.family + r.lo := rfl

theorem IPRange.span_hi (r : IPRange) : r.span.hi = base r.family + r.hi := rfl

variable {r last : IPRange} {a : Addr} {l : List IPRange}

theorem span_apart {s : IPRange} (h : r.family ≠ s.family) :
    r.span.hi + 1 < s.span.lo ∨ s.span.hi + 1 < r.span.lo := by
  have hr := r.lt
  have hs := s.lt
  simp only [IPRange.span_lo, IPRange.span_hi]
  cases hrf : r.family <;> cases hsf : s.family <;>
    simp_all only [Family.bitLen, base, ne_eq, not_true_eq_false] <;> omega

theorem mem_span_iff : key a ∈ r.span ↔ a ∈ r := by
  rw [mem_span, IPRange.mem_def, key_eq, IPRange.span_lo, IPRange.span_hi]
  by_cases hf : a.family = r.family
  · simp only [hf, true_and]
    omega
  · -- The singleton range of `a` lies in the other family.
    have ha := span_apart (r := ⟨a.family, a.val, a.val, le_rfl, a.lt⟩) (s := r) hf
    simp only [IPRange.span_lo, IPRange.span_hi] at ha
    have := r.le
    simp only [hf, false_and, iff_false]
    omega

def Covered (ranges : List IPRange) (a : Addr) : Prop :=
  ∃ r ∈ ranges, a ∈ r

instance (ranges : List IPRange) (a : Addr) : Decidable (Covered ranges a) :=
  inferInstanceAs (Decidable (∃ r ∈ ranges, a ∈ r))

def spans (ranges : List IPRange) : List Span :=
  ranges.map IPRange.span

theorem covered_iff {ranges : List IPRange} : Covered ranges a ↔ Covers (spans ranges) (key a) := by
  simp [Covered, Covers, spans, mem_span_iff]

theorem covered_append {l' : List IPRange} : Covered (l ++ l') a ↔ Covered l a ∨ Covered l' a := by
  simp [Covered, or_and_right, exists_or]

/-! ## The operations on the number line -/

/-- The merge condition of the source is the touching of the two spans. -/
theorem touches_iff (hlo : last.span.lo ≤ r.span.lo) :
    (last.overlaps r ∨ last.adjacentTo r) ↔ r.span.lo ≤ last.span.hi + 1 := by
  have hr := r.lt
  have hrl := r.le
  by_cases hf : last.family = r.family
  · simp only [IPRange.span_lo, IPRange.span_hi, hf] at hlo ⊢
    simp only [IPRange.overlaps, IPRange.adjacentTo, hf, true_and]
    omega
  · have ha := span_apart hf
    have := r.span.le
    simp only [IPRange.overlaps, IPRange.adjacentTo, hf, false_and, or_self, false_iff]
    omega

theorem span_extend (h : last.family = r.family) :
    (last.extend r h).span = last.span.extend r.span := by
  ext
  · rfl
  · simp [IPRange.span, IPRange.extend, Span.extend, h, Nat.add_max_add_left]

theorem spans_mergeLoop {rs : List IPRange} (h : SortedByLo (spans (last :: rs))) :
    spans (mergeLoop last rs) = mergeFrom last.span (spans rs) := by
  induction rs generalizing last with
  | nil => rfl
  | cons r rs ih =>
    have hlo : last.span.lo ≤ r.span.lo := (pairwise_cons.mp h).1 _ (by simp)
    have hto := touches_iff hlo
    rw [mergeLoop]
    split_ifs with ht
    · have hf : last.family = r.family := ht.elim And.left And.left
      have hs : SortedByLo (spans (last.extend r hf :: rs)) := by
        simp only [spans, map_cons, span_extend hf]
        exact SortedByLo.extend h
      rw [ih hs, span_extend hf]
      simp [spans, mergeFrom, if_pos (hto.mp ht)]
    · simp only [spans, map_cons, mergeFrom, if_neg (mt hto.mpr ht)]
      exact congrArg _ (ih (pairwise_cons.mp h).2)

/-- The order of `SortRanges` is the lexicographic order of the spans. -/
theorem rangeLe_iff {a b : IPRange} :
    rangeLe a b ↔ a.span.lo < b.span.lo ∨ (a.span.lo = b.span.lo ∧ a.span.hi ≤ b.span.hi) := by
  have ha := a.le.trans_lt a.lt
  have hb := b.le.trans_lt b.lt
  simp only [rangeLe, IPRange.span_lo, IPRange.span_hi]
  cases haf : a.family <;> cases hbf : b.family <;>
    simp only [haf, hbf, base, Family.bitLen] at * <;> norm_num at * <;>
    (try split_ifs) <;> omega

theorem rangeLe_total (a b : IPRange) : rangeLe a b ∨ rangeLe b a := by
  simp only [rangeLe_iff]
  omega

theorem rangeLe_trans {a b c : IPRange} (hab : rangeLe a b) (hbc : rangeLe b c) : rangeLe a c := by
  rw [rangeLe_iff] at *
  omega

theorem sortedByLo_sortRanges (l : List IPRange) : SortedByLo (spans (sortRanges l)) := by
  have : Std.Total rangeLe := ⟨rangeLe_total⟩
  have : IsTrans IPRange rangeLe := ⟨fun _ _ _ => rangeLe_trans⟩
  have hs : (sortRanges l).Pairwise rangeLe := pairwise_insertionSort _ l
  refine pairwise_map.mpr (hs.imp fun h => ?_)
  rw [rangeLe_iff] at h
  omega

theorem spans_mergeRanges (l : List IPRange) :
    spans (mergeRanges l) = mergeSorted (spans (sortRanges l)) := by
  have hs := sortedByLo_sortRanges l
  unfold mergeRanges
  cases h : sortRanges l with
  | nil => rfl
  | cons r rs =>
    rw [h] at hs
    exact spans_mergeLoop hs

/-- Merged ranges are sorted by family and address, disjoint and not adjacent. -/
theorem separated_mergeRanges (l : List IPRange) : Separated (spans (mergeRanges l)) := by
  rw [spans_mergeRanges]
  exact separated_mergeSorted (sortedByLo_sortRanges l)

@[simp] theorem covered_mergeRanges : Covered (mergeRanges l) a ↔ Covered l a := by
  have hp : (spans (sortRanges l)).Perm (spans l) := (perm_insertionSort _ l).map _
  rw [covered_iff, spans_mergeRanges, covers_mergeSorted (sortedByLo_sortRanges l),
    covers_perm hp, covered_iff]

theorem spans_subtractFrom (existing sub : IPRange) :
    spans (subtractFrom existing sub) = existing.span.minus sub.span := by
  have hs := sub.le
  by_cases hf : existing.family = sub.family
  · simp only [subtractFrom, Span.minus, IPRange.overlaps, IPRange.span_lo, IPRange.span_hi, hf,
      true_and, Nat.add_lt_add_iff_left]
    by_cases ho : existing.lo ≤ sub.hi ∧ sub.lo ≤ existing.hi
    · rw [dif_pos ho, if_neg (by omega)]
      split_ifs <;> simp [spans, IPRange.span] <;> omega
    · rw [dif_neg ho, if_pos (by omega)]
      rfl
  · have ha := span_apart hf
    have hno : ¬ existing.overlaps sub := fun h => hf h.1
    rw [subtractFrom, dif_neg hno, Span.minus, if_pos (by omega)]
    rfl

theorem spans_subtractRange (ranges : List IPRange) (sub : IPRange) :
    spans (subtractRange ranges sub) = subtractOne sub.span (spans ranges) := by
  simp only [subtractRange, spans, map_flatMap, subtractOne, flatMap_map]
  exact flatMap_congr fun r _ => spans_subtractFrom r sub

@[simp] theorem covered_subtractRange {ranges : List IPRange} {sub : IPRange} :
    Covered (subtractRange ranges sub) a ↔ Covered ranges a ∧ a ∉ sub := by
  rw [covered_iff, spans_subtractRange, covers_subtractOne, ← covered_iff, mem_span_iff]

theorem covered_excludeLoop {remaining allocated : List IPRange} :
    Covered (excludeLoop remaining allocated) a ↔ Covered remaining a ∧ ¬ Covered allocated a := by
  induction allocated generalizing remaining with
  | nil => simp [excludeLoop, Covered]
  | cons r rs ih =>
    have hc : Covered (r :: rs) a ↔ a ∈ r ∨ Covered rs a := by simp [Covered]
    rw [excludeLoop, hc]
    split_ifs with hn
    · -- Nothing remains, so the addresses of `remaining` all lie in `r`.
      have he : ¬ Covered [] a := by simp [Covered]
      have hno : ¬ (Covered remaining a ∧ a ∉ r) := by
        rwa [← covered_subtractRange, hn]
      tauto
    · rw [ih, covered_subtractRange]
      tauto

theorem covered_excludeRanges {parent : IPRange} {allocated : List IPRange} :
    Covered (excludeRanges parent allocated) a ↔ a ∈ parent ∧ ¬ Covered allocated a := by
  rw [excludeRanges, covered_excludeLoop]
  simp [Covered]

/-! ## Merged ranges are determined by what they cover -/

theorem span_injective : Function.Injective IPRange.span := by
  intro r s h
  have hlo := congrArg Span.lo h
  have hhi := congrArg Span.hi h
  by_cases hf : r.family = s.family
  · rw [IPRange.span_lo, IPRange.span_lo, hf] at hlo
    rw [IPRange.span_hi, IPRange.span_hi, hf] at hhi
    ext
    · exact hf
    · omega
    · omega
  · have ha := span_apart hf
    have := r.span.le
    omega

theorem exists_key_of_covers {n : ℕ} (h : Covers (spans l) n) : ∃ a, key a = n := by
  obtain ⟨s, hs, hn⟩ := h
  obtain ⟨r, -, rfl⟩ := mem_map.mp hs
  rw [mem_span, IPRange.span_lo, IPRange.span_hi] at hn
  have hlt := r.lt
  exact ⟨⟨r.family, n - base r.family, by omega⟩, by rw [key_eq]; dsimp only; omega⟩

theorem eq_of_covered {l' : List IPRange} (h : Separated (spans l)) (h' : Separated (spans l'))
    (hc : ∀ a, Covered l a ↔ Covered l' a) : l = l' := by
  refine span_injective.list_map (h.ext h' fun n => ?_)
  constructor
  · intro hn
    obtain ⟨a, rfl⟩ := exists_key_of_covers hn
    exact covered_iff.mp ((hc a).mp (covered_iff.mpr hn))
  · intro hn
    obtain ⟨a, rfl⟩ := exists_key_of_covers hn
    exact covered_iff.mp ((hc a).mpr (covered_iff.mpr hn))

theorem mergeRanges_of_separated (h : Separated (spans l)) : mergeRanges l = l :=
  eq_of_covered (separated_mergeRanges l) h fun _ => covered_mergeRanges

theorem mergeRanges_append_left (l l' : List IPRange) :
    mergeRanges (mergeRanges l ++ l') = mergeRanges (l ++ l') := by
  refine eq_of_covered (separated_mergeRanges _) (separated_mergeRanges _) fun a => ?_
  simp [covered_mergeRanges, covered_append]

theorem exists_lo_of_mem_mergeRanges (h : r ∈ mergeRanges l) :
    ∃ q ∈ l, q.family = r.family ∧ q.lo = r.lo := by
  have hs := separated_mergeRanges l
  obtain ⟨-, hb⟩ := (exists_lo_iff hs).mp ⟨r.span, mem_map_of_mem h, rfl⟩
  obtain ⟨q, hq, hf, hlo, hhi⟩ := covered_mergeRanges.mp
    (⟨r, h, rfl, le_rfl, r.le⟩ : Covered (mergeRanges l) r.start)
  change r.family = q.family at hf
  change q.lo ≤ r.lo at hlo
  refine ⟨q, hq, hf.symm, ?_⟩
  by_contra hne
  have hp : r.lo - 1 < 2 ^ r.family.bitLen := by
    have := r.lt
    have := r.le
    omega
  have hc : Covered (mergeRanges l) ⟨r.family, r.lo - 1, hp⟩ :=
    covered_mergeRanges.mpr ⟨q, hq, hf, by dsimp only; omega, by
      change r.lo ≤ q.hi at hhi
      dsimp only
      omega⟩
  rw [covered_iff, key_eq] at hc
  exact hb _ (by rw [IPRange.span_lo]; dsimp only; omega) hc

theorem exists_hi_of_mem_mergeRanges (h : r ∈ mergeRanges l) :
    ∃ q ∈ l, q.family = r.family ∧ q.hi = r.hi := by
  have hs := separated_mergeRanges l
  obtain ⟨-, ha⟩ := (exists_hi_iff hs).mp ⟨r.span, mem_map_of_mem h, rfl⟩
  obtain ⟨q, hq, hf, hlo, hhi⟩ := covered_mergeRanges.mp
    (⟨r, h, rfl, r.le, le_rfl⟩ : Covered (mergeRanges l) r.stop)
  change r.family = q.family at hf
  change r.hi ≤ q.hi at hhi
  change q.lo ≤ r.hi at hlo
  refine ⟨q, hq, hf.symm, ?_⟩
  by_contra hne
  have hn : r.hi + 1 < 2 ^ r.family.bitLen := by
    have := q.lt
    rw [hf]
    omega
  have hc : Covered (mergeRanges l) ⟨r.family, r.hi + 1, hn⟩ :=
    covered_mergeRanges.mpr ⟨q, hq, hf, by dsimp only; omega, by dsimp only; omega⟩
  rw [covered_iff, key_eq] at hc
  exact ha (by simpa [IPRange.span_hi, add_assoc] using hc)

/-- Merging keeps the addresses and orders the ranges by family and address, apart and not adjacent
within a family, so lists with the same addresses merge to the same list. Subtracting takes away
exactly the addresses of `sub`. -/
theorem merge_canonical_subtract_exact (l l' : List IPRange) (sub : IPRange) :
    (∀ a, Covered (mergeRanges l) a ↔ Covered l a) ∧
      ((mergeRanges l).Pairwise fun r s => r.family.bitLen < s.family.bitLen ∨
        r.family = s.family ∧ r.hi + 1 < s.lo) ∧
      ((∀ a, Covered l a ↔ Covered l' a) ↔ mergeRanges l = mergeRanges l') ∧
      ∀ a, Covered (subtractRange l sub) a ↔ Covered l a ∧ a ∉ sub := by
  refine ⟨fun _ => covered_mergeRanges, ?_, ⟨fun h => ?_, fun h a => ?_⟩,
    fun _ => covered_subtractRange⟩
  · refine (pairwise_map.mp (separated_mergeRanges l)).imp fun {r s} h => ?_
    rw [IPRange.span_hi, IPRange.span_lo] at h
    have hr := r.le.trans_lt r.lt
    have hs := s.le.trans_lt s.lt
    cases hrf : r.family <;> cases hsf : s.family <;>
      simp only [hrf, hsf, base, Family.bitLen, true_and] at * <;> omega
  · refine eq_of_covered (separated_mergeRanges l) (separated_mergeRanges l') fun a => ?_
    rw [covered_mergeRanges, covered_mergeRanges, h a]
  · rw [← covered_mergeRanges, h, covered_mergeRanges]

end DocaPlatform.IpRange
