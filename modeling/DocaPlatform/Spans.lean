import Mathlib.Algebra.BigOperators.Group.List.Basic
import Mathlib.Data.Finset.Card
import Mathlib.Data.List.Sort
import Mathlib.Data.Finset.Lattice.Basic
import Mathlib.Order.Interval.Finset.Nat
import Mathlib.Tactic

/-!
# Lists of closed spans of natural numbers

A set of numbers kept as a list of nonempty closed spans: merging a list sorted by lower ends
into separated spans, cutting a span out, and taking a number of elements from the front.
Every operation is characterised by the numbers it covers.
-/
namespace DocaPlatform.Spans

open List

@[ext]
structure Span where
  lo : ℕ
  hi : ℕ
  le : lo ≤ hi
  deriving DecidableEq, Repr

instance : Membership ℕ Span :=
  ⟨fun s a => s.lo ≤ a ∧ a ≤ s.hi⟩

variable {a n k : ℕ} {s t last sub : Span} {l l' : List Span}

theorem mem_span : a ∈ s ↔ s.lo ≤ a ∧ a ≤ s.hi :=
  Iff.rfl

instance (a : ℕ) (s : Span) : Decidable (a ∈ s) :=
  inferInstanceAs (Decidable (s.lo ≤ a ∧ a ≤ s.hi))

def Covers (l : List Span) (a : ℕ) : Prop :=
  ∃ s ∈ l, a ∈ s

instance (l : List Span) (a : ℕ) : Decidable (Covers l a) :=
  inferInstanceAs (Decidable (∃ s ∈ l, a ∈ s))

/-- Sorted spans with a gap of at least one number between any two of them. -/
def Separated (l : List Span) : Prop :=
  l.Pairwise fun s t => s.hi + 1 < t.lo

def SortedByLo (l : List Span) : Prop :=
  l.Pairwise fun s t => s.lo ≤ t.lo

@[simp] theorem covers_nil (a : ℕ) : ¬ Covers [] a := by
  simp [Covers]

@[simp] theorem covers_cons : Covers (s :: l) a ↔ a ∈ s ∨ Covers l a := by
  simp [Covers]

@[simp] theorem covers_append : Covers (l ++ l') a ↔ Covers l a ∨ Covers l' a := by
  simp [Covers, or_and_right, exists_or]

theorem covers_flatMap {α : Type*} {f : α → List Span} {l : List α} :
    Covers (l.flatMap f) a ↔ ∃ x ∈ l, Covers (f x) a := by
  simp only [Covers, mem_flatMap]
  constructor
  · rintro ⟨s, ⟨x, hx, hs⟩, ha⟩
    exact ⟨x, hx, s, hs, ha⟩
  · rintro ⟨x, hx, s, hs, ha⟩
    exact ⟨s, ⟨x, hx, hs⟩, ha⟩

theorem covers_perm (h : l.Perm l') : Covers l a ↔ Covers l' a := by
  simp [Covers, h.mem_iff]

/-- `s` grown to the upper end of `t`. -/
def Span.extend (s t : Span) : Span :=
  ⟨s.lo, max s.hi t.hi, s.le.trans (le_max_left _ _)⟩

/-- The merge loop: `last` is the span that still grows. -/
def mergeFrom (last : Span) : List Span → List Span
  | [] => [last]
  | r :: rs =>
    if r.lo ≤ last.hi + 1 then mergeFrom (last.extend r) rs else last :: mergeFrom r rs

def mergeSorted : List Span → List Span
  | [] => []
  | s :: l => mergeFrom s l

theorem mem_extend (hlo : s.lo ≤ t.lo) (ht : t.lo ≤ s.hi + 1) : a ∈ s.extend t ↔ a ∈ s ∨ a ∈ t := by
  have := s.le
  have := t.le
  simp only [mem_span, Span.extend, le_max_iff]
  omega

theorem SortedByLo.extend (h : SortedByLo (s :: t :: l)) : SortedByLo (s.extend t :: l) := by
  obtain ⟨hs, ht⟩ := pairwise_cons.mp h
  exact pairwise_cons.mpr ⟨fun x hx => hs x (by simp [hx]), (pairwise_cons.mp ht).2⟩

theorem lo_le_of_mem_mergeFrom (h : SortedByLo (last :: l)) (hs : s ∈ mergeFrom last l) :
    last.lo ≤ s.lo := by
  induction l generalizing last with
  | nil => simp_all [mergeFrom]
  | cons r rs ih =>
    rw [mergeFrom] at hs
    split_ifs at hs with ht
    · have hlo := ih h.extend hs
      exact hlo
    · obtain ⟨hl, hr⟩ := pairwise_cons.mp h
      rcases mem_cons.mp hs with rfl | hs
      · exact le_rfl
      · exact (hl r (by simp)).trans (ih hr hs)

theorem covers_mergeFrom (h : SortedByLo (last :: l)) :
    Covers (mergeFrom last l) a ↔ a ∈ last ∨ Covers l a := by
  induction l generalizing last with
  | nil => simp [mergeFrom]
  | cons r rs ih =>
    obtain ⟨hl, hr⟩ := pairwise_cons.mp h
    rw [mergeFrom]
    split_ifs with ht
    · rw [ih h.extend, mem_extend (hl r (by simp)) ht, covers_cons, or_assoc]
    · rw [covers_cons, ih hr, covers_cons]

theorem separated_mergeFrom (h : SortedByLo (last :: l)) : Separated (mergeFrom last l) := by
  induction l generalizing last with
  | nil => simp [mergeFrom, Separated]
  | cons r rs ih =>
    rw [mergeFrom]
    split_ifs with ht
    · exact ih h.extend
    · have hr := (pairwise_cons.mp h).2
      refine pairwise_cons.mpr ⟨fun s hs => ?_, ih hr⟩
      have := lo_le_of_mem_mergeFrom hr hs
      omega

theorem covers_mergeSorted (h : SortedByLo l) : Covers (mergeSorted l) a ↔ Covers l a := by
  cases l with
  | nil => rfl
  | cons s l => rw [mergeSorted, covers_mergeFrom h, covers_cons]

theorem separated_mergeSorted (h : SortedByLo l) : Separated (mergeSorted l) := by
  cases l with
  | nil => exact List.Pairwise.nil
  | cons s l => exact separated_mergeFrom h

/-- Sort by lower ends. The order of spans with one lower end does not reach the merged list. -/
def sortByLo (l : List Span) : List Span :=
  l.insertionSort fun s t => s.lo ≤ t.lo

def merge (l : List Span) : List Span :=
  mergeSorted (sortByLo l)

theorem sortedByLo_sortByLo (l : List Span) : SortedByLo (sortByLo l) := by
  have : Std.Total fun s t : Span => s.lo ≤ t.lo := ⟨fun s t => le_total s.lo t.lo⟩
  have : IsTrans Span fun s t => s.lo ≤ t.lo := ⟨fun s t u => le_trans⟩
  exact pairwise_insertionSort _ l

@[simp] theorem covers_merge : Covers (merge l) a ↔ Covers l a := by
  rw [merge, covers_mergeSorted (sortedByLo_sortByLo l)]
  exact covers_perm (perm_insertionSort _ l)

theorem separated_merge (l : List Span) : Separated (merge l) :=
  separated_mergeSorted (sortedByLo_sortByLo l)

theorem Separated.trichotomy (h : Separated l) (hs : s ∈ l) (ht : t ∈ l) :
    s = t ∨ s.hi + 1 < t.lo ∨ t.hi + 1 < s.lo := by
  induction l with
  | nil => simp at hs
  | cons x l ih =>
    obtain ⟨hx, hl⟩ := pairwise_cons.mp h
    rcases mem_cons.mp hs with rfl | hsl <;> rcases mem_cons.mp ht with rfl | htl
    · exact .inl rfl
    · exact .inr (.inl (hx t htl))
    · exact .inr (.inr (hx s hsl))
    · exact ih hl hsl htl

theorem exists_span_of_covers (h : Separated l) {b : ℕ} (hab : a ≤ b)
    (hc : ∀ x, a ≤ x → x ≤ b → Covers l x) : ∃ s ∈ l, a ∈ s ∧ b ∈ s := by
  obtain ⟨s, hs, has⟩ := hc a le_rfl hab
  refine ⟨s, hs, has, ?_⟩
  by_contra hb
  rw [mem_span] at has hb
  -- The number right after `s` is covered by another span, which the gap forbids.
  obtain ⟨t, ht, hst⟩ := hc (s.hi + 1) (by omega) (by omega)
  rw [mem_span] at hst
  have := s.le
  rcases h.trichotomy hs ht with rfl | hlt | hlt <;> omega

/-- What is left of `s` once `sub` is cut out. -/
def Span.minus (s sub : Span) : List Span :=
  if sub.hi < s.lo ∨ s.hi < sub.lo then [s]
  else
    (if h : s.lo < sub.lo then [⟨s.lo, sub.lo - 1, by omega⟩] else []) ++
      (if h : sub.hi < s.hi then [⟨sub.hi + 1, s.hi, h⟩] else [])

theorem mem_minus_bounds (ht : t ∈ s.minus sub) : s.lo ≤ t.lo ∧ t.hi ≤ s.hi := by
  have := s.le
  have := sub.le
  unfold Span.minus at ht
  split_ifs at ht <;> simp only [mem_append, mem_singleton, not_mem_nil, or_false,
    false_or] at ht
  · subst ht; simp
  · rcases ht with rfl | rfl <;> dsimp only <;> omega
  · subst ht; dsimp only; omega
  · subst ht; dsimp only; omega

theorem covers_minus : Covers (s.minus sub) a ↔ a ∈ s ∧ a ∉ sub := by
  have := s.le
  have := sub.le
  unfold Span.minus
  split_ifs <;> simp only [covers_append, covers_cons, covers_nil, or_false, false_or, mem_span,
    false_iff] <;> omega

theorem separated_minus (s sub : Span) : Separated (s.minus sub) := by
  have := sub.le
  unfold Span.minus Separated
  split_ifs <;> simp
  omega

/-- Cut `sub` out of every span. -/
def subtractOne (sub : Span) (l : List Span) : List Span :=
  l.flatMap (·.minus sub)

theorem covers_subtractOne : Covers (subtractOne sub l) a ↔ Covers l a ∧ a ∉ sub := by
  simp only [subtractOne, covers_flatMap, covers_minus]
  constructor
  · rintro ⟨s, hs, ha, hsu⟩
    exact ⟨⟨s, hs, ha⟩, hsu⟩
  · rintro ⟨⟨s, hs, ha⟩, hsu⟩
    exact ⟨s, hs, ha, hsu⟩

theorem Separated.subtractOne (h : Separated l) (sub : Span) : Separated (subtractOne sub l) := by
  refine pairwise_flatMap.mpr ⟨fun s _ => separated_minus s sub, h.imp ?_⟩
  intro s t hst x hx y hy
  have := mem_minus_bounds hx
  have := mem_minus_bounds hy
  omega

/-- Cut several spans out, one after another. -/
def subtractAll (subs l : List Span) : List Span :=
  subs.foldl (fun rest sub => subtractOne sub rest) l

theorem covers_subtractAll {subs : List Span} :
    Covers (subtractAll subs l) a ↔ Covers l a ∧ ¬ Covers subs a := by
  induction subs generalizing l with
  | nil => simp [subtractAll]
  | cons sub subs ih =>
    change Covers (subtractAll subs (subtractOne sub l)) a ↔ _
    rw [ih, covers_subtractOne, covers_cons]
    tauto

theorem Separated.subtractAll (h : Separated l) (subs : List Span) :
    Separated (subtractAll subs l) := by
  induction subs generalizing l with
  | nil => exact h
  | cons sub subs ih => exact ih (h.subtractOne sub)

/-- How many numbers a span holds. -/
def Span.size (s : Span) : ℕ :=
  s.hi - s.lo + 1

/-- How many numbers the spans of a list hold, repetitions included. -/
def size (l : List Span) : ℕ :=
  (l.map Span.size).sum

@[simp] theorem size_nil : size [] = 0 := rfl

@[simp] theorem size_cons (s : Span) (l : List Span) : size (s :: l) = s.size + size l := by
  simp [size]

theorem card_covers (h : Separated l) (hn : ∀ s ∈ l, s.hi < n) :
    ((Finset.range n).filter (Covers l)).card = size l := by
  induction l with
  | nil => simp
  | cons s l ih =>
    obtain ⟨hs, hl⟩ := pairwise_cons.mp h
    have hu : (Finset.range n).filter (Covers (s :: l)) =
        Finset.Icc s.lo s.hi ∪ (Finset.range n).filter (Covers l) := by
      ext a
      have hsn := hn s (by simp)
      simp only [Finset.mem_filter, Finset.mem_range, covers_cons, Finset.mem_union,
        Finset.mem_Icc, mem_span]
      constructor
      · rintro ⟨ha, hs | hl⟩
        · exact .inl hs
        · exact .inr ⟨ha, hl⟩
      · rintro (hs | ⟨ha, hl⟩)
        · exact ⟨by omega, .inl hs⟩
        · exact ⟨ha, .inr hl⟩
    have hd : Disjoint (Finset.Icc s.lo s.hi) ((Finset.range n).filter (Covers l)) := by
      rw [Finset.disjoint_left]
      intro a ha hla
      obtain ⟨t, ht, hat⟩ := (Finset.mem_filter.mp hla).2
      have hg := hs t ht
      rw [Finset.mem_Icc] at ha
      rw [mem_span] at hat
      omega
    rw [hu, Finset.card_union_of_disjoint hd, Nat.card_Icc,
      ih hl fun t ht => hn t (by simp [ht]), size_cons, Span.size]
    have := s.le
    omega

theorem size_le (h : Separated l) (hn : ∀ s ∈ l, s.hi < n) : size l ≤ n := by
  rw [← card_covers h hn]
  simpa using Finset.card_filter_le (Finset.range n) (Covers l)

/-! ## Taking from the front -/

/-- The first `left` numbers of a list of spans, and the spans that remain. -/
def take : ℕ → List Span → List Span × List Span
  | _, [] => ([], [])
  | left, r :: rs =>
    if hleft : left = 0 then
      let next := take 0 rs
      (next.1, r :: next.2)
    else if hfit : r.size ≤ left then
      let next := take (left - r.size) rs
      (r :: next.1, next.2)
    else
      let next := take 0 rs
      (⟨r.lo, r.lo + left - 1, by omega⟩ :: next.1,
        ⟨r.lo + left, r.hi, by unfold Span.size at hfit; have := r.le; omega⟩ :: next.2)

theorem take_zero (l : List Span) : take 0 l = ([], l) := by
  induction l with
  | nil => rfl
  | cons r rs ih => simp [take, ih]

theorem covers_take : Covers l a ↔ Covers (take k l).1 a ∨ Covers (take k l).2 a := by
  induction l generalizing k with
  | nil => simp [take]
  | cons r rs ih =>
    rw [take]
    split_ifs with hk hf
    · simp [take_zero]
    · simp [covers_cons, ih (k := k - r.size), or_assoc]
    · unfold Span.size at hf
      simp only [take_zero, covers_cons, covers_nil, or_false, mem_span]
      rw [← or_assoc]
      refine or_congr_left ?_
      omega

/-- Taking keeps the order: what is taken lies below what remains. -/
theorem take_ordered (h : Separated l) (hs : s ∈ (take k l).1) (ht : t ∈ (take k l).2) :
    s.hi < t.lo := by
  induction l generalizing k with
  | nil => simp [take] at hs
  | cons r rs ih =>
    obtain ⟨hr, hrs⟩ := pairwise_cons.mp h
    rw [take] at hs ht
    split_ifs at hs ht with hk hf
    · simp [take_zero] at hs
    · rcases mem_cons.mp hs with rfl | hs'
      · -- Everything that remains comes from spans after the first.
        have hc : Covers rs t.lo := covers_take.mpr (.inr ⟨t, ht, le_rfl, t.le⟩)
        obtain ⟨u, hu, hlo, -⟩ := hc
        have := hr u hu
        omega
      · exact ih hrs hs' ht
    · simp only [take_zero, mem_cons, not_mem_nil, or_false] at hs ht
      subst hs
      rcases ht with rfl | ht
      · dsimp only
        omega
      · have := hr t ht
        unfold Span.size at hf
        dsimp only
        omega

theorem size_take (k : ℕ) (l : List Span) : size (take k l).1 = min k (size l) := by
  induction l generalizing k with
  | nil => simp [take]
  | cons r rs ih =>
    rw [take]
    split_ifs with hk hf
    · simp [take_zero, hk]
    · simp only [size_cons, ih]
      omega
    · unfold Span.size at hf
      simp only [take_zero, size_cons, size_nil, Span.size]
      omega

theorem size_take_snd (k : ℕ) (l : List Span) : size (take k l).2 = size l - k := by
  induction l generalizing k with
  | nil => simp [take]
  | cons r rs ih =>
    rw [take]
    split_ifs with hk hf
    · simp [take_zero, hk]
    · simp only [size_cons, ih]
      omega
    · unfold Span.size at hf
      simp only [take_zero, size_cons, Span.size]
      omega

theorem take_size (l : List Span) : take (size l) l = (l, []) := by
  induction l with
  | nil => rfl
  | cons r rs ih =>
    have hp : size (r :: rs) ≠ 0 := by
      rw [size_cons, Span.size]
      omega
    rw [take, dif_neg hp, dif_pos (by rw [size_cons]; omega)]
    have hr : size (r :: rs) - r.size = size rs := by
      rw [size_cons]
      omega
    rw [hr, ih]

theorem size_eq_zero : size l = 0 ↔ l = [] := by
  cases l with
  | nil => simp
  | cons s l => simp [Span.size]

theorem Separated.take_snd (h : Separated l) (k : ℕ) : Separated (take k l).2 := by
  induction l generalizing k with
  | nil => simp [take, Separated]
  | cons r rs ih =>
    obtain ⟨hr, hrs⟩ := pairwise_cons.mp h
    rw [take]
    split_ifs with hk hf
    · simpa [take_zero] using h
    · exact ih hrs _
    · simp only [take_zero]
      exact pairwise_cons.mpr ⟨fun t ht => hr t ht, hrs⟩

theorem Separated.take_fst (h : Separated l) (k : ℕ) : Separated (take k l).1 := by
  induction l generalizing k with
  | nil => simp [take, Separated]
  | cons r rs ih =>
    obtain ⟨hr, hrs⟩ := pairwise_cons.mp h
    rw [take]
    split_ifs with hk hf
    · simp [take_zero, Separated]
    · refine pairwise_cons.mpr ⟨fun t ht => ?_, ih hrs _⟩
      obtain ⟨u, hu, hlo, -⟩ := covers_take.mpr (.inl ⟨t, ht, le_rfl, t.le⟩)
      have := hr u hu
      omega
    · simp [take_zero, Separated]

/-- In a separated list, spans begin at the covered numbers without a covered number right before
them. -/
theorem exists_lo_iff (h : Separated l) :
    (∃ s ∈ l, s.lo = a) ↔ Covers l a ∧ ∀ b, b + 1 = a → ¬ Covers l b := by
  constructor
  · rintro ⟨s, hs, rfl⟩
    refine ⟨⟨s, hs, le_rfl, s.le⟩, ?_⟩
    rintro b hb ⟨t, ht, htb⟩
    rw [mem_span] at htb
    have := s.le
    rcases h.trichotomy hs ht with rfl | hst | hts <;> omega
  · rintro ⟨⟨s, hs, hlo, hhi⟩, hbe⟩
    refine ⟨s, hs, ?_⟩
    by_contra hne
    exact hbe (a - 1) (by omega) ⟨s, hs, by omega, by omega⟩

/-- In a separated list, spans end at the covered numbers without a covered number right after
them. -/
theorem exists_hi_iff (h : Separated l) :
    (∃ s ∈ l, s.hi = a) ↔ Covers l a ∧ ¬ Covers l (a + 1) := by
  constructor
  · rintro ⟨s, hs, rfl⟩
    refine ⟨⟨s, hs, s.le, le_rfl⟩, ?_⟩
    rintro ⟨t, ht, htb⟩
    rw [mem_span] at htb
    have := s.le
    rcases h.trichotomy hs ht with rfl | hst | hts <;> omega
  · rintro ⟨⟨s, hs, hlo, hhi⟩, ha⟩
    refine ⟨s, hs, ?_⟩
    by_contra hne
    exact ha ⟨s, hs, by omega, by omega⟩

/-- A set of numbers has one separated list. -/
theorem Separated.ext (h : Separated l) (h' : Separated l') (hco : ∀ a, Covers l a ↔ Covers l' a) :
    l = l' := by
  induction l generalizing l' with
  | nil =>
    cases l' with
    | nil => rfl
    | cons t l' => exact absurd ((hco t.lo).mpr ⟨t, by simp, le_rfl, t.le⟩) (covers_nil _)
  | cons s l ih =>
    cases l' with
    | nil => exact absurd ((hco s.lo).mp ⟨s, by simp, le_rfl, s.le⟩) (covers_nil _)
    | cons t l' =>
      obtain ⟨hs, hl⟩ := pairwise_cons.mp h
      obtain ⟨ht, hl'⟩ := pairwise_cons.mp h'
      -- The first span begins at the least covered number and ends at the first gap after it.
      have hf : ∀ {u v : Span} {k : List Span}, (∀ w ∈ k, u.hi + 1 < w.lo) →
          Covers (u :: k) v.lo → u.lo ≤ v.lo := by
        rintro u v k huk ⟨w, hw, hwl, -⟩
        rcases mem_cons.mp hw with rfl | hw
        · exact hwl
        · have := huk w hw
          have := u.le
          omega
      have hlo : s.lo = t.lo := le_antisymm
        (hf hs ((hco t.lo).mpr ⟨t, by simp, le_rfl, t.le⟩))
        (hf ht ((hco s.lo).mp ⟨s, by simp, le_rfl, s.le⟩))
      have hsh : ∀ {u v : Span} {k : List Span}, u.lo = v.lo → (∀ w ∈ k, u.hi + 1 < w.lo) →
          (∀ a ∈ v, Covers (u :: k) a) → v.hi ≤ u.hi := by
        intro u v k huv huk hsu
        by_contra hlt
        obtain ⟨w, hw, hwl, hwh⟩ := hsu (u.hi + 1) ⟨by have := u.le; omega, by omega⟩
        rcases mem_cons.mp hw with rfl | hw
        · omega
        · have := huk w hw
          omega
      have hhi : s.hi = t.hi := le_antisymm
        (hsh hlo.symm ht fun a ha => (hco a).mp ⟨s, by simp, ha⟩)
        (hsh hlo hs fun a ha => (hco a).mpr ⟨t, by simp, ha⟩)
      obtain rfl : s = t := Span.ext hlo hhi
      refine congrArg (s :: ·) (ih hl hl' fun a => ?_)
      have ha := hco a
      have ho : ∀ {k : List Span}, (∀ w ∈ k, s.hi + 1 < w.lo) → Covers k a → a ∉ s := by
        rintro k hk ⟨w, hw, hwl, -⟩ hmem
        have := hk w hw
        rw [mem_span] at hmem
        omega
      rw [covers_cons, covers_cons] at ha
      constructor
      · intro hc
        exact (ha.mp (.inr hc)).resolve_left (ho hs hc)
      · intro hc
        exact (ha.mpr (.inr hc)).resolve_left (ho ht hc)

/-! ## Ranks -/

/-- The members with at least `c` members below them, counted below `n`. -/
theorem count_of_le_count (p : ℕ → Prop) [DecidablePred p] (c n : ℕ) :
    Nat.count (fun i => p i ∧ c ≤ Nat.count p i) n = Nat.count p n - c := by
  induction n with
  | zero => simp
  | succ n ih =>
    rw [Nat.count_succ, Nat.count_succ, ih]
    by_cases hp : p n
    · by_cases hc : c ≤ Nat.count p n
      · rw [if_pos ⟨hp, hc⟩, if_pos hp]
        omega
      · rw [if_neg fun h => hc h.2, if_pos hp]
        omega
    · rw [if_neg fun h => hp h.1, if_neg hp]
      omega

theorem count_mem_span (s : Span) (n : ℕ) : Nat.count (· ∈ s) n = min n (s.hi + 1) - s.lo := by
  induction n with
  | zero => simp
  | succ n ih =>
    rw [Nat.count_succ, ih]
    split_ifs with h <;> rw [mem_span] at h <;> omega

/-- Below a number, a separated list covers what its first span and what the others cover. -/
theorem count_covers_cons (h : Separated (s :: l)) (n : ℕ) :
    Nat.count (Covers (s :: l)) n = (min n (s.hi + 1) - s.lo) + Nat.count (Covers l) n := by
  rw [← count_mem_span]
  induction n with
  | zero => simp
  | succ n ih =>
    simp only [Nat.count_succ, ih, covers_cons]
    by_cases hs : n ∈ s
    · have hl : ¬ Covers l n := by
        rintro ⟨t, ht, htn⟩
        have := (pairwise_cons.mp h).1 t ht
        rw [mem_span] at hs htn
        omega
      simp only [hs, hl, or_false, if_true, if_false]
      omega
    · simp only [hs, false_or, if_false]
      omega

theorem count_covers_tail (h : Separated (s :: l)) (hn : n ≤ s.hi + 1) :
    Nat.count (Covers l) n = 0 := by
  rw [Nat.count_eq_card_filter_range, Finset.card_eq_zero, Finset.filter_eq_empty_iff]
  rintro a ha ⟨t, ht, hta⟩
  have := (pairwise_cons.mp h).1 t ht
  rw [mem_span] at hta
  rw [Finset.mem_range] at ha
  omega

theorem covers_take_fst_iff (h : Separated l) :
    Covers (take k l).1 a ↔ Covers l a ∧ Nat.count (Covers l) a < k := by
  induction l generalizing k with
  | nil => simp [take]
  | cons r rs ih =>
    obtain ⟨hr, hrs⟩ := pairwise_cons.mp h
    have hin : a ∈ r → Nat.count (Covers (r :: rs)) a = a - r.lo := by
      intro ha
      rw [mem_span] at ha
      rw [count_covers_cons h, count_covers_tail h (by omega)]
      omega
    have haf : Covers rs a → a ∉ r ∧
        Nat.count (Covers (r :: rs)) a = r.size + Nat.count (Covers rs) a := by
      rintro ⟨t, ht, hta⟩
      have := hr t ht
      have := r.le
      rw [mem_span] at hta
      refine ⟨by rw [mem_span]; omega, ?_⟩
      rw [count_covers_cons h, Span.size]
      omega
    rw [take]
    split_ifs with hk hf
    · simp [take_zero, hk]
    · rw [covers_cons, covers_cons, ih hrs]
      constructor
      · rintro (ha | ⟨ha, hlt⟩)
        · refine ⟨.inl ha, ?_⟩
          rw [hin ha]
          rw [mem_span] at ha
          unfold Span.size at hf
          omega
        · exact ⟨.inr ha, by rw [(haf ha).2]; omega⟩
      · rintro ⟨ha | ha, hlt⟩
        · exact .inl ha
        · rw [(haf ha).2] at hlt
          exact .inr ⟨ha, by omega⟩
    · rw [take_zero, covers_cons, covers_cons]
      simp only [covers_nil, or_false]
      constructor
      · intro ha
        have har : a ∈ r := by
          rw [mem_span] at ha ⊢
          unfold Span.size at hf
          dsimp only at ha
          omega
        refine ⟨.inl har, ?_⟩
        rw [hin har]
        rw [mem_span] at ha
        dsimp only at ha
        omega
      · rintro ⟨ha | ha, hlt⟩
        · rw [hin ha] at hlt
          rw [mem_span] at ha ⊢
          dsimp only
          omega
        · rw [(haf ha).2] at hlt
          omega

theorem covers_take_snd_iff (h : Separated l) :
    Covers (take k l).2 a ↔ Covers l a ∧ k ≤ Nat.count (Covers l) a := by
  have hf := covers_take_fst_iff h (k := k) (a := a)
  constructor
  · intro ha
    refine ⟨covers_take.mpr (.inr ha), ?_⟩
    by_contra hlt
    obtain ⟨s, hs, hsa⟩ := hf.mpr ⟨covers_take.mpr (.inr ha), by omega⟩
    obtain ⟨t, ht, hta⟩ := ha
    have := take_ordered h hs ht
    rw [mem_span] at hsa hta
    omega
  · rintro ⟨ha, hle⟩
    refine (covers_take.mp ha).resolve_left fun htak => ?_
    have := (hf.mp htak).2
    omega

end DocaPlatform.Spans
