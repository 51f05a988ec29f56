import DocaPlatform.IpamStatus

/-!
# The exclude ranges of one cluster

A pool covers the whole parent network in every cluster, and the exclude ranges take away what the
cluster does not own. They are exact for every calculator of an accepted specification, before and
after the calls that hand out blocks.
-/
namespace DocaPlatform.IpamStatus

open Netip Spans IpRange Runs IpamAllocator IpamWebhook

/-- A calculator as a run builds it. -/
def Builds (spec : DPUServiceIPAMSpec) (m : Calculator) : Prop :=
  ∃ current, newCalculator spec current = .ok m

/-- One call of `AllocateClusterBlocks`: the ranges that the cluster has and the ranges that it
gets. -/
structure AllocateCall where
  existing : List ApiIPRange
  recorded : List ApiIPRange

/-- A successful call of `AllocateClusterBlocks`. -/
def Allocates (m : Calculator) (c : AllocateCall) (m' : Calculator) : Prop :=
  m.allocateClusterBlocks c.existing = .ok (c.recorded, m')

/-- What every calculator of a specification has in common: all but the available blocks. -/
structure Describes (spec : DPUServiceIPAMSpec) (m : Calculator) : Prop where
  sound : m.Sound
  parent : ∃ p, parsePrefix spec.cidr = .ok p ∧ m.parentRange = rangeFromPrefix p
  exclusions : ∃ parsed, parseIPRanges (exclusionsOf spec) = .ok parsed ∧
    m.mergedExclusions = mergeRanges parsed
  statics : m.staticAllocations = staticsOf spec

variable {spec : DPUServiceIPAMSpec} {m : Calculator}

theorem Describes.of_builds (h : Builds spec m) : Describes spec m := by
  obtain ⟨current, hm⟩ := h
  obtain ⟨existing, -, hb⟩ := newCalculator_built hm
  exact ⟨hb.sound, hb.parent, hb.exclusions, hb.statics⟩

theorem Describes.allocates {m' : Calculator} {c : AllocateCall} (h : Describes spec m)
    (hc : Allocates m c m') : Describes spec m' := by
  obtain ⟨old, blocks, new, -, -, ht, -⟩ := Calculator.allocateClusterBlocks_spec h.sound hc
  refine ⟨ht.sound, ?_, ?_, ?_⟩
  · rw [ht.parent_eq]
    exact h.parent
  · rw [ht.frame]
    exact h.exclusions
  · rw [ht.frame]
    exact h.statics

theorem describes_reachable (h : Reachable (Builds spec) Allocates m) : Describes spec m :=
  h.invariant (fun _ => Describes.of_builds) fun _ _ _ _ hd hc => hd.allocates hc

theorem Describes.covered_exclusions (h : Describes spec m) {a : Addr} :
    Covered m.mergedExclusions a ↔ Excluded spec a := by
  obtain ⟨parsed, hp, hm⟩ := h.exclusions
  rw [hm, covered_mergeRanges, covered_iff_inText hp]
  rfl

theorem statics_not_mapped (h : validateConfiguration spec = []) {x : String × String}
    (hx : x ∈ staticsOf spec) {p : Prefix} (hp : parsePrefix x.2 = .ok p) :
    p.addr.is4In6 = false := by
  rw [validateConfiguration_eq] at h
  rcases configuration_cases spec with ⟨s, hs, -⟩ | ⟨n, hn, -, -⟩
  · simp [staticsOf, hs] at hx
  · rw [hn] at h
    obtain ⟨network, ha⟩ := validateNetwork_eq_nil h
    have hv := ha.allocations x (by simpa [staticsOf, hn] using hx)
    by_contra hm
    have ht : isMappedPrefixText x.2 = true := by
      simpa [isMappedPrefixText, hp] using hm
    unfold validateAllocation at hv
    cases hc : parseCIDR x.2 with
    | error e => simp [hc] at hv
    | ok r => simp [hc, ht] at hv

/-- A calculator of an accepted specification computes the exclusions of all ranges that it can
read. -/
theorem Describes.computeExclusions_ok_iff (hv : validateConfiguration spec = [])
    (h : Describes spec m) {clusterBlocks : List ApiIPRange} :
    (∃ excluded, m.computeExclusions clusterBlocks = .ok excluded) ↔
      ∃ allocs, parseIPRanges clusterBlocks = .ok allocs := by
  constructor
  · rintro ⟨excluded, he⟩
    obtain ⟨allocs, l, hall, -⟩ := Calculator.computeExclusions_spec he
    exact ⟨allocs, hall⟩
  · rintro ⟨allocs, hall⟩
    refine Calculator.computeExclusions_ok hall fun s hs p hp => ?_
    rw [h.statics] at hs
    exact statics_not_mapped hv hs hp

/-- For every calculator of an accepted specification and every list of ranges that the calculator
can read, `ComputeExclusions` covers an address exactly if the user excluded it, or it lies in the
parent network and neither in the ranges nor in a static allocation; the result is sorted, with a
gap between any two ranges. On ranges that it cannot read it fails. -/
theorem computeExclusions_exact {spec : DPUServiceIPAMSpec}
    (hvalid : validateConfiguration spec = []) {m : Calculator}
    (hm : Reachable (Builds spec) Allocates m) (clusterBlocks : List ApiIPRange) :
    (∀ excluded, m.computeExclusions clusterBlocks = .ok excluded →
      ∃ p, parsePrefix spec.cidr = .ok p ∧
        (∀ a, (∃ r ∈ excluded, InText r a) ↔ Excluded spec a ∨
          (a ∈ rangeFromPrefix p ∧ (¬ ∃ r ∈ clusterBlocks, InText r a) ∧
            ¬ Calculator.StaticallyAllocated (staticsOf spec) a)) ∧
        (∀ r ∈ excluded, ∃ q, readRange r = some q) ∧
        excluded.Pairwise fun r r' => ∀ q q', readRange r = some q → readRange r' = some q' →
          key q.stop + 1 < key q'.start) ∧
    ((∃ excluded, m.computeExclusions clusterBlocks = .ok excluded) ↔
      ∃ allocs, parseIPRanges clusterBlocks = .ok allocs) := by
  have hd := describes_reachable hm
  constructor
  · intro excluded he
    obtain ⟨allocs, l, hall, rfl, hs, hc⟩ := Calculator.computeExclusions_spec he
    obtain ⟨p, hp, hpa⟩ := hd.parent
    refine ⟨p, hp, fun a => ?_, ?_, pairwise_toApiRanges hs⟩
    · rw [inText_toApiRanges, hc, hd.covered_exclusions, hpa, hd.statics, covered_iff_inText hall]
    · intro r hr
      obtain ⟨q, -, rfl⟩ := List.mem_map.mp hr
      exact ⟨q, readRange_render q⟩
  · exact hd.computeExclusions_ok_iff hvalid

/-- A network of sixteen blocks with one static allocation and an excluded range inside it. -/
def sampleNetwork : DPUServiceIPAMSpec where
  ipv4Network := none
  ipv4Subnet := none
  network := some
    { network := "10.0.0.0/24"
      gatewayIndex := none
      prefixSize := 28
      exclusions := []
      excludeRanges := [⟨"10.0.0.40", "10.0.0.41"⟩]
      defaultGateway := false
      routes := []
      allocations := [("node-1", "10.0.0.32/28")]
      subnetsPerDPUCluster := some 1 }
  subnet := none
  exactlyOne := rfl

/-- The exclusion inside the static allocation stays excluded. -/
theorem computeExclusions_exact_first_block :
    ∃ m, Builds sampleNetwork m ∧
      m.computeExclusions [⟨"10.0.0.0", "10.0.0.15"⟩] = .ok [⟨"10.0.0.16", "10.0.0.31"⟩,
        ⟨"10.0.0.40", "10.0.0.41"⟩, ⟨"10.0.0.48", "10.0.0.255"⟩] ∧
      ∃ p, parsePrefix "10.0.0.0/24" = .ok p ∧
        ∀ a, (∃ r ∈ [⟨"10.0.0.16", "10.0.0.31"⟩, ⟨"10.0.0.40", "10.0.0.41"⟩,
            (⟨"10.0.0.48", "10.0.0.255"⟩ : ApiIPRange)], InText r a) ↔ Excluded sampleNetwork a ∨
          (a ∈ rangeFromPrefix p ∧ (¬ ∃ r ∈ [(⟨"10.0.0.0", "10.0.0.15"⟩ : ApiIPRange)], InText r a) ∧
            ¬ Calculator.StaticallyAllocated [("node-1", "10.0.0.32/28")] a) := by
  have hr : ((newCalculator sampleNetwork []).bind fun m =>
      m.computeExclusions [⟨"10.0.0.0", "10.0.0.15"⟩]) = .ok [⟨"10.0.0.16", "10.0.0.31"⟩,
        ⟨"10.0.0.40", "10.0.0.41"⟩, ⟨"10.0.0.48", "10.0.0.255"⟩] := by decide +kernel
  obtain ⟨m, hm, hex⟩ := bind_eq_ok.mp hr
  have hb : Builds sampleNetwork m := ⟨[], hm⟩
  obtain ⟨p, hp, he, -⟩ := (computeExclusions_exact (by decide +kernel) (.start hb) _).1 _
    hex
  exact ⟨m, hb, hex, p, hp, he⟩

end DocaPlatform.IpamStatus
