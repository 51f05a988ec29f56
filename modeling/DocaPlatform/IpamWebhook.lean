import DocaPlatform.IpamAllocator

/-!
# Admission of DPUServiceIPAM objects

The specification of a `DPUServiceIPAM` and the checks of its validating webhook. An error is the
list of its messages; the empty list means that the object is accepted.
-/
namespace DocaPlatform.IpamWebhook

open Netip IpRange IpamAllocator

/-- `Network`: every node gets its own subnet. -/
structure Network where
  network : String
  gatewayIndex : Option ℤ
  prefixSize : ℤ
  exclusions : List String
  excludeRanges : List ApiIPRange
  allocations : List (String × String)
  defaultGateway : Bool
  routes : List String
  subnetsPerDPUCluster : Option ℤ

/-- `Subnet`: the nodes share one subnet and get blocks of it. -/
structure Subnet where
  subnet : String
  gateway : String
  perNodeIPCount : ℤ
  excludeRanges : List ApiIPRange
  defaultGateway : Bool
  routes : List String
  blocksPerDPUCluster : Option ℤ

/-- `DPUServiceIPAMSpec`. The CRD rule that exactly one configuration is set holds of every
stored object. -/
structure DPUServiceIPAMSpec where
  ipv4Network : Option Network
  ipv4Subnet : Option Subnet
  network : Option Network
  subnet : Option Subnet
  exactlyOne : ipv4Network.isSome.toNat + ipv4Subnet.isSome.toNat + network.isSome.toNat +
    subnet.isSome.toNat = 1

/-- The parts of a `DPUServiceIPAM` that validation reads. -/
structure DPUServiceIPAM where
  objectNamespace : String
  spec : DPUServiceIPAMSpec

inductive ConfigurationField where
  | unknown
  | ipv4Network
  | ipv4Subnet
  | network
  | subnet
  deriving DecidableEq, Repr

inductive AllocationMode where
  | unknown
  | network
  | subnet
  deriving DecidableEq, Repr

def selectConfiguration (spec : DPUServiceIPAMSpec) : ConfigurationField :=
  if spec.ipv4Network.isSome then .ipv4Network
  else if spec.ipv4Subnet.isSome then .ipv4Subnet
  else if spec.network.isSome then .network
  else if spec.subnet.isSome then .subnet
  else .unknown

def configurationMode : ConfigurationField → AllocationMode
  | .ipv4Network | .network => .network
  | .ipv4Subnet | .subnet => .subnet
  | .unknown => .unknown

/-- `familyFromCIDR`, where no family stands for the empty text. -/
def familyFromCIDR (cidr : String) : Option Family :=
  match parsePrefix cidr with
  | .error _ => none
  | .ok p => if p.addr.is4In6 then none else some p.addr.family

structure UpdateValidationInput where
  cidr : String
  allocationSize : ℤ
  allocationField : String
  perCluster : Option ℤ
  perClusterFieldName : String

def Network.updateInput (n : Network) : UpdateValidationInput where
  cidr := n.network
  allocationSize := n.prefixSize
  allocationField := "prefixSize"
  perCluster := n.subnetsPerDPUCluster
  perClusterFieldName := "subnetsPerDPUCluster"

def Subnet.updateInput (n : Subnet) : UpdateValidationInput where
  cidr := n.subnet
  allocationSize := n.perNodeIPCount
  allocationField := "perNodeIPCount"
  perCluster := n.blocksPerDPUCluster
  perClusterFieldName := "blocksPerDPUCluster"

def updateValidationInputFor (field : ConfigurationField) (spec : DPUServiceIPAMSpec) :
    Option UpdateValidationInput :=
  match field with
  | .ipv4Network => spec.ipv4Network.map Network.updateInput
  | .network => spec.network.map Network.updateInput
  | .ipv4Subnet => spec.ipv4Subnet.map Subnet.updateInput
  | .subnet => spec.subnet.map Subnet.updateInput
  | .unknown => none

def configurationFamily (field : ConfigurationField) (spec : DPUServiceIPAMSpec) :
    Option Family :=
  (updateValidationInputFor field spec).bind fun input => familyFromCIDR input.cidr

def validateIPRangeNotShrinking (newSubnet oldSubnet : String) : List String :=
  match parseCIDR oldSubnet with
  | .error e => [e]
  | .ok (oldIP, oldCIDR) =>
    match parseCIDR newSubnet with
    | .error e => [e]
    | .ok (_, newCIDR) =>
      if newCIDR.contains oldIP = false ∨ oldCIDR.bits < newCIDR.bits then
        ["you cannot shrink the ip subnet"]
      else []

/-- The checks of `validateConfigurationUpdate` on the number of blocks per cluster. -/
def validatePerClusterUpdate (new old : UpdateValidationInput) : List String :=
  match old.perCluster, new.perCluster with
  | none, none => []
  | some o, some n =>
    if n < o then [new.perClusterFieldName ++ " cannot be decreased"] else []
  | _, _ => [new.perClusterFieldName ++ " cannot be toggled between set and unset"]

def validateConfigurationUpdate (oldField : ConfigurationField) (oldSpec : DPUServiceIPAMSpec)
    (newField : ConfigurationField) (newSpec : DPUServiceIPAMSpec) : List String :=
  match updateValidationInputFor oldField oldSpec, updateValidationInputFor newField newSpec with
  | some old, some new =>
    validateIPRangeNotShrinking new.cidr old.cidr ++
      (if new.allocationSize ≠ old.allocationSize then [new.allocationField ++ " is immutable"]
      else []) ++
      validatePerClusterUpdate new old
  | _, _ => []

/-- The webhook's `parseCIDR`. -/
def parseNetworkCIDR (value field : String) : Except String Prefix :=
  match parsePrefix value with
  | .error _ => .error (field ++ " " ++ value ++ " is not a valid network")
  | .ok p =>
    if p.addr.is4In6 then
      .error (field ++ " " ++ value ++ " uses an IPv4-mapped IPv6 address, which is not supported")
    else
      match parseCIDR value with
      | .error _ => .error (field ++ " " ++ value ++ " is not a valid network")
      | .ok (_, network) => .ok network

/-- The text is an address that `netip.ParseAddr` reads as IPv4-mapped. -/
def isMappedText (s : String) : Bool :=
  match Netip.parseAddr s with
  | .error _ => false
  | .ok a => a.is4In6

def isMappedPrefixText (s : String) : Bool :=
  match parsePrefix s with
  | .error _ => false
  | .ok p => p.addr.is4In6

def validateIP (ip : String) (network : Prefix) : Except String Addr :=
  match parseIP ip with
  | none => .error ("ip " ++ ip ++ " is not a valid IP")
  | some pip =>
    if isMappedText ip then
      .error ("ip " ++ ip ++ " uses an IPv4-mapped IPv6 address, which is not supported")
    else if network.contains pip = false then
      .error ("ip " ++ ip ++ " is not part of network " ++ prefixString network)
    else .ok pip

def validateExclusions (exclusions : List String) (network : Prefix) : List String :=
  exclusions.flatMap fun exclusion =>
    match validateIP exclusion network with
    | .error e => [e]
    | .ok _ => []

/-- `validateExcludeRanges` for one range. -/
def validateExcludeRange (network : Prefix) (r : ApiIPRange) : List String :=
  match validateIP r.startIP network, validateIP r.endIP network with
  | .error e, .error e' =>
    ["exclude range startIP invalid. " ++ e, "exclude range endIP invalid. " ++ e']
  | .error e, .ok _ => ["exclude range startIP invalid. " ++ e]
  | .ok _, .error e' => ["exclude range endIP invalid. " ++ e']
  | .ok startIP, .ok endIP =>
    if endIP.as16 < startIP.as16 then
      ["exclude range startIP " ++ r.startIP ++ " is greater than endIP " ++ r.endIP]
    else []

def validateExcludeRanges (ranges : List ApiIPRange) (network : Prefix) : List String :=
  ranges.flatMap (validateExcludeRange network)

def isDefaultRoute (n : Prefix) : Bool :=
  n.addr.unmap.val == 0 && n.hostBits == n.addr.unmap.family.bitLen

/-- `validateRoutes` for one route. -/
def validateRoute (network : Prefix) (defaultGateway : Bool) (dst : String) : List String :=
  match parseCIDR dst with
  | .error _ => ["route " ++ dst ++ " is not a valid subnet"]
  | .ok (_, routeNet) =>
    if isMappedPrefixText dst then
      ["route " ++ dst ++ " uses an IPv4-mapped IPv6 address, which is not supported"]
    else
      (if routeNet.addr.unmap.family ≠ network.addr.unmap.family then
        ["route " ++ dst ++ " is not same address family IPv4/IPv6"] else []) ++
      (if defaultGateway ∧ isDefaultRoute routeNet then
        ["default route " ++ dst ++ " is not allowed if 'defaultGateway' is true"] else [])

def validateRoutes (routes : List String) (network : Prefix) (defaultGateway : Bool) :
    List String :=
  routes.flatMap (validateRoute network defaultGateway)

/-- One static allocation of `validateNetwork`. -/
def validateAllocation (configuration : Network) (network : Prefix) (allocation : String) :
    List String :=
  match parseCIDR allocation with
  | .error _ => ["allocation " ++ allocation ++ " is not a valid subnet"]
  | .ok (_, allocationNetwork) =>
    if isMappedPrefixText allocation then
      ["allocation " ++ allocation ++ " uses an IPv4-mapped IPv6 address, which is not supported"]
    else if allocationNetwork.addr.family.bitLen ≠ network.addr.family.bitLen ∨
        network.contains allocationNetwork.addr = false ∨
        (allocationNetwork.bits : ℤ) ≠ configuration.prefixSize then
      ["allocation " ++ allocation ++ " is not part of the network " ++ configuration.network]
    else []

/-- The gateway check of `validateNetwork`. -/
def validateGatewayIndex (configuration : Network) (addressBits : ℕ) : List String :=
  match configuration.gatewayIndex with
  | none => []
  | some i =>
    if i < 0 then ["gatewayIndex must be at least 0"]
    else
      let blockSize := prefixAddressCount addressBits configuration.prefixSize
      if (blockSize : ℤ) ≤ i then
        ["gatewayIndex " ++ toString i ++ " is out of range for /" ++
          toString configuration.prefixSize ++ " prefix (valid range: 0–" ++
          toString (blockSize - 1) ++ ")"]
      else []

/-- The quota check of `validateNetwork`. -/
def validateSubnetsPerDPUCluster (configuration : Network) (networkPrefix : ℕ) : List String :=
  match configuration.subnetsPerDPUCluster with
  | none => []
  | some n =>
    if n < 1 then ["subnetsPerDPUCluster must be at least 1 when set"]
    else
      let totalSubnets := prefixAddressCount configuration.prefixSize networkPrefix
      if (totalSubnets : ℤ) < n then
        ["subnetsPerDPUCluster " ++ toString n ++ " exceeds the " ++ toString totalSubnets ++
          " available subnets in network " ++ configuration.network]
      else []

def validateNetwork (configuration : Network) : List String :=
  match parseNetworkCIDR configuration.network "network" with
  | .error e => [e]
  | .ok network =>
    let addressBits := network.addr.family.bitLen
    if configuration.prefixSize < 1 ∨ (addressBits : ℤ) < configuration.prefixSize then
      ["prefixSize " ++ toString configuration.prefixSize ++ " is invalid, must be between 1 and " ++
        toString addressBits]
    else if configuration.prefixSize < network.bits then
      ["prefixSize " ++ toString configuration.prefixSize ++ " doesn't fit in network prefix " ++
        toString network.bits]
    else
      validateExclusions configuration.exclusions network ++
        validateExcludeRanges configuration.excludeRanges network ++
        configuration.allocations.flatMap (fun a => validateAllocation configuration network a.2) ++
        validateGatewayIndex configuration addressBits ++
        validateSubnetsPerDPUCluster configuration network.bits ++
        validateRoutes configuration.routes network configuration.defaultGateway

def allocatableAddressCount (network : Prefix) : ℕ :=
  let addressBits := network.addr.family.bitLen
  let count := prefixAddressCount addressBits network.bits
  if network.bits < addressBits - 1 then
    match network.addr.unmap.family with
    | .v4 => count - 1 - 1
    | .v6 => count - 1
  else count

/-- The quota check of `validateSubnet`. -/
def validateBlocksPerDPUCluster (configuration : Subnet) (effectiveSize : ℕ) : List String :=
  match configuration.blocksPerDPUCluster with
  | none => []
  | some n =>
    if n < 1 then ["blocksPerDPUCluster must be at least 1 when set"]
    else
      let totalBlocks := effectiveSize / configuration.perNodeIPCount.toNat
      if (totalBlocks : ℤ) < n then
        ["blocksPerDPUCluster " ++ toString n ++ " exceeds the " ++ toString totalBlocks ++
          " available blocks in subnet " ++ configuration.subnet]
      else []

/-- The gateway checks of `validateSubnet`. -/
def validateGateway (configuration : Subnet) (network : Prefix) : List String :=
  match parseIP configuration.gateway with
  | none => ["gateway " ++ configuration.gateway ++ " is not a valid IP"]
  | some gateway =>
    if isMappedText configuration.gateway then
      ["gateway " ++ configuration.gateway ++
        " uses an IPv4-mapped IPv6 address, which is not supported"]
    else if network.contains gateway = false then
      ["gateway " ++ configuration.gateway ++ " is not part of subnet " ++ configuration.subnet]
    else []

/-- Run a check only where the checks before it found nothing. -/
def orElse (errs : List String) (next : List String) : List String :=
  if errs = [] then next else errs

/-- `validateSubnet`, which stops at the first check that fails. -/
def validateSubnet (configuration : Subnet) : List String :=
  match parseNetworkCIDR configuration.subnet "subnet" with
  | .error e => [e]
  | .ok network =>
    let addressBits := network.addr.family.bitLen
    if addressBits - 1 ≤ network.bits then
      ["subnet " ++ configuration.subnet ++ " must be larger than /" ++
        toString (addressBits - 2) ++ " — /" ++ toString (addressBits - 1) ++ " and /" ++
        toString addressBits ++ " are not supported"]
    else
      let effectiveSize := allocatableAddressCount network
      orElse (validateExcludeRanges configuration.excludeRanges network)
        (orElse (validateGateway configuration network)
          (if configuration.perNodeIPCount < 1 then ["perNodeIPCount must be at least 1"]
          else if (effectiveSize : ℤ) < configuration.perNodeIPCount then
            ["perNodeIPCount " ++ toString configuration.perNodeIPCount ++ " exceeds the " ++
              toString effectiveSize ++ " allocatable IPs in subnet " ++ configuration.subnet]
          else
            orElse (validateBlocksPerDPUCluster configuration effectiveSize)
              (validateRoutes configuration.routes network configuration.defaultGateway)))

/-- The check of the selected configuration in `validateDPUServiceIPAM`. -/
def validateConfiguration (spec : DPUServiceIPAMSpec) : List String :=
  match selectConfiguration spec with
  | .ipv4Network => (spec.ipv4Network.map validateNetwork).getD []
  | .network => (spec.network.map validateNetwork).getD []
  | .ipv4Subnet => (spec.ipv4Subnet.map validateSubnet).getD []
  | .subnet => (spec.subnet.map validateSubnet).getD []
  | .unknown => []

/-- The transition checks of `validateDPUServiceIPAM`. -/
def validateTransition (new old : DPUServiceIPAMSpec) : List String :=
  let oldField := selectConfiguration old
  let newField := selectConfiguration new
  if oldField = .unknown then []
  else if configurationMode oldField ≠ configurationMode newField then
    ["transitioning from ipv4subnet to ipv4network and vice versa is currently not supported"]
  else
    match configurationFamily oldField old, configurationFamily newField new with
    | some o, some n =>
      if o ≠ n then
        ["transitioning between address families is not supported; " ++
          "create a new DPUServiceIPAM instead"]
      else []
    | _, _ => []

/-- The update checks of `validateDPUServiceIPAM`, run within one mode and one family. An invalid
CIDR has no family and still gets its update checks. -/
def validateUpdate (new old : DPUServiceIPAMSpec) : List String :=
  let oldField := selectConfiguration old
  let newField := selectConfiguration new
  if oldField ≠ .unknown ∧ configurationMode oldField = configurationMode newField then
    match configurationFamily oldField old, configurationFamily newField new with
    | some o, some n =>
      if o = n then validateConfigurationUpdate oldField old newField new else []
    | _, _ => validateConfigurationUpdate oldField old newField new
  else []

def validateDPUServiceIPAM (newIPAM : DPUServiceIPAM) (oldIPAM : Option DPUServiceIPAM) :
    List String :=
  let spec := newIPAM.spec
  (if newIPAM.objectNamespace ≠ "dpf-operator-system" then
    ["currently only 'dpf-operator-system' namespace is supported"] else []) ++
  (if spec.network.isNone ∧ spec.subnet.isNone then
    (if spec.ipv4Network.isNone ∧ spec.ipv4Subnet.isNone then
      ["either ipv4Subnet or ipv4Network must be specified"] else []) ++
    (if spec.ipv4Network.isSome ∧ spec.ipv4Subnet.isSome then
      ["either ipv4Subnet or ipv4Network must be specified but not both"] else [])
  else []) ++
  (oldIPAM.map fun old => validateTransition spec old.spec).getD [] ++
  validateConfiguration spec ++
  (oldIPAM.map fun old => validateUpdate spec old.spec).getD []

/-- The configuration that is set, whichever API field carries it. -/
inductive Configuration where
  | network (n : Network)
  | subnet (s : Subnet)

def DPUServiceIPAMSpec.configuration : DPUServiceIPAMSpec → Configuration
  | ⟨some n, _, _, _, _⟩ => .network n
  | ⟨none, some s, _, _, _⟩ => .subnet s
  | ⟨none, none, some n, _, _⟩ => .network n
  | ⟨none, none, none, some s, _⟩ => .subnet s
  | ⟨none, none, none, none, h⟩ => absurd h (by decide)

def Configuration.updateInput : Configuration → UpdateValidationInput
  | .network n => n.updateInput
  | .subnet s => s.updateInput

def Configuration.mode : Configuration → AllocationMode
  | .network _ => .network
  | .subnet _ => .subnet

def Configuration.validate : Configuration → List String
  | .network n => validateNetwork n
  | .subnet s => validateSubnet s

section Select

variable (spec : DPUServiceIPAMSpec)

theorem selectConfiguration_ne_unknown : selectConfiguration spec ≠ .unknown := by
  obtain ⟨n4, s4, n, s, h⟩ := spec
  cases n4 <;> cases s4 <;> cases n <;> cases s <;> first | simp at h; done | simp [selectConfiguration]

theorem updateValidationInputFor_select :
    updateValidationInputFor (selectConfiguration spec) spec =
      some spec.configuration.updateInput := by
  obtain ⟨n4, s4, n, s, h⟩ := spec
  cases n4 <;> cases s4 <;> cases n <;> cases s <;> first | rfl | simp at h

theorem configurationMode_select :
    configurationMode (selectConfiguration spec) = spec.configuration.mode := by
  obtain ⟨n4, s4, n, s, h⟩ := spec
  cases n4 <;> cases s4 <;> cases n <;> cases s <;> first | rfl | simp at h

theorem validateConfiguration_eq : validateConfiguration spec = spec.configuration.validate := by
  obtain ⟨n4, s4, n, s, h⟩ := spec
  cases n4 <;> cases s4 <;> cases n <;> cases s <;> first | rfl | simp at h

theorem configurationFamily_select :
    configurationFamily (selectConfiguration spec) spec =
      familyFromCIDR spec.configuration.updateInput.cidr := by
  rw [configurationFamily, updateValidationInputFor_select]
  rfl

end Select

/-! ## What an accepted object promises -/

def DPUServiceIPAMSpec.cidr (spec : DPUServiceIPAMSpec) : String :=
  spec.configuration.updateInput.cidr

theorem parseNetworkCIDR_eq_ok {value field : String} {n : Prefix}
    (h : parseNetworkCIDR value field = .ok n) :
    ∃ p, parsePrefix value = .ok p ∧ p.addr.is4In6 = false ∧ n = p.masked := by
  unfold parseNetworkCIDR at h
  cases hp : parsePrefix value with
  | error e =>
    rw [hp] at h
    cases h
  | ok p =>
    rw [hp, parseCIDR_of_parsePrefix hp] at h
    dsimp only at h
    split_ifs at h with hm
    cases h
    exact ⟨p, rfl, by simpa using hm, rfl⟩

/-- What `validateNetwork` has checked of a configuration it accepts. -/
structure NetworkAccepted (c : Network) (network : Prefix) : Prop where
  parses : parseNetworkCIDR c.network "network" = .ok network
  fits : (network.bits : ℤ) ≤ c.prefixSize ∧ c.prefixSize ≤ network.addr.family.bitLen
  exclusions : validateExclusions c.exclusions network = []
  excludeRanges : validateExcludeRanges c.excludeRanges network = []
  allocations : ∀ x ∈ c.allocations, validateAllocation c network x.2 = []
  quota : validateSubnetsPerDPUCluster c network.bits = []

theorem validateNetwork_eq_nil {c : Network} (h : validateNetwork c = []) :
    ∃ network, NetworkAccepted c network := by
  unfold validateNetwork at h
  cases hn : parseNetworkCIDR c.network "network" with
  | error e =>
    rw [hn] at h
    cases h
  | ok network =>
    rw [hn] at h
    dsimp only at h
    split_ifs at h with hs hf
    simp only [List.append_eq_nil_iff, List.flatMap_eq_nil_iff] at h
    obtain ⟨⟨⟨⟨⟨he, hr⟩, hall⟩, -⟩, hq⟩, -⟩ := h
    exact ⟨network, hn, ⟨by omega, by omega⟩, he, hr, hall, hq⟩

/-- What `validateSubnet` has checked of a configuration it accepts. -/
structure SubnetAccepted (c : Subnet) (network : Prefix) : Prop where
  parses : parseNetworkCIDR c.subnet "subnet" = .ok network
  wide : network.bits < network.addr.family.bitLen - 1
  excludeRanges : validateExcludeRanges c.excludeRanges network = []
  fits : 1 ≤ c.perNodeIPCount ∧ c.perNodeIPCount ≤ allocatableAddressCount network
  quota : validateBlocksPerDPUCluster c (allocatableAddressCount network) = []

theorem orElse_eq_nil {errs next : List String} :
    orElse errs next = [] ↔ errs = [] ∧ next = [] := by
  unfold orElse
  by_cases h : errs = [] <;> simp [h]

theorem validateSubnet_eq_nil {c : Subnet} (h : validateSubnet c = []) :
    ∃ network, SubnetAccepted c network := by
  unfold validateSubnet at h
  cases hn : parseNetworkCIDR c.subnet "subnet" with
  | error e =>
    rw [hn] at h
    cases h
  | ok network =>
    rw [hn] at h
    dsimp only at h
    split_ifs at h with hw hc hf
    all_goals simp only [orElse_eq_nil, reduceCtorEq, and_false] at h
    obtain ⟨hr, -, hq, -⟩ := h
    exact ⟨network, hn, by omega, hr, ⟨by omega, by omega⟩, hq⟩

/-- An accepted configuration has a CIDR that both parsers read and that is not IPv4-mapped. -/
theorem Configuration.validate_eq_nil {c : Configuration} (h : c.validate = []) :
    ∃ p, parsePrefix c.updateInput.cidr = .ok p ∧ p.addr.is4In6 = false := by
  cases c with
  | network n =>
    obtain ⟨network, hn⟩ := validateNetwork_eq_nil h
    obtain ⟨p, hp, hm, -⟩ := parseNetworkCIDR_eq_ok hn.parses
    exact ⟨p, hp, hm⟩
  | subnet s =>
    obtain ⟨network, hn⟩ := validateSubnet_eq_nil h
    obtain ⟨p, hp, hm, -⟩ := parseNetworkCIDR_eq_ok hn.parses
    exact ⟨p, hp, hm⟩

theorem validateDPUServiceIPAM_cidr {new : DPUServiceIPAM} {old : Option DPUServiceIPAM}
    (h : validateDPUServiceIPAM new old = []) :
    ∃ p, parsePrefix new.spec.cidr = .ok p ∧ p.addr.is4In6 = false := by
  simp only [validateDPUServiceIPAM, List.append_eq_nil_iff, validateConfiguration_eq] at h
  exact Configuration.validate_eq_nil h.1.2

theorem is4In6_masked {p : Prefix} (h : p.addr.is4In6 = false) : p.masked.addr.is4In6 = false := by
  by_contra hm
  rw [Bool.not_eq_false] at hm
  simp only [Addr.is4In6, Bool.and_eq_true, beq_iff_eq] at hm
  obtain ⟨hf, hv⟩ := hm
  have hl := Nat.div_mul_le_self p.addr.val (2 ^ p.hostBits)
  have hva : p.masked.addr.val = p.addr.val / 2 ^ p.hostBits * 2 ^ p.hostBits := rfl
  rw [hva] at hv
  have hne : p.addr.val / 2 ^ 32 ≠ 0xffff := by
    intro hq
    rw [Addr.is4In6, hq, show p.addr.family = .v6 from hf] at h
    cases h
  -- The mapped range has odd quotient by 2^32, so at most 32 bits were masked.
  by_cases hb : p.hostBits ≤ 32
  · apply hne
    have hp : 2 ^ 32 = 2 ^ p.hostBits * 2 ^ (32 - p.hostBits) := by
      rw [← pow_add]
      congr 1
      omega
    rw [hp, ← Nat.div_div_eq_div_mul, ← hv, hp, ← Nat.div_div_eq_div_mul,
      Nat.mul_div_cancel _ (Nat.two_pow_pos _)]
  · have hp : 2 ^ p.hostBits = 2 ^ (p.hostBits - 33) * 2 * 2 ^ 32 := by
      rw [mul_assoc, ← pow_succ', ← pow_add]
      congr 1
      omega
    rw [hp, ← mul_assoc, Nat.mul_div_cancel _ (Nat.two_pow_pos _), ← mul_assoc] at hv
    omega

/-- A network that contains an address of another one and has no longer prefix contains it. -/
theorem isIn_of_contains {new old : Prefix} (hn : new.addr.is4In6 = false)
    (hold : old.addr.is4In6 = false) (hco : new.masked.contains old.addr = true)
    (hb : new.bits ≤ old.bits) : (rangeFromPrefix old).isIn (rangeFromPrefix new) := by
  have hm := is4In6_masked hn
  simp only [Prefix.contains, Addr.unmap, hm, hold, hostBits_masked, Bool.and_eq_true,
    beq_iff_eq, Bool.false_eq_true, if_false] at hco
  obtain ⟨hf, hq⟩ := hco
  have hf' : new.addr.family = old.addr.family := hf
  have hp : 0 < 2 ^ new.hostBits := Nat.two_pow_pos _
  have hv : new.masked.addr.val = new.addr.val / 2 ^ new.hostBits * 2 ^ new.hostBits := rfl
  rw [hv, Nat.mul_div_cancel _ hp] at hq
  have hh : old.hostBits ≤ new.hostBits := by
    unfold Prefix.hostBits
    rw [hf']
    omega
  obtain ⟨d, hd⟩ := Nat.exists_eq_add_of_le hh
  have hs : 2 ^ new.hostBits = 2 ^ old.hostBits * 2 ^ d := by rw [hd, pow_add]
  have hdi : old.addr.val / 2 ^ old.hostBits / 2 ^ d = new.addr.val / 2 ^ new.hostBits := by
    rw [Nat.div_div_eq_div_mul, ← hs, hq]
  have hpo : 0 < 2 ^ d := Nat.two_pow_pos _
  have hposo : 0 < 2 ^ old.hostBits := Nat.two_pow_pos _
  -- In units of the old network, the new one is the row of `2 ^ d` networks around it.
  have hlo : new.addr.val / 2 ^ new.hostBits * 2 ^ d ≤ old.addr.val / 2 ^ old.hostBits := by
    rw [← hdi]
    exact Nat.div_mul_le_self _ _
  have hhi : old.addr.val / 2 ^ old.hostBits + 1 ≤
      (new.addr.val / 2 ^ new.hostBits + 1) * 2 ^ d := by
    rw [← hdi]
    exact Nat.lt_mul_of_div_lt (Nat.lt_succ_self _) hpo
  have hlo' := Nat.mul_le_mul_right (2 ^ old.hostBits) hlo
  have hhi' := Nat.mul_le_mul_right (2 ^ old.hostBits) hhi
  have hc : ∀ x, x * 2 ^ d * 2 ^ old.hostBits = x * 2 ^ new.hostBits := by
    intro x
    rw [hs, mul_assoc, mul_comm (2 ^ d)]
  rw [hc] at hlo' hhi'
  rw [add_mul, one_mul, add_mul, one_mul] at hhi'
  refine ⟨hf'.symm, hlo', ?_⟩
  simp only [rangeFromPrefix]
  omega

/-- An accepted update never shrinks the network: the old range lies in the new one. -/
theorem validateDPUServiceIPAM_update {new old : DPUServiceIPAM} {p q : Prefix}
    (h : validateDPUServiceIPAM new (some old) = []) (hq : parsePrefix old.spec.cidr = .ok q)
    (hqm : q.addr.is4In6 = false) (hp : parsePrefix new.spec.cidr = .ok p) :
    (rangeFromPrefix q).isIn (rangeFromPrefix p) := by
  obtain ⟨p', hp', hpm⟩ := validateDPUServiceIPAM_cidr h
  rw [hp] at hp'
  cases hp'
  simp only [validateDPUServiceIPAM, List.append_eq_nil_iff, Option.map_some, Option.getD_some] at h
  obtain ⟨⟨⟨-, ht⟩, -⟩, hu⟩ := h
  have hfp : familyFromCIDR new.spec.cidr = some p.addr.family := by
    simp [familyFromCIDR, hp, hpm]
  have hfq : familyFromCIDR old.spec.cidr = some q.addr.family := by
    simp [familyFromCIDR, hq, hqm]
  change familyFromCIDR new.spec.configuration.updateInput.cidr = _ at hfp
  change familyFromCIDR old.spec.configuration.updateInput.cidr = _ at hfq
  simp only [validateTransition, validateUpdate, configurationFamily_select, hfp, hfq,
    selectConfiguration_ne_unknown, if_false, ne_eq, not_false_eq_true, true_and,
    validateConfigurationUpdate, updateValidationInputFor_select] at ht hu
  split_ifs at ht with hm hf
  rw [if_pos hm, if_pos hf] at hu
  simp only [List.append_eq_nil_iff] at hu
  have hs := hu.1.1
  change validateIPRangeNotShrinking new.spec.cidr old.spec.cidr = [] at hs
  simp only [validateIPRangeNotShrinking, parseCIDR_of_parsePrefix hq,
    parseCIDR_of_parsePrefix hp] at hs
  split_ifs at hs with hb
  push Not at hb
  exact isIn_of_contains hpm hqm (by simpa using hb.1) hb.2

end DocaPlatform.IpamWebhook
