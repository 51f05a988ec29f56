import DocaPlatform.FreeNumbers
import DocaPlatform.EncryptionConfig

/-!
# The SF and VF plans of a DPU

The groups of a DPUFlavor are expanded into Scalable Functions and Virtual Functions on the ports
that they select. Both kinds are numbered by a cursor on each device; the numbers that SF groups pin
are reserved before it starts.
-/
namespace DocaPlatform.SriovPlan

open Netip EncryptionConfig FreeNumbers Runs List Function

structure NICPort where
  netdev : String
  pciAddress : String
  deriving DecidableEq, Repr

/-- `ScalableFunctionOptions`. -/
structure SFOptions where
  macAddress : Option String
  sfNumStart : Option ℕ
  trusted : Option Bool
  controller : Option ℕ
  cpuList : Option String
  disableRoCE : Option Bool
  disableNetdev : Option Bool
  deriving DecidableEq, Repr

structure SFGroup where
  count : Option ℕ
  device : Option String
  hostDevice : Option Bool
  poolName : Option String
  options : Option SFOptions
  deriving DecidableEq, Repr

structure PlannedSF where
  device : String
  netdev : String
  sfNum : ℕ
  poolName : String
  trusted : Bool
  controller : Option ℕ
  cpuList : String
  mac : String
  disableRoCE : Bool
  disableNetdev : Bool
  deriving DecidableEq, Repr

structure VirtualFunction where
  count : Option ℕ
  device : Option String
  poolName : Option String
  macAddress : Option String
  deriving DecidableEq, Repr

structure PlannedVF where
  device : String
  netdev : String
  index : ℕ
  count : ℕ
  poolName : String
  mac : String
  deriving DecidableEq, Repr

/-- `pciutil.NormalizeAddress`. -/
def normalizeAddress (address : String) : String :=
  let address := (trimSpace address).toLower
  if address.toList.count ':' = 1 then "0000:" ++ address else address

def selectPorts (ports : List NICPort) (device : Option String) : List NICPort :=
  let selector := trimSpace (device.getD "*")
  if selector = "" ∨ selector = "*" then ports
  else ports.filter fun port => port.netdev.toLower = selector.toLower ∨
    normalizeAddress port.pciAddress = normalizeAddress selector

def selectGroupPorts (ports : List NICPort) (device : Option String) (count : ℕ) (field : String)
    (index : ℕ) : Except String (List NICPort) :=
  let selected := selectPorts ports device
  if 0 < count ∧ selected = [] then
    .error (field ++ "[" ++ toString index ++ "]: device " ++ quote (device.getD "*") ++
      " matches no discovered port")
  else .ok selected

structure DeviceCursor where
  next : String → ℕ
  reserved : String → List ℕ

def newDeviceCursor : DeviceCursor := ⟨fun _ => 0, fun _ => []⟩

/-- `reserve`; nothing if the number was already pinned. -/
def DeviceCursor.reserve (c : DeviceCursor) (device : String) (num : ℕ) : Option DeviceCursor :=
  if num ∈ c.reserved device then none
  else some { c with reserved := update c.reserved device (num :: c.reserved device) }

def DeviceCursor.take (c : DeviceCursor) (device : String) (n : ℕ) : List ℕ × DeviceCursor :=
  let taken := takeFree (c.reserved device) n (c.next device)
  (taken.1, { c with next := update c.next device taken.2 })

/-! ## Scalable Functions -/

def SFGroup.number (g : SFGroup) : ℕ := g.count.getD 0

/-- `pinnedSFNums`; an empty list if the agent numbers the group. -/
def pinnedSFNums (g : SFGroup) : List ℕ :=
  match g.options.bind SFOptions.sfNumStart with
  | some start => if g.number = 0 then [] else List.range' start g.number
  | none => []

section MAC

-- `net.ParseMAC`: the bytes of a hardware address.
variable (parseMAC : String → Except String (List ℕ))

/-- A byte in two hexadecimal digits. -/
def hexByte (b : ℕ) : String :=
  String.ofList [Nat.digitChar (b / 16 % 16), Nat.digitChar (b % 16)]

def canonicalMAC (value : String) : Except String String :=
  match parseMAC value with
  | .error e => .error ("invalid MAC address " ++ quote value ++ ": " ++ e)
  | .ok hw =>
    if hw.length ≠ 6 then
      .error ("invalid MAC address " ++ quote value ++ ": must be a 48-bit Ethernet MAC")
    else .ok (":".intercalate (hw.map hexByte))

def newPlannedSF (g : SFGroup) (port : NICPort) (sfNum : ℕ) : Except String PlannedSF :=
  let sf : PlannedSF := {
    device := port.pciAddress
    netdev := port.netdev
    sfNum := sfNum
    poolName := g.poolName.getD ""
    trusted := false
    controller := if g.hostDevice.getD false then some 1 else none
    cpuList := ""
    mac := ""
    disableRoCE := false
    disableNetdev := false }
  match g.options with
  | none => .ok sf
  | some o =>
    let sf := { sf with
      trusted := o.trusted.getD false
      cpuList := o.cpuList.getD ""
      disableRoCE := o.disableRoCE.getD false
      disableNetdev := o.disableNetdev.getD false
      controller := o.controller.or sf.controller }
    match o.macAddress with
    | none => .ok sf
    | some value =>
      match canonicalMAC parseMAC value with
      | .error e => .error ("options.macAddress: " ++ e)
      | .ok mac => .ok { sf with mac := mac }

/-- The loops of `resolveSFs` that reserve the pinned numbers of a group, over the pairs of a number
and a port. -/
def reserveRun (index : ℕ) : DeviceCursor → List (ℕ × NICPort) → Except String DeviceCursor
  | c, [] => .ok c
  | c, (num, port) :: rest =>
    match c.reserve port.pciAddress num with
    | none => .error ("scalableFunctions[" ++ toString index ++ "]: sfnum " ++ toString num ++
        " is already taken on device " ++ port.netdev)
    | some c' => reserveRun index c' rest

/-- The pairs of a pinned number and a selected port. -/
def pins (g : SFGroup) (selected : List NICPort) : List (ℕ × NICPort) :=
  (pinnedSFNums g).flatMap fun num => selected.map fun port => (num, port)

/-- The first loop of `resolveSFs`: the selected ports of each group, and the cursor. -/
def reserveGroups (ports : List NICPort) :
    ℕ → DeviceCursor → List SFGroup → Except String (List (List NICPort) × DeviceCursor)
  | _, c, [] => .ok ([], c)
  | index, c, g :: rest => do
    let selected ← selectGroupPorts ports g.device g.number "scalableFunctions" index
    let c ← reserveRun index c (pins g selected)
    let (targets, c) ← reserveGroups ports (index + 1) c rest
    return (selected :: targets, c)

/-- The innermost loop of `resolveSFs`. -/
def planRun (index : ℕ) (g : SFGroup) (port : NICPort) : List ℕ → Except String (List PlannedSF)
  | [] => .ok []
  | num :: rest =>
    match newPlannedSF parseMAC g port num with
    | .error e => .error ("scalableFunctions[" ++ toString index ++ "]: " ++ e)
    | .ok sf => do
      let sfs ← planRun index g port rest
      return sf :: sfs

/-- The second loop of `resolveSFs`, over the groups with each port that they select. -/
def planGroups : DeviceCursor → List (ℕ × SFGroup × NICPort) → Except String (List PlannedSF)
  | _, [] => .ok []
  | c, (index, g, port) :: rest => do
    let (nums, c) := match pinnedSFNums g with
      | [] => c.take port.pciAddress g.number
      | nums => (nums, c)
    let sfs ← planRun parseMAC index g port nums
    let out ← planGroups c rest
    return sfs ++ out

/-- The groups with each port that they select, from the targets of the first loop. -/
def withTargets : ℕ → List SFGroup → List (List NICPort) → List (ℕ × SFGroup × NICPort)
  | index, g :: groups, selected :: targets =>
    (selected.map fun port => (index, g, port)) ++ withTargets (index + 1) groups targets
  | _, _, _ => []

def resolveSFs (groups : List SFGroup) (ports : List NICPort) : Except String (List PlannedSF) := do
  let (targets, cursor) ← reserveGroups ports 0 newDeviceCursor groups
  planGroups parseMAC cursor (withTargets 0 groups targets)

def VirtualFunction.number (g : VirtualFunction) : ℕ := g.count.getD 0

/-- `vfPlan`; a device that no group selects has no total. -/
structure VFPlan where
  vfs : List PlannedVF
  totals : String → Option ℕ

/-- The body of the inner loop of `resolveVFPlan`. -/
def planVF (index : ℕ) (g : VirtualFunction) (port : NICPort) (c : DeviceCursor) (plan : VFPlan) :
    Except String (DeviceCursor × VFPlan) :=
  let plan := { plan with
    totals := update plan.totals port.pciAddress
      (some ((plan.totals port.pciAddress).getD 0 + g.number)) }
  if g.number = 0 then .ok (c, plan)
  else
    let (nums, c) := c.take port.pciAddress g.number
    let vf : PlannedVF := {
      device := port.pciAddress
      netdev := port.netdev
      index := nums.headD 0
      count := g.number
      poolName := g.poolName.getD ""
      mac := "" }
    match g.macAddress with
    | none => .ok (c, { plan with vfs := plan.vfs ++ [vf] })
    | some value =>
      match canonicalMAC parseMAC value with
      | .error e => .error ("virtualFunctions[" ++ toString index ++ "]: options.macAddress: " ++ e)
      | .ok mac => .ok (c, { plan with vfs := plan.vfs ++ [{ vf with mac := mac }] })

/-- The inner loop of `resolveVFPlan`. -/
def planVFs (index : ℕ) (g : VirtualFunction) :
    List NICPort → DeviceCursor → VFPlan → Except String (DeviceCursor × VFPlan)
  | [], c, plan => .ok (c, plan)
  | port :: rest, c, plan => do
    let (c, plan) ← planVF parseMAC index g port c plan
    planVFs index g rest c plan

/-- The loop of `resolveVFPlan` over the groups. -/
def planVFGroups (ports : List NICPort) :
    ℕ → List VirtualFunction → DeviceCursor → VFPlan → Except String (DeviceCursor × VFPlan)
  | _, [], c, plan => .ok (c, plan)
  | index, g :: rest, c, plan => do
    let selected ← selectGroupPorts ports g.device g.number "virtualFunctions" index
    let (c, plan) ← planVFs parseMAC index g selected c plan
    planVFGroups ports (index + 1) rest c plan

def resolveVFPlan (virtualFunctions : List VirtualFunction) (ports : List NICPort) :
    Except String VFPlan :=
  if ports = [] then .error "target physical port not found"
  else do
    let (_, plan) ← planVFGroups parseMAC ports 0 virtualFunctions newDeviceCursor
      ⟨[], fun _ => none⟩
    return plan

end MAC

/-! ## Reserved numbers -/

def SFGroup.selected (ports : List NICPort) (g : SFGroup) : List NICPort :=
  selectPorts ports g.device

/-- Two groups pin one number on a port that both select. -/
def SharesPin (ports : List NICPort) (g g' : SFGroup) : Prop :=
  ∃ port ∈ g.selected ports, port ∈ g'.selected ports ∧
    ∃ num ∈ pinnedSFNums g, num ∈ pinnedSFNums g'

theorem selectPorts_sublist (ports : List NICPort) (device : Option String) :
    (selectPorts ports device).Sublist ports := by
  unfold selectPorts
  dsimp only
  split_ifs
  · exact List.Sublist.refl ports
  · exact filter_sublist

variable {ports : List NICPort} {device : Option String} {index : ℕ} {e : String}
  {c c' : DeviceCursor}

variable {selected : List NICPort} {items : List (ℕ × NICPort)} {d : String} {n num : ℕ}
  {groups : List SFGroup}

theorem selectGroupPorts_ok {count : ℕ} {field : String}
    (h : selectGroupPorts ports device count field index = .ok selected) :
    selected = selectPorts ports device := by
  unfold selectGroupPorts at h
  dsimp only at h
  split_ifs at h
  cases h
  rfl

theorem selectGroupPorts_error {count : ℕ} {field : String}
    (h : selectGroupPorts ports device count field index = .error e) :
    0 < count ∧ selectPorts ports device = [] := by
  unfold selectGroupPorts at h
  dsimp only at h
  split_ifs at h with hn
  exact hn

theorem nodup_pinnedSFNums (g : SFGroup) : (pinnedSFNums g).Nodup := by
  unfold pinnedSFNums
  split
  · split_ifs
    · exact nodup_nil
    · exact nodup_range'
  · exact nodup_nil

theorem pinnedSFNums_length {g : SFGroup} (h : pinnedSFNums g ≠ []) :
    (pinnedSFNums g).length = g.number := by
  unfold pinnedSFNums at h ⊢
  split at h
  · split_ifs at h ⊢
    · exact absurd rfl h
    · exact length_range'
  · exact absurd rfl h

def numsAt (items : List (ℕ × NICPort)) (device : String) : List ℕ :=
  (items.filter (·.2.pciAddress = device)).map Prod.fst

/-- The cursor has reserved the numbers of the items, each of them once on each device. -/
structure Reserves (c c' : DeviceCursor) (items : List (ℕ × NICPort)) : Prop where
  next : c'.next = c.next
  perm : ∀ d, (c'.reserved d).Perm (numsAt items d ++ c.reserved d)
  nodup : ∀ d, (c.reserved d).Nodup → (c'.reserved d).Nodup

theorem Reserves.refl (c : DeviceCursor) : Reserves c c [] :=
  ⟨rfl, fun _ => .refl _, fun _ => id⟩

theorem Reserves.append {c'' : DeviceCursor} {items' : List (ℕ × NICPort)} (h : Reserves c c' items)
    (h' : Reserves c' c'' items') :
    Reserves c c'' (items ++ items') where
  next := h'.next.trans h.next
  perm d := by
    have ha : numsAt (items ++ items') d = numsAt items d ++ numsAt items' d := by
      simp [numsAt]
    rw [ha, append_assoc]
    refine (h'.perm d).trans (((h.perm d).append_left _).trans ?_)
    rw [← append_assoc, ← append_assoc]
    exact perm_append_comm.append_right _
  nodup d hd := h'.nodup d (h.nodup d hd)

theorem Reserves.mem_iff (h : Reserves c c' items) :
    n ∈ c'.reserved d ↔ n ∈ numsAt items d ∨ n ∈ c.reserved d := by
  rw [(h.perm d).mem_iff, mem_append]

theorem mem_numsAt : n ∈ numsAt items d ↔ ∃ x ∈ items, d = x.2.pciAddress ∧ n = x.1 := by
  simp [numsAt, and_assoc, eq_comm (a := d), eq_comm (a := n)]

theorem reserve_some {port : NICPort} (h : c.reserve port.pciAddress num = some c') :
    Reserves c c' [(num, port)] := by
  unfold DeviceCursor.reserve at h
  split_ifs at h with hmem
  cases h
  refine ⟨rfl, fun d => ?_, fun d hd => ?_⟩
  · by_cases hp : port.pciAddress = d
    · simp [numsAt, ← hp]
    · simp [numsAt, hp, update_of_ne (Ne.symm hp)]
  · by_cases hp : d = port.pciAddress
    · subst hp
      simpa using ⟨hmem, hd⟩
    · simpa [hp] using hd

theorem reserveRun_ok (h : reserveRun index c items = .ok c') : Reserves c c' items := by
  induction items generalizing c with
  | nil =>
    cases h
    exact .refl _
  | cons x rest ih =>
    simp only [reserveRun] at h
    split at h
    · cases h
    · rename_i c₁ hr
      exact (reserve_some hr).append (ih h)

/-- A run of different reservations fails only on a number that was reserved before. -/
theorem reserveRun_error (h : reserveRun index c items = .error e)
    (hnd : (items.map fun x => (x.1, x.2.pciAddress)).Nodup) :
    ∃ x ∈ items, x.1 ∈ c.reserved x.2.pciAddress := by
  induction items generalizing c with
  | nil => cases h
  | cons x rest ih =>
    obtain ⟨num, port⟩ := x
    simp only [reserveRun] at h
    split at h
    · rename_i hr
      unfold DeviceCursor.reserve at hr
      split_ifs at hr with hmem
      exact ⟨(num, port), mem_cons_self, hmem⟩
    · rename_i c₁ hr
      rw [map_cons, nodup_cons] at hnd
      obtain ⟨y, hy, hold⟩ := ih h hnd.2
      rcases (reserve_some hr).mem_iff.mp hold with hnew | hold
      · obtain ⟨z, hz, hd, hn⟩ := mem_numsAt.mp hnew
        refine absurd (mem_map.mpr ⟨y, hy, ?_⟩) hnd.1
        rw [hd, hn, mem_singleton.mp hz]
      · exact ⟨y, mem_cons_of_mem _ hy, hold⟩

theorem mem_pins {g : SFGroup} {x : ℕ × NICPort} :
    x ∈ pins g selected ↔ x.1 ∈ pinnedSFNums g ∧ x.2 ∈ selected := by
  unfold pins
  simp only [mem_flatMap, mem_map]
  constructor
  · rintro ⟨num, hn, port, hp, rfl⟩
    exact ⟨hn, hp⟩
  · rintro ⟨hn, hp⟩
    exact ⟨x.1, hn, x.2, hp, rfl⟩

theorem nodup_pins (hp : (ports.map NICPort.pciAddress).Nodup) (g : SFGroup) :
    ((pins g (g.selected ports)).map fun x => (x.1, x.2.pciAddress)).Nodup := by
  have hs : ((g.selected ports).map NICPort.pciAddress).Nodup :=
    hp.sublist ((selectPorts_sublist ports g.device).map _)
  unfold pins
  rw [map_flatMap, nodup_flatMap]
  constructor
  · intro num _
    rw [map_map]
    have hm : (g.selected ports).map ((fun x : ℕ × NICPort => (x.1, x.2.pciAddress)) ∘
        fun port => (num, port)) = ((g.selected ports).map NICPort.pciAddress).map (num, ·) := by
      rw [map_map]
      rfl
    rw [hm]
    exact hs.map fun a b hab => (Prod.mk.inj hab).2
  · refine (nodup_pinnedSFNums g).imp ?_
    intro a b hne x hx hy
    simp only [mem_map, map_map, Function.comp] at hx hy
    obtain ⟨_, _, rfl⟩ := hx
    obtain ⟨_, _, heq⟩ := hy
    exact hne (Prod.mk.inj heq).1.symm

def allPins (groups : List SFGroup) (ports : List NICPort) : List (ℕ × NICPort) :=
  groups.flatMap fun g => pins g (g.selected ports)

def pinnedAt (groups : List SFGroup) (ports : List NICPort) (device : String) : List ℕ :=
  numsAt (allPins groups ports) device

theorem mem_pinnedAt :
    n ∈ pinnedAt groups ports d ↔
      ∃ g ∈ groups, n ∈ pinnedSFNums g ∧ ∃ port ∈ g.selected ports, port.pciAddress = d := by
  simp only [pinnedAt, mem_numsAt, allPins, mem_flatMap, mem_pins]
  constructor
  · rintro ⟨x, ⟨g, hg, hn, hp⟩, rfl, rfl⟩
    exact ⟨g, hg, hn, x.2, hp, rfl⟩
  · rintro ⟨g, hg, hn, port, hp, rfl⟩
    exact ⟨(n, port), ⟨g, hg, hn, hp⟩, rfl, rfl⟩

theorem reserveGroups_ok {targets : List (List NICPort)}
    (h : reserveGroups ports index c groups = .ok (targets, c')) :
    targets = groups.map (SFGroup.selected ports) ∧ Reserves c c' (allPins groups ports) := by
  induction groups generalizing index c targets with
  | nil =>
    cases h
    exact ⟨rfl, .refl _⟩
  | cons g rest ih =>
    obtain ⟨selected, hs, h⟩ := bind_eq_ok.mp h
    obtain ⟨c₁, hru, h⟩ := bind_eq_ok.mp h
    obtain ⟨⟨targets', c₂⟩, hre, h⟩ := bind_eq_ok.mp h
    cases h
    obtain rfl := selectGroupPorts_ok hs
    obtain ⟨rfl, hr⟩ := ih hre
    exact ⟨rfl, (reserveRun_ok hru).append hr⟩

theorem eq_of_pciAddress (hp : (ports.map NICPort.pciAddress).Nodup) {port port' : NICPort}
    {device' : Option String} (h : port ∈ selectPorts ports device)
    (h' : port' ∈ selectPorts ports device') (heq : port.pciAddress = port'.pciAddress) :
    port = port' :=
  inj_on_of_nodup_map hp ((selectPorts_sublist ports device).subset h)
    ((selectPorts_sublist ports device').subset h') heq

theorem reserveGroups_error (hpo : (ports.map NICPort.pciAddress).Nodup)
    (h : reserveGroups ports index c groups = .error e) :
    (∃ g ∈ groups, 0 < g.number ∧ g.selected ports = []) ∨
      (∃ g ∈ groups, ∃ num ∈ pinnedSFNums g, ∃ port ∈ g.selected ports,
        num ∈ c.reserved port.pciAddress) ∨
      ¬ groups.Pairwise (fun g g' => ¬ SharesPin ports g g') := by
  induction groups generalizing index c with
  | nil => cases h
  | cons g rest ih =>
    obtain hs | ⟨selected, hs, h⟩ := bind_eq_error.mp h
    · exact .inl ⟨g, mem_cons_self, selectGroupPorts_error hs⟩
    obtain rfl := selectGroupPorts_ok hs
    obtain hru | ⟨c₁, hru, h⟩ := bind_eq_error.mp h
    · obtain ⟨x, hx, hold⟩ := reserveRun_error hru (nodup_pins hpo g)
      obtain ⟨hnu, hport⟩ := mem_pins.mp hx
      exact .inr (.inl ⟨g, mem_cons_self, x.1, hnu, x.2, hport, hold⟩)
    obtain hr | ⟨_, -, h⟩ := bind_eq_error.mp h
    swap
    · cases h
    rcases ih hr with ⟨g', hg', hno⟩ | ⟨g', hg', num, hnu, port, hport, hold⟩ | hp
    · exact .inl ⟨g', mem_cons_of_mem g hg', hno⟩
    · -- The number was reserved before all groups, or by the first one.
      rcases (reserveRun_ok hru).mem_iff.mp hold with hnew | hold
      · obtain ⟨x, hx, hd, hn⟩ := mem_numsAt.mp hnew
        obtain ⟨hnum', hport'⟩ := mem_pins.mp hx
        obtain rfl := eq_of_pciAddress hpo hport hport' hd
        refine .inr (.inr fun hall => ?_)
        exact (pairwise_cons.mp hall).1 g' hg' ⟨x.2, hport', hport, num, hn ▸ hnum', hnu⟩
      · exact .inr (.inl ⟨g', mem_cons_of_mem g hg', num, hnu, port, hport, hold⟩)
    · exact .inr (.inr fun hall => hp (pairwise_cons.mp hall).2)

/-! ## Planned functions -/

section Plan

variable (parseMAC : String → Except String (List ℕ))

def InvalidMAC (macAddress : Option String) : Prop :=
  ∃ value e, macAddress = some value ∧ canonicalMAC parseMAC value = .error e

/-- The numbers of a group on one of its ports. -/
structure Run where
  group : SFGroup
  port : NICPort
  nums : List ℕ

/-- The run is on the device, and the cursor has numbered it. -/
def Run.drawn (device : String) (r : Run) : Bool :=
  r.port.pciAddress = device ∧ pinnedSFNums r.group = []

variable {parseMAC}

variable {port : NICPort} {e : String} {index : ℕ} {c c' : DeviceCursor} {ports : List NICPort}
  {groups : List SFGroup} {runs : List Run} {g : VirtualFunction} {plan plan' : VFPlan}
  {done : List (VirtualFunction × NICPort)}

theorem newPlannedSF_ok {g : SFGroup} {sf : PlannedSF}
    (h : newPlannedSF parseMAC g port num = .ok sf) :
    sf.device = port.pciAddress ∧ sf.sfNum = num ∧ sf.netdev = port.netdev ∧
      sf.poolName = g.poolName.getD "" := by
  unfold newPlannedSF at h
  dsimp only at h
  split at h
  · cases h
    exact ⟨rfl, rfl, rfl, rfl⟩
  · split at h
    · cases h
      exact ⟨rfl, rfl, rfl, rfl⟩
    · split at h
      · cases h
      · cases h
        exact ⟨rfl, rfl, rfl, rfl⟩

theorem newPlannedSF_error {g : SFGroup} (h : newPlannedSF parseMAC g port num = .error e) :
    InvalidMAC parseMAC (g.options.bind SFOptions.macAddress) := by
  unfold newPlannedSF at h
  dsimp only at h
  split at h
  · cases h
  · rename_i o ho
    split at h
    · cases h
    · rename_i value hv
      split at h
      · rename_i e' he'
        exact ⟨value, e', by rw [ho]; exact hv, he'⟩
      · cases h

theorem planRun_ok {g : SFGroup} {nums : List ℕ} {sfs : List PlannedSF}
    (h : planRun parseMAC index g port nums = .ok sfs) :
    nums.map (newPlannedSF parseMAC g port) = sfs.map .ok ∧
      (∀ sf ∈ sfs, sf.device = port.pciAddress) ∧ sfs.map PlannedSF.sfNum = nums := by
  induction nums generalizing sfs with
  | nil =>
    cases h
    simp
  | cons num rest ih =>
    simp only [planRun] at h
    split at h
    · cases h
    · rename_i sf hsf
      obtain ⟨sfs', hr, h⟩ := bind_eq_ok.mp h
      cases h
      obtain ⟨hm, hd, hn⟩ := ih hr
      obtain ⟨hs, hsfn, -⟩ := newPlannedSF_ok hsf
      refine ⟨by rw [map_cons, map_cons, hsf, hm], ?_, ?_⟩
      · exact forall_mem_cons.mpr ⟨hs, hd⟩
      · rw [map_cons, hsfn, hn]

theorem planRun_error {g : SFGroup} {nums : List ℕ}
    (h : planRun parseMAC index g port nums = .error e) :
    InvalidMAC parseMAC (g.options.bind SFOptions.macAddress) := by
  induction nums generalizing e with
  | nil => cases h
  | cons num rest ih =>
    simp only [planRun] at h
    split at h
    · rename_i e' he'
      exact newPlannedSF_error he'
    · obtain hr | ⟨_, -, h⟩ := bind_eq_error.mp h
      · exact ih hr
      · cases h

/-- The numbers of a group on a port in the second loop, and the cursor after it. -/
def numbers (c : DeviceCursor) (g : SFGroup) (port : NICPort) : List ℕ × DeviceCursor :=
  match pinnedSFNums g with
  | [] => c.take port.pciAddress g.number
  | nums => (nums, c)

theorem planGroups_cons (c : DeviceCursor) (index : ℕ) (g : SFGroup) (port : NICPort)
    (rest : List (ℕ × SFGroup × NICPort)) :
    planGroups parseMAC c ((index, g, port) :: rest) = (do
      let sfs ← planRun parseMAC index g port (numbers c g port).1
      let out ← planGroups parseMAC (numbers c g port).2 rest
      return sfs ++ out) := rfl

/-- A pinned run leaves the cursor; another one moves it over the free numbers that it takes. -/
theorem numbers_spec (c : DeviceCursor) (g : SFGroup) (port : NICPort) :
    (numbers c g port).1.length = g.number ∧ (numbers c g port).2.reserved = c.reserved ∧
      (pinnedSFNums g ≠ [] → (numbers c g port).1 = pinnedSFNums g ∧
        (numbers c g port).2.next = c.next) ∧
      (pinnedSFNums g = [] →
        c.next port.pciAddress ≤ (numbers c g port).2.next port.pciAddress ∧
        (numbers c g port).1 = free (c.reserved port.pciAddress) (c.next port.pciAddress)
          ((numbers c g port).2.next port.pciAddress) ∧
        ∀ d, d ≠ port.pciAddress → (numbers c g port).2.next d = c.next d) := by
  by_cases hp : pinnedSFNums g = []
  · have hn : numbers c g port = c.take port.pciAddress g.number := by
      unfold numbers
      rw [hp]
    obtain ⟨hle, hl, hf⟩ :=
      takeFree_spec (c.reserved port.pciAddress) g.number (c.next port.pciAddress)
    rw [hn]
    refine ⟨hl, rfl, fun h => absurd hp h, fun _ => ?_⟩
    simp only [DeviceCursor.take, update_self]
    exact ⟨hle, hf, fun d hd => update_of_ne hd ..⟩
  · have hn : numbers c g port = (pinnedSFNums g, c) := by
      unfold numbers
      split
      · contradiction
      · rfl
    rw [hn]
    exact ⟨pinnedSFNums_length hp, rfl, fun _ => ⟨rfl, rfl⟩, fun h => absurd h hp⟩

variable {out : List PlannedSF}

/-- The second loop: what the groups get on their ports. On each device the cursor hands out the
free numbers in sequence. -/
theorem planGroups_ok {items : List (ℕ × SFGroup × NICPort)}
    (h : planGroups parseMAC c items = .ok out) :
    ∃ runs : List Run, runs.map (fun r => (r.group, r.port)) = items.map Prod.snd ∧
      (∀ r ∈ runs, r.nums.length = r.group.number ∧
        (pinnedSFNums r.group ≠ [] → r.nums = pinnedSFNums r.group)) ∧
      (runs.flatMap fun r => r.nums.map (newPlannedSF parseMAC r.group r.port)) = out.map .ok ∧
      (∀ device, (out.filter (·.device = device)).map PlannedSF.sfNum =
        (runs.filter (·.port.pciAddress = device)).flatMap Run.nums) ∧
      ∀ device, ∃ bound, c.next device ≤ bound ∧
        (runs.filter (Run.drawn device)).flatMap Run.nums =
          free (c.reserved device) (c.next device) bound := by
  induction items generalizing c out with
  | nil =>
    cases h
    exact ⟨[], rfl, by simp, rfl, by simp, fun device => ⟨c.next device, le_rfl, by simp⟩⟩
  | cons x rest ih =>
    obtain ⟨index, g, port⟩ := x
    rw [planGroups_cons] at h
    obtain ⟨sfs, hs, h⟩ := bind_eq_ok.mp h
    obtain ⟨out', hou, h⟩ := bind_eq_ok.mp h
    cases h
    obtain ⟨hl, hre, hpi, hdr⟩ := numbers_spec c g port
    obtain ⟨hm, hde, hn⟩ := planRun_ok hs
    obtain ⟨runs, ho, hc, hpl, hon, hf⟩ := ih hou
    refine ⟨⟨g, port, (numbers c g port).1⟩ :: runs, ?_, ?_, ?_, ?_, ?_⟩
    · rw [map_cons, map_cons, ho]
    · exact forall_mem_cons.mpr ⟨⟨hl, fun hp => (hpi hp).1⟩, hc⟩
    · rw [flatMap_cons, hpl, map_append, hm]
    · intro device
      rw [filter_append, map_append, hon device]
      by_cases hd : port.pciAddress = device
      · rw [filter_eq_self.mpr fun sf hsf => by simp [hde sf hsf, hd], hn,
          filter_cons_of_pos (by simp [hd]), flatMap_cons]
      · rw [filter_eq_nil_iff.mpr fun sf hsf => by simp [hde sf hsf, hd],
          filter_cons_of_neg (by simp [hd])]
        rfl
    · intro device
      obtain ⟨bound, hle, hrest⟩ := hf device
      rw [hre] at hrest
      by_cases hpinn : pinnedSFNums g = []
      · obtain ⟨hst, ht, hot⟩ := hdr hpinn
        by_cases hd : port.pciAddress = device
        · subst hd
          refine ⟨bound, hst.trans hle, ?_⟩
          rw [filter_cons_of_pos (by simp [Run.drawn, hpinn]), flatMap_cons, hrest,
            ht, free_append hst hle]
        · rw [hot device (Ne.symm hd)] at hle hrest
          refine ⟨bound, hle, ?_⟩
          rw [filter_cons_of_neg (by simp [Run.drawn, hd]), hrest]
      · rw [(hpi hpinn).2] at hle hrest
        refine ⟨bound, hle, ?_⟩
        rw [filter_cons_of_neg (by simp [Run.drawn, hpinn]), hrest]

theorem planGroups_error {items : List (ℕ × SFGroup × NICPort)}
    (h : planGroups parseMAC c items = .error e) :
    ∃ x ∈ items, InvalidMAC parseMAC (x.2.1.options.bind SFOptions.macAddress) := by
  induction items generalizing c with
  | nil => cases h
  | cons x rest ih =>
    obtain ⟨index, g, port⟩ := x
    rw [planGroups_cons] at h
    obtain hs | ⟨_, -, h⟩ := bind_eq_error.mp h
    · exact ⟨_, mem_cons_self, planRun_error hs⟩
    obtain ho | ⟨_, -, h⟩ := bind_eq_error.mp h
    · obtain ⟨x, hx, hm⟩ := ih ho
      exact ⟨x, mem_cons_of_mem _ hx, hm⟩
    · cases h

/-! ## Scalable Functions on a port -/

theorem withTargets_eq (index : ℕ) (groups : List SFGroup) (ports : List NICPort) :
    (withTargets index groups (groups.map (SFGroup.selected ports))).map Prod.snd =
      groups.flatMap fun g => (g.selected ports).map (g, ·) := by
  induction groups generalizing index with
  | nil => rfl
  | cons g rest ih =>
    rw [map_cons]
    simp only [withTargets, map_append, map_map, ih, flatMap_cons]
    rfl

def pinnedOn (groups : List SFGroup) (ports : List NICPort) (port : NICPort) : List ℕ :=
  (groups.filter fun g => port ∈ g.selected ports).flatMap pinnedSFNums

/-- The runs of all groups on the ports that they select, in the order of their declaration. -/
structure Numbering (groups : List SFGroup) (ports : List NICPort) (runs : List Run) : Prop where
  order : runs.map (fun r => (r.group, r.port)) =
    groups.flatMap fun g => (g.selected ports).map (g, ·)
  count : ∀ r ∈ runs, r.nums.length = r.group.number
  pinned : ∀ r ∈ runs, ∀ start, r.group.options.bind SFOptions.sfNumStart = some start →
    r.nums = List.range' start r.group.number
  /-- The groups that are not pinned take the smallest numbers that are not pinned on the port. -/
  smallest : ∀ port ∈ ports, ∃ bound,
    (runs.filter (Run.drawn port.pciAddress)).flatMap Run.nums =
      (List.range bound).filter (· ∉ pinnedOn groups ports port)

theorem filter_selected (hpo : (ports.map NICPort.pciAddress).Nodup) (hport : port ∈ ports)
    (device : Option String) :
    (selectPorts ports device).filter (·.pciAddress = port.pciAddress) =
      if port ∈ selectPorts ports device then [port] else [] := by
  have hs := selectPorts_sublist ports device
  have hnd : (selectPorts ports device).Nodup := (hpo.of_map _).sublist hs
  have heq : (selectPorts ports device).filter (·.pciAddress = port.pciAddress) =
      (selectPorts ports device).filter (· = port) := by
    refine filter_congr fun p hp => ?_
    rw [decide_eq_decide]
    exact ⟨inj_on_of_nodup_map hpo (hs.subset hp) hport, fun h => by rw [h]⟩
  rw [heq, filter_eq]
  split_ifs with hmem
  · rw [count_eq_one_of_mem hnd hmem]
    rfl
  · rw [count_eq_zero_of_not_mem hmem]
    rfl

theorem filter_order (hp : (ports.map NICPort.pciAddress).Nodup) (hpo : port ∈ ports)
    {α : Type} (groups : List α) (device : α → Option String) :
    (groups.flatMap fun g => (selectPorts ports (device g)).map (g, ·)).filter
        (fun x => x.2.pciAddress = port.pciAddress) =
      (groups.filter fun g => port ∈ selectPorts ports (device g)).map (·, port) := by
  induction groups with
  | nil => rfl
  | cons g rest ih =>
    rw [flatMap_cons, filter_append, ih, filter_map]
    have ho := filter_selected hp hpo (device g)
    have hc : ((fun x : α × NICPort => decide (x.2.pciAddress = port.pciAddress)) ∘
        fun p => (g, p)) = fun p => decide (p.pciAddress = port.pciAddress) := rfl
    rw [hc, ho]
    split_ifs with hmem
    · rw [filter_cons_of_pos (by simpa using hmem)]
      rfl
    · rw [filter_cons_of_neg (by simpa using hmem)]
      rfl

/-- The numbers of a group, number by number or port by port. -/
theorem flatMap_comm_perm (nums : List ℕ) (selected : List NICPort) :
    (nums.flatMap fun num => selected.map fun _ => num).Perm (selected.flatMap fun _ => nums) := by
  induction selected with
  | nil => simp
  | cons port rest ih =>
    have hs := (map_append_flatMap_perm nums id fun num => rest.map fun _ => num).symm
    rw [map_id] at hs
    exact hs.trans (ih.append_left nums)

theorem numsAt_pins (g : SFGroup) (selected : List NICPort) (d : String) :
    numsAt (pins g selected) d = (pinnedSFNums g).flatMap fun num =>
      (selected.filter (·.pciAddress = d)).map fun _ => num := by
  unfold numsAt pins
  rw [filter_flatMap, map_flatMap]
  simp only [filter_map, map_map]
  rfl

/-- The pinned numbers on a device, in the order of the runs. -/
theorem pinnedAt_perm (groups : List SFGroup) (ports : List NICPort) (d : String) :
    (((groups.flatMap fun g => (g.selected ports).map (g, ·)).filter
      (·.2.pciAddress = d)).flatMap fun x => pinnedSFNums x.1).Perm (pinnedAt groups ports d) := by
  induction groups with
  | nil => exact .refl _
  | cons g rest ih =>
    have hc : pinnedAt (g :: rest) ports d =
        numsAt (pins g (g.selected ports)) d ++ pinnedAt rest ports d := by
      simp [pinnedAt, allPins, numsAt]
    rw [hc, numsAt_pins, flatMap_cons, filter_append, flatMap_append,
      filter_map, flatMap_map]
    refine List.Perm.append ?_ ih
    exact (flatMap_comm_perm (pinnedSFNums g) ((g.selected ports).filter (·.pciAddress = d))).symm

theorem flatMap_pinned
    (hp : ∀ r ∈ runs, pinnedSFNums r.group ≠ [] → r.nums = pinnedSFNums r.group) :
    (runs.filter fun r => pinnedSFNums r.group ≠ []).flatMap Run.nums =
      runs.flatMap fun r => pinnedSFNums r.group := by
  induction runs with
  | nil => rfl
  | cons r rest ih =>
    have hr := ih fun r' hr' => hp r' (mem_cons_of_mem r hr')
    rw [flatMap_cons, ← hr]
    by_cases hn : pinnedSFNums r.group = []
    · rw [filter_cons_of_neg (by simp [hn]), hn, nil_append]
    · rw [filter_cons_of_pos (by simp [hn]), flatMap_cons,
        hp r mem_cons_self hn]

/-- The numbers on a device are the pinned ones and those that the cursor has drawn. -/
theorem runs_perm (ho : runs.map (fun r => (r.group, r.port)) =
      groups.flatMap fun g => (g.selected ports).map (g, ·))
    (hpi : ∀ r ∈ runs, pinnedSFNums r.group ≠ [] → r.nums = pinnedSFNums r.group) (d : String) :
    ((runs.filter (·.port.pciAddress = d)).flatMap Run.nums).Perm
      (pinnedAt groups ports d ++ (runs.filter (Run.drawn d)).flatMap Run.nums) := by
  have hpins : (((runs.filter (·.port.pciAddress = d)).filter
      fun r => pinnedSFNums r.group ≠ []).flatMap Run.nums).Perm (pinnedAt groups ports d) := by
    rw [flatMap_pinned fun r hr => hpi r (mem_filter.mp hr).1]
    have hp := pinnedAt_perm groups ports d
    rw [← ho, filter_map, flatMap_map] at hp
    exact hp
  have hd : (runs.filter (·.port.pciAddress = d)).filter
      (fun r => !decide (pinnedSFNums r.group ≠ [])) = runs.filter (Run.drawn d) := by
    rw [filter_filter]
    refine filter_congr fun r _ => ?_
    by_cases hn : pinnedSFNums r.group = []
    · simp [Run.drawn, hn]
    · simp [Run.drawn, hn]
  have hs := (filter_append_perm (fun r : Run => decide (pinnedSFNums r.group ≠ []))
    (runs.filter (·.port.pciAddress = d))).flatMap_right Run.nums
  rw [flatMap_append, hd] at hs
  exact hs.symm.trans (hpins.append_right _)

variable (h : resolveSFs parseMAC groups ports = .ok out)

include h in
/-- What the groups get on their ports, and the numbers on a device: each is there once. -/
theorem resolveSFs_on :
    ∃ runs : List Run, runs.map (fun r => (r.group, r.port)) =
        groups.flatMap (fun g => (g.selected ports).map (g, ·)) ∧
      (∀ r ∈ runs, r.nums.length = r.group.number ∧
        (pinnedSFNums r.group ≠ [] → r.nums = pinnedSFNums r.group)) ∧
      (runs.flatMap fun r => r.nums.map (newPlannedSF parseMAC r.group r.port)) = out.map .ok ∧
      ∀ d, (out.filter (·.device = d)).map PlannedSF.sfNum =
          (runs.filter (·.port.pciAddress = d)).flatMap Run.nums ∧
        ((out.filter (·.device = d)).map PlannedSF.sfNum).Nodup ∧
        ∃ bound, (runs.filter (Run.drawn d)).flatMap Run.nums =
          free (pinnedAt groups ports d) 0 bound := by
  obtain ⟨⟨targets, cursor⟩, hre, hplan⟩ := bind_eq_ok.mp h
  obtain ⟨rfl, hrese⟩ := reserveGroups_ok hre
  obtain ⟨runs, ho, hc, hpl, hon, hf⟩ := planGroups_ok hplan
  rw [withTargets_eq] at ho
  have hd (d : String) : ∃ bound, (runs.filter (Run.drawn d)).flatMap Run.nums =
      free (pinnedAt groups ports d) 0 bound := by
    obtain ⟨bound, -, hd⟩ := hf d
    refine ⟨bound, ?_⟩
    rw [hd, hrese.next]
    refine filter_congr fun n _ => ?_
    rw [decide_eq_decide, hrese.mem_iff]
    exact not_congr (or_iff_left not_mem_nil)
  refine ⟨runs, ho, hc, hpl, fun d => ⟨hon d, ?_, hd d⟩⟩
  obtain ⟨bound, hbo⟩ := hd d
  have hpi : (pinnedAt groups ports d).Nodup := by
    have hp := hrese.perm d
    rw [show newDeviceCursor.reserved d = [] from rfl, append_nil] at hp
    exact hp.nodup_iff.mp (hrese.nodup d nodup_nil)
  rw [hon, (runs_perm ho (fun r hr => (hc r hr).2) d).nodup_iff, hbo]
  refine nodup_append.mpr
    ⟨hpi, List.Nodup.filter _ nodup_range', fun a ha b hb heq => ?_⟩
  have hf := (mem_filter.mp hb).2
  rw [← heq] at hf
  exact of_decide_eq_true hf ha

include h in
theorem planned_port {sf : PlannedSF} (hsf : sf ∈ out) : ∃ g ∈ groups, ∃ port ∈ g.selected ports,
      sf.device = port.pciAddress ∧ sf.netdev = port.netdev ∧ sf.poolName = g.poolName.getD "" := by
  obtain ⟨runs, ho, -, hp, -⟩ := resolveSFs_on h
  have hmem : (.ok sf : Except String PlannedSF) ∈ out.map .ok := mem_map_of_mem hsf
  rw [← hp] at hmem
  obtain ⟨r, hr, hmem⟩ := mem_flatMap.mp hmem
  obtain ⟨num, -, hnew⟩ := mem_map.mp hmem
  obtain ⟨hd, -, hn, hpo⟩ := newPlannedSF_ok hnew
  have hru : (r.group, r.port) ∈ groups.flatMap fun g => (g.selected ports).map (g, ·) :=
    ho ▸ mem_map_of_mem hr
  obtain ⟨g, hg, hport⟩ := mem_flatMap.mp hru
  obtain ⟨port, hport, heq⟩ := mem_map.mp hport
  obtain ⟨rfl, rfl⟩ := Prod.mk.inj heq
  exact ⟨r.group, hg, r.port, hport, hd, hn, hpo⟩

theorem resolveSFs_ok (hpo : (ports.map NICPort.pciAddress).Nodup)
    (h : resolveSFs parseMAC groups ports = .ok out) :
    ∃ runs, Numbering groups ports runs ∧
      out.map .ok = runs.flatMap (fun r => r.nums.map (newPlannedSF parseMAC r.group r.port)) ∧
      ∀ port ∈ ports, ((out.filter (·.device = port.pciAddress)).map PlannedSF.sfNum).Nodup := by
  obtain ⟨runs, ho, hc, hpl, hon⟩ := resolveSFs_on h
  have hp : ∀ port ∈ ports, ∀ n,
      n ∈ pinnedAt groups ports port.pciAddress ↔ n ∈ pinnedOn groups ports port := by
    intro port hport n
    simp only [mem_pinnedAt, pinnedOn, mem_flatMap, mem_filter, decide_eq_true_eq]
    constructor
    · rintro ⟨g, hg, hn, port', hport', heq⟩
      obtain rfl := inj_on_of_nodup_map hpo
        ((selectPorts_sublist ports g.device).subset hport') hport heq
      exact ⟨g, ⟨hg, hport'⟩, hn⟩
    · rintro ⟨g, ⟨hg, hport'⟩, hn⟩
      exact ⟨g, hg, hn, port, hport', rfl⟩
  refine ⟨runs, ⟨ho, fun r hr => (hc r hr).1, ?_, ?_⟩, hpl.symm,
    fun port _ => (hon port.pciAddress).2.1⟩
  · intro r hr start hst
    by_cases hz : r.group.number = 0
    · rw [hz, eq_nil_of_length_eq_zero ((hc r hr).1.trans hz)]
      rfl
    · have hpi : pinnedSFNums r.group = List.range' start r.group.number := by
        unfold pinnedSFNums
        rw [hst]
        exact if_neg hz
      rw [← hpi]
      refine (hc r hr).2 fun hni => ?_
      rw [hpi, range'_eq_nil_iff] at hni
      exact hz hni
  · intro port hport
    obtain ⟨-, -, bound, hd⟩ := hon port.pciAddress
    refine ⟨bound, ?_⟩
    rw [hd, free, Nat.sub_zero, range_eq_range']
    refine filter_congr fun n _ => ?_
    rw [decide_eq_decide, hp port hport]

theorem resolveSFs_error (hp : (ports.map NICPort.pciAddress).Nodup)
    (h : resolveSFs parseMAC groups ports = .error e) :
    (∃ g ∈ groups, 0 < g.number ∧ g.selected ports = []) ∨
      (∃ g ∈ groups, InvalidMAC parseMAC (g.options.bind SFOptions.macAddress)) ∨
      ∃ (i j : ℕ) (g g' : SFGroup), i < j ∧ groups[i]? = some g ∧ groups[j]? = some g' ∧
        SharesPin ports g g' := by
  obtain hr | ⟨⟨targets, cursor⟩, hr, h⟩ := bind_eq_error.mp h
  · rcases reserveGroups_error hp hr with hn | ⟨g, hg, num, -, port, -, hold⟩ | hs
    · exact .inl hn
    · cases hold
    · refine .inr (.inr ?_)
      rw [pairwise_iff_getElem] at hs
      push Not at hs
      obtain ⟨i, j, hi, hj, hlt, hsh⟩ := hs
      exact ⟨i, j, _, _, hlt, getElem?_eq_getElem hi, getElem?_eq_getElem hj, hsh⟩
  · obtain ⟨rfl, -⟩ := reserveGroups_ok hr
    obtain ⟨⟨index, g, port⟩, hx, hm⟩ := planGroups_error h
    have hmem : (g, port) ∈ groups.flatMap fun g => (g.selected ports).map (g, ·) :=
      withTargets_eq 0 groups ports ▸ mem_map.mpr ⟨_, hx, rfl⟩
    obtain ⟨g', hg', hpo⟩ := mem_flatMap.mp hmem
    obtain ⟨port', -, heq⟩ := mem_map.mp hpo
    obtain ⟨rfl, -⟩ := Prod.mk.inj heq
    exact .inr (.inl ⟨g', hg', hm⟩)

/-! ## Virtual Functions on a port -/

/-- The groups that were expanded on a device. -/
def doneOn (done : List (VirtualFunction × NICPort)) (device : String) : List VirtualFunction :=
  (done.filter (·.2.pciAddress = device)).map Prod.fst

/-- The VFs on a device are numbered in sequence, in the order of the groups, up to its total. -/
structure Sequential (vfs : List PlannedVF) (total : Option ℕ) (groups : List VirtualFunction) :
    Prop where
  sum : total = if groups = [] then none else some (groups.map VirtualFunction.number).sum
  runs : vfs.flatMap (fun vf => List.range' vf.index vf.count) = List.range (total.getD 0)
  order : vfs.map (fun vf => (vf.count, vf.poolName)) =
    (groups.filter (·.number ≠ 0)).map fun g => (g.number, g.poolName.getD "")

def PlannedVF.on (device : String) (vf : PlannedVF) : Bool := vf.device = device

structure VFInv (c : DeviceCursor) (plan : VFPlan) (done : List (VirtualFunction × NICPort)) :
    Prop where
  reserved : ∀ device, c.reserved device = []
  next : ∀ device, c.next device = (plan.totals device).getD 0
  sequential : ∀ device,
    Sequential (plan.vfs.filter (PlannedVF.on device)) (plan.totals device) (doneOn done device)

theorem doneOn_concat (done : List (VirtualFunction × NICPort)) (g : VirtualFunction)
    (port : NICPort) (device : String) :
    doneOn (done ++ [(g, port)]) device =
      if port.pciAddress = device then doneOn done device ++ [g] else doneOn done device := by
  unfold doneOn
  rw [filter_append, map_append]
  split_ifs with hd
  · rw [filter_cons_of_pos (by simpa using hd)]
    rfl
  · rw [filter_cons_of_neg (by simpa using hd)]
    simp

variable {groups : List VirtualFunction}

theorem Sequential.concat {vfs : List PlannedVF} {total : Option ℕ}
    (h : Sequential vfs total groups) {new : List PlannedVF}
    (hn : (g.number = 0 ∧ new = []) ∨ ∃ vf, g.number ≠ 0 ∧ new = [vf] ∧ vf.index = total.getD 0 ∧
      vf.count = g.number ∧ vf.poolName = g.poolName.getD "") :
    Sequential (vfs ++ new) (some (total.getD 0 + g.number)) (groups ++ [g]) := by
  have hs : total.getD 0 = (groups.map VirtualFunction.number).sum := by
    rw [h.sum]
    split_ifs with hni
    · simp [hni]
    · rfl
  refine ⟨?_, ?_, ?_⟩
  · rw [if_neg (by simp), map_append, sum_append, hs]
    simp
  · rw [flatMap_append, h.runs, Option.getD_some]
    obtain ⟨hz, rfl⟩ | ⟨vf, -, rfl, hi, hc, -⟩ := hn
    · simp [hz]
    · rw [flatMap_singleton, hi, hc, range_add]
      simp [range'_eq_map_range]
  · rw [map_append, h.order, filter_append, map_append]
    obtain ⟨hz, rfl⟩ | ⟨vf, hpo, rfl, -, hc, hp⟩ := hn
    · simp [hz]
    · simp [hpo, hc, hp]

theorem VFInv.planVF (h : VFInv c plan done)
    (hp : SriovPlan.planVF parseMAC index g port c plan = .ok (c', plan')) :
    VFInv c' plan' (done ++ [(g, port)]) := by
  -- The plan is extended on the device of the port by at most one VF, the others stay.
  have hc : ∃ new, plan'.vfs = plan.vfs ++ new ∧
      plan'.totals = update plan.totals port.pciAddress
        (some ((plan.totals port.pciAddress).getD 0 + g.number)) ∧
      c'.reserved = c.reserved ∧
      c'.next = update c.next port.pciAddress (c.next port.pciAddress + g.number) ∧
      (∀ vf ∈ new, vf.device = port.pciAddress) ∧
      ((g.number = 0 ∧ new = []) ∨ ∃ vf, g.number ≠ 0 ∧ new = [vf] ∧
        vf.index = c.next port.pciAddress ∧ vf.count = g.number ∧
        vf.poolName = g.poolName.getD "") := by
    unfold SriovPlan.planVF at hp
    dsimp only at hp
    split_ifs at hp with hz
    · cases hp
      refine ⟨[], by simp, rfl, rfl, ?_, by simp, .inl ⟨hz, rfl⟩⟩
      rw [hz, Nat.add_zero, update_eq_self]
    · have ht : c.take port.pciAddress g.number =
          (List.range' (c.next port.pciAddress) g.number, { c with
            next := update c.next port.pciAddress
              (c.next port.pciAddress + g.number) }) := by
        simp [DeviceCursor.take, h.reserved, takeFree_nil]
      have hh : (List.range' (c.next port.pciAddress) g.number).headD 0 =
          c.next port.pciAddress := by
        obtain ⟨k, hk⟩ := Nat.exists_eq_succ_of_ne_zero hz
        rw [hk, range'_succ]
        rfl
      rw [ht] at hp
      dsimp only at hp
      split at hp
      · cases hp
        exact ⟨_, rfl, rfl, rfl, rfl, by simp, .inr ⟨_, hz, rfl, hh, rfl, rfl⟩⟩
      · split at hp
        · cases hp
        · cases hp
          exact ⟨_, rfl, rfl, rfl, rfl, by simp, .inr ⟨_, hz, rfl, hh, rfl, rfl⟩⟩
  obtain ⟨new, hv, hto, hr, hnext, hde, hn⟩ := hc
  rw [h.next] at hn
  refine ⟨by rw [hr]; exact h.reserved, ?_, ?_⟩
  · intro device
    by_cases hd : device = port.pciAddress
    · subst hd
      rw [hnext, hto, update_self, update_self, h.next]
      rfl
    · rw [hnext, hto, update_of_ne hd, update_of_ne hd, h.next]
  · intro device
    rw [hv, hto, filter_append, doneOn_concat]
    by_cases hd : port.pciAddress = device
    · subst hd
      have hs : new.filter (PlannedVF.on port.pciAddress) = new :=
        filter_eq_self.mpr fun vf hvf => by simp [PlannedVF.on, hde vf hvf]
      rw [if_pos rfl, update_self, hs]
      exact (h.sequential port.pciAddress).concat hn
    · have hno : new.filter (PlannedVF.on device) = [] :=
        filter_eq_nil_iff.mpr fun vf hvf => by simp [PlannedVF.on, hde vf hvf, hd]
      rw [if_neg hd, update_of_ne (Ne.symm hd), hno, append_nil]
      exact h.sequential device

theorem VFInv.planVFs (h : VFInv c plan done)
    (hp : SriovPlan.planVFs parseMAC index g selected c plan = .ok (c', plan')) :
    VFInv c' plan' (done ++ selected.map (g, ·)) := by
  induction selected generalizing c plan done with
  | nil =>
    cases hp
    simpa using h
  | cons port rest ih =>
    obtain ⟨⟨c₁, plan₁⟩, hs, hr⟩ := bind_eq_ok.mp hp
    have hinv := ih (h.planVF hs) hr
    rwa [append_assoc, singleton_append] at hinv

theorem VFInv.planVFGroups (h : VFInv c plan done)
    (hp : SriovPlan.planVFGroups parseMAC ports index groups c plan = .ok (c', plan')) :
    VFInv c' plan' (done ++ groups.flatMap fun g => (selectPorts ports g.device).map (g, ·)) := by
  induction groups generalizing index c plan done with
  | nil =>
    cases hp
    simpa using h
  | cons g rest ih =>
    obtain ⟨selected, hs, hp⟩ := bind_eq_ok.mp hp
    obtain ⟨⟨c₁, plan₁⟩, hst, hr⟩ := bind_eq_ok.mp hp
    obtain rfl := selectGroupPorts_ok hs
    have hinv := ih (h.planVFs hst) hr
    rw [flatMap_cons, ← append_assoc]
    exact hinv

theorem vfInv_start : VFInv newDeviceCursor ⟨[], fun _ => none⟩ [] where
  reserved _ := rfl
  next _ := rfl
  sequential _ := ⟨rfl, rfl, rfl⟩

theorem resolveVFPlan_ok (hpo : (ports.map NICPort.pciAddress).Nodup)
    (h : resolveVFPlan parseMAC groups ports = .ok plan) (hport : port ∈ ports) :
    Sequential (plan.vfs.filter (PlannedVF.on port.pciAddress)) (plan.totals port.pciAddress)
      (groups.filter fun g => port ∈ selectPorts ports g.device) := by
  unfold resolveVFPlan at h
  split_ifs at h
  obtain ⟨⟨c, plan'⟩, hp, h⟩ := bind_eq_ok.mp h
  cases h
  have hs := (vfInv_start.planVFGroups hp).sequential port.pciAddress
  have hid : (Prod.fst ∘ fun g : VirtualFunction => (g, port)) = id := rfl
  rwa [nil_append, doneOn, filter_order hpo hport, map_map, hid, map_id] at hs

theorem planVF_error (h : planVF parseMAC index g port c plan = .error e) :
    InvalidMAC parseMAC g.macAddress := by
  unfold planVF at h
  dsimp only at h
  split_ifs at h
  split at h
  · cases h
  · rename_i value hv
    split at h
    · rename_i e' he'
      exact ⟨value, e', hv, he'⟩
    · cases h

theorem planVFs_error (h : planVFs parseMAC index g selected c plan = .error e) :
    InvalidMAC parseMAC g.macAddress := by
  induction selected generalizing c plan with
  | nil => cases h
  | cons port rest ih =>
    obtain hs | ⟨_, -, h⟩ := bind_eq_error.mp h
    · exact planVF_error hs
    · exact ih h

theorem planVFGroups_error (h : planVFGroups parseMAC ports index groups c plan = .error e) :
    (∃ g ∈ groups, 0 < g.number ∧ selectPorts ports g.device = []) ∨
      ∃ g ∈ groups, InvalidMAC parseMAC g.macAddress := by
  induction groups generalizing index c plan with
  | nil => cases h
  | cons g rest ih =>
    obtain hs | ⟨_, -, h⟩ := bind_eq_error.mp h
    · exact .inl ⟨g, mem_cons_self, selectGroupPorts_error hs⟩
    obtain hst | ⟨_, -, h⟩ := bind_eq_error.mp h
    · exact .inr ⟨g, mem_cons_self, planVFs_error hst⟩
    rcases ih h with ⟨g', hg', hn⟩ | ⟨g', hg', hm⟩
    · exact .inl ⟨g', mem_cons_of_mem g hg', hn⟩
    · exact .inr ⟨g', mem_cons_of_mem g hg', hm⟩

theorem resolveVFPlan_error (h : resolveVFPlan parseMAC groups ports = .error e) :
    ports = [] ∨ (∃ g ∈ groups, 0 < g.number ∧ selectPorts ports g.device = []) ∨
      ∃ g ∈ groups, InvalidMAC parseMAC g.macAddress := by
  unfold resolveVFPlan at h
  split_ifs at h with hn
  · exact .inl hn
  · obtain hp | ⟨_, -, h⟩ := bind_eq_error.mp h
    · exact .inr (planVFGroups_error hp)
    · cases h

end Plan

/-- The plans of SFs and VFs. They fail only for a group without a port, an invalid MAC address or,
for SFs, a number that two groups pin on one port. Otherwise each SF group has its number of SFs on
each port it selects, pinned runs are where they are pinned and the others take the smallest numbers
in between; and the VFs of a port are numbered in sequence up to its `sriov_numvfs`. -/
theorem functions_numbered (parseMAC : String → Except String (List ℕ)) (groups : List SFGroup)
    (virtualFunctions : List VirtualFunction) (ports : List NICPort)
    (hports : (ports.map fun port => normalizeAddress port.pciAddress).Nodup) :
    (∀ e, resolveSFs parseMAC groups ports = .error e →
      (∃ g ∈ groups, 0 < g.number ∧ g.selected ports = []) ∨
      (∃ g ∈ groups, InvalidMAC parseMAC (g.options.bind SFOptions.macAddress)) ∨
      ∃ (i j : ℕ) (g g' : SFGroup), i < j ∧ groups[i]? = some g ∧ groups[j]? = some g' ∧
        SharesPin ports g g') ∧
    (∀ out, resolveSFs parseMAC groups ports = .ok out → ∃ runs, Numbering groups ports runs ∧
      out.map .ok = runs.flatMap (fun r => r.nums.map (newPlannedSF parseMAC r.group r.port)) ∧
      ∀ port ∈ ports, ((out.filter (·.device = port.pciAddress)).map PlannedSF.sfNum).Nodup) ∧
    (∀ e, resolveVFPlan parseMAC virtualFunctions ports = .error e →
      ports = [] ∨ (∃ g ∈ virtualFunctions, 0 < g.number ∧ selectPorts ports g.device = []) ∨
      ∃ g ∈ virtualFunctions, InvalidMAC parseMAC g.macAddress) ∧
    ∀ plan, resolveVFPlan parseMAC virtualFunctions ports = .ok plan → ∀ port ∈ ports,
      Sequential (plan.vfs.filter (PlannedVF.on port.pciAddress)) (plan.totals port.pciAddress)
        (virtualFunctions.filter fun g => port ∈ selectPorts ports g.device) := by
  have hp : (ports.map NICPort.pciAddress).Nodup := by
    have hm : ports.map (fun port => normalizeAddress port.pciAddress) =
        (ports.map NICPort.pciAddress).map normalizeAddress := by
      rw [map_map]
      rfl
    rw [hm] at hports
    exact hports.of_map _
  exact ⟨fun _ h => resolveSFs_error hp h, fun _ h => resolveSFs_ok hp h,
    fun _ h => resolveVFPlan_error h, fun _ h _ hpo => resolveVFPlan_ok hp h hpo⟩

def samplePorts : List NICPort := [⟨"p0", "0000:03:00.0"⟩, ⟨"p1", "0000:03:00.1"⟩]

/-- Two SFs on each port, two from number 1 on the second port and another one there. -/
def sampleGroups : List SFGroup :=
  [⟨some 2, none, none, some "bf_sf", none⟩,
    ⟨some 2, some "P1", none, none, some ⟨none, some 1, some true, none, none, none, none⟩⟩,
    ⟨some 1, some "03:00.1", none, none, none⟩]

/-- Four VFs on each port and two more on the second one. -/
def sampleVFs : List VirtualFunction :=
  [⟨some 4, some "*", some "bf_vf", none⟩, ⟨some 2, some "p1", some "bf_vf_2", none⟩]

/-- On the second port the numbers 1 and 2 are pinned, and the other groups take 0, 3 and 4. -/
theorem sample_functions_numbered :
    ∃ out runs plan, resolveSFs (fun _ => .error "") sampleGroups samplePorts = .ok out ∧
      out.map (fun sf => (sf.netdev, sf.sfNum)) =
        [("p0", 0), ("p0", 1), ("p1", 0), ("p1", 3), ("p1", 1), ("p1", 2), ("p1", 4)] ∧
      Numbering sampleGroups samplePorts runs ∧
      resolveVFPlan (fun _ => .error "") sampleVFs samplePorts = .ok plan ∧
      plan.vfs.map (fun vf => (vf.netdev, vf.index, vf.count)) =
        [("p0", 0, 4), ("p1", 0, 4), ("p1", 4, 2)] ∧
      Sequential (plan.vfs.filter (PlannedVF.on "0000:03:00.1")) (plan.totals "0000:03:00.1")
        (sampleVFs.filter fun g => ⟨"p1", "0000:03:00.1"⟩ ∈ selectPorts samplePorts g.device) := by
  have hn := functions_numbered (fun _ => .error "") sampleGroups sampleVFs samplePorts
    (by decide +kernel)
  have ho : (resolveSFs (fun _ => .error "") sampleGroups samplePorts).toOption.map
      (List.map fun sf => (sf.netdev, sf.sfNum)) =
        some [("p0", 0), ("p0", 1), ("p1", 0), ("p1", 3), ("p1", 1), ("p1", 2), ("p1", 4)] := by
    decide +kernel
  have hp : (resolveVFPlan (fun _ => .error "") sampleVFs samplePorts).toOption.map
      (fun plan => plan.vfs.map fun vf => (vf.netdev, vf.index, vf.count)) =
        some [("p0", 0, 4), ("p1", 0, 4), ("p1", 4, 2)] := by
    decide +kernel
  obtain ⟨out, ho, hnu⟩ := Option.map_eq_some_iff.mp ho
  obtain ⟨plan, hp, hv⟩ := Option.map_eq_some_iff.mp hp
  have ho := toOption_eq_some.mp ho
  have hp := toOption_eq_some.mp hp
  obtain ⟨runs, hr, -⟩ := hn.2.1 out ho
  exact ⟨out, runs, plan, ho, hnu, hr, hp, hv, hn.2.2.2 plan hp ⟨"p1", "0000:03:00.1"⟩ (by decide)⟩

end DocaPlatform.SriovPlan
