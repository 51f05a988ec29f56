import DocaPlatform.FlowTables

/-!
# The flows of a service chain

`GenerateAndApplyOpenFlows` writes three flows for every port of a switch. Here they are given as
flows and as the text that is handed to `AddFlows`. The flows are shown to implement a learning
switch: one table that says, for a port and an address, behind which other port the address is.
-/
namespace DocaPlatform.ServiceChainFlows

open FlowTables List

def learningTable : ℕ := 0

def switchingTable : ℕ := 1

def multicastPriority : ℕ := 2

def unicastLearntPriority : ℕ := 1

def unicastPriority : ℕ := 0

def idleTimeout : ℕ := 10

/-- `BroadcastMulticastMask`: the address and its mask. -/
def broadcastMulticastMask : Mac × Mac := (0x010000000000#48, 0x010000000000#48)

section Generate

variable {P : Type}

def learningFlow (hashedName : ℕ) (port : P) (peers : List P) : Flow P where
  cookie := hashedName
  table := learningTable
  priority := unicastPriority
  criteria := ⟨port, none⟩
  idleTimeout := none
  actions :=
    peers.map (.learn hashedName idleTimeout switchingTable unicastLearntPriority) ++
      [.resubmit switchingTable]

def multicastFlow (hashedName : ℕ) (port : P) (peers : List P) : Flow P where
  cookie := hashedName
  table := switchingTable
  priority := multicastPriority
  criteria := ⟨port, some broadcastMulticastMask⟩
  idleTimeout := none
  actions := peers.map .output

def floodFlow (hashedName : ℕ) (port : P) (peers : List P) : Flow P where
  cookie := hashedName
  table := switchingTable
  priority := unicastPriority
  criteria := ⟨port, none⟩
  idleTimeout := none
  actions := peers.map .output

/-- The ports of a switch at all positions but `i`. -/
def peersOf (sw : List P) (i : ℕ) : List P := (sw.zipIdx.filter (·.2 ≠ i)).map (·.1)

def switchFlows (hashedName : ℕ) (sw : List P) : List (Flow P) :=
  sw.zipIdx.flatMap fun x =>
    [learningFlow hashedName x.1 (peersOf sw x.2), multicastFlow hashedName x.1 (peersOf sw x.2),
      floodFlow hashedName x.1 (peersOf sw x.2)]

/-- `GenerateAndApplyOpenFlows`: the flows of each call of `AddFlows`. A switch with fewer than two
ports gets none. -/
def generateOpenFlows (hashedName : ℕ) (ports : List (List P)) : List (List (Flow P)) :=
  (ports.filter fun sw => !(sw.length < 2)).map (switchFlows hashedName)

end Generate

section Text

def hexDigit (n : ℕ) : Char := Nat.digitChar (n % 16)

/-- An address as six pairs of hexadecimal digits. -/
def macText (m : Mac) : String :=
  ":".intercalate ((List.range 6).map fun i =>
    let octet := (m.toNat / 256 ^ (5 - i)) % 256
    String.ofList [hexDigit (octet / 16), hexDigit octet])

def actionText : Action String → String
  | .learn cookie idle table priority inPort =>
    "learn(cookie=" ++ toString cookie ++ ",idle_timeout=" ++ toString idle ++ ",table=" ++
      toString table ++ ",priority=" ++ toString priority ++ ",in_port=" ++ inPort ++
      ",dl_dst=dl_src,output:NXM_OF_IN_PORT[])"
  | .output port => "output:" ++ port
  | .resubmit table => "resubmit(," ++ toString table ++ ")"

def flowText (f : Flow String) : String :=
  "cookie=" ++ toString f.cookie ++ ", table=" ++ toString f.table ++ ", priority=" ++
    toString f.priority ++ ", in_port=" ++ f.criteria.inPort ++
    (match f.criteria.dlDst with
      | none => ""
      | some d => ", dl_dst=" ++ macText d.1 ++ "/" ++ macText d.2) ++
    " actions=" ++ ",".intercalate (f.actions.map actionText)

/-- The texts that `GenerateAndApplyOpenFlows` hands to `AddFlows`, one for each switch. -/
def generateAndApplyOpenFlows (hashedName : ℕ) (ports : List (List String)) : List String :=
  (generateOpenFlows hashedName ports).map fun flows => "\n".intercalate (flows.map flowText)

example :
    macText broadcastMulticastMask.1 ++ "/" ++ macText broadcastMulticastMask.2 =
      "01:00:00:00:00:00/01:00:00:00:00:00" := by
  decide +kernel

end Text

variable {P : Type} [DecidableEq P] {hashedName : ℕ} {ports : List (List P)}

/-- The flows in the bridge after all calls of `AddFlows`. -/
def installed (hashedName : ℕ) (ports : List (List P)) : List (Flow P) :=
  addAll [] (generateOpenFlows hashedName ports).flatten

def learningKey (p : P) : Key P := ⟨learningTable, unicastPriority, ⟨p, none⟩⟩

def multicastKey (p : P) : Key P :=
  ⟨switchingTable, multicastPriority, ⟨p, some broadcastMulticastMask⟩⟩

def floodKey (p : P) : Key P := ⟨switchingTable, unicastPriority, ⟨p, none⟩⟩

/-- The key of the flow that port `p` learns for an address. -/
def learntKey (p : P) (m : Mac) : Key P := ⟨switchingTable, unicastLearntPriority, exactly p m⟩

/-- The flow by which port `p` sends packets for `m` to `q`. -/
def learntFlow (hashedName : ℕ) (p : P) (m : Mac) (q : P) : Flow P :=
  learnt hashedName idleTimeout switchingTable unicastLearntPriority p ⟨q, m, m⟩

variable {p q : P} {m : Mac} {sw : List P} {f : Flow P} {flows : List (Flow P)} {pkt : Packet P}

omit [DecidableEq P] in
theorem learntKey_inj {p' : P} {m' : Mac} : learntKey p m = learntKey p' m' ↔ p = p' ∧ m = m' := by
  simp [learntKey, exactly]

/-- The multicast bit is the lowest of the first octet. -/
theorem multicast_covers (p : P) (pkt : Packet P) :
    (multicastKey p).criteria.covers pkt = true ↔ p = pkt.inPort ∧ pkt.dlDst.getLsbD 40 = true := by
  have hb : broadcastMulticastMask = (BitVec.twoPow 48 40, BitVec.twoPow 48 40) := by decide
  have hne : ¬ (0#48 = BitVec.twoPow 48 40) := by decide
  have hm : (∀ d, some broadcastMulticastMask = some d → pkt.dlDst &&& d.2 = d.1) ↔
      pkt.dlDst.getLsbD 40 = true := by
    simp only [hb, Option.some.injEq, forall_eq', BitVec.and_twoPow]
    split_ifs with h
    · simp [h]
    · exact iff_of_false hne h
  rw [covers_iff]
  exact and_congr Iff.rfl hm

/-! ## Isolation -/

/-- The flows that a chain may hold: the three of a port with some ports of one of its switches,
and learnt ones between ports that share a switch. -/
inductive ChainFlow (hashedName : ℕ) (ports : List (List P)) : Flow P → Prop where
  | learning {sw : List P} {p : P} {peers : List P} : sw ∈ ports → p ∈ sw → (∀ q ∈ peers, q ∈ sw) →
      ChainFlow hashedName ports (learningFlow hashedName p peers)
  | multicast {sw : List P} {p : P} {peers : List P} : sw ∈ ports → p ∈ sw →
      (∀ q ∈ peers, q ∈ sw) → ChainFlow hashedName ports (multicastFlow hashedName p peers)
  | flood {sw : List P} {p : P} {peers : List P} : sw ∈ ports → p ∈ sw → (∀ q ∈ peers, q ∈ sw) →
      ChainFlow hashedName ports (floodFlow hashedName p peers)
  | learnt {sw : List P} {p q : P} {m : Mac} : sw ∈ ports → p ∈ sw → q ∈ sw →
      ChainFlow hashedName ports (learntFlow hashedName p m q)

/-- Every flow is one of the chain's, and no two have the same key. -/
structure Inv (hashedName : ℕ) (ports : List (List P)) (flows : List (Flow P)) : Prop where
  keyed : Keyed flows
  chain : ∀ f ∈ flows, ChainFlow hashedName ports f

omit [DecidableEq P] in
/-- Where the generated flows come from. -/
theorem mem_generateOpenFlows :
    f ∈ (generateOpenFlows hashedName ports).flatten ↔
      ∃ sw ∈ ports, 2 ≤ sw.length ∧ ∃ x ∈ sw.zipIdx,
        f = learningFlow hashedName x.1 (peersOf sw x.2) ∨
          f = multicastFlow hashedName x.1 (peersOf sw x.2) ∨
          f = floodFlow hashedName x.1 (peersOf sw x.2) := by
  simp only [generateOpenFlows, switchFlows, mem_flatten, mem_map, mem_filter,
    Bool.not_eq_true', decide_eq_false_iff_not, not_lt]
  constructor
  · rintro ⟨_, ⟨sw, ⟨hsw, hl⟩, rfl⟩, hf⟩
    obtain ⟨x, hx, hf⟩ := mem_flatMap.mp hf
    exact ⟨sw, hsw, hl, x, hx, by simpa using hf⟩
  · rintro ⟨sw, hsw, hl, x, hx, hf⟩
    exact ⟨_, ⟨sw, ⟨hsw, hl⟩, rfl⟩, mem_flatMap.mpr ⟨x, hx, by simpa using hf⟩⟩

variable (h : Inv hashedName ports flows)

include h in
theorem Inv.expire (k : Key P) :
    Inv hashedName ports (expire flows k) :=
  ⟨h.keyed.expire k, fun f hf => h.chain f (mem_of_mem_filter hf)⟩

include h in
theorem Inv.lookup_learning (hf : lookup flows learningTable pkt = some f) :
    ∃ sw ∈ ports, pkt.inPort ∈ sw ∧ ∃ peers, (∀ q ∈ peers, q ∈ sw) ∧
      f = learningFlow hashedName pkt.inPort peers := by
  obtain ⟨hmem, ht, hc⟩ := lookup_eq_some hf
  cases h.chain f hmem with
  | learning hsw hp hpe =>
    obtain rfl := (covers_iff.mp hc).1
    exact ⟨_, hsw, hp, _, hpe, rfl⟩
  | multicast | flood | learnt => exact absurd ht Nat.one_ne_zero

include h in
/-- The flow that a packet takes in the switching table outputs it, to ports that share a switch
with its own. -/
theorem Inv.lookup_switching (hf : lookup flows switchingTable pkt = some f) :
    ∃ sw ∈ ports, pkt.inPort ∈ sw ∧ ∃ outs : List P, (∀ q ∈ outs, q ∈ sw) ∧
      f.actions = outs.map .output := by
  obtain ⟨hmem, ht, hc⟩ := lookup_eq_some hf
  cases h.chain f hmem with
  | learning => exact absurd ht Nat.zero_ne_one
  | multicast hsw hp hpe =>
    obtain rfl := ((multicast_covers _ pkt).mp hc).1
    exact ⟨_, hsw, hp, _, hpe, rfl⟩
  | flood hsw hp hpe =>
    obtain rfl := (covers_iff.mp hc).1
    exact ⟨_, hsw, hp, _, hpe, rfl⟩
  | @learnt _ _ q _ hsw hp hq =>
    obtain rfl := ((exactly_covers _ _ pkt).mp hc).1
    exact ⟨_, hsw, hp, [q], by simpa using hq, rfl⟩

/-- What a packet that finds a learning flow teaches. -/
def taught (hashedName : ℕ) (flows : List (Flow P)) (pkt : Packet P) (peers : List P) :
    List (Flow P) :=
  addAll flows (peers.map fun p => learntFlow hashedName p pkt.dlSrc pkt.inPort)

theorem receive_of_none {immediate : Bool} (h : lookup flows learningTable pkt = none) :
    receive immediate flows pkt = ⟨flows, []⟩ :=
  pipeline_of_none (by rwa [ite_self])

/-- A packet teaches the peers of its port and then goes to the switching table. -/
theorem receive_of_learning {immediate : Bool} {peers : List P}
    (h : lookup flows learningTable pkt = some (learningFlow hashedName pkt.inPort peers)) :
    receive immediate flows pkt =
      pipeline immediate pkt flows 63 (taught hashedName flows pkt peers) switchingTable := by
  have hl : lookup (if immediate then flows else flows) 0 pkt =
      some (learningFlow hashedName pkt.inPort peers) := by rwa [ite_self]
  unfold receive
  rw [show maxDepth = 63 + 1 from rfl, pipeline]
  simp only [hl, learningFlow, foldl_append, foldl_act_learn, foldl_cons,
    foldl_nil, act, nil_append]
  rfl

include h in
theorem Inv.taught {peers : List P} (hsw : sw ∈ ports)
    (hin : pkt.inPort ∈ sw) (hpe : ∀ q ∈ peers, q ∈ sw) :
    Inv hashedName ports (taught hashedName flows pkt peers) := by
  refine ⟨h.keyed.addAll _, fun f hf => ?_⟩
  rcases mem_addAll hf with hf | hf
  · obtain ⟨p, hp, rfl⟩ := mem_map.mp hf
    exact .learnt hsw (hpe p hp) hin
  · exact h.chain f hf

include h in
/-- A packet keeps the invariant, and leaves only through other ports of a switch of its port. -/
theorem Inv.receive (immediate : Bool) (pkt : Packet P) :
    Inv hashedName ports (receive immediate flows pkt).flows ∧
      ∀ q ∈ (receive immediate flows pkt).outputs,
        q ≠ pkt.inPort ∧ ∃ sw ∈ ports, pkt.inPort ∈ sw ∧ q ∈ sw := by
  cases hl : lookup flows learningTable pkt with
  | none =>
    rw [receive_of_none hl]
    exact ⟨h, nofun⟩
  | some f =>
    obtain ⟨sw, hsw, hin, peers, hp, rfl⟩ := h.lookup_learning hl
    have ht := h.taught hsw hin hp
    have hv : Inv hashedName ports
        (if immediate then ServiceChainFlows.taught hashedName flows pkt peers else flows) := by
      split_ifs
      · exact ht
      · exact h
    rw [receive_of_learning hl]
    cases hs : lookup
        (if immediate then ServiceChainFlows.taught hashedName flows pkt peers else flows)
        switchingTable pkt with
    | none =>
      rw [pipeline_of_none hs]
      exact ⟨ht, nofun⟩
    | some g =>
      obtain ⟨sw', hsw', hin', outs, ho, ha⟩ := hv.lookup_switching hs
      rw [pipeline_of_outputs hs ha]
      refine ⟨ht, fun q hq => ?_⟩
      obtain ⟨hq, hne⟩ := mem_filter.mp hq
      exact ⟨by simpa using hne, sw', hsw', hin', ho q hq⟩

include h in
theorem Inv.run (immediate : Bool) (events : List (Event P)) :
    Inv hashedName ports (run immediate flows events) := by
  induction events generalizing flows with
  | nil => exact h
  | cons e rest ih =>
    cases e with
    | packet pkt => exact ih (h.receive immediate pkt).1
    | expiry k => exact ih (h.expire k)

/-- Behind which port a port takes an address to be. -/
abbrev Beliefs (P : Type) := P → Mac → Option P

/-- The other ports of a switch learn where the source of a packet is. -/
def teach (ports : List (List P)) (b : Beliefs P) (pkt : Packet P) : Beliefs P := fun p m =>
  if m = pkt.dlSrc ∧ p ≠ pkt.inPort ∧ ∃ sw ∈ ports, p ∈ sw ∧ pkt.inPort ∈ sw then some pkt.inPort
  else b p m

def forget (b : Beliefs P) (k : Key P) : Beliefs P := fun p m =>
  if k = learntKey p m then none else b p m

def observe (ports : List (List P)) (b : Beliefs P) : Event P → Beliefs P
  | .packet pkt => teach ports b pkt
  | .expiry k => forget b k

/-- All ports of the switch but the one that the packet entered. -/
def others (sw : List P) (p : P) : List P := sw.filter (· ≠ p)

/-- Where a learning switch sends a packet: to the port behind which its destination is, if that is
known, and to all others if not. -/
def forward (sw : List P) (b : Beliefs P) (pkt : Packet P) : List P :=
  if pkt.dlDst.getLsbD 40 then others sw pkt.inPort
  else
    match b pkt.inPort pkt.dlDst with
    | none => others sw pkt.inPort
    | some q => [q]

theorem switch_unique (hnd : ports.flatten.Nodup) {sw' : List P} (hsw : sw ∈ ports)
    (hsw' : sw' ∈ ports) (hp : p ∈ sw) (hp' : p ∈ sw') : sw = sw' := by
  have hd := (nodup_flatten.mp hnd).2
  by_contra hne
  have hs : Std.Symm (List.Disjoint : List P → List P → Prop) := ⟨fun _ _ h => h.symm⟩
  exact hd.forall hsw hsw' hne hp hp'

/-- The flows of the bridge, for what the ports believe. -/
structure Refines (hashedName : ℕ) (ports : List (List P)) (flows : List (Flow P))
    (b : Beliefs P) : Prop where
  inv : Inv hashedName ports flows
  learning : ∀ sw ∈ ports, 2 ≤ sw.length → ∀ p ∈ sw,
    get flows (learningKey p) = some (learningFlow hashedName p (others sw p))
  multicast : ∀ sw ∈ ports, 2 ≤ sw.length → ∀ p ∈ sw,
    get flows (multicastKey p) = some (multicastFlow hashedName p (others sw p))
  flood : ∀ sw ∈ ports, 2 ≤ sw.length → ∀ p ∈ sw,
    get flows (floodKey p) = some (floodFlow hashedName p (others sw p))
  learnt : ∀ p m, get flows (learntKey p m) = (b p m).map (learntFlow hashedName p m)
  wide : ∀ p peers, learningFlow hashedName p peers ∈ flows → ∃ sw ∈ ports, 2 ≤ sw.length ∧ p ∈ sw

section Refinement

variable {flows : List (Flow P)} {b : Beliefs P} {pkt : Packet P}

theorem Refines.expire (h : Refines hashedName ports flows b) (k : Key P) :
    Refines hashedName ports (expire flows k) (forget b k) := by
  have hke : ∀ {k' : Key P} {f : Flow P}, get flows k' = some f → f.idleTimeout = none →
      get (FlowTables.expire flows k) k' = some f := by
    intro k' f hg hi
    rw [get_expire flows h.inv.keyed, hg]
    simp [Option.filter, hi]
  refine ⟨h.inv.expire k, ?_, ?_, ?_, ?_, ?_⟩
  · exact fun sw hsw hl p hp => hke (h.learning sw hsw hl p hp) rfl
  · exact fun sw hsw hl p hp => hke (h.multicast sw hsw hl p hp) rfl
  · exact fun sw hsw hl p hp => hke (h.flood sw hsw hl p hp) rfl
  · intro p m
    rw [get_expire flows h.inv.keyed, h.learnt p m]
    unfold forget
    split_ifs with hk
    · cases b p m with
      | none => rfl
      | some q => rfl
    · rfl
  · exact fun p peers hmem => h.wide p peers (mem_of_mem_filter hmem)

/-- The peers of the port of a packet learn from it. -/
theorem Refines.taught (hnd : ports.flatten.Nodup) (h : Refines hashedName ports flows b)
    (hsw : sw ∈ ports) (hin : pkt.inPort ∈ sw) :
    Refines hashedName ports (taught hashedName flows pkt (others sw pkt.inPort))
      (teach ports b pkt) := by
  have hpe : ∀ q ∈ others sw pkt.inPort, q ∈ sw := fun q hq => mem_of_mem_filter hq
  have hke : ∀ {k : Key P}, k.priority ≠ unicastLearntPriority →
      get (ServiceChainFlows.taught hashedName flows pkt (others sw pkt.inPort)) k =
        get flows k := by
    intro k hk
    refine get_addAll_of_not_mem fun f hf hkey => hk ?_
    obtain ⟨p, _, rfl⟩ := mem_map.mp hf
    rw [← hkey]
    rfl
  refine ⟨h.inv.taught hsw hin hpe, ?_, ?_, ?_, ?_, ?_⟩
  · exact fun sw hsw hlen p hp => (hke Nat.zero_ne_one).trans (h.learning sw hsw hlen p hp)
  · exact fun sw hsw hlen p hp =>
      (hke (by decide : (2 : ℕ) ≠ 1)).trans (h.multicast sw hsw hlen p hp)
  · exact fun sw hsw hlen p hp => (hke Nat.zero_ne_one).trans (h.flood sw hsw hlen p hp)
  · intro p m
    unfold teach
    split_ifs with hl
    · obtain ⟨rfl, hne, sw', hsw', hp, hin'⟩ := hl
      obtain rfl := switch_unique hnd hsw hsw' hin hin'
      have hmem : learntFlow hashedName p pkt.dlSrc pkt.inPort ∈
          (others sw pkt.inPort).map fun p => learntFlow hashedName p pkt.dlSrc pkt.inPort :=
        mem_map_of_mem (mem_filter.mpr ⟨hp, by simpa using hne⟩)
      refine (@get_addAll_of_mem P _ flows _ _ hmem fun g hg hkey => ?_).trans rfl
      obtain ⟨p', _, rfl⟩ := mem_map.mp hg
      rw [(learntKey_inj.mp hkey).1]
    · refine (get_addAll_of_not_mem fun f hf hkey => hl ?_).trans (h.learnt p m)
      obtain ⟨p', hp', rfl⟩ := mem_map.mp hf
      obtain ⟨rfl, rfl⟩ := learntKey_inj.mp hkey
      obtain ⟨hp', hne⟩ := mem_filter.mp hp'
      exact ⟨rfl, by simpa using hne, sw, hsw, hp', hin⟩
  · intro p peers hmem
    rcases mem_addAll hmem with hn | hold
    · obtain ⟨p', _, heq⟩ := mem_map.mp hn
      exact absurd (congrArg Flow.table heq) Nat.one_ne_zero
    · exact h.wide p peers hold

/-- A packet on a port of a switch finds the learning flow of the port. -/
theorem Refines.lookup_learning (h : Refines hashedName ports flows b) (hsw : sw ∈ ports)
    (hl : 2 ≤ sw.length) (hin : pkt.inPort ∈ sw) :
    lookup flows learningTable pkt =
      some (learningFlow hashedName pkt.inPort (others sw pkt.inPort)) := by
  have hf := (get_eq_some (h.learning sw hsw hl _ hin)).1
  have hco : ∀ peers, (learningFlow hashedName pkt.inPort peers).criteria.covers pkt = true :=
    fun peers => covers_iff.mpr ⟨rfl, fun d hd => absurd hd (by simp [learningFlow])⟩
  refine lookup_of_get h.inv.keyed hf rfl (hco _) fun g hg ht hc => .inr ?_
  cases h.inv.chain g hg with
  | learning =>
    obtain rfl := (covers_iff.mp hc).1
    rfl
  | multicast | flood | learnt => exact absurd ht Nat.one_ne_zero

/-- In the switching table a packet finds a flow that outputs it as the learning switch would. -/
theorem Refines.lookup_switching (h : Refines hashedName ports flows b) (hsw : sw ∈ ports)
    (hlen : 2 ≤ sw.length) (hin : pkt.inPort ∈ sw) :
    ∃ f, lookup flows switchingTable pkt = some f ∧ f.actions = (forward sw b pkt).map .output := by
  have hm := (get_eq_some (h.multicast sw hsw hlen _ hin)).1
  have hf := (get_eq_some (h.flood sw hsw hlen _ hin)).1
  have hl : ∀ {g : Flow P} {p : P} {m : Mac}, g ∈ flows → g.key = learntKey p m →
      g.criteria.covers pkt = true → p = pkt.inPort ∧ m = pkt.dlDst := by
    intro g p m _ hk hc
    have hcr : g.criteria = exactly p m := congrArg Key.criteria hk
    rw [hcr, exactly_covers] at hc
    exact ⟨hc.1, hc.2.symm⟩
  by_cases hbi : pkt.dlDst.getLsbD 40 = true
  · refine ⟨_, lookup_of_get h.inv.keyed hm rfl ((multicast_covers _ pkt).mpr ⟨rfl, hbi⟩)
      fun g hg ht hc => ?_, ?_⟩
    · cases h.inv.chain g hg with
      | learning => exact absurd ht Nat.zero_ne_one
      | multicast =>
        obtain rfl := ((multicast_covers _ pkt).mp hc).1
        exact .inr rfl
      | flood => exact .inl Nat.two_pos
      | learnt => exact .inl Nat.one_lt_two
    · rw [forward, if_pos hbi]
      rfl
  · cases hb : b pkt.inPort pkt.dlDst with
    | some q =>
      have hget := h.learnt pkt.inPort pkt.dlDst
      rw [hb, Option.map_some] at hget
      refine ⟨_, lookup_of_get h.inv.keyed (get_eq_some hget).1 rfl
        ((exactly_covers _ _ pkt).mpr ⟨rfl, rfl⟩) fun g hg ht hc => ?_, ?_⟩
      · cases h.inv.chain g hg with
        | learning => exact absurd ht Nat.zero_ne_one
        | multicast => exact absurd ((multicast_covers _ pkt).mp hc).2 hbi
        | flood => exact .inl Nat.one_pos
        | learnt =>
          obtain ⟨rfl, rfl⟩ := hl hg rfl hc
          exact .inr rfl
      · rw [forward, if_neg hbi, hb]
        rfl
    | none =>
      have hget := h.learnt pkt.inPort pkt.dlDst
      rw [hb, Option.map_none] at hget
      have hco : (floodFlow hashedName pkt.inPort (others sw pkt.inPort)).criteria.covers pkt =
          true := covers_iff.mpr ⟨rfl, fun d hd => absurd hd (by simp [floodFlow])⟩
      refine ⟨_, lookup_of_get h.inv.keyed hf rfl hco fun g hg ht hc => ?_, ?_⟩
      · cases h.inv.chain g hg with
        | learning => exact absurd ht Nat.zero_ne_one
        | multicast => exact absurd ((multicast_covers _ pkt).mp hc).2 hbi
        | flood =>
          obtain rfl := (covers_iff.mp hc).1
          exact .inr rfl
        | learnt =>
          obtain ⟨rfl, rfl⟩ := hl hg rfl hc
          exact absurd rfl (get_eq_none.mp hget _ hg)
      · rw [forward, if_neg hbi, hb]
        rfl

/-- What a packet teaches says nothing to its own port. -/
theorem forward_teach (sw : List P) (b : Beliefs P) (pkt : Packet P) :
    forward sw (teach ports b pkt) pkt = forward sw b pkt := by
  simp [forward, teach]

/-- A port never takes an address to be behind itself. -/
def Proper (b : Beliefs P) : Prop := ∀ p m, b p m ≠ some p

theorem Proper.observe (hb : Proper b) (e : Event P) : Proper (observe ports b e) := by
  intro p m
  cases e with
  | packet pkt =>
    unfold ServiceChainFlows.observe teach
    dsimp only
    split_ifs with h
    · exact fun heq => h.2.1 (Option.some.inj heq).symm
    · exact hb p m
  | expiry k =>
    unfold ServiceChainFlows.observe forget
    dsimp only
    split_ifs
    · exact Option.some_ne_none p ∘ Eq.symm
    · exact hb p m

theorem forward_filter (hb : Proper b) (sw : List P) (pkt : Packet P) :
    (forward sw b pkt).filter (· ≠ pkt.inPort) = forward sw b pkt := by
  have ho : (others sw pkt.inPort).filter (· ≠ pkt.inPort) = others sw pkt.inPort := by
    simp [others]
  unfold forward
  split_ifs with hbi
  · exact ho
  · cases hq : b pkt.inPort pkt.dlDst with
    | none => exact ho
    | some q =>
      have hne : q ≠ pkt.inPort := fun heq => hb pkt.inPort pkt.dlDst (heq ▸ hq)
      simp [hne]

/-- A packet on a port of a switch with peers: the flows learn and output as the learning switch
does. -/
theorem Refines.receive (hnd : ports.flatten.Nodup) (h : Refines hashedName ports flows b)
    (hb : Proper b) (immediate : Bool) (hsw : sw ∈ ports) (hl : 2 ≤ sw.length)
    (hin : pkt.inPort ∈ sw) :
    Refines hashedName ports (receive immediate flows pkt).flows (teach ports b pkt) ∧
      (receive immediate flows pkt).outputs = forward sw b pkt := by
  have ht := h.taught hnd hsw hin
  obtain ⟨f, hf, ha⟩ : ∃ f,
      lookup (if immediate then
        ServiceChainFlows.taught hashedName flows pkt (others sw pkt.inPort) else flows)
        switchingTable pkt = some f ∧ f.actions = (forward sw b pkt).map .output := by
    cases immediate with
    | true =>
      obtain ⟨f, hf, ha⟩ := ht.lookup_switching hsw hl hin
      rw [forward_teach] at ha
      exact ⟨f, hf, ha⟩
    | false => exact h.lookup_switching hsw hl hin
  rw [receive_of_learning (h.lookup_learning hsw hl hin), pipeline_of_outputs hf ha]
  exact ⟨ht, forward_filter hb sw pkt⟩

end Refinement

end DocaPlatform.ServiceChainFlows
