import Mathlib.Data.List.MinMax
import Mathlib.Tactic

/-!
# Flow tables

A switch with numbered flow tables. A packet is matched on its ingress port and on its destination
address; among the matching flows of a table the one of the highest priority is taken. Actions
output the packet, send it to another table, or learn a flow from it. A flow replaces the flow with
the same table, priority and match, and a flow with an idle timeout may go at any time.
-/
namespace DocaPlatform.FlowTables

open List

abbrev Mac := BitVec 48

structure Packet (P : Type) where
  inPort : P
  dlSrc : Mac
  dlDst : Mac

/-- A match on the ingress port and, if given, on the destination address under a mask. -/
structure Match (P : Type) where
  inPort : P
  dlDst : Option (Mac × Mac)
  deriving DecidableEq

inductive Action (P : Type) where
  /-- Learn a flow that sends packets which enter `inPort` for the source of this packet to the
  port that this packet entered. -/
  | learn (cookie idleTimeout table priority : ℕ) (inPort : P)
  | output (port : P)
  | resubmit (table : ℕ)

structure Flow (P : Type) where
  cookie : ℕ
  table : ℕ
  priority : ℕ
  criteria : Match P
  idleTimeout : Option ℕ
  actions : List (Action P)

/-- What tells two flows apart. -/
structure Key (P : Type) where
  table : ℕ
  priority : ℕ
  criteria : Match P
  deriving DecidableEq

def Flow.key {P : Type} (f : Flow P) : Key P := ⟨f.table, f.priority, f.criteria⟩

variable {P : Type} [DecidableEq P]

def Match.covers (m : Match P) (pkt : Packet P) : Bool :=
  m.inPort = pkt.inPort && m.dlDst.all fun d => pkt.dlDst &&& d.2 == d.1

variable {pkt : Packet P} {flows new : List (Flow P)} {k : Key P} {f g : Flow P} {table : ℕ}

theorem covers_iff {m : Match P} :
    m.covers pkt = true ↔
      m.inPort = pkt.inPort ∧ ∀ d, m.dlDst = some d → pkt.dlDst &&& d.2 = d.1 := by
  unfold Match.covers
  cases m.dlDst with
  | none => simp
  | some d => simp

/-- The match on one destination address. -/
def exactly (p : P) (d : Mac) : Match P := ⟨p, some (d, BitVec.allOnes 48)⟩

@[simp] theorem exactly_covers (p : P) (d : Mac) (pkt : Packet P) :
    (exactly p d).covers pkt = true ↔ p = pkt.inPort ∧ pkt.dlDst = d := by
  rw [covers_iff]
  refine and_congr Iff.rfl ⟨fun h => ?_, fun h d' hd => ?_⟩
  · simpa only [BitVec.and_allOnes] using h _ rfl
  · cases hd
    rw [BitVec.and_allOnes, h]

/-! ## The flows of a switch -/

def get (flows : List (Flow P)) (k : Key P) : Option (Flow P) := flows.find? (·.key = k)

def add (flows : List (Flow P)) (f : Flow P) : List (Flow P) :=
  f :: flows.filter (·.key ≠ f.key)

def addAll (flows new : List (Flow P)) : List (Flow P) := new.foldl add flows

/-- The idle timeout of the flow with this key passes. -/
def expire (flows : List (Flow P)) (k : Key P) : List (Flow P) :=
  flows.filter fun f => !(f.key = k && f.idleTimeout.isSome)

def Keyed (flows : List (Flow P)) : Prop := ∀ f ∈ flows, get flows f.key = some f

theorem get_eq_some (h : get flows k = some f) : f ∈ flows ∧ f.key = k :=
  ⟨mem_of_find?_eq_some h, by simpa using find?_some h⟩

theorem get_eq_none : get flows k = none ↔ ∀ f ∈ flows, f.key ≠ k := by
  simp [get]

theorem get_filter_of_keep {q : Flow P → Bool} (h : ∀ f ∈ flows, f.key = k → q f = true) :
    get (flows.filter q) k = get flows k := by
  induction flows with
  | nil => rfl
  | cons f rest ih =>
    have ih := ih fun g hg => h g (mem_cons_of_mem _ hg)
    unfold get at ih ⊢
    by_cases hk : f.key = k
    · have hq := h f mem_cons_self hk
      simp [hq, hk]
    · by_cases hq : q f
      · simp [hq, hk, ih]
      · simp [hq, hk, ih]

theorem get_filter_of_drop {q : Flow P → Bool} (h : ∀ f ∈ flows, f.key = k → q f = false) :
    get (flows.filter q) k = none := by
  rw [get_eq_none]
  intro f hf hk
  have hq := mem_filter.mp hf
  rw [h f hq.1 hk] at hq
  exact absurd hq.2 Bool.false_ne_true

theorem get_add (flows : List (Flow P)) (f : Flow P) (k : Key P) :
    get (add flows f) k = if f.key = k then some f else get flows k := by
  by_cases hk : f.key = k
  · simp [get, add, hk]
  · have hr : get (flows.filter (·.key ≠ f.key)) k = get flows k :=
      get_filter_of_keep fun g _ hg => by simpa [hg] using fun h => hk h.symm
    rw [if_neg hk, ← hr]
    simp [get, add, hk]

theorem mem_add (h : g ∈ add flows f) : g = f ∨ g ∈ flows := by
  rcases mem_cons.mp h with h | h
  · exact .inl h
  · exact .inr (mem_of_mem_filter h)

theorem mem_addAll (h : g ∈ addAll flows new) : g ∈ new ∨ g ∈ flows := by
  induction new generalizing flows with
  | nil => exact .inr h
  | cons f rest ih =>
    rcases ih h with h | h
    · exact .inl (mem_cons_of_mem _ h)
    · rcases mem_add h with rfl | h
      · exact .inl mem_cons_self
      · exact .inr h

theorem mem_add_iff : g ∈ add flows f ↔ g = f ∨ g ∈ flows ∧ g.key ≠ f.key := by
  simp [add, mem_filter]

/-- What is there after new flows: what they leave in an empty bridge, and the old flows that none
of them replaced. -/
theorem mem_addAll_iff :
    g ∈ addAll flows new ↔ g ∈ addAll [] new ∨ g ∈ flows ∧ ∀ f ∈ new, f.key ≠ g.key := by
  induction new generalizing flows with
  | nil => simp [addAll]
  | cons f rest ih =>
    have hf : g ∈ addAll flows (f :: rest) ↔
        g ∈ addAll [] rest ∨ g ∈ add flows f ∧ ∀ h ∈ rest, h.key ≠ g.key := ih
    have hn : g ∈ addAll [] (f :: rest) ↔
        g ∈ addAll [] rest ∨ g ∈ add [] f ∧ ∀ h ∈ rest, h.key ≠ g.key := ih
    rw [hf, hn, mem_add_iff, mem_add_iff]
    constructor
    · rintro (h | ⟨rfl | ⟨hg, hk⟩, hr⟩)
      · exact .inl (.inl h)
      · exact .inl (.inr ⟨.inl rfl, hr⟩)
      · exact .inr ⟨hg, by simpa using ⟨fun h => hk h.symm, hr⟩⟩
    · rintro ((h | ⟨rfl | ⟨hg, -⟩, hr⟩) | ⟨hg, hr⟩)
      · exact .inl h
      · exact .inr ⟨.inl rfl, hr⟩
      · cases hg
      · have hk : f.key ≠ g.key := hr f mem_cons_self
        exact .inr ⟨.inr ⟨hg, fun h => hk h.symm⟩, fun h hh => hr h (mem_cons_of_mem _ hh)⟩

theorem addAll_append (flows a b : List (Flow P)) :
    addAll flows (a ++ b) = addAll (addAll flows a) b :=
  foldl_append

theorem get_addAll_of_not_mem (h : ∀ f ∈ new, f.key ≠ k) :
    get (addAll flows new) k = get flows k := by
  induction new generalizing flows with
  | nil => rfl
  | cons f rest ih =>
    have hr : get (addAll (add flows f) rest) k = get (add flows f) k :=
      ih fun g hg => h g (mem_cons_of_mem _ hg)
    rw [get_add, if_neg (h f mem_cons_self)] at hr
    exact hr

theorem get_addAll_of_mem (hf : f ∈ new) (h : ∀ g ∈ new, g.key = f.key → g = f) :
    get (addAll flows new) f.key = some f := by
  induction new generalizing flows with
  | nil => cases hf
  | cons g rest ih =>
    by_cases hr : f ∈ rest
    · exact ih hr fun g' hg' => h g' (mem_cons_of_mem _ hg')
    · obtain rfl : f = g := (mem_cons.mp hf).resolve_right hr
      have hke : ∀ g' ∈ rest, g'.key ≠ f.key := by
        intro g' hg' hk
        exact hr (h g' (mem_cons_of_mem _ hg') hk ▸ hg')
      have hg : get (addAll (add flows f) rest) f.key = get (add flows f) f.key :=
        get_addAll_of_not_mem hke
      rw [get_add, if_pos rfl] at hg
      exact hg

theorem get_expire (flows : List (Flow P)) (hk : Keyed flows) (k k' : Key P) :
    get (expire flows k) k' =
      if k = k' then (get flows k').filter (fun f => f.idleTimeout.isNone) else get flows k' := by
  unfold expire
  by_cases heq : k = k'
  · subst heq
    rw [if_pos rfl]
    cases hget : get flows k with
    | none =>
      rw [get_filter_of_keep, hget]
      · rfl
      · intro f hf hke
        exact absurd hke (get_eq_none.mp hget f hf)
    | some f =>
      have ho : ∀ g ∈ flows, g.key = k → g = f := by
        intro g hg hke
        have := hk g hg
        rw [hke, hget] at this
        exact (Option.some.inj this).symm
      cases hi : f.idleTimeout with
      | none =>
        rw [get_filter_of_keep, hget]
        · simp [Option.filter, hi]
        · intro g hg hke
          rw [ho g hg hke, hi]
          simp
      | some t =>
        rw [get_filter_of_drop]
        · simp [Option.filter, hi]
        · intro g hg hke
          rw [ho g hg hke, hi]
          simp [(get_eq_some hget).2]
  · rw [if_neg heq]
    refine get_filter_of_keep fun f _ hke => ?_
    have hne : ¬ k' = k := fun h => heq h.symm
    simp [hke, hne]

theorem Keyed.add (h : Keyed flows) (f : Flow P) : Keyed (add flows f) := by
  intro g hg
  rw [get_add]
  by_cases hk : f.key = g.key
  · rw [if_pos hk]
    rcases mem_cons.mp hg with rfl | hg
    · rfl
    · have hne := (mem_filter.mp hg).2
      simp [hk] at hne
  · rw [if_neg hk]
    rcases mem_add hg with rfl | hg
    · exact absurd rfl hk
    · exact h g hg

theorem Keyed.addAll (h : Keyed flows) (new : List (Flow P)) : Keyed (addAll flows new) := by
  induction new generalizing flows with
  | nil => exact h
  | cons f rest ih => exact ih (h.add f)

theorem Keyed.expire (h : Keyed flows) (k : Key P) : Keyed (expire flows k) := by
  intro f hf
  obtain ⟨hmem, hke⟩ := mem_filter.mp hf
  rw [get_expire flows h]
  split_ifs with hk
  · have hi : f.idleTimeout = none := by simpa [hk] using hke
    simp [h f hmem, Option.filter, hi]
  · exact h f hmem

def lookup (flows : List (Flow P)) (table : ℕ) (pkt : Packet P) : Option (Flow P) :=
  (flows.filter fun f => f.table = table && f.criteria.covers pkt).argmax (·.priority)

theorem lookup_eq_some (h : lookup flows table pkt = some f) :
    f ∈ flows ∧ f.table = table ∧ f.criteria.covers pkt = true := by
  have hmem := argmax_mem h
  simpa [mem_filter] using hmem

theorem lookup_eq_none :
    lookup flows table pkt = none ↔
      ∀ f ∈ flows, f.table = table → f.criteria.covers pkt = false := by
  simp [lookup, argmax_eq_none, filter_eq_nil_iff]

/-- The flow that is taken is the only one of its priority to match, if no other key can match at
this priority. -/
theorem lookup_of_get (hke : Keyed flows) (hf : f ∈ flows) (ht : f.table = table)
    (hc : f.criteria.covers pkt = true)
    (hb : ∀ g ∈ flows, g.table = table → g.criteria.covers pkt = true →
      g.priority < f.priority ∨ g.key = f.key) :
    lookup flows table pkt = some f := by
  have hin : f ∈ flows.filter fun f => f.table = table && f.criteria.covers pkt := by
    simp [mem_filter, hf, ht, hc]
  cases hl : lookup flows table pkt with
  | none =>
    have ho := lookup_eq_none.mp hl f hf ht
    rw [hc] at ho
    exact absurd ho.symm Bool.false_ne_true
  | some g =>
    obtain ⟨hg, hgt, hgc⟩ := lookup_eq_some hl
    have hle : f.priority ≤ g.priority := le_of_mem_argmax hin hl
    rcases hb g hg hgt hgc with hlt | hk
    · omega
    · have hget := hke g hg
      rw [hk, hke f hf] at hget
      exact hget.symm

structure Result (P : Type) where
  flows : List (Flow P)
  outputs : List P

def learnt (cookie idleTimeout table priority : ℕ) (inPort : P) (pkt : Packet P) : Flow P where
  cookie := cookie
  table := table
  priority := priority
  criteria := exactly inPort pkt.dlSrc
  idleTimeout := some idleTimeout
  actions := [.output pkt.inPort]

/-- One action; `again` is what a table does with the packet. -/
def act (pkt : Packet P) (again : List (Flow P) → ℕ → Result P) (r : Result P) :
    Action P → Result P
  | .learn cookie idleTimeout table priority inPort =>
    { r with flows := add r.flows (learnt cookie idleTimeout table priority inPort pkt) }
  | .output port =>
    -- a packet never leaves through the port it entered
    if port = pkt.inPort then r else { r with outputs := r.outputs ++ [port] }
  | .resubmit table =>
    let r' := again r.flows table
    ⟨r'.flows, r.outputs ++ r'.outputs⟩

/-- A packet in a table. `immediate` says whether flows that the packet itself taught are seen by
its own later lookups; otherwise these look at the flows it found when it came. -/
def pipeline (immediate : Bool) (pkt : Packet P) (start : List (Flow P)) :
    ℕ → List (Flow P) → ℕ → Result P
  | 0, flows, _ => ⟨flows, []⟩
  | depth + 1, flows, table =>
    match lookup (if immediate then flows else start) table pkt with
    | none => ⟨flows, []⟩
    | some f => f.actions.foldl (act pkt (pipeline immediate pkt start depth)) ⟨flows, []⟩

/-- How deep packets are resubmitted. -/
def maxDepth : ℕ := 64

/-- A packet enters the switch, at table 0. -/
def receive (immediate : Bool) (flows : List (Flow P)) (pkt : Packet P) : Result P :=
  pipeline immediate pkt flows maxDepth flows 0

inductive Event (P : Type) where
  | packet (pkt : Packet P)
  | expiry (k : Key P)

def step (immediate : Bool) (flows : List (Flow P)) : Event P → List (Flow P)
  | .packet pkt => (receive immediate flows pkt).flows
  | .expiry k => expire flows k

def run (immediate : Bool) (flows : List (Flow P)) (events : List (Event P)) : List (Flow P) :=
  events.foldl (step immediate) flows

theorem foldl_act_learn (pkt : Packet P) (again : List (Flow P) → ℕ → Result P) (r : Result P)
    (cookie idleTimeout table priority : ℕ) (ports : List P) :
    (ports.map (Action.learn cookie idleTimeout table priority)).foldl (act pkt again) r = { r with
        flows := addAll r.flows
          (ports.map fun p => learnt cookie idleTimeout table priority p pkt) } := by
  induction ports generalizing r with
  | nil => rfl
  | cons p rest ih =>
    simp only [map_cons, foldl_cons, ih]
    rfl

theorem foldl_act_output (pkt : Packet P) (again : List (Flow P) → ℕ → Result P) (r : Result P)
    (ports : List P) :
    (ports.map Action.output).foldl (act pkt again) r =
      { r with outputs := r.outputs ++ ports.filter (· ≠ pkt.inPort) } := by
  induction ports generalizing r with
  | nil => simp
  | cons p rest ih =>
    simp only [map_cons, foldl_cons, ih, act]
    by_cases hp : p = pkt.inPort
    · simp [hp]
    · simp [hp]

theorem pipeline_of_none {immediate : Bool} {start : List (Flow P)} {depth : ℕ}
    (h : lookup (if immediate then flows else start) table pkt = none) :
    pipeline immediate pkt start depth flows table = ⟨flows, []⟩ := by
  cases depth with
  | zero => rfl
  | succ depth => simp [pipeline, h]

theorem pipeline_of_outputs {immediate : Bool} {start : List (Flow P)} {depth : ℕ} {ports : List P}
    (h : lookup (if immediate then flows else start) table pkt = some f)
    (hf : f.actions = ports.map .output) :
    pipeline immediate pkt start (depth + 1) flows table =
      ⟨flows, ports.filter (· ≠ pkt.inPort)⟩ := by
  simp [pipeline, h, hf, foldl_act_output]

end DocaPlatform.FlowTables
