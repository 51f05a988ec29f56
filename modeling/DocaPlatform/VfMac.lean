import DocaPlatform.KeyedStore
import DocaPlatform.Runs

/-!
# MAC addresses of VFs

`ProcessVFs` draws an address for each VF that has no entry in the config file, sets the recorded
address on the others, and writes the file once all VFs are done. A run may fail at any of its
calls.
-/
namespace DocaPlatform.VfMac

open Runs KeyedStore List Function

/-- The netdev of an ECPF and the name of a VF. -/
abbrev VF := String × String

abbrev VFMapping := Store VF String

def vfName (i : ℕ) : String := "vf" ++ toString i

def countVFFolders (dirs : List String) : ℕ := dirs.countP fun d => "vf".toList <+: d.toList

/-- The ECPFs, with the directories under `smart_nic`. The driver numbers the VFs from 0. -/
structure Sysfs where
  ecpfs : List String
  dirs : String → List String
  numbered : ∀ e d, d ∈ dirs e → "vf".toList <+: d.toList →
    ∃ i < countVFFolders (dirs e), d = vfName i

def Sysfs.IsVF (s : Sysfs) (p : VF) : Prop :=
  p.1 ∈ s.ecpfs ∧ p.2 ∈ s.dirs p.1 ∧ "vf".toList <+: p.2.toList

/-- The VFs that the loops of `ProcessVFs` visit; a name without a directory is skipped. -/
def Sysfs.targets (s : Sysfs) : List VF :=
  s.ecpfs.flatMap fun e =>
    (((List.range (countVFFolders (s.dirs e))).map vfName).filter (· ∈ s.dirs e)).map (e, ·)

theorem Sysfs.mem_targets {s : Sysfs} {p : VF} : p ∈ s.targets ↔ s.IsVF p := by
  obtain ⟨e, v⟩ := p
  simp only [targets, IsVF, mem_flatMap, mem_map, mem_filter, mem_range,
    decide_eq_true_eq, Prod.mk.injEq]
  constructor
  · rintro ⟨_, he, _, ⟨⟨i, -, rfl⟩, hd⟩, rfl, rfl⟩
    refine ⟨he, hd, ?_⟩
    rw [vfName, String.toList_append]
    exact prefix_append _ _
  · rintro ⟨he, hd, hv⟩
    obtain ⟨i, hi, rfl⟩ := s.numbered e v hd hv
    exact ⟨e, he, vfName i, ⟨⟨i, hi, rfl⟩, hd⟩, rfl, rfl⟩

/-- The last loop of `ProcessVFs`: entries of an ECPF that no longer exists go. -/
def Sysfs.removeStale (s : Sysfs) (m : VFMapping) : VFMapping where
  keys := m.keys
  get p := if p.1 ∈ s.ecpfs then m.get p else none
  nodup := m.nodup
  known p x h := by
    split_ifs at h
    exact m.known p x h

theorem Sysfs.get_removeStale {s : Sysfs} {m : VFMapping} {p : VF} :
    (s.removeStale m).get p = if p.1 ∈ s.ecpfs then m.get p else none := rfl

/-- A run under way, with the VFs that are left. -/
structure Run where
  mapping : VFMapping
  pending : List VF
  drawn : Bool

structure World where
  file : Option VFMapping
  /-- The addresses in sysfs. -/
  mac : VF → String
  run : Option Run
  /-- The address that a run gave to the VF first. -/
  given : VF → Option String

inductive Event where
  | loadConfig
  /-- The body of the inner loop: the address that sysfs draws on `Random`, and whether it can be
  read then. -/
  | processVF (random : String) (read : Bool)
  | saveConfig
  /-- Another read or write fails. A run that fails to load the file changes nothing. -/
  | fail

/-- The address is written to the VF, and the run goes on or ends. -/
def World.setVFMAC (w : World) (p : VF) (mac : String) (r : Option Run) : World :=
  { w with
    mac := update w.mac p mac
    given := update w.given p ((w.given p).or (some mac))
    run := r }

section

-- `isValidMAC` stands for `net.ParseMAC`.
variable (s : Sysfs) (isValidMAC : String → Bool)

/-- `loadConfig`; a file that does not exist is created. -/
def loadConfig : Option VFMapping → Option VFMapping
  | none => some .empty
  | some m => if m.items.all fun x => x.2 = "" ∨ isValidMAC x.2 then some m else none

def World.exec (w : World) : Event → Option World
  | .loadConfig =>
    match w.run, loadConfig isValidMAC w.file with
    | none, some m => some { w with file := some m, run := some ⟨m, s.targets, false⟩ }
    | _, _ => none
  | .processVF random read =>
    match w.run with
    | some ⟨m, p :: rest, drawn⟩ =>
      match m.get p with
      | none =>
        if isValidMAC random then
          some (w.setVFMAC p random (if read then some ⟨m.put p random, rest, true⟩ else none))
        else none
      | some mac =>
        if isValidMAC mac then some (w.setVFMAC p mac (some ⟨m, rest, drawn⟩)) else none
    | _ => none
  | .saveConfig =>
    match w.run with
    | some ⟨m, [], _⟩ => some { w with file := some (s.removeStale m), run := none }
    | _ => none
  | .fail => w.run.map fun _ => { w with run := none }

def Step (w : World) (e : Event) (w' : World) : Prop := w.exec s isValidMAC e = some w'

/-- A run that has drawn an address does not fail. -/
def World.allowed (w : World) : Event → Bool
  | .processVF _ read => read
  | .fail => w.run.all fun r => !r.drawn
  | _ => true

/-- Entries of the ECPFs are entries of their VFs. -/
def Sysfs.Fits (m : VFMapping) : Prop :=
  ∀ p x, m.get p = some x → p.1 ∈ s.ecpfs → p ∈ s.targets

structure Init (w : World) : Prop where
  run : w.run = none
  given : ∀ p, w.given p = none
  file : ∀ m, w.file = some m → s.Fits m

end

variable {s : Sysfs} {isValidMAC : String → Bool} {w w' : World}

/-- The entries that the next write of the file starts from. -/
def World.record (w : World) : Option VFMapping := (w.run.map Run.mapping).or w.file

theorem World.record_run {r : Run} (hr : w.run = some r) : w.record = some r.mapping := by
  rw [record, hr]
  rfl

structure Inv (s : Sysfs) (w : World) : Prop where
  fits : ∀ m, w.record = some m → s.Fits m
  given : ∀ p x, w.given p = some x →
    w.mac p = x ∧ p ∈ s.targets ∧ ∃ m, w.record = some m ∧ m.get p = some x
  loaded : ∀ r, w.run = some r → r.drawn = false → w.file = some r.mapping
  pending : ∀ r, w.run = some r → ∀ p ∈ r.pending, p ∈ s.targets
  done : ∀ r, w.run = some r → ∀ p ∈ s.targets, p ∈ r.pending ∨ r.mapping.get p = some (w.mac p)

/-- The next VF is given the address that is recorded for it from then on. -/
theorem Inv.processVF {m m' : VFMapping} {p : VF} {rest : List VF} {drawn drawn' : Bool}
    {mac : String} (h : Inv s w) (hr : w.run = some ⟨m, p :: rest, drawn⟩)
    (hm : ∀ q, m'.get q = if q = p then some mac else m.get q)
    (hg : ∀ x, m.get p = some x → x = mac) (hl : drawn' = false → drawn = false ∧ m' = m) :
    Inv s (w.setVFMAC p mac (some ⟨m', rest, drawn'⟩)) := by
  have hp : p ∈ s.targets := h.pending _ hr p mem_cons_self
  have hre := World.record_run hr
  refine ⟨fun x hx => ?_, fun q x hq => ?_, fun r hr' hd => ?_, fun r hr' q hq => ?_,
    fun r hr' q hq => ?_⟩
  · cases hx
    intro q x hq he
    rw [hm] at hq
    split_ifs at hq with hqp
    · exact hqp ▸ hp
    · exact h.fits m hre q x hq he
  · simp only [World.setVFMAC, update_apply] at hq ⊢
    split_ifs at hq ⊢ with hqp
    · have hx : mac = x := by
        cases hgi : w.given p with
        | none => simpa [hgi] using hq
        | some y =>
          obtain ⟨-, -, m₀, hm₀, hget⟩ := h.given p y hgi
          cases hre.symm.trans hm₀
          simpa [hgi, hg y hget] using hq
      exact ⟨hx, hqp ▸ hp, m', rfl, by rw [hm, if_pos hqp, hx]⟩
    · obtain ⟨hx, ht, m₀, hm₀, hget⟩ := h.given q x hq
      cases hre.symm.trans hm₀
      exact ⟨hx, ht, m', rfl, by rw [hm, if_neg hqp, hget]⟩
  · cases hr'
    obtain ⟨hd, rfl⟩ := hl hd
    exact h.loaded ⟨m', p :: rest, drawn⟩ hr hd
  · cases hr'
    exact h.pending _ hr q (mem_cons_of_mem _ hq)
  · cases hr'
    simp only [World.setVFMAC, update_apply, hm]
    split_ifs with hqp
    · exact .inr rfl
    · exact (h.done _ hr q hq).imp_left fun hq => (mem_cons.mp hq).resolve_left hqp

theorem Inv.load {m : VFMapping} (h : Inv s w) (hw : w.run = none)
    (hm : loadConfig isValidMAC w.file = some m) :
    Inv s { w with file := some m, run := some ⟨m, s.targets, false⟩ } := by
  have hre : w.record = w.file := by rw [World.record, hw]; rfl
  -- The file is as it was, or was made and is empty.
  have hf : w.file = some m ∨ w.file = none ∧ m = .empty := by
    cases hfi : w.file with
    | none =>
      rw [hfi] at hm
      cases hm
      exact .inr ⟨rfl, rfl⟩
    | some m' =>
      rw [hfi, loadConfig] at hm
      split_ifs at hm
      exact .inl hm
  refine ⟨fun m' hm' => ?_, fun p x hg => ?_, fun r hr _ => ?_, fun r hr p hp => ?_,
    fun r hr p hp => ?_⟩
  · cases hm'
    rcases hf with hf | ⟨-, rfl⟩
    · exact h.fits m (hre.trans hf)
    · exact nofun
  · obtain ⟨hx, ht, m', hm', hget⟩ := h.given p x hg
    rw [hre] at hm'
    rcases hf with hf | ⟨hf, -⟩ <;> cases hf.symm.trans hm'
    exact ⟨hx, ht, m, rfl, hget⟩
  all_goals cases hr
  · rfl
  · exact hp
  · exact .inl hp

theorem Inv.step {e : Event} (h : Inv s w) (hok : w.allowed e = true)
    (hs : Step s isValidMAC w e w') : Inv s w' := by
  unfold Step at hs
  cases e with dsimp only [World.exec] at hs
  | loadConfig =>
    split at hs
    · rename_i m hr hm
      cases hs
      exact h.load hr hm
    · cases hs
  | processVF random read =>
    obtain rfl : read = true := hok
    split at hs
    · rename_i m p rest drawn hr
      simp only [↓reduceIte] at hs
      split at hs <;> split_ifs at hs <;> cases hs
      · rename_i hn _
        exact h.processVF hr (fun _ => Store.get_put) (by simp [hn]) nofun
      · rename_i mac hmac _
        refine h.processVF hr (fun q => ?_) (fun x hx => ?_) fun hd => ⟨hd, rfl⟩
        · split_ifs with hqp
          · rw [hqp, hmac]
          · rfl
        · exact Option.some.inj (hx.symm.trans hmac)
    · cases hs
  | saveConfig =>
    split at hs
    · rename_i m _ hr
      have hre := World.record_run hr
      cases hs
      refine ⟨fun m' hm' => ?_, fun p x hg => ?_, nofun, nofun, nofun⟩
      · cases hm'
        intro p x hp he
        rw [Sysfs.get_removeStale, if_pos he] at hp
        exact h.fits m hre p x hp he
      · obtain ⟨hx, ht, m', hm', hget⟩ := h.given p x hg
        cases hre.symm.trans hm'
        refine ⟨hx, ht, s.removeStale m, rfl, ?_⟩
        rw [Sysfs.get_removeStale, if_pos (Sysfs.mem_targets.mp ht).1, hget]
    · cases hs
  | fail =>
    obtain ⟨r, hr, rfl⟩ := Option.map_eq_some_iff.mp hs
    have hf := h.loaded r hr (by simpa [World.allowed, hr] using hok)
    have hre := (World.record_run hr).trans hf.symm
    refine ⟨fun m hm => h.fits m (hre.trans hm), fun p x hg => ?_, nofun, nofun, nofun⟩
    rw [World.record, Option.map_none, Option.none_or, ← hre]
    exact h.given p x hg

/-- If no run fails once it has drawn an address, a VF keeps the address that it was given, and a
run that ends well leaves the addresses in sysfs in the file. -/
theorem vf_macs_stable (h : Reachable (Init s)
      (Restrict (fun w e => w.allowed e = true) (Step s isValidMAC)) w) :
    (∀ p mac, w.given p = some mac → w.mac p = mac) ∧
      ∀ w', Step s isValidMAC w .saveConfig w' →
        ∀ p mac, w'.file.bind (·.get p) = some mac ↔ s.IsVF p ∧ w'.mac p = mac := by
  have hinv : Inv s w := by
    refine Reachable.invariant (fun w hw => ?_) (fun w e w' _ hw hs => hw.step hs.1 hs.2) h
    have hru := hw.run
    exact ⟨by simpa [World.record, hru] using hw.file, by simp [hw.given], by simp [hru],
      by simp [hru], by simp [hru]⟩
  refine ⟨fun p mac hg => (hinv.given p mac hg).1, fun w' hs p mac => ?_⟩
  dsimp only [Step, World.exec] at hs
  split at hs
  · rename_i m _ hr
    cases hs
    rw [← Sysfs.mem_targets, Option.bind_some, Sysfs.get_removeStale]
    by_cases hp : p ∈ s.targets
    · rw [if_pos (Sysfs.mem_targets.mp hp).1, (hinv.done _ hr p hp).resolve_left not_mem_nil]
      simp [hp]
    · refine iff_of_false (fun hc => hp ?_) (fun hc => hp hc.1)
      split_ifs at hc with he
      exact hinv.fits m (World.record_run hr) p mac hc he
  · cases hs

def singleVF : Sysfs where
  ecpfs := ["p0"]
  dirs _ := ["vf0"]
  numbered _ d hd _ := ⟨0, by decide, mem_singleton.mp hd⟩

def bare : World := ⟨none, fun _ => "", none, fun _ => none⟩

theorem bare_init : Init singleVF bare := ⟨rfl, fun _ => rfl, nofun⟩

theorem drawn_mac_stable :
    ∃ w, Reachable (Init singleVF)
        (Restrict (fun w e => w.allowed e = true) (Step singleVF (· ≠ ""))) w ∧
      w.given ("p0", "vf0") = some "a" ∧ w.mac ("p0", "vf0") = "a" := by
  obtain ⟨w, hr, hw⟩ := Reachable.exists_of_runIf bare_init World.allowed
    (World.exec singleVF (· ≠ ""))
    [.loadConfig, .processVF "a" true, .saveConfig, .loadConfig, .fail] (·.given ("p0", "vf0"))
    (some "a") (by decide +kernel)
  exact ⟨w, hr, hw, (vf_macs_stable hr).1 _ _ hw⟩

/-- The run that gave the VF its first address fails before it writes the file. -/
theorem lost_mac_drawn_again :
    ∃ w, Reachable (Init singleVF) (Step singleVF (· ≠ "")) w ∧
      w.given ("p0", "vf0") = some "a" ∧ w.mac ("p0", "vf0") = "b" := by
  obtain ⟨w, hr, hw⟩ := Reachable.exists_of_run bare_init (World.exec singleVF (· ≠ ""))
    [.loadConfig, .processVF "a" true, .fail, .loadConfig, .processVF "b" true]
    (fun w => (w.given ("p0", "vf0"), w.mac ("p0", "vf0"))) (some "a", "b") (by decide +kernel)
  exact ⟨w, hr, congrArg Prod.fst hw, congrArg Prod.snd hw⟩

end DocaPlatform.VfMac
