import DocaPlatform.EncryptionConfig

/-!
# The staticKey Secret under its transitions

The encryption config Secret of a cluster from `InitializeStaticKey` on, under transitions that are
saved through the Store. A wrapper may be older than the stored Secret. Next to the Secret the
source is followed that was last observed with the material of a key.
-/
namespace DocaPlatform.StaticKeyStore

open Netip Runs EncryptionConfig Function Option StaticKeyConfig

/-- `parse`, for the staticKey provider. -/
def parse (s : Secret) : Result StaticKeyConfig :=
  let name := s.secretNamespace ++ "/" ++ s.secretName
  if s.provider = "staticKey" then parseStaticKey s
  else if s.provider = "" then
    .error (.validation ("encryption config secret " ++ name ++
      " is missing provider annotation " ++ quote providerAnnotation))
  else
    .error (.validation ("encryption config secret " ++ name ++
      " has unsupported provider annotation " ++ quote s.provider))

inductive Transition where
  /-- `TransitionToPrepared`, with the name that is generated for the key. -/
  | toPrepared (newKeyName : String) (source : SourceKey)
  | toPromoted
  | toFinalized
  | toIdle

def Transition.source : Transition → Phase
  | .toPrepared _ _ => .idle
  | .toPromoted => .prepared
  | .toFinalized => .promoted
  | .toIdle => .finalized

def Transition.apply (c : StaticKeyConfig) : Transition → Result StaticKeyConfig
  | .toPrepared newKeyName source => c.transitionToPrepared newKeyName source
  | .toPromoted => c.transitionToPromoted
  | .toFinalized => c.transitionToFinalized
  | .toIdle => c.transitionToIdle

def secretMatches (s expected : Secret) : Bool :=
  s.data = expected.data ∧ s.provider = expected.provider ∧ s.phase = expected.phase ∧
    s.active = expected.active ∧ s.target = expected.target

/-- `Save`: the stored Secret after it, or nothing if the update is refused. -/
def save (stored desired : Secret) : Option Secret :=
  if desired.uid = stored.uid ∧ desired.resourceVersion = stored.resourceVersion then
    if secretMatches stored desired then some stored
    else some { desired with resourceVersion := stored.resourceVersion + 1 }
  else none

structure World where
  stored : Secret
  /-- The wrappers of all versions that were read. -/
  wrappers : List StaticKeyConfig
  /-- The source that was last observed with the material of a key, by the name of the key. -/
  sources : String → Option SourceKey

def observe (sources : String → Option SourceKey) (c c' : StaticKeyConfig) :
    Transition → String → Option SourceKey
  | .toPrepared newKeyName source =>
    if c'.phase = .prepared then update sources newKeyName (some source)
    else update sources ((c.keys.map KeyEntry.name).headD "") (some source)
  | _ => sources

inductive Event where
  | load
  /-- A transition of a wrapper that was read, and its save. -/
  | transition (index : ℕ) (t : Transition)

/-- An error leaves everything as it is. -/
def World.exec (w : World) : Event → Option World
  | .load =>
    match parse w.stored with
    | .ok c => some { w with wrappers := w.wrappers ++ [c] }
    | .error _ => some w
  | .transition index t =>
    match w.wrappers[index]? with
    | none => none
    | some c =>
      match t.apply c with
      | .error _ => some w
      | .ok c' =>
        match save w.stored c'.secret with
        | none => some w
        | some s => some { w with stored := s, sources := observe w.sources c c' t }

def Step (w : World) (e : Event) (w' : World) : Prop := w.exec e = some w'

/-- The Secret that `InitializeStaticKey` created; the API server gives it its identity. -/
structure Init (w : World) : Prop where
  created : ∃ secretNamespace secretName keyName source c uid resourceVersion,
    newStaticKeyConfig secretNamespace secretName keyName source = .ok c ∧
      w.stored = { c.secret with uid := uid, resourceVersion := resourceVersion } ∧
      w.sources = update (fun _ => none) keyName (some source)
  wrappers : w.wrappers = []

/-! ## What a parse reads -/

variable {s : Secret} {c c' : StaticKeyConfig} {t : Transition} {w : World}

/-- The parse does not look at the identity of the object. -/
theorem parseStaticKey_of_version (h : parseStaticKey s = .ok c) (uid : String)
    (resourceVersion : ℕ) :
    parseStaticKey { s with uid := uid, resourceVersion := resourceVersion } =
      .ok { c with secret := { s with uid := uid, resourceVersion := resourceVersion } } := by
  obtain ⟨providers, hp, h⟩ := bind_eq_ok.mp h
  refine bind_eq_ok.mpr ⟨providers, hp, ?_⟩
  cases hr : providers.1.aesgcm with
  | none =>
    rw [hr] at h
    cases h
  | some raw =>
    rw [hr] at h
    obtain ⟨entries, he, h⟩ := bind_eq_ok.mp h
    refine bind_eq_ok.mpr ⟨entries, he, ?_⟩
    split_ifs at h ⊢ with hph
    obtain ⟨activeRef, ha, h⟩ := bind_eq_ok.mp h
    obtain ⟨targetRef, ht, h⟩ := bind_eq_ok.mp h
    refine bind_eq_ok.mpr ⟨activeRef, ha, bind_eq_ok.mpr ⟨targetRef, ht, ?_⟩⟩
    dsimp only at h ⊢
    split at h
    · cases h
    · cases h
      rfl

theorem parseStaticKey_targetRef (h : parseStaticKey s = .ok c) :
    c.targetRef = if s.target = noRef then none else some s.target := by
  obtain ⟨providers, -, h⟩ := bind_eq_ok.mp h
  cases hr : providers.1.aesgcm with
  | none =>
    rw [hr] at h
    cases h
  | some raw =>
    rw [hr] at h
    obtain ⟨entries, -, h⟩ := bind_eq_ok.mp h
    split_ifs at h
    obtain ⟨activeRef, -, h⟩ := bind_eq_ok.mp h
    obtain ⟨targetRef, ht, h⟩ := bind_eq_ok.mp h
    dsimp only at h
    split at h
    · cases h
    · cases h
      unfold staticKeyTargetRef at ht
      split_ifs at ht with hn
      · cases ht
        rw [if_pos hn]
      · rw [if_neg hn]
        split at ht
        · cases ht
        · cases ht
          rfl

/-- The shapes that `validateStaticKeyShape` accepts. -/
theorem shape_cases (c : StaticKeyConfig) :
    (c.phase = .idle ∧ c.keys.length = 1 ∧ c.targetRef = none) ∨
    (c.phase = .prepared ∧ c.keys.length = 2 ∧ c.targetRef.isSome = true) ∨
    (c.phase = .promoted ∧ c.keys.length = 2 ∧ c.targetRef = some c.activeRef) ∨
    (c.phase = .finalized ∧ c.keys.length = 1 ∧ c.targetRef = some c.activeRef) := by
  have h := c.shape
  unfold validateStaticKeyShape at h
  dsimp only at h
  cases hph : c.phase with rw [hph] at h
  | idle =>
    dsimp only at h
    split_ifs at h with hl ht
    exact .inl ⟨rfl, not_not.mp hl, by simpa using ht⟩
  | prepared =>
    dsimp only at h
    split_ifs at h with hl ht
    have hs : c.targetRef.isSome = true := by simpa [isSome_iff_ne_none] using ht
    exact .inr (.inl ⟨rfl, not_not.mp hl, hs⟩)
  | promoted =>
    dsimp only at h
    split_ifs at h with hl ht ha
    exact .inr (.inr (.inl ⟨rfl, not_not.mp hl, not_not.mp ha⟩))
  | finalized =>
    dsimp only at h
    split_ifs at h with hl ht ha
    exact .inr (.inr (.inr ⟨rfl, not_not.mp hl, not_not.mp ha⟩))
  | other text =>
    cases h

/-- The references that a wrapper reads back after `withState` wrote them. -/
theorem withState_refs {phase : Phase} {keys : List KeyEntry}
    {targetRef : Option ObservedSecretKeyRef} {activeRef : ObservedSecretKeyRef}
    (h : c.withState phase keys targetRef activeRef = .ok c') :
    c'.activeRef = activeRef ∧ (c'.targetRef = none ∨ c'.targetRef = targetRef) := by
  obtain ⟨-, -, ha, -⟩ := parseStaticKey_ok h
  refine ⟨ha, ?_⟩
  have ht := parseStaticKey_targetRef h
  cases targetRef with
  | none => exact .inl (ht.trans (if_pos rfl))
  | some ref =>
    by_cases hn : ref = noRef
    · exact .inl (ht.trans (if_pos hn))
    · exact .inr (ht.trans (if_neg hn))

theorem withState_target {phase : Phase} {keys : List KeyEntry}
    {ref activeRef : ObservedSecretKeyRef}
    (h : c.withState phase keys (some ref) activeRef = .ok c') (hph : c'.phase ≠ .idle) :
    c'.targetRef = some ref := by
  refine (withState_refs h).2.resolve_left ?_
  intro hn
  have hs := shape_cases c'
  rw [hn] at hs
  simp [hph] at hs

/-! ## What a transition does -/

/-- A transition that was accepted, with the state it renders. -/
inductive Moves (c c' : StaticKeyConfig) : Transition → Prop where
  | refresh {newKeyName : String} {source : SourceKey} {active : KeyEntry}
      (phase : c.phase = .idle) (keys : c.keys = [active])
      (material : validateBase64StaticKeyText source.key = .ok active.secret)
      (state : c.withState .idle [active] none source.ref = .ok c') :
      Moves c c' (.toPrepared newKeyName source)
  | prepare {source : SourceKey} {active target : KeyEntry}
      (phase : c.phase = .idle) (keys : c.keys = [active]) (names : active.name ≠ target.name)
      (material : validateBase64StaticKeyText source.key = .ok target.secret)
      (state : c.withState .prepared [active, target] (some source.ref) c.activeRef = .ok c') :
      Moves c c' (.toPrepared target.name source)
  | promote {active target : KeyEntry} {ref : ObservedSecretKeyRef}
      (phase : c.phase = .prepared) (keys : c.keys = [active, target])
      (targetRef : c.targetRef = some ref)
      (state : c.withState .promoted [target, active] (some ref) ref = .ok c') :
      Moves c c' .toPromoted
  | finalize {active old : KeyEntry} {ref : ObservedSecretKeyRef}
      (phase : c.phase = .promoted) (keys : c.keys = [active, old])
      (targetRef : c.targetRef = some ref)
      (state : c.withState .finalized [active] (some ref) ref = .ok c') :
      Moves c c' .toFinalized
  | idle {active : KeyEntry}
      (phase : c.phase = .finalized) (keys : c.keys = [active])
      (state : c.withState .idle [active] none c.activeRef = .ok c') :
      Moves c c' .toIdle

theorem validateSourceKey_material {source : SourceKey} {key : KeyText}
    (h : validateSourceKey source = .ok key) :
    validateBase64StaticKeyText source.key = .ok key.1 := by
  unfold validateSourceKey at h
  split at h
  · cases h
  · rename_i base64Key hk
    split at h
    · cases h
    · cases h
      exact hk

theorem Transition.moves_of_apply (h : t.apply c = .ok c') : Moves c c' t := by
  cases t with
  | toPrepared newKeyName source =>
    simp only [Transition.apply, StaticKeyConfig.transitionToPrepared] at h
    split_ifs at h with hph
    split at h
    · rename_i active hke
      obtain ⟨desiredKey, hk, h⟩ := bind_eq_ok.mp h
      have hm := validateSourceKey_material hk
      split_ifs at h with hs hn
      · rw [← hs] at hm
        rw [hke] at h
        exact .refresh (not_not.mp hph) hke hm h
      · exact @Moves.prepare c c' source active ⟨newKeyName, desiredKey.1, desiredKey.2⟩
          (not_not.mp hph) hke (fun heq => hn heq.symm) hm h
    · cases h
  | toPromoted =>
    simp only [Transition.apply, StaticKeyConfig.transitionToPromoted] at h
    split_ifs at h with hph
    split at h
    · rename_i active target ref hke ht
      exact .promote (not_not.mp hph) hke ht h
    · cases h
    · cases h
  | toFinalized =>
    simp only [Transition.apply, StaticKeyConfig.transitionToFinalized] at h
    split_ifs at h with hph
    split at h
    · rename_i active old ref hke ht
      exact .finalize (not_not.mp hph) hke ht h
    · cases h
    · cases h
  | toIdle =>
    simp only [Transition.apply, StaticKeyConfig.transitionToIdle] at h
    split_ifs at h with hph
    split at h
    · rename_i active hke
      rw [hke] at h
      exact .idle (not_not.mp hph) hke h
    · cases h

theorem Moves.phase_eq (h : Moves c c' t) : c.phase = t.source := by
  cases h with
  | refresh phase keys material state => exact phase
  | prepare phase keys names material state => exact phase
  | promote phase keys targetRef state => exact phase
  | finalize phase keys targetRef state => exact phase
  | idle phase keys state => exact phase

theorem Transition.apply_error (h : c.phase ≠ t.source) : ∃ e, t.apply c = .error e := by
  cases ha : t.apply c with
  | error e => exact ⟨e, rfl⟩
  | ok c' => exact absurd (Transition.moves_of_apply ha).phase_eq h

theorem Moves.exists_state (h : Moves c c' t) :
    ∃ phase keys targetRef activeRef, c.withState phase keys targetRef activeRef = .ok c' := by
  cases h with
  | refresh phase keys material state => exact ⟨_, _, _, _, state⟩
  | prepare phase keys names material state => exact ⟨_, _, _, _, state⟩
  | promote phase keys targetRef state => exact ⟨_, _, _, _, state⟩
  | finalize phase keys targetRef state => exact ⟨_, _, _, _, state⟩
  | idle phase keys state => exact ⟨_, _, _, _, state⟩

/-! ## The sources of the keys -/

/-- The reference is the one that was last observed with the material of the key. -/
def FromSource (sources : String → Option SourceKey) (key : KeyEntry) (ref : ObservedSecretKeyRef) :
    Prop :=
  ∃ source, sources key.name = some source ∧
    validateBase64StaticKeyText source.key = .ok key.secret ∧ source.ref = ref

/-- The keys and the references that fit each phase. -/
inductive Consistent (sources : String → Option SourceKey) (activeRef : ObservedSecretKeyRef) :
    Phase → List KeyEntry → Option ObservedSecretKeyRef → Prop where
  | idle {key : KeyEntry} (active : FromSource sources key activeRef) :
      Consistent sources activeRef .idle [key] none
  | prepared {key other : KeyEntry} {targetRef : ObservedSecretKeyRef}
      (names : key.name ≠ other.name) (active : FromSource sources key activeRef)
      (target : FromSource sources other targetRef) :
      Consistent sources activeRef .prepared [key, other] (some targetRef)
  | promoted {key other : KeyEntry} {targetRef : ObservedSecretKeyRef}
      (names : key.name ≠ other.name) (active : FromSource sources key activeRef)
      (target : FromSource sources key targetRef) :
      Consistent sources activeRef .promoted [key, other] (some targetRef)
  | finalized {key : KeyEntry} {targetRef : ObservedSecretKeyRef}
      (active : FromSource sources key activeRef) (target : FromSource sources key targetRef) :
      Consistent sources activeRef .finalized [key] (some targetRef)

/-- The wrapper has keys and references that fit its phase. -/
def StaticKeyConfig.Sound (sources : String → Option SourceKey) (c : StaticKeyConfig) : Prop :=
  Consistent sources c.activeRef c.phase c.keys c.targetRef

/-- Consecutive phases of the Secret, with their keys. -/
inductive Follows (keys : List KeyEntry) : Phase → Phase → List KeyEntry → Prop where
  | refresh : Follows keys .idle .idle keys
  | prepare (key : KeyEntry) : Follows keys .idle .prepared (keys ++ [key])
  | promote : Follows keys .prepared .promoted keys.reverse
  | finalize : Follows keys .promoted .finalized (keys.take 1)
  | idle : Follows keys .finalized .idle keys

theorem Moves.follows (h : Moves c c' t) : Follows c.keys c.phase c'.phase c'.keys := by
  cases h with
  | refresh phase keys material state =>
    obtain ⟨-, hph, hk⟩ := withState_ok state
    rw [phase, hph, hk, keys]
    exact .refresh
  | @prepare source active target phase keys names material state =>
    obtain ⟨-, hph, hk⟩ := withState_ok state
    rw [phase, hph, hk, keys]
    exact .prepare target
  | promote phase keys targetRef state =>
    obtain ⟨-, hph, hk⟩ := withState_ok state
    rw [phase, hph, hk, keys]
    exact .promote
  | finalize phase keys targetRef state =>
    obtain ⟨-, hph, hk⟩ := withState_ok state
    rw [phase, hph, hk, keys]
    exact .finalize
  | idle phase keys state =>
    obtain ⟨-, hph, hk⟩ := withState_ok state
    rw [phase, hph, hk, keys]
    exact .idle

theorem FromSource.update_self (sources : String → Option SourceKey) {key : KeyEntry}
    {source : SourceKey} (material : validateBase64StaticKeyText source.key = .ok key.secret) :
    FromSource (update sources key.name (some source)) key source.ref :=
  ⟨source, Function.update_self .., material, rfl⟩

theorem FromSource.update_of_ne {sources : String → Option SourceKey} {key : KeyEntry}
    {ref : ObservedSecretKeyRef} (h : FromSource sources key ref) {name : String}
    (hn : key.name ≠ name) (source : SourceKey) :
    FromSource (update sources name (some source)) key ref := by
  obtain ⟨observed, hs, hm, hr⟩ := h
  exact ⟨observed, by rwa [Function.update_of_ne hn], hm, hr⟩

/-- One transition: the keys move together with the references to their sources. -/
theorem Moves.sound (h : Moves c c' t) {sources : String → Option SourceKey}
    (hc : StaticKeyConfig.Sound sources c) : StaticKeyConfig.Sound (observe sources c c' t) c' := by
  unfold StaticKeyConfig.Sound at hc ⊢
  cases h with
  | @refresh newKeyName source active phase keys material state =>
    obtain ⟨-, hph, hk⟩ := withState_ok state
    obtain ⟨ha, htg⟩ := withState_refs state
    have hi : c'.phase = .idle := hph
    have hn : c'.targetRef = none := htg.elim id id
    have ho : observe sources c c' (.toPrepared newKeyName source) =
        update sources active.name (some source) := by
      simp only [observe, hi, keys]
      rfl
    rw [ho, hi, hk, hn, ha]
    exact .idle (.update_self sources material)
  | @prepare source active target phase keys names material state =>
    obtain ⟨-, hph, hk⟩ := withState_ok state
    have hp : c'.phase = .prepared := hph
    have htg := withState_target state (by rw [hp]; decide)
    rw [phase, keys] at hc
    generalize c.targetRef = previous at hc
    rw [hp, hk, htg, (withState_refs state).1]
    simp only [observe, hp, if_true]
    cases hc with
    | idle hfr =>
      exact .prepared names (hfr.update_of_ne names source) (.update_self _ material)
  | @promote active target ref phase keys targetRef state =>
    obtain ⟨-, hph, hk⟩ := withState_ok state
    have hpr : c'.phase = .promoted := hph
    have htg := withState_target state (by rw [hpr]; decide)
    rw [phase, keys, targetRef] at hc
    rw [hpr, hk, htg, (withState_refs state).1]
    cases hc with
    | prepared names hfr ht => exact .promoted names.symm ht ht
  | @finalize active old ref phase keys targetRef state =>
    obtain ⟨-, hph, hk⟩ := withState_ok state
    have hf : c'.phase = .finalized := hph
    have htg := withState_target state (by rw [hf]; decide)
    rw [phase, keys, targetRef] at hc
    rw [hf, hk, htg, (withState_refs state).1]
    cases hc with
    | promoted names hfr ht => exact .finalized ht ht
  | @idle active phase keys state =>
    obtain ⟨-, hph, hk⟩ := withState_ok state
    obtain ⟨ha, htg⟩ := withState_refs state
    have hi : c'.phase = .idle := hph
    have hn : c'.targetRef = none := htg.elim id id
    rw [phase, keys] at hc
    generalize c.targetRef = previous at hc
    rw [hi, hk, hn, ha]
    cases hc with
    | finalized hfr ht => exact .idle hfr

/-! ## Runs -/

/-- The Secret has a sound wrapper, and a wrapper of its version is that one. -/
structure Inv (w : World) : Prop where
  stored : ∃ c, parseStaticKey w.stored = .ok c ∧ StaticKeyConfig.Sound w.sources c
  provider : w.stored.provider = "staticKey"
  wrapper : ∀ c ∈ w.wrappers, parseStaticKey c.secret = .ok c ∧
    c.secret.resourceVersion ≤ w.stored.resourceVersion ∧
    (c.secret.resourceVersion = w.stored.resourceVersion → c.secret = w.stored)

theorem Inv.parse_eq (hinv : Inv w) : parse w.stored = parseStaticKey w.stored := by
  unfold parse
  exact if_pos hinv.provider

theorem Init.inv (h : Init w) : Inv w := by
  obtain ⟨secretNamespace, secretName, keyName, source, c, uid, resourceVersion, hn, hst,
    hso⟩ := h.created
  obtain ⟨key, hk, hpr⟩ := bind_eq_ok.mp hn
  obtain ⟨hs, hph, ha, hke⟩ := parseStaticKey_ok hpr
  have hp := parseStaticKey_of_version hpr uid resourceVersion
  rw [← hs, ← hst] at hp
  refine ⟨⟨_, hp, ?_⟩, ?_, ?_⟩
  · have hi : c.phase = .idle := hph
    have hno : c.targetRef = none := (parseStaticKey_targetRef hpr).trans (if_pos rfl)
    change Consistent w.sources c.activeRef c.phase c.keys c.targetRef
    rw [hso, hi, hno, ha, hke _ rfl]
    exact .idle ⟨source, update_self .., validateSourceKey_material hk, rfl⟩
  · rw [hst, hs]
  · rw [h.wrappers]
    exact nofun

/-- A rendered Secret that is saved becomes the stored one, up to its version. -/
theorem save_ok {stored desired : Secret} (h : save stored desired = some s)
    (hna : desired.secretNamespace = stored.secretNamespace ∧
      desired.secretName = stored.secretName) :
    desired.resourceVersion = stored.resourceVersion ∧
      ((s = stored ∧ stored = desired) ∨
        s = { desired with resourceVersion := stored.resourceVersion + 1 }) := by
  unfold save at h
  split_ifs at h with hv hm
  · refine ⟨hv.2, .inl ⟨(some.inj h).symm, ?_⟩⟩
    unfold secretMatches at hm
    obtain ⟨hd, hp, hph, ha, ht⟩ := of_decide_eq_true hm
    obtain ⟨hns, hn⟩ := hna
    obtain ⟨hu, hrv⟩ := hv
    cases stored
    cases desired
    simp_all
  · exact ⟨hv.2, .inr (some.inj h).symm⟩

theorem Moves.secret_eq (h : Moves c c' t) :
    parseStaticKey c'.secret = .ok c' ∧ c'.secret.provider = "staticKey" ∧
      c'.secret.resourceVersion = c.secret.resourceVersion ∧
      c'.secret.secretNamespace = c.secret.secretNamespace ∧
      c'.secret.secretName = c.secret.secretName := by
  obtain ⟨phase, keys, targetRef, activeRef, state⟩ := h.exists_state
  obtain ⟨hs, -⟩ := parseStaticKey_ok state
  refine ⟨by rw [hs]; exact state, ?_⟩
  rw [hs]
  exact ⟨rfl, rfl, rfl, rfl⟩

/-- What a step does: it reads the Secret, nothing, or it saves what a transition of a wrapper of
the stored version rendered. -/
theorem Step.cases {w' : World} {e : Event} (hs : Step w e w') :
    (∃ c, parse w.stored = .ok c ∧ w' = { w with wrappers := w.wrappers ++ [c] }) ∨ w' = w ∨
    ∃ c ∈ w.wrappers, ∃ t c' s, Moves c c' t ∧ save w.stored c'.secret = some s ∧
      w' = { w with stored := s, sources := observe w.sources c c' t } := by
  cases e with
  | load =>
    simp only [Step, World.exec] at hs
    split at hs
    · rename_i c hp
      exact .inl ⟨c, hp, (some.inj hs).symm⟩
    · exact .inr (.inl (some.inj hs).symm)
  | transition index t =>
    simp only [Step, World.exec] at hs
    split at hs
    · cases hs
    · rename_i c hg
      split at hs
      · exact .inr (.inl (some.inj hs).symm)
      · rename_i c' ha
        split at hs
        · exact .inr (.inl (some.inj hs).symm)
        · rename_i s hsa
          exact .inr (.inr ⟨c, List.mem_of_getElem? hg, t, c', s,
            Transition.moves_of_apply ha, hsa, (some.inj hs).symm⟩)

/-- A save that is accepted follows the stored Secret, or finds it as it should be. -/
theorem Inv.save (hinv : Inv w) (hc : c ∈ w.wrappers) (hm : Moves c c' t)
    (hsa : StaticKeyStore.save w.stored c'.secret = some s) :
    parseStaticKey w.stored = .ok c ∧ (∃ c'', parseStaticKey s = .ok c'' ∧
      StaticKeyConfig.Sound (observe w.sources c c' t) c'' ∧
        Follows c.keys c.phase c''.phase c''.keys) ∧
      s.provider = "staticKey" ∧ (s = w.stored ∨ w.stored.resourceVersion < s.resourceVersion) := by
  obtain ⟨hprs, hle, heq⟩ := hinv.wrapper c hc
  obtain ⟨hparse', hpr, hrv, hns, hn⟩ := hm.secret_eq
  have hst : c.secret = w.stored := by
    refine heq ?_
    unfold StaticKeyStore.save at hsa
    split_ifs at hsa with hv <;> exact hrv.symm.trans hv.2
  rw [hst] at hprs hns hn
  have hso : StaticKeyConfig.Sound w.sources c := by
    obtain ⟨c₀, hp₀, hso⟩ := hinv.stored
    cases hp₀.symm.trans hprs
    exact hso
  refine ⟨hprs, ?_⟩
  obtain ⟨hv, ⟨rfl, hs⟩ | rfl⟩ := save_ok hsa ⟨hns, hn⟩
  · refine ⟨⟨c', ?_, hm.sound hso, hm.follows⟩, hinv.provider, .inl rfl⟩
    rw [hs]
    exact hparse'
  · have hp := parseStaticKey_of_version hparse' c'.secret.uid (w.stored.resourceVersion + 1)
    exact ⟨⟨_, hp, hm.sound hso, hm.follows⟩, hpr, .inr (Nat.lt_succ_self _)⟩

theorem Inv.step {w' : World} {e : Event} (hinv : Inv w) (hs : Step w e w') : Inv w' := by
  obtain ⟨c, hpr, rfl⟩ | rfl | ⟨c, hc, t, c', s, hm, hsave, rfl⟩ := hs.cases
  · rw [hinv.parse_eq] at hpr
    obtain ⟨hse, -⟩ := parseStaticKey_ok hpr
    refine ⟨hinv.stored, hinv.provider, ?_⟩
    intro d hd
    rcases List.mem_append.mp hd with hd | hd
    · exact hinv.wrapper d hd
    · rw [List.mem_singleton.mp hd, hse]
      exact ⟨hpr, le_rfl, fun _ => rfl⟩
  · exact hinv
  · obtain ⟨-, ⟨c'', hpr, hso, -⟩, hp, hsa⟩ := hinv.save hc hm hsave
    refine ⟨⟨c'', hpr, hso⟩, hp, ?_⟩
    intro d hd
    obtain ⟨hw, hle, heq⟩ := hinv.wrapper d hd
    rcases hsa with rfl | hlt
    · exact ⟨hw, hle, heq⟩
    · exact ⟨hw, hle.trans hlt.le, fun h => absurd (h ▸ hle) (not_le.mpr hlt)⟩

/-- Every stored Secret has the keys and the references of its phase, with the source of the first
key as the active one; it changes only along the rotation; and a transition in another phase is
refused and changes nothing. -/
theorem stored_secret_sound {w : World} (h : Reachable Init Step w) :
    (∃ c, parse w.stored = .ok c ∧ StaticKeyConfig.Sound w.sources c) ∧
    (∀ e w', Step w e w' → w'.stored = w.stored ∨
      ∃ c c', parse w.stored = .ok c ∧ parse w'.stored = .ok c' ∧
        Follows c.keys c.phase c'.phase c'.keys) ∧
    ∀ index c t, w.wrappers[index]? = some c → c.phase ≠ t.source →
      (∃ e, t.apply c = .error e) ∧ w.exec (.transition index t) = some w := by
  have hinv : Inv w := h.invariant (fun _ hi => hi.inv) fun _ _ _ _ hinv hs => hinv.step hs
  refine ⟨?_, ?_, ?_⟩
  · rw [hinv.parse_eq]
    exact hinv.stored
  · intro e w' hs
    have hinv' := hinv.step hs
    rw [hinv.parse_eq, hinv'.parse_eq]
    obtain ⟨c, hp, rfl⟩ | rfl | ⟨c, hc, t, c', s, hm, hsa, rfl⟩ := hs.cases
    · exact .inl rfl
    · exact .inl rfl
    · obtain ⟨hp, ⟨c'', hparse', -, hf⟩, -⟩ := hinv.save hc hm hsa
      exact .inr ⟨c, c'', hp, hparse', hf⟩
  · intro index c t hg hph
    obtain ⟨e, he⟩ := Transition.apply_error hph
    refine ⟨⟨e, he⟩, ?_⟩
    simp only [World.exec, hg, he]

def sampleSource (key resourceVersion : String) : SourceKey :=
  ⟨key, ⟨"key-source", "key", "dpf-operator-system", "uid-1", resourceVersion⟩⟩

def oldSource : SourceKey := sampleSource "AAAAAAAAAAAAAAAAAAAAAA==" "1"

def newSource : SourceKey := sampleSource " AQEBAQEBAQEBAQEBAQEBAQ==\n" "2"

/-- The cluster right after `InitializeStaticKey`. -/
def sampleWorld : World where
  stored := {
    secretNamespace := "dpu-cluster"
    secretName := "etcd-encryption-config"
    uid := "uid-2"
    resourceVersion := 1
    provider := "staticKey"
    phase := Phase.idle.text
    active := oldSource.ref
    target := noRef
    data := .yaml (renderStaticKeyEncryptionConfig [⟨"key-a", oldSource.key, rfl⟩]) }
  wrappers := []
  sources := update (fun _ => none) "key-a" (some oldSource)

theorem sampleWorld_init : Init sampleWorld where
  created := ⟨"dpu-cluster", "etcd-encryption-config", "key-a", oldSource,
    { secret := { sampleWorld.stored with uid := "", resourceVersion := 0 }
      phase := .idle
      keys := [⟨"key-a", "AAAAAAAAAAAAAAAAAAAAAA==", rfl⟩]
      activeRef := oldSource.ref
      targetRef := none
      shape := rfl }, "uid-2", 1, rfl, rfl, rfl⟩
  wrappers := rfl

/-- A rotation up to the promotion of the new key, with a second preparation from a wrapper that is
out of date in between. -/
def rotation : List Event :=
  [.load, .transition 0 (.toPrepared "key-b" newSource),
    .transition 0 (.toPrepared "key-c" newSource), .load, .transition 1 .toPromoted]

/-- The new key has moved to the front, and its source is the active one. -/
theorem promoted_secret_sound :
    ∃ w, Reachable Init Step w ∧ w.stored.phase = "Promoted" ∧ w.stored.resourceVersion = 3 ∧
      w.stored.active = newSource.ref ∧
      w.stored.loadedKeys.map Key.name = ["key-b", "key-a"] ∧
      ∃ c, parse w.stored = .ok c ∧ StaticKeyConfig.Sound w.sources c := by
  obtain ⟨w, hr, hw⟩ := Reachable.exists_of_run sampleWorld_init World.exec rotation
    (fun w => (w.stored.phase, w.stored.resourceVersion, w.stored.active,
      w.stored.loadedKeys.map Key.name)) ("Promoted", 3, newSource.ref, ["key-b", "key-a"])
    (by decide +kernel)
  simp only [Prod.mk.injEq] at hw
  obtain ⟨hph, hv, ha, hk⟩ := hw
  exact ⟨w, hr, hph, hv, ha, hk, (stored_secret_sound hr).1⟩

end DocaPlatform.StaticKeyStore
