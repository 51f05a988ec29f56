import DocaPlatform.Netip
import DocaPlatform.Runs
import Mathlib.Data.List.DropRight

/-!
# The staticKey encryption config of a cluster

The Secret that holds the rendered `EncryptionConfiguration` of a DPU cluster, the wrapper that
validates it and the four transitions of a key rotation. The file is modelled as the configuration
it encodes; a missing annotation is the empty text.
-/
namespace DocaPlatform.EncryptionConfig

open Netip Runs

/-- `unicode.IsSpace`. -/
def isSpace (c : Char) : Bool :=
  c.toNat ∈ [0x09, 0x0a, 0x0b, 0x0c, 0x0d, 0x20, 0x85, 0xa0, 0x1680, 0x2028, 0x2029, 0x202f,
    0x205f, 0x3000] ∨ 0x2000 ≤ c.toNat ∧ c.toNat ≤ 0x200a

/-- `strings.TrimSpace`. -/
def trimSpace (s : String) : String :=
  String.ofList ((s.toList.dropWhile isSpace).rdropWhile isSpace)

/-- The alphabet of `base64.StdEncoding`. -/
def isBase64 (c : Char) : Bool :=
  c.isAlphanum || c = '+' || c = '/'

/-- The number of bytes that a text without line breaks encodes. -/
def decodedLength : List Char → Option ℕ
  | [] => some 0
  | [a, b, '=', '='] => if isBase64 a && isBase64 b then some 1 else none
  | [a, b, c, '='] => if isBase64 a && isBase64 b && isBase64 c then some 2 else none
  | a :: b :: c :: d :: rest =>
    if isBase64 a && isBase64 b && isBase64 c && isBase64 d then
      (decodedLength rest).map (3 + ·)
    else none
  | _ => none

/-- `base64.StdEncoding.DecodeString` skips line breaks; only the length is used. -/
def base64Length (s : String) : Option ℕ :=
  decodedLength (s.toList.filter fun c => c ≠ '\r' ∧ c ≠ '\n')

def validateBase64StaticKeyText (value : String) : Except String String :=
  let base64Key := trimSpace value
  if base64Key = "" then .error "key is empty"
  else match base64Length base64Key with
    | none => .error "key must be base64-encoded AES key text"
    | some n =>
      if n = 16 ∨ n = 24 ∨ n = 32 then .ok base64Key
      else .error ("decoded key length must be 16, 24, or 32 bytes, got " ++ toString n)

theorem rdropWhile_dropWhile_stable (p : Char → Bool) (l : List Char) :
    (((l.dropWhile p).rdropWhile p).dropWhile p).rdropWhile p = (l.dropWhile p).rdropWhile p := by
  have hl : ((l.dropWhile p).rdropWhile p).dropWhile p = (l.dropWhile p).rdropWhile p := by
    rw [List.dropWhile_eq_self_iff]
    intro hp
    have hpr := List.rdropWhile_prefix p (l.dropWhile p)
    have hlt : 0 < (l.dropWhile p).length := hp.trans_le hpr.length_le
    rw [hpr.getElem hp]
    exact List.dropWhile_get_zero_not p l hlt
  rw [hl, List.rdropWhile_idempotent]

theorem trimSpace_trimSpace (s : String) : trimSpace (trimSpace s) = trimSpace s := by
  simp [trimSpace, rdropWhile_dropWhile_stable]

theorem validateBase64StaticKeyText_self {value key : String}
    (h : validateBase64StaticKeyText value = .ok key) :
    validateBase64StaticKeyText key = .ok key := by
  have hk : key = trimSpace value := by
    unfold validateBase64StaticKeyText at h
    dsimp only at h
    split at h
    · cases h
    · split at h
      · cases h
      · split_ifs at h
        cases h
        rfl
  rw [hk] at h ⊢
  unfold validateBase64StaticKeyText at h ⊢
  rwa [trimSpace_trimSpace]

/-! ## The Secret -/

/-- `apiserverv1.Key`. -/
structure Key where
  name : String
  secret : String
  deriving DecidableEq, Repr

/-- `keyEntry`: a key with a normalized key text. -/
structure KeyEntry where
  name : String
  secret : String
  valid : validateBase64StaticKeyText secret = .ok secret
  deriving DecidableEq

def KeyEntry.key (e : KeyEntry) : Key := ⟨e.name, e.secret⟩

structure ObservedSecretKeyRef where
  name : String
  key : String
  secretNamespace : String
  uid : String
  resourceVersion : String
  deriving DecidableEq, Repr

/-- `ProviderConfiguration`; of the providers other than AES-GCM only their presence is read. -/
structure ProviderConfiguration where
  aesgcm : Option (List Key) := none
  aescbc : Bool := false
  secretbox : Bool := false
  identity : Bool := false
  kms : Bool := false
  deriving DecidableEq, Repr

structure ResourceConfiguration where
  resources : List String
  providers : List ProviderConfiguration
  deriving DecidableEq, Repr

structure EncryptionConfiguration where
  apiVersion : String
  kind : String
  resources : List ResourceConfiguration
  deriving DecidableEq, Repr

/-- The file of the Secret: absent or empty, not YAML of the type, or the YAML of a
configuration. -/
inductive ConfigData where
  | missing
  | malformed (error : String)
  | yaml (config : EncryptionConfiguration)
  deriving DecidableEq, Repr

/-- The encryption config Secret of a cluster. The annotations are `provider`, `phase` and the five
texts of the active and of the target reference each. -/
structure Secret where
  secretNamespace : String
  secretName : String
  uid : String
  resourceVersion : ℕ
  provider : String
  phase : String
  active : ObservedSecretKeyRef
  target : ObservedSecretKeyRef
  data : ConfigData
  deriving DecidableEq, Repr

inductive Phase where
  | idle
  | prepared
  | promoted
  | finalized
  | other (text : String)
  deriving DecidableEq, Repr

def Phase.text : Phase → String
  | .idle => "Idle"
  | .prepared => "Prepared"
  | .promoted => "Promoted"
  | .finalized => "Finalized"
  | .other text => text

def Phase.ofText (text : String) : Phase :=
  if text = "Idle" then .idle
  else if text = "Prepared" then .prepared
  else if text = "Promoted" then .promoted
  else if text = "Finalized" then .finalized
  else .other text

/-- The errors of the package: `ValidationError`, `TransitionError` and errors without a type. -/
inductive ConfigError where
  | validation (message : String)
  | transition (src dst : Phase) (message : String)
  | plain (message : String)
  deriving DecidableEq, Repr

def ConfigError.error : ConfigError → String
  | .validation message => message
  | .transition src dst message =>
    "cannot transition staticKey config from " ++ src.text ++ " to " ++ dst.text ++
      if message = "" then "" else ": " ++ message
  | .plain message => message

abbrev Result := Except ConfigError

def providerAnnotation : String :=
  "kamaji-cluster-manager.dpu.nvidia.com/etcd-encryption-provider"

def staticKeyPhaseAnnotation : String :=
  "kamaji-cluster-manager.dpu.nvidia.com/static-key-rotation-state"

def encryptedResources : List String := ["secrets", "configmaps"]

/-- A list of texts as the `%v` verb prints it. -/
def listText (l : List String) : String := "[" ++ " ".intercalate l ++ "]"

def configuredProviderCount (p : ProviderConfiguration) : ℕ :=
  p.aesgcm.isSome.toNat + p.aescbc.toNat + p.secretbox.toNat + p.identity.toNat + p.kms.toNat

/-- `parseEncryptionConfiguration`: the two providers of the only resource configuration. -/
def parseEncryptionConfiguration (s : Secret) :
    Result (ProviderConfiguration × ProviderConfiguration) :=
  let name := s.secretNamespace ++ "/" ++ s.secretName
  match s.data with
  | .missing => .error (.validation ("encryption config secret " ++ name ++ " is missing " ++
      quote "encryption-config.yaml"))
  | .malformed e => .error (.validation ("parse encryption config secret " ++ name ++ ": " ++ e))
  | .yaml cfg =>
    if cfg.apiVersion ≠ "apiserver.config.k8s.io/v1" then
      .error (.validation ("encryption config secret " ++ name ++ " has unsupported apiVersion " ++
        quote cfg.apiVersion))
    else if cfg.kind ≠ "EncryptionConfiguration" then
      .error (.validation ("encryption config secret " ++ name ++ " has unsupported kind " ++
        quote cfg.kind))
    else match cfg.resources with
      | [r] =>
        if r.resources ≠ encryptedResources then
          .error (.validation ("expected encrypted resources " ++ listText encryptedResources ++
            ", got " ++ listText r.resources))
        else match r.providers with
          | [primary, fallback] =>
            if configuredProviderCount primary ≠ 1 then
              .error (.validation ("expected primary provider to configure exactly one provider " ++
                "kind, got " ++ toString (configuredProviderCount primary)))
            else if fallback.identity = false ∨ configuredProviderCount fallback ≠ 1 then
              .error (.validation "expected identity fallback provider")
            else .ok (primary, fallback)
          | l => .error (.validation ("expected exactly two providers, got " ++ toString l.length))
      | l => .error (.validation ("expected one resource configuration, got " ++ toString l.length))

def renderStaticKeyEncryptionConfig (keys : List KeyEntry) : EncryptionConfiguration where
  apiVersion := "apiserver.config.k8s.io/v1"
  kind := "EncryptionConfiguration"
  resources := [{
    resources := encryptedResources
    providers := [{ aesgcm := some (keys.map KeyEntry.key) }, { identity := true }] }]

/-- One step of `parseStaticKeyEntries`. -/
def parseStaticKeyEntry (seen : List String) (key : Key) : Result KeyEntry :=
  if key.name = "" then .error (.validation "aesgcm key name is empty")
  else if key.name ∈ seen then
    .error (.validation ("duplicate aesgcm key name " ++ quote key.name))
  else match h : validateBase64StaticKeyText key.secret with
    | .error e => .error (.validation ("invalid aesgcm key " ++ quote key.name ++ ": " ++ e))
    | .ok base64Key => .ok ⟨key.name, base64Key, validateBase64StaticKeyText_self h⟩

/-- The loop of `parseStaticKeyEntries`, with the names seen so far. -/
def parseEntriesFrom (seen : List String) : List Key → Result (List KeyEntry)
  | [] => .ok []
  | key :: keys => do
    let entry ← parseStaticKeyEntry seen key
    let entries ← parseEntriesFrom (key.name :: seen) keys
    .ok (entry :: entries)

def parseStaticKeyEntries (keys : List Key) : Result (List KeyEntry) :=
  if keys = [] then .error (.validation "expected at least one aesgcm key")
  else parseEntriesFrom [] keys

def validateObservedRef (ref : ObservedSecretKeyRef) : Except String Unit :=
  if ref.name = "" then .error "name is empty"
  else if ref.key = "" then .error "key is empty"
  else if ref.secretNamespace = "" then .error "namespace is empty"
  else if ref.uid = "" then .error "uid is empty"
  else if ref.resourceVersion = "" then .error "resourceVersion is empty"
  else .ok ()

def staticKeyActiveRef (s : Secret) : Result ObservedSecretKeyRef :=
  match validateObservedRef s.active with
  | .error e => .error (.plain ("staticKey config is missing active source Secret metadata: " ++ e))
  | .ok () => .ok s.active

/-- No annotation of a reference is set. -/
def noRef : ObservedSecretKeyRef := ⟨"", "", "", "", ""⟩

def staticKeyTargetRef (s : Secret) : Result (Option ObservedSecretKeyRef) :=
  if s.target = noRef then .ok none
  else match validateObservedRef s.target with
    | .error e =>
      .error (.plain ("staticKey config has incomplete target source Secret metadata: " ++ e))
    | .ok () => .ok (some s.target)

def validateStaticKeyShape (phase : Phase) (keys : List KeyEntry)
    (activeRef : ObservedSecretKeyRef) (targetRef : Option ObservedSecretKeyRef) : Result Unit :=
  let count := toString keys.length
  match phase with
  | .idle =>
    if keys.length ≠ 1 then
      .error (.validation ("expected one idle staticKey entry, got " ++ count))
    else if targetRef.isSome then
      .error (.validation "Idle staticKey config must not contain target source Secret metadata")
    else .ok ()
  | .prepared =>
    if keys.length ≠ 2 then
      .error (.validation ("expected two Prepared staticKey entries, got " ++ count))
    else if targetRef.isNone then
      .error (.validation "Prepared staticKey config is missing target source Secret metadata")
    else .ok ()
  | .promoted =>
    if keys.length ≠ 2 then
      .error (.validation ("expected two Promoted staticKey entries, got " ++ count))
    else if targetRef.isNone then
      .error (.validation "Promoted staticKey config is missing target source Secret metadata")
    else if targetRef ≠ some activeRef then
      .error (.validation ("Promoted staticKey active source Secret metadata must match target " ++
        "metadata"))
    else .ok ()
  | .finalized =>
    if keys.length ≠ 1 then
      .error (.validation ("expected one Finalized staticKey entry, got " ++ count))
    else if targetRef.isNone then
      .error (.validation "Finalized staticKey config is missing target source Secret metadata")
    else if targetRef ≠ some activeRef then
      .error (.validation ("Finalized staticKey active source Secret metadata must match target " ++
        "metadata"))
    else .ok ()
  | .other text => .error (.validation ("unsupported staticKey phase annotation " ++ quote text))

/-- `staticKeyConfig`: a Secret with the fields that were read from it, in a shape that fits its
phase. The hash is a function of the keys. -/
structure StaticKeyConfig where
  secret : Secret
  phase : Phase
  keys : List KeyEntry
  activeRef : ObservedSecretKeyRef
  targetRef : Option ObservedSecretKeyRef
  shape : validateStaticKeyShape phase keys activeRef targetRef = .ok ()

def parseStaticKey (s : Secret) : Result StaticKeyConfig := do
  let providers ← parseEncryptionConfiguration s
  match providers.1.aesgcm with
  | none => .error (.validation ("provider annotation " ++ quote providerAnnotation ++
      " declares staticKey but first provider is not aesgcm"))
  | some raw =>
    let keys ← parseStaticKeyEntries raw
    if s.phase = "" then
      .error (.validation ("staticKey config is missing phase annotation " ++
        quote staticKeyPhaseAnnotation))
    else
      let activeRef ← staticKeyActiveRef s
      let targetRef ← staticKeyTargetRef s
      let phase := Phase.ofText s.phase
      match h : validateStaticKeyShape phase keys activeRef targetRef with
      | .error e => .error e
      | .ok () => .ok ⟨s, phase, keys, activeRef, targetRef, h⟩

/-! ## Transitions -/

structure SourceKey where
  key : String
  ref : ObservedSecretKeyRef

/-- A key text that `ValidateBase64StaticKeyText` returned. -/
abbrev KeyText := { text : String // validateBase64StaticKeyText text = .ok text }

def validateSourceKey (source : SourceKey) : Result KeyText :=
  match h : validateBase64StaticKeyText source.key with
  | .error e => .error (.plain e)
  | .ok base64Key =>
    match validateObservedRef source.ref with
    | .error e => .error (.plain ("source Secret metadata is incomplete: " ++ e))
    | .ok () => .ok ⟨base64Key, validateBase64StaticKeyText_self h⟩

namespace StaticKeyConfig

variable (c : StaticKeyConfig)

/-- The Secret that `withState` renders. -/
def rendered (phase : Phase) (keys : List KeyEntry) (targetRef : Option ObservedSecretKeyRef)
    (activeRef : ObservedSecretKeyRef) : Secret :=
  { c.secret with
    data := .yaml (renderStaticKeyEncryptionConfig keys)
    provider := "staticKey"
    phase := phase.text
    active := activeRef
    target := targetRef.getD noRef }

def withState (phase : Phase) (keys : List KeyEntry) (targetRef : Option ObservedSecretKeyRef)
    (activeRef : ObservedSecretKeyRef) : Result StaticKeyConfig :=
  parseStaticKey (c.rendered phase keys targetRef activeRef)

/-- `TransitionToPrepared`, with the name that `generateStaticKeyName` returns. -/
def transitionToPrepared (newKeyName : String) (source : SourceKey) : Result StaticKeyConfig :=
  if c.phase ≠ .idle then
    .error (.transition c.phase .prepared "transition requires Idle phase")
  else match c.keys with
    | [active] => do
      let desiredKey ← validateSourceKey source
      if active.secret = desiredKey.1 then c.withState .idle c.keys none source.ref
      else if newKeyName = active.name then
        .error (.transition c.phase .prepared
          ("generated static key name collides with active key name " ++ quote newKeyName))
      else
        c.withState .prepared [active, ⟨newKeyName, desiredKey.1, desiredKey.2⟩] (some source.ref)
          c.activeRef
    | keys => .error (.transition c.phase .prepared
        ("expected one active key, got " ++ toString keys.length))

def transitionToPromoted : Result StaticKeyConfig :=
  if c.phase ≠ .prepared then
    .error (.transition c.phase .promoted "transition requires Prepared phase")
  else match c.keys, c.targetRef with
    | [active, target], some ref => c.withState .promoted [target, active] (some ref) ref
    | [_, _], none => .error (.transition c.phase .promoted
        "target source Secret metadata is missing")
    | keys, _ => .error (.transition c.phase .promoted
        ("expected two keys, got " ++ toString keys.length))

def transitionToFinalized : Result StaticKeyConfig :=
  if c.phase ≠ .promoted then
    .error (.transition c.phase .finalized "transition requires Promoted phase")
  else match c.keys, c.targetRef with
    | [active, _], some ref => c.withState .finalized [active] (some ref) ref
    | [_, _], none => .error (.transition c.phase .finalized
        "target source Secret metadata is missing")
    | keys, _ => .error (.transition c.phase .finalized
        ("expected two keys, got " ++ toString keys.length))

def transitionToIdle : Result StaticKeyConfig :=
  if c.phase ≠ .finalized then
    .error (.transition c.phase .idle "transition requires Finalized phase")
  else match c.keys with
    | [_] => c.withState .idle c.keys none c.activeRef
    | keys => .error (.transition c.phase .idle ("expected one key, got " ++ toString keys.length))

/-- `RotationID`, over the digest of the old and the new key name. -/
def rotationID (digest : String → String → String) : Result String :=
  if c.phase ≠ .promoted then
    .error (.transition c.phase .promoted "rotation ID is only available in Promoted phase")
  else match c.keys with
    | [active, old] => .ok (digest old.name active.name)
    | keys => .error (.validation
        ("expected two promoted staticKey entries, got " ++ toString keys.length))

end StaticKeyConfig

/-- `newStaticKeyConfig`, with the name that `generateStaticKeyName` returns. -/
def newStaticKeyConfig (secretNamespace secretName keyName : String) (source : SourceKey) :
    Result StaticKeyConfig := do
  let base64Key ← validateSourceKey source
  parseStaticKey {
    secretNamespace := secretNamespace
    secretName := secretName
    uid := ""
    resourceVersion := 0
    provider := "staticKey"
    phase := Phase.idle.text
    active := source.ref
    target := noRef
    data := .yaml (renderStaticKeyEncryptionConfig [⟨keyName, base64Key.1, base64Key.2⟩]) }

/-- The keys in the file of the Secret, as a kube-apiserver loads them. -/
def Secret.loadedKeys (s : Secret) : List Key :=
  match s.data with
  | .yaml cfg => ((cfg.resources.flatMap fun r => r.providers).filterMap fun p => p.aesgcm).flatten
  | _ => []

theorem parseStaticKeyEntry_key {seen : List String} {e e' : KeyEntry}
    (h : parseStaticKeyEntry seen e.key = .ok e') : e' = e := by
  unfold parseStaticKeyEntry at h
  split_ifs at h
  have hv : validateBase64StaticKeyText e.key.secret = .ok e.secret := e.valid
  split at h
  · cases h
  · rename_i base64Key hb
    rw [hv] at hb
    cases hb
    cases h
    rfl

theorem parseEntriesFrom_map_key {seen : List String} {keys entries : List KeyEntry}
    (h : parseEntriesFrom seen (keys.map KeyEntry.key) = .ok entries) : entries = keys := by
  induction keys generalizing seen entries with
  | nil =>
    cases h
    rfl
  | cons e keys ih =>
    obtain ⟨e', he, h⟩ := bind_eq_ok.mp h
    obtain ⟨es, hes, h⟩ := bind_eq_ok.mp h
    cases h
    rw [parseStaticKeyEntry_key he, ih hes]

@[simp] theorem loadedKeys_of_rendered {s : Secret} {keys : List KeyEntry}
    (h : s.data = .yaml (renderStaticKeyEncryptionConfig keys)) :
    s.loadedKeys = keys.map KeyEntry.key := by
  simp [Secret.loadedKeys, h, renderStaticKeyEncryptionConfig]

/-- What the wrapper of a Secret says about it. -/
theorem parseStaticKey_ok {s : Secret} {c : StaticKeyConfig} (h : parseStaticKey s = .ok c) :
    c.secret = s ∧ c.phase = Phase.ofText s.phase ∧ c.activeRef = s.active ∧
      ∀ keys, s.data = .yaml (renderStaticKeyEncryptionConfig keys) → c.keys = keys := by
  obtain ⟨providers, hpr, h⟩ := bind_eq_ok.mp h
  cases hr : providers.1.aesgcm with
  | none =>
    rw [hr] at h
    cases h
  | some raw =>
    rw [hr] at h
    obtain ⟨entries, he, h⟩ := bind_eq_ok.mp h
    split_ifs at h
    obtain ⟨activeRef, ha, h⟩ := bind_eq_ok.mp h
    obtain ⟨targetRef, -, h⟩ := bind_eq_ok.mp h
    dsimp only at h
    split at h
    · cases h
    · cases h
      refine ⟨rfl, rfl, ?_, ?_⟩
      · unfold staticKeyActiveRef at ha
        split at ha
        · cases ha
        · cases ha
          rfl
      · intro keys hd
        have hp : raw = keys.map KeyEntry.key := by
          simp only [parseEncryptionConfiguration, hd, renderStaticKeyEncryptionConfig] at hpr
          split_ifs at hpr
          cases hpr
          simpa using hr.symm
        rw [hp] at he
        unfold parseStaticKeyEntries at he
        split_ifs at he
        exact parseEntriesFrom_map_key he

/-- A wrapper that a transition of another one returned: it is the same object with the file and the
annotations of its own fields. -/
structure Rewrites (c c' : StaticKeyConfig) : Prop where
  uid : c'.secret.uid = c.secret.uid
  resourceVersion : c'.secret.resourceVersion = c.secret.resourceVersion
  data : c'.secret.data = .yaml (renderStaticKeyEncryptionConfig c'.keys)
  phase : Phase.ofText c'.secret.phase = c'.phase

namespace StaticKeyConfig

variable {c c' : StaticKeyConfig}

theorem withState_ok {phase : Phase} {keys : List KeyEntry}
    {targetRef : Option ObservedSecretKeyRef} {activeRef : ObservedSecretKeyRef}
    (h : c.withState phase keys targetRef activeRef = .ok c') :
    Rewrites c c' ∧ c'.phase = Phase.ofText phase.text ∧ c'.keys = keys := by
  obtain ⟨hs, hph, -, hke⟩ := parseStaticKey_ok h
  have hk : c'.keys = keys := hke keys rfl
  refine ⟨⟨?_, ?_, ?_, ?_⟩, hph, hk⟩
  · rw [hs]
    rfl
  · rw [hs]
    rfl
  · rw [hs, hk]
    rfl
  · rw [hs, hph]

/-- From Idle: only the metadata changes, or a key with the generated name is added. -/
theorem transitionToPrepared_ok {newKeyName : String} {source : SourceKey}
    (h : c.transitionToPrepared newKeyName source = .ok c') :
    Rewrites c c' ∧ c.phase = .idle ∧ ∃ active, c.keys = [active] ∧
      ((c'.phase = .idle ∧ c'.keys = [active]) ∨
        ∃ target, target.name = newKeyName ∧ c'.phase = .prepared ∧ c'.keys = [active, target]) := by
  unfold transitionToPrepared at h
  split_ifs at h with hph
  split at h
  · rename_i active hke
    obtain ⟨desiredKey, -, h⟩ := bind_eq_ok.mp h
    split_ifs at h
    · obtain ⟨hr, hp, hk⟩ := withState_ok h
      exact ⟨hr, not_not.mp hph, active, hke, .inl ⟨hp, hk.trans hke⟩⟩
    · obtain ⟨hr, hp, hk⟩ := withState_ok h
      exact ⟨hr, not_not.mp hph, active, hke, .inr ⟨_, rfl, hp, hk⟩⟩
  · cases h

theorem transitionToPromoted_ok (h : c.transitionToPromoted = .ok c') :
    Rewrites c c' ∧ c.phase = .prepared ∧ ∃ active target, c.keys = [active, target] ∧
      c'.phase = .promoted ∧ c'.keys = [target, active] := by
  unfold transitionToPromoted at h
  split_ifs at h with hph
  split at h
  · rename_i active target ref hke _
    obtain ⟨hr, hp, hk⟩ := withState_ok h
    exact ⟨hr, not_not.mp hph, active, target, hke, hp, hk⟩
  · cases h
  · cases h

theorem transitionToFinalized_ok (h : c.transitionToFinalized = .ok c') :
    Rewrites c c' ∧ c.phase = .promoted ∧ ∃ active old, c.keys = [active, old] ∧
      c'.phase = .finalized ∧ c'.keys = [active] := by
  unfold transitionToFinalized at h
  split_ifs at h with hph
  split at h
  · rename_i active old ref hke _
    obtain ⟨hr, hp, hk⟩ := withState_ok h
    exact ⟨hr, not_not.mp hph, active, old, hke, hp, hk⟩
  · cases h
  · cases h

theorem transitionToIdle_ok (h : c.transitionToIdle = .ok c') :
    Rewrites c c' ∧ c.phase = .finalized ∧ ∃ active, c.keys = [active] ∧
      c'.phase = .idle ∧ c'.keys = [active] := by
  unfold transitionToIdle at h
  split_ifs at h with hph
  split at h
  · rename_i active hke
    obtain ⟨hr, hp, hk⟩ := withState_ok h
    exact ⟨hr, not_not.mp hph, active, hke, hp, hk.trans hke⟩
  · cases h

theorem rotationID_ok {digest : String → String → String} {id : String}
    (h : c.rotationID digest = .ok id) :
    c.phase = .promoted ∧ ∃ active old, c.keys = [active, old] ∧
      id = digest old.name active.name := by
  unfold rotationID at h
  split_ifs at h with hph
  split at h
  · rename_i active old hk
    cases h
    exact ⟨not_not.mp hph, active, old, hk, rfl⟩
  · cases h

end StaticKeyConfig

end DocaPlatform.EncryptionConfig
