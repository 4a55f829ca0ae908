import GlassChain.Core.Text
import GlassChain.Network.Rounds

/-!
# Live and historical validator sets

The validator set is world state under `governance/validator-registry/<name>`. A live node derives
its provider from the materialised world state and skips descriptors it cannot read; the replay of a
candidate chain folds the same write sets into a registry of its own, fails on such a descriptor,
and snapshots a set at every change. The two agree as long as every descriptor on the chain is
readable, every set is one `new` accepts, and a registry that was once written is not emptied again.
-/

namespace GlassChain

open Library List BftConsensusProvider AList Block PersistentWrite ValidatorInfo Multisig

def registryPrefix : String := "ws:governance:validator-registry:"

def descriptorField (X : Externals) (descriptor : Value) (field : String) : Option Bytes := do
  let fields ← descriptor.asObject
  let value ← lookup field fields
  let text ← value.asStr
  X.base64Decode text

def liveDescriptor (X : Externals) (name : String) (value : Bytes) :
    Option (String × Bytes × Bytes) := do
  let descriptor ← (X.parseJson value).toOption
  let publicKey ← descriptorField X descriptor "public_key"
  let pop ← descriptorField X descriptor "pop"
  return (name, publicKey, pop)

/-- The registry entries of the world state, in name order (names are unique, so the other
components of the sorted tuples never decide). -/
def registryEntries (X : Externals) (world : WorldState) : List (String × Bytes × Bytes) :=
  (world.entries.filterMap fun e => do
    let name ← stripPrefix registryPrefix e.1
    liveDescriptor X name e.2).mergeSort fun a b => a.1 ≤ b.1

def toValidatorInfo (entry : String × Bytes × Bytes) : ValidatorInfo :=
  ⟨entry.1, entry.2.1, entry.2.2⟩

def deriveValidatorProvider {B : Multisig} (X : Externals) (S : NodeState B) :
    NodeState B × Option (BftConsensusProvider B) :=
  let entries := registryEntries X S.worldState
  match S.consensus with
  | none => (S, none)
  | some attached =>
    match S.bftValidatorCache.filter (·.1 == X.registryHash entries) with
    | some (_, cached) => (S, some cached)
    | none =>
      if entries.isEmpty then (S, some attached)
      else match BftConsensusProvider.new (entries.map toValidatorInfo) attached.signingKey with
        | .error _ => (S, none)
        | .ok provider =>
          ({ S with bftValidatorCache := some (X.registryHash entries, provider) }, some provider)

def okOr {α : Type} (value : Option α) (error : CoreError) : Except CoreError α :=
  match value with
  | some a => .ok a
  | none => .error error

def historicalDescriptor (X : Externals) (name : String) (value : Bytes) :
    Except CoreError ValidatorInfo := do
  let descriptor ← parsed (X.parseJson value)
    s!"bft: corrupt validator-registry descriptor for '{name}': "
  let publicKey ← okOr (descriptorField X descriptor "public_key") (.invalidBlock
    s!"bft: validator-registry descriptor for '{name}' has no public key")
  let pop ← okOr (descriptorField X descriptor "pop") (.invalidBlock
    s!"bft: validator-registry descriptor for '{name}' has no proof of possession")
  return ⟨name, publicKey, pop⟩

abbrev RegistryMap := AList fun _ : String => ValidatorInfo

def RegistryMap.values (registry : RegistryMap) : List ValidatorInfo :=
  (registry.entries.mergeSort fun a b => a.1 ≤ b.1).map (·.2)

def registryName (w : PersistentWrite) : Option String := stripPrefix registryPrefix w.stateKey

/-- One write of a block; the flag says that the registry changed. -/
def applyRegistryWrite (X : Externals) (state : RegistryMap × Bool) (w : PersistentWrite) :
    Except CoreError (RegistryMap × Bool) :=
  match registryName w with
  | none => .ok state
  | some name => match w.op with
    | .set value => do
      let info ← historicalDescriptor X name value
      return (state.1.insert name info, true)
    | .delete => .ok (state.1.erase name, true)

structure ChainAudit (B : Multisig) where
  registry : RegistryMap
  sets : List (Nat × BftConsensusProvider B)

namespace ChainAudit

variable {B : Multisig}

def effectiveSet (A : ChainAudit B) (bootstrap : Option (BftConsensusProvider B)) (height : Nat) :
    Option (BftConsensusProvider B) :=
  match A.sets.reverse.find? (·.1 ≤ height) with
  | some (_, provider) => some provider
  | none => bootstrap

def checkCertificate (A : ChainAudit B) (bootstrap : Option (BftConsensusProvider B))
    (b : Block) : Except CoreError Unit :=
  match b.certificate with
  | none => .ok ()
  | some certificate =>
    if certificate.isDegenerate then .ok ()
    else match A.effectiveSet bootstrap b.index with
      | none => .error (.invalidBlock (s!"bft: block {b.index} carries a BFT certificate but no " ++
          "validator set is recoverable for its height"))
      | some provider => provider.verifyCertificate certificate b

def applyWrites (X : Externals) (verifierKey : B.PrivateKey) (A : ChainAudit B) (b : Block) :
    Except CoreError (ChainAudit B) := do
  let (registry, changed) ← b.writeSet.foldlM (applyRegistryWrite X) (A.registry, false)
  if changed then
    let snapshot ← (BftConsensusProvider.new registry.values verifierKey).mapError fun e =>
      .invalidBlock
        (s!"bft: historical validator set at height {b.index + 1} is invalid: " ++ e.display)
    return ⟨registry, A.sets ++ [(b.index + 1, snapshot)]⟩
  else return ⟨registry, A.sets⟩

def step (X : Externals) (verifierKey : B.PrivateKey) (bootstrap : Option (BftConsensusProvider B))
    (A : ChainAudit B) (b : Block) : Except CoreError (ChainAudit B) := do
  A.checkCertificate bootstrap b
  A.applyWrites X verifierKey b

end ChainAudit

def verifyChainCertificates {B : Multisig} (X : Externals) (verifierKey : B.PrivateKey)
    (chain : List Block) (bootstrap : Option (BftConsensusProvider B)) : Except CoreError Unit := do
  let _ ← chain.foldlM (ChainAudit.step X verifierKey bootstrap) ⟨∅, []⟩

variable {α : Type}

/-- Sorting by distinct keys gives a strictly increasing list. -/
theorem mergeSort_increasing (key : α → String) {l : List α} (h : (l.map key).Nodup) :
    (l.mergeSort fun a b => key a ≤ key b).Pairwise fun a b => key a < key b := by
  have sorted := @pairwise_mergeSort _ (fun a b => decide (key a ≤ key b))
    (fun a b c hab hbc => by simpa using le_trans (by simpa using hab) (by simpa using hbc))
    (fun a b => by simpa using le_total (key a) (key b)) l
  have distinct : ((l.mergeSort fun a b => key a ≤ key b).map key).Nodup :=
    ((mergeSort_perm _ _).map key).nodup_iff.mpr h
  refine (sorted.and (pairwise_map.mp distinct)).imp fun hab => ?_
  exact lt_of_le_of_ne (by simpa using hab.1) hab.2

/-- An increasing list is determined by its members. -/
theorem eq_of_increasing (key : α → String) {l₁ l₂ : List α}
    (h₁ : l₁.Pairwise fun a b => key a < key b) (h₂ : l₂.Pairwise fun a b => key a < key b)
    (same : ∀ a, a ∈ l₁ ↔ a ∈ l₂) : l₁ = l₂ := by
  have nodup {l : List α} (h : l.Pairwise fun a b => key a < key b) : l.Nodup :=
    h.imp fun hab heq => (heq ▸ hab).ne rfl
  exact Perm.eq_of_pairwise (fun a b _ _ hab hba => absurd hba hab.asymm) h₁ h₂
    ((perm_ext_iff_of_nodup (nodup h₁) (nodup h₂)).mpr same)

variable {B : Multisig} {X : Externals}

def liveInfos (X : Externals) (world : WorldState) : List ValidatorInfo :=
  (registryEntries X world).map toValidatorInfo

variable {name : String} {value : Bytes}

lemma name_of_liveDescriptor {e : String × Bytes × Bytes}
    (h : liveDescriptor X name value = some e) : e.1 = name := by
  simp only [liveDescriptor, Option.bind_eq_bind, Option.bind_eq_some_iff, pure,
    Option.some.injEq] at h
  obtain ⟨_, _, _, _, _, _, rfl⟩ := h
  rfl

variable {world : WorldState}

lemma mem_registryEntries {e : String × Bytes × Bytes} :
    e ∈ registryEntries X world ↔
      ∃ value, world.lookup (registryPrefix ++ e.1) = some value ∧
        liveDescriptor X e.1 value = some e := by
  unfold registryEntries
  rw [(mergeSort_perm _ _).mem_iff, mem_filterMap]
  constructor
  · rintro ⟨⟨key, value⟩, member, read⟩
    obtain ⟨name, strip, read⟩ := Option.bind_eq_some_iff.mp read
    obtain rfl := stripPrefix_eq_some.mp strip
    obtain rfl := name_of_liveDescriptor read
    exact ⟨value, mem_lookup_iff.mpr member, read⟩
  · rintro ⟨value, found, read⟩
    refine ⟨⟨registryPrefix ++ e.1, value⟩, mem_lookup_iff.mp found, ?_⟩
    exact Option.bind_eq_some_iff.mpr ⟨e.1, stripPrefix_eq_some.mpr rfl, read⟩

lemma registryEntries_names_nodup (world : WorldState) : ((world.entries.filterMap fun e => do
      let name ← stripPrefix registryPrefix e.1
      liveDescriptor X name e.2).map (·.1)).Nodup := by
  refine pairwise_map.mpr (List.Pairwise.filterMap _ ?_ (nodupKeys_iff_pairwise.mp world.nodupKeys))
  intro s t differ a ha b hb same
  obtain ⟨m, hm, ha⟩ := Option.bind_eq_some_iff.mp ha
  obtain ⟨n, hn, hb⟩ := Option.bind_eq_some_iff.mp hb
  rw [name_of_liveDescriptor ha, name_of_liveDescriptor hb] at same
  exact differ ((stripPrefix_eq_some.mp hm).trans (same ▸ (stripPrefix_eq_some.mp hn).symm))

lemma registryEntries_congr (X : Externals) {world' : WorldState}
    (same : ∀ name, world.lookup (registryPrefix ++ name) =
      world'.lookup (registryPrefix ++ name)) :
    registryEntries X world = registryEntries X world' := by
  refine eq_of_increasing Prod.fst (mergeSort_increasing _ (registryEntries_names_nodup world))
    (mergeSort_increasing _ (registryEntries_names_nodup world')) fun e => ?_
  rw [mem_registryEntries, mem_registryEntries, same]

lemma liveInfos_increasing (world : WorldState) :
    (liveInfos X world).Pairwise fun a b => a.name < b.name :=
  pairwise_map.mpr (mergeSort_increasing Prod.fst (registryEntries_names_nodup world))

def worldAfter (blocks : List Block) : WorldState :=
  blocks.foldl (fun world b => b.writeSet.foldl PersistentWrite.applyToCache world) ∅

def Reflects (X : Externals) (registry : RegistryMap) (world : WorldState) : Prop :=
  ∀ name, registry.lookup name = (world.lookup (registryPrefix ++ name)).bind fun value =>
    (liveDescriptor X name value).map toValidatorInfo

def Readable (X : Externals) (w : PersistentWrite) : Prop :=
  ∀ name value, registryName w = some name → w.op = .set value →
    (liveDescriptor X name value).isSome = true

lemma okOr_eq_ok {value : Option α} {error : CoreError} {a : α} :
    okOr value error = .ok a ↔ value = some a := by
  cases value <;> simp [okOr]

lemma toOption_eq_some {ε : Type} {result : Except ε α} {a : α} :
    result.toOption = some a ↔ result = .ok a := by
  cases result <;> simp [Except.toOption]

lemma historicalDescriptor_eq_ok {info : ValidatorInfo} :
    historicalDescriptor X name value = .ok info ↔
      (liveDescriptor X name value).map toValidatorInfo = some info := by
  simp only [historicalDescriptor, liveDescriptor, bind_eq_ok, parsed_eq_ok, okOr_eq_ok, pure,
    Except.pure, Except.ok.injEq, Option.map_eq_some_iff, Option.bind_eq_bind,
    Option.bind_eq_some_iff, Option.some.injEq, toOption_eq_some]
  constructor
  · rintro ⟨descriptor, parse, key, hkey, pop, hpop, rfl⟩
    exact ⟨_, ⟨descriptor, parse, key, hkey, pop, hpop, rfl⟩, rfl⟩
  · rintro ⟨_, ⟨descriptor, parse, key, hkey, pop, hpop, rfl⟩, rfl⟩
    exact ⟨descriptor, parse, key, hkey, pop, hpop, rfl⟩

lemma Reflects.values_eq {registry : RegistryMap} (h : Reflects X registry world) :
    registry.values = liveInfos X world := by
  have name {n : String} {info : ValidatorInfo} (found : registry.lookup n = some info) :
      info.name = n := by
    rw [h n] at found
    obtain ⟨value, -, mapped⟩ := Option.bind_eq_some_iff.mp found
    obtain ⟨e, read, rfl⟩ := Option.map_eq_some_iff.mp mapped
    exact name_of_liveDescriptor read
  refine eq_of_increasing ValidatorInfo.name ?_ (liveInfos_increasing world) fun info => ?_
  · -- the keys are sorted, and every key is the name stored under it
    have keys := mergeSort_increasing (l := registry.entries) Sigma.fst registry.nodupKeys
    refine pairwise_map.mpr (keys.imp_of_mem fun {a b} ha hb hab => ?_)
    rw [(mergeSort_perm _ _).mem_iff] at ha hb
    rwa [name (mem_lookup_iff.mpr ha), name (mem_lookup_iff.mpr hb)]
  · unfold RegistryMap.values liveInfos
    simp only [mem_map, (mergeSort_perm _ _).mem_iff, mem_registryEntries]
    constructor
    · rintro ⟨⟨n, i⟩, member, rfl⟩
      have found := mem_lookup_iff.mpr member
      rw [Option.mem_def, h n] at found
      obtain ⟨value, stored, mapped⟩ := Option.bind_eq_some_iff.mp found
      obtain ⟨e, read, rfl⟩ := Option.map_eq_some_iff.mp mapped
      obtain rfl := name_of_liveDescriptor read
      exact ⟨e, ⟨value, stored, read⟩, rfl⟩
    · rintro ⟨e, ⟨value, stored, read⟩, rfl⟩
      refine ⟨⟨e.1, toValidatorInfo e⟩, mem_lookup_iff.mp ?_, rfl⟩
      rw [Option.mem_def, h e.1, stored]
      simp [read]

variable {w : PersistentWrite}

/-- A write to a key outside the registry is invisible to it. -/
theorem lookup_applyToCache_of_ne {key : String} (h : key ≠ w.stateKey) :
    (applyToCache world w).lookup key = world.lookup key := by
  unfold applyToCache
  cases w.op with
  | set value => exact lookup_insert_ne h
  | delete => exact lookup_erase_ne h

variable {state : RegistryMap × Bool}

lemma applyRegistryWrite_ok (reflects : Reflects X state.1 world) (readable : Readable X w) :
    ∃ state', applyRegistryWrite X state w = .ok state' ∧
      Reflects X state'.1 (applyToCache world w) ∧
      state'.2 = (state.2 || (registryName w).isSome) := by
  cases named : registryName w with
  | none =>
    refine ⟨state, by simp [applyRegistryWrite, named], fun name => ?_, by simp⟩
    rw [lookup_applyToCache_of_ne, reflects name]
    intro same
    rw [registryName, stripPrefix_eq_some.mpr same.symm] at named
    cases named
  | some name =>
    have key : w.stateKey = registryPrefix ++ name := stripPrefix_eq_some.mp named
    have others {n : String} (h : n ≠ name) :
        (applyToCache world w).lookup (registryPrefix ++ n) =
          world.lookup (registryPrefix ++ n) :=
      lookup_applyToCache_of_ne fun same => h ((String.append_right_inj _).mp (same.trans key))
    cases op : w.op with
    | set value =>
      obtain ⟨e, read⟩ := Option.isSome_iff_exists.mp (readable name value named op)
      have info : historicalDescriptor X name value = .ok (toValidatorInfo e) :=
        historicalDescriptor_eq_ok.mpr (by simp [read])
      refine ⟨(state.1.insert name (toValidatorInfo e), true), ?_, fun n => ?_, by simp⟩
      · simp [applyRegistryWrite, named, op, info, bind, Except.bind, pure, Except.pure]
      · by_cases same : n = name
        · subst same
          simp [applyToCache, op, key, read, lookup_insert]
        · rw [others same, ← reflects n]
          exact lookup_insert_ne same
    | delete =>
      refine ⟨(state.1.erase name, true), by simp [applyRegistryWrite, named, op], fun n => ?_,
        by simp⟩
      by_cases same : n = name
      · subst same
        simp [applyToCache, op, key, lookup_erase]
      · rw [others same, ← reflects n]
        exact lookup_erase_ne same

lemma readable_of_applyRegistryWrite {state' : RegistryMap × Bool}
    (h : applyRegistryWrite X state w = .ok state') : Readable X w := by
  intro name value named op
  simp only [applyRegistryWrite, named, op, bind_eq_ok] at h
  obtain ⟨info, read, -⟩ := h
  obtain ⟨e, read, -⟩ := Option.map_eq_some_iff.mp (historicalDescriptor_eq_ok.mp read)
  simp [read]

def touchesRegistry (b : Block) : Bool := b.writeSet.any fun w => (registryName w).isSome

variable {writes : List PersistentWrite}

lemma foldlM_applyRegistryWrite_ok (reflects : Reflects X state.1 world)
    (readable : ∀ w ∈ writes, Readable X w) :
    ∃ state', writes.foldlM (applyRegistryWrite X) state = .ok state' ∧
      Reflects X state'.1 (writes.foldl applyToCache world) ∧
      state'.2 = (state.2 || writes.any fun w => (registryName w).isSome) := by
  induction writes generalizing state world with
  | nil => exact ⟨state, rfl, reflects, by simp⟩
  | cons w rest ih =>
    obtain ⟨next, first, reflects', flag⟩ := applyRegistryWrite_ok reflects (readable w (by simp))
    obtain ⟨last, run, reflects'', flag'⟩ := ih reflects' fun v hv => readable v (by simp [hv])
    refine ⟨last, ?_, reflects'', ?_⟩
    · rw [foldlM_cons, first]
      exact run
    · rw [flag', flag, any_cons, Bool.or_assoc]

lemma readable_of_foldlM {state' : RegistryMap × Bool}
    (h : writes.foldlM (applyRegistryWrite X) state = .ok state') : ∀ w ∈ writes, Readable X w := by
  induction writes generalizing state with
  | nil => simp
  | cons w rest ih =>
    rw [foldlM_cons, bind_eq_ok] at h
    obtain ⟨next, first, run⟩ := h
    intro v hv
    cases mem_cons.mp hv with
    | inl same => exact same ▸ readable_of_applyRegistryWrite first
    | inr later => exact ih run v later

lemma worldAfter_append (blocks : List Block) (b : Block) :
    worldAfter (blocks ++ [b]) =
      b.writeSet.foldl applyToCache (worldAfter blocks) := by
  simp [worldAfter]

lemma foldlM_applyRegistryWrite_untouched
    (h : (writes.any fun w => (registryName w).isSome) = false) :
    writes.foldlM (applyRegistryWrite X) state = .ok state := by
  induction writes with
  | nil => rfl
  | cons w rest ih =>
    rw [any_cons, Bool.or_eq_false_iff, Option.isSome_eq_false_iff, Option.isNone_iff_eq_none] at h
    rw [foldlM_cons, applyRegistryWrite, h.1]
    exact ih h.2

/-- What the replay holds after a chain: the registry the world state describes, and, once a block
touched the registry, a snapshot of it as the last set. -/
structure Audited (X : Externals) (blocks : List Block) (A : ChainAudit B) : Prop where
  reflects : Reflects X A.registry (worldAfter blocks)
  effective : ∀ s ∈ A.sets, s.1 ≤ blocks.length
  current : (blocks.any touchesRegistry = false ∧ A.registry = ∅ ∧ A.sets = []) ∨
    (blocks.any touchesRegistry = true ∧ ∃ s, A.sets.getLast? = some s ∧
      s.2.validators = liveInfos X (worldAfter blocks))

variable {verifierKey : B.PrivateKey} {A A' : ChainAudit B} {blocks : List Block} {b : Block}

lemma audited_nil : Audited X [] (⟨∅, []⟩ : ChainAudit B) where
  reflects := fun _ => by simp [worldAfter]
  effective := by simp
  current := .inl ⟨rfl, rfl, rfl⟩

lemma Audited.applyWrites (h : Audited X blocks A) (index : b.index = blocks.length)
    (run : A.applyWrites X verifierKey b = .ok A') : Audited X (blocks ++ [b]) A' := by
  simp only [ChainAudit.applyWrites, bind_eq_ok] at run
  obtain ⟨⟨registry, changed⟩, fold, run⟩ := run
  have start : Reflects X ((A.registry, false) : RegistryMap × Bool).1 (worldAfter blocks) :=
    h.reflects
  obtain ⟨state, fold', reflects, flag⟩ :=
    foldlM_applyRegistryWrite_ok start (readable_of_foldlM fold)
  obtain rfl : (registry, changed) = state := Except.ok.inj (fold.symm.trans fold')
  rw [← worldAfter_append] at reflects
  have touched : (blocks ++ [b]).any touchesRegistry = (blocks.any touchesRegistry || changed) := by
    simpa [touchesRegistry] using congrArg (blocks.any touchesRegistry || ·) flag.symm
  have older : ∀ s ∈ A.sets, s.1 ≤ (blocks ++ [b]).length := fun s hs => by
    have := h.effective s hs
    simp only [length_append, length_singleton]
    omega
  cases changed with
  | true =>
    simp only [if_true, bind_eq_ok] at run
    obtain ⟨snapshot, built, run⟩ := run
    cases run
    refine ⟨reflects, fun s hs => ?_, .inr ⟨by simp [touched],
      (b.index + 1, snapshot), by simp, ?_⟩⟩
    · cases mem_append.mp hs with
      | inl old => exact older s old
      | inr last =>
        rw [mem_singleton.mp last, index]
        simp
    · rw [(new_eq_ok.mp (mapError_eq_ok.mp built)).1, reflects.values_eq]
  | false =>
    cases run
    -- no write of the block is to the registry
    have same : registry = A.registry := by
      have untouched : b.writeSet.foldlM (applyRegistryWrite X) (A.registry, false) =
          .ok (A.registry, false) :=
        foldlM_applyRegistryWrite_untouched (by simpa using flag.symm)
      exact congrArg Prod.fst (Except.ok.inj (fold.symm.trans untouched))
    subst same
    refine ⟨reflects, older, ?_⟩
    rw [touched, Bool.or_false]
    refine h.current.imp id ?_
    rintro ⟨before, s, last, snapshot⟩
    refine ⟨before, s, last, ?_⟩
    rw [snapshot, ← h.reflects.values_eq, reflects.values_eq]

lemma Audited.applyWrites_ok (h : Audited X blocks A) (readable : ∀ w ∈ b.writeSet, Readable X w)
    (registered : ∀ v ∈ liveInfos X (worldAfter (blocks ++ [b])), v.register B = .ok ()) :
    ∃ A', A.applyWrites X verifierKey b = .ok A' := by
  have start : Reflects X ((A.registry, false) : RegistryMap × Bool).1 (worldAfter blocks) :=
    h.reflects
  obtain ⟨⟨registry, changed⟩, fold, reflects, -⟩ := foldlM_applyRegistryWrite_ok start readable
  rw [← worldAfter_append] at reflects
  rw [← reflects.values_eq] at registered
  have new : BftConsensusProvider.new registry.values verifierKey =
      .ok ⟨registry.values, verifierKey, registered⟩ :=
    new_eq_ok.mpr ⟨rfl, rfl⟩
  cases changed with
  | true =>
    refine ⟨⟨registry, A.sets ++ [(b.index + 1, ⟨registry.values, verifierKey, registered⟩)]⟩, ?_⟩
    simp [ChainAudit.applyWrites, fold, bind, Except.bind, new, Except.mapError, pure, Except.pure]
  | false =>
    refine ⟨⟨registry, A.sets⟩, ?_⟩
    simp [ChainAudit.applyWrites, fold, bind, Except.bind, pure, Except.pure]

lemma Audited.registered (h : Audited X blocks A) :
    ∀ v ∈ liveInfos X (worldAfter blocks), v.register B = .ok () := by
  cases h.current with
  | inl untouched =>
    rw [← h.reflects.values_eq, untouched.2.1]
    simp [RegistryMap.values]
  | inr touched =>
    obtain ⟨-, s, -, snapshot⟩ := touched
    exact snapshot ▸ s.2.registered

/-- The set in force at the next height: the bootstrap one before the first registry write, the
registry's from then on. -/
theorem Audited.effectiveSet_cases (h : Audited X blocks A)
    (bootstrap : Option (BftConsensusProvider B)) :
    (blocks.any touchesRegistry = false ∧ A.effectiveSet bootstrap blocks.length = bootstrap) ∨
      (blocks.any touchesRegistry = true ∧
        ∃ Q, A.effectiveSet bootstrap blocks.length = some Q ∧
          Q.validators = liveInfos X (worldAfter blocks)) := by
  cases h.current with
  | inl untouched =>
    obtain ⟨untouched, -, none⟩ := untouched
    exact .inl ⟨untouched, by simp [ChainAudit.effectiveSet, none]⟩
  | inr touched =>
    obtain ⟨touched, s, last, snapshot⟩ := touched
    obtain ⟨front, sets⟩ : ∃ front, A.sets = front ++ [s] := getLast?_eq_some_iff.mp last
    have inForce : s.1 ≤ blocks.length := h.effective s (by simp [sets])
    exact .inr ⟨touched, s.2, by simp [ChainAudit.effectiveSet, sets, inForce], snapshot⟩

lemma Audited.effectiveSet (h : Audited X blocks A) (attached : BftConsensusProvider B) :
    ∃ Q, A.effectiveSet (some attached) blocks.length = some Q ∧
      Q.validators = if blocks.any touchesRegistry then liveInfos X (worldAfter blocks)
        else attached.validators := by
  obtain ⟨untouched, effective⟩ | ⟨touched, Q, effective, list⟩ := h.effectiveSet_cases (some attached)
  · exact ⟨attached, effective, by simp [untouched]⟩
  · exact ⟨Q, effective, by simp [touched, list]⟩

def auditRegistry (X : Externals) (verifierKey : B.PrivateKey) (blocks : List Block) :
    Except CoreError (ChainAudit B) :=
  blocks.foldlM (ChainAudit.applyWrites X verifierKey) ⟨∅, []⟩

lemma auditRegistry_append : auditRegistry X verifierKey (blocks ++ [b]) =
    auditRegistry X verifierKey blocks >>= fun A => A.applyWrites X verifierKey b := by
  simp [auditRegistry, foldlM_append]

/-- The replay is its registry part, with every certificate checked in the state before its
block. -/
theorem replay_eq_ok {bootstrap : Option (BftConsensusProvider B)} :
    blocks.foldlM (ChainAudit.step X verifierKey bootstrap) ⟨∅, []⟩ = .ok A ↔
      auditRegistry X verifierKey blocks = .ok A ∧ ∀ h b, blocks[h]? = some b →
        ∃ A', auditRegistry X verifierKey (blocks.take h) = .ok A' ∧
          A'.checkCertificate bootstrap b = .ok () := by
  induction blocks using List.reverseRecOn generalizing A with
  | nil => simp [auditRegistry]
  | append_singleton front last ih =>
    have old {h : Nat} (inside : h < front.length) :
        (front ++ [last])[h]? = front[h]? ∧ (front ++ [last]).take h = front.take h :=
      ⟨getElem?_append_left inside, take_append_of_le_length inside.le⟩
    rw [foldlM_append, bind_eq_ok, auditRegistry_append, bind_eq_ok]
    simp only [foldlM_cons, foldlM_nil, bind_pure, ChainAudit.step, seq_eq_ok, ih]
    constructor
    · rintro ⟨M, ⟨audited, checked⟩, certificate, step⟩
      refine ⟨⟨M, audited, step⟩, fun h b placed => ?_⟩
      obtain inside | rfl : h < front.length ∨ h = front.length := by
        have := (List.getElem?_eq_some_iff.mp placed).1
        simp only [length_append, length_singleton] at this
        omega
      · rw [(old inside).1] at placed
        rw [(old inside).2]
        exact checked h b placed
      · obtain rfl : last = b := by simpa using placed
        exact ⟨M, by simpa using audited, certificate⟩
    · rintro ⟨⟨M, audited, step⟩, checked⟩
      refine ⟨M, ⟨audited, fun h b placed => ?_⟩, ?_, step⟩
      · have inside := (List.getElem?_eq_some_iff.mp placed).1
        rw [← (old inside).2]
        exact checked h b (by rw [(old inside).1, placed])
      · obtain ⟨M', audited', certificate⟩ := checked front.length last (by simp)
        rw [take_left, audited] at audited'
        rwa [Except.ok.inj audited']

lemma verifyChainCertificates_eq_ok {bootstrap : Option (BftConsensusProvider B)} :
    verifyChainCertificates X verifierKey blocks bootstrap = .ok () ↔
      (∃ A, auditRegistry X verifierKey blocks = .ok A) ∧ ∀ h b, blocks[h]? = some b →
        ∃ A', auditRegistry X verifierKey (blocks.take h) = .ok A' ∧
          A'.checkCertificate bootstrap b = .ok () := by
  simp [verifyChainCertificates, bind_eq_ok, replay_eq_ok, pure, Except.pure]

def Consecutive (blocks : List Block) : Prop :=
  ∀ (i : Nat) (b : Block), blocks[i]? = some b → b.index = i

lemma Consecutive.front (h : Consecutive (blocks ++ [b])) : Consecutive blocks := by
  intro i c hc
  have inside : i < blocks.length := (List.getElem?_eq_some_iff.mp hc).1
  exact h i c (by rwa [getElem?_append_left inside])

lemma Consecutive.last (h : Consecutive (blocks ++ [b])) : b.index = blocks.length :=
  h _ b (by simp)

lemma audited_of_auditRegistry (consecutive : Consecutive blocks)
    (run : auditRegistry X verifierKey blocks = .ok A) : Audited X blocks A := by
  induction blocks using List.reverseRecOn generalizing A with
  | nil =>
    cases run
    exact audited_nil
  | append_singleton blocks b ih =>
    rw [auditRegistry_append, bind_eq_ok] at run
    obtain ⟨before, prior, last⟩ := run
    exact (ih consecutive.front prior).applyWrites consecutive.last last

def ReadableChain (X : Externals) (blocks : List Block) : Prop :=
  ∀ b ∈ blocks, ∀ w ∈ b.writeSet, Readable X w

def RegisteredChain (X : Externals) (B : Multisig) (blocks : List Block) : Prop :=
  ∀ h ≤ blocks.length, ∀ v ∈ liveInfos X (worldAfter (blocks.take h)), v.register B = .ok ()

/-- The registry replay succeeds exactly on chains of readable descriptors and valid sets. -/
theorem auditRegistry_ok_iff (consecutive : Consecutive blocks) :
    (∃ A, auditRegistry X verifierKey blocks = .ok A) ↔
      ReadableChain X blocks ∧ RegisteredChain X B blocks := by
  induction blocks using List.reverseRecOn with
  | nil =>
    refine ⟨fun _ => ⟨by simp [ReadableChain], fun h _ => ?_⟩, fun _ => ⟨_, rfl⟩⟩
    rw [take_nil]
    exact (audited_nil (B := B) (X := X)).registered
  | append_singleton blocks b ih =>
    have ih := ih consecutive.front
    have front {h : Nat} (hh : h ≤ blocks.length) : (blocks ++ [b]).take h = blocks.take h :=
      take_append_of_le_length hh
    have whole : (blocks ++ [b]).take (blocks.length + 1) = blocks ++ [b] :=
      take_of_length_le (by simp)
    constructor
    · rintro ⟨A, run⟩
      have audited := audited_of_auditRegistry consecutive run
      rw [auditRegistry_append, bind_eq_ok] at run
      obtain ⟨before, prior, last⟩ := run
      obtain ⟨readable, registered⟩ := ih.mp ⟨before, prior⟩
      simp only [ChainAudit.applyWrites, bind_eq_ok] at last
      obtain ⟨_, fold, -⟩ := last
      refine ⟨?_, fun h hh => ?_⟩
      · intro c hc
        cases mem_append.mp hc with
        | inl old => exact readable c old
        | inr new => exact mem_singleton.mp new ▸ readable_of_foldlM fold
      · rw [length_append, length_singleton] at hh
        by_cases last : h = blocks.length + 1
        · rw [last, whole]
          exact audited.registered
        · rw [front (by omega)]
          exact registered h (by omega)
    · rintro ⟨readable, registered⟩
      obtain ⟨A, run⟩ := ih.mpr ⟨fun c hc => readable c (by simp [hc]), fun h hh => by
        rw [← front hh]
        exact registered h (by simp; omega)⟩
      have last := registered (blocks.length + 1) (by simp)
      rw [whole] at last
      have audited := audited_of_auditRegistry consecutive.front run
      obtain ⟨A', step⟩ : ∃ A', A.applyWrites X verifierKey b = .ok A' :=
        audited.applyWrites_ok (readable b (by simp)) last
      refine ⟨A', ?_⟩
      rw [auditRegistry_append, run]
      exact step

variable {attached : BftConsensusProvider B} {S : NodeState B}

/-- States of a node that admits a chain block by block from genesis: `commit` applies the next
block's writes to the world state, `derive` runs the derivation, which may fill the cache, and
`other` changes anything else of the state. -/
inductive LiveState (X : Externals) (attached : BftConsensusProvider B) (blocks : List Block) :
    Nat → NodeState B → Prop
  | start {S : NodeState B} (world : S.worldState = ∅) (consensus : S.consensus = some attached)
      (cache : S.bftValidatorCache = none) : LiveState X attached blocks 0 S
  | commit {h : Nat} {b : Block} {S S' : NodeState B} (before : LiveState X attached blocks h S)
      (next : blocks[h]? = some b)
      (world : S'.worldState = b.writeSet.foldl PersistentWrite.applyToCache S.worldState)
      (consensus : S'.consensus = S.consensus)
      (cache : S'.bftValidatorCache = S.bftValidatorCache) : LiveState X attached blocks (h + 1) S'
  | derive {h : Nat} {S : NodeState B} (before : LiveState X attached blocks h S) :
      LiveState X attached blocks h (deriveValidatorProvider X S).1
  | other {h : Nat} {S S' : NodeState B} (before : LiveState X attached blocks h S)
      (world : S'.worldState = S.worldState) (consensus : S'.consensus = S.consensus)
      (cache : S'.bftValidatorCache = S.bftValidatorCache) : LiveState X attached blocks h S'

/-- The registry entries after the first `h` blocks. -/
def entriesAt (X : Externals) (blocks : List Block) (h : Nat) : List (String × Bytes × Bytes) :=
  registryEntries X (worldAfter (blocks.take h))

/-- The cache hash separates the registries met along the chain. -/
def SeparatesRegistries (X : Externals) (blocks : List Block) : Prop :=
  ∀ i ≤ blocks.length, ∀ j ≤ blocks.length,
    X.registryHash (entriesAt X blocks i) = X.registryHash (entriesAt X blocks j) →
      entriesAt X blocks i = entriesAt X blocks j

lemma deriveValidatorProvider_cases (consensus : S.consensus = some attached) :
    (∃ P, S.bftValidatorCache = some (X.registryHash (registryEntries X S.worldState), P) ∧
      deriveValidatorProvider X S = (S, some P)) ∨
    (registryEntries X S.worldState = [] ∧ deriveValidatorProvider X S = (S, some attached)) ∨
    (registryEntries X S.worldState ≠ [] ∧
      ∃ P, BftConsensusProvider.new (liveInfos X S.worldState) attached.signingKey = .ok P ∧
        deriveValidatorProvider X S = ({ S with
          bftValidatorCache := some (X.registryHash (registryEntries X S.worldState), P) }, some P)) ∨
    (registryEntries X S.worldState ≠ [] ∧
      ∃ e, BftConsensusProvider.new (liveInfos X S.worldState) attached.signingKey = .error e ∧
        deriveValidatorProvider X S = (S, none)) := by
  unfold deriveValidatorProvider
  simp only [consensus]
  cases hit : S.bftValidatorCache.filter
      (·.1 == X.registryHash (registryEntries X S.worldState)) with
  | some cached =>
    obtain ⟨hash, P⟩ := cached
    obtain ⟨stored, same⟩ := Option.filter_eq_some_iff.mp hit
    obtain rfl : hash = X.registryHash (registryEntries X S.worldState) := by simpa using same
    exact .inl ⟨P, stored, rfl⟩
  | none =>
    by_cases empty : registryEntries X S.worldState = []
    · exact .inr (.inl ⟨empty, by simp [empty]⟩)
    · simp only [List.isEmpty_iff, empty, if_false]
      cases new : BftConsensusProvider.new (liveInfos X S.worldState) attached.signingKey with
      | ok P => exact .inr (.inr (.inl ⟨empty, P, rfl, by rw [liveInfos] at new; rw [new]⟩))
      | error e => exact .inr (.inr (.inr ⟨empty, e, rfl, by rw [liveInfos] at new; rw [new]⟩))

/-- The projection is that of the chain, and the cache was filled along it. -/
structure LiveInv (X : Externals) (attached : BftConsensusProvider B) (blocks : List Block)
    (h : Nat) (S : NodeState B) : Prop where
  inside : h ≤ blocks.length
  world : S.worldState = worldAfter (blocks.take h)
  consensus : S.consensus = some attached
  cache : ∀ hash P, S.bftValidatorCache = some (hash, P) → ∃ i ≤ h,
    hash = X.registryHash (entriesAt X blocks i) ∧ entriesAt X blocks i ≠ [] ∧
      P.validators = (entriesAt X blocks i).map toValidatorInfo

lemma LiveInv.entries {h : Nat} (inv : LiveInv X attached blocks h S) :
    registryEntries X S.worldState = entriesAt X blocks h := by
  rw [inv.world, entriesAt]

variable {h : Nat}

lemma LiveState.inv (live : LiveState X attached blocks h S) : LiveInv X attached blocks h S := by
  induction live with
  | start world consensus cache =>
    exact ⟨Nat.zero_le _, by simpa [worldAfter] using world, consensus, by simp [cache]⟩
  | @commit h b S S' _ next world consensus cache ih =>
    have inside : h < blocks.length := (List.getElem?_eq_some_iff.mp next).1
    refine ⟨inside, ?_, consensus.trans ih.consensus, fun hash P stored => ?_⟩
    · rw [world, ih.world, take_add_one, next, Option.toList_some, worldAfter_append]
    · obtain ⟨i, hi, rest⟩ := ih.cache hash P (cache ▸ stored)
      exact ⟨i, by omega, rest⟩
  | @derive h S _ ih =>
    obtain ⟨P, -, run⟩ | ⟨-, run⟩ | ⟨some, P, new, run⟩ | ⟨-, e, -, run⟩ :=
      deriveValidatorProvider_cases (X := X) ih.consensus <;> rw [run]
    · exact ih
    · exact ih
    · refine ⟨ih.inside, ih.world, ih.consensus, fun hash Q stored => ?_⟩
      obtain ⟨rfl, rfl⟩ : _ = hash ∧ P = Q := by simpa using stored
      rw [ih.entries] at some ⊢
      refine ⟨h, le_rfl, rfl, some, ?_⟩
      rw [(new_eq_ok.mp new).1, liveInfos, ih.entries]
    · exact ih
  | other _ world consensus cache ih =>
    exact ⟨ih.inside, world.trans ih.world, consensus.trans ih.consensus,
      fun hash P stored => ih.cache hash P (cache ▸ stored)⟩

/-- The list a live node derives, whatever its cache holds. -/
theorem LiveState.validators {h : Nat} (separates : SeparatesRegistries X blocks)
    (live : LiveState X attached blocks h S) {P : BftConsensusProvider B}
    (derived : (deriveValidatorProvider X S).2 = some P) :
    P.validators = if entriesAt X blocks h = [] then attached.validators
      else (entriesAt X blocks h).map toValidatorInfo := by
  have inv := live.inv
  obtain ⟨Q, stored, run⟩ | ⟨empty, run⟩ | ⟨some, Q, new, run⟩ | ⟨-, e, -, run⟩ :=
    deriveValidatorProvider_cases (X := X) inv.consensus <;>
    rw [run] at derived
  · obtain rfl : Q = P := by simpa using derived
    obtain ⟨i, hi, hash, some, list⟩ := inv.cache _ _ stored
    rw [inv.entries] at hash
    have same := separates h inv.inside i (hi.trans inv.inside) hash
    rw [same, if_neg some, list]
  · obtain rfl : attached = P := by simpa using derived
    rw [inv.entries] at empty
    rw [if_pos empty]
  · obtain rfl : Q = P := by simpa using derived
    rw [inv.entries] at some
    rw [if_neg some, (new_eq_ok.mp new).1, liveInfos, inv.entries]
  · cases derived

lemma LiveState.derives (live : LiveState X attached blocks h S)
    (registered : ∀ v ∈ liveInfos X (worldAfter (blocks.take h)), v.register B = .ok ()) :
    ∃ P, (deriveValidatorProvider X S).2 = some P := by
  have inv := live.inv
  obtain ⟨Q, -, run⟩ | ⟨-, run⟩ | ⟨-, Q, -, run⟩ | ⟨-, e, new, -⟩ :=
    deriveValidatorProvider_cases (X := X) inv.consensus
  · exact ⟨Q, by rw [run]⟩
  · exact ⟨attached, by rw [run]⟩
  · exact ⟨Q, by rw [run]⟩
  · rw [← inv.world] at registered
    rw [new_eq_ok (P := ⟨_, attached.signingKey, registered⟩) |>.mpr ⟨rfl, rfl⟩] at new
    cases new

lemma exists_liveState (X : Externals) (attached : BftConsensusProvider B) (blocks : List Block)
    (inside : h ≤ blocks.length) : ∃ S, LiveState X attached blocks h S := by
  induction h with
  | zero =>
    exact ⟨⟨⟨none, fun _ => none, ∅, none, ⟨[]⟩, none⟩, some attached, none, none, ⟨∅⟩, [], none⟩,
      .start rfl rfl rfl⟩
  | succ h ih =>
    obtain ⟨S, live⟩ := ih (by omega)
    have next := getElem?_eq_getElem (show h < blocks.length by omega)
    exact ⟨{ S with worldState := blocks[h].writeSet.foldl applyToCache S.worldState },
      .commit live next rfl rfl rfl⟩

/-- The set the replay uses at height `h`. -/
def effectiveSetAt (X : Externals) (verifierKey : B.PrivateKey)
    (bootstrap : Option (BftConsensusProvider B)) (blocks : List Block) (h : Nat) :
    Except CoreError (Option (BftConsensusProvider B)) := do
  let A ← auditRegistry X verifierKey (blocks.take h)
  return A.effectiveSet bootstrap h

/-- Every certificate on the chain was verified by a live node when its block was next. -/
def VerifiedLive (X : Externals) (attached : BftConsensusProvider B) (blocks : List Block) : Prop :=
  ∀ (h : Nat) (b : Block) (c : QuorumCertificate), blocks[h]? = some b → b.certificate = some c →
    c.isDegenerate = false → ∃ S P, LiveState X attached blocks h S ∧
      (deriveValidatorProvider X S).2 = some P ∧ P.verifyCertificate c b = .ok ()

/-- The live and the historical sets agree along a chain: the lists are equal at every height,
whatever the node's cache holds, and a chain whose certificates were verified live is accepted by
the replay of any node with the same static set. -/
structure SetsAgree (X : Externals) (attached : BftConsensusProvider B) (verifierKey : B.PrivateKey)
    (blocks : List Block) : Prop where
  lists : ∀ h ≤ blocks.length, ∀ S, LiveState X attached blocks h S →
    ∃ P Q, (deriveValidatorProvider X S).2 = some P ∧
      effectiveSetAt X verifierKey (some attached) blocks h = .ok (some Q) ∧
      P.validators = Q.validators
  replay : ∀ bootstrap : BftConsensusProvider B, bootstrap.validators = attached.validators →
    VerifiedLive X attached blocks →
      verifyChainCertificates X verifierKey blocks (some bootstrap) = .ok ()

/-- What agreement asks of a chain: readable descriptors, sets that `new` accepts, and no registry
that a write left empty while the static set has members. -/
structure RegistryClean (X : Externals) (attached : BftConsensusProvider B) (blocks : List Block) :
    Prop where
  readable : ReadableChain X blocks
  registered : RegisteredChain X B blocks
  notEmptied : ∀ h ≤ blocks.length, (blocks.take h).any touchesRegistry = true →
    entriesAt X blocks h = [] → attached.validators = []

lemma Consecutive.take (h : Consecutive blocks) (n : Nat) : Consecutive (blocks.take n) := by
  intro i b hb
  rw [getElem?_take] at hb
  split at hb
  · exact h i b hb
  · cases hb

lemma ReadableChain.take (h : ReadableChain X blocks) (n : Nat) :
    ReadableChain X (blocks.take n) := fun b hb => h b (mem_of_mem_take hb)

lemma RegisteredChain.take (h : RegisteredChain X B blocks) (n : Nat) :
    RegisteredChain X B (blocks.take n) := by
  intro k hk
  rw [length_take] at hk
  rw [take_take, Nat.min_eq_left (by omega)]
  exact h k (by omega)

lemma effectiveSetAt_eq_ok (consecutive : Consecutive blocks) (inside : h ≤ blocks.length)
    (bootstrap : BftConsensusProvider B) (run : auditRegistry X verifierKey (blocks.take h) = .ok A) :
    ∃ Q, effectiveSetAt X verifierKey (some bootstrap) blocks h = .ok (some Q) ∧
      A.effectiveSet (some bootstrap) h = some Q ∧
      Q.validators = if (blocks.take h).any touchesRegistry then
        (entriesAt X blocks h).map toValidatorInfo else bootstrap.validators := by
  have audited := audited_of_auditRegistry (consecutive.take h) run
  obtain ⟨Q, effective, list⟩ := audited.effectiveSet bootstrap
  rw [length_take, Nat.min_eq_left inside] at effective
  refine ⟨Q, ?_, effective, list⟩
  simp [effectiveSetAt, run, bind, Except.bind, effective, pure, Except.pure]

lemma entriesAt_of_untouched (consecutive : Consecutive blocks)
    (run : auditRegistry X verifierKey (blocks.take h) = .ok A)
    (untouched : (blocks.take h).any touchesRegistry = false) : entriesAt X blocks h = [] := by
  have audited := audited_of_auditRegistry (consecutive.take h) run
  have empty : liveInfos X (worldAfter (blocks.take h)) = [] := by
    rw [← audited.reflects.values_eq]
    cases audited.current with
    | inl current =>
      rw [current.2.1]
      simp [RegistryMap.values]
    | inr current => rw [current.1] at untouched; cases untouched
  exact map_eq_nil_iff.mp empty

lemma RegistryClean.audit (clean : RegistryClean X attached blocks)
    (consecutive : Consecutive blocks) (verifierKey : B.PrivateKey) (h : Nat) :
    ∃ A, auditRegistry X verifierKey (blocks.take h) = .ok A :=
  (auditRegistry_ok_iff (consecutive.take h)).mpr ⟨clean.readable.take h, clean.registered.take h⟩

/-- On a clean chain the list derived live is the one the replay uses. -/
theorem RegistryClean.lists (clean : RegistryClean X attached blocks)
    (consecutive : Consecutive blocks) (separates : SeparatesRegistries X blocks) {h : Nat}
    (inside : h ≤ blocks.length) (live : LiveState X attached blocks h S)
    {bootstrap : BftConsensusProvider B} (same : bootstrap.validators = attached.validators)
    (run : auditRegistry X verifierKey (blocks.take h) = .ok A) :
    ∃ P Q, (deriveValidatorProvider X S).2 = some P ∧
      effectiveSetAt X verifierKey (some bootstrap) blocks h = .ok (some Q) ∧
      A.effectiveSet (some bootstrap) h = some Q ∧ P.validators = Q.validators := by
  obtain ⟨P, derived⟩ := live.derives (clean.registered h inside)
  obtain ⟨Q, effective, inForce, list⟩ := effectiveSetAt_eq_ok consecutive inside bootstrap run
  refine ⟨P, Q, derived, effective, inForce, ?_⟩
  rw [live.validators separates derived, list]
  cases touched : (blocks.take h).any touchesRegistry with
  | false => simp [entriesAt_of_untouched consecutive run touched, same]
  | true =>
    by_cases empty : entriesAt X blocks h = []
    · simp [empty, clean.notEmptied h inside touched empty]
    · simp [empty]

/-- The replay of a clean chain whose certificates were verified live. -/
theorem RegistryClean.replay (clean : RegistryClean X attached blocks)
    (consecutive : Consecutive blocks) (separates : SeparatesRegistries X blocks)
    {bootstrap : BftConsensusProvider B} (same : bootstrap.validators = attached.validators)
    (verified : VerifiedLive X attached blocks) :
    verifyChainCertificates X verifierKey blocks (some bootstrap) = .ok () := by
  have whole := clean.audit consecutive verifierKey blocks.length
  rw [take_length] at whole
  refine verifyChainCertificates_eq_ok.mpr ⟨whole, fun h b placed => ?_⟩
  have inside := (List.getElem?_eq_some_iff.mp placed).1
  obtain ⟨A, audited⟩ := clean.audit consecutive verifierKey h
  refine ⟨A, audited, ?_⟩
  unfold ChainAudit.checkCertificate
  cases carried : b.certificate with
  | none => rfl
  | some c =>
    cases degenerate : c.isDegenerate with
    | true => simp [degenerate]
    | false =>
      obtain ⟨S, P, live, derived, accepted⟩ := verified h b c placed carried degenerate
      obtain ⟨P', Q, derived', -, inForce, list⟩ :=
        clean.lists consecutive separates inside.le live same audited
      obtain rfl : P = P' := Option.some.inj (derived.symm.trans derived')
      simp only [degenerate, consecutive h b placed, inForce]
      rw [← verifyCertificate_congr list]
      exact accepted

lemma SetsAgree.audit (agree : SetsAgree X attached verifierKey blocks) {h : Nat}
    (inside : h ≤ blocks.length) : ∃ A, auditRegistry X verifierKey (blocks.take h) = .ok A := by
  obtain ⟨S, live⟩ := exists_liveState X attached blocks inside
  obtain ⟨P, Q, -, effective, -⟩ := agree.lists h inside S live
  rw [effectiveSetAt, bind_eq_ok] at effective
  obtain ⟨A, run, -⟩ := effective
  exact ⟨A, run⟩

/-- An emptied registry sends a live node back to the static set and the replay to the empty one. -/
theorem SetsAgree.notEmptied (agree : SetsAgree X attached verifierKey blocks)
    (consecutive : Consecutive blocks) (separates : SeparatesRegistries X blocks)
    (inside : h ≤ blocks.length) (touched : (blocks.take h).any touchesRegistry = true)
    (empty : entriesAt X blocks h = []) : attached.validators = [] := by
  obtain ⟨S, live⟩ := exists_liveState X attached blocks inside
  obtain ⟨P, Q, derived, effective, list⟩ := agree.lists h inside S live
  obtain ⟨A, run⟩ := agree.audit inside
  obtain ⟨Q', effective', -, list'⟩ := effectiveSetAt_eq_ok consecutive inside attached run
  obtain rfl : Q = Q' := by simpa using effective.symm.trans effective'
  rw [live.validators separates derived, list', if_pos empty, touched, empty] at list
  simpa using list

variable (X)

/-- The live and the historical validator sets agree along a chain exactly when the chain is
clean. -/
theorem validator_sets_agree_iff (attached : BftConsensusProvider B) (verifierKey : B.PrivateKey)
    (blocks : List Block) (consecutive : Consecutive blocks)
    (separates : SeparatesRegistries X blocks) :
    SetsAgree X attached verifierKey blocks ↔ RegistryClean X attached blocks := by
  constructor
  · intro agree
    have audit := agree.audit le_rfl
    rw [take_length] at audit
    obtain ⟨readable, registered⟩ := (auditRegistry_ok_iff consecutive).mp audit
    exact ⟨readable, registered, fun h inside => agree.notEmptied consecutive separates inside⟩
  · intro clean
    refine ⟨fun h inside S live => ?_, fun bootstrap same verified =>
      clean.replay consecutive separates same verified⟩
    obtain ⟨A, run⟩ := clean.audit consecutive verifierKey h
    obtain ⟨P, Q, derived, effective, -, list⟩ :=
      clean.lists consecutive separates inside live rfl run
    exact ⟨P, Q, derived, effective, list⟩

def registryChain (writes : List PersistentWrite) : List Block :=
  [sealedGenesis X, Block.withWriteSet X 0 1 [] (sealedGenesis X).hash writes]

lemma registryChain_linked (writes : List PersistentWrite) :
    Linked X (registryChain X writes) := by
  have first : Linked X [sealedGenesis X] :=
    .genesis rfl (by simp [sealedGenesis, isValid_iff, calculateHash, content])
  refine .snoc first rfl ?_
  simp [chainsTo_iff, withWriteSet, isValid_iff, calculateHash,
    content, sealedGenesis, genesisBlock]

lemma registryChain_consecutive (writes : List PersistentWrite) :
    Consecutive (registryChain X writes) := by
  rintro (_ | _ | i) b hb
  · cases hb
    rfl
  · cases hb
    rfl
  · cases hb

def registryWrite (name : String) (op : WriteOp) : PersistentWrite :=
  ⟨"governance", "validator-registry", name, op, .pub⟩

lemma stateKey_registryWrite (name : String) (op : WriteOp) :
    (registryWrite name op).stateKey = registryPrefix ++ name := by
  have front : "ws:" ++ "governance" ++ ":" ++ "validator-registry" ++ ":" = registryPrefix := by
    decide
  exact congrArg (· ++ name) front

lemma registryName_registryWrite (name : String) (op : WriteOp) :
    registryName (registryWrite name op) = some name := by
  rw [registryName, stripPrefix_eq_some, stateKey_registryWrite]

lemma worldAfter_registryChain (name : String) (op : WriteOp) (h : Nat) :
    worldAfter ((registryChain X [registryWrite name op]).take h) =
      if h < 2 then ∅ else applyToCache ∅ (registryWrite name op) := by
  match h with
  | 0 => rfl
  | 1 => rfl
  | h + 2 =>
    rw [take_of_length_le (by simp [registryChain]), if_neg (by omega)]
    rfl

lemma touches_registryChain (name : String) (op : WriteOp) :
    (registryChain X [registryWrite name op]).any touchesRegistry = true := by
  simp [registryChain, touchesRegistry, withWriteSet, registryName_registryWrite]

lemma registryEntries_empty : registryEntries X ∅ = [] := by
  simp [registryEntries]

lemma entriesAt_deletion (name : String) (h : Nat) :
    entriesAt X (registryChain X [registryWrite name .delete]) h = [] := by
  have untouched : applyToCache ∅ (registryWrite name .delete) = ∅ := rfl
  rw [entriesAt, worldAfter_registryChain, untouched, ite_self, registryEntries_empty]

variable {X}

/-- A block that deletes a registry entry nobody ever set: the live node stays on its static set,
the replay goes on with the empty one. -/
theorem validator_sets_disagree :
    Linked (.plain 0) (registryChain (.plain 0) [registryWrite "a" .delete]) ∧
      SeparatesRegistries (.plain 0) (registryChain (.plain 0) [registryWrite "a" .delete]) ∧
      ¬SetsAgree (.plain 0) (sampleProvider [1] 1) (sampleKey 1)
        (registryChain (.plain 0) [registryWrite "a" .delete]) := by
  have separates :
      SeparatesRegistries (.plain 0) (registryChain (.plain 0) [registryWrite "a" .delete]) := by
    intro i _ j _ _
    rw [entriesAt_deletion, entriesAt_deletion]
  refine ⟨registryChain_linked _ _, separates, fun agree => ?_⟩
  have empty := agree.notEmptied (registryChain_consecutive _ _) separates le_rfl
    (by rw [take_length]; exact touches_registryChain _ _ _) (entriesAt_deletion _ _ _)
  simp [sampleProvider, sampleValidators] at empty

/-- Externals that read every descriptor as that of the validator with key 1. -/
noncomputable def descriptorExternals : Externals :=
  { Externals.plain 0 with
    parseJson := fun _ => .ok (.object [("pop", .string "pop"), ("public_key", .string "key")])
    base64Decode := fun text => some (if text = "key" then List.replicate 48 1 else
      (ValidatorInfo.ofPrivateKey (Multisig.symbolic 48) "" (sampleKey 1)).pop)
    registryHash := fun entries => UInt64.ofNat entries.length }

lemma liveDescriptor_sample (name : String) (value : Bytes) :
    (liveDescriptor descriptorExternals name value).map toValidatorInfo =
      some (ofPrivateKey (symbolic 48) name (sampleKey 1)) := by
  have key : (symbolic 48).encodedKey (sampleKey 1) = replicate 48 1 := rfl
  simp [liveDescriptor, descriptorExternals, Except.toOption, descriptorField, Value.asObject,
    lookup, Value.asStr, toValidatorInfo, ofPrivateKey, key]

/-- A write under a registry key, in whatever scope, is read as a validator. -/
theorem liveInfos_sample (key : w.stateKey = registryPrefix ++ name) (op : w.op = .set value) :
    liveInfos descriptorExternals (applyToCache ∅ w) =
      [ofPrivateKey (symbolic 48) name (sampleKey 1)] := by
  obtain ⟨e, read, info⟩ := Option.map_eq_some_iff.mp (liveDescriptor_sample name value)
  have strip : stripPrefix registryPrefix (registryPrefix ++ name) = some name :=
    stripPrefix_eq_some.mpr rfl
  have world : (applyToCache ∅ w).entries = [⟨registryPrefix ++ name, value⟩] := by
    rw [← key, applyToCache, op]
    rfl
  simp [liveInfos, registryEntries, world, strip, read, info]

/-- A chain that registers one validator: from then on both sides use it in place of the static
set. -/
theorem validator_sets_agree_iff_registered :
    SetsAgree descriptorExternals (sampleProvider [2] 2) (sampleKey 2)
      (registryChain descriptorExternals [registryWrite "0" (.set [])]) := by
  have infos (h : Nat) : liveInfos descriptorExternals
          (worldAfter ((registryChain descriptorExternals [registryWrite "0" (.set [])]).take h)) =
        if h < 2 then []
        else [ofPrivateKey (symbolic 48) "0" (sampleKey 1)] := by
    rw [worldAfter_registryChain]
    split
    · rw [liveInfos, registryEntries_empty, map_nil]
    · exact liveInfos_sample (stateKey_registryWrite "0" _) rfl
  have size (h : Nat) : (entriesAt descriptorExternals
      (registryChain descriptorExternals [registryWrite "0" (.set [])]) h).length =
        if h < 2 then 0 else 1 := by
    have := congrArg List.length (infos h)
    rw [liveInfos, length_map] at this
    rw [entriesAt, this]
    split <;> rfl
  refine (validator_sets_agree_iff descriptorExternals (sampleProvider [2] 2) (sampleKey 2)
    (registryChain descriptorExternals [registryWrite "0" (.set [])])
    (registryChain_consecutive _ _) ?_).mpr
    ⟨?_, ?_, ?_⟩
  · -- equal hashes mean equally many entries, and there is one registry of each size
    intro i _ j _ same
    have counts : UInt64.ofNat (if i < 2 then 0 else 1) = UInt64.ofNat (if j < 2 then 0 else 1) := by
      rw [← size i, ← size j]
      exact same
    have sides : i < 2 ↔ j < 2 := by
      by_cases hi : i < 2 <;> by_cases hj : j < 2 <;> simp [hi, hj] at counts ⊢
    rw [entriesAt, entriesAt, worldAfter_registryChain, worldAfter_registryChain]
    simp only [sides]
  · intro b hb w hw name value _ op
    simp only [registryChain, mem_cons, not_mem_nil, or_false] at hb
    obtain rfl | rfl := hb
    · cases hw
    · obtain ⟨e, read, -⟩ := Option.map_eq_some_iff.mp (liveDescriptor_sample name value)
      simp [read]
  · intro h _ v hv
    rw [infos] at hv
    split at hv
    · cases hv
    · rw [mem_singleton.mp hv]
      exact register_ofPrivateKey (symbolicIdeal 48) _ length_replicate
  · intro h _ touched empty
    have count := size h
    rw [empty] at count
    have early : h < 2 := by
      by_contra late
      simp [late] at count
    interval_cases h <;>
      simp [registryChain, touchesRegistry, sealedGenesis, genesisBlock] at touched

end GlassChain
