import GlassChain.Core.LedgerRun

/-!
# Replaying capability activations

An activation takes effect at its declared height but is folded with the block that carries it. The
declared height lies above that block, so the blocks after a height never change the capability set
in force there, and what was in force stays in force.
-/

namespace GlassChain

open Library List

def activationsOf (txs : List Transaction) : List CapabilityActivation :=
  txs.filterMap fun tx => match tx.kind with
    | .capabilityActivation a => some a
    | _ => none

lemma mem_activationsOf {txs : List Transaction} {a : CapabilityActivation} :
    a ∈ activationsOf txs ↔ ∃ tx ∈ txs, tx.kind = .capabilityActivation a := by
  simp only [activationsOf, mem_filterMap]
  refine exists_congr fun tx => and_congr_right fun _ => ?_
  cases kind : tx.kind <;> simp

lemma activationsOf_append (txs txs' : List Transaction) :
    activationsOf (txs ++ txs') = activationsOf txs ++ activationsOf txs' :=
  filterMap_append

lemma activationsOf_activation {tx : Transaction} {a : CapabilityActivation}
    (kind : tx.kind = .capabilityActivation a) : activationsOf [tx] = [a] := by
  simp [activationsOf, kind]

lemma activationsOf_other {tx : Transaction}
    (other : ∀ a, tx.kind ≠ .capabilityActivation a) : activationsOf [tx] = [] := by
  refine eq_nil_iff_forall_not_mem.mpr fun a mem => ?_
  obtain ⟨_, only, kind⟩ := mem_activationsOf.mp mem
  exact other a (mem_singleton.mp only ▸ kind)

def CapabilityActivation.entry (a : CapabilityActivation) : String × Nat × String :=
  (a.capabilityId, a.version, a.hash)

def Registered (X : Externals) (e : String × Nat × String) : Prop :=
  ∃ d, lookupCapability e.1 = some d ∧ e.2.1 = d.version ∧ e.2.2 = capabilityHash X e.1 e.2.1

variable {e : String × Nat × String}

/-- The registry leaves no choice of version or hash. -/
theorem Registered.eq {X : Externals} {e' : String × Nat × String} (registered : Registered X e)
    (registered' : Registered X e') (same : e.1 = e'.1) : e = e' := by
  obtain ⟨d, found, version, hash⟩ := registered
  obtain ⟨d', found', version', hash'⟩ := registered'
  rw [same, found', Option.some.injEq] at found
  subst found
  have versions : e.2.1 = e'.2.1 := version.trans version'.symm
  refine Prod.ext same (Prod.ext versions ?_)
  rw [hash, hash', same, versions]

namespace CapabilityHistory

variable {X : Externals} {set : CapabilitySet} {height containing : Nat}
  {h h' : CapabilityHistory} {a : CapabilityActivation} {tx : Transaction}
  {txs : List Transaction} {blocks : List Block}

lemma check_eq_ok : h.check X a containing = .ok () ↔ Registered X a.entry ∧
    containing < a.activationHeight ∧ h.activated a.capabilityId = false ∧
    a.signatures.isEmpty = false := by
  unfold check Registered CapabilityActivation.entry
  cases lookupCapability a.capabilityId with
  | none => simp
  | some d =>
    simp only [seq_eq_ok, require_eq_ok]
    grind

/-- The checks of an activation read nothing of the history but whether it is a repeat. -/
theorem check_append {earlier : List CapabilityActivation} :
    (CapabilityHistory.mk (h.activations ++ earlier)).check X a containing = .ok () ↔
      h.check X a containing = .ok () ∧ a.capabilityId ∉ earlier.map (·.capabilityId) := by
  simp only [check_eq_ok, activated, any_append, Bool.or_eq_false_iff]
  grind

/-- The transaction passes alone, in front of the history `h`. -/
def Admits (X : Externals) (set : CapabilitySet) (height : Nat) (h : CapabilityHistory)
    (tx : Transaction) : Prop :=
  (validateTransaction X set height h tx).2 = .ok ()

lemma admits_activation (kind : tx.kind = .capabilityActivation a) :
    Admits X set height h tx ↔ h.check X a height = .ok () := by
  unfold Admits validateTransaction apply
  rw [kind]
  cases checked : h.check X a height <;> simp [checked]

lemma admits_other (other : ∀ a, tx.kind ≠ .capabilityActivation a) (h h' : CapabilityHistory) :
    Admits X set height h tx ↔ Admits X set height h' tx := by
  unfold Admits validateTransaction
  cases kind : tx.kind with
  | capabilityActivation a => exact absurd kind (other a)
  | _ => exact Iff.rfl

/-- Behind further activations a transaction still passes, unless it repeats one of them. -/
theorem admits_append {earlier : List CapabilityActivation} :
    Admits X set height ⟨h.activations ++ earlier⟩ tx ↔ Admits X set height h tx ∧
      ∀ a ∈ activationsOf [tx], a.capabilityId ∉ earlier.map (·.capabilityId) := by
  obtain ⟨a, kind⟩ | other := em (∃ a, tx.kind = .capabilityActivation a)
  · simp only [admits_activation kind, activationsOf_activation kind, check_append,
      mem_singleton, forall_eq]
  · rw [not_exists] at other
    rw [activationsOf_other other, admits_other other _ h]
    simp

lemma validateTransaction_eq_ok : validateTransaction X set height h tx = (h', .ok ()) ↔
    Admits X set height h tx ∧ h' = ⟨h.activations ++ activationsOf [tx]⟩ := by
  obtain ⟨a, kind⟩ | other := em (∃ a, tx.kind = .capabilityActivation a)
  · rw [admits_activation kind, activationsOf_activation kind]
    simp only [validateTransaction, kind, apply]
    cases h.check X a height <;> simp [eq_comm]
  · rw [not_exists] at other
    have same : (validateTransaction X set height h tx).1 = h := by
      obtain same | ⟨a, kind, -⟩ := validateTransaction_cases X set height h tx
      · exact same
      · exact absurd kind (other a)
    rw [activationsOf_other other, append_nil, Prod.ext_iff, same]
    constructor
    · rintro ⟨rfl, ok⟩
      exact ⟨ok, rfl⟩
    · rintro ⟨ok, rfl⟩
      exact ⟨rfl, ok⟩

lemma nodup_activationsOf_singleton (tx : Transaction) :
    ((activationsOf [tx]).map (·.capabilityId)).Nodup := by
  obtain ⟨a, kind⟩ | other := em (∃ a, tx.kind = .capabilityActivation a)
  · simp [activationsOf_activation kind]
  · rw [activationsOf_other (not_exists.mp other)]
    exact nodup_nil

/-- A list of transactions is replayed exactly when each passes alone and no capability is activated
twice in it. -/
theorem run_eq_ok : runInPlace (validateTransaction X set height) h txs = (h', .ok ()) ↔
    (∀ tx ∈ txs, Admits X set height h tx) ∧
      ((activationsOf txs).map (·.capabilityId)).Nodup ∧
      h' = ⟨h.activations ++ activationsOf txs⟩ := by
  induction txs generalizing h with
  | nil => simp [activationsOf, eq_comm]
  | cons tx txs ih =>
    have split : activationsOf (tx :: txs) = activationsOf [tx] ++ activationsOf txs :=
      activationsOf_append [tx] txs
    have alone := nodup_activationsOf_singleton tx
    rw [runInPlace_cons_eq_ok, split, map_append, nodup_append', ← append_assoc, forall_mem_cons]
    simp only [validateTransaction_eq_ok, ih]
    constructor
    · rintro ⟨_, ⟨first, rfl⟩, rest, once, rfl⟩
      refine ⟨⟨first, fun t mem => (admits_append.mp (rest t mem)).1⟩, ⟨alone, once, ?_⟩, rfl⟩
      intro id here later
      obtain ⟨a, activated, rfl⟩ := mem_map.mp later
      obtain ⟨t, mem, kind⟩ := mem_activationsOf.mp activated
      exact (admits_append.mp (rest t mem)).2 a (by simp [activationsOf_activation kind]) here
    · rintro ⟨⟨first, rest⟩, ⟨-, once, apart⟩, rfl⟩
      refine ⟨_, ⟨first, rfl⟩, fun t mem => admits_append.mpr ⟨rest t mem, ?_⟩, once, rfl⟩
      intro a activated here
      obtain ⟨_, only, kind⟩ := mem_activationsOf.mp activated
      cases mem_singleton.mp only
      exact apart here (mem_map_of_mem (mem_activationsOf.mpr ⟨t, mem, kind⟩))

/-- What replaying `blocks` leaves behind. -/
structure Replayed (X : Externals) (blocks : List Block) (h : CapabilityHistory) : Prop where
  all : h.activations = blocks.flatMap fun b => activationsOf b.transactions
  once : (h.activations.map (·.capabilityId)).Nodup
  future : ∀ b ∈ blocks, ∀ a ∈ activationsOf b.transactions, b.index < a.activationHeight
  registered : ∀ a ∈ h.activations, Registered X a.entry

lemma Replayed.nil : Replayed X [] ⟨[]⟩ where
  all := rfl
  once := nodup_nil
  future := by simp
  registered := by simp

lemma Replayed.step {b : Block} (replayed : Replayed X blocks h)
    (ok : validateBlock X h b = (h', .ok ())) : Replayed X (blocks ++ [b]) h' := by
  obtain ⟨admitted, once, rfl⟩ := run_eq_ok.mp ok
  have checked (a) (mem : a ∈ activationsOf b.transactions) : h.check X a b.index = .ok () := by
    obtain ⟨tx, inside, kind⟩ := mem_activationsOf.mp mem
    exact (admits_activation kind).mp (admitted tx inside)
  refine ⟨by simp [replayed.all], ?_, ?_, ?_⟩
  · rw [map_append, nodup_append']
    refine ⟨replayed.once, once, fun id before now => ?_⟩
    obtain ⟨a, mem, rfl⟩ := mem_map.mp now
    have fresh := (check_eq_ok.mp (checked a mem)).2.2.1
    simp only [activated, any_eq_false, beq_iff_eq] at fresh
    obtain ⟨a', mem', same⟩ := mem_map.mp before
    exact fresh a' mem' same
  · intro c inside a mem
    obtain inside | only := mem_append.mp inside
    · exact replayed.future c inside a mem
    · cases mem_singleton.mp only
      exact (check_eq_ok.mp (checked a mem)).2.1
  · intro a mem
    obtain before | now := mem_append.mp mem
    · exact replayed.registered a before
    · exact (check_eq_ok.mp (checked a now)).1

lemma replayed_of_buildFromBlocks (built : buildFromBlocks X blocks = .ok h) :
    Replayed X blocks h := by
  rw [buildFromBlocks_eq_ok] at built
  induction blocks using List.reverseRecOn generalizing h with
  | nil =>
    cases built
    exact .nil
  | append_singleton blocks b ih =>
    obtain ⟨g, before, last⟩ := runInPlace_concat_eq_ok.mp built
    exact (ih before).step last

lemma mem_insert {s : CapabilitySet} :
    e ∈ (s.insert a.capabilityId a.version a.hash).active ↔
      (e ∈ s.active ∧ e.1 ≠ a.capabilityId) ∨ e = a.entry := by
  simp [CapabilitySet.insert, CapabilityActivation.entry]

lemma registered_genesis (mem : e ∈ (CapabilitySet.genesis X).active) : Registered X e := by
  have both : (CapabilitySet.genesis X).active =
      genesisCapabilities.map fun id => (id, 1, capabilityHash X id 1) := rfl
  rw [both, genesisCapabilities] at mem
  simp only [map_cons, map_nil, mem_cons, not_mem_nil, or_false] at mem
  obtain rfl | rfl := mem
  · exact ⟨⟨"canonical_schema_v1", 1⟩, rfl, rfl, rfl⟩
  · exact ⟨⟨stateCommitmentCapabilityId, 1⟩, rfl, rfl, rfl⟩

/-- Among registered entries an activation adds its own and replaces none. -/
theorem mem_effectiveSet (registered : ∀ a ∈ h.activations, Registered X a.entry) :
    e ∈ (h.effectiveSet X height).active ↔
      e ∈ (CapabilitySet.genesis X).active ∨
        ∃ a ∈ h.activations, a.activationHeight ≤ height ∧ e = a.entry := by
  obtain ⟨activations⟩ := h
  induction activations using List.reverseRecOn with
  | nil => simp [effectiveSet]
  | append_singleton front a ih =>
    have earlier (x) (mem : x ∈ front) := registered x (mem_append_left _ mem)
    have mine := registered a (by simp)
    have before := ih earlier
    have last : effectiveSet X ⟨front ++ [a]⟩ height = if a.activationHeight ≤ height
        then (effectiveSet X ⟨front⟩ height).insert a.capabilityId a.version a.hash
        else effectiveSet X ⟨front⟩ height := by
      simp [effectiveSet]
    simp only [last, mem_append, mem_singleton]
    split
    · rename_i declared
      -- An earlier entry of the same capability is the entry of the activation itself.
      have kept (known : e ∈ (effectiveSet X ⟨front⟩ height).active) (same : e.1 = a.capabilityId) :
          e = a.entry := by
        obtain genesis | ⟨x, mem, -, rfl⟩ := before.mp known
        · exact (registered_genesis genesis).eq mine same
        · exact (earlier x mem).eq mine same
      rw [mem_insert]
      grind
    · grind

/-- Activations declared above the height do not count. -/
theorem effectiveSet_append {later : List CapabilityActivation}
    (above : ∀ a ∈ later, height < a.activationHeight) :
    effectiveSet X ⟨h.activations ++ later⟩ height = h.effectiveSet X height := by
  unfold effectiveSet
  rw [foldl_append]
  generalize h.activations.foldl _ _ = s
  induction later with
  | nil => rfl
  | cons a later ih =>
    obtain ⟨first, rest⟩ := forall_mem_cons.mp above
    rw [foldl_cons, if_neg (by omega)]
    exact ih rest

lemma Replayed.effectiveSet_mono (replayed : Replayed X blocks h) {m n : Nat} (le : m ≤ n) :
    (h.effectiveSet X m).active ⊆ (h.effectiveSet X n).active := by
  intro e mem
  rw [mem_effectiveSet replayed.registered] at mem ⊢
  obtain genesis | ⟨a, known, declared, rfl⟩ := mem
  · exact .inl genesis
  · exact .inr ⟨a, known, by omega, rfl⟩

/-- Blocks that lie at or above a height leave the set in force there alone. -/
theorem effectiveSet_of_front {front rest : List Block} {g : CapabilityHistory}
    (before : Replayed X front g) (whole : Replayed X (front ++ rest) h)
    (above : ∀ b ∈ rest, height ≤ b.index) : g.effectiveSet X height = h.effectiveSet X height := by
  have grown : h = ⟨g.activations ++ rest.flatMap fun b => activationsOf b.transactions⟩ := by
    rw [before.all, ← flatMap_append, ← whole.all]
  rw [grown, effectiveSet_append]
  intro a mem
  obtain ⟨b, inside, activated⟩ := mem_flatMap.mp mem
  have future := whole.future b (mem_append_right _ inside) a activated
  have := above b inside
  omega

/-- Replaying blocks with increasing indexes: each capability is activated once and above the block
that carries it, the effective set grows with the height, and the set at a height is settled by the
blocks below it. -/
theorem capability_replay_stable (X : Externals) (blocks : List Block) (h : CapabilityHistory)
    (built : buildFromBlocks X blocks = .ok h)
    (increasing : blocks.Pairwise fun b c => b.index < c.index) :
    h.activations = (blocks.flatMap fun b => activationsOf b.transactions) ∧
    (h.activations.map (·.capabilityId)).Nodup ∧
    (∀ b ∈ blocks, ∀ a ∈ activationsOf b.transactions, b.index < a.activationHeight) ∧
    (∀ m n, m ≤ n → (h.effectiveSet X m).active ⊆ (h.effectiveSet X n).active) ∧
    ∀ front rest, blocks = front ++ rest → ∃ g, buildFromBlocks X front = .ok g ∧
      (∀ last, front.getLast? = some last → ∀ height ≤ last.index + 1,
        g.effectiveSet X height = h.effectiveSet X height) ∧
      ∀ next, rest.head? = some next →
        g.effectiveSet X next.index = h.effectiveSet X next.index := by
  have whole := replayed_of_buildFromBlocks built
  refine ⟨whole.all, whole.once, whole.future, fun m n => whole.effectiveSet_mono, ?_⟩
  rintro front rest rfl
  obtain ⟨g, ran, -⟩ := runInPlace_append_eq_ok.mp (buildFromBlocks_eq_ok.mp built)
  have front_built := buildFromBlocks_eq_ok.mpr ran
  have before := replayed_of_buildFromBlocks front_built
  obtain ⟨-, ordered, apart⟩ := pairwise_append.mp increasing
  refine ⟨g, front_built, fun last isLast height low => ?_, fun next isNext => ?_⟩
  · refine effectiveSet_of_front before whole fun b inside => ?_
    have := apart last (mem_of_getLast? isLast) b inside
    omega
  · refine effectiveSet_of_front before whole fun b inside => ?_
    obtain ⟨tail, rfl⟩ := head?_eq_some_iff.mp isNext
    obtain rfl | later := mem_cons.mp inside
    · exact le_rfl
    · exact (rel_of_pairwise_cons ordered later).le

/-- The block at height 1 activates private collections at height 2; the set at height 1 is that of
the genesis block alone. -/
theorem capability_replay_sample :
    let X := Externals.plain 0
    let h : CapabilityHistory := ⟨[sampleActivation X pdcCapabilityId]⟩
    buildFromBlocks X [sealedGenesis X, activating X pdcCapabilityId] = .ok h ∧
    (h.effectiveSet X 1).active ⊆ (h.effectiveSet X 2).active ∧
    ∃ g, buildFromBlocks X [sealedGenesis X] = .ok g ∧ g.effectiveSet X 1 = h.effectiveSet X 1 := by
  intro X h
  have built : buildFromBlocks X [sealedGenesis X, activating X pdcCapabilityId] = .ok h := by
    have genesis : validateBlock X ⟨[]⟩ (sealedGenesis X) = (⟨[]⟩, .ok ()) := rfl
    rw [buildFromBlocks_eq_ok, runInPlace_cons_ok genesis]
    exact runInPlace_cons_eq_ok.mpr ⟨h, validateBlock_activating X rfl, rfl⟩
  obtain ⟨-, -, -, grows, stable⟩ := capability_replay_stable X _ h built (by simp [activating,
    sealedGenesis, genesisBlock, Block.after, Block.withWriteSet])
  obtain ⟨g, front, same, -⟩ := stable [sealedGenesis X] [activating X pdcCapabilityId] rfl
  exact ⟨built, grows 1 2 (by decide), g, front, same _ rfl 1 (by decide)⟩

end CapabilityHistory

end GlassChain
