import GlassChain.Core.Endorsement

/-!
# Capabilities and their activation history

The active capability set at a height is the genesis set plus every activation declared at or below
it. `validateBlock` is the replay step: it checks a block's records under the set effective at the
block's height and folds the block's activations into the history *in place*, so a block that fails
half-way leaves the activations it had already reached.
-/

namespace GlassChain

structure CapabilityDescriptor where
  id : String
  version : Nat
  deriving DecidableEq, Repr

def stateCommitmentCapabilityId : String := "state_commitment"
def endorsementCapabilityId : String := "endorsement"
def pdcCapabilityId : String := "pdc"
def bftConsensusCapabilityId : String := "bft_consensus"

def capabilityV1 : List CapabilityDescriptor :=
  [⟨"canonical_schema_v1", 1⟩, ⟨stateCommitmentCapabilityId, 1⟩, ⟨pdcCapabilityId, 1⟩,
    ⟨"endorsement", 1⟩, ⟨bftConsensusCapabilityId, 1⟩]

def genesisCapabilities : List String := ["canonical_schema_v1", stateCommitmentCapabilityId]

def capabilityHash (X : Externals) (id : String) (version : Nat) : String :=
  X.sha256 (utf8 s!"{id}|v{version}")

def lookupCapability (id : String) : Option CapabilityDescriptor :=
  capabilityV1.find? fun c => c.id == id

/-- The active set: identifier, version and hash. -/
structure CapabilitySet where
  active : List (String × Nat × String)
  deriving DecidableEq, Repr

namespace CapabilitySet

/-- `BTreeMap::insert`; callers only ask for membership, so the order is immaterial. -/
def insert (s : CapabilitySet) (id : String) (version : Nat) (hash : String) : CapabilitySet :=
  ⟨(s.active.filter fun e => e.1 ≠ id) ++ [(id, version, hash)]⟩

def genesis (X : Externals) : CapabilitySet :=
  genesisCapabilities.foldl (fun s id => match lookupCapability id with
    | some d => s.insert id d.version (capabilityHash X id d.version)
    | none => s) ⟨[]⟩

def isActive (s : CapabilitySet) (id : String) : Bool := s.active.any fun e => e.1 == id

end CapabilitySet

structure CapabilityHistory where
  activations : List CapabilityActivation
  deriving DecidableEq, Repr

/-- `validate_record` plus the height-selected gate. -/
def validateRecordUnder (X : Externals) (set : CapabilitySet) (record : CanonicalRecord) :
    Except CoreError Unit := do
  validateRecord X record
  require (record.schemaId ≠ stateCommitmentCapabilityId ||
      set.isActive stateCommitmentCapabilityId) (.invalidTransaction
    ("canonical record state_commitment: capability 'state_commitment' " ++
      "is not active at this height"))

namespace CapabilityHistory

def effectiveSet (X : Externals) (h : CapabilityHistory) (height : Nat) : CapabilitySet :=
  h.activations.foldl (fun s a => if a.activationHeight ≤ height
    then s.insert a.capabilityId a.version a.hash else s) (.genesis X)

def activated (h : CapabilityHistory) (id : String) : Bool :=
  h.activations.any fun a => a.capabilityId == id

/-- The checks of one activation in block `containing`. -/
def check (X : Externals) (h : CapabilityHistory) (a : CapabilityActivation) (containing : Nat) :
    Except CoreError Unit :=
  match lookupCapability a.capabilityId with
  | none => .error (.invalidTransaction
      s!"capability activation: unknown capability '{a.capabilityId}'")
  | some d => do
    require (a.version == d.version) (.invalidTransaction
      s!"capability activation: '{a.capabilityId}' version {a.version} is not registered")
    require (a.hash == capabilityHash X a.capabilityId a.version) (.invalidTransaction
      s!"capability activation: hash mismatch for '{a.capabilityId}/v{a.version}'")
    require (containing < a.activationHeight) (.invalidTransaction
      (s!"capability activation: height {a.activationHeight} must be strictly future of its " ++
        s!"block {containing}"))
    require (!h.activated a.capabilityId) (.invalidTransaction
      s!"capability activation: '{a.capabilityId}' is already activated (append-only)")
    require (!a.signatures.isEmpty) (.invalidTransaction
      "capability activation: at least one governance signature is required")

def apply (X : Externals) (h : CapabilityHistory) (a : CapabilityActivation) (containing : Nat) :
    CapabilityHistory × Except CoreError Unit :=
  match h.check X a containing with
  | .ok () => (⟨h.activations ++ [a]⟩, .ok ())
  | .error e => (h, .error e)

def validateTransaction (X : Externals) (set : CapabilitySet) (height : Nat)
    (h : CapabilityHistory) (tx : Transaction) : CapabilityHistory × Except CoreError Unit :=
  match tx.kind with
  | .canonicalRecord record => (h, validateRecordUnder X set record)
  | .capabilityActivation a => h.apply X a height
  | _ => (h, .ok ())

/-- The replay step; the capability set is fixed for the whole block. -/
def validateBlock (X : Externals) (h : CapabilityHistory) (b : Block) :
    CapabilityHistory × Except CoreError Unit :=
  Library.runInPlace (validateTransaction X (h.effectiveSet X b.index) b.index) h b.transactions

def buildFromBlocks (X : Externals) (blocks : List Block) : Except CoreError CapabilityHistory :=
  match Library.runInPlace (validateBlock X) ⟨[]⟩ blocks with
  | (h, .ok ()) => .ok h
  | (_, .error e) => .error e

section Replay

variable {X : Externals} {set : CapabilitySet} {height : Nat} {h h' : CapabilityHistory}

lemma buildFromBlocks_eq_ok {blocks : List Block} :
    buildFromBlocks X blocks = .ok h ↔
      Library.runInPlace (validateBlock X) ⟨[]⟩ blocks = (h, .ok ()) := by
  unfold buildFromBlocks
  rcases Library.runInPlace (validateBlock X) ⟨[]⟩ blocks with ⟨g, _ | ⟨⟩⟩ <;> simp

lemma activated_of_check_ok {a : CapabilityActivation} {containing : Nat}
    (ok : h.check X a containing = .ok ()) : h.activated a.capabilityId = false := by
  unfold check at ok
  split at ok
  · cases ok
  · simp only [bind_eq_ok, require_eq_ok] at ok
    grind

lemma validateTransaction_cases (X : Externals) (set : CapabilitySet) (height : Nat)
    (h : CapabilityHistory) (tx : Transaction) :
    (validateTransaction X set height h tx).1 = h ∨
      ∃ a, tx.kind = .capabilityActivation a ∧ h.activated a.capabilityId = false ∧
        validateTransaction X set height h tx = (⟨h.activations ++ [a]⟩, .ok ()) := by
  unfold validateTransaction
  split
  · exact .inl rfl
  · next a hk =>
    rcases hc : h.check X a height with e | ⟨⟩
    · exact .inl (by simp [apply, hc])
    · exact .inr ⟨a, hk, activated_of_check_ok hc, by simp [apply, hc]⟩
  · exact .inl rfl

lemma activated_validateTransaction (X : Externals) (set : CapabilitySet) (height : Nat)
    {id : String} (tx : Transaction) (active : h.activated id = true) :
    (validateTransaction X set height h tx).1.activated id = true := by
  rcases validateTransaction_cases X set height h tx with same | ⟨a, -, -, grown⟩
  · rwa [same]
  · simp [grown, activated] at active ⊢
    exact .inl active

lemma run_fails_of_activated {id : String} {l : List Transaction}
    {a : CapabilityActivation} {tx : Transaction} (mem : tx ∈ l)
    (kind : tx.kind = .capabilityActivation a) (same : a.capabilityId = id)
    (active : h.activated id = true) :
    Library.runInPlace (validateTransaction X set height) h l ≠ (h', .ok ()) := by
  induction l generalizing h with
  | nil => simp at mem
  | cons x l ih =>
    intro ok
    obtain ⟨g, hx, hl⟩ := Library.runInPlace_cons_eq_ok.mp ok
    rcases List.mem_cons.mp mem with rfl | mem
    · have refused : h.check X a height ≠ .ok () := fun hc => by
        have fresh := activated_of_check_ok hc
        simp [same, active] at fresh
      simp only [validateTransaction, kind, apply] at hx
      split at hx <;> simp_all
    · refine ih mem ?_ hl
      have kept := activated_validateTransaction X set height x active
      rwa [hx] at kept

/-- A loop that succeeded left the history alone or appended an activation of its list. -/
theorem run_ok_cases {l : List Transaction}
    (ok : Library.runInPlace (validateTransaction X set height) h l = (h', .ok ())) :
    h' = h ∨ ∃ tx ∈ l, ∃ a, tx.kind = .capabilityActivation a ∧
      h'.activated a.capabilityId = true := by
  induction l generalizing h with
  | nil => exact .inl (by simpa using (Prod.mk.inj ok).1.symm)
  | cons x l ih =>
    obtain ⟨g, hx, hl⟩ := Library.runInPlace_cons_eq_ok.mp ok
    rcases ih hl with rfl | ⟨tx, mem, a, kind, active⟩
    · rcases validateTransaction_cases X set height h x with same | ⟨a, kind, -, grown⟩
      · exact .inl (by simpa [hx] using same)
      · refine .inr ⟨x, by simp, a, kind, ?_⟩
        rw [hx] at grown
        simp [(Prod.mk.inj grown).1, activated]
    · exact .inr ⟨tx, by simp [mem], a, kind, active⟩

/-- A block whose replay failed fails again from the history the failure left: either nothing was
written and the replay is the same one, or an activation of the block is now a repeat. -/
theorem validateBlock_retry_fails {b : Block} {e : CoreError}
    (failed : validateBlock X h b = (h', .error e)) (g : CapabilityHistory) :
    validateBlock X h' b ≠ (g, .ok ()) := by
  obtain ⟨l₁, tx, l₂, u, split, ran, stopped⟩ := Library.runInPlace_eq_error failed
  have left : h' = u := by
    rcases validateTransaction_cases X (h.effectiveSet X b.index) b.index u tx with same | grown
    · simpa [stopped] using same
    · obtain ⟨a, -, -, grown⟩ := grown
      simp [stopped] at grown
  subst left
  rcases run_ok_cases ran with rfl | ⟨tx', mem, a, kind, active⟩
  · simp [failed]
  · exact run_fails_of_activated (by rw [split]; simp [mem]) kind rfl active

lemma validateBlock_fst_of_no_activation {b : Block}
    (plain : ∀ tx ∈ b.transactions, ∀ a, tx.kind ≠ .capabilityActivation a) :
    (validateBlock X h b).1 = h := by
  unfold validateBlock
  generalize h.effectiveSet X b.index = set
  generalize b.transactions = l at plain
  induction l with
  | nil => rfl
  | cons x l ih =>
    have same : (validateTransaction X set b.index h x).1 = h := by
      rcases validateTransaction_cases X set b.index h x with same | ⟨a, kind, -, -⟩
      · exact same
      · exact absurd kind (plain x (by simp) a)
    rcases hx : validateTransaction X set b.index h x with ⟨g, _ | ⟨⟩⟩
    all_goals obtain rfl : g = h := by simpa [hx] using same
    · simp [Library.runInPlace_cons_error hx]
    · rw [Library.runInPlace_cons_ok hx]
      exact ih fun tx mem => plain tx (by simp [mem])

end Replay

end CapabilityHistory

end GlassChain
