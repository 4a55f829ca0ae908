import GlassChain.Core.Authorization

/-!
# Policies in force for a scope

The latest update of the exact scope decides, else the latest channel-wide one. A later update
replaces the whole of what it decides: the defaults of its scope, and the key policies it does not
repeat. The rule against changing the policy of a key that the same block writes looks only for keys
that the update lists under the scope of the write.
-/

namespace GlassChain

open Library List ScopedPolicies Option

namespace PolicyHistory

variable {h h' : PolicyHistory} {b : Block} {channel contract key : String}

lemma apply_eq_ok {update : PolicyUpdate} :
    h.apply update = (h', .ok ()) ↔ check update = .ok () ∧ h' = ⟨h.updates ++ [update]⟩ := by
  unfold apply
  cases check update <;> simp [eq_comm]

lemma run_apply_eq_ok {updates : List PolicyUpdate} :
    runInPlace apply h updates = (h', .ok ()) ↔
      (∀ u ∈ updates, check u = .ok ()) ∧ h' = ⟨h.updates ++ updates⟩ := by
  have grown : updates.foldl (fun h u => ⟨h.updates ++ [u]⟩) h = ⟨h.updates ++ updates⟩ := by
    induction updates generalizing h with
    | nil => simp
    | cons u updates ih => simp [ih]
  have spec (h : PolicyHistory) (u : PolicyUpdate) (h' : PolicyHistory) : h.apply u = (h', .ok ()) ↔
      check u = .ok () ∧ h' = ⟨h.updates ++ [u]⟩ := apply_eq_ok
  rw [runInPlace_eq_ok_iff spec, grown]

lemma mem_pendingUpdates {u : PolicyUpdate} :
    u ∈ pendingUpdates b ↔ ∃ tx ∈ b.transactions, tx.kind = .policyUpdate u := by
  simp only [pendingUpdates, mem_filterMap]
  refine exists_congr fun tx => and_congr_right fun _ => ?_
  cases kind : tx.kind <;> simp

/-- No key policy listed by an update of the block is for a key the block writes. -/
def Separate (b : Block) : Prop := ∀ k ∈ writtenKeys b, k ∉ changedKeys b

/-- A block is replayed exactly when it keeps the same-block rule and its updates pass. -/
theorem validateBlock_eq_ok : h.validateBlock b = (h', .ok ()) ↔
    Separate b ∧ (∀ u ∈ pendingUpdates b, check u = .ok ()) ∧
      h' = ⟨h.updates ++ pendingUpdates b⟩ := by
  unfold validateBlock Separate
  split
  · rename_i found
    have both := find?_some found
    have written := mem_of_find?_eq_some found
    simp only [contains_iff_mem] at both
    simp only [Prod.mk.injEq, reduceCtorEq, and_false, false_iff]
    exact fun ⟨separate, _⟩ => separate _ written both
  · rename_i clear
    rw [find?_eq_none] at clear
    simp only [contains_iff_mem] at clear
    rw [run_apply_eq_ok]
    exact (and_iff_right clear).symm

lemma validateBlock_snd_eq_ok : (h.validateBlock b).2 = .ok () ↔
    Separate b ∧ ∀ u ∈ pendingUpdates b, check u = .ok () := by
  constructor
  · intro ok
    obtain ⟨separate, checked, -⟩ := validateBlock_eq_ok.mp (Prod.ext rfl ok)
    exact ⟨separate, checked⟩
  · rintro ⟨separate, checked⟩
    rw [validateBlock_eq_ok.mpr ⟨separate, checked, rfl⟩]

lemma buildFromBlocks_eq_ok {blocks : List Block} :
    buildFromBlocks blocks = .ok h ↔ runInPlace validateBlock ⟨[]⟩ blocks = (h, .ok ()) := by
  unfold buildFromBlocks
  rcases runInPlace validateBlock ⟨[]⟩ blocks with ⟨g, _ | ⟨⟩⟩ <;> simp

def latest (h : PolicyHistory) (channel contract : String) : Option PolicyUpdate :=
  h.updates.reverse.find? fun u => u.channel == channel && u.contract == contract

lemma policiesFor_eq : h.policiesFor channel contract =
    (((h.latest channel contract).or (h.latest channel "")).map PolicyUpdate.policies).getD
      defaultPolicies := rfl

lemma latest_append (later : List PolicyUpdate) :
    latest ⟨h.updates ++ later⟩ channel contract =
      (latest ⟨later⟩ channel contract).or (h.latest channel contract) := by
  simp [latest, find?_append]

lemma latest_eq_some {u : PolicyUpdate} (found : h.latest channel contract = some u) :
    u ∈ h.updates ∧ u.channel = channel ∧ u.contract = contract := by
  have scope := find?_some found
  have member := mem_of_find?_eq_some found
  simp only [Bool.and_eq_true, beq_iff_eq] at scope
  exact ⟨mem_reverse.mp member, scope⟩

/-- The update of a block that decides a scope from then on: one for the exact scope, or a
channel-wide one where the scope has none of its own. -/
def deciding (h : PolicyHistory) (b : Block) (channel contract : String) : Option PolicyUpdate :=
  (latest ⟨pendingUpdates b⟩ channel contract).or
    (if (h.latest channel contract).isSome then none else latest ⟨pendingUpdates b⟩ channel "")

lemma mem_of_deciding {u : PolicyUpdate} (decided : h.deciding b channel contract = some u) :
    u ∈ pendingUpdates b ∧ u.channel = channel := by
  obtain own | ⟨-, wide⟩ := or_eq_some_iff.mp decided
  · exact (latest_eq_some own).imp_right And.left
  · split at wide
    · cases wide
    · exact (latest_eq_some wide).imp_right And.left

lemma policiesFor_append : policiesFor ⟨h.updates ++ pendingUpdates b⟩ channel contract =
    ((h.deciding b channel contract).map PolicyUpdate.policies).getD
      (h.policiesFor channel contract) := by
  simp only [policiesFor_eq, latest_append, deciding]
  cases latest ⟨pendingUpdates b⟩ channel contract with
  | some own => rfl
  | none =>
    cases h.latest channel contract with
    | some old => rfl
    | none => cases latest ⟨pendingUpdates b⟩ channel "" <;> simp

def effective (h : PolicyHistory) (channel contract key : String) : List PolicyExpression :=
  (h.policiesFor channel contract).applicable ⟨channel, contract, [key], none⟩

lemma applicable_of_unlisted {p : ScopedPolicies} (unlisted : ∀ e ∈ p.keyPolicies, e.1 ≠ key) :
    p.applicable ⟨channel, contract, [key], none⟩ = p.scopeLayers := by
  have none : lookup key p.keyPolicies = none := by
    rw [lookup, map_eq_none_iff, find?_eq_none]
    simpa using unlisted
  simp [applicable, scopeLayers, none]

/-- An accepted block lists no key policy for a key it writes, in an update of the same scope. -/
theorem unlisted_of_separate (separate : Separate b) {w : PersistentWrite} (write : w ∈ b.writeSet)
    {u : PolicyUpdate} (pending : u ∈ pendingUpdates b) (channel : u.channel = w.channel)
    (contract : u.contract = w.contract) : ∀ e ∈ u.policies.keyPolicies, e.1 ≠ w.key := by
  intro e listed same
  have written : (w.channel, w.contract, w.key) ∈ writtenKeys b :=
    mem_append_left _ (mem_map_of_mem write)
  refine separate _ written (mem_flatMap.mpr ⟨u, pending, mem_map.mpr ⟨e, listed, ?_⟩⟩)
  rw [channel, contract, same]

/-- What the update puts in force for a key that an accepted block writes: the key policies of a
channel-wide update may reach it, those of the exact scope never list it. -/
def Imposed (u : PolicyUpdate) (w : PersistentWrite) : List PolicyExpression :=
  if u.contract = w.contract then u.policies.scopeLayers
  else u.policies.applicable ⟨w.channel, w.contract, [w.key], none⟩

/-- The policies of the keys an accepted block writes are the same after it exactly when each update
that takes over the scope of a write imposes what was in force. -/
theorem written_policies_kept_iff (h h' : PolicyHistory) (b : Block)
    (accepted : h.validateBlock b = (h', .ok ())) :
    (∀ w ∈ b.writeSet, h'.effective w.channel w.contract w.key =
      h.effective w.channel w.contract w.key) ↔
    ∀ w ∈ b.writeSet, ∀ u, h.deciding b w.channel w.contract = some u →
      Imposed u w = h.effective w.channel w.contract w.key := by
  obtain ⟨separate, -, rfl⟩ := validateBlock_eq_ok.mp accepted
  refine forall₂_congr fun w write => ?_
  rw [effective, policiesFor_append]
  cases decided : h.deciding b w.channel w.contract with
  | none => simp [effective]
  | some u =>
    have imposed : u.policies.applicable ⟨w.channel, w.contract, [w.key], none⟩ = Imposed u w := by
      unfold Imposed
      split
      · rename_i own
        obtain ⟨pending, channel⟩ := mem_of_deciding decided
        exact applicable_of_unlisted (unlisted_of_separate separate write pending channel own)
      · rfl
    simp [imposed]

/-- A block that replaces the policies of `(supply, inventory)` and writes a key there. -/
def replacing (X : Externals) (policies : ScopedPolicies) : Block :=
  Block.withWriteSet X 0 1 [⟨"policies", 0, .policyUpdate ⟨"supply", "inventory", policies⟩, []⟩]
    "0" [⟨"supply", "inventory", "level", .set [1], .pub⟩]

/-- The owner decides in `(supply, inventory)`, an auditor too for the key. -/
def audited : ScopedPolicies :=
  { soleOwner "owner" with keyPolicies := [("level", .signedBy ⟨"auditor"⟩)] }

/-- An update that restates what is in force. -/
theorem written_policies_restated :
    let h : PolicyHistory := ⟨[⟨"supply", "inventory", soleOwner "owner"⟩]⟩
    let b := replacing (.plain 0) (soleOwner "owner")
    ∃ h', h.validateBlock b = (h', .ok ()) ∧ ∀ w ∈ b.writeSet,
      h'.effective w.channel w.contract w.key = h.effective w.channel w.contract w.key := by
  intro h b
  have accepted : h.validateBlock b = (⟨h.updates ++ pendingUpdates b⟩, .ok ()) := rfl
  refine ⟨_, accepted, (written_policies_kept_iff h _ b accepted).mpr ?_⟩
  intro w write u decided
  obtain rfl := mem_singleton.mp write
  obtain rfl : (⟨"supply", "inventory", soleOwner "owner"⟩ : PolicyUpdate) = u :=
    Option.some.inj decided
  rfl

/-- The block drops the auditor's policy for the key it writes: the update does not list the key. -/
theorem written_policy_dropped :
    let h : PolicyHistory := ⟨[⟨"supply", "inventory", audited⟩]⟩
    let b := replacing (.plain 0) (soleOwner "owner")
    h.Valid ∧ ∃ h', h.validateBlock b = (h', .ok ()) ∧ ∃ w ∈ b.writeSet,
      h.effective w.channel w.contract w.key = [.signedBy ⟨"owner"⟩, .signedBy ⟨"auditor"⟩] ∧
      h'.effective w.channel w.contract w.key = [.signedBy ⟨"owner"⟩] := by
  refine ⟨?_, _, rfl, _, mem_singleton_self _, rfl, rfl⟩
  intro u member
  rw [mem_singleton.mp member]
  rfl

/-- Whoever satisfies the policies of a contract satisfies the channel-wide default, for every
target, exactly when the contract has no update of its own or the layers of that update demand as
much. -/
theorem base_entailed_iff (h : PolicyHistory) (channel contract : String) (base : PolicyUpdate)
    (wide : h.latest channel "" = some base) :
    (∀ (target : ScopedTarget) (P : Finset Principal),
      (∀ policy ∈ (h.policiesFor channel contract).applicable target, policy.evaluate P = true) →
        base.policies.channelDefault.evaluate P = true) ↔
    ∀ own, h.latest channel contract = some own → ∀ P : Finset Principal,
      (∀ policy ∈ own.policies.scopeLayers, policy.evaluate P = true) →
        base.policies.channelDefault.evaluate P = true := by
  rw [policiesFor_eq, wide]
  cases decided : h.latest channel contract with
  | none =>
    have first (target : ScopedTarget) :
        base.policies.channelDefault ∈ base.policies.applicable target :=
      base.policies.scopeLayers_subset target mem_cons_self
    constructor
    · rintro - own ⟨⟩
    · intro _ target P satisfied
      exact satisfied _ (first target)
  | some own =>
    simp only [some_or, map_some, getD_some, some.injEq, forall_eq']
    constructor
    · -- A target without keys and without a collection asks for the layers of the scope alone.
      intro entailed P satisfied
      refine entailed ⟨channel, contract, [], none⟩ P fun policy applies => satisfied policy ?_
      simpa [applicable, scopeLayers] using applies
    · intro demanded target P satisfied
      exact demanded P fun policy layer =>
        satisfied policy (own.policies.scopeLayers_subset target layer)

/-- A contract that adds its vendor to the channel's governance. -/
theorem base_entailed_layered :
    let governed : PolicyUpdate := ⟨"supply", "", soleOwner "governance"⟩
    let layered : ScopedPolicies := { soleOwner "governance" with
      contractDefault := some (.signedBy ⟨"vendor"⟩) }
    let h : PolicyHistory := ⟨[governed, ⟨"supply", "inventory", layered⟩]⟩
    h.latest "supply" "" = some governed ∧ ∀ (target : ScopedTarget) (P : Finset Principal),
      (∀ policy ∈ (h.policiesFor "supply" "inventory").applicable target,
        policy.evaluate P = true) →
      (PolicyExpression.signedBy ⟨"governance"⟩).evaluate P = true := by
  intro governed layered h
  have wide : h.latest "supply" "" = some governed := rfl
  refine ⟨wide, (base_entailed_iff h "supply" "inventory" governed wide).mpr ?_⟩
  intro own decided P satisfied
  obtain rfl : (⟨"supply", "inventory", layered⟩ : PolicyUpdate) = own := Option.some.inj decided
  exact satisfied _ mem_cons_self

/-- A contract's own update replaces the channel's governance: the vendor alone satisfies all that
applies there. -/
theorem base_replaced :
    let governed : PolicyUpdate := ⟨"supply", "", soleOwner "governance"⟩
    let h : PolicyHistory := ⟨[governed, ⟨"supply", "inventory", soleOwner "vendor"⟩]⟩
    let target : ScopedTarget := ⟨"supply", "inventory", ["level"], none⟩
    h.Valid ∧ h.latest "supply" "" = some governed ∧
    (∀ policy ∈ (h.policiesFor "supply" "inventory").applicable target,
      policy.evaluate {⟨"vendor"⟩} = true) ∧
    governed.policies.channelDefault.evaluate {⟨"vendor"⟩} = false := by
  intro governed h target
  have applies : (h.policiesFor "supply" "inventory").applicable target = [.signedBy ⟨"vendor"⟩] :=
    rfl
  refine ⟨?_, rfl, ?_, by decide⟩
  · intro u member
    simp only [h, mem_cons, not_mem_nil, or_false] at member
    obtain rfl | rfl := member <;> rfl
  · rw [applies]
    simp [PolicyExpression.evaluate]

end PolicyHistory

end GlassChain
