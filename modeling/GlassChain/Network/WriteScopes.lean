import GlassChain.Library.Joined
import GlassChain.Network.Registry

/-!
# Scopes and state keys

A persistent write is stored under `ws:channel:contract:key`. Nothing escapes the separator, so the
text of one scope can begin with that of another, and then a key of the shorter one reaches into the
longer. Scopes of which neither begins with the other are isolated, the validator registry included.
-/

namespace GlassChain

open Library List PersistentWrite

namespace PersistentWrite

/-- What `canonicalize` asks of one write. -/
structure Named (w : PersistentWrite) : Prop where
  channel : w.channel ≠ ""
  contract : w.contract ≠ ""
  key : w.key ≠ ""
  visibility : w.visibility ≠ .pdc ""

/-- The checks pass if every write is named and no scope occurs twice. -/
theorem checkScopes_eq_ok {seen : List (String × String × String)} {writes : List PersistentWrite} :
    checkScopes seen writes = .ok () ↔ (∀ w ∈ writes, w.Named) ∧ (writes.map scope).Nodup ∧
      ∀ w ∈ writes, w.scope ∉ seen := by
  induction writes generalizing seen with
  | nil => simp [checkScopes]
  | cons w rest ih =>
    simp only [checkScopes, bind_eq_ok, require_eq_ok, Unique.exists_iff, ih, decide_eq_true_eq,
      map_cons, nodup_cons]
    constructor
    · rintro ⟨channel, contract, key, visibility, new, named, distinct, fresh⟩
      refine ⟨forall_mem_cons.mpr ⟨⟨channel, contract, key, visibility⟩, named⟩,
        ⟨?_, distinct⟩, forall_mem_cons.mpr ⟨by simpa using new, ?_⟩⟩
      · intro again
        obtain ⟨v, member, same⟩ := mem_map.mp again
        exact fresh v member (mem_cons.mpr (.inl same))
      · intro v member old
        exact fresh v member (mem_cons_of_mem _ old)
    · rintro ⟨named, ⟨first, distinct⟩, fresh⟩
      obtain ⟨⟨channel, contract, key, visibility⟩, named⟩ := forall_mem_cons.mp named
      obtain ⟨new, fresh⟩ := forall_mem_cons.mp fresh
      refine ⟨channel, contract, key, visibility, by simpa using new, named, distinct, ?_⟩
      intro v member again
      obtain same | old := mem_cons.mp again
      · exact first (same ▸ mem_map_of_mem member)
      · exact fresh v member old

lemma canonicalize_eq_ok {writes sorted : List PersistentWrite} :
    canonicalize writes = .ok sorted ↔
      ((∀ w ∈ writes, w.Named) ∧ (writes.map scope).Nodup) ∧ writes.mergeSort scopeLe = sorted := by
  have passes : checkScopes [] writes = .ok () ↔
      (∀ w ∈ writes, w.Named) ∧ (writes.map scope).Nodup := by simp [checkScopes_eq_ok]
  simp only [canonicalize, bind_eq_ok, Unique.exists_iff, pure, Except.pure, Except.ok.injEq]
  exact and_congr_left' passes

lemma canonicalize_singleton {w : PersistentWrite} : canonicalize [w] = .ok [w] ↔ w.Named := by
  simp [canonicalize_eq_ok]

lemma toList_stateKey (w : PersistentWrite) :
    w.stateKey.toList = "ws:".toList ++
      (w.channel.toList ++ ':' :: (w.contract.toList ++ ':' :: w.key.toList)) := by
  simp [stateKey, toString, String.toList_append]

end PersistentWrite

/-- Where a write goes: a channel and a contract. -/
structure WriteScope where
  channel : String
  contract : String
  channel_named : channel ≠ ""
  contract_named : contract ≠ ""

namespace WriteScope

def text (s : WriteScope) : List Char := s.channel.toList ++ ':' :: (s.contract.toList ++ [':'])

/-- The write is one that `canonicalize` passes, in this scope. -/
structure Holds (s : WriteScope) (w : PersistentWrite) : Prop where
  channel : w.channel = s.channel
  contract : w.contract = s.contract
  canonical : PersistentWrite.canonicalize [w] = .ok [w]

def Separate (a b : WriteScope) : Prop := a = b ∨ ¬a.text <+: b.text ∧ ¬b.text <+: a.text

def registry : WriteScope := ⟨"governance", "validator-registry", by decide, by decide⟩

variable {a b s : WriteScope} {w w' : PersistentWrite}

lemma Holds.toList_stateKey (h : s.Holds w) :
    w.stateKey.toList = "ws:".toList ++ (s.text ++ w.key.toList) := by
  rw [PersistentWrite.toList_stateKey, h.channel, h.contract]
  simp [text]

lemma Holds.eq_of_scope (h : a.Holds w) (h' : b.Holds w') (same : w.scope = w'.scope) : a = b := by
  obtain ⟨channel, contract, _, _⟩ := a
  obtain ⟨channel', contract', _, _⟩ := b
  simp only [PersistentWrite.scope, Prod.mk.injEq, h.channel, h.contract, h'.channel,
    h'.contract] at same
  obtain ⟨rfl, rfl, -⟩ := same
  rfl

lemma toList_registryPrefix : registryPrefix.toList = "ws:".toList ++ registry.text := by
  decide

/-- Where one text begins with another, a key of the shorter scope reaches every key of the
longer. -/
theorem exists_collision (differ : a ≠ b) (front : a.text <+: b.text) :
    ∃ w w', a.Holds w ∧ b.Holds w' ∧ w.scope ≠ w'.scope ∧ w.stateKey = w'.stateKey := by
  obtain ⟨rest, split⟩ := front
  let w : PersistentWrite := ⟨a.channel, a.contract, String.ofList (rest ++ ['k']), .delete, .pub⟩
  let w' : PersistentWrite := ⟨b.channel, b.contract, "k", .delete, .pub⟩
  have named : w.key ≠ "" := by
    intro empty
    have := congrArg String.toList empty
    simp [w] at this
  have holds : a.Holds w := ⟨rfl, rfl, canonicalize_singleton.mpr
    ⟨a.channel_named, a.contract_named, named, by simp [w]⟩⟩
  have holds' : b.Holds w' := ⟨rfl, rfl, canonicalize_singleton.mpr
    ⟨b.channel_named, b.contract_named, by simp [w'], by simp [w']⟩⟩
  refine ⟨w, w', holds, holds', fun same => differ (holds.eq_of_scope holds' same), ?_⟩
  rw [← String.toList_inj, holds.toList_stateKey, holds'.toList_stateKey, ← split]
  simp [w, w']

lemma Separate.stateKey_ne (separate : a.Separate b) (h : a.Holds w) (h' : b.Holds w')
    (differ : w.scope ≠ w'.scope) : w.stateKey ≠ w'.stateKey := by
  intro same
  have texts : a.text ++ w.key.toList = b.text ++ w'.key.toList := by
    have := congrArg String.toList same
    rw [h.toList_stateKey, h'.toList_stateKey] at this
    exact append_cancel_left this
  obtain rfl | ⟨front, back⟩ := separate
  · have keys : w.key = w'.key := String.toList_inj.mp (append_cancel_left texts)
    refine differ ?_
    simp only [PersistentWrite.scope, h.channel, h.contract, h'.channel, h'.contract, keys]
  · obtain one | other := prefix_or_prefix_of_prefix (prefix_append a.text w.key.toList)
      (texts ▸ prefix_append b.text w'.key.toList)
    · exact front one
    · exact back other

/-- A write outside the registry, in a scope separate from it, is not seen by the validator set. -/
theorem Separate.registryEntries (separate : a.Separate registry) (differ : a ≠ registry)
    (h : a.Holds w) (X : Externals) (world : WorldState) :
    GlassChain.registryEntries X (applyToCache world w) =
      GlassChain.registryEntries X world := by
  obtain ⟨front, back⟩ := separate.resolve_left differ
  have outside (name : String) : registryPrefix ++ name ≠ w.stateKey := by
    intro same
    have texts : registry.text ++ name.toList = a.text ++ w.key.toList := by
      have := congrArg String.toList same
      rw [String.toList_append, toList_registryPrefix, h.toList_stateKey, append_assoc] at this
      exact append_cancel_left this
    obtain one | other := prefix_or_prefix_of_prefix
      (prefix_append a.text w.key.toList) (texts ▸ prefix_append registry.text name.toList)
    · exact front one
    · exact back other
  exact registryEntries_congr X fun name => lookup_applyToCache_of_ne (outside name)

/-- Two scopes are isolated (no write of one addresses a key of the other, and if the other is the
registry, no write of the first is seen by the validator set) exactly when they are separate. -/
theorem scopes_isolated_iff (X : Externals) (a b : WriteScope) :
    ((∀ w w', a.Holds w → b.Holds w' → w.scope ≠ w'.scope → w.stateKey ≠ w'.stateKey) ∧
      (b = registry → a ≠ registry → ∀ w, a.Holds w → ∀ world,
        GlassChain.registryEntries X (applyToCache world w) =
          GlassChain.registryEntries X world)) ↔ a.Separate b := by
  constructor
  · rintro ⟨isolated, -⟩
    by_contra mixed
    simp only [Separate, not_or, not_and_or, not_not] at mixed
    obtain ⟨differ, front | back⟩ := mixed
    · obtain ⟨w, w', h, h', scopes, same⟩ := exists_collision differ front
      exact isolated w w' h h' scopes same
    · obtain ⟨w', w, h', h, scopes, same⟩ := exists_collision (Ne.symm differ) back
      exact isolated w w' h h' (Ne.symm scopes) same.symm
  · intro separate
    refine ⟨fun w w' h h' differ => separate.stateKey_ne h h' differ, ?_⟩
    rintro rfl differ w h world
    exact separate.registryEntries differ h X world

/-- A separator in a name: two scopes share a key, and a write to the channel
`governance:validator-registry` registers a validator. -/
theorem scopes_collide :
    let w : PersistentWrite := ⟨"a:b", "c", "k", .delete, .pub⟩
    let w' : PersistentWrite := ⟨"a", "b:c", "k", .delete, .pub⟩
    let r : PersistentWrite := ⟨"governance:validator-registry", "x", "y", .set [], .pub⟩
    (∀ v ∈ [w, w', r], canonicalize [v] = .ok [v]) ∧ w.scope ≠ w'.scope ∧
      w.stateKey = w'.stateKey ∧ r.channel ≠ "governance" ∧
      GlassChain.registryEntries descriptorExternals ∅ = [] ∧
      liveInfos descriptorExternals (applyToCache ∅ r) =
        [ValidatorInfo.ofPrivateKey (Multisig.symbolic 48) "x:y" (sampleKey 1)] := by
  refine ⟨?_, by decide, by decide, by decide, registryEntries_empty _,
    liveInfos_sample (by decide) rfl⟩
  intro v member
  refine canonicalize_singleton.mpr ?_
  simp only [mem_cons, not_mem_nil, or_false] at member
  obtain rfl | rfl | rfl := member <;> constructor <;> decide

end WriteScope

end GlassChain
