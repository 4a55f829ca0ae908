import Mathlib

/-!
# Loops over a map

What a lookup finds after an insertion or an erasure. A loop that inserts pairs into an association
map, when a pair's value is determined by its key: then it does not matter in which order the pairs
come or whether some come twice. A loop that erases keys leaves no entry that was not there.
-/

namespace Library

open AList

variable {κ α : Type*} [DecidableEq κ]

variable {m : AList fun _ : κ => α} {key : κ} {value : α}

lemma lookup_insert_eq_some {k : κ} {v : α} :
    (m.insert k v).lookup key = some value ↔
      key = k ∧ v = value ∨ key ≠ k ∧ m.lookup key = some value := by
  by_cases same : key = k
  · subst same
    simp [lookup_insert]
  · simp [lookup_insert_ne same, same]

lemma lookup_erase_eq_some {k : κ} :
    (m.erase k).lookup key = some value ↔ key ≠ k ∧ m.lookup key = some value := by
  by_cases same : key = k
  · subst same
    simp [lookup_erase]
  · simp [lookup_erase_ne same, same]

lemma lookup_insert_congr {n : AList fun _ : κ => α} {k : κ} {v : α}
    (same : m.lookup key = n.lookup key) :
    (m.insert k v).lookup key = (n.insert k v).lookup key := by
  by_cases here : key = k
  · subst here
    rw [lookup_insert, lookup_insert]
  · rw [lookup_insert_ne here, lookup_insert_ne here, same]

lemma lookup_erase_congr {n : AList fun _ : κ => α} {k : κ} (same : m.lookup key = n.lookup key) :
    (m.erase k).lookup key = (n.erase k).lookup key := by
  by_cases here : key = k
  · subst here
    rw [lookup_erase, lookup_erase]
  · rw [lookup_erase_ne here, lookup_erase_ne here, same]

def fill (m : AList fun _ : κ => α) (pairs : List (κ × α)) : AList fun _ : κ => α :=
  pairs.foldl (fun m p => m.insert p.1 p.2) m

lemma lookup_fill_of_not_mem {pairs : List (κ × α)} (absent : ∀ value, (key, value) ∉ pairs) :
    (fill m pairs).lookup key = m.lookup key := by
  induction pairs generalizing m with
  | nil => rfl
  | cons p rest ih =>
    have other : key ≠ p.1 := by
      rintro rfl
      exact absent p.2 (by simp)
    have later := ih (m := m.insert p.1 p.2) fun value member => absent value (by simp [member])
    exact later.trans (lookup_insert_ne other)

/-- When the pairs are the graph of `f`, the map filled from them is `f`. -/
theorem lookup_fill {pairs : List (κ × α)} (f : κ → Option α) (key : κ)
    (graph : ∀ key value, (key, value) ∈ pairs ↔ f key = some value) :
    (fill ∅ pairs).lookup key = f key := by
  have settled (m : AList fun _ : κ => α) (pairs : List (κ × α)) (value : α)
      (agree : ∀ other, (key, other) ∈ pairs → other = value) (start : (key, value) ∈ pairs ∨
        m.lookup key = some value) : (fill m pairs).lookup key = some value := by
    induction pairs generalizing m with
    | nil => simpa [fill] using start
    | cons p rest ih =>
      apply ih (m.insert p.1 p.2) (fun other member => agree other (by simp [member]))
      by_cases here : p.1 = key
      · subst here
        right
        rw [lookup_insert, agree p.2 (by simp)]
      · rw [lookup_insert_ne (Ne.symm here)]
        refine start.imp_left fun member => ?_
        rcases List.mem_cons.mp member with rfl | later
        · exact absurd rfl here
        · exact later
  cases found : f key with
  | none =>
    rw [lookup_fill_of_not_mem]
    · exact lookup_empty key
    · intro value member
      rw [(graph key value).mp member] at found
      cases found
  | some value =>
    refine settled ∅ pairs value (fun other member => ?_) (.inl ((graph key value).mpr found))
    rw [(graph key other).mp member] at found
    exact Option.some.inj found

lemma lookup_fill_entries (m : AList fun _ : κ => α) (key : κ) :
    (fill ∅ (m.entries.map fun e => (e.1, e.2))).lookup key = m.lookup key := by
  refine lookup_fill m.lookup key fun k value => ?_
  rw [← Option.mem_def, mem_lookup_iff, List.mem_map]
  constructor
  · rintro ⟨⟨k', value'⟩, listed, same⟩
    cases same
    exact listed
  · intro listed
    exact ⟨_, listed, rfl⟩

lemma lookup_foldl_erase (m : AList fun _ : κ => α) (keys : List κ) (key : κ) :
    (keys.foldl (fun m k => m.erase k) m).lookup key = if key ∈ keys then none else m.lookup key := by
  induction keys generalizing m with
  | nil => simp
  | cons k rest ih =>
    rw [List.foldl_cons, ih]
    by_cases same : key = k
    · subst same
      simp [lookup_erase]
    · simp [lookup_erase_ne same, same]

lemma lookup_of_lookup_foldl_erase {keys : List κ}
    (found : (keys.foldl (fun m k => m.erase k) m).lookup key = some value) :
    m.lookup key = some value := by
  rw [lookup_foldl_erase] at found
  grind

end Library
