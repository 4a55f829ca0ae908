import Mathlib

/-!
# Loops over an ordered map

What a loop over the entries of a `Std.TreeMap` collects, read off the lookups: a loop that collects
nothing off one key collects what that key's entry gives, and two maps whose lookups give the same
collect the same, in the same order.
-/

namespace Library

open Std.TreeMap

variable {κ α β γ : Type*} [Ord κ] [Std.TransCmp (compare (α := κ))]
  [Std.LawfulEqCmp (compare (α := κ))]

lemma flatMap_off_key {m : Std.TreeMap κ α} {f : κ × α → List γ} (key : κ)
    (quiet : ∀ (k : κ) (a : α), m[k]? = some a → k ≠ key → f (k, a) = []) :
    m.toList.flatMap f = match m[key]? with
      | some a => f (key, a)
      | none => [] := by
  have quiet' (entry : κ × α) (member : entry ∈ m.toList) (other : entry.1 ≠ key) :
      f entry = [] :=
    quiet entry.1 entry.2 (mem_toList_iff_getElem?_eq_some.mp member) other
  cases found : m[key]? with
  | none =>
    rw [List.flatMap_eq_nil_iff]
    intro entry member
    apply quiet' entry member
    rintro rfl
    have present := mem_toList_iff_getElem?_eq_some.mp member
    rw [present] at found
    cases found
  | some a =>
    have member : (key, a) ∈ m.toList := mem_toList_iff_getElem?_eq_some.mpr found
    have distinct := distinct_keys_toList (t := m)
    obtain ⟨before, after, cut⟩ := List.append_of_mem member
    rw [cut] at distinct quiet'
    rw [List.pairwise_append] at distinct
    obtain ⟨-, tail, across⟩ := distinct
    have none_before : before.flatMap f = [] := by
      rw [List.flatMap_eq_nil_iff]
      intro entry earlier
      apply quiet' entry (by simp [earlier])
      rintro rfl
      exact across entry earlier (entry.1, a) (by simp) (by simp)
    have none_after : after.flatMap f = [] := by
      rw [List.flatMap_eq_nil_iff]
      intro entry later
      apply quiet' entry (by simp [later])
      rintro rfl
      exact (List.pairwise_cons.mp tail).1 entry later (by simp)
    rw [cut, List.flatMap_append, List.flatMap_cons, none_before, none_after]
    simp

lemma flatMap_eq_of_lookups {m : Std.TreeMap κ α} {n : Std.TreeMap κ β} {f : α → List γ}
    {g : β → List γ} (same : ∀ k : κ, (m[k]?).map f = (n[k]?).map g) :
    (m.toList.flatMap fun entry => f entry.2) = n.toList.flatMap fun entry => g entry.2 := by
  have equivalent : (m.map fun _ a => f a).Equiv (n.map fun _ b => g b) := by
    apply Equiv.of_forall_constGet?_eq
    intro k
    rw [getElem?_map, getElem?_map]
    exact same k
  have lists := equivalent.toList_eq
  rw [toList_map, toList_map] at lists
  simpa [List.flatMap_map] using congrArg (fun l => l.flatMap Prod.snd) lists

end Library
