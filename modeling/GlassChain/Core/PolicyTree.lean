import GlassChain.Core.Authorization

/-!
# Policy expressions as threshold functions

What an expression means, apart from the way it is counted: some choice of as many sub-rules as each
visited node requires, with every chosen leaf among the signers. An expression that passes its own
check means that, and nothing but the principals it names decides it.
-/

namespace GlassChain

open Finset

namespace PolicyExpression

mutual

def principals : PolicyExpression → Finset Principal
  | .signedBy principal => {principal}
  | .nOutOf _ rules => principalsAll rules

def principalsAll : List PolicyExpression → Finset Principal
  | [] => ∅
  | rule :: rules => rule.principals ∪ principalsAll rules

end

mutual

/-- The leaves reached by one choice of as many sub-rules as each visited node requires. -/
inductive Choice : PolicyExpression → Finset Principal → Prop
  | leaf (principal : Principal) : Choice (.signedBy principal) {principal}
  | node {required : Nat} {rules : List PolicyExpression} {leaves : Finset Principal} :
    ChoiceAmong required rules leaves → Choice (.nOutOf required rules) leaves

/-- The leaves reached by choosing a number of the rules, each at most once. -/
inductive ChoiceAmong : Nat → List PolicyExpression → Finset Principal → Prop
  | nil : ChoiceAmong 0 [] ∅
  | skip {count : Nat} (rule : PolicyExpression) {rules : List PolicyExpression}
    {leaves : Finset Principal} :
    ChoiceAmong count rules leaves → ChoiceAmong count (rule :: rules) leaves
  | take {count : Nat} {rule : PolicyExpression} {rules : List PolicyExpression}
    {chosen leaves : Finset Principal} :
    Choice rule chosen → ChoiceAmong count rules leaves →
      ChoiceAmong (count + 1) (rule :: rules) (chosen ∪ leaves)

end

lemma choiceAmong_zero (rules : List PolicyExpression) : ChoiceAmong 0 rules ∅ := by
  induction rules with
  | nil => exact .nil
  | cons rule rules ih => exact .skip rule ih

variable {P Q leaves : Finset Principal} {required count : Nat} {rule : PolicyExpression}
  {rules : List PolicyExpression}

lemma choice_nOutOf : Choice (.nOutOf required rules) leaves ↔
    ChoiceAmong required rules leaves := by
  constructor
  · intro choice
    cases choice with
    | node among => exact among
  · exact .node

lemma choiceAmong_cons : ChoiceAmong count (rule :: rules) leaves ↔
    ChoiceAmong count rules leaves ∨ ∃ fewer chosen others, count = fewer + 1 ∧
      leaves = chosen ∪ others ∧ Choice rule chosen ∧ ChoiceAmong fewer rules others := by
  constructor
  · intro among
    cases among with
    | skip _ among => exact .inl among
    | take choice among => exact .inr ⟨_, _, _, rfl, rfl, choice, among⟩
  · rintro (among | ⟨fewer, chosen, others, rfl, rfl, choice, among⟩)
    · exact .skip rule among
    · exact .take choice among

lemma validate_nOutOf : (nOutOf required rules).validate = .ok () ↔
    rules ≠ [] ∧ 0 < required ∧ required ≤ rules.length ∧ validateAll rules = .ok () := by
  simp only [validate, seq_eq_ok, require_eq_ok]
  grind

lemma validateAll_cons : validateAll (rule :: rules) = .ok () ↔
    rule.validate = .ok () ∧ validateAll rules = .ok () := by
  rw [validateAll, seq_eq_ok]

lemma evaluate_nOutOf (valid : (nOutOf required rules).validate = .ok ()) :
    (nOutOf required rules).evaluate P = true ↔ required ≤ satisfiedCount P rules := by
  obtain ⟨some_rule, positive, -, -⟩ := validate_nOutOf.mp valid
  have guarded : ¬ (rules.isEmpty || required == 0) = true := by grind
  rw [evaluate, if_neg guarded, decide_eq_true_eq]

mutual

/-- An expression holds exactly when some choice has all its leaves among the signers. -/
theorem evaluate_iff_choice (P : Finset Principal) :
    (e : PolicyExpression) → e.validate = .ok () →
      (e.evaluate P = true ↔ ∃ leaves, Choice e leaves ∧ leaves ⊆ P)
  | .signedBy principal, _ => by
    simp only [evaluate, decide_eq_true_eq]
    constructor
    · intro signed
      exact ⟨_, .leaf principal, singleton_subset_iff.mpr signed⟩
    · rintro ⟨_, ⟨⟩, inside⟩
      exact singleton_subset_iff.mp inside
  | .nOutOf required rules, valid => by
    have all := (validate_nOutOf.mp valid).2.2.2
    simp only [evaluate_nOutOf valid, choice_nOutOf]
    exact le_satisfiedCount_iff_choice P rules all required

lemma le_satisfiedCount_iff_choice (P : Finset Principal) :
    (rules : List PolicyExpression) → validateAll rules = .ok () → (count : Nat) →
      (count ≤ satisfiedCount P rules ↔ ∃ leaves, ChoiceAmong count rules leaves ∧ leaves ⊆ P)
  | [], _, count => by
    simp only [satisfiedCount, Nat.le_zero]
    constructor
    · rintro rfl
      exact ⟨∅, .nil, empty_subset P⟩
    · rintro ⟨_, ⟨⟩, -⟩
      rfl
  | rule :: rules, valid, count => by
    obtain ⟨first, rest⟩ := validateAll_cons.mp valid
    have here := evaluate_iff_choice P rule first
    have later := le_satisfiedCount_iff_choice P rules rest
    simp only [satisfiedCount]
    constructor
    · intro enough
      -- The first rule is chosen when it holds and the choice still needs one.
      cases holds : rule.evaluate P with
      | false =>
        obtain ⟨leaves, among, inside⟩ := (later count).mp (by simpa [holds] using enough)
        exact ⟨leaves, .skip rule among, inside⟩
      | true =>
        cases count with
        | zero => exact ⟨∅, choiceAmong_zero _, empty_subset P⟩
        | succ fewer =>
          rw [holds, if_pos rfl] at enough
          obtain ⟨chosen, choice, signed⟩ := here.mp holds
          obtain ⟨leaves, among, inside⟩ := (later fewer).mp (by omega)
          exact ⟨chosen ∪ leaves, .take choice among, union_subset signed inside⟩
    · rintro ⟨leaves, among, inside⟩
      obtain among | ⟨fewer, chosen, others, rfl, rfl, choice, among⟩ := choiceAmong_cons.mp among
      · have := (later count).mpr ⟨leaves, among, inside⟩
        omega
      · have holds := here.mpr ⟨chosen, choice, union_subset_left inside⟩
        have := (later fewer).mpr ⟨others, among, union_subset_right inside⟩
        rw [holds, if_pos rfl]
        omega

end

mutual

lemma evaluate_congr : (e : PolicyExpression) → (∀ p ∈ e.principals, p ∈ P ↔ p ∈ Q) →
    e.evaluate P = e.evaluate Q
  | .signedBy principal, same => by
    have one := same principal (mem_singleton_self principal)
    simp only [evaluate, one]
  | .nOutOf required rules, same => by
    simp only [evaluate, satisfiedCount_congr rules same]

lemma satisfiedCount_congr :
    (rules : List PolicyExpression) → (∀ p ∈ principalsAll rules, p ∈ P ↔ p ∈ Q) →
      satisfiedCount P rules = satisfiedCount Q rules
  | [], _ => rfl
  | rule :: rules, same => by
    have first := evaluate_congr rule fun p named => same p (mem_union_left _ named)
    have rest := satisfiedCount_congr rules fun p named => same p (mem_union_right _ named)
    simp only [satisfiedCount, first, rest]

end

mutual

lemma evaluate_of_named : (e : PolicyExpression) → e.validate = .ok () → e.principals ⊆ P →
    e.evaluate P = true
  | .signedBy principal, _, named => by
    simpa [evaluate] using singleton_subset_iff.mp named
  | .nOutOf required rules, valid, named => by
    obtain ⟨-, -, bounded, all⟩ := validate_nOutOf.mp valid
    rw [evaluate_nOutOf valid, satisfiedCount_of_named rules all named]
    exact bounded

lemma satisfiedCount_of_named :
    (rules : List PolicyExpression) → validateAll rules = .ok () → principalsAll rules ⊆ P →
      satisfiedCount P rules = rules.length
  | [], _, _ => rfl
  | rule :: rules, valid, named => by
    obtain ⟨first, rest⟩ := validateAll_cons.mp valid
    have here := evaluate_of_named rule first (union_subset_left named)
    have later := satisfiedCount_of_named rules rest (union_subset_right named)
    simp only [satisfiedCount, here, later, if_true, List.length_cons]
    omega

end

/-- An expression that passes its check is a monotone threshold function of the principals it
names. -/
theorem evaluate_threshold_function (e : PolicyExpression) (valid : e.validate = .ok ()) :
    e.evaluate ∅ = false ∧
    e.evaluate e.principals = true ∧
    (∀ P Q, P ⊆ Q → e.evaluate P = true → e.evaluate Q = true) ∧
    (∀ P Q, P ∩ e.principals = Q ∩ e.principals → e.evaluate P = e.evaluate Q) ∧
    (∀ P, e.evaluate P = true ↔ ∃ leaves, Choice e leaves ∧ leaves ⊆ P) := by
  refine ⟨evaluate_empty e, evaluate_of_named e valid subset_rfl,
    fun P Q sub => evaluate_mono sub e, fun P Q same => ?_, fun P => evaluate_iff_choice P e valid⟩
  refine evaluate_congr e fun p named => ?_
  have := Finset.ext_iff.mp same p
  simpa [named] using this

def sampleTree : PolicyExpression :=
  .nOutOf 1 [.signedBy ⟨"carrier"⟩,
    .nOutOf 2 [.signedBy ⟨"a"⟩, .signedBy ⟨"b"⟩, .signedBy ⟨"c"⟩]]

theorem sampleTree_threshold :
    sampleTree.validate = .ok () ∧ sampleTree.evaluate ∅ = false ∧
    sampleTree.evaluate sampleTree.principals = true ∧
    ∃ leaves, Choice sampleTree leaves ∧ leaves ⊆ {⟨"a"⟩, ⟨"c"⟩} := by
  have valid : sampleTree.validate = .ok () := by decide
  obtain ⟨empty, named, -, -, choice⟩ := evaluate_threshold_function sampleTree valid
  exact ⟨valid, empty, named, (choice _).mp (by decide)⟩

end PolicyExpression

end GlassChain
