import GlassChain.Vm.Wasm

/-!
# What operation gas bounds

Host functions charge for the values they read and write, with a flat cost for each call. Names are
not charged, a lookup that finds nothing is not charged, and a lookup is made before it is paid for.
So the limit bounds the entries a guest leaves, the bytes of their values and the lookups that find
something; it bounds all bytes where names are short.
-/

namespace GlassChain

open Library GasCounter List HostState GasCosts

def WriteOp.valueBytes : WriteOp → Nat
  | .set value => value.length
  | .delete => 0

namespace PersistentWrite

def nameBytes (w : PersistentWrite) : Nat :=
  (utf8 w.channel).length + (utf8 w.contract).length + (utf8 w.key).length +
    match w.visibility with
    | .pub => 0
    | .pdc name => (utf8 name).length

end PersistentWrite

structure OutputSize where
  names : Nat
  value : Nat
  deriving DecidableEq

namespace HostState

def outputs (h : HostState) : List OutputSize :=
  h.ephemeral.map (fun e => ⟨(utf8 e.1).length, e.2.length⟩) ++
    h.writes.map (fun w => ⟨w.nameBytes, w.op.valueBytes⟩)

def keptBytes (h : HostState) : Nat := (h.outputs.map fun o => o.names + o.value).sum

def outputCost (h : HostState) : Nat := (h.outputs.map fun o => 200 + 2 * o.value).sum

lemma keptBytes_le_outputCost {h : HostState}
    (short : ∀ o ∈ h.outputs, o.names ≤ defaultCosts.stateWrite + o.value) :
    h.keptBytes ≤ h.outputCost := by
  refine sum_le_sum fun o listed => ?_
  have := short o listed
  simp only [defaultCosts] at this
  omega

end HostState

namespace GasCounter

variable {g g' : GasCounter} {amount byteCount : Nat}

/-- Below the largest limit a charge that fits is a plain sum. -/
theorem charge_ok (below : g.limit < u64Max) (fits : g.charge amount = (g', .ok ())) :
    g' = { g with used := g.used + amount } ∧ g.used + amount ≤ g.limit := by
  simp only [charge, applyCharge] at fits
  grind

lemma charge_error {e : String} (refused : g.charge amount = (g', .error e)) :
    g.limit < g'.used := by
  simp only [charge, applyCharge] at refused
  grind

lemma chargeStateRead_error {e : String} (refused : g.chargeStateRead byteCount = (g', .error e)) :
    g.limit < g'.used := by
  unfold chargeStateRead at refused
  split at refused
  · cases refused
  · cases refused
    exact charge_error ‹_›

lemma chargeStateWrite_error {e : String}
    (refused : g.chargeStateWrite byteCount = (g', .error e)) : g.limit < g'.used := by
  unfold chargeStateWrite at refused
  split at refused
  · cases refused
  · cases refused
    exact charge_error ‹_›

lemma stateCost_of_lt {flat perByte : Nat} (small : stateCost flat perByte byteCount < u64Max) :
    stateCost flat perByte byteCount = flat + perByte * byteCount := by
  unfold stateCost at small ⊢
  omega

lemma chargeStateRead_ok (costs : g.costs = .defaultCosts) (below : g.limit < u64Max)
    (fits : g.chargeStateRead byteCount = (g', .ok ())) :
    g'.limit = g.limit ∧ g'.costs = g.costs ∧ g'.used = g.used + (50 + byteCount) ∧
      g'.used ≤ g.limit := by
  unfold chargeStateRead at fits
  split at fits
  · rename_i charged paid
    obtain ⟨rfl, room⟩ := charge_ok below paid
    cases fits
    have cost : stateCost g.costs.stateRead g.costs.perByteRead byteCount = _ :=
      stateCost_of_lt (by omega)
    rw [cost] at room ⊢
    simp_all [defaultCosts]
  · cases fits

lemma chargeStateWrite_ok (costs : g.costs = .defaultCosts) (below : g.limit < u64Max)
    (fits : g.chargeStateWrite byteCount = (g', .ok ())) :
    g'.limit = g.limit ∧ g'.costs = g.costs ∧ g'.used = g.used + (200 + 2 * byteCount) ∧
      g'.used ≤ g.limit := by
  unfold chargeStateWrite at fits
  split at fits
  · rename_i charged paid
    obtain ⟨rfl, room⟩ := charge_ok below paid
    cases fits
    have cost : stateCost g.costs.stateWrite g.costs.perByteWrite byteCount = _ :=
      stateCost_of_lt (by omega)
    rw [cost] at room ⊢
    simp_all [defaultCosts]
  · cases fits

end GasCounter

namespace Wasmtime

variable {γ : Type} (W : Wasmtime γ)

/-- What `get_state` finds in the world state, when it comes to look there. -/
def lookedUp (g : γ) (keyPtr keyLen valPtr valBufLen : Int) (h : HostState) : Option (Option Bytes) :=
  match W.memory g with
  | none => none
  | some data =>
    if valPtr < 0 ∨ valBufLen < 0 then none
    else (readBytes data keyPtr keyLen).map fun key => h.worldState.lookup (W.fromUtf8Lossy key)

def lookupCount : Option (Option Bytes) → Nat × Nat
  | none => (0, 0)
  | some (some _) => (1, 0)
  | some none => (0, 1)

def lookups (s : γ × HostState) : Nat × Nat :=
  match W.next s.1 with
  | .getState keyPtr keyLen valPtr valBufLen _ =>
    lookupCount (W.lookedUp s.1 keyPtr keyLen valPtr valBufLen s.2)
  | _ => (0, 0)

/-- The instance is being built: the start function has come to the state `s`. -/
def Instantiating (payload : Bytes) (initialState : WorldState) (limits : ExecutionLimits)
    (count : Nat × Nat) (s : γ × HostState) : Prop :=
  ∃ m enter, W.compile payload = .ok m ∧ m.links = .ok () ∧ m.start = some enter ∧
    Passes W.perform W.lookups u64Max
      (enter m.fresh, ⟨initialState, [], [], .new limits.operationGasLimit⟩) count s

def Instantiated (payload : Bytes) (initialState : WorldState) (limits : ExecutionLimits)
    (m : WasmModule γ) (count : Nat × Nat) (s : γ × HostState) : Prop :=
  W.compile payload = .ok m ∧
    (W.instantiate u64Max m ⟨initialState, [], [], .new limits.operationGasLimit⟩).2 = .ok s ∧
    (m.start = none ∧ count = 0 ∨ W.Instantiating payload initialState limits count s)

/-- `execute` has come to the state `s`. -/
def Executing (payload : Bytes) (initialState : WorldState) (limits : ExecutionLimits)
    (count : Nat × Nat) (s : γ × HostState) : Prop :=
  ∃ m started instance_ gas enter ran, W.Instantiated payload initialState limits m started instance_ ∧
    instance_.2.operationGas.costs.baseExecution ≤ limits.operationGasLimit ∧
    instance_.2.operationGas.charge instance_.2.operationGas.costs.baseExecution = (gas, .ok ()) ∧
    m.execute = .ok enter ∧
    Passes W.perform W.lookups limits.fuelLimit
      (enter instance_.1, { instance_.2 with operationGas := gas }) ran s ∧
    count = started + ran

variable {W} {payload : Bytes} {initialState : WorldState} {limits : ExecutionLimits}

lemma instantiated_of_ok {m : WasmModule γ} {s : γ × HostState}
    (compiled : W.compile payload = .ok m)
    (built : (W.instantiate u64Max m ⟨initialState, [], [], .new limits.operationGasLimit⟩).2 = .ok s) :
    ∃ count, W.Instantiated payload initialState limits m count s := by
  have whole := built
  unfold instantiate at built
  split at built
  · cases built
  · rename_i links
    split at built
    · exact ⟨0, compiled, whole, .inl ⟨‹_›, rfl⟩⟩
    · rename_i enter start
      obtain ⟨count, run⟩ := Passes.meter_state W.perform W.lookups u64Max
        (enter m.fresh, ⟨initialState, [], [], .new limits.operationGasLimit⟩)
      dsimp only at built
      split at built
      · cases built
        exact ⟨count, compiled, whole, .inr ⟨m, enter, compiled, links, start, run⟩⟩
      · cases built
      · cases built

/-- What an execution returns is what `execute` has left in one of these states. -/
theorem executing_of_ok {contractId : String} {result : ExecutionResult}
    (ok : (W.executeInternal contractId payload initialState limits).result = .ok result) :
    ∃ count s, W.Executing payload initialState limits count s ∧
      (⟨s.2.ephemeral, s.2.writes⟩ : ExecutionResult).canonicalize = .ok result := by
  unfold executeInternal at ok
  split at ok
  · cases ok
  · rename_i m compiled
    split at ok
    · cases ok
    · rename_i ranStart instance_ built
      obtain ⟨started, instantiated⟩ := instantiated_of_ok compiled (congrArg Prod.snd built)
      simp only [callExecute] at ok
      split at ok
      · cases ok
      · rename_i base
        split at ok
        · cases ok
        · rename_i gas charged
          split at ok
          · cases ok
          · rename_i enter export_
            obtain ⟨ran, run⟩ := Passes.meter_state W.perform W.lookups limits.fuelLimit
              (enter instance_.1, { instance_.2 with operationGas := gas })
            refine ⟨started + ran, _, ⟨m, started, instance_, gas, enter, ran, instantiated,
              Nat.le_of_not_lt base, charged, export_, run, rfl⟩, ?_⟩
            simp only [conclude] at ok
            split at ok
            · split at ok
              · rename_i canonical
                rw [canonical, Except.ok.inj ok]
              · cases ok
            · cases ok
            · cases ok

end Wasmtime

/-- Every entry and every lookup that found something was paid for, beside a base cost. -/
structure HostState.Paid (limit base : Nat) (count : Nat × Nat) (h : HostState) : Prop where
  limit_eq : h.operationGas.limit = limit
  costs_eq : h.operationGas.costs = .defaultCosts
  paid : h.outputCost + 50 * count.1 + base ≤ h.operationGas.used
  within : h.operationGas.used ≤ limit

/-- A charge was refused: all entries were paid for, and all lookups but one. -/
structure HostState.Refused (limit base : Nat) (count : Nat × Nat) (h : HostState) : Prop where
  beyond : limit < h.operationGas.used
  outputs : h.outputCost + base ≤ limit
  lookups : h.outputCost + 50 * count.1 + base ≤ limit + 50

def HostState.Accounted {α : Type} (limit base : Nat) (count : Nat × Nat) :
    HostState × Except String α → Prop
  | (h, .ok _) => h.Paid limit base count
  | (h, .error _) => h.Refused limit base count

namespace HostState

variable {limit base : Nat} {count count' : Nat × Nat} {h h' : HostState}

/-- A charge that fits pays for what it is made for. -/
theorem Paid.charged (paid : h.Paid limit base count) (amount : Nat)
    (charged : h'.operationGas.limit = h.operationGas.limit ∧
      h'.operationGas.costs = h.operationGas.costs ∧
      h'.operationGas.used = h.operationGas.used + amount ∧
      h'.operationGas.used ≤ h.operationGas.limit)
    (covered : h'.outputCost + 50 * count'.1 ≤ h.outputCost + 50 * count.1 + amount) :
    h'.Paid limit base count' := by
  obtain ⟨limits, costs, used, fits⟩ := charged
  have before := paid.paid
  refine ⟨limits.trans paid.limit_eq, costs.trans paid.costs_eq, ?_, paid.limit_eq ▸ fits⟩
  omega

/-- A charge that does not fit is followed by nothing. -/
theorem Paid.refused (paid : h.Paid limit base count) {gas : GasCounter}
    (beyond : h.operationGas.limit < gas.used) (extra : Nat × Nat) (one : extra.1 ≤ 1) :
    HostState.Refused limit base (count + extra) { h with operationGas := gas } := by
  have before := paid.paid
  have within := paid.within
  refine ⟨paid.limit_eq ▸ beyond, ?_, ?_⟩
  · change h.outputCost + base ≤ limit
    omega
  · change h.outputCost + 50 * (count.1 + extra.1) + base ≤ limit + 50
    omega

/-- In either case the entries are within the limit. -/
theorem outputCost_le (accounted : h.Paid limit base count ∨ h.Refused limit base count) :
    h.outputCost ≤ limit := by
  rcases accounted with paid | refused
  · have := paid.paid
    have := paid.within
    omega
  · have := refused.outputs
    omega

end HostState

namespace Wasmtime

variable {γ : Type} {W : Wasmtime γ} {limit base : Nat} {count : Nat × Nat} {h : HostState}

section

variable (below : limit < u64Max) (paid : h.Paid limit base count)

include below paid

lemma setState_accounted (g : γ) (keyPtr keyLen valPtr valLen : Int) :
    HostState.Accounted limit base count (W.setState g keyPtr keyLen valPtr valLen h) := by
  unfold setState
  split
  · rename_i key val _ _
    split
    · exact paid.refused (chargeStateWrite_error ‹_›) 0 (Nat.zero_le 1)
    · rename_i gas charged
      refine paid.charged _ (chargeStateWrite_ok paid.costs_eq (paid.limit_eq ▸ below) charged) ?_
      simp only [outputCost, outputs, map_append, sum_append, map_cons, map_nil, sum_cons, sum_nil]
      omega
  · exact paid

lemma getStateLen_accounted (g : γ) (keyPtr keyLen : Int) :
    HostState.Accounted limit base count (W.getStateLen g keyPtr keyLen h) := by
  unfold getStateLen
  split
  · exact paid
  · split
    · exact paid.refused (chargeStateRead_error ‹_›) 0 (Nat.zero_le 1)
    · rename_i gas charged
      exact paid.charged _ (chargeStateRead_ok paid.costs_eq (paid.limit_eq ▸ below) charged)
        (Nat.le_add_right _ _)

lemma persistState_accounted (requested : Except Int PersistentWrite) :
    HostState.Accounted limit base count (persistState requested h) := by
  unfold persistState
  split
  · exact paid
  · rename_i write
    dsimp only
    split
    · exact paid.refused (chargeStateWrite_error ‹_›) 0 (Nat.zero_le 1)
    · rename_i gas charged
      have paidFor := chargeStateWrite_ok paid.costs_eq (paid.limit_eq ▸ below) charged
      refine paid.charged (200 + 2 * write.op.valueBytes) ?_ ?_
      · cases op : write.op <;> simpa only [op, WriteOp.valueBytes] using paidFor
      · simp only [outputCost, outputs, map_append, sum_append,
          map_cons, map_nil, sum_cons, sum_nil]
        omega

end

/-- `get_state` charges when its lookup finds a value, and only then. -/
theorem getState_cases (g : γ) (keyPtr keyLen valPtr valBufLen : Int) (h : HostState) :
    let found := W.lookedUp g keyPtr keyLen valPtr valBufLen h
    let answer := W.getState g keyPtr keyLen valPtr valBufLen h
    (found = none ∨ found = some none) ∧ answer = (h, g, .ok (-1)) ∨
      ∃ value, found = some (some value) ∧
        ((∃ gas e, h.operationGas.chargeStateRead value.length = (gas, .error e) ∧
          answer = ({ h with operationGas := gas }, g, .error e)) ∨
        ∃ gas g' result, h.operationGas.chargeStateRead value.length = (gas, .ok ()) ∧
          answer = ({ h with operationGas := gas }, g', .ok result)) := by
  unfold getState lookedUp
  cases W.memory g with
  | none => exact .inl ⟨.inl rfl, rfl⟩
  | some data =>
    by_cases negative : valPtr < 0 ∨ valBufLen < 0
    · refine .inl ⟨.inl ?_, ?_⟩ <;> simp only [if_pos negative]
    · simp only [if_neg negative]
      cases readBytes data keyPtr keyLen with
      | none => exact .inl ⟨.inl rfl, rfl⟩
      | some key =>
        dsimp only [Option.map_some]
        cases h.worldState.lookup (W.fromUtf8Lossy key) with
        | none => exact .inl ⟨.inr rfl, rfl⟩
        | some value =>
          refine .inr ⟨value, rfl, ?_⟩
          dsimp only
          obtain ⟨gas, e | ⟨⟩⟩ := h.operationGas.chargeStateRead value.length
          · exact .inl ⟨gas, e, rfl, rfl⟩
          · refine .inr ?_
            dsimp only
            split
            · exact ⟨gas, _, _, rfl, rfl⟩
            · split <;> exact ⟨gas, _, _, rfl, rfl⟩

lemma getState_accounted (below : limit < u64Max) (paid : h.Paid limit base count) (g : γ)
    (keyPtr keyLen valPtr valBufLen : Int) :
    let answer := W.getState g keyPtr keyLen valPtr valBufLen h
    HostState.Accounted limit base
      (count + lookupCount (W.lookedUp g keyPtr keyLen valPtr valBufLen h)) (answer.1, answer.2.2) := by
  intro answer
  obtain ⟨free, same⟩ | ⟨value, found, ⟨gas, e, refused, same⟩ | ⟨gas, g', result, charged, same⟩⟩ :=
    getState_cases (W := W) g keyPtr keyLen valPtr valBufLen h
  · have unpaid : (lookupCount (W.lookedUp g keyPtr keyLen valPtr valBufLen h)).1 = 0 := by
      rcases free with none | missed
      · rw [none]
        rfl
      · rw [missed]
        rfl
    change HostState.Accounted limit base _ ((W.getState ..).1, (W.getState ..).2.2)
    rw [same]
    exact ⟨paid.limit_eq, paid.costs_eq, by simpa [unpaid] using paid.paid, paid.within⟩
  · change HostState.Accounted limit base _ ((W.getState ..).1, (W.getState ..).2.2)
    rw [same, found]
    exact paid.refused (chargeStateRead_error refused) (1, 0) (Nat.le_refl 1)
  · change HostState.Accounted limit base _ ((W.getState ..).1, (W.getState ..).2.2)
    rw [same, found]
    refine paid.charged _ (chargeStateRead_ok paid.costs_eq (paid.limit_eq ▸ below) charged) ?_
    change h.outputCost + 50 * (count.1 + 1) ≤ _
    omega

/-- One instruction: what it does is paid for, unless a charge is refused. -/
theorem perform_accounted (below : limit < u64Max) (s : γ × HostState)
    (paid : s.2.Paid limit base count) :
    (∀ t, W.perform s = .next t → t.2.Paid limit base (count + W.lookups s)) ∧
    ∀ e t, W.perform s = .trapped e t → t.2.Paid limit base (count + W.lookups s) ∨
      t.2.Refused limit base (count + W.lookups s) := by
  have answered {α : Type} {g : γ} {k : α → γ} {answer : HostState × Except String α}
      {extra : Nat × Nat} (accounted : HostState.Accounted limit base (count + extra) answer) :
      (∀ t, resume g k answer = .next t → t.2.Paid limit base (count + extra)) ∧
      ∀ e t, resume g k answer = .trapped e t → t.2.Paid limit base (count + extra) ∨
        t.2.Refused limit base (count + extra) := by
    obtain ⟨h, e | a⟩ := answer
    · refine ⟨nofun, ?_⟩
      rintro _ _ ⟨⟩
      exact .inr accounted
    · refine ⟨?_, nofun⟩
      rintro _ ⟨⟩
      exact accounted
  unfold perform lookups
  cases W.next s.1 with
  | returned => exact ⟨nofun, nofun⟩
  | run g =>
    refine ⟨?_, nofun⟩
    rintro _ ⟨⟩
    exact paid
  | trap e =>
    refine ⟨nofun, ?_⟩
    rintro _ _ ⟨⟩
    exact .inl paid
  | setState keyPtr keyLen valPtr valLen k =>
    exact answered (setState_accounted below paid ..)
  | getStateLen keyPtr keyLen k => exact answered (getStateLen_accounted below paid ..)
  | getState keyPtr keyLen valPtr valBufLen k => exact answered (getState_accounted below paid ..)
  | persistState => exact answered (persistState_accounted below paid _)

lemma resume_trapped {α : Type} {g : γ} {k : α → γ} {answer : HostState × Except String α}
    {e : String} {t : γ × HostState} (trap : resume g k answer = .trapped e t) : t.1 = g := by
  obtain ⟨h, e | a⟩ := answer
  · cases trap
    rfl
  · cases trap

/-- A trap leaves the guest where it was. -/
theorem next_ne_returned_of_trapped {s t : γ × HostState} {e : String}
    (trap : W.perform s = .trapped e t) : W.next t.1 ≠ .returned := by
  have same : t.1 = s.1 := by
    unfold perform at trap
    split at trap
    any_goals exact resume_trapped trap
    all_goals cases trap
    rfl
  rw [same, Ne, ← perform_eq_returned, trap]
  exact nofun

lemma passes_accounted (below : limit < u64Max) {fuel : Nat} {s t : γ × HostState}
    {ran : Nat × Nat} (paid : s.2.Paid limit base count)
    (run : Passes W.perform W.lookups fuel s ran t) :
    t.2.Paid limit base (count + ran) ∨
      t.2.Refused limit base (count + ran) ∧ W.next t.1 ≠ .returned := by
  have bounds := run.invariant (I := fun c u => u.2.Paid limit base c)
    (J := fun c u => u.2.Paid limit base c ∨ u.2.Refused limit base c ∧ W.next u.1 ≠ .returned)
    (fun _ u t paid running => (perform_accounted below u paid).1 t running) ?_ paid
  · exact bounds.elim .inl id
  · intro c u e t paid trap
    exact ((perform_accounted below u paid).2 e t trap).imp_right
      fun refused => ⟨refused, next_ne_returned_of_trapped trap⟩

lemma paid_new (initialState : WorldState) (limit : Nat) :
    HostState.Paid limit 0 0 ⟨initialState, [], [], .new limit⟩ :=
  ⟨rfl, rfl, Nat.zero_le _, Nat.zero_le _⟩

variable {payload : Bytes} {initialState : WorldState} {limits : ExecutionLimits}
  {s : γ × HostState}

lemma Instantiating.accounted (below : limits.operationGasLimit < u64Max)
    (running : W.Instantiating payload initialState limits count s) :
    s.2.Paid limits.operationGasLimit 0 count ∨
      s.2.Refused limits.operationGasLimit 0 count ∧ W.next s.1 ≠ .returned := by
  obtain ⟨m, enter, -, -, -, run⟩ := running
  have accounted := passes_accounted below (paid_new initialState _) run
  rwa [zero_add] at accounted

lemma next_of_instantiate {m : WasmModule γ} {fuel : Nat} {h : HostState}
    (built : (W.instantiate fuel m h).2 = .ok s) :
    m.start = none ∧ s = (m.fresh, h) ∨ m.start ≠ none ∧ W.next s.1 = .returned := by
  unfold instantiate at built
  split at built
  · cases built
  · split at built
    · cases built
      exact .inl ⟨‹_›, rfl⟩
    · rename_i enter start
      dsimp only at built
      split at built
      · rename_i returned
        cases built
        exact .inr ⟨by simp [start], perform_eq_returned.mp (step_of_meter_returned returned)⟩
      · cases built
      · cases built

/-- An instance that was built has been refused nothing. -/
theorem Instantiated.paid {m : WasmModule γ} (below : limits.operationGasLimit < u64Max)
    (built : W.Instantiated payload initialState limits m count s) :
    s.2.Paid limits.operationGasLimit 0 count := by
  obtain ⟨compiled, built, start⟩ := built
  rcases next_of_instantiate built with ⟨idle, rfl⟩ | ⟨some, returned⟩
  · rcases start with ⟨-, rfl⟩ | ⟨m', enter, compiled', -, start, -⟩
    · exact paid_new initialState _
    · rw [compiled] at compiled'
      cases compiled'
      rw [idle] at start
      cases start
  · rcases start with ⟨idle, -⟩ | running
    · exact absurd idle some
    · exact (running.accounted below).resolve_right fun refused => refused.2 returned

lemma Executing.accounted (below : limits.operationGasLimit < u64Max)
    (running : W.Executing payload initialState limits count s) :
    s.2.Paid limits.operationGasLimit 1000 count ∨
      s.2.Refused limits.operationGasLimit 1000 count := by
  obtain ⟨m, started, instance_, gas, enter, ran, built, -, charged, -, run, rfl⟩ := running
  have paid := built.paid below
  have start : HostState.Paid limits.operationGasLimit 1000 started
      { instance_.2 with operationGas := gas } := by
    obtain ⟨rfl, room⟩ := charge_ok (paid.limit_eq ▸ below) charged
    have before := paid.paid
    rw [paid.costs_eq, paid.limit_eq] at room
    refine ⟨paid.limit_eq, paid.costs_eq, ?_, ?_⟩
    · change instance_.2.outputCost + 50 * started.1 + 1000 ≤ instance_.2.operationGas.used + _
      rw [paid.costs_eq]
      change _ ≤ instance_.2.operationGas.used + 1000
      omega
    · change instance_.2.operationGas.used + _ ≤ _
      rw [paid.costs_eq]
      exact room
  exact (passes_accounted below start run).imp_right And.left

end Wasmtime

/-- With a limit below the largest one, at every state of an instantiation and of an execution: the
bytes kept are within the limit where no entry's names exceed its value by more than the flat cost,
and the lookups that found a value within the flat number of reads, unless the instantiation ran out
of operation gas. A result is what one of these states has kept. -/
theorem operation_gas_bounds {γ : Type} (W : Wasmtime γ) (payload : Bytes) (initialState : WorldState)
    (limits : ExecutionLimits) (below : limits.operationGasLimit < u64Max) (count : Nat × Nat)
    (s : γ × HostState)
    (point : W.Instantiating payload initialState limits count s ∨
      W.Executing payload initialState limits count s) :
    ((∀ o ∈ s.2.outputs, o.names ≤ defaultCosts.stateWrite + o.value) →
      s.2.keptBytes ≤ limits.operationGasLimit) ∧
    (W.Executing payload initialState limits count s ∨
        s.2.operationGas.used ≤ limits.operationGasLimit →
      count.1 ≤ limits.operationGasLimit / defaultCosts.stateRead) ∧
    ∀ contractId result, (W.executeInternal contractId payload initialState limits).result =
        .ok result → ∃ count s, W.Executing payload initialState limits count s ∧
      (⟨s.2.ephemeral, s.2.writes⟩ : ExecutionResult).canonicalize = .ok result := by
  refine ⟨?_, ?_, fun _ _ ok => Wasmtime.executing_of_ok ok⟩
  · intro short
    refine (keptBytes_le_outputCost short).trans ?_
    rcases point with running | running
    · exact outputCost_le ((running.accounted below).imp_right And.left)
    · exact outputCost_le (running.accounted below)
  · intro unrefused
    have read : defaultCosts.stateRead = 50 := rfl
    rw [read, Nat.le_div_iff_mul_le (by decide)]
    -- a refused lookup fits into the base cost
    have executing (running : W.Executing payload initialState limits count s) :
        count.1 * 50 ≤ limits.operationGasLimit := by
      rcases running.accounted below with paid | refused
      · have := paid.paid
        have := paid.within
        omega
      · have := refused.lookups
        omega
    rcases point with running | running
    · rcases unrefused with running | within
      · exact executing running
      · rcases running.accounted below with paid | ⟨refused, -⟩
        · have := paid.paid
          have := paid.within
          omega
        · have := refused.beyond
          omega
    · exact executing running

/-- A guest whose `execute` makes the given calls, counting down. -/
def callingGuest (data : Bytes) (calls : Nat) (call : Nat → GuestAction Nat) : Wasmtime Nat where
  compile _ := .ok ⟨.ok (), 0, none, .ok fun _ => calls⟩
  next
    | 0 => .returned
    | n + 1 => call n
  memory _ := some data
  withMemory g _ := g
  fromUtf8Lossy bytes := String.ofList (List.replicate bytes.length '0')
  fromUtf8 _ := none

lemma executing_callingGuest {data : Bytes} {calls : Nat} {call : Nat → GuestAction Nat}
    {world : WorldState} {limits : ExecutionLimits} {count : Nat × Nat} {s : Nat × HostState}
    (base : 1000 ≤ limits.operationGasLimit)
    (run : Passes (callingGuest data calls call).perform (callingGuest data calls call).lookups
      limits.fuelLimit
      (calls, ⟨world, [], [], { GasCounter.new limits.operationGasLimit with used := 1000 }⟩) count s) :
    (callingGuest data calls call).Executing [] world limits count s := by
  refine ⟨⟨.ok (), 0, none, .ok fun _ => calls⟩, 0,
    (0, ⟨world, [], [], .new limits.operationGasLimit⟩),
    { GasCounter.new limits.operationGasLimit with used := 1000 }, fun _ => calls, count,
    ⟨rfl, rfl, .inl ⟨rfl, rfl⟩⟩, base, ?_, rfl, run, (zero_add _).symm⟩
  simp [GasCounter.new, GasCounter.charge, applyCharge, defaultCosts, u64Max, base]

/-- One call of `set_state` with a key of the given length and no value. -/
def keyGuest (length : Nat) : Wasmtime Nat :=
  callingGuest (List.replicate length 48) 1 (.setState 0 length 0 0)

def keyGuestHost (length : Nat) : HostState :=
  ⟨∅, [(String.ofList (List.replicate length '0'), [])], [], ⟨1200, 1200, .defaultCosts, 0, 1⟩⟩

lemma executing_keyGuest (length : Nat) :
    (keyGuest length).Executing [] ∅ ⟨1, 1200⟩ (0, 0) (0, keyGuestHost length) := by
  have key : (keyGuest length).read 1 0 length = some (List.replicate length 48) := by
    simp [keyGuest, callingGuest, Wasmtime.read, readBytes]
  have value : (keyGuest length).read 1 0 0 = some [] := by
    simp [keyGuest, callingGuest, Wasmtime.read, readBytes]
  have charged : (GasCounter.chargeStateWrite
      { GasCounter.new 1200 with used := 1000 } ([] : Bytes).length) =
        (⟨1200, 1200, .defaultCosts, 0, 1⟩, .ok ()) := by decide
  refine executing_callingGuest (by decide) (Passes.next ?_ (Passes.here 0 _))
  change Wasmtime.resume 1 (fun _ => 0) ((keyGuest length).setState 1 0 length 0 0 _) = _
  simp only [Wasmtime.setState, key, value, charged]
  simp [Wasmtime.resume, keyGuestHost, keyGuest, callingGuest]

lemma outputs_keyGuestHost (length : Nat) : (keyGuestHost length).outputs = [⟨length, 0⟩] := by
  simp [outputs, keyGuestHost, utf8_zeros]

/-- Calls of `get_state` with the empty key. -/
def readingGuest (calls : Nat) : Wasmtime Nat :=
  callingGuest [] calls fun n => .getState 0 0 0 0 fun _ _ => n

lemma executing_readingGuest_found :
    (readingGuest 1).Executing [] (.insert "" [] ∅) ⟨1, 1050⟩ (1, 0)
      (0, ⟨.insert "" [] ∅, [], [], ⟨1050, 1050, .defaultCosts, 1, 0⟩⟩) := by
  have found (gas : GasCounter) : (readingGuest 1).lookups (1, ⟨.insert "" [] ∅, [], [], gas⟩) =
    (1, 0) := rfl
  refine executing_callingGuest (by decide) ?_
  rw [← found]
  have run (s : Nat × HostState) (t : Nat × HostState) (next : (readingGuest 1).perform s = .next t) :
      Passes (readingGuest 1).perform (readingGuest 1).lookups 1 s ((readingGuest 1).lookups s) t :=
    .next next (.here 0 t)
  exact run _ _ rfl

/-- A short key is within the limit, and a lookup that finds a value. -/
theorem operation_gas_sample : (keyGuestHost 5).keptBytes ≤ 1200 ∧
    1 ≤ 1050 / defaultCosts.stateRead := by
  constructor
  · refine (operation_gas_bounds (keyGuest 5) [] ∅ ⟨1, 1200⟩ (by decide) (0, 0) _
      (.inr (executing_keyGuest 5))).1 ?_
    rw [outputs_keyGuestHost]
    decide
  · exact (operation_gas_bounds (readingGuest 1) [] _ ⟨1, 1050⟩ (by decide) (1, 0) _
      (.inr executing_readingGuest_found)).2.1 (.inl executing_readingGuest_found)

lemma executing_readingGuest (calls : Nat) :
    (readingGuest calls).Executing [] ∅ ⟨calls, 1000⟩ (0, calls)
      (0, ⟨∅, [], [], ⟨1000, 1000, .defaultCosts, 0, 0⟩⟩) := by
  refine executing_callingGuest (Nat.le_refl 1000) ?_
  have run (n : Nat) (gas : GasCounter) : Passes (readingGuest calls).perform
      (readingGuest calls).lookups n (n, ⟨∅, [], [], gas⟩) (0, n) (0, ⟨∅, [], [], gas⟩) := by
    induction n with
    | zero => exact .here 0 _
    | succ n ih =>
      have missed : (readingGuest calls).perform (n + 1, ⟨∅, [], [], gas⟩) =
          .next (n, ⟨∅, [], [], gas⟩) := rfl
      have counted : ((0, n + 1) : Nat × Nat) = (0, 1) + (0, n) := by simp [Nat.add_comm]
      rw [counted]
      exact ih.next missed
  exact run calls _

/-- A key longer than the limit is kept for the flat cost of a write, and lookups that find nothing
are free. -/
theorem operation_gas_outrun :
    ((keyGuest 1201).Executing [] ∅ ⟨1, 1200⟩ (0, 0) (0, keyGuestHost 1201) ∧
      1200 < (keyGuestHost 1201).keptBytes) ∧
    ∃ s, (readingGuest 21).Executing [] ∅ ⟨21, 1000⟩ (0, 21) s ∧
      1000 / defaultCosts.stateRead < 0 + 21 := by
  refine ⟨⟨executing_keyGuest 1201, ?_⟩, _, executing_readingGuest 21, by decide⟩
  rw [keptBytes, outputs_keyGuestHost]
  decide

end GlassChain
