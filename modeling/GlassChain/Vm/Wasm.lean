import GlassChain.Library.Metered
import GlassChain.Network.Node

/-!
# The WASM execution provider

`execute_internal` with its two budgets: the store's fuel for guest instructions, and the operation
gas for the host functions a guest may call. Wasmtime is a parameter: what it compiles a payload to,
what a guest does next, and how its memory is read and written. It is idealised to one unit of fuel
for each guest instruction, and to running a module's start function while it instantiates it.
-/

namespace GlassChain

open Library

structure ExecutionLimits where
  fuelLimit : Nat
  operationGasLimit : Nat
  deriving DecidableEq, Repr

/-- Invocation-local output apart from the explicit persistent writes. -/
structure ExecutionResult where
  ephemeral : List (String × Bytes)
  writes : List PersistentWrite
  deriving DecidableEq, Repr

def ExecutionResult.canonicalize (r : ExecutionResult) : Except CoreError ExecutionResult := do
  let writes ← PersistentWrite.canonicalize r.writes
  return { r with writes := writes }

/-- `ExecutionProvider::execute_with_state`. -/
abbrev ExecutionProvider :=
  String → Bytes → WorldState → ExecutionLimits → Except CoreError ExecutionResult

/-- The part of a provider that the write set of a candidate is computed with. -/
def ExecutionProvider.executor (P : ExecutionProvider) : Executor := fun id wasm world =>
  (P id wasm world ⟨100000, 100000⟩).map ExecutionResult.writes

def u64Max : Nat := 2 ^ 64 - 1

structure GasCosts where
  baseExecution : Nat
  stateRead : Nat
  stateWrite : Nat
  perByteRead : Nat
  perByteWrite : Nat
  deriving DecidableEq, Repr

def GasCosts.defaultCosts : GasCosts := ⟨1000, 50, 200, 1, 2⟩

/-- `flat + per_byte × byte_count`, saturating. -/
def stateCost (flat perByte byteCount : Nat) : Nat :=
  min (flat + min (perByte * byteCount) u64Max) u64Max

/-- The balance after a charge, saturating, and whether it fits the limit. -/
def applyCharge (used amount limit : Nat) : Nat × Bool :=
  let charged := min (used + amount) u64Max
  (charged, charged ≤ limit)

structure GasCounter where
  limit : Nat
  used : Nat
  costs : GasCosts
  stateReads : Nat
  stateWrites : Nat
  deriving DecidableEq, Repr

namespace GasCounter

def new (limit : Nat) : GasCounter := ⟨limit, 0, .defaultCosts, 0, 0⟩

/-- The counter moves even when the charge does not fit. -/
def charge (g : GasCounter) (amount : Nat) : GasCounter × Except String Unit :=
  let (charged, fits) := applyCharge g.used amount g.limit
  ({ g with used := charged }, if fits then .ok () else .error "gas exhausted")

def chargeStateRead (g : GasCounter) (byteCount : Nat) : GasCounter × Except String Unit :=
  match g.charge (stateCost g.costs.stateRead g.costs.perByteRead byteCount) with
  | (g, .ok ()) => ({ g with stateReads := g.stateReads + 1 }, .ok ())
  | (g, .error e) => (g, .error e)

def chargeStateWrite (g : GasCounter) (byteCount : Nat) : GasCounter × Except String Unit :=
  match g.charge (stateCost g.costs.stateWrite g.costs.perByteWrite byteCount) with
  | (g, .ok ()) => ({ g with stateWrites := g.stateWrites + 1 }, .ok ())
  | (g, .error e) => (g, .error e)

end GasCounter

structure HostState where
  worldState : WorldState
  ephemeral : List (String × Bytes)
  writes : List PersistentWrite
  operationGas : GasCounter

/-- `data[ptr..ptr + len]`, unless an argument is negative or the end is out of bounds. -/
def readBytes (data : Bytes) (ptr len : Int) : Option Bytes :=
  if ptr < 0 ∨ len < 0 ∨ (data.length : Int) < ptr + len then none
  else some ((data.drop ptr.toNat).take len.toNat)

/-- `i32::try_from(len).unwrap_or(-1)`. -/
def lengthResult (n : Nat) : Int := if n < 2 ^ 31 then n else -1

/-- What a guest does next: return, run an instruction of its own, or call the host. -/
inductive GuestAction (γ : Type) where
  | returned
  | run (next : γ)
  | trap (message : String)
  | setState (keyPtr keyLen valPtr valLen : Int) (resume : γ)
  | getStateLen (keyPtr keyLen : Int) (resume : Int → γ)
  | getState (keyPtr keyLen valPtr valBufLen : Int) (resume : γ → Int → γ)
  | persistState (channelPtr channelLen contractPtr contractLen keyPtr keyLen valPtr valLen : Int)
      (op visibility pdcPtr pdcLen : Int) (resume : Int → γ)

structure WasmModule (γ : Type) where
  /-- Whether every import is resolved by the linker. -/
  links : Except String Unit
  /-- The instance before any of its functions ran. -/
  fresh : γ
  /-- Enters the start function. -/
  start : Option (γ → γ)
  /-- Enters the export `execute`, of type `() -> ()`. -/
  execute : Except String (γ → γ)

/-- Wasmtime and the standard library's conversions of guest bytes to strings. -/
structure Wasmtime (γ : Type) where
  compile : Bytes → Except String (WasmModule γ)
  next : γ → GuestAction γ
  /-- The linear memory exported as `memory`. -/
  memory : γ → Option Bytes
  withMemory : γ → Bytes → γ
  fromUtf8Lossy : Bytes → String
  fromUtf8 : Bytes → Option String

namespace Wasmtime

variable {γ : Type} (W : Wasmtime γ)

def read (g : γ) (ptr len : Int) : Option Bytes := (W.memory g).bind fun data => readBytes data ptr len

def readString (g : γ) (ptr len : Int) : Option String := (W.read g ptr len).bind W.fromUtf8

/-- A malformed pointer makes the call a no-op. -/
def setState (g : γ) (keyPtr keyLen valPtr valLen : Int) (h : HostState) :
    HostState × Except String Unit :=
  match W.read g keyPtr keyLen, W.read g valPtr valLen with
  | some key, some val => match h.operationGas.chargeStateWrite val.length with
    | (gas, .error e) => ({ h with operationGas := gas }, .error e)
    | (gas, .ok ()) => ({ h with
        operationGas := gas
        ephemeral := h.ephemeral ++ [(W.fromUtf8Lossy key, val)] }, .ok ())
  | _, _ => (h, .ok ())

def getStateLen (g : γ) (keyPtr keyLen : Int) (h : HostState) : HostState × Except String Int :=
  match W.read g keyPtr keyLen with
  | none => (h, .ok (-1))
  | some key => match h.operationGas.chargeStateRead 0 with
    | (gas, .error e) => ({ h with operationGas := gas }, .error e)
    | (gas, .ok ()) => ({ h with operationGas := gas }, .ok
        (match h.worldState.lookup (W.fromUtf8Lossy key) with
        | some value => lengthResult value.length
        | none => -1))

/-- The value is copied into the guest's memory when it fits the buffer and the memory. -/
def getState (g : γ) (keyPtr keyLen valPtr valBufLen : Int) (h : HostState) :
    HostState × γ × Except String Int :=
  match W.memory g with
  | none => (h, g, .ok (-1))
  | some data =>
    if valPtr < 0 ∨ valBufLen < 0 then (h, g, .ok (-1))
    else match readBytes data keyPtr keyLen with
      | none => (h, g, .ok (-1))
      | some key => match h.worldState.lookup (W.fromUtf8Lossy key) with
        | none => (h, g, .ok (-1))
        | some value => match h.operationGas.chargeStateRead value.length with
          | (gas, .error e) => ({ h with operationGas := gas }, g, .error e)
          | (gas, .ok ()) =>
            let h := { h with operationGas := gas }
            if valBufLen < value.length then (h, g, .ok (-2))
            else if (data.length : Int) < valPtr + value.length then (h, g, .ok (-1))
            else (h, W.withMemory g (data.take valPtr.toNat ++ value ++
              data.drop (valPtr.toNat + value.length)), .ok (lengthResult value.length))

/-- The value a `persist_state` argument denotes, or the call's result code. -/
def orCode {α : Type} (code : Int) : Option α → Except Int α
  | some a => .ok a
  | none => .error code

def requestedOp (op : Int) (value : Option Bytes) : Except Int WriteOp :=
  if op = 0 then (orCode (-4) value).map WriteOp.set
  else if op = 1 then .ok .delete
  else .error (-1)

def requestedVisibility (visibility : Int) (pdc : Option String) : Except Int WriteVisibility :=
  if visibility = 0 then .ok .pub
  else if visibility = 1 then
    match pdc with
    | none => .error (-4)
    | some name => if name = "" then .error (-3) else .ok (.pdc name)
  else .error (-2)

def requestedWrite (g : γ)
    (channelPtr channelLen contractPtr contractLen keyPtr keyLen valPtr valLen : Int)
    (op visibility pdcPtr pdcLen : Int) : Except Int PersistentWrite := do
  let channel ← orCode (-4) (W.readString g channelPtr channelLen)
  let contract ← orCode (-4) (W.readString g contractPtr contractLen)
  let key ← orCode (-4) (W.readString g keyPtr keyLen)
  let operation ← requestedOp op (W.read g valPtr valLen)
  let visible ← requestedVisibility visibility (W.readString g pdcPtr pdcLen)
  return ⟨channel, contract, key, operation, visible⟩

def persistState (requested : Except Int PersistentWrite) (h : HostState) :
    HostState × Except String Int :=
  match requested with
  | .error code => (h, .ok code)
  | .ok write =>
    let byteCount := match write.op with
      | .set value => value.length
      | .delete => 0
    match h.operationGas.chargeStateWrite byteCount with
    | (gas, .error e) => ({ h with operationGas := gas }, .error e)
    | (gas, .ok ()) => ({ h with operationGas := gas, writes := h.writes ++ [write] }, .ok 0)

/-- A host call that answers resumes the guest, one that fails traps it. -/
def resume {α : Type} (g : γ) (k : α → γ) :
    HostState × Except String α → Outcome (γ × HostState) String
  | (h, .ok a) => .next (k a, h)
  | (h, .error e) => .trapped e (g, h)

def perform (s : γ × HostState) : Outcome (γ × HostState) String :=
  match W.next s.1 with
  | .returned => .returned
  | .run g => .next (g, s.2)
  | .trap e => .trapped e s
  | .setState keyPtr keyLen valPtr valLen k =>
    resume s.1 (fun _ => k) (W.setState s.1 keyPtr keyLen valPtr valLen s.2)
  | .getStateLen keyPtr keyLen k => resume s.1 k (W.getStateLen s.1 keyPtr keyLen s.2)
  | .getState keyPtr keyLen valPtr valBufLen k =>
    let answer := W.getState s.1 keyPtr keyLen valPtr valBufLen s.2
    resume s.1 (k answer.2.1) (answer.1, answer.2.2)
  | .persistState channelPtr channelLen contractPtr contractLen keyPtr keyLen valPtr valLen op
      visibility pdcPtr pdcLen k =>
    resume s.1 k (persistState (W.requestedWrite s.1 channelPtr channelLen contractPtr contractLen
      keyPtr keyLen valPtr valLen op visibility pdcPtr pdcLen) s.2)

/-- `linker.instantiate`: the start function runs here, on the fuel of the store. The instructions
it ran, and the instance it leaves. -/
def instantiate (fuel : Nat) (m : WasmModule γ) (h : HostState) :
    Nat × Except String (γ × HostState) :=
  match m.links with
  | .error e => (0, .error e)
  | .ok () => match m.start with
    | none => (0, .ok (m.fresh, h))
    | some enter =>
      let ran := meter W.perform fuel (enter m.fresh, h)
      (ran.instructions, match ran.stop with
        | .returned => .ok ran.state
        | .outOfFuel => .error "all fuel consumed by WebAssembly"
        | .trapped e => .error e)

end Wasmtime

/-- What `execute_internal` returns, and the guest instructions it ran. -/
structure Execution where
  instructions : Nat
  result : Except CoreError ExecutionResult

namespace Wasmtime

variable {γ : Type} (W : Wasmtime γ)

def failure (contractId : String) (limits : ExecutionLimits) (fuelLeft operationUsed : Nat)
    (outOfFuel : Bool) (message : String) : CoreError :=
  if limits.operationGasLimit < operationUsed then
    .gasExhausted .operation operationUsed limits.operationGasLimit
  else if outOfFuel || fuelLeft == 0 then
    .gasExhausted .fuel (limits.fuelLimit - fuelLeft) limits.fuelLimit
  else .execution s!"wasm execution [{contractId}]: {message}"

variable (contractId : String)

/-- What is returned once `execute` has stopped. -/
def conclude (limits : ExecutionLimits) (ran : Metered (γ × HostState) String) :
    Except CoreError ExecutionResult :=
  let used := ran.state.2.operationGas.used
  match ran.stop with
  | .returned =>
    match (⟨ran.state.2.ephemeral, ran.state.2.writes⟩ : ExecutionResult).canonicalize with
    | .ok result => .ok result
    | .error e => .error (.execution s!"invalid write set [{contractId}]: {e.display}")
  | .outOfFuel => .error (failure contractId limits ran.fuel used true
      "all fuel consumed by WebAssembly")
  | .trapped e => .error (failure contractId limits ran.fuel used false e)

/-- From the instance on: the fuel is set to the caller's limit, the base cost charged, and
`execute` called. -/
def callExecute (limits : ExecutionLimits) (m : WasmModule γ) (instance_ : γ × HostState) :
    Execution :=
  let host := instance_.2
  let baseCost := host.operationGas.costs.baseExecution
  if limits.operationGasLimit < baseCost then
    ⟨0, .error (.gasExhausted .operation baseCost limits.operationGasLimit)⟩
  else match host.operationGas.charge baseCost with
    | (_, .error e) => ⟨0, .error (.execution s!"operation gas setup: {e}")⟩
    | (gas, .ok ()) => match m.execute with
      | .error e => ⟨0, .error (.execution s!"wasm export 'execute' [{contractId}]: {e}")⟩
      | .ok enter =>
        let ran := meter W.perform limits.fuelLimit
          (enter instance_.1, { host with operationGas := gas })
        ⟨ran.instructions, conclude contractId limits ran⟩

/-- The store's fuel is set twice: to `u64::MAX` for the instantiation, then to the limit. -/
def executeInternal (payload : Bytes) (initialState : WorldState) (limits : ExecutionLimits) :
    Execution :=
  match W.compile payload with
  | .error e => ⟨0, .error (.execution s!"wasm compile [{contractId}]: {e}")⟩
  | .ok m =>
    match W.instantiate u64Max m
      ⟨initialState, [], [], .new limits.operationGasLimit⟩ with
    | (started, .error e) =>
      ⟨started, .error (.execution s!"wasm instantiate [{contractId}]: {e}")⟩
    | (started, .ok instance_) =>
      let called := W.callExecute contractId limits m instance_
      { called with instructions := started + called.instructions }

/-- `WasmExecutionProvider::execute_with_state`. -/
def provider : ExecutionProvider := fun contractId payload initialState limits =>
  (W.executeInternal contractId payload initialState limits).result

variable {W} {m : WasmModule γ} {payload : Bytes}

lemma callExecute_instructions_le (limits : ExecutionLimits) (instance_ : γ × HostState) :
    (W.callExecute contractId limits m instance_).instructions ≤ limits.fuelLimit := by
  simp only [callExecute]
  split
  · exact Nat.zero_le _
  · split
    · exact Nat.zero_le _
    · split
      · exact Nat.zero_le _
      · exact meter_instructions_le _ _ _

def StartsIdle (W : Wasmtime γ) (payload : Bytes) : Prop :=
  ∀ m, W.compile payload = .ok m → m.links = .ok () → ∀ enter, m.start = some enter →
    W.next (enter m.fresh) = .returned

/-- A host call never ends the guest's function. -/
theorem resume_ne_returned {α : Type} (g : γ) (k : α → γ) (answer : HostState × Except String α) :
    resume g k answer ≠ .returned := by
  obtain ⟨h, e | a⟩ := answer <;> simp [resume]

lemma perform_eq_returned {s : γ × HostState} :
    W.perform s = .returned ↔ W.next s.1 = .returned := by
  unfold perform
  cases W.next s.1 <;> simp [resume_ne_returned]

/-- Nothing runs while a module is instantiated exactly when it does not link or starts idle. -/
theorem instantiate_idle_iff (fuel : Nat) (h : HostState) :
    (W.instantiate (fuel + 1) m h).1 = 0 ↔ m.links = .ok () → ∀ enter, m.start = some enter →
      W.next (enter m.fresh) = .returned := by
  unfold instantiate
  cases m.links with
  | error e => simp
  | ok =>
    cases m.start with
    | none => simp
    | some enter => simp [meter_instructions_eq_zero, perform_eq_returned]

lemma executeInternal_instructions (initialState : WorldState) (limits : ExecutionLimits)
    (compiled : W.compile payload = .ok m) :
    (W.instantiate u64Max m ⟨initialState, [], [], .new limits.operationGasLimit⟩).1 ≤
        (W.executeInternal contractId payload initialState limits).instructions ∧
      (W.executeInternal contractId payload initialState limits).instructions ≤
        (W.instantiate u64Max m ⟨initialState, [], [], .new limits.operationGasLimit⟩).1 +
          limits.fuelLimit := by
  simp only [executeInternal, compiled]
  split
  · rename_i started e found
    simp [found]
  · rename_i started instance_ found
    have called := callExecute_instructions_le (W := W) (m := m) contractId limits instance_
    simp only [found]
    omega

end Wasmtime

/-- Guest work stays within the fuel limit, whatever the initial state and the limits, exactly for
the payloads whose start function runs nothing: instantiation is given all the fuel there is. -/
theorem guest_work_bounded_iff {γ : Type} (W : Wasmtime γ) (payload : Bytes) :
    (∀ (contractId : String) (initialState : WorldState) (limits : ExecutionLimits),
      (W.executeInternal contractId payload initialState limits).instructions ≤
        limits.fuelLimit) ↔ W.StartsIdle payload := by
  have full : u64Max = 2 ^ 64 - 2 + 1 := by decide
  constructor
  · intro bounded m compiled
    -- without any fuel for `execute`, only the start function can have run
    have nothing := bounded "" ∅ ⟨0, 0⟩
    have started := (Wasmtime.executeInternal_instructions "" ∅ ⟨0, 0⟩ compiled).1
    rw [full] at started
    exact (Wasmtime.instantiate_idle_iff _ _).mp (Nat.le_zero.mp (started.trans nothing))
  · intro idle contractId initialState limits
    cases compiled : W.compile payload with
    | error e => simp [Wasmtime.executeInternal, compiled]
    | ok m =>
      have work := (Wasmtime.executeInternal_instructions contractId initialState limits compiled).2
      rw [full, (Wasmtime.instantiate_idle_iff _ _).mpr (idle m compiled)] at work
      omega

/-- A module whose start function counts down from the given number, and whose `execute` returns. -/
def countingModule (work : Nat) : WasmModule Nat := ⟨.ok (), 0, some fun _ => work, .ok fun _ => 0⟩

def countingGuest (work : Nat) : Wasmtime Nat where
  compile _ := .ok (countingModule work)
  next
    | 0 => .returned
    | n + 1 => .run n
  memory _ := none
  withMemory g _ := g
  fromUtf8Lossy _ := ""
  fromUtf8 _ := none

lemma countingGuest_meter (work : Nat) (h : HostState) {n fuel : Nat} (enough : n ≤ fuel) :
    meter (countingGuest work).perform fuel (n, h) = ⟨n, fuel - n, (0, h), .returned⟩ := by
  induction n generalizing fuel with
  | zero => exact meter_returned rfl
  | succ n ih =>
    obtain ⟨fuel, rfl⟩ : ∃ k, fuel = k + 1 := ⟨fuel - 1, by omega⟩
    have running : (countingGuest work).perform (n + 1, h) = .next (n, h) := rfl
    rw [meter_next running, ih (by omega)]
    simp

/-- The start function runs its whole count, whatever the fuel limit, and the execution succeeds. -/
theorem countingGuest_executeInternal (contractId : String) {work : Nat} (fuelLimit : Nat)
    (counted : work ≤ u64Max) :
    (countingGuest work).executeInternal contractId [] ∅ ⟨fuelLimit, 50000⟩ =
      ⟨work, .ok ⟨[], []⟩⟩ := by
  have compiled : (countingGuest work).compile [] = .ok (countingModule work) := rfl
  have started : (countingGuest work).instantiate u64Max (countingModule work)
      ⟨∅, [], [], .new 50000⟩ = (work, .ok (0, ⟨∅, [], [], .new 50000⟩)) := by
    simp only [Wasmtime.instantiate, countingModule, countingGuest_meter work _ counted]
  have called : (countingGuest work).callExecute contractId ⟨fuelLimit, 50000⟩
      (countingModule work) (0, ⟨∅, [], [], .new 50000⟩) = ⟨0, .ok ⟨[], []⟩⟩ := by
    simp only [Wasmtime.callExecute, countingModule, GasCounter.new, GasCosts.defaultCosts,
      GasCounter.charge, applyCharge, countingGuest_meter work _ (Nat.zero_le fuelLimit)]
    simp [Wasmtime.conclude, ExecutionResult.canonicalize, PersistentWrite.canonicalize,
      PersistentWrite.checkScopes, u64Max, bind, Except.bind, pure, Except.pure]
  simp only [Wasmtime.executeInternal, compiled, started, called]
  rfl

/-- A start function outruns the limits of the approval gate, and the execution succeeds. -/
theorem start_outruns_fuel_limit :
    (countingGuest 60000).executeInternal "wasm:contract:offer" [] ∅ ⟨50000, 50000⟩ =
      ⟨60000, .ok ⟨[], []⟩⟩ :=
  countingGuest_executeInternal "wasm:contract:offer" 50000 (by decide)

end GlassChain
