/-
# The key-value store model

`KVStoreModel` of `semantics/models/kv.hpp`.  `std::map` is a partial function from
keys, `V{}` is the default of the value type, and the serialization library
(`muesli`) is a parameter: reading arguments may fail.

Reads do not change the state, so that the clean-up before a check, which removes
reads that never returned, does not change what is linearizable.
-/
import WhirlMatrix.Semantics.Check
import Mathlib.Logic.Function.Basic

namespace Whirl.Semantics

/-! ## The store -/

/-- `KVStoreState`. -/
structure KVStoreState (K V : Type) where
  map : K → Option V := fun _ => none

section Store

variable {K V : Type} [DecidableEq K] [DecidableEq V] [Inhabited V]

namespace KVStoreState

/-- `Set`. -/
def set (state : KVStoreState K V) (k : K) (v : V) : KVStoreState K V where
  map := Function.update state.map k (some v)

omit [DecidableEq K] [DecidableEq V] in
/-- `Get`; `KVDefaultValue` for a key without a value. -/
def get (state : KVStoreState K V) (k : K) : V :=
  match state.map k with
  | some v => v
  | none => default

/-- `Cas`: the old value, and the store. -/
def cas (state : KVStoreState K V) (k : K) (expectedV targetV : V) : V × KVStoreState K V :=
  let old := state.get k
  if old == expectedV then (old, state.set k targetV) else (old, state)

end KVStoreState

/-! ## The model -/

/-- What the model calls of `muesli`: `Arguments::As` for one, two and three components,
`Value::Make` and `Value::MakeUnit`. -/
structure Muesli (K V : Type) where
  as1 : Arguments → Outcome K
  as2 : Arguments → Outcome (K × V)
  as3 : Arguments → Outcome (K × V × V)
  make : V → Value
  makeUnit : Value

namespace KVStoreModel

variable (muesli : Muesli K V)

/-- `Apply`. -/
def apply (current : KVStoreState K V) (method : String) (arguments : Arguments) :
    Outcome (Result (KVStoreState K V)) :=
  if method = "Set" then do
    let (k, v) ← muesli.as2 arguments
    return ⟨true, muesli.makeUnit, current.set k v⟩
  else if method = "Get" then do
    let k ← muesli.as1 arguments
    let v := current.get k
    return ⟨true, muesli.make v, current⟩
  else if method = "Cas" then do
    -- aka Compare-And-Set
    let (k, expectedV, targetV) ← muesli.as3 arguments
    let (old, next) := current.cas k expectedV targetV
    return ⟨true, muesli.make old, next⟩
  else
    .error .unreachable

/-- `IsMutation`. -/
def isMutation (call : Call) : Bool := call.method == "Set" || call.method == "Cas"

/-- `Decompose`. -/
def decompose (history : History) : List History := [history]

/-- `KVStoreModel` for the checker.  A call on which `Apply` does not return is refused
here; it is none of the calls that `IsCall` describes. -/
def model : CheckedModel (KVStoreState K V) where
  initialState := {}
  apply state method arguments :=
    match apply muesli state method arguments with
    | .ok result => result
    | .error _ => ⟨false, muesli.makeUnit, state⟩
  isMutation := isMutation
  decompose := decompose

omit [DecidableEq K] [DecidableEq V] [Inhabited V] in
/-- A call of `Set`, `Get` or `Cas` with arguments of their types. -/
def IsCall (call : Call) : Prop :=
  (call.method = "Set" ∧ ∃ kv, muesli.as2 call.arguments = .ok kv) ∨
  (call.method = "Get" ∧ ∃ k, muesli.as1 call.arguments = .ok k) ∨
  (call.method = "Cas" ∧ ∃ kvv, muesli.as3 call.arguments = .ok kvv)

variable {muesli} {call : Call} {history : History}

/-- A call that is no mutation leaves the store as it is. -/
theorem nextState_of_not_isMutation (h : IsCall muesli call) (hread : isMutation call = false)
    (state : KVStoreState K V) :
    ((model muesli).apply state call.method call.arguments).nextState = state := by
  unfold isMutation at hread
  simp only [Bool.or_eq_false_iff, beq_eq_false_iff_ne] at hread
  rcases h with ⟨hmethod, -⟩ | ⟨hmethod, k, hargs⟩ | ⟨hmethod, -⟩
  · exact absurd hmethod hread.1
  · show (match apply muesli state call.method call.arguments with
      | .ok r => r | .error _ => _).nextState = _
    unfold apply
    rw [hmethod, hargs]
    rfl
  · exact absurd hmethod hread.2

/-- **The clean-up changes no verdict.**  A history of a store is linearizable exactly when
the cleaned history is; no linearizable history is rejected, whatever the budget; and
`LinCheck` agrees with `LinCheckImpl` when both searches end within it. -/
theorem verdict_of_cleanup (hcalls : ∀ call ∈ history, IsCall muesli call)
    (ht : WellTimed history) :
    (Linearizable (model muesli).toModel history ↔
        Linearizable (model muesli).toModel (cleanup (model muesli) history)) ∧
      (∀ timeLimit, Linearizable (model muesli).toModel history →
        linCheck (model muesli) timeLimit history = some true) ∧
      ∀ timeLimit, Decides (model muesli) timeLimit (cleanup (model muesli) history) →
        Decides (model muesli) timeLimit history →
          linCheck (model muesli) timeLimit history
            = linCheckImpl (model muesli) timeLimit history := by
  have hiff : Linearizable (model muesli).toModel (cleanup (model muesli) history) ↔
      Linearizable (model muesli).toModel history :=
    linearizable_cleanup_iff fun call hcall hread =>
      nextState_of_not_isMutation (hcalls call hcall) hread
  -- the decomposition has a single part
  have hloop : ∀ timeLimit ok,
      linCheckImpl (model muesli) timeLimit (cleanup (model muesli) history) = some ok →
        linCheck (model muesli) timeLimit history = some ok := by
    intro timeLimit ok hok
    show (do
      let ok ← linCheckImpl (model muesli) timeLimit (cleanup (model muesli) history)
      if !ok then return false
      some true : Option Bool) = some ok
    rw [hok]
    cases ok <;> rfl
  refine ⟨hiff.symm, fun timeLimit hlin => ?_, fun timeLimit hclean hplain => ?_⟩
  · exact hloop timeLimit true (linCheckImpl_of_linearizable ht.cleanup (hiff.mpr hlin))
  · rcases linCheckImpl_of_decides ht hplain with ⟨himpl, hlin⟩ | ⟨himpl, hlin⟩
    · rw [himpl]
      exact hloop timeLimit true (linCheckImpl_of_linearizable ht.cleanup (hiff.mpr hlin))
    · rcases linCheckImpl_of_decides ht.cleanup hclean with ⟨-, hlin'⟩ | ⟨himpl', -⟩
      · exact absurd (hiff.mp hlin') hlin
      · rw [himpl]
        exact hloop timeLimit false himpl'

end KVStoreModel

end Store

/-! ## A store of bytes -/

/-- Keys and values that are one byte each. -/
def byteMuesli : Muesli UInt8 UInt8 where
  as1 arguments :=
    match arguments.bytes with
    | [k] => .ok k
    | _ => .error .undefined
  as2 arguments :=
    match arguments.bytes with
    | [k, v] => .ok (k, v)
    | _ => .error .undefined
  as3 arguments :=
    match arguments.bytes with
    | [k, expectedV, targetV] => .ok (k, expectedV, targetV)
    | _ => .error .undefined
  make v := ⟨[v]⟩
  makeUnit := ⟨[]⟩

/-- A write, a read of the old value that starts after it, and a read that never returned. -/
def staleReadHistory : History :=
  [⟨"Set", ⟨[1, 7]⟩, some ⟨[]⟩, 1, some 2, []⟩, ⟨"Get", ⟨[1]⟩, some ⟨[0]⟩, 3, some 4, []⟩,
    ⟨"Get", ⟨[1]⟩, none, 3, none, []⟩]

/-- The history is rejected with and without the clean-up. -/
theorem KVStoreModel.verdict_of_cleanup_staleRead :
    linCheck (model byteMuesli) 100 staleReadHistory = some false ∧
      linCheck (model byteMuesli) 100 staleReadHistory
        = linCheckImpl (model byteMuesli) 100 staleReadHistory := by
  have hcalls : ∀ call ∈ staleReadHistory, IsCall byteMuesli call := by
    intro call hcall
    simp only [staleReadHistory, List.mem_cons, List.not_mem_nil, or_false] at hcall
    rcases hcall with rfl | rfl | rfl
    · exact Or.inl ⟨rfl, _, rfl⟩
    · exact Or.inr (Or.inl ⟨rfl, _, rfl⟩)
    · exact Or.inr (Or.inl ⟨rfl, _, rfl⟩)
  have ht : WellTimed staleReadHistory := by
    intro call hcall t htime
    simp only [staleReadHistory, List.mem_cons, List.not_mem_nil, or_false] at hcall
    rcases hcall with rfl | rfl | rfl
    · obtain rfl := Option.some.inj htime
      decide
    · obtain rfl := Option.some.inj htime
      decide
    · exact absurd htime (by simp)
  obtain ⟨-, -, hagree⟩ := verdict_of_cleanup hcalls ht
  exact ⟨by decide, hagree 100 ⟨_, _, rfl, by decide⟩ ⟨_, _, rfl, by decide⟩⟩

end Whirl.Semantics
