import Ellipticoind.Ports.Script
import Ellipticoind.Ports.VMRun

/-!
# The functions that a module imports

`import_resolver.rs` gives each name that a contract may import a signature and an index;
`invoke_index` of `externals.rs` runs what has the index.  The interpreter has checked a
module's calls against the signatures, and it ends a call in a trap if what a host function
answers is not of the type that the signature declares.

## Main results

* `name_of_index` — no two names have an index in common.
* `resolved_conforms` — what is resolved reads only the arguments of its signature, and
  answers a value of its type.
-/

namespace Ellipticoind.Ports

open Ellipticoind.Verified.StateRun

/-! ## `import_resolver.rs` -/

/-- `metered_wasmi::ValueType`. -/
inductive ValueType where
  | i32
  | i64
  | f32
  | f64
  deriving DecidableEq

def RuntimeValue.valueType : RuntimeValue → ValueType
  | .i32 _ => .i32
  | .i64 _ => .i64
  | .f32 _ => .f32
  | .f64 _ => .f64

/-- `metered_wasmi::Signature`. -/
structure Signature where
  params : List ValueType
  returnType : Option ValueType
  deriving DecidableEq

/-- `FuncInstance::alloc_host`. -/
structure HostFunc where
  signature : Signature
  index : Nat
  deriving DecidableEq

/-- `resolve_func`; what the module expects is not looked at. -/
def resolveFunc (fieldName : String) : Except String HostFunc :=
  match fieldName with
  | "__contract_address" => .ok ⟨⟨[], some .i32⟩, CONTRACT_ADDRESS_FUNC_INDEX⟩
  | "__sender" => .ok ⟨⟨[], some .i32⟩, SENDER_FUNC_INDEX⟩
  | "__block_hash" => .ok ⟨⟨[], some .i32⟩, BLOCK_HASH_FUNC_INDEX⟩
  | "__block_number" => .ok ⟨⟨[], some .i32⟩, BLOCK_NUMBER_FUNC_INDEX⟩
  | "__block_winner" => .ok ⟨⟨[], some .i32⟩, BLOCK_WINNER_FUNC_INDEX⟩
  | "__caller" => .ok ⟨⟨[], some .i32⟩, CALLER_FUNC_INDEX⟩
  | "__get_memory" => .ok ⟨⟨[.i32], some .i32⟩, GET_MEMORY_FUNC_INDEX⟩
  | "__set_memory" => .ok ⟨⟨[.i32, .i32], none⟩, SET_MEMORY_FUNC_INDEX⟩
  | "__get_storage" => .ok ⟨⟨[.i32], some .i32⟩, GET_STORAGE_FUNC_INDEX⟩
  | "__set_storage" => .ok ⟨⟨[.i32, .i32], none⟩, SET_STORAGE_FUNC_INDEX⟩
  | "throw" => .ok ⟨⟨[.i32], none⟩, THROW_FUNC_INDEX⟩
  | "__call" => .ok ⟨⟨[.i32, .i32, .i32], some .i32⟩, CALL_FUNC_INDEX⟩
  | "__log_write" => .ok ⟨⟨[.i32, .i32], none⟩, LOG_WRITE⟩
  | name => .error ("host module doesn't export function with name " ++ name)

/-! ## Names and indices -/

/-- The names that are resolved, in the order of their indices. -/
def hostNames : List String :=
  [ "__contract_address", "__sender", "__block_hash", "__block_number", "__block_winner"
  , "__caller", "__get_memory", "__set_memory", "__get_storage", "__set_storage", "throw"
  , "__call", "__log_write" ]

/-- What is resolved stands at its index. -/
theorem name_of_index {name : String} {func : HostFunc} (h : resolveFunc name = .ok func) :
    hostNames[func.index]? = some name := by
  unfold resolveFunc at h
  split at h <;> cases h <;> rfl

/-! ## What host functions answer -/

variable {P : Platform}

/-- Every result is like that. -/
def Answers {α : Type} (p : α → Prop) (x : Run P α) : Prop :=
  ∀ vm a vm', x vm = .ok (a, vm') → p a

theorem Answers.bind {α β : Type} {p : β → Prop} {x : Run P α} {f : α → Run P β}
    (hf : ∀ a, Answers p (f a)) : Answers p (x >>= f) := by
  intro vm b vm' h
  obtain ⟨a, vm₁, -, hb⟩ := bind_eq_ok.mp h
  exact hf a vm₁ b vm' hb

theorem Answers.pure {α : Type} {p : α → Prop} {a : α} (h : p a) :
    Answers p (Pure.pure a : Run P α) := by
  intro vm b vm' hb
  cases pure_eq_ok.mp hb
  exact h

theorem Answers.panic {α : Type} {p : α → Prop} : Answers p (VM.panic : Run P α) :=
  fun _ _ _ h => absurd h throw_ne_ok

/-- A value of this type, or none, if there is no trap. -/
def Typed (returnType : Option ValueType) (r : Except TrapKind (Option RuntimeValue)) : Prop :=
  ∀ value, r = .ok value → value.map RuntimeValue.valueType = returnType

theorem typed_trap {returnType : Option ValueType} (trap : TrapKind) :
    Typed returnType (.error trap) := nofun

theorem typed_none : Typed none (.ok none) := by
  rintro value ⟨⟩
  rfl

theorem typed_i32 (pointer : I32) : Typed (some .i32) (.ok (some (.i32 pointer))) := by
  rintro value ⟨⟩
  rfl

theorem answers_writePointer (invoke : Invoke P) (vec : Bytes) :
    Answers (Typed (some .i32)) (VM.writePointer invoke vec) := by
  refine Answers.bind fun r => ?_
  cases r with
  | error trap => exact Answers.pure (typed_trap trap)
  | ok pointer => exact Answers.bind fun _ => Answers.pure (typed_i32 pointer)

theorem answers_answer (invoke : Invoke P) (r : Except TrapKind Bytes) :
    Answers (Typed (some .i32)) (VM.answer invoke r) := by
  cases r with
  | error trap => exact Answers.pure (typed_trap trap)
  | ok bytes => exact answers_writePointer invoke bytes

theorem answers_setState (write : Bytes → Bytes → Run P Unit) (cost : Nat) (key value : I32) :
    Answers (Typed none) (VM.setState write cost key value) := by
  refine Answers.bind fun _ => Answers.bind fun _ => Answers.bind fun _ =>
    Answers.bind fun r => ?_
  cases r with
  | error trap => exact Answers.pure (typed_trap trap)
  | ok => exact Answers.bind fun _ => Answers.bind fun _ => Answers.pure typed_none

theorem answers_log (level message : I32) :
    Answers (Typed none) (VM.log (P := P) level message) :=
  Answers.bind fun _ => Answers.bind fun _ => Answers.bind fun _ => Answers.pure typed_none

/-! ## What is resolved and what is run -/

/-- The reader gives these arguments; what it does at other positions is left open. -/
def GivesArgs (args : List I32) (arg : Nat → Run P I32) : Prop :=
  ∀ index value, args[index]? = some value → arg index = pure value

theorem givesArgs_nth (args extra : List I32) :
    GivesArgs args (VM.nth (P := P) (args ++ extra)) := by
  intro index value h
  unfold VM.nth
  rw [List.getElem?_append_left (List.getElem?_eq_some_iff.mp h).choose, h]
  rfl

/-- A reader that gives a value at every position. -/
theorem givesArgs_getD (args : List I32) :
    GivesArgs args (fun index => (pure (args.getD index 0) : Run P I32)) := by
  intro index value h
  simp [h]

/-- A host function that is given its arguments, and perhaps others behind them, does what
it does with any reader that gives the arguments: at no other position does it read.  So it
runs as with a reader that gives a value everywhere, and no read of an argument panics.  It
answers what its signature declares. -/
structure Conforms (new : Bytes → Except Stop (Instance P.Globals)) (invoke : Invoke P)
    (func : HostFunc) (args extra : List I32) : Prop where
  reads : ∀ arg, GivesArgs args arg → VM.invokeIndex new invoke func.index (args ++ extra) =
    VM.invokeIndexWith new invoke func.index arg
  total : VM.invokeIndex new invoke func.index (args ++ extra) =
    VM.invokeIndexWith new invoke func.index fun index => pure (args.getD index 0)
  typed : Answers (Typed func.signature.returnType)
    (VM.invokeIndex new invoke func.index (args ++ extra))

/-- What is resolved does the same with two readers that give its arguments. -/
theorem invokeIndexWith_congr {name : String} {func : HostFunc}
    (h : resolveFunc name = .ok func) (new : Bytes → Except Stop (Instance P.Globals))
    (invoke : Invoke P) {args : List I32}
    (hargs : args.length = func.signature.params.length) {arg arg' : Nat → Run P I32}
    (harg : GivesArgs args arg) (harg' : GivesArgs args arg') :
    VM.invokeIndexWith new invoke func.index arg =
      VM.invokeIndexWith new invoke func.index arg' := by
  have hsame : ∀ index < args.length, arg index = arg' index := fun index hlt =>
    (harg index _ (List.getElem?_eq_getElem hlt)).trans
      (harg' index _ (List.getElem?_eq_getElem hlt)).symm
  rw [hargs] at hsame
  unfold resolveFunc at h
  split at h <;> cases h
  case h_1 | h_2 | h_3 | h_4 | h_5 | h_6 | h_11 => rfl
  case h_7 | h_9 =>
    simp only [VM.invokeIndexWith, GET_MEMORY_FUNC_INDEX, GET_STORAGE_FUNC_INDEX,
      hsame 0 (by decide)]
  case h_8 | h_10 | h_13 =>
    simp only [VM.invokeIndexWith, SET_MEMORY_FUNC_INDEX, SET_STORAGE_FUNC_INDEX, LOG_WRITE,
      hsame 0 (by decide), hsame 1 (by decide)]
  case h_12 =>
    simp only [VM.invokeIndexWith, CALL_FUNC_INDEX, hsame 0 (by decide), hsame 1 (by decide),
      hsame 2 (by decide)]

/-- What is resolved answers what its signature declares. -/
theorem answers_invokeIndex {name : String} {func : HostFunc}
    (h : resolveFunc name = .ok func) (new : Bytes → Except Stop (Instance P.Globals))
    (invoke : Invoke P) (args : List I32) :
    Answers (Typed func.signature.returnType) (VM.invokeIndex new invoke func.index args) := by
  unfold resolveFunc at h
  split at h <;> cases h
  case h_1 | h_2 | h_3 | h_4 | h_5 | h_6 =>
    exact Answers.bind fun _ => Answers.bind fun _ => answers_writePointer _ _
  case h_7 | h_9 =>
    exact Answers.bind fun _ => Answers.bind fun _ => Answers.bind fun r =>
      answers_answer _ r
  case h_8 | h_10 =>
    exact Answers.bind fun _ => Answers.bind fun _ => Answers.bind fun _ =>
      answers_setState _ _ _ _
  case h_11 =>
    exact Answers.bind fun _ => Answers.pure typed_none
  case h_12 =>
    exact Answers.bind fun _ => Answers.bind fun _ => Answers.bind fun _ =>
      Answers.bind fun _ => Answers.bind fun r => answers_answer _ r
  case h_13 =>
    exact Answers.bind fun _ => Answers.bind fun _ => Answers.bind fun _ =>
      answers_log _ _

/-- **What is resolved reads only the arguments of its signature, and answers a value of its
type**: there is one name for each index, and a call that has been checked against the
signature never ends because of an argument that is not there or because of its result. -/
theorem resolved_conforms {name : String} {func : HostFunc} (h : resolveFunc name = .ok func)
    (new : Bytes → Except Stop (Instance P.Globals)) (invoke : Invoke P) (args extra : List I32)
    (hargs : args.length = func.signature.params.length) :
    (∀ name' func', resolveFunc name' = .ok func' → func'.index = func.index → name' = name) ∧
      Conforms new invoke func args extra := by
  refine ⟨fun name' func' h' hindex => ?_, ?_⟩
  · have hname := name_of_index h'
    rw [hindex, name_of_index h] at hname
    exact (Option.some.inj hname).symm
  · have hreads : ∀ arg, GivesArgs args arg →
        VM.invokeIndex new invoke func.index (args ++ extra) =
          VM.invokeIndexWith new invoke func.index arg := fun arg harg =>
      invokeIndexWith_congr h new invoke hargs (givesArgs_nth args extra) harg
    exact
      { reads := hreads
        total := hreads _ (givesArgs_getD args)
        typed := answers_invokeIndex h new invoke _ }

/-- A call of another contract, in a module without exports. -/
theorem resolved_conforms_at_call :
    Conforms (P := Script.platform []) (fun _ => .error .panic) (fun _ _ => VM.panic)
      ⟨⟨[.i32, .i32, .i32], some .i32⟩, CALL_FUNC_INDEX⟩ [1, 2, 3] [4] := by
  have h : resolveFunc "__call" =
    .ok ⟨⟨[.i32, .i32, .i32], some .i32⟩, CALL_FUNC_INDEX⟩ := rfl
  exact (resolved_conforms h (fun _ => .error .panic) (fun _ _ => VM.panic)
    [1, 2, 3] [4] rfl).2

end Ellipticoind.Ports
