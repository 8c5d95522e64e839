import Ellipticoind.Ports.NestedCall
import Ellipticoind.Ports.ValueCodec

/-!
# What a calling contract is answered

`result.rs` writes a result as four bytes for its code and then its value in CBOR.
`external_call` answers its callee's result so, but where the callee's address has no code
it answers the CBOR of a pair instead.

## Main results

* `fromBytes_toBytes` — a result is read as it was written.
* `well_formed_result_iff` — the answer is the callee's result exactly if there is code
  under the callee's address.
-/

namespace Ellipticoind.Ports

open Ellipticoind.Verified
open Ellipticoind.Verified.LittleEndian
open Ellipticoind.Verified.StateRun

variable {P : Platform}

/-! ## `result.rs` -/

/-- A result is read as it was written, if its value is. -/
theorem fromBytes_toBytes {r : Result} (hcode : r.1 < 2 ^ 32)
    (hvalue : P.fromSlice (P.toVec r.2) = some r.2) : fromBytes P (toBytes P r) = .ok r := by
  have hlength := length_leBytes 4 r.1
  have hread : leNat (leBytes 4 r.1) = r.1 :=
    (leNat_leBytes 4 r.1).trans (Nat.mod_eq_of_lt hcode)
  unfold fromBytes toBytes
  rw [if_neg (by rw [List.length_append]; omega), if_neg (by rw [List.length_append]; omega),
    List.drop_left' hlength, List.take_left' hlength, hvalue, hread]
  rfl

/-- The code that is read is a `u32`. -/
theorem fromBytes_code_lt {bytes : Bytes} {r : Result} (h : fromBytes P bytes = .ok r) :
    r.1 < 2 ^ 32 := by
  unfold fromBytes at h
  split at h
  · cases h
    decide
  · split at h
    · cases h
    · cases hvalue : unwrap (P.fromSlice (bytes.drop 4)) with
      | error stop =>
          rw [hvalue] at h
          cases h
      | ok value =>
          rw [hvalue] at h
          cases h
          have hlt := leNat_lt (bytes.take 4)
          have hlength : (bytes.take 4).length ≤ 4 := List.length_take_le 4 bytes
          exact hlt.trans_le (Nat.pow_le_pow_right (by decide) hlength)

/-- A result of `VM::call` has a `u32` for its code, whatever the contract returned. -/
theorem call_code_lt {invoke : Invoke P} {func : String} {arguments : List Value}
    {vm vm' : VM P} {callEnd : CallEnd}
    (h : VM.call invoke func arguments vm = .ok (callEnd, vm')) :
    callEnd.result.1 < 2 ^ 32 := by
  cases callEnd with
  | trapped kind => exact (by decide : 1 < 2 ^ 32)
  | argumentTrapped kind => exact (by decide : 1 < 2 ^ 32)
  | argumentPanic => exact (by decide : 1 < 2 ^ 32)
  | returned result =>
      unfold VM.call at h
      obtain ⟨r, vm₁, harguments, h⟩ := bind_eq_ok.mp h
      split at h
      · cases pure_eq_ok.mp h
        rcases writeArguments_error harguments with hpanic | ⟨_, htrap⟩
        · cases hpanic
        · cases htrap
      · obtain ⟨r, vm₂, _, h⟩ := bind_eq_ok.mp h
        split at h
        · obtain ⟨_, _, _, h⟩ := bind_eq_ok.mp h
          obtain ⟨bytes, _, _, h⟩ := bind_eq_ok.mp h
          obtain ⟨result', _, hresult, h⟩ := bind_eq_ok.mp h
          cases pure_eq_ok.mp h
          exact fromBytes_code_lt (lift_eq_ok.mp hresult).1
        · obtain ⟨_, _, _, h⟩ := bind_eq_ok.mp h
          cases pure_eq_ok.mp h
        · cases throw_ne_ok h
        · cases throw_ne_ok h

/-! ## The callee's result -/

namespace VM

/-- The code under the address at the pointer. -/
def calleeCode (contractAddressPointer : I32) : Run P Bytes := do
  let contractAddress ← readPointer contractAddressPointer
  storageGet (rightPadVec contractAddress 64 0)

/-- The callee's result, before `external_call` makes bytes of it. -/
def calleeResult (newModuleInstance : Bytes → Except Stop (Instance P.Globals))
    (invoke : Invoke P)
    (contractAddressPointer functionNamePointer argumentsPointer : I32) : Run P Result := do
  let contractAddress ← readPointer contractAddressPointer
  let functionNameBytes ← readPointer functionNamePointer
  let functionName ← unwrap (strFromUtf8 functionNameBytes)
  let argumentsBytes ← readPointer argumentsPointer
  let arguments ← unwrap (P.fromSliceVec argumentsBytes)
  let code ← storageGet (rightPadVec contractAddress 64 0)
  if code.length = 0 then pure contractNotFound
  else
    let moduleInstance ← newModuleInstance code
    let (callEnd, _) ←
      nestedCall invoke moduleInstance contractAddress functionName arguments
    pure callEnd.result

end VM

/-- There is code under the address at the pointer. -/
def CalleeFound (contractAddressPointer : I32) (vm : VM P) : Prop :=
  ∃ code vm', VM.calleeCode contractAddressPointer vm = .ok (code, vm') ∧ code.length ≠ 0

/-- What `external_call` answers where there is no code, in a frame with that limit. -/
def notFoundBytes (P : Platform) (gasLimit : Nat) : Bytes :=
  P.toVec (.array
    [ .array [.integer contractNotFound.1, contractNotFound.2]
    , .integer (gasLimit % 2 ^ 32 : Nat) ])

theorem calleeFound_iff {a : I32} {vm vm' : VM P} {code : Bytes}
    (h : VM.calleeCode a vm = .ok (code, vm')) : CalleeFound a vm ↔ code.length ≠ 0 := by
  unfold CalleeFound
  rw [h]
  constructor
  · rintro ⟨code', vm'', heq, hne⟩
    cases heq
    exact hne
  · exact fun hne => ⟨code, vm', rfl, hne⟩

/-- So is the code of a callee's result. -/
theorem nestedCall_code_lt {invoke : Invoke P} {inst : Instance P.Globals} {address : Bytes}
    {name : String} {arguments : List Value} {vm vm' : VM P} {callEnd : CallEnd}
    {gasLeft : Option Nat}
    (h : VM.nestedCall invoke inst address name arguments vm =
      .ok ((callEnd, gasLeft), vm')) : callEnd.result.1 < 2 ^ 32 := by
  unfold VM.nestedCall at h
  obtain ⟨⟨callEnd', callee⟩, hcall, h⟩ := except_bind_eq_ok.mp h
  cases h
  exact call_code_lt hcall

/-- The callee has a result behind every answer, and what the answer is depends on whether
the callee was found. -/
theorem externalCall_result {new : Bytes → Except Stop (Instance P.Globals)}
    {invoke : Invoke P} {a f g : I32} {vm vm' : VM P} {bytes : Bytes}
    (h : VM.externalCall new invoke a f g vm = .ok (.ok bytes, vm')) :
    ∃ result vm₁, VM.calleeResult new invoke a f g vm = .ok (result, vm₁) ∧
      result.1 < 2 ^ 32 ∧
      ((CalleeFound a vm ∧ bytes = toBytes P result) ∨
        (¬ CalleeFound a vm ∧ result = contractNotFound ∧
          bytes = notFoundBytes P vm.transaction.gasLimit)) := by
  unfold VM.externalCall at h
  obtain ⟨address, vm₁, haddress, h⟩ := bind_eq_ok.mp h
  cases readPointer_state haddress
  obtain ⟨nameBytes, vm₂, hnameBytes, h⟩ := bind_eq_ok.mp h
  cases readPointer_state hnameBytes
  obtain ⟨name, vm₃, hname, h⟩ := bind_eq_ok.mp h
  cases (lift_eq_ok.mp hname).2
  obtain ⟨argumentsBytes, vm₄, hargumentsBytes, h⟩ := bind_eq_ok.mp h
  cases readPointer_state hargumentsBytes
  obtain ⟨arguments, vm₅, harguments, h⟩ := bind_eq_ok.mp h
  cases (lift_eq_ok.mp harguments).2
  obtain ⟨code, vm₆, hcode, h⟩ := bind_eq_ok.mp h
  have hcallee : VM.calleeCode a vm = .ok (code, vm₆) := (bind_of_ok haddress).trans hcode
  have hfound := calleeFound_iff hcallee
  -- the two computations take the same steps up to here
  have hsteps : VM.calleeResult new invoke a f g vm =
      (if code.length = 0 then pure contractNotFound
        else do
          let moduleInstance ← new code
          let (callEnd, _) ← VM.nestedCall invoke moduleInstance address name arguments
          pure callEnd.result : Run P Result) vm₆ := by
    unfold VM.calleeResult
    rw [bind_of_ok haddress, bind_of_ok hnameBytes, bind_of_ok hname,
      bind_of_ok hargumentsBytes, bind_of_ok harguments, bind_of_ok hcode]
  rw [hsteps]
  cases storageGet_state hcode
  split at h
  · rename_i hempty
    obtain ⟨gasLimit, vm₇, hlimit, h⟩ := bind_eq_ok.mp h
    obtain ⟨rfl, rfl⟩ := read_eq_ok.mp hlimit
    cases pure_eq_ok.mp h
    rw [if_pos hempty]
    exact ⟨contractNotFound, _, rfl, by decide,
      .inr ⟨fun hf => hfound.mp hf hempty, rfl, rfl⟩⟩
  · rename_i hne
    obtain ⟨inst, vm₇, hinst, h⟩ := bind_eq_ok.mp h
    obtain ⟨⟨callEnd, gasLeft⟩, vm₈, hnested, h⟩ := bind_eq_ok.mp h
    obtain ⟨used, vm₉, _, h⟩ := bind_eq_ok.mp h
    obtain ⟨paid, vm₁₀, _, h⟩ := bind_eq_ok.mp h
    rw [if_neg hne, bind_of_ok hinst, bind_of_ok hnested]
    refine ⟨callEnd.result, vm₈, rfl, nestedCall_code_lt hnested,
      .inl ⟨hfound.mpr hne, ?_⟩⟩
    split at h
    · cases pure_eq_ok.mp h
    · cases pure_eq_ok.mp h
      rfl

/-! ## The answer -/

/-- A short array is written with its length in its first byte. -/
def ShortArrays (P : Platform) : Prop :=
  ∀ items, items.length < 24 →
    (P.toVec (.array items)).head? = some (0x80 + UInt8.ofNat items.length)

/-- Where there is no code, the code that is read is none of a missing contract: its lowest
byte is the head of an array. -/
theorem fromBytes_notFoundBytes (harrays : ShortArrays P) (gasLimit : Nat) :
    fromBytes P (notFoundBytes P gasLimit) ≠ .ok contractNotFound := by
  intro h
  have hhead : (notFoundBytes P gasLimit).head? = some 0x82 :=
    harrays _ (show 2 < 24 by decide)
  cases hbytes : notFoundBytes P gasLimit with
  | nil =>
      rw [hbytes] at hhead
      cases hhead
  | cons byte rest =>
      rw [hbytes, List.head?_cons, Option.some.injEq] at hhead
      subst hhead
      rw [hbytes] at h
      unfold fromBytes at h
      rw [if_neg (by simp)] at h
      split at h
      · cases h
      · cases hvalue : unwrap (P.fromSlice ((0x82 :: rest).drop 4)) with
        | error stop =>
            rw [hvalue] at h
            cases h
        | ok value =>
            rw [hvalue] at h
            have hcode : leNat (0x82 :: rest.take 3) = 2 := congrArg Prod.fst (Except.ok.inj h)
            rw [leNat, show (0x82 : UInt8).toNat = 130 from rfl] at hcode
            omega

/-- **When the answer is the callee's result.**  Bytes that `external_call` gives to its
caller decode to the callee's code and value exactly if there is code under the callee's
address: every outcome of a callee that runs is written as `from_bytes` reads it, and a
missing contract is not.  What `to_bytes` writes, `from_bytes` reads. -/
theorem well_formed_result_iff (harrays : ShortArrays P)
    {new : Bytes → Except Stop (Instance P.Globals)} {invoke : Invoke P} {a f g : I32}
    {vm vm' : VM P} {bytes : Bytes}
    (h : VM.externalCall new invoke a f g vm = .ok (.ok bytes, vm')) :
    (∃ result vm₁, VM.calleeResult new invoke a f g vm = .ok (result, vm₁) ∧
      (P.fromSlice (P.toVec result.2) = some result.2 →
        (fromBytes P bytes = .ok result ↔ CalleeFound a vm))) ∧
    ∀ r : Result, r.1 < 2 ^ 32 → P.fromSlice (P.toVec r.2) = some r.2 →
      fromBytes P (toBytes P r) = .ok r := by
  refine ⟨?_, fun r hcode hvalue => fromBytes_toBytes hcode hvalue⟩
  obtain ⟨result, vm₁, hresult, hcode, ⟨hfound, rfl⟩ | ⟨hmissing, rfl, rfl⟩⟩ :=
    externalCall_result h
  · exact ⟨result, vm₁, hresult, fun hvalue =>
      ⟨fun _ => hfound, fun _ => fromBytes_toBytes hcode hvalue⟩⟩
  · exact ⟨contractNotFound, vm₁, hresult, fun _ =>
      ⟨fun hread => absurd hread (fromBytes_notFoundBytes harrays _),
        fun hfound => absurd hfound hmissing⟩⟩

/-! ## A callee, and none -/

theorem Value.length_toItems (values : List Value) :
    (Value.toItems values).length = values.length := by
  induction values with
  | nil => rfl
  | cons value rest ih => rw [Value.toItems, List.length_cons, ih, List.length_cons]

namespace Script

theorem shortArrays_cbor (contracts : List (Bytes × Contract)) :
    ShortArrays (cborPlatform contracts) := by
  intro items hshort
  have hinfo : Cbor.info (Value.toItems items).length = items.length := by
    rw [Value.length_toItems, Cbor.info, if_pos hshort]
  show ((Value.toItem (.array items)).write).head? = _
  rw [Value.toItem, Cbor.Item.write, Cbor.writeHead, hinfo]
  have hadd : 0x80 + UInt8.ofNat items.length = UInt8.ofNat (32 * 4 + items.length) :=
    (UInt8.ofNat_add 128 items.length).symm
  rw [hadd]
  rfl

/-- Returns the code 7 and the value 5. -/
def answerer : Contract where
  exports := [("f", [.answer 0])]
  memory := slot [7, 0, 0, 0, 5]

def answererPlatform : Platform := cborPlatform [([1], answerer)]

/-- A frame about to call the function `f` of the contract `B`, among some contracts. -/
def beforeCallAmong (codes : List (Bytes × Bytes)) : VM answererPlatform :=
  (callA "f").frame
    { globals := [], memory := .memory (slot [66] ++ slot [0x66] ++ slot [0x80]) }
    (Memory.new ∅ ∅) (Storage.new ∅ ∅ (deployed codes)) firstBlock

/-- The nested call of that frame. -/
def callBAmong (codes : List (Bytes × Bytes)) :
    Except Stop (Except TrapKind Bytes × VM answererPlatform) :=
  VM.externalCall (newModuleInstance answererPlatform 5) (invoke answererPlatform 5 []) 0 5 10
    (beforeCallAmong codes)

/-- Its callee's result. -/
def resultAmong (codes : List (Bytes × Bytes)) :
    Except Stop (Result × VM answererPlatform) :=
  VM.calleeResult (newModuleInstance answererPlatform 5) (invoke answererPlatform 5 []) 0 5 10
    (beforeCallAmong codes)

end Script

open Script in
/-- There is no contract `B`: the pair that its caller is answered is no result. -/
theorem missing_callee_is_ill_formed :
    ¬ ∀ (P : Platform) (new : Bytes → Except Stop (Instance P.Globals)) (invoke : Invoke P)
      (a f g : I32) (vm vm' vm₁ : VM P) (bytes : Bytes) (result : Result),
      (∀ value, value.toItem.fits 128 = true → P.fromSlice (P.toVec value) = some value) →
        VM.externalCall new invoke a f g vm = .ok (.ok bytes, vm') →
          VM.calleeResult new invoke a f g vm = .ok (result, vm₁) →
            fromBytes P bytes = .ok result := by
  intro h
  have hcall : (callBAmong []).toOption.map (fun p => p.1.toOption) =
      some (some (notFoundBytes answererPlatform 100000)) := by rfl
  obtain ⟨⟨r, vm'⟩, hcall, hbytes⟩ := exists_ok_of_map hcall
  have hresult : (resultAmong []).toOption.map Prod.fst = some contractNotFound := by rfl
  obtain ⟨⟨result, vm₁⟩, hresult, hvalue⟩ := exists_ok_of_map hresult
  cases r with
  | error trap => cases hbytes
  | ok bytes =>
      have hread := h _ _ _ _ _ _ _ vm' vm₁ bytes result
        (fun value hfits => serdeFromSlice_serdeToVec hfits) hcall hresult
      rw [show bytes = _ from Option.some.inj hbytes, show result = _ from hvalue] at hread
      exact fromBytes_notFoundBytes (shortArrays_cbor _) _ hread

open Script in
/-- `B` returns, and its caller is answered its result. -/
theorem well_formed_result_at_answerer :
    ∃ bytes vm', callBAmong [([66], [1])] = .ok (.ok bytes, vm') ∧
      fromBytes answererPlatform bytes = .ok (7, .integer 5) := by
  have hcall : (callBAmong [([66], [1])]).toOption.map (fun p => p.1.toOption) =
      some (some [7, 0, 0, 0, 5]) := by rfl
  obtain ⟨⟨r, vm'⟩, hcall, hbytes⟩ := exists_ok_of_map hcall
  have hresult : (resultAmong [([66], [1])]).toOption.map Prod.fst = some (7, .integer 5) := by
    rfl
  obtain ⟨⟨result, vm₁⟩, hresult, hvalue⟩ := exists_ok_of_map hresult
  have hcode : (VM.calleeCode 0 (beforeCallAmong [([66], [1])])).toOption.map Prod.fst =
      some [1] := by rfl
  obtain ⟨⟨code, vm₂⟩, hcode, hfound⟩ := exists_ok_of_map hcode
  cases r with
  | error trap => cases hbytes
  | ok bytes =>
      obtain ⟨result', vm₃, hresult', hiff⟩ :=
        (well_formed_result_iff (shortArrays_cbor _) hcall).1
      cases hresult.symm.trans hresult'
      rw [show result = _ from hvalue] at hiff
      have hfits : (Value.integer 5).toItem.fits 128 = true := by rfl
      have hcodec := serdeFromSlice_serdeToVec hfits
      have hne : code.length ≠ 0 := by
        rw [show code = [1] from hfound]
        decide
      exact ⟨bytes, vm', hcall, (hiff hcodec).mpr ⟨code, vm₂, hcode, hne⟩⟩

end Ellipticoind.Ports
