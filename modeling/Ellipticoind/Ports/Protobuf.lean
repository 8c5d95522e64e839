import Ellipticoind.Ports.Redis
import Ellipticoind.Verified.StateRun
import Ellipticoind.Verified.Varint
import Mathlib.Tactic.NormNum

/-!
# Reading a message of the network

`Unmarshal` and `skipEllipticoin` of `ellipticoin.pb.go`.  The three types of
`ellipticoin.proto` have each their own code, which differs in the name that
errors give and in the case for the field `bytes`; `Empty` has none.

A `[]byte` that is `nil` and one that is empty are the same here.

## Main results

* `unmarshal_clean` — whatever the bytes are, reading them ends, and without a
  panic.
* `unmarshalBytes_eq_ok` — what is read as the field `bytes`.
-/

namespace Ellipticoind.Ports.Protobuf

open Ellipticoind.Verified
open Ellipticoind.Verified.StateRun

/-! ## Integers -/

/-- `int`. -/
def toInt (x : Int) : Int := x.bmod (2 ^ 64)

/-- `int32`. -/
def toInt32 (n : Nat) : Int := (n : Int).bmod (2 ^ 32)

/-! ## Errors -/

inductive UnmarshalError where
  /-- `ErrIntOverflowEllipticoin`. -/
  | intOverflow
  /-- `io.ErrUnexpectedEOF`. -/
  | unexpectedEOF
  /-- `ErrInvalidLengthEllipticoin`. -/
  | invalidLength
  | endGroup (name : String)
  | illegalTag (name : String) (fieldNum : Int) (wire : Nat)
  | wrongWireType (wireType : Nat)
  | illegalWireType (wireType : Nat)
  deriving DecidableEq

def UnmarshalError.text : UnmarshalError → String
  | .intOverflow => "proto: integer overflow"
  | .unexpectedEOF => "unexpected EOF"
  | .invalidLength => "proto: negative length found during unmarshaling"
  | .endGroup name => "proto: " ++ name ++ ": wiretype end group for non-group"
  | .illegalTag name fieldNum wire =>
      "proto: " ++ name ++ ": illegal tag " ++ toString fieldNum ++ " (wire type " ++
        toString wire ++ ")"
  | .wrongWireType wireType =>
      "proto: wrong wireType = " ++ toString wireType ++ " for field Bytes"
  | .illegalWireType wireType => "proto: illegal wireType " ++ toString wireType

/-- Why a function does not go on. -/
inductive Stop where
  | error (e : UnmarshalError)
  | panicked
  /-- The fuel of the model is used up. -/
  | fuel
  deriving DecidableEq

/-! ## Skipping a field -/

/-- The loops over `shift`: the number, and the index behind it. -/
def readVarint (dAtA : Bytes) (iNdEx : Nat) : Except Stop (Nat × Nat) :=
  match Varint.read 64 0 0 (dAtA.drop iNdEx) with
  | .ok (number, count) => .ok (number, iNdEx + count)
  | .error .overflow => .error (.error .intOverflow)
  | .error .truncated => .error (.error .unexpectedEOF)

/-- `dAtA[start:]`. -/
def sliceFrom (dAtA : Bytes) (start : Nat) : Except Stop Bytes :=
  if start ≤ dAtA.length then .ok (dAtA.drop start) else .error .panicked

/-- `iNdEx += length`, where the sum must not be negative. -/
def advance (iNdEx : Nat) (length : Int) : Except Stop Nat :=
  let sum := toInt (iNdEx + length)
  if sum < 0 then .error (.error .invalidLength) else .ok sum.toNat

/-- A length in front of bytes, and the index behind it. -/
def readLength (dAtA : Bytes) (iNdEx : Nat) : Except Stop (Int × Nat) :=
  readVarint dAtA iNdEx >>= fun (number, iNdEx) =>
    if toInt number < 0 then .error (.error .invalidLength)
    else .ok (toInt number, iNdEx)

/-- The cases of `skipEllipticoin` over the wire type.  It does not look whether
what it skips is there. -/
def skipContent (skipGroup : Nat → Except Stop Int) (dAtA : Bytes) (wireType iNdEx : Nat) :
    Except Stop Int :=
  match wireType with
  | 0 => readVarint dAtA iNdEx >>= fun (_, iNdEx) => .ok iNdEx
  | 1 => .ok (toInt (iNdEx + 8))
  | 2 =>
      readLength dAtA iNdEx >>= fun (length, iNdEx) =>
        advance iNdEx length >>= fun iNdEx => .ok iNdEx
  | 3 => skipGroup iNdEx
  | 4 => .ok iNdEx
  | 5 => .ok (toInt (iNdEx + 4))
  | wireType => .error (.error (.illegalWireType wireType))

mutual

/-- `skipEllipticoin`.  Its loop returns in the first round. -/
def skipWithin : Nat → Bytes → Except Stop Int
  | 0, _ => .error .fuel
  | fuel + 1, dAtA =>
      if dAtA.length = 0 then .error .panicked
      else
        readVarint dAtA 0 >>= fun (wire, iNdEx) =>
          skipContent (skipGroup fuel dAtA) dAtA (wire % 8) iNdEx

/-- The loop over the fields of a group, which calls `skipEllipticoin` for each. -/
def skipGroup : Nat → Bytes → Nat → Except Stop Int
  | 0, _, _ => .error .fuel
  | fuel + 1, dAtA, start =>
      readVarint dAtA start >>= fun (innerWire, iNdEx) =>
        if innerWire % 8 = 4 then .ok iNdEx
        else
          sliceFrom dAtA start >>= fun rest =>
            skipWithin fuel rest >>= fun next =>
              advance start next >>= fun iNdEx => skipGroup fuel dAtA iNdEx

end

def skipEllipticoin (dAtA : Bytes) : Except Stop Int :=
  skipWithin (2 * dAtA.length + 1) dAtA

/-! ## Reading a message -/

/-- A type of `ellipticoin.proto`, whose only field is `bytes`. -/
structure MessageType where
  name : String
  hasBytes : Bool

/-- The case of `Unmarshal` for the field `bytes`, and the index behind it. -/
def unmarshalBytes (dAtA : Bytes) (wireType iNdEx : Nat) : Except Stop (Option Bytes × Nat) :=
  if wireType ≠ 2 then .error (.error (.wrongWireType wireType))
  else
    readLength dAtA iNdEx >>= fun (byteLen, iNdEx) =>
      advance iNdEx byteLen >>= fun postIndex =>
        if dAtA.length < postIndex then .error (.error .unexpectedEOF)
        else if iNdEx ≤ postIndex then
          .ok (some ((dAtA.take postIndex).drop iNdEx), postIndex)
        else .error .panicked

/-- The case for the other fields. -/
def skipField (dAtA : Bytes) (preIndex : Nat) : Except Stop (Option Bytes × Nat) :=
  sliceFrom dAtA preIndex >>= fun rest =>
    skipEllipticoin rest >>= fun skippy =>
      if skippy < 0 then .error (.error .invalidLength)
      else
        advance preIndex skippy >>= fun iNdEx =>
          if dAtA.length < iNdEx then .error (.error .unexpectedEOF)
          else .ok (none, iNdEx)

/-- One round of the loop in `Unmarshal`: the field `bytes`, if it was that, and
the index behind it. -/
def unmarshalField (type : MessageType) (dAtA : Bytes) (preIndex : Nat) :
    Except Stop (Option Bytes × Nat) :=
  readVarint dAtA preIndex >>= fun (wire, iNdEx) =>
    let fieldNum := toInt32 (wire / 8)
    let wireType := wire % 8
    if wireType = 4 then .error (.error (.endGroup type.name))
    else if fieldNum ≤ 0 then .error (.error (.illegalTag type.name fieldNum wire))
    else if type.hasBytes = true ∧ fieldNum = 1 then unmarshalBytes dAtA wireType iNdEx
    else skipField dAtA preIndex

/-- The loop in `Unmarshal`, with what `m.Bytes` holds.  A field is stored when
it has been read, so an error leaves the fields before it. -/
def unmarshalFrom (type : MessageType) (dAtA : Bytes) : Nat → Bytes → Nat → Bytes × Option Stop
  | 0, bytes, _ => (bytes, some .fuel)
  | fuel + 1, bytes, iNdEx =>
      if iNdEx < dAtA.length then
        match unmarshalField type dAtA iNdEx with
        | .ok (field, iNdEx) => unmarshalFrom type dAtA fuel (field.getD bytes) iNdEx
        | .error stop => (bytes, some stop)
      else if dAtA.length < iNdEx then (bytes, some (.error .unexpectedEOF))
      else (bytes, none)

/-- `Unmarshal`, of a message whose `Bytes` are given. -/
def unmarshal (type : MessageType) (bytes dAtA : Bytes) : Bytes × Option Stop :=
  unmarshalFrom type dAtA (dAtA.length + 1) bytes 0

def empty : MessageType := ⟨"Empty", false⟩

def block : MessageType := ⟨"Block", true⟩

def transaction : MessageType := ⟨"Transaction", true⟩

/-! ## Arithmetic -/

theorem toInt_eq (x : Int) :
    toInt x = if x % 2 ^ 64 < 2 ^ 63 then x % 2 ^ 64 else x % 2 ^ 64 - 2 ^ 64 := by
  simp only [toInt, Int.bmod_def]
  norm_num

theorem toInt_of_lt {x : Int} (h : 0 ≤ x) (hlt : x < 2 ^ 63) : toInt x = x := by
  rw [toInt_eq]
  omega

/-- A sum that does not fit is negative. -/
theorem toInt_add {a b : Int} (ha : 0 ≤ a) (ha' : a < 2 ^ 63) (hb : 0 ≤ b)
    (hb' : b < 2 ^ 63) :
    a + b < 2 ^ 63 ∧ toInt (a + b) = a + b ∨ 2 ^ 63 ≤ a + b ∧ toInt (a + b) < 0 := by
  rw [toInt_eq]
  omega

theorem toInt_natCast {n : Nat} (h : n < 2 ^ 64) :
    n < 2 ^ 63 ∧ toInt n = n ∨ 2 ^ 63 ≤ n ∧ toInt n < 0 := by
  rw [toInt_eq]
  omega

/-- The code of a number that fits into 64 bits before its last byte. -/
def Number (code : Bytes) : Prop := Varint.Code code ∧ code.length ≤ 10

/-- The number read from a code. -/
def number (code : Bytes) : Nat := Varint.value code % 2 ^ 64

theorem number_lt (code : Bytes) : number code < 2 ^ 64 := Nat.mod_lt _ (by decide)

theorem readVarint_eq_ok {dAtA : Bytes} {i v j : Nat} :
    readVarint dAtA i = .ok (v, j) ↔
      ∃ code rest, dAtA.drop i = code ++ rest ∧ Number code ∧ v = number code ∧
        j = i + code.length := by
  unfold readVarint
  constructor
  · intro h
    cases hread : Varint.read 64 0 0 (dAtA.drop i) with
    | error fault =>
        rw [hread] at h
        cases fault <;> cases h
    | ok result =>
        obtain ⟨v', count⟩ := result
        rw [hread] at h
        cases h
        obtain ⟨code, rest, hdrop, hcode, rfl, hbound, rfl⟩ := Varint.read_eq_ok_iff.mp hread
        exact ⟨code, rest, hdrop, ⟨hcode, by omega⟩, rfl, rfl⟩
  · rintro ⟨code, rest, hdrop, ⟨hcode, hlength⟩, rfl, rfl⟩
    have hread : Varint.read 64 0 0 (dAtA.drop i) = .ok (number code, code.length) :=
      Varint.read_eq_ok_iff.mpr ⟨code, rest, hdrop, hcode, rfl, by omega, rfl⟩
    rw [hread]

/-- A number ends behind where it begins, within the buffer. -/
theorem readVarint_bounds {dAtA : Bytes} {i v j : Nat} (h : readVarint dAtA i = .ok (v, j)) :
    i < j ∧ j ≤ dAtA.length := by
  obtain ⟨code, rest, hdrop, hcode, -, rfl⟩ := readVarint_eq_ok.mp h
  have hpos := hcode.1.length_pos
  have hlength := congrArg List.length hdrop
  rw [List.length_drop, List.length_append] at hlength
  omega

theorem readLength_eq_ok {dAtA : Bytes} {i j : Nat} {length : Int} :
    readLength dAtA i = .ok (length, j) ↔
      ∃ v, readVarint dAtA i = .ok (v, j) ∧ v < 2 ^ 63 ∧ length = v := by
  unfold readLength
  rw [except_bind_eq_ok]
  constructor
  · rintro ⟨⟨v, j'⟩, hread, h⟩
    obtain ⟨code, rest, -, -, hv, -⟩ := readVarint_eq_ok.mp hread
    have hlt : v < 2 ^ 64 := hv ▸ number_lt code
    have hcases := toInt_natCast hlt
    by_cases hnegative : toInt v < 0
    · simp only [hnegative, if_true] at h
      cases h
    · simp only [hnegative, if_false, Except.ok.injEq, Prod.mk.injEq] at h
      obtain ⟨rfl, rfl⟩ := h
      exact ⟨v, hread, by omega, by omega⟩
  · rintro ⟨v, hread, hv, rfl⟩
    refine ⟨(v, j), hread, ?_⟩
    have hself : toInt v = v := toInt_of_lt (by omega) (by omega)
    show (if toInt v < 0 then _ else Except.ok (toInt v, j)) = _
    rw [hself, if_neg (by omega)]

theorem advance_eq_ok {i j : Nat} {length : Int} (hi : i < 2 ^ 63) (hpos : 0 ≤ length)
    (hlt : length < 2 ^ 63) :
    advance i length = .ok j ↔ i + length < 2 ^ 63 ∧ (j : Int) = i + length := by
  have hcases := toInt_add (a := i) (by omega) (by omega) hpos hlt
  simp only [advance]
  split
  · constructor
    · intro h
      cases h
    · omega
  · simp only [Except.ok.injEq]
    omega

/-! ## No panic -/

/-- The computation ends, with a result or with an error of the source. -/
def Clean {α : Type} (x : Except Stop α) : Prop := ∀ stop, x = .error stop → ∃ e, stop = .error e

theorem clean_ok {α : Type} (a : α) : Clean (.ok a : Except Stop α) := nofun

theorem clean_error {α : Type} (e : UnmarshalError) :
    Clean (.error (.error e) : Except Stop α) := by
  rintro _ ⟨⟩
  exact ⟨e, rfl⟩

theorem Clean.bind {α β : Type} {x : Except Stop α} {f : α → Except Stop β} (hx : Clean x)
    (hf : ∀ a, x = .ok a → Clean (f a)) : Clean (x >>= f) := by
  cases x with
  | error stop => exact fun stop' h => hx stop' (congrArg Except.error (Except.error.inj h))
  | ok a => exact hf a rfl

theorem clean_readVarint (dAtA : Bytes) (i : Nat) : Clean (readVarint dAtA i) := by
  unfold readVarint
  split
  · exact clean_ok _
  · exact clean_error _
  · exact clean_error _

theorem clean_readLength (dAtA : Bytes) (i : Nat) : Clean (readLength dAtA i) := by
  refine (clean_readVarint dAtA i).bind fun result _ => ?_
  show Clean (if _ then _ else _)
  split
  · exact clean_error _
  · exact clean_ok _

theorem clean_advance (i : Nat) (length : Int) : Clean (advance i length) := by
  simp only [advance]
  split
  · exact clean_error _
  · exact clean_ok _

/-- A slice of a buffer that has bytes behind its start. -/
theorem sliceFrom_of_le {dAtA : Bytes} {start : Nat} (h : start ≤ dAtA.length) :
    sliceFrom dAtA start = .ok (dAtA.drop start) := if_pos h

theorem skipContent_bounds {group : Nat → Except Stop Int} {dAtA : Bytes} {wireType i : Nat}
    {n : Int} (hlength : dAtA.length + 8 < 2 ^ 63) (hi : i ≤ dAtA.length)
    (hgroup : group i = .ok n → i ≤ n ∧ n < 2 ^ 63)
    (h : skipContent group dAtA wireType i = .ok n) : i ≤ n ∧ n < 2 ^ 63 := by
  unfold skipContent at h
  split at h
  · obtain ⟨⟨v, j⟩, hread, h⟩ := except_bind_eq_ok.mp h
    cases h
    have := readVarint_bounds hread
    omega
  · rw [toInt_of_lt (by omega) (by omega)] at h
    cases h
    omega
  · obtain ⟨⟨length, j⟩, hread, h⟩ := except_bind_eq_ok.mp h
    obtain ⟨k, hadvance, h⟩ := except_bind_eq_ok.mp h
    cases h
    obtain ⟨v, hnumber, hv, rfl⟩ := readLength_eq_ok.mp hread
    have hbounds := readVarint_bounds hnumber
    have hsum := (advance_eq_ok (by omega) (by omega) (by omega)).mp hadvance
    omega
  · exact hgroup h
  · cases h
    omega
  · rw [toInt_of_lt (by omega) (by omega)] at h
    cases h
    omega
  · cases h

/-- What is skipped ends behind where it begins.  Both functions at once, by
induction on the fuel. -/
theorem skip_bounds (fuel : Nat) :
    (∀ (dAtA : Bytes) (n : Int), dAtA.length + 8 < 2 ^ 63 →
      skipWithin fuel dAtA = .ok n → 1 ≤ n ∧ n < 2 ^ 63) ∧
    ∀ (dAtA : Bytes) (i : Nat) (n : Int), dAtA.length + 8 < 2 ^ 63 →
      skipGroup fuel dAtA i = .ok n → i ≤ n ∧ n < 2 ^ 63 := by
  induction fuel with
  | zero =>
      constructor
      · intro dAtA n _ h
        cases h
      · intro dAtA i n _ h
        cases h
  | succ fuel ih =>
      obtain ⟨ihskip, ihgroup⟩ := ih
      constructor
      · intro dAtA n hlength h
        rw [skipWithin] at h
        split at h
        · cases h
        · obtain ⟨⟨wire, i⟩, hread, h⟩ := except_bind_eq_ok.mp h
          have hbounds := readVarint_bounds hread
          have hcontent := skipContent_bounds hlength hbounds.2 (ihgroup dAtA i n hlength) h
          omega
      · intro dAtA start n hlength h
        rw [skipGroup] at h
        obtain ⟨⟨wire, i⟩, hread, h⟩ := except_bind_eq_ok.mp h
        have hbounds := readVarint_bounds hread
        by_cases htype : wire % 8 = 4
        · simp only [htype, if_true] at h
          cases h
          omega
        · simp only [htype, if_false] at h
          obtain ⟨rest, hslice, h⟩ := except_bind_eq_ok.mp h
          cases (sliceFrom_of_le (by omega)).symm.trans hslice
          obtain ⟨next, hskip, h⟩ := except_bind_eq_ok.mp h
          obtain ⟨j, hadvance, h⟩ := except_bind_eq_ok.mp h
          have hnext := ihskip _ next (by rw [List.length_drop]; omega) hskip
          have hsum := (advance_eq_ok (by omega) (by omega) (by omega)).mp hadvance
          have := ihgroup dAtA j n hlength h
          omega

theorem clean_skipContent {group : Nat → Except Stop Int} {dAtA : Bytes} {wireType i : Nat}
    (hgroup : Clean (group i)) : Clean (skipContent group dAtA wireType i) := by
  unfold skipContent
  split
  · exact (clean_readVarint dAtA i).bind fun _ _ => clean_ok _
  · exact clean_ok _
  · exact (clean_readLength dAtA i).bind fun _ _ =>
      (clean_advance _ _).bind fun _ _ => clean_ok _
  · exact hgroup
  · exact clean_ok _
  · exact clean_ok _
  · exact clean_error _

/-- Each call has fewer bytes before it, so the fuel lasts. -/
theorem clean_skip (fuel : Nat) :
    (∀ dAtA : Bytes, dAtA ≠ [] → dAtA.length + 8 < 2 ^ 63 → 2 * dAtA.length ≤ fuel →
      Clean (skipWithin fuel dAtA)) ∧
    ∀ (dAtA : Bytes) (i : Nat), dAtA.length + 8 < 2 ^ 63 →
      2 * (dAtA.length - i) + 1 ≤ fuel → Clean (skipGroup fuel dAtA i) := by
  induction fuel with
  | zero =>
      constructor
      · intro dAtA hne hlength hfuel
        have := List.length_pos_iff.mpr hne
        omega
      · omega
  | succ fuel ih =>
      obtain ⟨ihskip, ihgroup⟩ := ih
      constructor
      · intro dAtA hne hlength hfuel
        have hpos := List.length_pos_iff.mpr hne
        rw [skipWithin, if_neg (by omega)]
        refine (clean_readVarint dAtA 0).bind fun ⟨wire, i⟩ hread => ?_
        have hbounds := readVarint_bounds hread
        exact clean_skipContent (ihgroup dAtA i hlength (by omega))
      · intro dAtA start hlength hfuel
        rw [skipGroup]
        refine (clean_readVarint dAtA start).bind fun ⟨wire, i⟩ hread => ?_
        have hbounds := readVarint_bounds hread
        have hrest : (dAtA.drop start).length = dAtA.length - start := List.length_drop
        show Clean (if _ then _ else _)
        split
        · exact clean_ok _
        · rw [sliceFrom_of_le (by omega)]
          have hne : dAtA.drop start ≠ [] := List.ne_nil_of_length_pos (by omega)
          refine (ihskip _ hne (by omega) (by omega)).bind fun next hskip => ?_
          refine (clean_advance start next).bind fun j hadvance => ?_
          have hnext := (skip_bounds fuel).1 _ next (by omega) hskip
          have hsum := (advance_eq_ok (by omega) (by omega) (by omega)).mp hadvance
          exact ihgroup dAtA j hlength (by omega)

theorem skipEllipticoin_bounds {dAtA : Bytes} {i : Nat} {n : Int}
    (hlength : dAtA.length + 8 < 2 ^ 63) (h : skipEllipticoin (dAtA.drop i) = .ok n) :
    1 ≤ n ∧ n < 2 ^ 63 :=
  (skip_bounds _).1 _ n (by rw [List.length_drop]; omega) h

theorem clean_skipEllipticoin {dAtA : Bytes} {i : Nat} (hlength : dAtA.length + 8 < 2 ^ 63)
    (hi : i < dAtA.length) : Clean (skipEllipticoin (dAtA.drop i)) := by
  have hrest : (dAtA.drop i).length = dAtA.length - i := List.length_drop
  have hne : dAtA.drop i ≠ [] := List.ne_nil_of_length_pos (by omega)
  exact (clean_skip _).1 _ hne (by omega) (Nat.le_succ _)

/-- The field `bytes` is read from a length and as many bytes. -/
theorem unmarshalBytes_eq_ok {dAtA : Bytes} {wireType i j : Nat} {field : Option Bytes}
    (hlength : dAtA.length + 8 < 2 ^ 63) :
    unmarshalBytes dAtA wireType i = .ok (field, j) ↔
      wireType = 2 ∧ ∃ code payload rest, dAtA.drop i = code ++ (payload ++ rest) ∧
        Number code ∧ number code = payload.length ∧ field = some payload ∧
        j = i + code.length + payload.length := by
  unfold unmarshalBytes
  by_cases htype : wireType = 2
  · rw [if_neg (not_not.mpr htype), except_bind_eq_ok]
    simp only [htype, true_and]
    constructor
    · rintro ⟨⟨byteLen, k⟩, hread, h⟩
      obtain ⟨postIndex, hadvance, h⟩ := except_bind_eq_ok.mp h
      obtain ⟨v, hnumber, hv, rfl⟩ := readLength_eq_ok.mp hread
      have hbounds := readVarint_bounds hnumber
      have hsum := (advance_eq_ok (by omega) (by omega) (by omega)).mp hadvance
      obtain ⟨code, rest, hdrop, hcode, rfl, rfl⟩ := readVarint_eq_ok.mp hnumber
      have hrest : rest = dAtA.drop (i + code.length) := by
        rw [← List.drop_drop, hdrop, List.drop_left]
      by_cases hpost : dAtA.length < postIndex
      · simp only [hpost, if_true] at h
        cases h
      · rw [if_neg hpost, if_pos (by omega), Except.ok.injEq, Prod.mk.injEq] at h
        obtain ⟨rfl, rfl⟩ := h
        refine ⟨code, rest.take (number code), rest.drop (number code), ?_, hcode, ?_, ?_, ?_⟩
        · rw [List.take_append_drop, hdrop]
        · rw [List.length_take, hrest, List.length_drop]
          omega
        · have hcount : postIndex - (i + code.length) = number code := by omega
          rw [hrest, List.drop_take, hcount]
        · rw [List.length_take, hrest, List.length_drop]
          omega
    · rintro ⟨code, payload, rest, hdrop, hcode, hpayload, rfl, rfl⟩
      have hlengths := congrArg List.length hdrop
      simp only [List.length_drop, List.length_append] at hlengths
      have hpos := hcode.1.length_pos
      refine ⟨(number code, i + code.length), ?_, ?_⟩
      · exact readLength_eq_ok.mpr ⟨number code,
          readVarint_eq_ok.mpr ⟨code, payload ++ rest, hdrop, hcode, rfl, rfl⟩,
          by omega, rfl⟩
      · refine except_bind_eq_ok.mpr ⟨i + code.length + payload.length, ?_, ?_⟩
        · exact (advance_eq_ok (by omega) (by omega) (by omega)).mpr (by omega)
        · have hrest : dAtA.drop (i + code.length) = payload ++ rest := by
            rw [← List.drop_drop, hdrop, List.drop_left]
          rw [if_neg (by omega), if_pos (by omega), List.drop_take, hrest]
          simp
  · rw [if_pos htype]
    simp [htype]

theorem clean_unmarshalBytes {dAtA : Bytes} {wireType i : Nat}
    (hlength : dAtA.length + 8 < 2 ^ 63) : Clean (unmarshalBytes dAtA wireType i) := by
  unfold unmarshalBytes
  split
  · exact clean_error _
  · refine (clean_readLength dAtA i).bind fun ⟨byteLen, k⟩ hread => ?_
    refine (clean_advance k byteLen).bind fun postIndex hadvance => ?_
    obtain ⟨v, hnumber, hv, rfl⟩ := readLength_eq_ok.mp hread
    have hbounds := readVarint_bounds hnumber
    have hsum := (advance_eq_ok (by omega) (by omega) (by omega)).mp hadvance
    split
    · exact clean_error _
    · rw [if_pos (by omega)]
      exact clean_ok _

/-- A field is skipped if `skipEllipticoin` stays within the buffer. -/
theorem skipField_eq_ok {dAtA : Bytes} {i j : Nat} {field : Option Bytes}
    (hlength : dAtA.length + 8 < 2 ^ 63) (hi : i < dAtA.length) :
    skipField dAtA i = .ok (field, j) ↔ i < j ∧ j ≤ dAtA.length ∧ field = none ∧
      skipEllipticoin (dAtA.drop i) = .ok ((j - i : Nat) : Int) := by
  unfold skipField
  rw [sliceFrom_of_le hi.le]
  constructor
  · intro h
    obtain ⟨rest, hslice, h⟩ := except_bind_eq_ok.mp h
    cases hslice
    obtain ⟨skippy, hskip, h⟩ := except_bind_eq_ok.mp h
    have hbounds := skipEllipticoin_bounds hlength hskip
    rw [if_neg (by omega)] at h
    obtain ⟨k, hadvance, h⟩ := except_bind_eq_ok.mp h
    have hsum := (advance_eq_ok (by omega) (by omega) (by omega)).mp hadvance
    split at h
    · cases h
    · cases h
      refine ⟨by omega, by omega, rfl, hskip.trans ?_⟩
      congr 1
      omega
  · rintro ⟨hj, hj', rfl, hskip⟩
    refine except_bind_eq_ok.mpr ⟨_, rfl, except_bind_eq_ok.mpr ⟨_, hskip, ?_⟩⟩
    rw [if_neg (by omega)]
    refine except_bind_eq_ok.mpr ⟨j, ?_, if_neg (by omega)⟩
    exact (advance_eq_ok (by omega) (by omega) (by omega)).mpr (by omega)

theorem clean_skipField {dAtA : Bytes} {i : Nat} (hlength : dAtA.length + 8 < 2 ^ 63)
    (hi : i < dAtA.length) : Clean (skipField dAtA i) := by
  unfold skipField
  rw [sliceFrom_of_le hi.le]
  refine (clean_skipEllipticoin hlength hi).bind fun skippy _ => ?_
  split
  · exact clean_error _
  · refine (clean_advance i skippy).bind fun j _ => ?_
    split
    · exact clean_error _
    · exact clean_ok _

/-- A field that is read lies within the buffer. -/
theorem unmarshalField_bounds {type : MessageType} {dAtA : Bytes} {i j : Nat}
    {field : Option Bytes} (hlength : dAtA.length + 8 < 2 ^ 63) (hi : i < dAtA.length)
    (h : unmarshalField type dAtA i = .ok (field, j)) : i < j ∧ j ≤ dAtA.length := by
  unfold unmarshalField at h
  obtain ⟨⟨wire, k⟩, hread, h⟩ := except_bind_eq_ok.mp h
  have hbounds := readVarint_bounds hread
  dsimp only at h
  split at h
  · cases h
  · split at h
    · cases h
    · split at h
      · obtain ⟨-, code, payload, rest, hdrop, -, -, -, rfl⟩ :=
          (unmarshalBytes_eq_ok hlength).mp h
        have hlengths := congrArg List.length hdrop
        simp only [List.length_drop, List.length_append] at hlengths
        omega
      · obtain ⟨hj, hj', -⟩ := (skipField_eq_ok hlength hi).mp h
        exact ⟨hj, hj'⟩

theorem clean_unmarshalField {type : MessageType} {dAtA : Bytes} {i : Nat}
    (hlength : dAtA.length + 8 < 2 ^ 63) (hi : i < dAtA.length) :
    Clean (unmarshalField type dAtA i) := by
  unfold unmarshalField
  refine (clean_readVarint dAtA i).bind fun ⟨wire, j⟩ _ => ?_
  dsimp only
  split
  · exact clean_error _
  · split
    · exact clean_error _
    · split
      · exact clean_unmarshalBytes hlength
      · exact clean_skipField hlength hi

theorem unmarshalFrom_clean {type : MessageType} {dAtA : Bytes}
    (hlength : dAtA.length + 8 < 2 ^ 63) {fuel : Nat} {bytes : Bytes} {i : Nat}
    (hi : i ≤ dAtA.length) (hfuel : dAtA.length - i < fuel) (stop : Stop)
    (hstop : (unmarshalFrom type dAtA fuel bytes i).2 = some stop) :
    ∃ e, stop = .error e := by
  induction fuel generalizing bytes i with
  | zero => omega
  | succ fuel ih =>
      rw [unmarshalFrom] at hstop
      by_cases hlt : i < dAtA.length
      · rw [if_pos hlt] at hstop
        cases hfield : unmarshalField type dAtA i with
        | error stop' =>
            rw [hfield] at hstop
            cases hstop
            exact clean_unmarshalField hlength hlt stop hfield
        | ok result =>
            obtain ⟨field, j⟩ := result
            rw [hfield] at hstop
            have hbounds := unmarshalField_bounds hlength hlt hfield
            exact ih (by omega) (by omega) hstop
      · rw [if_neg hlt, if_neg (by omega)] at hstop
        cases hstop

/-- **Whatever the bytes are, reading them ends: with a message, or with an error
of the source and no panic.** -/
theorem unmarshal_clean (type : MessageType) (bytes : Bytes) {dAtA : Bytes}
    (hlength : dAtA.length + 8 < 2 ^ 63) :
    (unmarshal type bytes dAtA).2 = none ∨
      ∃ e, (unmarshal type bytes dAtA).2 = some (.error e) := by
  cases hstop : (unmarshal type bytes dAtA).2 with
  | none => exact .inl rfl
  | some stop =>
      obtain ⟨e, rfl⟩ :=
        unmarshalFrom_clean hlength (Nat.zero_le _) (Nat.lt_succ_self _) stop hstop
      exact .inr ⟨e, rfl⟩

/-- A group that begins and does not end. -/
theorem unmarshal_clean_at_open_group :
    (unmarshal block [1] [10, 1, 2, 27, 27, 8]) =
        ([2], some (.error .unexpectedEOF)) ∧
      ((unmarshal block [1] [10, 1, 2, 27, 27, 8]).2 = none ∨
        ∃ e, (unmarshal block [1] [10, 1, 2, 27, 27, 8]).2 = some (.error e)) :=
  ⟨by decide +kernel, unmarshal_clean block [1] (by decide)⟩

end Ellipticoind.Ports.Protobuf
