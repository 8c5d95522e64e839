import Ellipticoind.Ports.WireFields
import Ellipticoind.Verified.Splice

/-!
# Writing a message of the network

`Size`, `MarshalTo` and `Marshal` of `ellipticoin.pb.go`.  `Marshal` asks `Size`
how many bytes it takes and writes into a buffer of as many, at an index that
nothing but the language checks.

## Main results

* `marshal_eq` — a message is written, and its buffer is full.
* `marshal_nil` — a message that is missing is not.
* `unmarshal_marshal` — what is written is read back.
-/

namespace Ellipticoind.Ports.Protobuf

open Ellipticoind.Verified
open Ellipticoind.Verified.StateRun
open Ellipticoind.Verified.Splice

/-! ## Functions of the source -/

/-- `sovEllipticoin`: the rounds until nothing is left. -/
def sovEllipticoin (x : Nat) : Nat :=
  if x / 128 = 0 then 1 else sovEllipticoin (x / 128) + 1
termination_by x
decreasing_by omega

/-- `dAtA[offset] = value`. -/
def store (dAtA : Bytes) (offset : Nat) (value : UInt8) : Except Stop Bytes :=
  if offset < dAtA.length then .ok (dAtA.set offset value) else .error .panicked

/-- `encodeVarintEllipticoin`: the buffer, and the offset it returns. -/
def encodeVarintEllipticoin (dAtA : Bytes) (offset v : Nat) : Except Stop (Bytes × Nat) :=
  if 128 ≤ v then
    store dAtA offset (UInt8.ofNat (v &&& 127 ||| 128)) >>= fun dAtA =>
      encodeVarintEllipticoin dAtA (offset + 1) (v >>> 7)
  else store dAtA offset (UInt8.ofNat v) >>= fun dAtA => .ok (dAtA, offset + 1)
termination_by v
decreasing_by
  rw [Nat.shiftRight_eq_div_pow]
  omega

/-- `copy(dAtA[i:], bytes)`: the buffer, and how many bytes were copied. -/
def copy (dAtA : Bytes) (i : Nat) (bytes : Bytes) : Except Stop (Bytes × Nat) :=
  sliceFrom dAtA i >>= fun rest =>
    .ok (splice dAtA i (bytes.take rest.length), min rest.length bytes.length)

/-- `Size`, of a message or of `nil`. -/
def size (type : MessageType) : Option Bytes → Nat
  | none => 0
  | some bytes =>
      if type.hasBytes = true ∧ 0 < bytes.length then
        1 + bytes.length + sovEllipticoin bytes.length
      else 0

/-- `MarshalTo`: the buffer, and the index it returns.  `Empty` has no field that
it looks for behind the pointer. -/
def marshalTo (type : MessageType) (m : Option Bytes) (dAtA : Bytes) :
    Except Stop (Bytes × Nat) :=
  if type.hasBytes = true then
    match m with
    | none => .error .panicked
    | some bytes =>
        if 0 < bytes.length then
          store dAtA 0 10 >>= fun dAtA =>
            encodeVarintEllipticoin dAtA 1 bytes.length >>= fun (dAtA, i) =>
              copy dAtA i bytes >>= fun (dAtA, count) => .ok (dAtA, i + count)
        else .ok (dAtA, 0)
  else .ok (dAtA, 0)

/-- `Marshal`. -/
def marshal (type : MessageType) (m : Option Bytes) : Except Stop Bytes :=
  marshalTo type m (List.replicate (size type m) 0) >>= fun (dAtA, n) => .ok (dAtA.take n)

/-! ## What is written -/

/-- The field `bytes`, unless it is empty. -/
def wire (type : MessageType) (bytes : Bytes) : Bytes :=
  if type.hasBytes = true ∧ 0 < bytes.length then
    10 :: (Varint.encode bytes.length ++ bytes)
  else []

/-- The number of rounds is the number of bytes. -/
theorem sovEllipticoin_eq (x : Nat) : sovEllipticoin x = (Varint.encode x).length := by
  induction x using Nat.strongRecOn with
  | ind x ih =>
      rw [sovEllipticoin]
      by_cases hx : x < 128
      · rw [if_pos (by omega), Varint.encode_of_lt hx]
        rfl
      · rw [if_neg (by omega), ih (x / 128) (by omega),
          Varint.encode_of_le (n := x) (by omega), List.length_cons]

theorem size_eq (type : MessageType) (bytes : Bytes) :
    size type (some bytes) = (wire type bytes).length := by
  simp only [size, wire]
  split
  · rw [List.length_cons, List.length_append, sovEllipticoin_eq]
    omega
  · rfl

theorem store_eq {dAtA : Bytes} {offset : Nat} (value : UInt8) (h : offset < dAtA.length) :
    store dAtA offset value = .ok (splice dAtA offset [value]) := by
  rw [store, if_pos h, splice, List.set_eq_take_append_cons_drop, if_pos h]
  simp

theorem and_or_high (v : Nat) : v &&& 127 ||| 128 = v % 128 + 128 := by
  have hlow : v &&& 127 = v % 128 := Nat.and_two_pow_sub_one_eq_mod v 7
  have hlt : v % 128 < 2 ^ 7 := by omega
  rw [hlow, Nat.or_comm, Nat.add_comm]
  exact (Nat.two_pow_add_eq_or_of_lt hlt 1).symm

/-- The bytes of a number are written one after the other. -/
theorem encodeVarintEllipticoin_eq {v : Nat} :
    ∀ {dAtA : Bytes} {offset : Nat}, offset + (Varint.encode v).length ≤ dAtA.length →
      encodeVarintEllipticoin dAtA offset v =
        .ok (splice dAtA offset (Varint.encode v), offset + (Varint.encode v).length) := by
  induction v using Nat.strongRecOn with
  | ind v ih =>
      intro dAtA offset h
      rw [encodeVarintEllipticoin]
      by_cases hv : v < 128
      · rw [Varint.encode_of_lt hv] at h ⊢
        rw [List.length_singleton] at h
        rw [if_neg (by omega), store_eq _ (by omega)]
        rfl
      · have hsplit := Varint.encode_of_le (n := v) (by omega)
        rw [hsplit, List.length_cons] at h
        have hshift : v >>> 7 = v / 128 := Nat.shiftRight_eq_div_pow v 7
        have hlength : (splice dAtA offset [UInt8.ofNat (v % 128 + 128)]).length =
            dAtA.length := length_splice (by rw [List.length_singleton]; omega)
        have hbound : offset + 1 + (Varint.encode (v / 128)).length ≤
            (splice dAtA offset [UInt8.ofNat (v % 128 + 128)]).length := by omega
        have hrest := ih (v / 128) (by omega) hbound
        rw [if_pos (by omega), and_or_high, store_eq _ (by omega), hshift]
        refine hrest.trans ?_
        have hjoin := splice_splice dAtA offset
          [UInt8.ofNat (v % 128 + 128)] (Varint.encode (v / 128))
          (by rw [List.length_singleton]; omega)
        rw [List.length_singleton] at hjoin
        rw [hjoin, hsplit, List.length_cons, List.singleton_append]
        congr 2
        omega

/-- Bytes that fit are copied whole. -/
theorem copy_eq {dAtA : Bytes} {i : Nat} {bytes : Bytes} (h : i + bytes.length ≤ dAtA.length) :
    copy dAtA i bytes = .ok (splice dAtA i bytes, bytes.length) := by
  have hrest : (dAtA.drop i).length = dAtA.length - i := List.length_drop
  rw [copy, sliceFrom_of_le (by omega)]
  refine except_bind_eq_ok.mpr ⟨_, rfl, ?_⟩
  rw [hrest, List.take_of_length_le (by omega), Nat.min_eq_right (by omega)]

/-- A message is written to the front of a buffer that has room for it. -/
theorem marshalTo_eq {type : MessageType} {bytes dAtA : Bytes}
    (h : (wire type bytes).length ≤ dAtA.length) :
    marshalTo type (some bytes) dAtA =
      .ok (splice dAtA 0 (wire type bytes), (wire type bytes).length) := by
  have hempty : splice dAtA 0 [] = dAtA := rfl
  unfold marshalTo
  by_cases hhas : type.hasBytes = true
  · by_cases hpos : 0 < bytes.length
    · have hwire : wire type bytes = [10] ++ Varint.encode bytes.length ++ bytes := by
        rw [wire, if_pos ⟨hhas, hpos⟩, List.append_assoc]
        rfl
      rw [hwire] at h ⊢
      simp only [List.length_append, List.length_singleton] at h
      have htag : (splice dAtA 0 [10]).length = dAtA.length :=
        length_splice (by rw [List.length_singleton]; omega)
      have hjoin : splice (splice dAtA 0 [10]) 1 (Varint.encode bytes.length) =
          splice dAtA 0 ([10] ++ Varint.encode bytes.length) := by
        have hsplice := splice_splice dAtA 0 [10]
          (Varint.encode bytes.length) (by rw [List.length_singleton]; omega)
        rwa [List.length_singleton] at hsplice
      have hlast : ([10] ++ Varint.encode bytes.length).length =
          1 + (Varint.encode bytes.length).length := by
        rw [List.length_append, List.length_singleton]
      have hjoin' : splice (splice dAtA 0 ([10] ++ Varint.encode bytes.length))
          (1 + (Varint.encode bytes.length).length) bytes =
            splice dAtA 0 ([10] ++ Varint.encode bytes.length ++ bytes) := by
        have hsplice := splice_splice dAtA 0
          ([10] ++ Varint.encode bytes.length) bytes (by rw [hlast]; omega)
        rwa [Nat.zero_add, hlast] at hsplice
      have hlength : (splice dAtA 0 ([10] ++ Varint.encode bytes.length)).length =
          dAtA.length := length_splice (by rw [hlast]; omega)
      rw [if_pos hhas]
      simp only [hpos, if_true]
      rw [store_eq _ (by omega)]
      refine except_bind_eq_ok.mpr ⟨_, rfl, ?_⟩
      rw [encodeVarintEllipticoin_eq (by omega), hjoin]
      refine except_bind_eq_ok.mpr ⟨_, rfl, ?_⟩
      dsimp only
      rw [copy_eq (by omega), hjoin']
      refine except_bind_eq_ok.mpr ⟨_, rfl, ?_⟩
      simp only [List.length_append, List.length_singleton]
    · have hwire : wire type bytes = [] := if_neg fun hboth => hpos hboth.2
      rw [if_pos hhas, hwire, hempty]
      simp only [hpos, if_false, List.length_nil]
  · have hwire : wire type bytes = [] := if_neg fun hboth => hhas hboth.1
    rw [if_neg hhas, hwire, hempty, List.length_nil]

/-- **A message is written, and its buffer is full.** -/
theorem marshal_eq (type : MessageType) (bytes : Bytes) :
    marshal type (some bytes) = .ok (wire type bytes) := by
  have hlength : (List.replicate (size type (some bytes)) (0 : UInt8)).length =
      (wire type bytes).length := by rw [List.length_replicate, size_eq]
  unfold marshal
  rw [marshalTo_eq hlength.ge]
  refine except_bind_eq_ok.mpr ⟨_, rfl, ?_⟩
  dsimp only
  rw [splice, List.take_zero, List.nil_append, List.take_left' rfl]

/-- A message that is missing is looked into all the same. -/
theorem marshal_nil {type : MessageType} (h : type.hasBytes = true) :
    marshal type none = .error .panicked := by
  unfold marshal marshalTo
  rw [if_pos h]
  rfl

/-! ## Round trip -/

/-- What is written are fields of the wire format. -/
theorem fields_wire {type : MessageType} {before bytes : Bytes}
    (hhas : type.hasBytes = true) (hlength : bytes.length < 2 ^ 63) :
    Fields type.hasBytes before (wire type bytes)
      (if bytes = [] then before else bytes) := by
  unfold wire
  by_cases hempty : bytes = []
  · rw [if_pos hempty, if_neg (by simp [hempty])]
    exact .done
  · have hpos := List.length_pos_iff.mpr hempty
    have htag : Number [10] := ⟨.last (by decide), by decide⟩
    have hcode : Number (Varint.encode bytes.length) := by
      refine ⟨Varint.code_encode _, Varint.length_encode_le (k := 9) ?_⟩
      exact lt_trans hlength (by decide)
    have hnumber : number (Varint.encode bytes.length) = bytes.length := by
      rw [number, Varint.value_encode, Nat.mod_eq_of_lt (by omega)]
    rw [if_neg hempty, if_pos ⟨hhas, hpos⟩]
    have hfield : Field type.hasBytes (some bytes)
        ([10] ++ (Varint.encode bytes.length ++ bytes)) :=
      .bytes hhas htag (by decide) (by decide) hcode hnumber
    have hfields : Fields type.hasBytes before
        ([10] ++ (Varint.encode bytes.length ++ bytes) ++ []) bytes := .field hfield .done
    rwa [List.append_nil] at hfields

theorem unmarshal_wire {type : MessageType} (before : Bytes) {bytes : Bytes}
    (hhas : type.hasBytes = true) (hlength : bytes.length + 19 < 2 ^ 63) :
    unmarshal type before (wire type bytes) =
      (if bytes = [] then before else bytes, none) := by
  have hcode : (Varint.encode bytes.length).length ≤ 10 := by
    refine Varint.length_encode_le (k := 9) ?_
    exact lt_trans (b := 2 ^ 63) (by omega) (by decide)
  have hwire : (wire type bytes).length ≤ 1 + (10 + bytes.length) := by
    unfold wire
    split
    · rw [List.length_cons, List.length_append]
      omega
    · exact Nat.zero_le _
  exact unmarshal_of_fields (by omega) (fields_wire hhas (by omega))

/-- A buffer of the size that `Size` gives is filled to its end. -/
theorem marshalTo_full {type : MessageType} {bytes buffer : Bytes}
    (h : buffer.length = size type (some bytes)) :
    marshalTo type (some bytes) buffer = .ok (wire type bytes, buffer.length) := by
  rw [size_eq] at h
  rw [marshalTo_eq h.ge, splice, List.take_zero, List.nil_append, Nat.zero_add,
    List.drop_of_length_le h.le, List.append_nil, h]

/-- **What `Marshal` writes is read back over whatever the message held, unless
it is empty.**  `Size` is the number of bytes that `MarshalTo` fills. -/
theorem unmarshal_marshal {type : MessageType} (before : Bytes) {bytes : Bytes}
    (hhas : type.hasBytes = true) (hlength : bytes.length + 19 < 2 ^ 63) :
    ∃ dAtA, dAtA.length = size type (some bytes) ∧
      (∀ buffer : Bytes, buffer.length = size type (some bytes) →
        marshalTo type (some bytes) buffer = .ok (dAtA, size type (some bytes))) ∧
      marshal type (some bytes) = .ok dAtA ∧
      unmarshal type before dAtA = (if bytes = [] then before else bytes, none) :=
  ⟨wire type bytes, (size_eq type bytes).symm, fun _ hbuffer => hbuffer ▸ marshalTo_full hbuffer,
    marshal_eq type bytes, unmarshal_wire before hhas hlength⟩

theorem unmarshal_marshal_at_text :
    ∃ dAtA, dAtA.length = size transaction (some [97, 98]) ∧
      (∀ buffer : Bytes, buffer.length = size transaction (some [97, 98]) →
        marshalTo transaction (some [97, 98]) buffer =
          .ok (dAtA, size transaction (some [97, 98]))) ∧
      marshal transaction (some [97, 98]) = .ok dAtA ∧
      unmarshal transaction [1] dAtA = ([97, 98], none) :=
  unmarshal_marshal [1] rfl (by decide)

end Ellipticoind.Ports.Protobuf
