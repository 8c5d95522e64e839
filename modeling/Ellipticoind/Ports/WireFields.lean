import Ellipticoind.Ports.Protobuf

/-!
# The wire format that messages are read from

`Fields` says what `Unmarshal` accepts: field after field, each of a tag and of
a content that its wire type gives the form of.  A number may have any of its
codes of up to ten bytes; the number of a field is what is left of it in 32
bits; the end of a group need not name the group; and inside of a group no
field's number is looked at.

## Main results

* `skipEllipticoin_eq_ok` — what is skipped is the content of one field.
* `unmarshalField_eq_ok` — one round of `Unmarshal` reads one field.
* `unmarshal_iff` — `Unmarshal` reads exactly such fields.
* `unmarshal_append` — two messages on end are read as the second one over the
  first.
-/

namespace Ellipticoind.Ports.Protobuf

open Ellipticoind.Verified
open Ellipticoind.Verified.StateRun

/-! ## The format -/

/-- What follows a tag: the content of a field, by its wire type, or the rest of
a group. -/
inductive Part where
  | content (wireType : Nat)
  | group

inductive Wire : Part → Bytes → Prop where
  | varint {code : Bytes} (hcode : Number code) : Wire (.content 0) code
  | fixed64 {bs : Bytes} (hbs : bs.length = 8) : Wire (.content 1) bs
  | bytes {code payload : Bytes} (hcode : Number code)
      (hpayload : number code = payload.length) : Wire (.content 2) (code ++ payload)
  | group {bs : Bytes} (hbs : Wire .group bs) : Wire (.content 3) bs
  | fixed32 {bs : Bytes} (hbs : bs.length = 4) : Wire (.content 5) bs
  | close {tag : Bytes} (htag : Number tag) (htype : number tag % 8 = 4) : Wire .group tag
  | field {tag bs rest : Bytes} (htag : Number tag) (htype : number tag % 8 ≠ 4)
      (hbs : Wire (.content (number tag % 8)) bs) (hrest : Wire .group rest) :
      Wire .group (tag ++ (bs ++ rest))

/-- One field of a message, and the payload if it is the field `bytes`. -/
inductive Field (hasBytes : Bool) : Option Bytes → Bytes → Prop where
  | bytes {tag code payload : Bytes} (hhas : hasBytes = true) (htag : Number tag)
      (hnum : toInt32 (number tag / 8) = 1) (htype : number tag % 8 = 2)
      (hcode : Number code) (hpayload : number code = payload.length) :
      Field hasBytes (some payload) (tag ++ (code ++ payload))
  | other {tag bs : Bytes} (htag : Number tag) (hnum : 0 < toInt32 (number tag / 8))
      (hother : ¬ (hasBytes = true ∧ toInt32 (number tag / 8) = 1))
      (hbs : Wire (.content (number tag % 8)) bs) : Field hasBytes none (tag ++ bs)

/-- The fields of a message, with what is known of its payload before and after
them. -/
inductive Fields (hasBytes : Bool) : Bytes → Bytes → Bytes → Prop where
  | done {bytes : Bytes} : Fields hasBytes bytes [] bytes
  | field {field : Option Bytes} {before bs rest after : Bytes}
      (hfield : Field hasBytes field bs)
      (hrest : Fields hasBytes (field.getD before) rest after) :
      Fields hasBytes before (bs ++ rest) after

theorem Wire.length_pos {part : Part} {bs : Bytes} (h : Wire part bs) : 0 < bs.length := by
  induction h with
  | varint hcode => exact hcode.1.length_pos
  | fixed64 hbs | fixed32 hbs => omega
  | bytes hcode =>
      have := hcode.1.length_pos
      rw [List.length_append]
      omega
  | group _ ih => exact ih
  | close htag => exact htag.1.length_pos
  | field htag =>
      have := htag.1.length_pos
      rw [List.length_append]
      omega

/-- No content has the wire type of a group's end. -/
theorem Wire.ne_four {wireType : Nat} {bs : Bytes} (h : Wire (.content wireType) bs) :
    wireType ≠ 4 := by
  cases h <;> decide

/-! ## What is skipped has the format -/

/-- The bytes from one index to the other have the form of the part. -/
def Reads (part : Part) (dAtA : Bytes) (i : Nat) (n : Int) : Prop :=
  ∃ bs rest, dAtA.drop i = bs ++ rest ∧ Wire part bs ∧ n = (i + bs.length : Nat)

/-- A number that is read lies in front of what is behind it. -/
theorem drop_of_readVarint {dAtA : Bytes} {i v j : Nat}
    (h : readVarint dAtA i = .ok (v, j)) :
    ∃ code, dAtA.drop i = code ++ dAtA.drop j ∧ Number code ∧ v = number code ∧
      j = i + code.length := by
  obtain ⟨code, rest, hdrop, hcode, hv, hj⟩ := readVarint_eq_ok.mp h
  refine ⟨code, ?_, hcode, hv, hj⟩
  rw [hdrop, hj, ← List.drop_drop, hdrop, List.drop_left]

theorem readVarint_of_drop {dAtA code rest : Bytes} {i : Nat} (hcode : Number code)
    (hdrop : dAtA.drop i = code ++ rest) :
    readVarint dAtA i = .ok (number code, i + code.length) :=
  readVarint_eq_ok.mpr ⟨code, rest, hdrop, hcode, rfl, rfl⟩

theorem readVarint_drop {dAtA : Bytes} {i v j : Nat} (h : readVarint dAtA i = .ok (v, j)) :
    readVarint (dAtA.drop i) 0 = .ok (v, j - i) := by
  obtain ⟨code, hdrop, hcode, rfl, rfl⟩ := drop_of_readVarint h
  rw [readVarint_of_drop hcode (by rw [List.drop_zero, hdrop]), Nat.zero_add,
    Nat.add_sub_cancel_left]

/-- Bytes that lie before the end. -/
theorem exists_drop_eq (dAtA : Bytes) {i : Nat} (count : Nat) (h : i + count ≤ dAtA.length) :
    ∃ bs, bs.length = count ∧ dAtA.drop i = bs ++ dAtA.drop (i + count) := by
  refine ⟨(dAtA.drop i).take count, ?_, ?_⟩
  · rw [List.length_take, List.length_drop]
    omega
  · rw [← List.drop_drop, List.take_append_drop]

theorem reads_content {group : Nat → Except Stop Int} {dAtA : Bytes} {wireType i : Nat}
    {n : Int} (hlength : dAtA.length + 8 < 2 ^ 63) (hi : i ≤ dAtA.length)
    (hn : n ≤ dAtA.length) (htype : wireType ≠ 4)
    (h : skipContent group dAtA wireType i = .ok n)
    (hgroup : group i = .ok n → Reads .group dAtA i n) :
    Reads (.content wireType) dAtA i n := by
  unfold skipContent at h
  split at h
  · obtain ⟨⟨v, j⟩, hread, h⟩ := except_bind_eq_ok.mp h
    cases h
    obtain ⟨code, hdrop, hcode, -, rfl⟩ := drop_of_readVarint hread
    exact ⟨code, _, hdrop, .varint hcode, rfl⟩
  · rw [toInt_of_lt (by omega) (by omega)] at h
    cases h
    obtain ⟨bs, hbs, hdrop⟩ := exists_drop_eq dAtA (i := i) 8 (by omega)
    exact ⟨bs, _, hdrop, .fixed64 hbs, by rw [hbs]; rfl⟩
  · obtain ⟨⟨length, j⟩, hread, h⟩ := except_bind_eq_ok.mp h
    obtain ⟨k, hadvance, h⟩ := except_bind_eq_ok.mp h
    cases h
    obtain ⟨v, hnumber, hv, rfl⟩ := readLength_eq_ok.mp hread
    have hbounds := readVarint_bounds hnumber
    have hsum := (advance_eq_ok (by omega) (by omega) (by omega)).mp hadvance
    obtain ⟨code, hdrop, hcode, rfl, rfl⟩ := drop_of_readVarint hnumber
    obtain ⟨payload, hpayload, hdrop'⟩ :=
      exists_drop_eq dAtA (i := i + code.length) (number code) (by omega)
    refine ⟨code ++ payload, dAtA.drop (i + code.length + number code), ?_,
      .bytes hcode hpayload.symm, ?_⟩
    · rw [hdrop, hdrop', List.append_assoc]
    · rw [List.length_append]
      omega
  · obtain ⟨bs, rest, hdrop, hbs, hn⟩ := hgroup h
    exact ⟨bs, rest, hdrop, .group hbs, hn⟩
  · exact absurd rfl htype
  · rw [toInt_of_lt (by omega) (by omega)] at h
    cases h
    obtain ⟨bs, hbs, hdrop⟩ := exists_drop_eq dAtA (i := i) 4 (by omega)
    exact ⟨bs, _, hdrop, .fixed32 hbs, by rw [hbs]; rfl⟩
  · cases h

/-- What was read behind an index of the rest. -/
theorem Reads.of_drop {part : Part} {dAtA : Bytes} {start i : Nat} {n : Int}
    (h : Reads part (dAtA.drop start) (i - start) n) (hi : start ≤ i) :
    Reads part dAtA i (start + n) := by
  obtain ⟨bs, rest, hdrop, hbs, rfl⟩ := h
  rw [List.drop_drop, Nat.add_sub_cancel' hi] at hdrop
  exact ⟨bs, rest, hdrop, hbs, by omega⟩

/-- Both functions at once, by induction on the fuel. -/
theorem reads_skip (fuel : Nat) :
    (∀ (dAtA : Bytes) (wire i : Nat) (n : Int), dAtA.length + 8 < 2 ^ 63 →
      n ≤ dAtA.length → readVarint dAtA 0 = .ok (wire, i) → wire % 8 ≠ 4 →
      skipWithin fuel dAtA = .ok n → Reads (.content (wire % 8)) dAtA i n) ∧
    ∀ (dAtA : Bytes) (i : Nat) (n : Int), dAtA.length + 8 < 2 ^ 63 →
      skipGroup fuel dAtA i = .ok n → Reads .group dAtA i n := by
  induction fuel with
  | zero =>
      constructor
      · intro dAtA wire i n _ _ _ _ h
        cases h
      · intro dAtA i n _ h
        cases h
  | succ fuel ih =>
      obtain ⟨ihskip, ihgroup⟩ := ih
      constructor
      · intro dAtA wire i n hlength hn hread htype h
        have hbounds := readVarint_bounds hread
        rw [skipWithin, if_neg (by omega)] at h
        obtain ⟨⟨wire', i'⟩, hread', h⟩ := except_bind_eq_ok.mp h
        cases hread.symm.trans hread'
        exact reads_content hlength hbounds.2 hn htype h (ihgroup dAtA i n hlength)
      · intro dAtA start n hlength h
        rw [skipGroup] at h
        obtain ⟨⟨wire, i⟩, hread, h⟩ := except_bind_eq_ok.mp h
        have hbounds := readVarint_bounds hread
        obtain ⟨tag, hdrop, htag, rfl, rfl⟩ := drop_of_readVarint hread
        by_cases htype : number tag % 8 = 4
        · simp only [htype, if_true] at h
          cases h
          exact ⟨tag, _, hdrop, .close htag htype, rfl⟩
        · simp only [htype, if_false] at h
          obtain ⟨rest, hslice, h⟩ := except_bind_eq_ok.mp h
          cases (sliceFrom_of_le (by omega)).symm.trans hslice
          obtain ⟨next, hskip, h⟩ := except_bind_eq_ok.mp h
          obtain ⟨j, hadvance, h⟩ := except_bind_eq_ok.mp h
          have hrest : (dAtA.drop start).length = dAtA.length - start := List.length_drop
          have hnext := (skip_bounds fuel).1 _ next (by omega) hskip
          have hsum := (advance_eq_ok (by omega) (by omega) (by omega)).mp hadvance
          -- the group goes on behind the field, so the field lies within the buffer
          obtain ⟨after, rest, hafter, hwire, rfl⟩ := ihgroup dAtA j n hlength h
          have hpos := hwire.length_pos
          have hlengths := congrArg List.length hafter
          rw [List.length_drop, List.length_append] at hlengths
          have hcontent := ihskip _ _ _ next (by omega) (by omega) (readVarint_drop hread)
            htype hskip
          obtain ⟨bs, rest', hbs, hfield, heq⟩ := hcontent.of_drop (by omega)
          have hj : j = start + tag.length + bs.length := by omega
          refine ⟨tag ++ (bs ++ after), rest, ?_, .field htag htype hfield hwire, ?_⟩
          · have hrest' : rest' = after ++ rest := by
              rw [← hafter, hj, ← List.drop_drop, hbs, List.drop_left]
            rw [hdrop, hbs, hrest']
            simp only [List.append_assoc]
          · simp only [List.length_append]
            omega

/-! ## What has the format is skipped -/

/-- The part is skipped where it stands, with enough fuel. -/
def Skipped (part : Part) (bs : Bytes) : Prop :=
  ∀ (fuel : Nat) (dAtA : Bytes) (i : Nat) (rest : Bytes), dAtA.length + 8 < 2 ^ 63 →
    dAtA.drop i = bs ++ rest → 2 * bs.length + 1 ≤ fuel →
      (match part with
        | .content wireType => skipContent (skipGroup fuel dAtA) dAtA wireType i
        | .group => skipGroup fuel dAtA i) = .ok ((i + bs.length : Nat) : Int)

/-- The index behind what stands at an index. -/
theorem le_of_drop {dAtA bs rest : Bytes} {i : Nat} (hdrop : dAtA.drop i = bs ++ rest)
    (hpos : 0 < bs.length) : i + bs.length ≤ dAtA.length := by
  have hlengths := congrArg List.length hdrop
  rw [List.length_drop, List.length_append] at hlengths
  omega

theorem drop_of_drop {dAtA bs rest : Bytes} {i : Nat} (hdrop : dAtA.drop i = bs ++ rest) :
    dAtA.drop (i + bs.length) = rest := by
  rw [← List.drop_drop, hdrop, List.drop_left]

/-- A tag and its content are skipped in one call. -/
theorem skipWithin_of_content {fuel : Nat} {dAtA tag bs rest : Bytes}
    (hlength : dAtA.length + 8 < 2 ^ 63) (hdata : dAtA = tag ++ (bs ++ rest))
    (htag : Number tag) (hbs : Skipped (.content (number tag % 8)) bs)
    (hfuel : 2 * bs.length + 1 ≤ fuel) :
    skipWithin (fuel + 1) dAtA = .ok ((tag.length + bs.length : Nat) : Int) := by
  have hdrop : dAtA.drop 0 = tag ++ (bs ++ rest) := hdata
  have hpos := htag.1.length_pos
  have hbound := le_of_drop hdrop hpos
  have hread := readVarint_of_drop htag hdrop
  rw [Nat.zero_add] at hread
  have hcontent := hbs fuel dAtA tag.length rest hlength
    (by rw [← drop_of_drop hdrop, Nat.zero_add]) hfuel
  rw [skipWithin, if_neg (by omega)]
  exact except_bind_eq_ok.mpr ⟨_, hread, hcontent⟩

theorem Wire.skipped {part : Part} {bs : Bytes} (h : Wire part bs) : Skipped part bs := by
  induction h with
  | @varint code hcode =>
      intro fuel dAtA i rest hlength hdrop hfuel
      exact except_bind_eq_ok.mpr ⟨_, readVarint_of_drop hcode hdrop, rfl⟩
  | @fixed64 bs hbs =>
      intro fuel dAtA i rest hlength hdrop hfuel
      have hbound := le_of_drop hdrop (by omega)
      show Except.ok (toInt (i + 8)) = _
      rw [toInt_of_lt (by omega) (by omega), hbs]
      rfl
  | @bytes code payload hcode hpayload =>
      intro fuel dAtA i rest hlength hdrop hfuel
      rw [List.append_assoc] at hdrop
      have hbound := le_of_drop hdrop hcode.1.length_pos
      have hbound' := congrArg List.length (drop_of_drop hdrop)
      rw [List.length_drop, List.length_append] at hbound'
      have hread : readLength dAtA i = .ok ((payload.length : Int), i + code.length) :=
        readLength_eq_ok.mpr ⟨payload.length, hpayload ▸ readVarint_of_drop hcode hdrop,
          by omega, rfl⟩
      have hadvance : advance (i + code.length) payload.length =
          .ok (i + code.length + payload.length) :=
        (advance_eq_ok (by omega) (by omega) (by omega)).mpr (by omega)
      refine except_bind_eq_ok.mpr ⟨_, hread, except_bind_eq_ok.mpr ⟨_, hadvance, ?_⟩⟩
      rw [List.length_append, Nat.add_assoc]
  | group hbs ih => exact ih
  | @fixed32 bs hbs =>
      intro fuel dAtA i rest hlength hdrop hfuel
      have hbound := le_of_drop hdrop (by omega)
      show Except.ok (toInt (i + 4)) = _
      rw [toInt_of_lt (by omega) (by omega), hbs]
      rfl
  | @close tag htag htype =>
      intro fuel dAtA i rest hlength hdrop hfuel
      obtain ⟨fuel, rfl⟩ : ∃ k, fuel = k + 1 := ⟨fuel - 1, by omega⟩
      show skipGroup (fuel + 1) dAtA i = _
      rw [skipGroup]
      exact except_bind_eq_ok.mpr ⟨_, readVarint_of_drop htag hdrop, if_pos htype⟩
  | @field tag bs rest htag htype hbs hrest ihbs ihrest =>
      intro fuel dAtA start after hlength hdrop hfuel
      have hpos := htag.1.length_pos
      simp only [List.length_append] at hfuel
      obtain ⟨fuel, rfl⟩ : ∃ k, fuel = k + 1 + 1 := ⟨fuel - 2, by omega⟩
      simp only [List.append_assoc] at hdrop
      have hbound := le_of_drop hdrop hpos
      have hdrop' := drop_of_drop hdrop
      have hbound' := le_of_drop hdrop' hbs.length_pos
      have hstart : (dAtA.drop start).length = dAtA.length - start := List.length_drop
      have hskip : skipWithin (fuel + 1) (dAtA.drop start) =
          .ok ((tag.length + bs.length : Nat) : Int) :=
        skipWithin_of_content (by omega) hdrop htag ihbs (by omega)
      have hadvance : advance start ((tag.length + bs.length : Nat) : Int) =
          .ok (start + tag.length + bs.length) :=
        (advance_eq_ok (by omega) (by omega) (by omega)).mpr (by omega)
      have hgroup := ihrest (fuel + 1) dAtA (start + tag.length + bs.length) after hlength
        (drop_of_drop hdrop') (by omega)
      show skipGroup (fuel + 1 + 1) dAtA start = _
      rw [skipGroup]
      refine except_bind_eq_ok.mpr ⟨_, readVarint_of_drop htag hdrop, ?_⟩
      show (if _ then _ else _) = _
      rw [if_neg htype]
      refine except_bind_eq_ok.mpr ⟨_, sliceFrom_of_le (by omega), ?_⟩
      refine except_bind_eq_ok.mpr ⟨_, hskip, except_bind_eq_ok.mpr ⟨_, hadvance, ?_⟩⟩
      refine hgroup.trans ?_
      simp only [List.length_append, Nat.add_assoc]

/-- **`skipEllipticoin` goes over the content of one field.** -/
theorem skipEllipticoin_eq_ok {dAtA : Bytes} {wire i count : Nat}
    (hlength : dAtA.length + 8 < 2 ^ 63) (hread : readVarint dAtA 0 = .ok (wire, i))
    (htype : wire % 8 ≠ 4) (hcount : count ≤ dAtA.length) :
    skipEllipticoin dAtA = .ok (count : Int) ↔
      ∃ bs rest, dAtA.drop i = bs ++ rest ∧ Wire (.content (wire % 8)) bs ∧
        count = i + bs.length := by
  constructor
  · intro h
    obtain ⟨bs, rest, hdrop, hbs, hn⟩ :=
      (reads_skip _).1 dAtA wire i count hlength (by omega) hread htype h
    exact ⟨bs, rest, hdrop, hbs, by omega⟩
  · rintro ⟨bs, rest, hdrop, hbs, rfl⟩
    obtain ⟨tag, htag, hnumber, rfl, hi⟩ := drop_of_readVarint hread
    rw [Nat.zero_add] at hi
    subst hi
    rw [hdrop] at htag
    have hpos := hnumber.1.length_pos
    have hbound := le_of_drop hdrop hbs.length_pos
    exact skipWithin_of_content hlength htag hnumber hbs.skipped (by omega)

/-! ## Messages -/

theorem readVarint_zero_drop {dAtA code rest : Bytes} {i : Nat} (hcode : Number code)
    (hdrop : dAtA.drop i = code ++ rest) :
    readVarint (dAtA.drop i) 0 = .ok (number code, code.length) := by
  rw [readVarint_of_drop hcode (by rw [List.drop_zero, hdrop]), Nat.zero_add]

/-- Another field is skipped with its tag. -/
theorem skipField_iff {dAtA tag rest : Bytes} {i j : Nat} {field : Option Bytes}
    (hlength : dAtA.length + 8 < 2 ^ 63) (htag : Number tag)
    (hdrop : dAtA.drop i = tag ++ rest) (htype : number tag % 8 ≠ 4) :
    skipField dAtA i = .ok (field, j) ↔ field = none ∧
      ∃ bs after, rest = bs ++ after ∧ Wire (.content (number tag % 8)) bs ∧
        j = i + tag.length + bs.length := by
  have hpos := htag.1.length_pos
  have hbound := le_of_drop hdrop hpos
  have hstart : (dAtA.drop i).length = dAtA.length - i := List.length_drop
  have hrest : (dAtA.drop i).drop tag.length = rest := by rw [hdrop, List.drop_left]
  rw [skipField_eq_ok hlength (by omega)]
  constructor
  · rintro ⟨hj, hj', rfl, hskip⟩
    rw [skipEllipticoin_eq_ok (by omega) (readVarint_zero_drop htag hdrop) htype (by omega),
      hrest] at hskip
    obtain ⟨bs, after, rfl, hbs, hcount⟩ := hskip
    exact ⟨rfl, bs, after, rfl, hbs, by omega⟩
  · rintro ⟨rfl, bs, after, rfl, hbs, rfl⟩
    have hbound' := le_of_drop (drop_of_drop hdrop) hbs.length_pos
    refine ⟨by omega, hbound', rfl, ?_⟩
    rw [skipEllipticoin_eq_ok (by omega) (readVarint_zero_drop htag hdrop) htype (by omega),
      hrest]
    exact ⟨bs, after, rfl, hbs, by omega⟩

/-- **One round of `Unmarshal` reads one field.** -/
theorem unmarshalField_eq_ok {type : MessageType} {dAtA : Bytes} {i j : Nat}
    {field : Option Bytes} (hlength : dAtA.length + 8 < 2 ^ 63) :
    unmarshalField type dAtA i = .ok (field, j) ↔
      ∃ bs rest, dAtA.drop i = bs ++ rest ∧ Field type.hasBytes field bs ∧
        j = i + bs.length := by
  unfold unmarshalField
  rw [except_bind_eq_ok]
  constructor
  · rintro ⟨⟨wire, k⟩, hread, h⟩
    obtain ⟨tag, hdrop, htag, rfl, rfl⟩ := drop_of_readVarint hread
    dsimp only at h
    split at h
    · cases h
    · rename_i htype
      split at h
      · cases h
      · rename_i hnum
        split at h
        · rename_i hbytes
          obtain ⟨htwo, code, payload, rest, hdrop', hcode, hpayload, rfl, rfl⟩ :=
            (unmarshalBytes_eq_ok hlength).mp h
          refine ⟨tag ++ (code ++ payload), rest, ?_,
            .bytes hbytes.1 htag hbytes.2 htwo hcode hpayload, ?_⟩
          · rw [hdrop, hdrop']
            simp only [List.append_assoc]
          · simp only [List.length_append, Nat.add_assoc]
        · rename_i hother
          obtain ⟨rfl, bs, after, hafter, hbs, rfl⟩ :=
            (skipField_iff hlength htag hdrop htype).mp h
          refine ⟨tag ++ bs, after, ?_, .other htag (by omega) hother hbs, ?_⟩
          · rw [hdrop, hafter, List.append_assoc]
          · rw [List.length_append, Nat.add_assoc]
  · rintro ⟨bs, rest, hdrop, hfield, rfl⟩
    cases hfield with
    | @bytes tag code payload hhas htag hnum htype hcode hpayload =>
        simp only [List.append_assoc] at hdrop
        refine ⟨_, readVarint_of_drop htag hdrop, ?_⟩
        dsimp only
        rw [if_neg (by omega), if_neg (by omega), if_pos ⟨hhas, hnum⟩,
          unmarshalBytes_eq_ok hlength]
        refine ⟨htype, code, payload, rest, drop_of_drop hdrop, hcode, hpayload, rfl, ?_⟩
        simp only [List.length_append, Nat.add_assoc]
    | @other tag bs htag hnum hother hbs =>
        rw [List.append_assoc] at hdrop
        have htype := hbs.ne_four
        refine ⟨_, readVarint_of_drop htag hdrop, ?_⟩
        dsimp only
        rw [if_neg htype, if_neg (by omega), if_neg hother,
          skipField_iff hlength htag hdrop htype]
        refine ⟨rfl, bs, rest, rfl, hbs, ?_⟩
        rw [List.length_append, Nat.add_assoc]

theorem Field.length_pos {hasBytes : Bool} {field : Option Bytes} {bs : Bytes}
    (h : Field hasBytes field bs) : 0 < bs.length := by
  cases h with
  | bytes _ htag =>
      have := htag.1.length_pos
      rw [List.length_append]
      omega
  | other htag =>
      have := htag.1.length_pos
      rw [List.length_append]
      omega

/-- What is read are fields, from any index on. -/
theorem fields_of_unmarshalFrom {type : MessageType} {dAtA : Bytes}
    (hlength : dAtA.length + 8 < 2 ^ 63) {fuel : Nat} {bytes result : Bytes} {i : Nat}
    (hi : i ≤ dAtA.length) (h : unmarshalFrom type dAtA fuel bytes i = (result, none)) :
    Fields type.hasBytes bytes (dAtA.drop i) result := by
  induction fuel generalizing bytes i with
  | zero => cases h
  | succ fuel ih =>
      rw [unmarshalFrom] at h
      by_cases hlt : i < dAtA.length
      · rw [if_pos hlt] at h
        cases hfield : unmarshalField type dAtA i with
        | error stop =>
            rw [hfield] at h
            cases h
        | ok next =>
            obtain ⟨field, j⟩ := next
            rw [hfield] at h
            obtain ⟨bs, rest, hdrop, hbs, rfl⟩ := (unmarshalField_eq_ok hlength).mp hfield
            have hrest := ih (le_of_drop hdrop hbs.length_pos) h
            rw [drop_of_drop hdrop] at hrest
            rw [hdrop]
            exact .field hbs hrest
      · rw [if_neg hlt, if_neg (by omega)] at h
        cases h
        rw [List.drop_of_length_le (by omega)]
        exact .done

/-- Fields are read, from any index on. -/
theorem unmarshalFrom_of_fields {type : MessageType} {dAtA : Bytes}
    (hlength : dAtA.length + 8 < 2 ^ 63) {bytes bs result : Bytes}
    (h : Fields type.hasBytes bytes bs result) :
    ∀ {fuel i : Nat}, i ≤ dAtA.length → dAtA.drop i = bs → bs.length < fuel →
      unmarshalFrom type dAtA fuel bytes i = (result, none) := by
  induction h with
  | @done bytes =>
      intro fuel i hi hdrop hfuel
      obtain ⟨fuel, rfl⟩ : ∃ k, fuel = k + 1 := ⟨fuel - 1, by omega⟩
      have hend := congrArg List.length hdrop
      rw [List.length_drop, List.length_nil] at hend
      rw [unmarshalFrom, if_neg (by omega), if_neg (by omega)]
  | @field field before bs rest after hfield hrest ih =>
      intro fuel i hi hdrop hfuel
      obtain ⟨fuel, rfl⟩ : ∃ k, fuel = k + 1 := ⟨fuel - 1, by omega⟩
      have hpos := hfield.length_pos
      have hbound := le_of_drop hdrop hpos
      rw [List.length_append] at hfuel
      rw [unmarshalFrom, if_pos (by omega),
        (unmarshalField_eq_ok hlength).mpr ⟨bs, rest, hdrop, hfield, rfl⟩]
      exact ih hbound (drop_of_drop hdrop) (by omega)

theorem fields_of_unmarshal {type : MessageType} {bytes dAtA result : Bytes}
    (hlength : dAtA.length + 8 < 2 ^ 63) (h : unmarshal type bytes dAtA = (result, none)) :
    Fields type.hasBytes bytes dAtA result := by
  have hfields := fields_of_unmarshalFrom hlength (Nat.zero_le _) h
  rwa [List.drop_zero] at hfields

theorem unmarshal_of_fields {type : MessageType} {bytes dAtA result : Bytes}
    (hlength : dAtA.length + 8 < 2 ^ 63) (h : Fields type.hasBytes bytes dAtA result) :
    unmarshal type bytes dAtA = (result, none) :=
  unmarshalFrom_of_fields hlength h (Nat.zero_le _) List.drop_zero (Nat.lt_succ_self _)

/-- **`Unmarshal` reads the fields of the wire format, and nothing else.** -/
theorem unmarshal_iff {type : MessageType} {bytes dAtA result : Bytes}
    (hlength : dAtA.length + 8 < 2 ^ 63) :
    unmarshal type bytes dAtA = (result, none) ↔
      Fields type.hasBytes bytes dAtA result :=
  ⟨fields_of_unmarshal hlength, unmarshal_of_fields hlength⟩

/-- A group with a number in it, and the field `bytes` twice. -/
theorem unmarshal_iff_at_group :
    Fields block.hasBytes [] [27, 8, 150, 1, 28, 10, 2, 97, 98, 10, 1, 99] [99] :=
  (unmarshal_iff (by decide)).mp (by decide +kernel)

theorem Fields.append {hasBytes : Bool} {a b c x y : Bytes} (h : Fields hasBytes a x b)
    (h' : Fields hasBytes b y c) : Fields hasBytes a (x ++ y) c := by
  induction h with
  | done => exact h'
  | field hfield _ ih =>
      rw [List.append_assoc]
      exact .field hfield (ih h')

/-- Two messages on end are read as the second one over the first. -/
theorem unmarshal_append {type : MessageType} {bytes first second result result' : Bytes}
    (hlength : (first ++ second).length + 8 < 2 ^ 63)
    (h : unmarshal type bytes first = (result, none))
    (h' : unmarshal type result second = (result', none)) :
    unmarshal type bytes (first ++ second) = (result', none) := by
  have hfirst : first.length ≤ (first ++ second).length := by simp
  have hsecond : second.length ≤ (first ++ second).length := by simp
  have hfields := fields_of_unmarshal (by omega) h
  exact unmarshal_of_fields hlength (hfields.append (fields_of_unmarshal (by omega) h'))

end Ellipticoind.Ports.Protobuf
