import Ellipticoind.Ports.BlockApply

/-!
# The proof-of-work search

The native program of `hashfactor/src/main.rs` searches for a nonce that
`Hashfactor.valid_nonce?` of the node accepts.  The two build the hashed bytes and read the
hash in different languages; the search starts at a random nonce.

## Main results

* `stops_eq` — the stopping test of the search, on any nonce, is the node's check.
* `search_agrees` — so what the search returns is valid.
-/

namespace Ellipticoind.Ports.Records

open Ellipticoind.Verified.LittleEndian
open Ellipticoind.Verified.StateRun

/-! ## `hashfactor/src/main.rs` -/

/-- What the native program takes from its crates, and how it was built. -/
structure NativeHashfactor where
  sha256 : Bytes → Bytes
  /-- `BigUint::to_bytes_le`, of a `u64`. -/
  toBytesLe : Nat → Bytes
  /-- The build checks integer overflow. -/
  overflowChecks : Bool

namespace NativeHashfactor

def NUMERATOR_BYTE_LENGTH : Nat := 8

variable (N : NativeHashfactor)

/-- A `u64` addition. -/
def addU64 (a b : Nat) : Except Stop Nat :=
  if a + b < 2 ^ 64 then .ok (a + b)
  else if N.overflowChecks then .error .panic
  else .ok ((a + b) % 2 ^ 64)

/-- `first_bytes_as_u64`.  Slicing a hash that is too short panics; eight bytes are always
a `u64`. -/
def firstBytesAsU64 (hash : Bytes) : Except Stop Nat :=
  if NUMERATOR_BYTE_LENGTH ≤ hash.length then
    .ok (leNat (hash.take NUMERATOR_BYTE_LENGTH))
  else .error .panic

/-- `is_factor_of`, which panics at a denominator of zero. -/
def isFactorOf (numerator denominator : Nat) : Except Stop Bool :=
  if denominator = 0 then .error .panic else .ok (numerator % denominator = 0)

def hashWithNonce (nonce : Nat) (data : Bytes) : Bytes :=
  N.sha256 (data ++ N.toBytesLe nonce)

/-- The stopping test of the loop. -/
def stops (dataHash : Bytes) (targetNumberOfHashes nonce : Nat) : Except Stop Bool := do
  let value ← firstBytesAsU64 (N.hashWithNonce nonce dataHash)
  isFactorOf value (← N.addU64 targetNumberOfHashes 1)

/-- The loop, for a number of rounds. -/
def search (dataHash : Bytes) (targetNumberOfHashes : Nat) : Nat → Nat → Except Stop Nat
  | 0, _ => .error .outOfFuel
  | rounds + 1, nonce => do
      if ← N.stops dataHash targetNumberOfHashes nonce then pure nonce
      else search dataHash targetNumberOfHashes rounds (← N.addU64 nonce 1)

/-- `hashfactor`, where `rng.gen_range` answers `random`. -/
def hashfactor (rounds random : Nat) (data : Bytes) (targetNumberOfHashes : Nat) :
    Except Stop Nat :=
  if random < targetNumberOfHashes then
    N.search (N.sha256 data) targetNumberOfHashes rounds random
  else .error .panic

end NativeHashfactor

/-! ## Minimal forms -/

/-- `to_bytes_le` answers the minimal little-endian form of each `u64`. -/
def WritesMinimal (toBytesLe : Nat → Bytes) : Prop :=
  ∀ n < 2 ^ 64, Minimal (toBytesLe n) ∧ leNat (toBytesLe n) = n

/-- `encode_unsigned` of a number is its minimal form. -/
theorem encodeUnsigned_eq (n : Nat) :
    ∃ bytes, encodeUnsigned (.integer n) = some bytes ∧ Minimal bytes ∧ leNat bytes = n := by
  unfold encodeUnsigned
  dsimp only
  rw [if_neg (by omega)]
  by_cases hzero : n = 0
  · subst hzero
    exact ⟨[0], rfl, ⟨by decide, .inl rfl⟩, rfl⟩
  · rw [if_neg (by omega), Int.toNat_natCast]
    exact ⟨_, rfl, minimal_digits hzero, leNat_digits n⟩

/-- The two encodings of a nonce are the same bytes. -/
theorem encodeUnsigned_of_minimal {toBytesLe : Nat → Bytes} (h : WritesMinimal toBytesLe)
    {nonce : Nat} (hnonce : nonce < 2 ^ 64) :
    encodeUnsigned (.integer nonce) = some (toBytesLe nonce) := by
  obtain ⟨bytes, hencoded, hminimal, hvalue⟩ := encodeUnsigned_eq nonce
  obtain ⟨hminimal', hvalue'⟩ := h nonce hnonce
  rw [hencoded, eq_of_minimal hminimal hminimal' (hvalue.trans hvalue'.symm)]

/-! ## The test and the check -/

variable {N : NativeHashfactor} {L : RecordLibrary}

/-- The stopping test of the search does not panic, and answers what the check does. -/
theorem stops_eq (hhash : N.sha256 = L.hash) (hlength : ∀ message, (L.hash message).length = 32)
    (hbytes : WritesMinimal N.toBytesLe) (htarget : L.hashfactorTarget < 2 ^ 64 - 1)
    (data : Bytes) {nonce : Nat} (hnonce : nonce < 2 ^ 64) :
    ∃ b, N.stops (N.sha256 data) L.hashfactorTarget nonce = .ok b ∧
      validNonce L data (.integer nonce) = some b := by
  have hadd : N.addU64 L.hashfactorTarget 1 = .ok (L.hashfactorTarget + 1) :=
    if_pos (by omega)
  have hvalue : NativeHashfactor.firstBytesAsU64
      (N.hashWithNonce nonce (N.sha256 data)) =
        .ok (leNat ((L.hash (L.hash data ++ N.toBytesLe nonce)).take 8)) := by
    unfold NativeHashfactor.firstBytesAsU64 NativeHashfactor.hashWithNonce
    rw [hhash, hlength, if_pos (by decide)]
    rfl
  have hfactor : ∀ value, NativeHashfactor.isFactorOf value (L.hashfactorTarget + 1) =
      .ok (decide (value % (L.hashfactorTarget + 1) = 0)) :=
    fun value => if_neg (Nat.succ_ne_zero _)
  refine ⟨decide (leNat ((L.hash (L.hash data ++ N.toBytesLe nonce)).take 8) %
    (L.hashfactorTarget + 1) = 0), ?_, ?_⟩
  · unfold NativeHashfactor.stops
    rw [hvalue, hadd]
    exact hfactor _
  · unfold validNonce
    rw [encodeUnsigned_of_minimal hbytes hnonce]
    rfl

theorem addU64_lt {a b c : Nat} (h : N.addU64 a b = .ok c) : c < 2 ^ 64 := by
  unfold NativeHashfactor.addU64 at h
  split at h
  · cases h
    assumption
  · split at h
    · cases h
    · cases h
      exact Nat.mod_lt _ (by decide)

/-- What the loop returns passes its test and is a `u64`.  The induction is on the rounds:
whatever nonce a round ends with, the next one begins with a `u64`. -/
theorem stops_of_search {dataHash : Bytes} {target rounds start nonce : Nat}
    (hstart : start < 2 ^ 64) (h : N.search dataHash target rounds start = .ok nonce) :
    N.stops dataHash target nonce = .ok true ∧ nonce < 2 ^ 64 := by
  induction rounds generalizing start with
  | zero => cases h
  | succ rounds ih =>
      unfold NativeHashfactor.search at h
      obtain ⟨b, hstops, h⟩ := except_bind_eq_ok.mp h
      cases b with
      | true =>
          cases h
          exact ⟨hstops, hstart⟩
      | false =>
          obtain ⟨next, hnext, h⟩ := except_bind_eq_ok.mp h
          exact ih (addU64_lt hnext) h

/-- **The search and its checker agree.**  On every nonce the search stops exactly if the
node accepts it; so whatever random nonce it starts at, what it returns is valid. -/
theorem search_agrees (hhash : N.sha256 = L.hash)
    (hlength : ∀ message, (L.hash message).length = 32)
    (hbytes : WritesMinimal N.toBytesLe) (htarget : L.hashfactorTarget < 2 ^ 64 - 1)
    (data : Bytes) :
    (∀ nonce < 2 ^ 64, N.stops (N.sha256 data) L.hashfactorTarget nonce = .ok true ↔
      validNonce L data (.integer nonce) = some true) ∧
    ∀ rounds random nonce,
      N.hashfactor rounds random data L.hashfactorTarget = .ok nonce →
        validNonce L data (.integer nonce) = some true := by
  have hagree : ∀ nonce < 2 ^ 64,
      N.stops (N.sha256 data) L.hashfactorTarget nonce = .ok true ↔
        validNonce L data (.integer nonce) = some true := by
    intro nonce hnonce
    obtain ⟨b, hstops, hvalid⟩ := stops_eq hhash hlength hbytes htarget data hnonce
    rw [hstops, hvalid, Except.ok.injEq, Option.some.injEq]
  refine ⟨hagree, fun rounds random nonce h => ?_⟩
  unfold NativeHashfactor.hashfactor at h
  split at h
  · rename_i hrandom
    obtain ⟨hstops, hnonce⟩ := stops_of_search (by omega) h
    exact (hagree nonce hnonce).mp hstops
  · cases h

/-! ## A search that ends at once -/

/-- A target of one, and a hash that every nonce solves. -/
def oneHash : RecordLibrary := { emptyBlocks with hashfactorTarget := 1 }

/-- A release build of the program. -/
def oneHashSearch : NativeHashfactor where
  sha256 := oneHash.hash
  toBytesLe nonce := (encodeUnsigned (.integer nonce)).getD []
  overflowChecks := false

theorem oneHashSearch_writesMinimal : WritesMinimal oneHashSearch.toBytesLe := by
  intro nonce _
  obtain ⟨bytes, hencoded, hminimal, hvalue⟩ := encodeUnsigned_eq nonce
  have hbytes : oneHashSearch.toBytesLe nonce = bytes := by
    calc
      _ = (encodeUnsigned (.integer nonce)).getD [] := rfl
      _ = bytes := by rw [hencoded, Option.getD_some]
  rw [hbytes]
  exact ⟨hminimal, hvalue⟩

/-- The search at the random nonce 0 returns it, and the node accepts it. -/
theorem search_agrees_at_zero :
    oneHashSearch.hashfactor 1 0 [7] 1 = .ok 0 ∧
      validNonce oneHash [7] (.integer 0) = some true := by
  have hfound : oneHashSearch.hashfactor 1 0 [7] 1 = .ok 0 := by rfl
  have hagree := search_agrees (N := oneHashSearch) (L := oneHash) rfl
    (fun _ => List.length_replicate) oneHashSearch_writesMinimal (by decide) [7]
  exact ⟨hfound, hagree.2 1 0 0 hfound⟩

end Ellipticoind.Ports.Records
