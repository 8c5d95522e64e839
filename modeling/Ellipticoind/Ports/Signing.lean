import Ellipticoind.Ports.QueueEntries

/-!
# Signing a transaction and checking the signature

`Transaction.sign` puts the sender into a map or a struct, signs the CBOR of its view and
puts the signature beside it.  `from_signed_transaction` takes the signature out again and
checks it against the CBOR of the view of what is left.

`struct/2` enumerates what it is given; the schemas do not implement `Enumerable`.

## Main results

* `fromSignedTransaction_sign` — what the check says of what was signed.
* `attributes_eq_of_accepted` — a signature is good for one view.
* `signatures_bind` — the two together.
-/

namespace Ellipticoind.Ports.Records

/-! ## `transaction.ex` -/

/-- The name of the module of the structs of the schema. -/
def transactionModule : String := "Elixir.Ellipticoind.Models.Transaction"

/-- A struct of the schema. -/
def TransactionStruct.toMap (t : TransactionStruct) : TransactionMap where
  moduleName := some transactionModule
  attributes field := some (t field)
  rest := []

/-- What signing takes from third-party code. -/
structure SigningLibrary extends Codec where
  /-- The public half of a key pair; `none` for what is no key pair. -/
  privateKeyToPublicKey : Bytes → Option Bytes
  /-- `Keypair::sign` of a message, with a key pair. -/
  signature : Bytes → Bytes → Option Bytes

variable (S : SigningLibrary)

/-- The message of a map. -/
def signedMessage (t : TransactionMap) : Option Bytes :=
  asBinary S.toCodec t.received

/-- `sign`. -/
def sign (t : TransactionMap) (privateKey : Bytes) : Option TransactionMap := do
  let sender ← S.privateKeyToPublicKey privateKey
  let message ← signedMessage S (t.put .sender (.binary sender))
  let signature ← S.signature message privateKey
  return (t.put .sender (.binary sender)).put .signature (.binary signature)

/-! ## What is relied on -/

/-- The check accepts exactly the signatures made by the key on that message. -/
structure SigningLibrary.Exact : Prop where
  /-- A key pair signs every message. -/
  signs : ∀ privateKey publicKey message, S.privateKeyToPublicKey privateKey = some publicKey →
    ∃ signature, S.signature message privateKey = some signature
  /-- What it has signed is good for that message. -/
  accepts : ∀ privateKey publicKey message message' signature,
    S.privateKeyToPublicKey privateKey = some publicKey →
      S.signature message privateKey = some signature →
        (S.verify signature message' publicKey = some true ↔ message' = message)
  /-- What is accepted has been signed. -/
  signed : ∀ publicKey message signature, S.verify signature message publicKey = some true →
    ∃ privateKey, S.privateKeyToPublicKey privateKey = some publicKey ∧
      S.signature message privateKey = some signature

/-- The CBOR of maps is injective. -/
def Codec.Injective (C : Codec) : Prop :=
  ∀ pairs pairs' bytes, C.encode pairs = some bytes → C.encode pairs' = some bytes →
    pairs = pairs'

/-- The structs of the schema are not enumerable. -/
def SigningLibrary.KeepsStructs : Prop :=
  ∀ t : TransactionMap, t.moduleName = some transactionModule → S.enumerate t = none

/-- The struct of what was signed: the fields of the map, with the sender that has signed
and without the signature. -/
def signedStruct (t : TransactionMap) (publicKey : Bytes) : TransactionStruct :=
  Function.update (Function.update (struct t.attributes) .sender (.binary publicKey))
    .signature .nil

/-! ## Views -/

/-- A map is given by its pairs. -/
theorem pairs_injective {attributes attributes' : Attributes}
    (h : attributes.pairs = attributes'.pairs) : attributes = attributes' := by
  funext f
  ext term
  rw [← mem_pairs_iff, ← mem_pairs_iff, h]

/-- The signature is no part of the message. -/
theorem signedMessage_put_signature (t : TransactionMap) (signature : Term) :
    signedMessage S (t.put .signature signature).unsigned = signedMessage S t := by
  have hview : ((t.put .signature signature).unsigned).attributes.drop dropped =
      t.attributes.drop dropped := by
    funext f
    cases f <;> rfl
  have hmessage (t : TransactionMap) : signedMessage S t =
      S.encode (t.attributes.drop dropped).pairs := rfl
  rw [hmessage, hmessage, hview]

/-! ## What was signed is accepted -/

variable {S}

theorem sign_eq_some (hS : S.Exact) {t : TransactionMap} {privateKey publicKey message : Bytes}
    (hkey : S.privateKeyToPublicKey privateKey = some publicKey)
    (hmessage : signedMessage S (t.put .sender (.binary publicKey)) = some message) :
    ∃ signature, S.signature message privateKey = some signature ∧
      sign S t privateKey =
        some ((t.put .sender (.binary publicKey)).put .signature (.binary signature)) := by
  obtain ⟨signature, hsignature⟩ := hS.signs privateKey publicKey message hkey
  refine ⟨signature, hsignature, ?_⟩
  refine Option.bind_eq_some_iff.mpr ⟨publicKey, hkey, ?_⟩
  refine Option.bind_eq_some_iff.mpr ⟨message, hmessage, ?_⟩
  exact Option.bind_eq_some_iff.mpr ⟨signature, hsignature, rfl⟩

theorem struct_signed (t : TransactionMap) (publicKey : Bytes) (signature : Term) :
    struct (((t.put .sender (.binary publicKey)).put .signature signature).attributes.drop
      [.signature]) = signedStruct t publicKey := by
  funext f
  cases f <;> rfl

/-- The signature of what was signed is good, for maps and structs alike. -/
theorem signed_sign (hS : S.Exact) {t : TransactionMap}
    {privateKey publicKey message signature : Bytes}
    (hkey : S.privateKeyToPublicKey privateKey = some publicKey)
    (hmessage : signedMessage S (t.put .sender (.binary publicKey)) = some message)
    (hsignature : S.signature message privateKey = some signature) :
    Signed S.toCodec ((t.put .sender (.binary publicKey)).put .signature (.binary signature)) := by
  have hunsigned := signedMessage_put_signature S (t.put .sender (.binary publicKey))
    (.binary signature)
  have hvalid := (hS.accepts _ _ _ message _ hkey hsignature).mpr rfl
  exact ⟨message, signature, publicKey, hunsigned.trans hmessage, rfl, rfl, hvalid⟩

/-- A signed map whose fields cannot be enumerated makes the check raise. -/
theorem fromSignedTransaction_eq_raised {C : Codec} {t : TransactionMap} (hsigned : Signed C t)
    (hnone : structFields C t.unsigned = none) : fromSignedTransaction C t = .raised := by
  obtain ⟨message, signature, sender, hmessage, hsignature, hsender, hvalid⟩ := hsigned
  simp only [fromSignedTransaction, hmessage, hsignature, hsender, Option.getD_some,
    validSignature, hvalid, hnone]

/-- What the check says of what was signed: it is accepted if it is a plain map, and a
struct is enumerated. -/
theorem fromSignedTransaction_sign (hS : S.Exact) {t : TransactionMap}
    {privateKey publicKey message : Bytes}
    (hkey : S.privateKeyToPublicKey privateKey = some publicKey)
    (hmessage : signedMessage S (t.put .sender (.binary publicKey)) = some message) :
    ∃ signed, sign S t privateKey = some signed ∧
      (t.moduleName = none →
        fromSignedTransaction S.toCodec signed = .ok (signedStruct t publicKey)) ∧
      (S.KeepsStructs → t.moduleName = some transactionModule →
        fromSignedTransaction S.toCodec signed = .raised) := by
  obtain ⟨signature, hsignature, hmade⟩ := sign_eq_some hS hkey hmessage
  have hsigned := signed_sign hS hkey hmessage hsignature
  refine ⟨_, hmade, fun hplain => ?_, fun hstructs hstruct => ?_⟩
  · have hfields := structFields_unsigned (C := S.toCodec)
      (t := (t.put .sender (.binary publicKey)).put .signature (.binary signature)) hplain
    exact fromSignedTransaction_eq_ok_iff.mpr
      ⟨hsigned, _, hfields, (struct_signed t publicKey _).symm⟩
  · refine fromSignedTransaction_eq_raised hsigned ?_
    simp only [structFields, TransactionMap.moduleName_unsigned, TransactionMap.moduleName_put,
      hstruct]
    exact hstructs _ (by simpa using hstruct)

/-! ## A signature is good for one view -/

/-- The struct of an accepted map that is no struct. -/
theorem eq_struct_of_plain {C : Codec} {t : TransactionMap} {transaction : TransactionStruct}
    (h : fromSignedTransaction C t = .ok transaction) (hplain : t.moduleName = none) :
    transaction = struct (t.attributes.drop [.signature]) := by
  obtain ⟨-, taken, htaken, rfl⟩ := fromSignedTransaction_eq_ok_iff.mp h
  cases (structFields_unsigned hplain).symm.trans htaken
  rfl

/-- Two accepted maps with the same signature and sender have the same view. -/
theorem attributes_eq_of_accepted (hS : S.Exact) (hC : S.toCodec.Injective)
    {m m' : TransactionMap} {transaction transaction' : TransactionStruct}
    (h : fromSignedTransaction S.toCodec m = .ok transaction)
    (h' : fromSignedTransaction S.toCodec m' = .ok transaction')
    (hsignature : m.attributes .signature = m'.attributes .signature)
    (hsender : m.attributes .sender = m'.attributes .sender)
    {f : TransactionField} (hf : f ∉ dropped) : m.attributes f = m'.attributes f := by
  obtain ⟨⟨message, signature, sender, hmessage, hsig, hsnd, hvalid⟩, -⟩ :=
    fromSignedTransaction_eq_ok_iff.mp h
  obtain ⟨⟨message', signature', sender', hmessage', hsig', hsnd', hvalid'⟩, -⟩ :=
    fromSignedTransaction_eq_ok_iff.mp h'
  obtain rfl : signature = signature' :=
    Term.binary.inj (Option.some.inj (hsig.symm.trans (hsignature.trans hsig')))
  obtain rfl : sender = sender' :=
    Term.binary.inj (Option.some.inj (hsnd.symm.trans (hsender.trans hsnd')))
  -- both messages are the one that the key has signed
  obtain ⟨privateKey, hkey, hmade⟩ := hS.signed _ _ _ hvalid
  obtain rfl := (hS.accepts _ _ _ _ _ hkey hmade).mp hvalid'
  have hviews := pairs_injective (hC _ _ _ hmessage hmessage')
  have hview (m : TransactionMap) :
      (m.attributes.drop [.signature]).drop dropped f = m.attributes f := by
    have hne : f ∉ [TransactionField.signature] := fun hmem =>
      hf (List.mem_singleton.mp hmem ▸ by decide)
    rw [Attributes.drop, if_neg hf, Attributes.drop, if_neg hne]
  rw [← hview m, ← hview m']
  exact congrFun hviews f

/-- **Signing and checking match, and bind what is executed.**  What was signed is accepted
with its own fields, unless it is a struct, which `struct/2` raises at; and no accepted map
has another one's signature and sender but a different view. -/
theorem signatures_bind (hS : S.Exact) (hC : S.toCodec.Injective) (hstructs : S.KeepsStructs) :
    (∀ t privateKey publicKey message,
      S.privateKeyToPublicKey privateKey = some publicKey →
      signedMessage S (t.put .sender (.binary publicKey)) = some message →
        ∃ signed, sign S t privateKey = some signed ∧
          (t.moduleName = none →
            fromSignedTransaction S.toCodec signed = .ok (signedStruct t publicKey)) ∧
          (t.moduleName = some transactionModule →
            fromSignedTransaction S.toCodec signed = .raised)) ∧
    ∀ m m' transaction transaction', fromSignedTransaction S.toCodec m = .ok transaction →
      fromSignedTransaction S.toCodec m' = .ok transaction' →
      m.attributes .signature = m'.attributes .signature →
      m.attributes .sender = m'.attributes .sender →
        ∀ f ∉ dropped, m.attributes f = m'.attributes f ∧
          (m.moduleName = none → m'.moduleName = none → transaction f = transaction' f) := by
  constructor
  · intro t privateKey publicKey message hkey hmessage
    obtain ⟨signed, hsigned, hplain, hstruct⟩ := fromSignedTransaction_sign hS hkey hmessage
    exact ⟨signed, hsigned, hplain, hstruct hstructs⟩
  · intro m m' transaction transaction' h h' hsignature hsender f hf
    have hfields := attributes_eq_of_accepted hS hC h h' hsignature hsender hf
    refine ⟨hfields, fun hm hm' => ?_⟩
    rw [eq_struct_of_plain h hm, eq_struct_of_plain h' hm', struct_drop hf, struct_drop hf,
      struct, struct, hfields]

/-! ## A library for signatures -/

/-- The terms that `Term.ofItem` reads back. -/
def Term.isScalar : Term → Bool
  | .integer _ => true
  | .atom _ => true
  | .binary _ => true
  | .list [] => true
  | _ => false

/-- The term of an item that is no list of something, or map. -/
def Term.ofItem : Verified.Cbor.Item → Term
  | .unsigned value => .integer value
  | .negative value => .integer (-1 - value)
  | .bytes bytes => .binary bytes
  | .text bytes => .atom ((strFromUtf8 bytes).getD "")
  | .array _ => .list []
  | _ => .nil

theorem ofItem_toItem {term : Term} (h : term.isScalar = true) :
    Term.ofItem term.toItem = term := by
  match term with
  | .integer value =>
      unfold Term.toItem
      split
      · rename_i hvalue
        rw [Term.ofItem, Int.toNat_of_nonneg hvalue]
      · rename_i hvalue
        have hnegative : 0 ≤ -1 - value := by omega
        rw [Term.ofItem, Int.toNat_of_nonneg hnegative, Int.sub_sub_self]
  | .atom name =>
      unfold Term.toItem
      split
      · rename_i hname
        rw [hname]
        rfl
      · rw [Term.ofItem, strFromUtf8_utf8, Option.getD_some]
  | .binary _ => rfl
  | .list [] => rfl

/-- The codec on scalars.  A signature is the key followed by the message. -/
def signer : SigningLibrary where
  toCodec := { codec with
    encode := fun pairs =>
      if pairs.all fun pair => pair.2.isScalar then codec.encode pairs else none
    verify := fun signature message publicKey => some (signature = publicKey ++ message) }
  privateKeyToPublicKey privateKey := some privateKey
  signature message privateKey := some (privateKey ++ message)

theorem signer_exact : signer.Exact where
  signs _ _ _ _ := ⟨_, rfl⟩
  accepts privateKey publicKey message message' signature hkey hsignature := by
    cases hkey
    cases hsignature
    have hverify : signer.verify (privateKey ++ message) message' privateKey =
        some (decide (privateKey ++ message = privateKey ++ message')) := rfl
    rw [hverify, Option.some.injEq, decide_eq_true_iff, List.append_cancel_left_eq, eq_comm]
  signed publicKey message signature h := by
    have hsignature : signature = publicKey ++ message := of_decide_eq_true (Option.some.inj h)
    exact ⟨publicKey, rfl, congrArg some hsignature.symm⟩

/-- The items of the pairs are read back from their bytes, and the terms from the items. -/
theorem signer_injective : signer.toCodec.Injective := by
  have hread : ∀ pairs bytes, signer.encode pairs = some bytes →
      (readTextMap bytes).map (List.map fun entry => (entry.1, Term.ofItem entry.2)) =
        some pairs := by
    intro pairs bytes h
    obtain ⟨hscalar, h⟩ := Option.ite_none_right_eq_some.mp h
    obtain ⟨hfits, h⟩ := Option.ite_none_right_eq_some.mp h
    cases h
    rw [readTextMap_write hfits, Option.map_some, List.map_map, Option.some.injEq]
    refine (List.map_congr_left fun pair hpair => ?_).trans (List.map_id pairs)
    rw [Function.comp_apply, ofItem_toItem (List.all_eq_true.mp hscalar pair hpair)]
    rfl
  intro pairs pairs' bytes h h'
  exact Option.some.inj ((hread _ _ h).symm.trans (hread _ _ h'))

theorem signer_keepsStructs : signer.KeepsStructs := fun _ _ => rfl

/-- What is signed of a map with the key of one byte. -/
def messageOf (t : TransactionMap) : Bytes :=
  (signedMessage signer (t.put .sender (.binary [1]))).getD []

/-- The request is signed and accepted. -/
theorem signatures_bind_at_ping :
    ∃ signed, sign signer pingMap [1] = some signed ∧
      fromSignedTransaction signer.toCodec signed = .ok (signedStruct pingMap [1]) := by
  obtain ⟨signed, hsigned, hplain, -⟩ :=
    (signatures_bind signer_exact signer_injective signer_keepsStructs).1 pingMap [1] [1]
      (messageOf pingMap) rfl rfl
  exact ⟨signed, hsigned, hplain rfl⟩

/-- A struct is signed, and the check of what was signed raises. -/
theorem signed_struct_raises :
    ¬ ∀ S : SigningLibrary, S.Exact → S.toCodec.Injective → S.KeepsStructs →
      ∀ t privateKey publicKey message, S.privateKeyToPublicKey privateKey = some publicKey →
        signedMessage S (t.put .sender (.binary publicKey)) = some message →
          ∃ signed, sign S t privateKey = some signed ∧
            fromSignedTransaction S.toCodec signed = .ok (signedStruct t publicKey) := by
  intro h
  have hmessage : signedMessage signer ((struct emptyPing).toMap.put .sender (.binary [1])) =
      some (messageOf (struct emptyPing).toMap) := by
    rfl
  obtain ⟨signed, hsigned, hok⟩ := h signer signer_exact signer_injective signer_keepsStructs
    (struct emptyPing).toMap [1] [1] _ rfl hmessage
  have hkey : signer.privateKeyToPublicKey [1] = some [1] := rfl
  obtain ⟨signed', hsigned', -, hraised⟩ := fromSignedTransaction_sign signer_exact hkey hmessage
  obtain rfl : signed = signed' := Option.some.inj (hsigned.symm.trans hsigned')
  rw [hraised signer_keepsStructs rfl] at hok
  cases hok

end Ellipticoind.Ports.Records
