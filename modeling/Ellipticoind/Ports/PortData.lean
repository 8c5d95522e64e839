import Ellipticoind.Ports.Redis
import Ellipticoind.Verified.Base64
import Mathlib.Data.List.DropRight

/-!
# Text from a port

A port hands over what its program prints as lists of bytes.  `rocksdb.ex` and
`transaction_processor.ex` turn such a list into a string, take the newline off
and decode the rest; here are the functions of Elixir they do it with.

## Main results

* `decode64_line` — a line of bytes that a program prints in base 64 is read
  back.
-/

namespace Ellipticoind.Ports

open Ellipticoind.Verified

/-- The character `\n`. -/
def newline : UInt8 := 10

/-- The character that separates the words of a line. -/
def space : UInt8 := 32

/-- A byte as a code point, in UTF-8. -/
def codePoint (b : UInt8) : Bytes :=
  if b < 128 then [b] else [192 + b / 64, 128 + b % 64]

/-- `List.to_string`: the bytes of the message are code points to it. -/
def listToString (message : Bytes) : Bytes := message.flatMap codePoint

/-- `String.trim(text, "\n")`. -/
def trimNewlines (text : Bytes) : Bytes :=
  (text.dropWhile (· == newline)).rdropWhile (· == newline)

/-- `message |> List.to_string() |> String.trim("\n") |> Base.decode64!()`; it
raises where there is no result. -/
def decode64 (message : Bytes) : Option Bytes :=
  Base64.decode (trimNewlines (listToString message))

theorem listToString_append (x y : Bytes) :
    listToString (x ++ y) = listToString x ++ listToString y := List.flatMap_append

/-- Nothing changes in ASCII. -/
theorem listToString_ascii {message : Bytes} (h : ∀ b ∈ message, b < 128) :
    listToString message = message := by
  induction message with
  | nil => rfl
  | cons b rest ih =>
      obtain ⟨hb, hrest⟩ := List.forall_mem_cons.mp h
      rw [listToString, List.flatMap_cons, codePoint, if_pos hb]
      exact congrArg (b :: ·) (ih hrest)

theorem trimNewlines_eq {text : Bytes} (h : newline ∉ text) : trimNewlines text = text := by
  have hne : ∀ b ∈ text, ¬ (b == newline) = true := fun b hb heq =>
    h (beq_iff_eq.mp heq ▸ hb)
  have hleft : text.dropWhile (· == newline) = text :=
    List.dropWhile_eq_self_iff.mpr fun hl => hne _ (List.getElem_mem hl)
  rw [trimNewlines, hleft]
  exact List.rdropWhile_eq_self_iff.mpr fun hl => hne _ (List.getLast_mem hl)

theorem trimNewlines_line {text : Bytes} (h : newline ∉ text) :
    trimNewlines (text ++ [newline]) = text := by
  cases text with
  | nil => rfl
  | cons b rest =>
      have hb : ¬ (b == newline) = true := fun heq =>
        h (beq_iff_eq.mp heq ▸ List.mem_cons_self)
      have hself := trimNewlines_eq h
      rw [trimNewlines, List.dropWhile_cons_of_neg (p := (· == newline)) hb] at hself
      rw [trimNewlines, List.cons_append, List.dropWhile_cons_of_neg (p := (· == newline)) hb,
        ← List.cons_append]
      exact (List.rdropWhile_concat_pos (· == newline) (b :: rest) newline
        (beq_self_eq_true newline)).trans hself

/-! ## Base 64 -/

theorem encode_ascii {bytes : Bytes} {c : UInt8} (h : c ∈ Base64.encode bytes) : c < 128 := by
  have hletters : ∀ c ∈ Base64.alphabet, c < 128 := by decide +kernel
  obtain hletter | rfl := Base64.mem_encode h
  · exact hletters c hletter
  · decide

theorem newline_notMem_encode (bytes : Bytes) : newline ∉ Base64.encode bytes :=
  Base64.notMem_encode (by decide +kernel) (by decide) bytes

theorem space_notMem_encode (bytes : Bytes) : space ∉ Base64.encode bytes :=
  Base64.notMem_encode (by decide +kernel) (by decide) bytes

/-- A line of bytes that a program prints in base 64 is read back. -/
theorem decode64_line (bytes : Bytes) :
    decode64 (Base64.encode bytes ++ [newline]) = some bytes := by
  have hascii : ∀ b ∈ Base64.encode bytes ++ [newline], b < 128 := by
    intro b hb
    obtain hencode | hnewline := List.mem_append.mp hb
    · exact encode_ascii hencode
    · rw [List.mem_singleton.mp hnewline]
      decide
  rw [decode64, listToString_ascii hascii, trimNewlines_line (newline_notMem_encode bytes),
    Base64.decode_encode]

end Ellipticoind.Ports
