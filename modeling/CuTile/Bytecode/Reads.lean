import CuTile.Bytecode.Decoder
import CuTile.Bytecode.Writer

/-! # Reading what was written

`Reads` relates a parser to bytes that it reads to their end. The rules follow the parsers:
one for each reading function, and one for each way of putting parsers together.
-/

namespace CuTile.Bytecode

open Metered Reader

variable {α β : Type} {start : Nat} {bytes back : Bytes}

/-- At `start`, where the data goes on with `bytes` and then with `back`, the parser returns
`value` and has read `bytes`. -/
def Reads (parse : Decode α) (start : Nat) (bytes back : Bytes) (value : α) : Prop :=
  ∀ reader : Reader, reader.Placed → reader.pos = start → reader.rest = bytes ++ back →
    Returns parse reader value (reader.advance bytes.length)

namespace Reads

/-! ## Composition -/

theorem pure (value : α) : Reads (Pure.pure value) start [] back value :=
  fun reader _ _ _ => returns_pure value reader

theorem bind {first : Decode α} {next : α → Decode β} {value : α} {result : β} {rest : Bytes}
    (early : Reads first start bytes (rest ++ back) value)
    (late : Reads (next value) (start + bytes.length) rest back result) :
    Reads (first >>= next) start (bytes ++ rest) back result := by
  intro reader placed isStart is
  rw [List.append_assoc] at is
  have moved := rest_advance is
  have isLater : (reader.advance bytes.length).pos = start + bytes.length := by
    rw [advance, isStart]
  have later := late _ (placed.advance is) isLater moved
  rw [advance_advance, ← List.length_append] at later
  exact (early reader placed isStart is).bind later

theorem map {parse : Decode α} {value : α} (reads : Reads parse start bytes back value)
    (result : α → β) : Reads (parse >>= fun value => Pure.pure (result value)) start bytes back
      (result value) := by
  have both : Reads (parse >>= fun value => Pure.pure (result value)) start (bytes ++ []) back
      (result value) := bind reads (pure (result value))
  rwa [List.append_nil] at both

/-- What is read may be assumed to fit into the memory. -/
theorem of_small {parse : Decode α} {value : α}
    (reads : bytes.length < 2 ^ 63 → Reads parse start bytes back value) :
    Reads parse start bytes back value := by
  intro reader placed isStart is
  have inside := length_le_of_rest placed is
  have small := placed.small
  exact reads (by omega) reader placed isStart is

/-! ## Reading functions -/

theorem byte (value : UInt8) : Reads readByte start [value] back value :=
  fun _ placed _ is => returns_readByte placed is

theorem data (data : Bytes) : Reads (readBytes data.length) start data back data :=
  fun _ placed _ is => returns_readBytes placed is

theorem varint {value : Nat} (fits : value < 2 ^ 64) :
    Reads readVarint start (varint64 value) back value := by
  rw [varint64, Nat.mod_eq_of_lt fits]
  exact fun _ placed _ is => returns_readVarint placed fits is

theorem skipPadding {alignment : Nat} (aligned : 2 ≤ alignment) :
    Reads (Reader.skipPadding alignment) start (padding alignment start) back () := by
  intro _ placed isStart is
  rw [← isStart] at is ⊢
  rw [padding, List.length_replicate]
  exact returns_skipPadding aligned placed is

end Reads

end CuTile.Bytecode
