import OxiBelt.Lib.Bytes

/-!
# WebTransport capsules (`webtransport/codec.rs`)

The capsules that a session sends, as the values that are written and not yet as bytes.  Writing one fails
if an integer of it does not fit a variable-length integer (`Capsule.encodable`).
-/

namespace WebTransport

open ByteString (Bytes)

/-- `VARINT_MAX`. -/
def varintMax : Nat := 2 ^ 62 - 1

/-- `QUANTUM`: the most data that the decoder hands over at once, and the size of a staging block. -/
def quantum : Nat := 16 * 1024

/-- `MAX_DATAGRAM`. -/
def maxDatagram : Nat := 65535

inductive Capsule where
  | stream (id : Nat) (data : Bytes) (fin : Bool)
  | resetStream (id code size : Nat)
  | stopSending (id code : Nat)
  | maxData (limit : Nat)
  | maxStreamData (id limit : Nat)
  | maxStreams (uni : Bool) (limit : Nat)
  | dataBlocked (limit : Nat)
  | streamDataBlocked (id limit : Nat)
  | streamsBlocked (uni : Bool) (limit : Nat)
  | datagram (data : Bytes)
  | closeSession (code : UInt32) (reason : Bytes)
  | drainSession
  deriving DecidableEq

/-- How many bytes `put_varint` writes. -/
def varintLength (n : Nat) : Nat :=
  if n < 2 ^ 6 then 1 else if n < 2 ^ 14 then 2 else if n < 2 ^ 30 then 4 else 8

namespace Capsule

/-- The values of a capsule and the length of a payload of any size, which `put_varint` writes. -/
def integers : Capsule → List Nat
  | stream id data _ => [id, varintLength id + data.length]
  | resetStream id code size => [id, code, size]
  | stopSending id code => [id, code]
  | maxData limit | maxStreams _ limit | dataBlocked limit | streamsBlocked _ limit => [limit]
  | maxStreamData id limit | streamDataBlocked id limit => [id, limit]
  | datagram data => [data.length]
  | closeSession _ reason => [4 + reason.length]
  | drainSession => []

/-- `codec::control`, `codec::stream` and `codec::encode` succeed. -/
def encodable (capsule : Capsule) : Bool := capsule.integers.all (· ≤ varintMax)

end Capsule

end WebTransport
