import OxiBelt.Lib.Codec
import OxiBelt.RustStd.Result

/-!
# Vectors and numbers of the certificate log (`oxibelt-ct/src/codec.rs`)

A `Reader` is what is left of its input; the sum of the offset and a length cannot overflow, because a length has at
most three bytes or is what is left.  What the source pushes to an output is returned as a part, and `concat` puts the
parts together up to the first error.
-/

namespace Ct

open RustStd Codec ByteString

/-- `U24_MAX`. -/
def u24Max : Nat := 0x00ffffff

/-- `u16::to_be_bytes`. -/
def beU16 (n : UInt16) : Bytes := beBytes 2 n.toNat

/-- `u64::to_be_bytes`. -/
def beU64 (n : UInt64) : Bytes := beBytes 8 n.toNat

namespace Reader

def truncated : Str := "truncated CT wire data"

def outsideBounds : Str := "CT vector length is outside its declared bounds"

def take (length : Nat) : Reader Str Bytes := Codec.take truncated length

def u8 : Reader Str UInt8 := UInt8.ofNat <$> natural truncated 1

def u16 : Reader Str UInt16 := UInt16.ofNat <$> natural truncated 2

def u64 : Reader Str UInt64 := UInt64.ofNat <$> natural truncated 8

variable (minimum maximum : Nat)

def vectorU8 : Reader Str Bytes := vector truncated outsideBounds 1 minimum maximum

def vectorU16 : Reader Str Bytes := vector truncated outsideBounds 2 minimum maximum

def vectorU24 : Reader Str Bytes :=
  vector truncated outsideBounds 3 minimum (min maximum u24Max)

/-- Reads a value and calls `finish`. -/
def decode {α : Type} (p : Reader Str α) (input : Bytes) : Result α := whole "trailing CT wire data" p input

end Reader

def pushVectorU8 (bytes : Bytes) (minimum : Nat) : Result Bytes :=
  pushVector "CT u8 vector length is outside its declared bounds" 1 minimum bytes

def pushVectorU16 (bytes : Bytes) (minimum : Nat) : Result Bytes :=
  pushVector "CT u16 vector length is outside its declared bounds" 2 minimum bytes

def pushVectorU24 (bytes : Bytes) (minimum : Nat) : Result Bytes :=
  pushVector "CT u24 vector length is outside its declared bounds" 3 minimum bytes

/-! ## What is pushed is read back -/

theorem u8_reads : ReadsBack (fun n => .ok [n]) Reader.u8 := by
  have hm : ReadsBack (fun n : UInt8 => .ok (beBytes 1 n.toNat)) Reader.u8 := by
    refine (natural_reads Reader.truncated 1).map (fun n hn => ⟨trivial, ?_⟩) fun n _ => ⟨n.toNat_lt, UInt8.ofNat_toNat⟩
    rw [UInt8.toNat_ofNat']
    exact Nat.mod_eq_of_lt hn
  refine hm.congr fun n head => ?_
  have ho : beBytes 1 n.toNat = [n] := by
    rw [beBytes, beBytes, List.nil_append, Nat.mod_eq_of_lt n.toNat_lt, UInt8.ofNat_toNat]
  simp only [ho]

theorem u16_reads : ReadsBack (fun n => .ok (beU16 n)) Reader.u16 := by
  refine (natural_reads Reader.truncated 2).map (fun n hn => ⟨trivial, ?_⟩) fun n _ => ⟨n.toNat_lt, UInt16.ofNat_toNat⟩
  rw [UInt16.toNat_ofNat']
  exact Nat.mod_eq_of_lt hn

theorem u64_reads : ReadsBack (fun n => .ok (beU64 n)) Reader.u64 := by
  refine (natural_reads Reader.truncated 8).map (fun n hn => ⟨trivial, ?_⟩) fun n _ => ⟨n.toNat_lt, UInt64.ofNat_toNat⟩
  rw [UInt64.toNat_ofNat']
  exact Nat.mod_eq_of_lt hn

theorem vectorU8_reads (minimum : Nat) : ReadsBack (pushVectorU8 · minimum) (Reader.vectorU8 minimum 255) :=
  vector_readsBack _ _ _ 1 minimum

theorem vectorU16_reads (minimum : Nat) : ReadsBack (pushVectorU16 · minimum) (Reader.vectorU16 minimum 65535) :=
  vector_readsBack _ _ _ 2 minimum

theorem vectorU24_reads (minimum : Nat) : ReadsBack (pushVectorU24 · minimum) (Reader.vectorU24 minimum u24Max) :=
  vector_readsBack _ _ _ 3 minimum

theorem decode_eq {α : Type} {p : Reader Str α} {encode : α → Result Bytes} (hp : ReadsBack encode p) {input : Bytes}
    {a : α} : Reader.decode p input = .ok a ↔ encode a = .ok input := by
  rw [Reader.decode, whole_eq hp.whole, true_and, concat_singleton]

end Ct
