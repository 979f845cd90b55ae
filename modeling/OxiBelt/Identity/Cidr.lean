import OxiBelt.RustStd.Net

/-!
# CIDR blocks (`identity.rs`)

A block is a network address and a prefix length.  Parsing masks the address, so that a block's
network has no bit set past its prefix; the structure keeps that, and `contains` compares the masked
address with the network.
-/

namespace Identity

open RustStd

def maskV4 (ip : BitVec 32) (prefixLen : Nat) : BitVec 32 :=
  if prefixLen = 0 then 0 else ip &&& (BitVec.allOnes 32 <<< (32 - prefixLen))

def maskV6 (ip : BitVec 128) (prefixLen : Nat) : BitVec 128 :=
  if prefixLen = 0 then 0 else ip &&& (BitVec.allOnes 128 <<< (128 - prefixLen))

def mask : IpAddr → Nat → IpAddr
  | .v4 ip, n => .v4 (maskV4 ip n)
  | .v6 ip, n => .v6 (maskV6 ip n)

theorem mask_idem (ip : IpAddr) (n : Nat) : mask (mask ip n) n = mask ip n := by
  cases ip with
  | v4 ip =>
    simp only [mask, maskV4, IpAddr.v4.injEq]
    split
    · rfl
    · rw [BitVec.and_assoc, BitVec.and_self]
  | v6 ip =>
    simp only [mask, maskV6, IpAddr.v6.injEq]
    split
    · rfl
    · rw [BitVec.and_assoc, BitVec.and_self]

/-- The number of address bits of a family. -/
def width : IpAddr → Nat
  | .v4 _ => 32
  | .v6 _ => 128

structure Cidr where
  network : IpAddr
  prefixLen : Nat
  prefix_le : prefixLen ≤ width network
  masked : mask network prefixLen = network
  deriving DecidableEq

namespace Cidr

/-- The block of an address and a prefix length, as `parse` builds it. -/
def ofAddr (ip : IpAddr) (n : Nat) (h : n ≤ width ip) : Cidr where
  network := mask ip n
  prefixLen := n
  prefix_le := by cases ip <;> exact h
  masked := mask_idem ip n

/-- `Cidr::parse`: an address with an optional prefix length, a full-length one by default. -/
def parse (raw : Str) : Except Str Cidr :=
  let parts : Except Str (IpAddr × Nat) :=
    match splitOnce '/' raw with
    | some (ip, n) =>
      match parseIpAddr ip with
      | none => .error ("invalid CIDR IP address " ++ raw)
      | some ip =>
        match parseU8 n with
        | none => .error ("invalid CIDR prefix " ++ raw)
        | some n => .ok (ip, n)
    | none =>
      match parseIpAddr raw with
      | none => .error ("invalid IP address " ++ raw)
      | some ip => .ok (ip, width ip)
  match parts with
  | .error e => .error e
  | .ok (ip, n) =>
    if h : n ≤ width ip then .ok (ofAddr ip n h)
    else
      match ip with
      | .v4 _ => .error ("IPv4 CIDR prefix must be <= 32 in " ++ raw)
      | .v6 _ => .error ("IPv6 CIDR prefix must be <= 128 in " ++ raw)

def contains (cidr : Cidr) (ip : IpAddr) : Bool :=
  match cidr.network, ip with
  | .v4 network, .v4 ip => maskV4 ip cidr.prefixLen == network
  | .v6 network, .v6 ip => maskV6 ip cidr.prefixLen == network
  | _, _ => false

end Cidr

/-- `TrustedCidrs`. -/
structure TrustedCidrs where
  cidrs : List Cidr
  deriving DecidableEq

namespace TrustedCidrs

def parse (values : List Str) : Except Str TrustedCidrs :=
  match values.mapM Cidr.parse with
  | .ok cidrs => .ok ⟨cidrs⟩
  | .error e => .error e

def contains (t : TrustedCidrs) (ip : IpAddr) : Bool := t.cidrs.any (·.contains ip)

end TrustedCidrs

end Identity
