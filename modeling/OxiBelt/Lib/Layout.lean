import OxiBelt.Lib.Bytes

/-!
# Layouts: encodings that read back

A `Layout α` writes a value so that it can be read off the front of any byte string.  Layouts are
built from those of numbers and bytes by pairs, options and lists, each keeping the read-back law.
-/

namespace ByteString

open List

variable (bytes : Bytes)

/-- The number that big-endian bytes stand for. -/
def beValue : Nat := bytes.foldl (fun acc byte => acc * 256 + byte.toNat) 0

theorem beValue_beBytes {width n : Nat} (h : n < 256 ^ width) : beValue (beBytes width n) = n := by
  induction width generalizing n with
  | zero => simp at h; simp [h, beBytes, beValue]
  | succ width ih =>
    have hd : n / 256 < 256 ^ width := by rw [pow_succ] at h; omega
    have hr := ih hd
    simp only [beValue] at hr
    simp only [beBytes, beValue, foldl_append, hr, foldl_cons, foldl_nil, UInt8.toNat_ofNat']
    omega

theorem beValue_concat (byte : UInt8) : beValue (bytes ++ [byte]) = beValue bytes * 256 + byte.toNat := by
  simp [beValue]

theorem beValue_lt : beValue bytes < 256 ^ bytes.length := by
  induction bytes using List.reverseRecOn with
  | nil => simp [beValue]
  | append_singleton bytes byte ih =>
    have := byte.toNat_lt
    rw [beValue_concat, length_append, length_singleton, pow_succ]
    omega

theorem beBytes_beValue : beBytes bytes.length (beValue bytes) = bytes := by
  induction bytes using List.reverseRecOn with
  | nil => rfl
  | append_singleton bytes byte ih =>
    have hb := byte.toNat_lt
    have hd : beValue (bytes ++ [byte]) / 256 = beValue bytes := by
      rw [beValue_concat]
      omega
    have hm : beValue (bytes ++ [byte]) % 256 = byte.toNat := by
      rw [beValue_concat]
      omega
    rw [length_append, length_singleton, beBytes, hd, hm, ih, UInt8.ofNat_toNat]

structure Layout (α : Type) where
  put : α → Bytes
  get : Bytes → Option (α × Bytes)
  get_put : ∀ a rest, get (put a ++ rest) = some (a, rest)

namespace Layout

variable {α β : Type}

/-- A value given by a number of `width` bytes. -/
def number (width : Nat) (f : α → Nat) (g : Nat → α) (h : ∀ a, f a < 256 ^ width ∧ g (f a) = a) :
    Layout α where
  put a := beBytes width (f a)
  get bytes := if width ≤ bytes.length then some (g (beValue (bytes.take width)), bytes.drop width) else none
  get_put a rest := by
    have htake : (beBytes width (f a) ++ rest).take width = beBytes width (f a) :=
      take_left' (beBytes_length width (f a))
    have hdrop : (beBytes width (f a) ++ rest).drop width = rest := drop_left' (beBytes_length width (f a))
    have hlen : width ≤ (beBytes width (f a) ++ rest).length := by simp
    rw [if_pos hlen, htake, hdrop, beValue_beBytes (h a).1, (h a).2]

variable (l : Layout α)

def pair (m : Layout β) : Layout (α × β) where
  put x := l.put x.1 ++ m.put x.2
  get bytes :=
    match l.get bytes with
    | none => none
    | some (a, bytes) => (m.get bytes).map fun (b, bytes) => ((a, b), bytes)
  get_put x rest := by
    rw [append_assoc, l.get_put]
    simp only [m.get_put, Option.map_some]

def option : Layout (Option α) where
  put
    | none => [0]
    | some a => 1 :: l.put a
  get
    | 0 :: bytes => some (none, bytes)
    | 1 :: bytes => (l.get bytes).map fun (a, bytes) => (some a, bytes)
    | _ => none
  get_put x rest := by
    cases x with
    | none => rfl
    | some a =>
      show (l.get (l.put a ++ rest)).map _ = _
      rw [l.get_put, Option.map_some]

def putList (as : List α) : Bytes := as.foldr (fun a bytes => 1 :: (l.put a ++ bytes)) [0]

/-- At most `fuel` items, up to the end mark. -/
def getList (l : Layout α) : Nat → Bytes → Option (List α × Bytes)
  | _, 0 :: bytes => some ([], bytes)
  | fuel + 1, 1 :: bytes =>
    match l.get bytes with
    | none => none
    | some (a, bytes) => (getList l fuel bytes).map fun (as, bytes) => (a :: as, bytes)
  | _, _ => none

theorem getList_putList (as : List α) (rest : Bytes) {fuel : Nat} (h : as.length ≤ fuel) :
    getList l fuel (putList l as ++ rest) = some (as, rest) := by
  induction as generalizing fuel with
  | nil => cases fuel <;> rfl
  | cons a as ih =>
    cases fuel with
    | zero => simp at h
    | succ fuel =>
      have hr := @ih fuel (by simpa using h)
      show getList l (fuel + 1) (1 :: (l.put a ++ putList l as ++ rest)) = _
      rw [getList, append_assoc, l.get_put]
      simp only [hr, Option.map_some]

theorem length_le_putList (as : List α) : as.length ≤ (putList l as).length := by
  induction as with
  | nil => simp
  | cons a as ih =>
    show as.length + 1 ≤ (1 :: (l.put a ++ putList l as)).length
    rw [length_cons, length_append]
    omega

def list : Layout (List α) where
  put := putList l
  get bytes := getList l bytes.length bytes
  get_put as rest := by
    have hlen := length_le_putList l as
    refine getList_putList l as rest ?_
    rw [length_append]
    omega

/-- A type that embeds in one with a layout. -/
def embed (f : β → α) (g : α → β) (h : ∀ b, g (f b) = b) : Layout β where
  put b := l.put (f b)
  get bytes := (l.get bytes).map fun (a, bytes) => (g a, bytes)
  get_put b rest := by
    simp only [l.get_put, Option.map_some, h]

/-- The value that the whole byte string holds. -/
def decode (bytes : Bytes) : Option α :=
  match l.get bytes with
  | some (a, []) => some a
  | _ => none

theorem decode_put (a : α) : l.decode (l.put a) = some a := by
  have h := l.get_put a []
  rw [append_nil] at h
  rw [decode, h]

end Layout

end ByteString
