import OxiBelt.Lib.SplitTree
import OxiBelt.RustStd.Result

/-!
# The history tree of the certificate log, and inclusion proofs

The model of `oxibelt-ct/src/merkle.rs`: the root over a list of leaf hashes, the audit path of a leaf
and its verification.  SHA-256 stands as two parameters, the hash of the empty tree and the hash of a
node; the type of hashes is arbitrary, because a node hash that is injective (which the soundness
results assume) cannot exist on 32 bytes.

Generator and verifier both recurse from the root, but the generator pushes a sibling after it has
gone down and the verifier reads one after it has come up, so both see the path from the leaf to the
root.  `inclusionRoot_complete` and `inclusionRoot_sound` say, for any place in a longer proof, that
the verifier takes exactly the generated path.
-/

namespace Ct

open RustStd SplitTree List

/-- `empty_hash` and `node_hash`. -/
structure TreeHash (Hash : Type) where
  emptyHash : Hash
  nodeHash : Hash → Hash → Hash

/-- `1 << (BITS - 1 - leading_zeros (value - 1))`. -/
def largestPowerOfTwoLessThan (value : Nat) : Nat := splitSize value

variable {Hash : Type} (H : TreeHash Hash)

def rootFromLeafHashes : List Hash → Hash
  | [] => H.emptyHash
  | [leaf] => leaf
  | a :: b :: rest =>
    let leaves := a :: b :: rest
    let split := largestPowerOfTwoLessThan leaves.length
    H.nodeHash (rootFromLeafHashes (leaves.take split)) (rootFromLeafHashes (leaves.drop split))
termination_by leaves => leaves.length
decreasing_by
  · have := splitSize_lt (n := (a :: b :: rest).length) (by simp)
    simp only [largestPowerOfTwoLessThan, length_take] at *
    omega
  have := splitSize_pos (a :: b :: rest).length
  simp only [largestPowerOfTwoLessThan, length_drop, length_cons] at *
  omega

/-- The hashes that `build_inclusion_proof` pushes, in order. -/
def buildInclusionProof : List Hash → Nat → List Hash
  | [], _ => []
  | [_], _ => []
  | a :: b :: rest, leafIndex =>
    let leaves := a :: b :: rest
    let split := largestPowerOfTwoLessThan leaves.length
    if leafIndex < split then
      buildInclusionProof (leaves.take split) leafIndex ++ [rootFromLeafHashes H (leaves.drop split)]
    else
      buildInclusionProof (leaves.drop split) (leafIndex - split) ++
        [rootFromLeafHashes H (leaves.take split)]
termination_by leaves => leaves.length
decreasing_by
  · have := splitSize_lt (n := (a :: b :: rest).length) (by simp)
    simp only [largestPowerOfTwoLessThan, length_take] at *
    omega
  have := splitSize_pos (a :: b :: rest).length
  simp only [largestPowerOfTwoLessThan, length_drop, length_cons] at *
  omega

def inclusionProof (leaves : List Hash) (leafIndex : Nat) : Result (List Hash) :=
  if leaves.isEmpty || leaves.length ≤ leafIndex then
    .error "CT inclusion proof leaf index is outside the tree"
  else
    .ok (buildInclusionProof H leaves leafIndex)

/-- The root that a proof gives, with the place in the proof after the last hash read.  The caller has
refused a tree of size zero. -/
def inclusionRoot (leaf : Hash) (leafIndex treeSize : Nat) (proof : List Hash) (proofIndex : Nat) :
    Option (Hash × Nat) :=
  if treeSize ≤ 1 then
    if leafIndex = 0 then some (leaf, proofIndex) else none
  else
    let split := largestPowerOfTwoLessThan treeSize
    if leafIndex < split then do
      let (left, proofIndex) ← inclusionRoot leaf leafIndex split proof proofIndex
      let right ← proof[proofIndex]?
      return (H.nodeHash left right, proofIndex + 1)
    else do
      let (right, proofIndex) ← inclusionRoot leaf (leafIndex - split) (treeSize - split) proof proofIndex
      let left ← proof[proofIndex]?
      return (H.nodeHash left right, proofIndex + 1)
termination_by treeSize
decreasing_by
  · exact splitSize_lt (by omega)
  have := splitSize_pos treeSize
  simp only [largestPowerOfTwoLessThan]
  omega

def verifyInclusion [DecidableEq Hash] (leaf : Hash) (leafIndex treeSize : Nat) (proof : List Hash)
    (expectedRoot : Hash) : Bool :=
  if treeSize = 0 || treeSize ≤ leafIndex then false
  else
    match inclusionRoot H leaf leafIndex treeSize proof 0 with
    | none => false
    | some (root, proofIndex) => proofIndex == proof.length && root == expectedRoot

/-! ## The recursion over the halves of the tree -/

variable {i : Nat}

section Halves

variable {H} {ys zs : List Hash}

@[simp] theorem rootFromLeafHashes_singleton (leaf : Hash) : rootFromLeafHashes H [leaf] = leaf := by
  rw [rootFromLeafHashes]

theorem rootFromLeafHashes_append (h : Splits ys zs) : rootFromLeafHashes H (ys ++ zs) =
      H.nodeHash (rootFromLeafHashes H ys) (rootFromLeafHashes H zs) := by
  have hs := h.splitSize_eq
  have hl := h.two_le_length
  rcases hxs : ys ++ zs with _ | ⟨a, _ | ⟨b, rest⟩⟩
  · simp [hxs] at hl
  · simp [hxs] at hl
  · rw [rootFromLeafHashes, ← hxs, largestPowerOfTwoLessThan, hs, take_left, drop_left]

@[simp] theorem buildInclusionProof_singleton (leaf : Hash) (i : Nat) :
    buildInclusionProof H [leaf] i = [] := by
  rw [buildInclusionProof]

private theorem buildInclusionProof_halves (h : Splits ys zs) (i : Nat) : buildInclusionProof H (ys ++ zs) i =
      if i < ys.length then buildInclusionProof H ys i ++ [rootFromLeafHashes H zs]
      else buildInclusionProof H zs (i - ys.length) ++ [rootFromLeafHashes H ys] := by
  have hs := h.splitSize_eq
  have hl := h.two_le_length
  rcases hxs : ys ++ zs with _ | ⟨a, _ | ⟨b, rest⟩⟩
  · simp [hxs] at hl
  · simp [hxs] at hl
  · rw [buildInclusionProof, ← hxs, largestPowerOfTwoLessThan, hs, take_left, drop_left]

theorem buildInclusionProof_left (h : Splits ys zs) (hi : i < ys.length) :
    buildInclusionProof H (ys ++ zs) i = buildInclusionProof H ys i ++ [rootFromLeafHashes H zs] := by
  rw [buildInclusionProof_halves h, if_pos hi]

theorem buildInclusionProof_right (h : Splits ys zs) (hi : ys.length ≤ i) : buildInclusionProof H (ys ++ zs) i =
      buildInclusionProof H zs (i - ys.length) ++ [rootFromLeafHashes H ys] := by
  rw [buildInclusionProof_halves h, if_neg (by omega)]

variable {leaf root : Hash} {i k k' : Nat} {proof : List Hash}

theorem inclusionRoot_one : inclusionRoot H leaf i 1 proof k = some (root, k') ↔ i = 0 ∧ leaf = root ∧ k = k' := by
  rw [inclusionRoot, if_pos le_rfl]
  split
  · next h => simp [h]
  · next h => simp [h]

theorem inclusionRoot_left (h : Splits ys zs) (hi : i < ys.length) :
    inclusionRoot H leaf i (ys ++ zs).length proof k = some (root, k') ↔
      ∃ left m right, inclusionRoot H leaf i ys.length proof k = some (left, m) ∧
        proof[m]? = some right ∧ root = H.nodeHash left right ∧ k' = m + 1 := by
  have hs := h.splitSize_eq
  have hl := h.two_le_length
  rw [inclusionRoot, if_neg (by omega), largestPowerOfTwoLessThan, hs, if_pos hi]
  rcases hsb : inclusionRoot H leaf i ys.length proof k with _ | ⟨left, m⟩
  · simp
  rcases hg : proof[m]? with _ | right
  · simp [hg]
  · simp [hg, eq_comm]

theorem inclusionRoot_right (h : Splits ys zs) (hi : ys.length ≤ i) :
    inclusionRoot H leaf i (ys ++ zs).length proof k = some (root, k') ↔
      ∃ right m left, inclusionRoot H leaf (i - ys.length) zs.length proof k = some (right, m) ∧
        proof[m]? = some left ∧ root = H.nodeHash left right ∧ k' = m + 1 := by
  have hs := h.splitSize_eq
  have hl := h.two_le_length
  have hzs : (ys ++ zs).length - ys.length = zs.length := by simp
  rw [inclusionRoot, if_neg (by omega), largestPowerOfTwoLessThan, hs, if_neg (by omega), hzs]
  rcases hsb : inclusionRoot H leaf (i - ys.length) zs.length proof k with _ | ⟨right, m⟩
  · simp
  rcases hg : proof[m]? with _ | left
  · simp [hg]
  · simp [hg, eq_comm]

end Halves

/-! ## The verifier takes the generated path, and no other -/

section Inclusion

variable {H}

variable {leaves proof : List Hash} {leaf : Hash}

/-- With the generated path at place `k` of the proof, the verifier reads it and arrives at the root. -/
theorem inclusionRoot_complete {k : Nat} {rest : List Hash} (hl : leaves[i]? = some leaf)
    (hp : proof.drop k = buildInclusionProof H leaves i ++ rest) :
    inclusionRoot H leaf i leaves.length proof k =
      some (rootFromLeafHashes H leaves, k + (buildInclusionProof H leaves i).length) := by
  induction leaves using split_induction generalizing i rest with
  | nil => simp at hl
  | leaf x =>
    have hi : i = 0 := by
      rcases i with _ | i
      · rfl
      · simp at hl
    subst hi
    have hx : x = leaf := by simpa using hl
    rw [length_singleton, inclusionRoot_one]
    simp [hx]
  | split ys zs h ihys ihzs =>
    by_cases hi : i < ys.length
    · rw [getElem?_append_left hi] at hl
      rw [buildInclusionProof_left h hi, append_assoc] at hp
      have hys := ihys hl hp
      have hg : proof[k + (buildInclusionProof H ys i).length]? = some (rootFromLeafHashes H zs) := by
        rw [← getElem?_drop, hp]
        simp
      rw [inclusionRoot_left h hi, buildInclusionProof_left h hi]
      refine ⟨_, _, _, hys, hg, rootFromLeafHashes_append h, ?_⟩
      rw [length_append, length_singleton, Nat.add_assoc]
    · have hi : ys.length ≤ i := by omega
      rw [getElem?_append_right hi] at hl
      rw [buildInclusionProof_right h hi, append_assoc] at hp
      have hzs := ihzs hl hp
      have hg : proof[k + (buildInclusionProof H zs (i - ys.length)).length]? = some (rootFromLeafHashes H ys) := by
        rw [← getElem?_drop, hp]
        simp
      rw [inclusionRoot_right h hi, buildInclusionProof_right h hi]
      refine ⟨_, _, _, hzs, hg, rootFromLeafHashes_append h, ?_⟩
      rw [length_append, length_singleton, Nat.add_assoc]

/-- A path that arrives at the root starts at the leaf and is the generated one, if no two nodes have
one hash. -/
theorem inclusionRoot_sound (hin : Function.Injective2 H.nodeHash) {k k' : Nat} (hi : i < leaves.length)
    (h : inclusionRoot H leaf i leaves.length proof k = some (rootFromLeafHashes H leaves, k')) :
    leaves[i]? = some leaf ∧ k' = k + (buildInclusionProof H leaves i).length ∧
      proof.drop k = buildInclusionProof H leaves i ++ proof.drop k' := by
  induction leaves using split_induction generalizing i k' with
  | nil => simp at hi
  | leaf x =>
    rw [length_singleton, inclusionRoot_one] at h
    obtain ⟨rfl, hx, rfl⟩ := h
    rw [rootFromLeafHashes_singleton] at hx
    simp [hx]
  | split ys zs hsp ihys ihzs =>
    rw [rootFromLeafHashes_append hsp] at h
    -- the last hash read is the root of the other half, by injectivity
    have hls : ∀ {m : Nat} {s : Hash} {path : List Hash}, m = k + path.length → proof.drop k = path ++ proof.drop m →
        proof[m]? = some s →
          m + 1 = k + (path ++ [s]).length ∧ proof.drop k = (path ++ [s]) ++ proof.drop (m + 1) := by
      intro m s path hk hp hs
      obtain ⟨hm, hg⟩ := List.getElem?_eq_some_iff.1 hs
      rw [hp, append_assoc, drop_eq_getElem_cons hm, hg, length_append, ← Nat.add_assoc, ← hk]
      exact ⟨rfl, rfl⟩
    by_cases hlt : i < ys.length
    · obtain ⟨left, m, right, hsb, hg, hrt, hk⟩ := (inclusionRoot_left hsp hlt).1 h
      obtain ⟨hl, hr⟩ := hin hrt
      rw [← hl] at hsb
      rw [← hr] at hg
      obtain ⟨hlf, hm, hp⟩ := ihys hlt hsb
      rw [getElem?_append_left hlt, buildInclusionProof_left hsp hlt, hk]
      exact ⟨hlf, hls hm hp hg⟩
    · have hge : ys.length ≤ i := by omega
      have hlt' : i - ys.length < zs.length := by
        rw [length_append] at hi
        omega
      obtain ⟨right, m, left, hsb, hg, hrt, hk⟩ := (inclusionRoot_right hsp hge).1 h
      obtain ⟨hl, hr⟩ := hin hrt
      rw [← hr] at hsb
      rw [← hl] at hg
      obtain ⟨hlf, hm, hp⟩ := ihzs hlt' hsb
      rw [getElem?_append_right hge, buildInclusionProof_right hsp hge, hk]
      exact ⟨hlf, hls hm hp hg⟩

theorem inclusionProof_of_lt (hi : i < leaves.length) :
    inclusionProof H leaves i = .ok (buildInclusionProof H leaves i) := by
  have hne : leaves.isEmpty = false := by
    rcases leaves with _ | ⟨a, rest⟩
    · simp at hi
    · rfl
  rw [inclusionProof, hne, Bool.false_or, if_neg (by simpa using hi)]

variable [DecidableEq Hash]

theorem verifyInclusion_eq_true {root : Hash} {n : Nat} (hi : i < n) : verifyInclusion H leaf i n proof root = true ↔
      inclusionRoot H leaf i n proof 0 = some (root, proof.length) := by
  have hg : ¬((n = 0 || n ≤ i : Bool) = true) := by
    simp
    omega
  rw [verifyInclusion, if_neg hg]
  rcases inclusionRoot H leaf i n proof 0 with _ | ⟨r, k⟩
  · simp
  · simp [and_comm]

/-- A proof of inclusion against the root of `leaves` is accepted for the leaf at the index with the
generated proof, and, if no two nodes have one hash, for nothing else. -/
theorem verifyInclusion_iff_generated (leaves : List Hash) (i : Nat) (hi : i < leaves.length)
    (leaf : Hash) (proof : List Hash) :
    (leaves[i]? = some leaf ∧ inclusionProof H leaves i = .ok proof →
      verifyInclusion H leaf i leaves.length proof (rootFromLeafHashes H leaves) = true) ∧
    (Function.Injective2 H.nodeHash →
      verifyInclusion H leaf i leaves.length proof (rootFromLeafHashes H leaves) = true →
        leaves[i]? = some leaf ∧ inclusionProof H leaves i = .ok proof) := by
  rw [inclusionProof_of_lt hi, verifyInclusion_eq_true hi]
  constructor
  · rintro ⟨hl, hp⟩
    have hp : buildInclusionProof H leaves i = proof := by simpa using hp
    have hd : proof.drop 0 = buildInclusionProof H leaves i ++ [] := by simp [hp]
    have h := inclusionRoot_complete hl hd
    simpa [hp] using h
  intro hin h
  obtain ⟨hl, -, hpt⟩ := inclusionRoot_sound hin hi h
  refine ⟨hl, ?_⟩
  simp only [drop_zero, drop_length, append_nil] at hpt
  rw [← hpt]

end Inclusion

/-- A node hash that is injective: numbers, with the pairing function as the node hash. -/
def pairingHash : TreeHash Nat where
  emptyHash := 0
  nodeHash := Nat.pair

theorem pairingHash_injective : Function.Injective2 pairingHash.nodeHash := by
  intro a b c d h
  exact Nat.pair_eq_pair.1 h

/-- The third of three leaves, with a path that ends above the first two. -/
theorem verifyInclusion_third_of_three :
    verifyInclusion pairingHash 7 2 3 [Nat.pair 5 6] (rootFromLeafHashes pairingHash [5, 6, 7]) = true ∧
      inclusionProof pairingHash [5, 6, 7] 2 = .ok [Nat.pair 5 6] := by
  have hi := verifyInclusion_iff_generated (H := pairingHash) [5, 6, 7] 2 (by decide) 7 [Nat.pair 5 6]
  refine (and_iff_left_of_imp fun hv => (hi.2 pairingHash_injective hv).2).2 (hi.1 ⟨rfl, ?_⟩)
  have h12 : Splits [5, 6] [7] := ⟨1, rfl, by decide, by decide⟩
  have h11 : Splits [5] [6] := ⟨0, rfl, by decide, by decide⟩
  have hr := rootFromLeafHashes_append (H := pairingHash) h11
  have hb := buildInclusionProof_right (H := pairingHash) h12 (i := 2) (by decide)
  simp only [rootFromLeafHashes_singleton, cons_append, nil_append] at hr hb
  rw [inclusionProof_of_lt (by decide), hb, hr]
  simp [pairingHash]

end Ct
