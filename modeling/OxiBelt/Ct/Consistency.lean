import OxiBelt.Ct.Merkle

/-!
# Consistency proofs of the certificate log

A consistency proof shows that the tree of the first `m` leaves is the beginning of the tree of all
`n`.  The generator recurses from the root; the verifier walks the bits of `m - 1` and `n - 1` upwards.

The two meet at the levels of the tree (`SplitTree.pairUp`).  At each level `first` is the place of the
last node of the old tree and `second` the place of the last node of the new one.

* `buildConsistencySubproof_even`, `buildConsistencySubproof_odd`: while `m` is even the proof is the
  proof of the level above, and at an odd `m` it is the node at place `m - 1`, followed by the audit path
  of that place.
* `consistencyWalk_path`: on the audit path the verifier arrives at both roots.
* `consistencyWalk_sound`: if no two nodes have one hash, only the audit path arrives at the new root.
-/

namespace Ct

open RustStd SplitTree List

variable {Hash : Type} (H : TreeHash Hash)

/-- The hashes that `build_consistency_subproof` pushes, in order. -/
def buildConsistencySubproof (oldSize : Nat) (leaves : List Hash) (complete : Bool) : List Hash :=
  if oldSize = leaves.length then
    if complete then [] else [rootFromLeafHashes H leaves]
  else if leaves.length ≤ 1 then
    -- not reached: the old tree has at least one leaf
    []
  else
    let split := largestPowerOfTwoLessThan leaves.length
    if oldSize ≤ split then
      buildConsistencySubproof oldSize (leaves.take split) complete ++
        [rootFromLeafHashes H (leaves.drop split)]
    else
      buildConsistencySubproof (oldSize - split) (leaves.drop split) false ++
        [rootFromLeafHashes H (leaves.take split)]
termination_by leaves.length
decreasing_by
  · have := splitSize_lt (n := leaves.length) (by omega)
    simp only [largestPowerOfTwoLessThan, length_take]
    omega
  have := splitSize_pos leaves.length
  simp only [largestPowerOfTwoLessThan, length_drop]
  omega

def consistencyProof (leaves : List Hash) (oldSize : Nat) : Result (List Hash) :=
  if leaves.length < oldSize then
    .error "CT consistency proof old tree is larger than new tree"
  else if oldSize = 0 ∨ oldSize = leaves.length then
    .ok []
  else
    .ok (buildConsistencySubproof H oldSize leaves true)

/-- `while first & 1 == 1` both places move up. -/
def shiftWhileOdd (first second : Nat) : Nat × Nat :=
  if first % 2 = 1 then shiftWhileOdd (first / 2) (second / 2) else (first, second)
termination_by first
decreasing_by omega

/-- `while first != 0 && first & 1 == 0` both places move up. -/
def shiftWhileEven (first second : Nat) : Nat × Nat :=
  if first ≠ 0 ∧ first % 2 = 0 then shiftWhileEven (first / 2) (second / 2) else (first, second)
termination_by first
decreasing_by omega

section Verify

variable [DecidableEq Hash]

/-- The loop of `verify_consistency` over the rest of the proof, and the comparison after it. -/
def consistencyWalk (oldRoot newRoot : Hash) :
    (first second : Nat) → (firstHash secondHash : Hash) → List Hash → Bool
  | _, second, firstHash, secondHash, [] =>
    second == 0 && firstHash == oldRoot && secondHash == newRoot
  | first, second, firstHash, secondHash, node :: rest =>
    if second = 0 then false
    else if first % 2 = 1 ∨ first = second then
      let shifted := shiftWhileEven first second
      consistencyWalk oldRoot newRoot (shifted.1 / 2) (shifted.2 / 2) (H.nodeHash node firstHash)
        (H.nodeHash node secondHash) rest
    else
      consistencyWalk oldRoot newRoot (first / 2) (second / 2) firstHash (H.nodeHash secondHash node) rest

def verifyConsistency (oldSize newSize : Nat) (oldRoot newRoot : Hash) (proof : List Hash) : Bool :=
  if newSize < oldSize then false
  else if oldSize = 0 then
    proof.isEmpty && oldRoot == H.emptyHash && (newSize != 0 || newRoot == H.emptyHash)
  else if oldSize = newSize then
    proof.isEmpty && oldRoot == newRoot
  else
    let shifted := shiftWhileOdd (oldSize - 1) (newSize - 1)
    if shifted.1 = 0 then
      consistencyWalk H oldRoot newRoot shifted.1 shifted.2 oldRoot oldRoot proof
    else
      match proof with
      | [] => false
      | seed :: rest => consistencyWalk H oldRoot newRoot shifted.1 shifted.2 seed seed rest

end Verify

/-! ## Roots and audit paths, level by level -/

variable {xs : List Hash} {x : Hash} {f : Nat}

section Levels

variable {H}

theorem rootFromLeafHashes_pairUp (xs : List Hash) :
    rootFromLeafHashes H (pairUp H.nodeHash xs) = rootFromLeafHashes H xs := by
  induction xs using split_induction with
  | nil => rfl
  | leaf x => rfl
  | split ys zs h ihys ihzs =>
    rcases h.left_one_or_even with ⟨hy, hz⟩ | ⟨h2, he⟩
    · obtain ⟨y, rfl⟩ := List.length_eq_one_iff.1 hy
      obtain ⟨z, rfl⟩ := List.length_eq_one_iff.1 hz
      rw [rootFromLeafHashes_append h]
      simp [pairUp]
    · rw [pairUp_append _ _ _ he, rootFromLeafHashes_append (h.pairUp _ h2), rootFromLeafHashes_append h, ihys, ihzs]

theorem buildInclusionProof_pairUp {i : Nat} (hi : i < xs.length) : buildInclusionProof H xs i =
      (sibling xs i).toList ++ buildInclusionProof H (pairUp H.nodeHash xs) (i / 2) := by
  induction xs using split_induction generalizing i with
  | nil => simp at hi
  | leaf x =>
    have hi : i = 0 := by simpa using hi
    subst hi
    simp [pairUp, sibling]
  | split ys zs h ihys ihzs =>
    rcases h.left_one_or_even with ⟨hy, hz⟩ | ⟨h2, he⟩
    · obtain ⟨y, rfl⟩ := List.length_eq_one_iff.1 hy
      obtain ⟨z, rfl⟩ := List.length_eq_one_iff.1 hz
      by_cases h0 : i < [y].length
      · have hi0 : i = 0 := by simpa using h0
        rw [buildInclusionProof_left h h0]
        simp [pairUp, sibling, hi0]
      have hi1 : i = 1 := by
        simp at h0 hi
        omega
      rw [buildInclusionProof_right h (by omega)]
      simp [pairUp, sibling, hi1]
    · have hup := h.pairUp H.nodeHash h2
      have hl := length_pairUp H.nodeHash ys
      rw [pairUp_append _ _ _ he]
      by_cases hlt : i < ys.length
      · rw [buildInclusionProof_left h hlt, buildInclusionProof_left hup (by omega), ihys hlt,
          sibling_append_left he hlt, rootFromLeafHashes_pairUp, append_assoc]
      have hge : ys.length ≤ i := by omega
      have hlt' : i - ys.length < zs.length := by
        rw [length_append] at hi
        omega
      have hh : (i - ys.length) / 2 = i / 2 - (pairUp H.nodeHash ys).length := by omega
      rw [buildInclusionProof_right h hge, buildInclusionProof_right hup (by omega), ihzs hlt',
        sibling_append_right he hge, rootFromLeafHashes_pairUp, hh, append_assoc]

/-- The nodes of the old tree one level up, when its last node has a left neighbour. -/
theorem pairUp_take_odd {s : Hash} (hf : f < xs.length) (ho : f % 2 = 1) (hs : sibling xs f = some s) :
    pairUp H.nodeHash (xs.take f ++ [x]) =
      (pairUp H.nodeHash xs).take (f / 2) ++ [H.nodeHash s x] := by
  have hg : xs[f - 1]? = some s := by
    rw [← hs, sibling, if_pos ho]
  have ht : xs.take f = xs.take (2 * (f / 2)) ++ [s] := by
    have hsc : f = 2 * (f / 2) + 1 := by omega
    have hg' : xs[2 * (f / 2)]? = some s := by
      rw [← hg]
      congr 1
      omega
    rw [hsc, take_add_one, Nat.mul_add_div (by decide), hg']
    simp
  rw [ht, append_assoc, pairUp_append, pairUp_take xs (f / 2) (by omega)]
  · rfl
  · rw [length_take]
    omega

/-- The nodes of the old tree one level up, when its last node is carried up. -/
theorem pairUp_take_even (hf : f < xs.length) (he : f % 2 = 0) :
    pairUp H.nodeHash (xs.take f ++ [x]) = (pairUp H.nodeHash xs).take (f / 2) ++ [x] := by
  have hm : 2 * (f / 2) = f := by omega
  rw [pairUp_append, pairUp_take xs (f / 2) (by omega), hm]
  · rfl
  · rw [length_take]
    omega

end Levels

/-! ## The generator, level by level -/

section Generator

variable {H} {ys zs : List Hash} {m : Nat} {b : Bool}

theorem buildConsistencySubproof_all (h : m = xs.length) :
    buildConsistencySubproof H m xs b = if b then [] else [rootFromLeafHashes H xs] := by
  rw [buildConsistencySubproof, if_pos h]

theorem buildConsistencySubproof_left (h : Splits ys zs) (hm : m ≤ ys.length) :
    buildConsistencySubproof H m (ys ++ zs) b =
      buildConsistencySubproof H m ys b ++ [rootFromLeafHashes H zs] := by
  have hs := h.splitSize_eq
  have hl := h.two_le_length
  have hpos := h.right_pos
  have hne : m ≠ (ys ++ zs).length := by
    rw [length_append]
    omega
  rw [buildConsistencySubproof, if_neg hne, if_neg (by omega), largestPowerOfTwoLessThan, hs,
    if_pos hm, take_left, drop_left]

theorem buildConsistencySubproof_right (h : Splits ys zs) (hm : ys.length < m) (hn : m ≠ (ys ++ zs).length) :
    buildConsistencySubproof H m (ys ++ zs) b =
      buildConsistencySubproof H (m - ys.length) zs false ++ [rootFromLeafHashes H ys] := by
  have hs := h.splitSize_eq
  have hl := h.two_le_length
  rw [buildConsistencySubproof, if_neg hn, if_neg (by omega), largestPowerOfTwoLessThan, hs,
    if_neg (by omega), take_left, drop_left]

/-- An old tree with an even number of leaves is proved at the level above. -/
theorem buildConsistencySubproof_even (hpos : 0 < m) (hm : m ≤ xs.length) (he : m % 2 = 0) :
    buildConsistencySubproof H m xs b = buildConsistencySubproof H (m / 2) (pairUp H.nodeHash xs) b := by
  induction xs using split_induction generalizing m b with
  | nil | leaf =>
    simp at hm
    omega
  | split ys zs h ihys ihzs =>
    by_cases ha : m = (ys ++ zs).length
    · have hup : m / 2 = (pairUp H.nodeHash (ys ++ zs)).length := by
        rw [length_pairUp]
        omega
      rw [buildConsistencySubproof_all ha, buildConsistencySubproof_all hup, rootFromLeafHashes_pairUp]
    rcases h.left_one_or_even with ⟨hy, hz⟩ | ⟨h2, hys⟩
    · rw [length_append] at hm ha
      omega
    have hup := h.pairUp H.nodeHash h2
    have hl := length_pairUp H.nodeHash ys
    have hl' := length_pairUp H.nodeHash zs
    rw [pairUp_append _ _ _ hys]
    by_cases hle : m ≤ ys.length
    · rw [buildConsistencySubproof_left h hle, buildConsistencySubproof_left hup (by omega),
        ihys hpos hle he, rootFromLeafHashes_pairUp]
    have hh : (m - ys.length) / 2 = m / 2 - (pairUp H.nodeHash ys).length := by omega
    have hne : m / 2 ≠ (pairUp H.nodeHash ys ++ pairUp H.nodeHash zs).length := by
      rw [length_append] at hm ha ⊢
      omega
    rw [length_append] at hm
    rw [buildConsistencySubproof_right h (by omega) ha, buildConsistencySubproof_right hup (by omega) hne,
      ihzs (by omega) (by omega) (by omega), hh, rootFromLeafHashes_pairUp]

/-- An old tree with an odd number of leaves is proved by its last leaf and the audit path of that
leaf; the leaf is left out when it is all of the old tree and the caller has it. -/
theorem buildConsistencySubproof_odd (hm : m < xs.length) (ho : m % 2 = 1) : buildConsistencySubproof H m xs b =
      (if b = true ∧ m = 1 then [] else (xs[m - 1]?).toList) ++ buildInclusionProof H xs (m - 1) := by
  induction xs using split_induction generalizing m b with
  | nil => simp at hm
  | leaf x =>
    simp at hm
    omega
  | split ys zs h ihys ihzs =>
    rcases h.left_one_or_even with ⟨hy, hz⟩ | ⟨h2, he⟩
    · obtain ⟨y, rfl⟩ := List.length_eq_one_iff.1 hy
      have hm1 : m = 1 := by
        rw [length_append] at hm
        omega
      subst hm1
      rw [buildConsistencySubproof_left h (by simp), buildInclusionProof_left h (by simp),
        buildConsistencySubproof_all (by simp)]
      rcases b with _ | _
      · simp
      · simp
    · by_cases hle : m ≤ ys.length
      · rw [buildConsistencySubproof_left h hle, buildInclusionProof_left h (by omega),
          ihys (by omega) ho, getElem?_append_left (by omega), append_assoc]
      have hne : m ≠ (ys ++ zs).length := by omega
      have hs : m - ys.length - 1 = m - 1 - ys.length := by omega
      rw [length_append] at hm
      rw [buildConsistencySubproof_right h (by omega) hne, buildInclusionProof_right h (by omega),
        ihzs (by omega) (by omega), getElem?_append_right (by omega), hs,
        if_neg (by simp), if_neg (by omega), append_assoc]

end Generator

/-! ## The verifier, level by level -/

section Walk

variable {H} [DecidableEq Hash] {oldRoot newRoot firstHash secondHash node : Hash} {f s : Nat}
  {rest : List Hash}

theorem consistencyWalk_odd (ho : f % 2 = 1) (hs : s ≠ 0) :
    consistencyWalk H oldRoot newRoot f s firstHash secondHash (node :: rest) =
      consistencyWalk H oldRoot newRoot (f / 2) (s / 2) (H.nodeHash node firstHash)
        (H.nodeHash node secondHash) rest := by
  have hshift : shiftWhileEven f s = (f, s) := by
    rw [shiftWhileEven, if_neg (by omega)]
  rw [consistencyWalk, if_neg hs, if_pos (Or.inl ho), hshift]

theorem consistencyWalk_inner (he : f % 2 = 0) (hfs : f < s) :
    consistencyWalk H oldRoot newRoot f s firstHash secondHash (node :: rest) =
      consistencyWalk H oldRoot newRoot (f / 2) (s / 2) firstHash (H.nodeHash secondHash node) rest := by
  rw [consistencyWalk, if_neg (by omega), if_neg (by omega)]

/-- Where both last nodes are one node without a sibling, the walk is the walk of the level above. -/
theorem consistencyWalk_last (he : f % 2 = 0) (hf : f ≠ 0) (proof : List Hash) :
    consistencyWalk H oldRoot newRoot f f firstHash secondHash proof =
      consistencyWalk H oldRoot newRoot (f / 2) (f / 2) firstHash secondHash proof := by
  have hh : f / 2 ≠ 0 := by omega
  rcases proof with _ | ⟨node, rest⟩
  · have hfl : ∀ k : Nat, k ≠ 0 → (k == 0) = false := by
      intro k hk
      simpa using hk
    simp only [consistencyWalk, hfl f hf, hfl (f / 2) hh, Bool.false_and]
  · have hshift : shiftWhileEven f f = shiftWhileEven (f / 2) (f / 2) := by
      rw [shiftWhileEven, if_pos ⟨hf, he⟩]
    rw [consistencyWalk, if_neg hf, if_pos (Or.inr rfl), hshift, consistencyWalk, if_neg hh, if_pos (Or.inr rfl)]

/-- On the audit path of place `f` the walk ends with the root of the level, and with the root of the
old level, whose last node is `firstHash`. -/
theorem consistencyWalk_path {xs : List Hash} (hl : xs.length = s + 1) (hg : xs[f]? = some secondHash) :
    consistencyWalk H oldRoot newRoot f s firstHash secondHash (buildInclusionProof H xs f) =
      (rootFromLeafHashes H (xs.take f ++ [firstHash]) == oldRoot &&
        rootFromLeafHashes H xs == newRoot) := by
  induction hn : xs.length using Nat.strong_induction_on generalizing xs f s firstHash secondHash with
  | _ n ih =>
    have hf : f < xs.length := (List.getElem?_eq_some_iff.1 hg).1
    by_cases hs : s = 0
    · -- one node is left, the root
      have hf0 : f = 0 := by omega
      obtain ⟨x, rfl⟩ := List.length_eq_one_iff.1 (by omega : xs.length = 1)
      subst hs hf0
      have hx : x = secondHash := by simpa using hg
      simp [consistencyWalk, hx]
    -- the node at place `f` of the next level
    have hup := @pairUp_getElem? _ H.nodeHash xs f secondHash hg
    have hl' : (pairUp H.nodeHash xs).length = s / 2 + 1 := by
      rw [length_pairUp]
      omega
    rw [buildInclusionProof_pairUp hf]
    by_cases ho : f % 2 = 1
    · obtain ⟨sib, hsb⟩ := sibling_isSome_of_odd hf ho
      rw [hsb, join, if_pos ho] at hup
      rw [hsb, Option.toList_some, cons_append, nil_append, consistencyWalk_odd ho hs,
        ih _ (by omega) hl' hup rfl, ← pairUp_take_odd hf ho hsb, rootFromLeafHashes_pairUp,
        rootFromLeafHashes_pairUp]
    have he : f % 2 = 0 := by omega
    by_cases hfs : f < s
    · obtain ⟨sib, hsb⟩ := @sibling_isSome_of_inner _ xs f (by omega)
      rw [hsb, join, if_neg ho] at hup
      rw [hsb, Option.toList_some, cons_append, nil_append, consistencyWalk_inner he hfs, ih _ (by omega) hl' hup rfl,
        ← pairUp_take_even hf he, rootFromLeafHashes_pairUp, rootFromLeafHashes_pairUp]
    obtain rfl : f = s := by omega
    have hsb := sibling_eq_none_of_last hl.symm he
    rw [hsb, join] at hup
    rw [hsb, Option.toList_none, nil_append, consistencyWalk_last he hs,
      ih _ (by omega) hl' hup rfl, ← pairUp_take_even hf he, rootFromLeafHashes_pairUp,
      rootFromLeafHashes_pairUp]

/-- A walk that ends with the root of the level started at its node `f` and took its audit path, if no
two nodes have one hash. -/
theorem consistencyWalk_sound (hi : Function.Injective2 H.nodeHash) {proof : List Hash} (hl : xs.length = s + 1)
    (hf : f ≤ s) (h : consistencyWalk H oldRoot (rootFromLeafHashes H xs) f s firstHash secondHash proof = true) :
    xs[f]? = some secondHash ∧ proof = buildInclusionProof H xs f := by
  induction hn : xs.length using Nat.strong_induction_on
    generalizing xs f s firstHash secondHash proof with
  | _ n ih =>
    by_cases hs : s = 0
    · have hf0 : f = 0 := by omega
      obtain ⟨x, rfl⟩ := List.length_eq_one_iff.1 (by omega : xs.length = 1)
      subst hs hf0
      rcases proof with _ | ⟨node, rest⟩
      · simp only [consistencyWalk, rootFromLeafHashes_singleton, Bool.and_eq_true, beq_iff_eq] at h
        simp [h.2]
      · simp [consistencyWalk] at h
    have hlt : f < xs.length := by omega
    have hup := @pairUp_getElem? _ H.nodeHash xs f xs[f] (getElem?_eq_getElem hlt)
    have hl' : (pairUp H.nodeHash xs).length = s / 2 + 1 := by
      rw [length_pairUp]
      omega
    rw [← rootFromLeafHashes_pairUp] at h
    rw [buildInclusionProof_pairUp hlt, getElem?_eq_getElem hlt]
    by_cases hls : f % 2 = 0 ∧ f = s
    · obtain ⟨he, rfl⟩ := hls
      have hsb := sibling_eq_none_of_last hl.symm he
      rw [consistencyWalk_last he hs] at h
      obtain ⟨hg, hp⟩ := ih _ (by omega) hl' (by omega) h rfl
      rw [hsb, join, hg] at hup
      rw [hsb]
      exact ⟨hup.symm, by simpa using hp⟩
    · rcases proof with _ | ⟨node, rest⟩
      · simp [consistencyWalk, hs] at h
      by_cases ho : f % 2 = 1
      · obtain ⟨sib, hsb⟩ := sibling_isSome_of_odd hlt ho
        rw [consistencyWalk_odd ho hs] at h
        obtain ⟨hg, hp⟩ := ih _ (by omega) hl' (by omega) h rfl
        rw [hsb, join, if_pos ho, hg, Option.some.injEq] at hup
        obtain ⟨hnd, hsc⟩ := hi hup
        rw [hsb, hsc, hnd]
        exact ⟨rfl, by simpa using hp⟩
      · obtain ⟨sib, hsb⟩ := @sibling_isSome_of_inner _ xs f (by omega)
        rw [consistencyWalk_inner (by omega) (by omega)] at h
        obtain ⟨hg, hp⟩ := ih _ (by omega) hl' (by omega) h rfl
        rw [hsb, join, if_neg ho, hg, Option.some.injEq] at hup
        obtain ⟨hsc, hnd⟩ := hi hup
        rw [hsb, hsc, hnd]
        exact ⟨rfl, by simpa using hp⟩

end Walk

/-! ## Generator against verifier -/

section Main

variable {H}

/-- What the shifts before the walk find: a level of the tree where the old tree ends with a whole node
at an even place. -/
theorem shiftWhileOdd_level {xs : List Hash} {m : Nat} (hpos : 0 < m) (hm : m < xs.length) :
    ∃ ys f s, shiftWhileOdd (m - 1) (xs.length - 1) = (f, s) ∧ ys.length = s + 1 ∧ f % 2 = 0 ∧ f < s ∧
      rootFromLeafHashes H ys = rootFromLeafHashes H xs ∧
      rootFromLeafHashes H (ys.take (f + 1)) = rootFromLeafHashes H (xs.take m) ∧
      buildConsistencySubproof H m xs true = buildConsistencySubproof H (f + 1) ys true := by
  induction m using Nat.strong_induction_on generalizing xs with
  | _ m ih =>
    by_cases hod : m % 2 = 1
    · refine ⟨xs, m - 1, xs.length - 1, ?_, by omega, by omega, by omega, rfl, ?_, ?_⟩
      · rw [shiftWhileOdd, if_neg (by omega)]
      · rw [Nat.sub_add_cancel hpos]
      · rw [Nat.sub_add_cancel hpos]
    have hl := length_pairUp H.nodeHash xs
    have ht : 2 * (m / 2) = m := by omega
    obtain ⟨ys, f, s, hshift, hys, he, hfs, hr, ho, hp⟩ :=
      @ih (m / 2) (by omega) (pairUp H.nodeHash xs) (by omega) (by omega)
    refine ⟨ys, f, s, ?_, hys, he, hfs, ?_, ?_, ?_⟩
    · rw [shiftWhileOdd, if_pos (by omega), ← hshift]
      congr 1
      · omega
      · omega
    · rw [hr, rootFromLeafHashes_pairUp]
    · rw [ho, pairUp_take xs (m / 2) (by omega), rootFromLeafHashes_pairUp, ht]
    · rw [buildConsistencySubproof_even hpos hm.le (by omega), hp]

theorem take_concat_getElem? (h : xs[f]? = some x) : xs.take f ++ [x] = xs.take (f + 1) := by
  rw [take_add_one, h]
  rfl

section Entry

variable [DecidableEq Hash] {oldRoot newRoot : Hash} {m n f s : Nat} (hpos : 0 < m) (hm : m < n)
  (hshift : shiftWhileOdd (m - 1) (n - 1) = (f, s))

include hpos hm hshift

/-- An old tree that is one node of the new tree needs no seed. -/
theorem verifyConsistency_whole (hf : f = 0) (proof : List Hash) : verifyConsistency H m n oldRoot newRoot proof =
      consistencyWalk H oldRoot newRoot f s oldRoot oldRoot proof := by
  rw [verifyConsistency, if_neg (by omega), if_neg (by omega), if_neg (by omega), hshift]
  exact if_pos hf

theorem verifyConsistency_seed (hf : f ≠ 0) (seed : Hash) (rest : List Hash) :
    verifyConsistency H m n oldRoot newRoot (seed :: rest) =
      consistencyWalk H oldRoot newRoot f s seed seed rest := by
  rw [verifyConsistency, if_neg (by omega), if_neg (by omega), if_neg (by omega), hshift]
  exact if_neg hf

theorem verifyConsistency_no_seed (hf : f ≠ 0) : verifyConsistency H m n oldRoot newRoot [] = false := by
  rw [verifyConsistency, if_neg (by omega), if_neg (by omega), if_neg (by omega), hshift]
  exact if_neg hf

end Entry

variable [DecidableEq Hash]

/-- The generated proof of every earlier tree is accepted. -/
theorem verifyConsistency_consistencyProof (leaves : List Hash) (m : Nat) (hm : m ≤ leaves.length) :
    ∃ proof, consistencyProof H leaves m = .ok proof ∧
      verifyConsistency H m leaves.length (rootFromLeafHashes H (leaves.take m))
        (rootFromLeafHashes H leaves) proof = true := by
  have hgn : ¬leaves.length < m := by omega
  by_cases h0 : m = 0
  · refine ⟨[], by simp [consistencyProof, h0], ?_⟩
    subst h0
    have he : rootFromLeafHashes H ([] : List Hash) = H.emptyHash := by rw [rootFromLeafHashes]
    rcases leaves with _ | ⟨a, rest⟩
    · simp [verifyConsistency, he]
    · simp [verifyConsistency, he]
  by_cases ha : m = leaves.length
  · refine ⟨[], by simp [consistencyProof, ha], ?_⟩
    rw [verifyConsistency, if_neg hgn, if_neg h0, if_pos ha]
    simp [ha]
  refine ⟨buildConsistencySubproof H m leaves true, ?_, ?_⟩
  · rw [consistencyProof, if_neg hgn, if_neg (by simp [h0, ha])]
  have hpos : 0 < m := by omega
  have hlt : m < leaves.length := by omega
  obtain ⟨ys, f, s, hshift, hys, hev, hfs, hr, ho, hp⟩ := shiftWhileOdd_level hpos hlt
  obtain ⟨x, hg⟩ : ∃ x, ys[f]? = some x := ⟨_, getElem?_eq_getElem (by omega)⟩
  have hw := @consistencyWalk_path _ H _ (rootFromLeafHashes H (leaves.take m))
    (rootFromLeafHashes H leaves) x x f s ys hys hg
  rw [take_concat_getElem? hg, ho, hr, beq_self_eq_true, beq_self_eq_true] at hw
  rw [hp, buildConsistencySubproof_odd (by omega) (by omega), Nat.add_sub_cancel, hg]
  by_cases hf0 : f = 0
  · -- the old tree is the node `x` of the level
    have hf : rootFromLeafHashes H (leaves.take m) = x := by
      rw [← ho, ← take_concat_getElem? hg, hf0]
      simp
    rw [verifyConsistency_whole hpos hlt hshift hf0, if_pos (by simp [hf0]), nil_append]
    rw [hf] at hw ⊢
    exact hw
  · rw [if_neg (by simp [hf0]), Option.toList_some, cons_append, nil_append, verifyConsistency_seed hpos hlt hshift hf0]
    exact hw

theorem verifyConsistency_consistencyProof_five : ∃ proof, consistencyProof pairingHash [5, 6, 7, 8, 9] 3 = .ok proof ∧
      verifyConsistency pairingHash 3 5 (rootFromLeafHashes pairingHash [5, 6, 7])
        (rootFromLeafHashes pairingHash [5, 6, 7, 8, 9]) proof = true :=
  verifyConsistency_consistencyProof [5, 6, 7, 8, 9] 3 (by decide)

/-- No proof against the root of `leaves` is accepted for an old root other than that of the first `m`
leaves, if no two nodes have one hash. -/
theorem verifyConsistency_old_root (hinj : Function.Injective2 H.nodeHash) (leaves : List Hash)
    (m : Nat) (hpos : 1 ≤ m) (hm : m ≤ leaves.length) (oldRoot : Hash) (proof : List Hash)
    (h : verifyConsistency H m leaves.length oldRoot (rootFromLeafHashes H leaves) proof = true) :
    oldRoot = rootFromLeafHashes H (leaves.take m) := by
  by_cases ha : m = leaves.length
  · rw [verifyConsistency, if_neg (by omega), if_neg (by omega), if_pos ha, Bool.and_eq_true, beq_iff_eq] at h
    rw [h.2, ha, List.take_length]
  have hlt : m < leaves.length := by omega
  obtain ⟨ys, f, s, hshift, hys, he, hfs, hr, ho, -⟩ := @shiftWhileOdd_level _ H _ _ hpos hlt
  rw [← hr] at h
  rw [← ho]
  by_cases hf0 : f = 0
  · -- the old tree is one node of the level, and the walk starts at the claimed root
    rw [verifyConsistency_whole hpos hlt hshift hf0] at h
    obtain ⟨hg, -⟩ := consistencyWalk_sound hinj hys hfs.le h
    rw [← take_concat_getElem? hg, hf0]
    simp
  rcases proof with _ | ⟨seed, rest⟩
  · rw [verifyConsistency_no_seed hpos hlt hshift hf0] at h
    contradiction
  rw [verifyConsistency_seed hpos hlt hshift hf0] at h
  obtain ⟨hg, hp⟩ := consistencyWalk_sound hinj hys hfs.le h
  rw [hp, consistencyWalk_path hys hg, take_concat_getElem? hg, Bool.and_eq_true, beq_iff_eq] at h
  exact h.1.symm

/-- The first of two leaves as the old tree: its root is the leaf. -/
theorem verifyConsistency_old_root_first_of_two :
    verifyConsistency pairingHash 1 2 5 (rootFromLeafHashes pairingHash [5, 6]) [6] = true ∧
      (5 : Nat) = rootFromLeafHashes pairingHash [5] := by
  have hs : Splits [5] [6] := ⟨0, rfl, by decide, by decide⟩
  have hr := rootFromLeafHashes_append (H := pairingHash) hs
  have hshift : shiftWhileOdd (1 - 1) (2 - 1) = (0, 1) := by
    rw [shiftWhileOdd]
    rfl
  refine (and_iff_left_of_imp fun ha => ?_).2 ?_
  · exact verifyConsistency_old_root pairingHash_injective [5, 6] 1 (by decide) (by decide) 5 [6] ha
  rw [verifyConsistency_whole (by decide) (by decide) hshift rfl, consistencyWalk_inner (by decide) (by decide)]
  simp only [cons_append, nil_append, rootFromLeafHashes_singleton] at hr
  simp [consistencyWalk, hr]

end Main

end Ct
