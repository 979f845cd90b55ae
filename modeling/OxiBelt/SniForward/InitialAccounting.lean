import OxiBelt.SniForward.InitialReassembly

/-!
# What is reserved for QUIC Initials

The counter is moved by differences on many paths, and subtracted from with saturation.  `reserved_exact` says that it
is the number of bytes held at any time, within the limit.

An additional entry may exist inside of a call, when all slots are taken; it is gone when the call ends.
-/

namespace SniForward

open RustStd ByteString Sparse List Ledger World

variable {Key : Type}

def PendingInitial.held (entry : PendingInitial) : Nat := (entry.datagrams.map List.length).sum + size entry.crypto.runs

structure PendingInitial.Sound (entry : PendingInitial) : Prop where
  raw : entry.rawDatagramBytes = (entry.datagrams.map List.length).sum

theorem PendingInitial.Sound.reservedBytes_eq {entry : PendingInitial} (h : entry.Sound) (hle : entry.held ≤ usizeMax) :
    entry.reservedBytes = entry.held := by
  rw [reservedBytes, saturatingAdd, h.raw]
  exact Nat.min_eq_left hle

theorem PendingInitial.Sound.absorb {entry : PendingInitial} {frame : CryptoFrame} {datagram : Bytes} {adds : Bool}
    (h : entry.Sound) (hd : frame.data ≠ []) (ha : (compare frame 0 entry.crypto.runs).2 = false)
    (hle : adds = true → entry.rawDatagramBytes + datagram.length ≤ usizeMax) :
    (entry.absorb frame hd adds datagram).Sound ∧
      (entry.absorb frame hd adds datagram).held = entry.held +
        (frame.data.length - (entry.crypto.runs.map (overlap frame)).sum) + if adds then datagram.length else 0 := by
  have hs := Segments.size_insert hd ((entry.crypto.compare_agrees frame 0).1 ha)
  cases adds with
  | false =>
    refine ⟨⟨h.raw⟩, ?_⟩
    show (entry.datagrams.map length).sum + size (entry.crypto.insert frame hd).runs = _
    rw [hs, held, if_neg (by decide)]
    omega
  | true =>
    have hsm : ((entry.datagrams ++ [datagram]).map length).sum =
        (entry.datagrams.map length).sum + datagram.length := by simp
    refine ⟨⟨?_⟩, ?_⟩
    · show saturatingAdd entry.rawDatagramBytes datagram.length = ((entry.datagrams ++ [datagram]).map length).sum
      rw [saturatingAdd, Nat.min_eq_left (hle rfl), hsm, h.raw]
    show ((entry.datagrams ++ [datagram]).map length).sum + size (entry.crypto.insert frame hd).runs = _
    rw [hsm, hs, held, if_pos rfl]
    omega

variable [DecidableEq Key] {limits : InitialReassemblyLimits} {owed : Nat} {state : PendingState Key} {key : Key}
  {entry : PendingInitial}

/-- The counter is right, given what is owed to replay batches. -/
structure Books (limits : InitialReassemblyLimits) (owed : Nat) (state : PendingState Key) : Prop where
  sound : ∀ key entry, state.entries.lookup key = some entry → entry.Sound
  balance : state.reservedBytes = Ledger.total (fun _ entry => entry.held) state.entries + owed
  bounded : state.reservedBytes ≤ limits.maxTotalBufferedBytes
  small : limits.maxTotalBufferedBytes < usizeMax

namespace Books

section

variable (h : Books limits owed state)
include h

theorem held_le (he : state.entries.lookup key = some entry) : entry.held + owed ≤ state.reservedBytes := by
  have hle := le_total (fun _ entry => entry.held) he
  rw [h.balance]
  exact Nat.add_le_add_right hle owed

theorem reservedBytes_eq (he : state.entries.lookup key = some entry) : entry.reservedBytes = entry.held := by
  have hh := h.held_le he
  have hb := h.bounded
  have hs := h.small
  exact (h.sound key entry he).reservedBytes_eq (by omega)

theorem sound_erase (key : Key) : ∀ key' entry, (state.entries.erase key).lookup key' = some entry → entry.Sound := by
  intro key' entry hl
  rw [lookup_erase_apply] at hl
  split at hl
  · cases hl
  · exact h.sound key' entry hl

theorem removeEntry (key : Key) : Books limits owed (state.removeEntry key) := by
  unfold PendingState.removeEntry
  split
  · exact h
  next entry he =>
  have ht := total_erase_add (fun _ entry => entry.held) he
  have hb := h.balance
  have hbn := h.bounded
  have heq := h.reservedBytes_eq he
  refine ⟨h.sound_erase key, ?_, ?_, h.small⟩
  · simp only [heq]
    omega
  · simp only
    omega

theorem expire (now : Nat) : Books limits owed (state.expire limits now) := by
  unfold PendingState.expire
  generalize state.expiredKeys limits now = keys
  induction keys generalizing state with
  | nil => exact h
  | cons key keys ih => exact ih (h.removeEntry key)

theorem clearPending : Books limits owed state.clearPending := by
  have ht : total (fun _ entry => entry.reservedBytes) state.entries =
      total (fun _ entry => entry.held) state.entries :=
    total_congr fun key entry he => h.reservedBytes_eq he
  have hb := h.balance
  have hbn := h.bounded
  refine ⟨fun key entry he => ?_, ?_, ?_, h.small⟩
  · rw [PendingState.clearPending, AList.lookup_empty] at he
    cases he
  · simp only [PendingState.clearPending, ht, total_empty]
    omega
  · simp only [PendingState.clearPending]
    omega

/-- An entry without bytes costs nothing. -/
theorem withEntry {initial : InspectedInitial Key} (now : Nat) : Books limits owed (withEntry initial state now) := by
  unfold SniForward.withEntry
  split
  · exact h
  next hn =>
  have hl : state.entries.lookup initial.key = none := Option.not_isSome_iff_eq_none.1 hn
  have ht := total_insert_new (a := PendingInitial.new now) (fun _ entry => entry.held) hl
  refine ⟨fun key entry he => ?_, ?_, h.bounded, h.small⟩
  · rw [lookup_insert_apply] at he
    split at he
    · cases he
      exact ⟨rfl⟩
    · exact h.sound key entry he
  · simp only [ht, h.balance]
    rfl

end

end Books

/-! ## The frames -/

section Frames

variable {initial : InspectedInitial Key} {contributed : Bool} {frame : CryptoFrame}

theorem saturatingAdd_le {a b max : Nat} (h : saturatingAdd a b ≤ max) (hm : max < usizeMax) :
    saturatingAdd a b = a + b := by
  unfold saturatingAdd at h ⊢
  omega

/-- A frame that is taken is within the limit, so nothing saturates. -/
theorem Books.merged {newBytes : Nat} (h : Books limits owed state)
    (he : state.entries.lookup initial.key = some entry) (hd : frame.data ≠ [])
    (ha : (compare frame 0 entry.crypto.runs).2 = false)
    (hn : newBytes = frame.data.length - (entry.crypto.runs.map (overlap frame)).sum)
    (hw : limitsRejected limits initial entry state.reservedBytes newBytes (!contributed) = false) :
    Books limits owed ⟨state.entries.insert initial.key (entry.absorb frame hd (!contributed) initial.datagram),
      if contributed then saturatingAdd state.reservedBytes newBytes
      else saturatingAdd (saturatingAdd state.reservedBytes newBytes) initial.datagram.length⟩ := by
  have hsm := h.small
  have hh := h.held_le he
  -- the counter after the call, exactly and within the limit
  have ht : saturatingAdd (saturatingAdd state.reservedBytes newBytes)
      (if !contributed then initial.datagram.length else 0) ≤ limits.maxTotalBufferedBytes := by
    simp only [limitsRejected, Bool.or_eq_false_iff, decide_eq_false_iff_not] at hw
    exact Nat.le_of_not_lt hw.2
  have hf : saturatingAdd state.reservedBytes newBytes = state.reservedBytes + newBytes := by
    refine saturatingAdd_le (Nat.le_trans ?_ ht) hsm
    unfold saturatingAdd
    omega
  have hex := saturatingAdd_le ht hsm
  rw [hex, hf] at ht
  have hs := h.sound initial.key entry he
  have hrw : (!contributed) = true → entry.rawDatagramBytes + initial.datagram.length ≤ usizeMax := by
    intro had
    rw [if_pos had] at ht
    rw [hs.raw]
    unfold PendingInitial.held at hh
    omega
  obtain ⟨hs', hh'⟩ := hs.absorb hd ha hrw
  have hi := total_insert_add (b := entry.absorb frame hd (!contributed) initial.datagram)
    (fun _ entry => entry.held) he
  have hr : (if contributed then saturatingAdd state.reservedBytes newBytes
      else saturatingAdd (saturatingAdd state.reservedBytes newBytes) initial.datagram.length) =
      state.reservedBytes + newBytes + if !contributed then initial.datagram.length else 0 := by
    cases contributed with
    | true => exact hf
    | false =>
      rw [hf] at hex ⊢
      exact hex
  refine ⟨fun key entry' hl => ?_, ?_, ?_, hsm⟩
  · rw [lookup_insert_apply] at hl
    split at hl
    · cases hl
      exact hs'
    · exact h.sound key entry' hl
  · have hb := h.balance
    simp only [hr]
    rw [hh', ← hn] at hi
    omega
  · simp only [hr]
    exact ht

/-- A state with an entry for the connection, in the course of a call. -/
structure Open (limits : InitialReassemblyLimits) (owed count : Nat) (initial : InspectedInitial Key)
    (state : PendingState Key) : Prop where
  books : Books limits owed state
  present : ∃ entry, state.entries.lookup initial.key = some entry
  count : state.entries.entries.length = count

/-- A state in which the entry for the connection has been removed. -/
structure Closed (limits : InitialReassemblyLimits) (owed count : Nat) (state : PendingState Key) : Prop where
  books : Books limits owed state
  count : state.entries.entries.length + 1 = count

variable {count : Nat}

theorem Open.removeEntry (h : Open limits owed count initial state) :
    Closed limits owed count (state.removeEntry initial.key) := by
  refine ⟨h.books.removeEntry initial.key, ?_⟩
  obtain ⟨entry, he⟩ := h.present
  have hl := length_erase_add he
  rw [PendingState.removeEntry, he, ← h.count]
  exact hl

theorem FrameStep.open {outcome : Except (ReassemblyReject × PendingState Key) (PendingState Key × Bool)}
    (hs : FrameStep limits initial state contributed entry frame outcome)
    (he : state.entries.lookup initial.key = some entry) (h : Open limits owed count initial state) :
    (∃ next, outcome = .ok next ∧ Open limits owed count initial next.1) ∨
      ∃ reason state', outcome = .error (reason, state') ∧ Closed limits owed count state' := by
  cases hs with
  | empty | known => exact .inl ⟨_, rfl, h⟩
  | limit | conflict => exact .inr ⟨_, _, rfl, h.removeEntry⟩
  | merged hd ha hn hw =>
    refine .inl ⟨_, rfl, h.books.merged he hd ha hn hw, ⟨_, AList.lookup_insert _⟩, ?_⟩
    rw [← h.count]
    exact length_insert_old he

theorem ingestFrames_open (contributed : Bool) (frames : List CryptoFrame) (h : Open limits owed count initial state) :
    (∃ next, frames.foldlM (ingestFrame limits initial) (state, contributed) = .ok next ∧
        Open limits owed count initial next.1) ∨
      ∃ reason state', frames.foldlM (ingestFrame limits initial) (state, contributed) = .error (reason, state') ∧
        Closed limits owed count state' := by
  induction frames generalizing state contributed with
  | nil => exact .inl ⟨_, rfl, h⟩
  | cons frame frames ih =>
    obtain ⟨entry, he⟩ := h.present
    rw [foldlM_cons]
    obtain ⟨next, hn, ho⟩ | ⟨reason, state', her, hc⟩ := (ingestFrame_step limits contributed frame he).open he h
    · rw [hn]
      exact ih next.2 ho
    · rw [her]
      exact .inr ⟨reason, state', rfl, hc⟩

end Frames

/-! ## One call -/

section Calls

variable {initial : InspectedInitial Key} {count : Nat} {atCapacity : Bool}

/-- What a call hands over to a replay batch. -/
def Locked.handed : Locked → Nat
  | .assembled _ entry => entry.held
  | _ => 0

def Locked.Sound : Locked → Prop
  | .assembled _ entry => entry.Sound
  | _ => True

/-- A state at the end of a call that began with so many entries, its own included. -/
structure Settled (limits : InitialReassemblyLimits) (owed count : Nat) (atCapacity : Bool)
    (outcome : PendingState Key × Locked) : Prop where
  books : Books limits (owed + outcome.2.handed) outcome.1
  sound : outcome.2.Sound
  count : outcome.1.entries.entries.length + (if atCapacity then 1 else 0) ≤ count

theorem Closed.settled (h : Closed limits owed count state) (reason : ReassemblyReject) :
    Settled limits owed count atCapacity (state, .rejected reason) := by
  refine ⟨h.books, trivial, ?_⟩
  have hc := h.count
  simp only
  split <;> omega

theorem Open.pendingOrCapacity (h : Open limits owed count initial state) :
    Settled limits owed count atCapacity (pendingOrCapacity initial state atCapacity) := by
  cases atCapacity with
  | true => exact h.removeEntry.settled .capacity
  | false => exact ⟨h.books, trivial, Nat.le_of_eq h.count⟩

theorem Open.settle (h : Open limits owed count initial state) :
    Settled limits owed count atCapacity (settle limits initial state atCapacity) := by
  obtain ⟨entry, he⟩ := h.present
  unfold SniForward.settle
  simp only [he]
  split
  · exact h.pendingOrCapacity
  split
  · exact h.removeEntry.settled .parseFailure
  split
  · exact h.removeEntry.settled .limit
  split
  · exact h.pendingOrCapacity
  -- the entry leaves the table, and its bytes are owed to the batch
  have ht := total_erase_add (fun _ entry => entry.held) he
  have hl := length_erase_add he
  have hb := h.books.balance
  have hc := h.count
  refine ⟨⟨h.books.sound_erase initial.key, ?_, h.books.bounded, h.books.small⟩, h.books.sound _ _ he, ?_⟩
  · simp only [Locked.handed]
    omega
  · simp only
    split <;> omega

theorem length_removeEntry_le (state : PendingState Key) (key : Key) :
    (state.removeEntry key).entries.entries.length ≤ state.entries.entries.length := by
  unfold PendingState.removeEntry
  split
  · exact Nat.le_refl _
  next entry he =>
  have hl := length_erase_add he
  simp only
  omega

theorem length_expire_le (limits : InitialReassemblyLimits) (state : PendingState Key) (now : Nat) :
    (state.expire limits now).entries.entries.length ≤ state.entries.entries.length := by
  unfold PendingState.expire
  generalize state.expiredKeys limits now = keys
  induction keys generalizing state with
  | nil => exact Nat.le_refl _
  | cons key keys ih => exact Nat.le_trans (ih _) (length_removeEntry_le state key)

/-- After a call there are no more entries than slots. -/
structure Within (limits : InitialReassemblyLimits) (owed : Nat) (outcome : PendingState Key × Locked) : Prop where
  books : Books limits (owed + outcome.2.handed) outcome.1
  sound : outcome.2.Sound
  count : outcome.1.entries.entries.length ≤ limits.maxPendingSessions

theorem withEntry_open (h : Books limits owed state) (now : Nat) :
    Open limits owed (withEntry initial state now).entries.entries.length initial (withEntry initial state now) := by
  refine ⟨h.withEntry now, ?_, rfl⟩
  unfold withEntry
  split
  · next hs => exact Option.isSome_iff_exists.1 hs
  · exact ⟨_, AList.lookup_insert _⟩

theorem ingestLive_within (h : Books limits owed state) (hc : state.entries.entries.length ≤ limits.maxPendingSessions)
    (now : Nat) : Within limits owed (ingestLive limits initial state now) := by
  unfold ingestLive
  split
  · exact ⟨h.removeEntry initial.key, trivial, Nat.le_trans (length_removeEntry_le state initial.key) hc⟩
  simp only
  -- with a free slot the own entry counts; without one it must be gone at the end
  have hsl : (withEntry initial state now).entries.entries.length ≤ limits.maxPendingSessions +
      if (state.entries.lookup initial.key).isNone && limits.maxPendingSessions ≤ state.entries.entries.length then 1
      else 0 := by
    unfold withEntry
    cases hl : state.entries.lookup initial.key with
    | some entry =>
      simp only [Option.isSome_some, if_true, Option.isNone_some, Bool.false_and, Bool.false_eq_true, if_false]
      exact hc
    | none =>
      have hln := length_insert_new (a := PendingInitial.new now) hl
      simp only [Option.isSome_none, Bool.false_eq_true, if_false, Option.isNone_none, Bool.true_and,
        decide_eq_true_eq, hln]
      split <;> omega
  generalize ((state.entries.lookup initial.key).isNone &&
    decide (limits.maxPendingSessions ≤ state.entries.entries.length)) = atCapacity at hsl
  have hw : ∀ {outcome : PendingState Key × Locked},
      Settled limits owed (withEntry initial state now).entries.entries.length atCapacity outcome →
      Within limits owed outcome := by
    intro outcome hs
    refine ⟨hs.books, hs.sound, ?_⟩
    have := hs.count
    omega
  obtain ⟨next, hn, ho⟩ | ⟨reason, state', he, hcl⟩ := ingestFrames_open false initial.frames (withEntry_open h now)
  · rw [ingestFrames, hn]
    exact hw ho.settle
  · rw [ingestFrames, he]
    exact hw (hcl.settled reason)

theorem ingest_within (initial : InspectedInitial Key) (h : Books limits owed state)
    (hc : state.entries.entries.length ≤ limits.maxPendingSessions) (now : Nat) :
      Within limits owed (ingest limits initial state now) := by
  have hle := Nat.le_trans (length_expire_le limits state now) hc
  unfold ingest
  split
  · exact ⟨h.expire now, trivial, hle⟩
  · exact ingestLive_within (h.expire now) hle now

end Calls

/-! ## Runs -/

def World.replaying (world : World Key) : Nat := (world.live.map PendingInitial.held).sum

structure World.Kept (limits : InitialReassemblyLimits) (world : World Key) : Prop where
  books : Books limits world.replaying world.state
  sound : ∀ entry ∈ world.live, entry.Sound
  count : world.state.entries.entries.length ≤ limits.maxPendingSessions

theorem World.step_kept {world : World Key} (call : Call Key) (h : world.Kept limits) :
    (world.step limits call).Kept limits := by
  cases call with
  | ingest initial now =>
    have hw := ingest_within initial h.books h.count now
    unfold step
    simp only
    split
    · next state' clientHello entry ho =>
      rw [ho] at hw
      refine ⟨?_, ?_, hw.count⟩
      · have how : replaying ⟨state', world.live ++ [entry]⟩ = world.replaying + entry.held := by simp [replaying]
        rw [how]
        exact hw.books
      intro other hot
      rcases mem_append.1 hot with hl | hn
      · exact h.sound other hl
      · rw [mem_singleton.1 hn]
        exact hw.sound
    · next state' locked hnt ho =>
      have hz : locked.handed = 0 := by
        cases locked with
        | pending => rfl
        | rejected reason => rfl
        | assembled clientHello entry => exact absurd rfl (hnt clientHello entry)
      rw [ho] at hw
      have hb := hw.books
      rw [hz] at hb
      exact ⟨hb, h.sound, hw.count⟩
  | expire now => exact ⟨h.books.expire now, h.sound, Nat.le_trans (length_expire_le limits world.state now) h.count⟩
  | clearPending => exact ⟨h.books.clearPending, h.sound, Nat.zero_le _⟩
  | dropReplay index =>
    unfold step
    simp only
    split
    · exact h
    next entry he =>
    obtain ⟨hi, rfl⟩ := List.getElem?_eq_some_iff.1 he
    have hm : world.live[index] ∈ world.live := getElem_mem hi
    have how : world.live[index].held + replaying ⟨world.state, world.live.eraseIdx index⟩ = world.replaying := by
      have hp := ((getElem_cons_eraseIdx_perm hi).map PendingInitial.held).sum_eq
      rw [map_cons, sum_cons] at hp
      exact hp
    have hbl := h.books.balance
    have hbn := h.books.bounded
    have hs := h.books.small
    have hby : (ReplayBatch.of world.live[index]).bytes = world.live[index].held :=
      (h.sound _ hm).reservedBytes_eq (by omega)
    refine ⟨⟨h.books.sound, ?_, ?_, hs⟩, fun other hot => ?_, h.count⟩
    · simp only [PendingState.dropReservation, hby]
      unfold replaying at how hbl ⊢
      simp only at how ⊢
      omega
    · simp only [PendingState.dropReservation]
      omega
    · exact h.sound other (mem_of_mem_eraseIdx hot)

theorem World.run_kept (hs : limits.maxTotalBufferedBytes < usizeMax) (calls : List (Call Key)) :
    (run limits empty calls).Kept limits := by
  refine Transition.run_keeps (fun world call h => step_kept call h) ?_ calls
  refine ⟨⟨fun key entry he => ?_, rfl, Nat.zero_le _, hs⟩, forall_mem_nil _, Nat.zero_le _⟩
  rw [empty, PendingState.empty, AList.lookup_empty] at he
  cases he

/-- After any calls the counter is the number of bytes held by pending entries and live replay batches, it is within
the limit, and there are no more pending entries than slots.  The limit is below the greatest number of the machine;
at that number the counter could saturate, if ever so many bytes were held. -/
theorem reserved_exact (limits : InitialReassemblyLimits) (hsmall : limits.maxTotalBufferedBytes < usizeMax)
    (calls : List (Call Key)) :
    (World.run limits World.empty calls).state.reservedBytes =
        Ledger.total (fun _ entry => entry.held) (World.run limits World.empty calls).state.entries +
          ((World.run limits World.empty calls).live.map PendingInitial.held).sum ∧
      (World.run limits World.empty calls).state.reservedBytes ≤ limits.maxTotalBufferedBytes ∧
      (World.run limits World.empty calls).state.entries.entries.length ≤ limits.maxPendingSessions := by
  have hk := run_kept hsmall calls
  exact ⟨hk.books.balance, hk.books.bounded, hk.count⟩

def mixedLimits : InitialReassemblyLimits := ⟨2, 4, 4, 100, 1000, 10, 64⟩

/-- Of four connections one expires and one stays pending; of the two that are complete, one is dropped. -/
def mixedCalls : List (Call Nat) :=
  [.ingest ⟨1, [7], [⟨0, [1, 0, 0, 2]⟩], [9, 9]⟩ 0, .ingest ⟨2, [8], [⟨4, [5]⟩], [9]⟩ 3,
    .ingest ⟨1, [7], [⟨4, [5, 6]⟩], [9]⟩ 5, .expire 14, .ingest ⟨3, [6], [⟨0, [1, 0, 0, 1, 9]⟩], [9, 9]⟩ 15,
    .ingest ⟨4, [8], [⟨4, [5]⟩], [9]⟩ 16, .dropReplay 1]

theorem reserved_exact_mixed : (run mixedLimits empty mixedCalls).live.map PendingInitial.held = [9] ∧
    total (fun _ entry => entry.held) (run mixedLimits empty mixedCalls).state.entries = 2 ∧
    (run mixedLimits empty mixedCalls).state.reservedBytes = 2 + 9 ∧
    (run mixedLimits empty mixedCalls).state.entries.entries.length ≤ mixedLimits.maxPendingSessions := by
  have hl : (run mixedLimits empty mixedCalls).live.map PendingInitial.held = [9] := by decide +kernel
  have ht : total (fun _ entry => entry.held) (run mixedLimits empty mixedCalls).state.entries = 2 := by decide +kernel
  obtain ⟨hr, -, hn⟩ := reserved_exact mixedLimits (by decide) mixedCalls
  rw [hl, ht] at hr
  exact ⟨hl, ht, hr, hn⟩

end SniForward
