import OxiBelt.Lib.Ledger
import OxiBelt.Lib.Sparse
import OxiBelt.Lib.Transition
import OxiBelt.SniForward.ClientHello

/-!
# Reassembly of QUIC Initials (`sni_forward/quic/initial.rs`)

The CRYPTO frames of the first datagrams of a connection are collected until the ClientHello is complete.  What is held
for connections that are not complete yet, and for datagrams that wait to be replayed, is counted in `reservedBytes`.

The lock of the state is held through one call.  It is given up before the ClientHello is parsed, so a call comes to
`Locked` first, and the batch of a message that does not parse is dropped by a call of its own.
-/

namespace SniForward

open RustStd ByteString Sparse

/-- `usize::MAX`. -/
def usizeMax : Nat := 2 ^ 64 - 1

def saturatingAdd (a b : Nat) : Nat := min (a + b) usizeMax

abbrev CryptoFrame := Run UInt8

structure InitialReassemblyLimits where
  (maxPendingSessions maxFragmentsPerSession maxDatagramsPerSession : Nat)
  (maxBufferedDatagramBytesPerSession maxTotalBufferedBytes timeout clientHelloMaxBytes : Nat)

/-- The segments are sorted and do not touch.  Their ends are those of frames, which passed a checked addition. -/
structure PendingInitial where
  firstSeen : Nat
  crypto : Segments UInt8
  contributingFragments : Nat
  datagrams : List Bytes
  rawDatagramBytes : Nat

namespace PendingInitial

def new (now : Nat) : PendingInitial := ⟨now, .empty, 0, [], 0⟩

def reservedBytes (entry : PendingInitial) : Nat := saturatingAdd entry.rawDatagramBytes (size entry.crypto.runs)

end PendingInitial

inductive ReassemblyReject
  | expired
  | capacity
  | limit
  | overlapConflict
  | parseFailure
  deriving DecidableEq

structure ReplayBatch where
  datagrams : List Bytes
  /-- The bytes of its `ReplayReservation`. -/
  bytes : Nat
  deriving DecidableEq

structure CompletedInitial where
  sni : Option Str
  clientScid : Bytes
  batch : ReplayBatch
  deriving DecidableEq

inductive ReassemblyResult
  | pending
  | completed (initial : CompletedInitial)
  | rejected (reason : ReassemblyReject)
  deriving DecidableEq

inductive Locked
  | pending
  | rejected (reason : ReassemblyReject)
  | assembled (clientHello : Bytes) (entry : PendingInitial)

def ReplayBatch.of (entry : PendingInitial) : ReplayBatch := ⟨entry.datagrams, entry.reservedBytes⟩

variable {Key : Type}

/-- An `InspectedInitial`, as far as reassembly looks at it.  Its key stands for the connection. -/
structure InspectedInitial (Key : Type) where
  key : Key
  clientScid : Bytes
  frames : List CryptoFrame
  datagram : Bytes

structure PendingState (Key : Type) where
  entries : AList fun _ : Key => PendingInitial
  reservedBytes : Nat

namespace PendingState

def empty : PendingState Key := ⟨∅, 0⟩

variable [DecidableEq Key]

variable (state : PendingState Key)

def removeEntry (key : Key) : PendingState Key :=
  match state.entries.lookup key with
  | none => state
  | some entry => ⟨state.entries.erase key, state.reservedBytes - entry.reservedBytes⟩

def expiredKeys (limits : InitialReassemblyLimits) (now : Nat) (state : PendingState Key) : List Key :=
  state.entries.entries.filterMap fun entry =>
    if limits.timeout ≤ now - entry.2.firstSeen then some entry.1 else none

/-- The part of `expire` and of `ingest` that removes what is too old. -/
def expire (limits : InitialReassemblyLimits) (now : Nat) (state : PendingState Key) : PendingState Key :=
  (state.expiredKeys limits now).foldl removeEntry state

def clearPending : PendingState Key :=
  ⟨∅, state.reservedBytes - Ledger.total (fun _ entry => entry.reservedBytes) state.entries⟩

/-- The `Drop` of a `ReplayReservation`. -/
def dropReservation (batch : ReplayBatch) : PendingState Key :=
  { state with reservedBytes := state.reservedBytes - batch.bytes }

end PendingState

/-! ## `ingest` -/

section Ingest

variable [DecidableEq Key] (limits : InitialReassemblyLimits) (initial : InspectedInitial Key)

def PendingInitial.absorb (entry : PendingInitial) (frame : CryptoFrame) (hdata : frame.data ≠ []) (addsDatagram : Bool)
    (datagram : Bytes) : PendingInitial :=
  { entry with
    crypto := entry.crypto.insert frame hdata
    contributingFragments := saturatingAdd entry.contributingFragments 1
    rawDatagramBytes :=
      if addsDatagram then saturatingAdd entry.rawDatagramBytes datagram.length else entry.rawDatagramBytes
    datagrams := if addsDatagram then entry.datagrams ++ [datagram] else entry.datagrams }

/-- Whether a frame that adds some bytes goes over a limit. -/
def limitsRejected (entry : PendingInitial) (reserved newBytes : Nat) (addsDatagram : Bool) : Bool :=
  let rawAddition := if addsDatagram then initial.datagram.length else 0
  limits.maxFragmentsPerSession ≤ entry.contributingFragments ||
    (addsDatagram &&
      (limits.maxDatagramsPerSession ≤ entry.datagrams.length ||
        limits.maxBufferedDatagramBytesPerSession < saturatingAdd entry.rawDatagramBytes initial.datagram.length)) ||
    limits.maxTotalBufferedBytes < saturatingAdd (saturatingAdd reserved newBytes) rawAddition

/-- One frame, where a part of the datagram has been added to the entry or not. -/
def ingestFrame (progress : PendingState Key × Bool) (frame : CryptoFrame) :
    Except (ReassemblyReject × PendingState Key) (PendingState Key × Bool) :=
  let (state, contributed) := progress
  if hdata : frame.data = [] then .ok (state, contributed)
  else if 2 ^ 64 ≤ frame.stop then .error (.limit, state.removeEntry initial.key)
  else if limits.clientHelloMaxBytes < frame.stop then .error (.limit, state.removeEntry initial.key)
  else
    match state.entries.lookup initial.key with
    | none => .error (.limit, state)
    | some entry =>
      let (covered, conflict) := compare frame 0 entry.crypto.runs
      let newBytes := frame.data.length - covered
      if conflict then .error (.overlapConflict, state.removeEntry initial.key)
      else if newBytes == 0 then .ok (state, contributed)
      else if limitsRejected limits initial entry state.reservedBytes newBytes !contributed then
        .error (.limit, state.removeEntry initial.key)
      else
        let reserved := saturatingAdd state.reservedBytes newBytes
        .ok (⟨state.entries.insert initial.key (entry.absorb frame hdata (!contributed) initial.datagram),
          if contributed then reserved else saturatingAdd reserved initial.datagram.length⟩, true)

variable (state : PendingState Key)

def ingestFrames : Except (ReassemblyReject × PendingState Key) (PendingState Key × Bool) :=
  initial.frames.foldlM (ingestFrame limits initial) (state, false)

def pendingOrCapacity (candidateAtCapacity : Bool) : PendingState Key × Locked :=
  if candidateAtCapacity then (state.removeEntry initial.key, .rejected .capacity) else (state, .pending)

def declaredLength (contiguous : Bytes) : Nat := 4 + beValue ((contiguous.drop 1).take 3)

/-- The part of `ingest` behind the frames. -/
def settle (candidateAtCapacity : Bool) : PendingState Key × Locked :=
  match state.entries.lookup initial.key with
  | none => (state, .rejected .limit)
  | some entry =>
    let received := contiguous entry.crypto.runs
    if received.length < 4 then pendingOrCapacity initial state candidateAtCapacity
    else if received.head? != some 0x01 then (state.removeEntry initial.key, .rejected .parseFailure)
    else if limits.clientHelloMaxBytes < declaredLength received then
      (state.removeEntry initial.key, .rejected .limit)
    else if received.length < declaredLength received then pendingOrCapacity initial state candidateAtCapacity
    else
      ({ state with entries := state.entries.erase initial.key },
        .assembled (received.take (declaredLength received)) entry)

def withEntry (now : Nat) : PendingState Key :=
  if (state.entries.lookup initial.key).isSome then state
  else { state with entries := state.entries.insert initial.key (PendingInitial.new now) }

/-- `ingest` on a state without expired entries. -/
def ingestLive (now : Nat) : PendingState Key × Locked :=
  if limits.maxFragmentsPerSession < initial.frames.length then
    (state.removeEntry initial.key, .rejected .limit)
  else
    let pendingAtCapacity := limits.maxPendingSessions ≤ state.entries.entries.length
    let candidateAtCapacity := (state.entries.lookup initial.key).isNone && pendingAtCapacity
    match ingestFrames limits initial (withEntry initial state now) with
    | .error (reason, state) => (state, .rejected reason)
    | .ok (state, _) => settle limits initial state candidateAtCapacity

def ingest (now : Nat) : PendingState Key × Locked :=
  if initial.key ∈ state.expiredKeys limits now then (state.expire limits now, .rejected .expired)
  else ingestLive limits initial (state.expire limits now) now

/-- The result of `ingest`. -/
def answer : Locked → ReassemblyResult
  | .pending => .pending
  | .rejected reason => .rejected reason
  | .assembled clientHello entry =>
    match rawClientHelloSni clientHello with
    | .ok sni => .completed ⟨sni, initial.clientScid, ReplayBatch.of entry⟩
    | .error _ => .rejected .parseFailure

end Ingest

/-! ## Runs -/

/-- The shared state, and the entries whose replay batches are alive. -/
structure World (Key : Type) where
  state : PendingState Key
  live : List PendingInitial

inductive Call (Key : Type)
  | ingest (initial : InspectedInitial Key) (now : Nat)
  | expire (now : Nat)
  | clearPending
  | dropReplay (index : Nat)

namespace World

def empty : World Key := ⟨.empty, []⟩

variable [DecidableEq Key] (limits : InitialReassemblyLimits)

def step (world : World Key) : Call Key → World Key
  | .ingest initial now =>
    match SniForward.ingest limits initial world.state now with
    | (state, .assembled _ entry) => ⟨state, world.live ++ [entry]⟩
    | (state, _) => ⟨state, world.live⟩
  | .expire now => { world with state := world.state.expire limits now }
  | .clearPending => { world with state := world.state.clearPending }
  | .dropReplay index =>
    match world.live[index]? with
    | none => world
    | some entry => ⟨world.state.dropReservation (.of entry), world.live.eraseIdx index⟩

/-- The result of a call of `ingest`. -/
def result (world : World Key) (initial : InspectedInitial Key) (now : Nat) : ReassemblyResult :=
  answer initial (SniForward.ingest limits initial world.state now).2

def run (world : World Key) (calls : List (Call Key)) : World Key := Transition.run (step limits) world calls

end World

/-! ## What one frame can do -/

/-- The outcomes of `ingestFrame` on a state with an entry for the connection. -/
inductive FrameStep [DecidableEq Key] (limits : InitialReassemblyLimits) (initial : InspectedInitial Key)
    (state : PendingState Key) (contributed : Bool) (entry : PendingInitial) (frame : CryptoFrame) :
    Except (ReassemblyReject × PendingState Key) (PendingState Key × Bool) → Prop
  | empty (hempty : frame.data = []) : FrameStep limits initial state contributed entry frame (.ok (state, contributed))
  | known (hagrees : (compare frame 0 entry.crypto.runs).2 = false)
      (hcovered : frame.data.length ≤ (entry.crypto.runs.map (overlap frame)).sum) :
      FrameStep limits initial state contributed entry frame (.ok (state, contributed))
  | limit : FrameStep limits initial state contributed entry frame (.error (.limit, state.removeEntry initial.key))
  | conflict (hconflict : (compare frame 0 entry.crypto.runs).2 = true) :
      FrameStep limits initial state contributed entry frame (.error (.overlapConflict, state.removeEntry initial.key))
  | merged {newBytes : Nat} (hdata : frame.data ≠ []) (hagrees : (compare frame 0 entry.crypto.runs).2 = false)
      (hnew : newBytes = frame.data.length - (entry.crypto.runs.map (overlap frame)).sum)
      (hwithin : limitsRejected limits initial entry state.reservedBytes newBytes (!contributed) = false) :
      FrameStep limits initial state contributed entry frame (.ok
        (⟨state.entries.insert initial.key (entry.absorb frame hdata (!contributed) initial.datagram),
          if contributed then saturatingAdd state.reservedBytes newBytes
          else saturatingAdd (saturatingAdd state.reservedBytes newBytes) initial.datagram.length⟩, true))

theorem ingestFrame_step [DecidableEq Key] (limits : InitialReassemblyLimits) {initial : InspectedInitial Key}
    {state : PendingState Key} (contributed : Bool) {entry : PendingInitial} (frame : CryptoFrame)
    (he : state.entries.lookup initial.key = some entry) :
    FrameStep limits initial state contributed entry frame (ingestFrame limits initial (state, contributed) frame) := by
  unfold ingestFrame
  simp only [he]
  split
  · next hem => exact .empty hem
  next hd =>
  split
  · exact .limit
  split
  · exact .limit
  split
  · next hcn => exact .conflict hcn
  next ha =>
  rw [Bool.not_eq_true] at ha
  have hc := compare_covered ha
  rw [Nat.zero_add] at hc
  rw [hc]
  split
  · next hz =>
    have hle : frame.data.length - (entry.crypto.runs.map (overlap frame)).sum = 0 := by simpa using hz
    exact .known ha (Nat.le_of_sub_eq_zero hle)
  split
  · exact .limit
  · next hw =>
    exact .merged hd ha rfl (Bool.eq_false_iff.2 hw)

end SniForward
