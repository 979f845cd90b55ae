import OxiBelt.Audit.Integrity
import OxiBelt.RustStd.Fs

/-!
# The local spool of audit events (`admin_audit/spool.rs`)

Every event is one file, named by its sequence number and id; a second file holds the head of the
integrity chain.  Both are written to a temporary name, synced and renamed.  An append first decides
(`decideAppend`) and then makes its calls (`appendCalls`); an acknowledgement removes the oldest file;
opening removes temporary files and cross-checks the events with the head (`recoverState`).

The event's JSON form is a parameter (`SpoolCodec`).  Entries of the directory are regular files of
the spool's owner.
-/

namespace Audit

open RustStd ByteString

def headFile : Str := "chain-head.json"

def lockFile : Str := ".writer.lock"

def recordExtension : Str := "audit"

def temporaryStart : Str := ".tmp-"

/-- `AdminAuditEvent`, with the fields that the spool does not look at as its body. -/
structure AdminAuditEvent (Body : Type) where
  (eventId timestamp : Str)
  body : Body
  integrity : Option IntegrityEnvelope
  deriving DecidableEq

structure ChainHead where
  chainId : Str
  nextSequence : UInt64
  previousHash : Str
  deriving DecidableEq

structure ReplayCursor where
  chainId : Str
  nextSequence : UInt64
  previousHash : Str
  deriving DecidableEq

/-- The JSON forms: both round-trip, and neither a head nor an empty file reads as an event. -/
structure SpoolCodec (Body P : Type) where
  unsignedEventValue : AdminAuditEvent Body → P
  encodeEvent : AdminAuditEvent Body → Bytes
  decodeEvent : Bytes → Option (AdminAuditEvent Body)
  encodeHead : ChainHead → Bytes
  decodeHead : Bytes → Option ChainHead
  unsigned_integrity : ∀ event integrity,
    unsignedEventValue { event with integrity } = unsignedEventValue event
  decode_encode_event : ∀ event, decodeEvent (encodeEvent event) = some event
  decode_encode_head : ∀ head, decodeHead (encodeHead head) = some head
  decodeEvent_head : ∀ head, decodeEvent (encodeHead head) = none
  decodeEvent_empty : decodeEvent [] = none

structure AdminAuditSpoolConfig where
  directory : Str
  (maxBytes maxEvents maxEventBytes : Nat)

/-- What stays the same over the life of a spool directory. -/
structure SpoolInner (Body P : Type) where
  config : AdminAuditSpoolConfig
  hmacKey : Option AuditHmacKey
  crypto : Crypto
  canonicalJsonBytes : P → Result Bytes
  codec : SpoolCodec Body P

structure SpoolState where
  chain : IntegrityChain
  replayCursor : ReplayCursor
  (bytes events reservedBytes reservedEvents : Nat)
  poisoned : Bool

/-- `saturating_add` of `u64` and of a 64-bit `usize`. -/
def saturatingAdd (a b : Nat) : Nat := min (a + b) (2 ^ 64 - 1)

/-- `u64::saturating_add(1)`. -/
def saturatingSucc (n : UInt64) : UInt64 := (checkedSucc n).getD (UInt64.ofNat (2 ^ 64 - 1))

/-- `Path`, as the spool sees one: a directory and a name in it. -/
structure Path where
  (parent name : Str)
  deriving DecidableEq

section Model

variable {Body P : Type} (inner : SpoolInner Body P)

variable (chain : IntegrityChain) (os : FsCall → Option Str) (state : SpoolState) (dir : Directory) (name : Str)

def SpoolInner.display : Str := inner.config.directory ++ '/' :: name

-- irreducible: comparing two names must not spell out their twenty digits
@[irreducible] def finalName (sequence : UInt64) (eventId : Str) : Str :=
  paddedDecimal 20 sequence.toNat ++ ('-' :: (eventId ++ ('.' :: recordExtension)))

def temporaryName (eventId : Str) : Str := temporaryStart ++ eventId

def temporaryHead : Str := ".tmp-chain-head"

def isTemporary : Bool := temporaryStart.isPrefixOf name

def IntegrityChain.head : ChainHead where
  chainId := chain.chainId
  nextSequence := chain.nextSequence
  previousHash := hexEncode chain.previousHash.val

def IntegrityChain.cursor : ReplayCursor where
  chainId := chain.chainId
  nextSequence := chain.nextSequence
  previousHash := hexEncode chain.previousHash.val

/-! ## Append -/

inductive AppendCapacity where
  | ordinary
  | reserveTerminal
  | consumeReservation
  deriving DecidableEq

variable (event : AdminAuditEvent Body) (capacity : AppendCapacity) (sealedChain : IntegrityChain)
  (last : Option (Str × UInt64 × Str)) (fresh : ByteArr 16)

def capacityAvailable (encodedLen : Nat) : Bool :=
  match capacity with
  | .ordinary =>
    saturatingAdd state.events state.reservedEvents < inner.config.maxEvents &&
      saturatingAdd (saturatingAdd state.bytes state.reservedBytes) encodedLen ≤ inner.config.maxBytes
  | .reserveTerminal =>
    saturatingAdd (saturatingAdd state.events state.reservedEvents) 2 ≤ inner.config.maxEvents &&
      saturatingAdd (saturatingAdd (saturatingAdd state.bytes state.reservedBytes) encodedLen)
        inner.config.maxEventBytes ≤ inner.config.maxBytes
  | .consumeReservation =>
    0 < state.reservedEvents && inner.config.maxEventBytes ≤ state.reservedBytes

/-- An append that has passed every check, before its first call. -/
structure AppendPlan (Body : Type) where
  event : AdminAuditEvent Body
  envelope : IntegrityEnvelope
  encoded : Bytes
  chain : IntegrityChain

inductive AppendDecision (Body : Type) where
  | refused (error : Str) (state : SpoolState)
  | commit (plan : AppendPlan Body)

/-- `IntegrityChain::restore` from the values saved before the seal. -/
def restoreChain : Result IntegrityChain :=
  IntegrityChain.restore state.chain.chainId state.chain.nextSequence
    (hexEncode state.chain.previousHash.val) inner.hmacKey

/-- The state after a failure that puts the chain back; if that fails too, the sealed chain stays. -/
def putBack (error : Str) : Str × SpoolState :=
  match restoreChain inner state with
  | .ok chain => (error, { state with chain })
  | .error error => (error, { state with chain := sealedChain })

def refuse (error : String) : AppendDecision Body :=
  let (error, state) := putBack inner state sealedChain error.toList
  .refused error state

/-- `append_with_capacity_sync`, up to its first call. -/
def decideAppend : AppendDecision Body :=
  if state.poisoned then .refused "Admin audit spool requires recovery" state
  else if event.eventId.isEmpty || event.timestamp.isEmpty then
    .refused "Admin audit event metadata is unavailable" state
  else
    let payload := inner.codec.unsignedEventValue { event with integrity := none }
    match state.chain.seal inner.crypto inner.canonicalJsonBytes payload with
    | .error error => .refused error state
    | .ok (envelope, chain) =>
      let event := { event with integrity := some envelope }
      let encoded := inner.codec.encodeEvent event
      if inner.config.maxEventBytes < encoded.length then
        refuse inner state chain "Admin audit event exceeds the configured spool event limit"
      else if capacityAvailable inner state capacity encoded.length then
        .commit { event, envelope, encoded, chain }
      else refuse inner state chain "Admin audit spool is full"

def AppendPlan.finalName (plan : AppendPlan Body) : Str :=
  Audit.finalName plan.envelope.sequence plan.event.eventId

def AppendPlan.temporaryName (plan : AppendPlan Body) : Str :=
  Audit.temporaryName plan.event.eventId

def createContext : Option Str :=
  some ("failed to create Admin audit spool file " ++ inner.display name)

/-- `write_chain_head`. -/
def headCalls : List (FsCall × Option Str) :=
  [(.createNew temporaryHead, createContext inner temporaryHead),
    (.writeAll temporaryHead (inner.codec.encodeHead chain.head), none),
    (.syncFile temporaryHead, none),
    (.rename temporaryHead headFile, none),
    (.syncDirectory, none)]

def appendCalls (plan : AppendPlan Body) : List (FsCall × Option Str) :=
  [(.createNew plan.temporaryName, createContext inner plan.temporaryName),
    (.writeAll plan.temporaryName plan.encoded, some "failed to write Admin audit spool event"),
    (.syncFile plan.temporaryName, some "failed to fsync Admin audit spool event"),
    (.rename plan.temporaryName plan.finalName, some "failed to commit Admin audit spool event"),
    (.syncDirectory, some "failed to fsync Admin audit spool directory")] ++
    headCalls inner plan.chain

def recordAppend (plan : AppendPlan Body) (capacity : AppendCapacity) : SpoolState :=
  let state := { state with
    chain := plan.chain
    events := saturatingAdd state.events 1
    bytes := saturatingAdd state.bytes plan.encoded.length }
  match capacity with
  | .ordinary => state
  | .reserveTerminal => { state with
      reservedEvents := saturatingAdd state.reservedEvents 1
      reservedBytes := saturatingAdd state.reservedBytes inner.config.maxEventBytes }
  | .consumeReservation => { state with
      reservedEvents := state.reservedEvents - 1
      reservedBytes := state.reservedBytes - inner.config.maxEventBytes }

/-- `append_with_capacity_sync`: the event as sealed, the state and the directory after it. -/
def appendWithCapacity : Result (AdminAuditEvent Body) × SpoolState × Directory :=
  match decideAppend inner state event capacity with
  | .refused error state => (.error error, state, dir)
  | .commit plan =>
    match runCalls os dir (appendCalls inner plan) with
    | (dir, none) => (.ok plan.event, recordAppend inner state plan capacity, dir)
    | (dir, some error) =>
      let dir := (runCalls os dir [(.removeFile plan.temporaryName, none)]).1
      if (dir.lookup plan.finalName).isSome then
        (.error error, { state with chain := plan.chain, poisoned := true }, dir)
      else
        let (error, state) := putBack inner state plan.chain error
        (.error error, state, dir)

/-- `release_terminal_reservation_sync`. -/
def releaseTerminalReservation : SpoolState :=
  { state with
    reservedEvents := state.reservedEvents - 1
    reservedBytes := state.reservedBytes - inner.config.maxEventBytes }

/-! ## Reading and acknowledging -/

/-- `read_and_verify_record`: the event alone, checked against the place that it names itself. -/
def readAndVerifyRecord : Result (AdminAuditEvent Body) := do
  let encoded ← context (dir.lookup name)
    ("failed to open Admin audit spool path " ++ inner.display name)
  let event ← context (inner.codec.decodeEvent encoded)
    ("invalid Admin audit spool event " ++ inner.display name)
  let envelope ← context event.integrity
    "Admin audit spool event is missing integrity metadata"
  let payload := inner.codec.unsignedEventValue event
  let verifier ← IntegrityVerifier.restore envelope.chainId envelope.sequence envelope.previousHash
    inner.hmacKey
  let _ ← verifier.verifyAndAdvance inner.crypto inner.canonicalJsonBytes (payload, envelope)
  return event

def verifyReplayCursor (cursor : ReplayCursor) (event : AdminAuditEvent Body) : Result Unit := do
  let envelope ← context event.integrity
    "Admin audit spool event is missing integrity metadata"
  ensure (envelope.chainId == cursor.chainId && envelope.sequence == cursor.nextSequence &&
      envelope.previousHash == cursor.previousHash)
    "Admin audit spool replay order or chain continuity changed"

def extension : Option Str :=
  match rsplitOnce '.' name with
  | some (stem, ext) => if stem.isEmpty then none else some ext
  | none => none

def isRecordEntry : Bool := !(name == headFile || name == lockFile || isTemporary name)

/-- `record_paths`: the names of the event files, sorted. -/
def recordPaths : Result (List Str) := do
  let names := dir.keys.filter isRecordEntry
  ensure (names.all fun name => extension name == some recordExtension)
    "Admin audit spool contains an unexpected file"
  return sortNames names

/-- `next_entry_sync`. -/
def nextEntry : Result (Option (Path × AdminAuditEvent Body)) := do
  let paths ← recordPaths dir
  ensure (paths.length == state.events) "Admin audit spool inventory changed outside the writer"
  match paths with
  | [] => return none
  | name :: _ => do
    let event ← readAndVerifyRecord inner dir name
    verifyReplayCursor state.replayCursor event
    return some ({ parent := inner.config.directory, name }, event)

/-- `acknowledge_sync`, up to its first call: the envelope and the size of the file to remove. -/
def decideAcknowledge (path : Path) : Result (IntegrityEnvelope × Nat) := do
  ensure (path.parent == inner.config.directory)
    "Admin audit spool acknowledgement escaped its directory"
  let event ← readAndVerifyRecord inner dir path.name
  verifyReplayCursor state.replayCursor event
  let envelope ← context event.integrity
    "Admin audit spool event is missing integrity metadata"
  let content ← context (dir.lookup path.name)
    ("failed to inspect Admin audit spool event " ++ inner.display path.name)
  return (envelope, content.length)

def acknowledgeCalls (path : Path) : List (FsCall × Option Str) :=
  [(.removeFile path.name,
      some ("failed to remove Admin audit spool event " ++ inner.display path.name)),
    (.syncDirectory, some "failed to fsync Admin audit spool acknowledgement")]

/-- `acknowledge_sync`. -/
def acknowledge (path : Path) : Result Unit × SpoolState × Directory :=
  match decideAcknowledge inner state dir path with
  | .error error => (.error error, state, dir)
  | .ok (envelope, size) =>
    match runCalls os dir (acknowledgeCalls inner path) with
    | (dir, some error) => (.error error, state, dir)
    | (dir, none) =>
      let state := { state with events := state.events - 1, bytes := state.bytes - size }
      match checkedSucc envelope.sequence with
      | none => (.error "Admin audit replay sequence is exhausted", state, dir)
      | some nextSequence =>
        (.ok (), { state with
          replayCursor := { state.replayCursor with
            nextSequence, previousHash := envelope.eventHash } }, dir)

/-! ## Opening -/

/-- What the loop of `recover_state` has gathered. -/
structure RecoveryScan where
  bytes : Nat
  first : Option ReplayCursor
  last : Option (Str × UInt64 × Str)

/-- The checks between two neighbouring events. -/
def followsLast (envelope : IntegrityEnvelope) : Result Unit :=
  match last with
  | none => return ()
  | some (chainId, sequence, eventHash) => do
    ensure (envelope.chainId == chainId) "Admin audit spool contains multiple chain IDs"
    ensure (envelope.sequence == saturatingSucc sequence) "Admin audit spool contains a sequence gap"
    ensure (envelope.previousHash == eventHash) "Admin audit spool chain is discontinuous"

/-- One round of the loop of `recover_state`. -/
def scanRecord (scan : RecoveryScan) (name : Str) : Result RecoveryScan := do
  let content ← context (dir.lookup name) notFound
  let event ← readAndVerifyRecord inner dir name
  let envelope ← context event.integrity "Admin audit spool event is not sealed"
  let cursor : ReplayCursor := {
    chainId := envelope.chainId
    nextSequence := envelope.sequence
    previousHash := envelope.previousHash }
  followsLast scan.last envelope
  return {
    bytes := saturatingAdd scan.bytes content.length
    first := some (scan.first.getD cursor)
    last := some (envelope.chainId, envelope.sequence, envelope.eventHash) }

def matchesHead (head : ChainHead) : Result Unit :=
  match last with
  | none => return ()
  | some (chainId, sequence, eventHash) => do
    ensure (chainId == head.chainId) "Admin audit chain head ID does not match spooled events"
    ensure (saturatingSucc sequence == head.nextSequence)
      "Admin audit spool tail does not match the chain head"
    ensure (eventHash == head.previousHash) "Admin audit chain head hash does not match"

/-- `IntegrityChain::new`, with the chain id that the random generator gives. -/
def IntegrityChain.new (hmacKey : Option AuditHmacKey) (fresh : ByteArr 16) : IntegrityChain where
  chainId := hexEncode fresh.val
  nextSequence := 0
  previousHash := genesisHash
  hmacKey := hmacKey

def readHead : Result (Option ChainHead) :=
  match dir.lookup headFile with
  | none => .ok none
  | some encoded =>
    match inner.codec.decodeHead encoded with
    | some head => .ok (some head)
    | none => .error "invalid Admin audit chain head"

def recoverChain (head : Option ChainHead) (paths : List Str)
    (last : Option (Str × UInt64 × Str)) : Result IntegrityChain :=
  match head with
  | some head => do
    matchesHead last head
    IntegrityChain.restore head.chainId head.nextSequence head.previousHash inner.hmacKey
  | none =>
    if paths.isEmpty then .ok (IntegrityChain.new inner.hmacKey fresh)
    else .error "Admin audit spool contains events without a chain head"

/-- `recover_state`. -/
def recoverState : Result (IntegrityChain × ReplayCursor × Nat × Nat) := do
  let head ← readHead inner dir
  let paths ← recordPaths dir
  let scan ← Chain.accept (scanRecord inner dir) { bytes := 0, first := none, last := none } paths
  let chain ← recoverChain inner fresh head paths scan.last
  return (chain, scan.first.getD chain.cursor, scan.bytes, paths.length)

/-- The calls of opening: the writer's lock, and `remove_uncommitted_temporary_files`. -/
def openCalls : List (FsCall × Option Str) :=
  (.create lockFile, some ("failed to open Admin audit spool lock " ++ inner.display lockFile)) ::
    ((dir.keys.filter isTemporary).map fun name => (.removeFile name, none)) ++ [(.syncDirectory, none)]

/-- `AdminAuditSpool::new`, by a writer that gets the lock. -/
def openSpool : Result SpoolState × Directory :=
  match runCalls os dir (openCalls inner dir) with
  | (dir, some error) => (.error error, dir)
  | (dir, none) =>
    match recoverState inner dir fresh with
    | .error error => (.error error, dir)
    | .ok (chain, replayCursor, bytes, events) =>
      (.ok { chain, replayCursor, bytes, events, reservedBytes := 0, reservedEvents := 0,
             poisoned := false }, dir)

end Model

end Audit
