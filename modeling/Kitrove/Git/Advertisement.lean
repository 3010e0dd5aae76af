import Kitrove.Git.Packets
import Mathlib.Data.Finset.Insert

/-! Reading the references that a Git remote advertises. -/

namespace Kitrove.Git

open Slices

def fixedRef : Bytes := ascii "refs/heads/kitrove-sync-v1"

def absentOid : Bytes := List.replicate 40 0x30

def peeledSuffix : Bytes := ascii "^\x7b\x7d"

/-- The name of the record of a remote without references. -/
def placeholderName : Bytes := ascii "capabilities" ++ peeledSuffix

structure GitBudget where
  remainingPacketLines : Nat
  remainingAdvertisedRefs : Nat
  deriving DecidableEq

structure Advertisement (ObjectId : Type) where
  selected : Option ObjectId
  capabilities : Finset Bytes
  deriving DecidableEq

inductive AdvertisementPrefix where
  | httpService (service : Bytes)
  | ssh

/-- What the loop over the packets knows. -/
structure AdvertisementState (ObjectId : Type) where
  first : Bool
  names : Finset Bytes
  selected : Option ObjectId
  capabilities : Finset Bytes
  remainingAdvertisedRefs : Nat

section Records

variable {ObjectId : Type} (fromHex : Bytes → Option ObjectId)

def printable (byte : UInt8) : Bool := 0x21 ≤ byte && byte ≤ 0x7E

/-- The text of a record, and the capabilities behind the first one. -/
def splitRecord (first : Bool) (data : Bytes) : Checked BackendError (Bytes × Option Bytes) :=
  if first then
    pure (data.takeWhile (· ≠ 0), some ((data.dropWhile (· ≠ 0)).drop 1))
  else if data.contains 0 then throw (.refused invalidProtocol)
  else pure (data, none)

def takeCapability (capabilities : Finset Bytes) (capability : Bytes) :
    Checked BackendError (Finset Bytes) :=
  if capability.isEmpty || !capability.all printable || capability ∈ capabilities then
    throw (.refused invalidProtocol)
  else pure (insert capability capabilities)

def takeCapabilities (capabilities : Finset Bytes) : Option Bytes → Checked BackendError (Finset Bytes)
  | none => pure capabilities
  | some raw => (splitOn 0x20 raw).foldlM takeCapability capabilities

/-- The head that the records so far select, and one more. -/
def selectHead (selected : Option ObjectId) (oid name : Bytes) :
    Checked BackendError (Option ObjectId) := do
  if oid = absentOid ∧ name = placeholderName then pure selected
  else if peeledSuffix.isSuffixOf name then throw (.refused invalidProtocol)
  else do
    let id ← okOr (fromHex oid) invalidProtocol
    if name ≠ fixedRef then pure selected
    else if selected.isSome then throw (.refused invalidProtocol)
    else pure (some id)

def takeRecord (state : AdvertisementState ObjectId) (record : Bytes) :
    Checked BackendError (AdvertisementState ObjectId) := do
  let separator ← okOr (record.findIdx? (· == 0x20)) invalidProtocol
  let oid ← Slices.slice record 0 separator
  let nameWithSeparator ← Slices.slice record separator record.length
  let name ← Slices.slice nameWithSeparator 1 nameWithSeparator.length
  if oid.length ≠ 40 || name.isEmpty || !name.all printable || name ∈ state.names then
    throw (.refused invalidProtocol)
  else do
    let selected ← selectHead fromHex state.selected oid name
    pure { state with names := insert name state.names, selected }

def takeData (state : AdvertisementState ObjectId) (data : Bytes) :
    Checked BackendError (AdvertisementState ObjectId) := do
  let remaining ← okOr (checkedSub state.remainingAdvertisedRefs 1) limitExceeded
  let (record, supplied) ← splitRecord state.first ((stripSuffix (ascii "\n") data).getD data)
  let capabilities ← takeCapabilities state.capabilities supplied
  takeRecord fromHex { state with first := false, capabilities, remainingAdvertisedRefs := remaining }
    record

end Records

section Parsing

variable {ObjectId : Type} (fromHex : Bytes → Option ObjectId)

def expectPacket (input : Bytes) (cursor : PacketCursor) (expected : PacketLine) :
    Checked BackendError PacketCursor := do
  let (packet, cursor) ← cursor.next input
  if packet ≠ some expected then throw (.refused invalidProtocol) else pure cursor

def expectPrefix (input : Bytes) (cursor : PacketCursor) :
    AdvertisementPrefix → Checked BackendError PacketCursor
  | .httpService service => do
    let cursor ← expectPacket input cursor (.data (ascii "# service=" ++ service ++ ascii "\n"))
    expectPacket input cursor .flush
  | .ssh => pure cursor

/-- The loop over the packets up to a flush. -/
def advertisementLoop (input : Bytes) :
    Nat → PacketCursor → AdvertisementState ObjectId →
      Checked BackendError (PacketCursor × AdvertisementState ObjectId)
  | 0, _, _ => throw .outOfFuel
  | fuel + 1, cursor, state => do
    match ← cursor.next input with
    | (none, _) => throw (.refused invalidProtocol)
    | (some .flush, cursor) => pure (cursor, state)
    | (some (.data data), cursor) =>
      let state ← takeData fromHex state data
      advertisementLoop input fuel cursor state
    | (some .delimiter, _) => throw (.refused invalidProtocol)
    | (some .responseEnd, _) => throw (.refused invalidProtocol)

def objectFormatPrefix : Bytes := ascii "object-format="

/-- A capability that announces another object format than the one supported. -/
def foreignFormat (capability : Bytes) : Bool :=
  objectFormatPrefix.isPrefixOf capability && capability != ascii "object-format=sha1"

/-- The end of the advertisement: nothing behind the flush, and the supported object format. -/
def finishAdvertisement (input : Bytes) (cursor : PacketCursor) (state : AdvertisementState ObjectId) :
    Checked BackendError (Advertisement ObjectId × GitBudget) := do
  let (packet, cursor) ← cursor.next input
  if packet.isSome then throw (.refused invalidProtocol)
  else if ∃ capability ∈ state.capabilities, foreignFormat capability = true then
    throw (.refused invalidProtocol)
  else
    pure (⟨state.selected, state.capabilities⟩,
      ⟨cursor.remainingRecords, state.remainingAdvertisedRefs⟩)

def parsePrefixedAdvertisement (input : Bytes) (leading : AdvertisementPrefix)
    (maxAdvertisementBytes : UInt64) (budget : GitBudget) :
    Checked BackendError (Advertisement ObjectId × GitBudget) :=
  if input.length > maxAdvertisementBytes.toNat then throw (.refused limitExceeded)
  else do
    let cursor ← expectPrefix input ⟨0, budget.remainingPacketLines⟩ leading
    let (cursor, state) ← advertisementLoop fromHex input (input.length + 1) cursor
      ⟨true, ∅, none, ∅, budget.remainingAdvertisedRefs⟩
    finishAdvertisement input cursor state

end Parsing

end Kitrove.Git
