import RSource.Bytes.Reader
import RSource.ContentHash
import RSource.Node.Kind
import RSource.Stub.Basic

/-! The stored form of stubs.  It begins with a version and a hash of what follows, which is a list
of records, one for every stub.  A record has a place for every field, and a field that is missing
makes the record unusable.  Reading accepts only records that could have been written: parents stand
before their children, parameters under assignments, and spans do not end before they start. -/

namespace RSource

/-- What a stub is stored as. -/
structure StubRecord where
  /-- The tag of the node kind. -/
  kind : Option Nat
  name : Option String
  /-- The properties of an assignment, a bit for each. -/
  flags : Option Nat
  /-- The place of the parent; a stub without parent has the field, but nothing in it. -/
  parent : Option (Option StubId)
  start : Option Nat
  stop : Option Nat
  deriving DecidableEq, Repr, Inhabited

/-- What is wrong with a record. -/
inductive RecordError where
  | missingKind
  | unknownKind (tag : UnknownTag)
  | missingName
  | missingParent
  | laterParent
  | missingStart
  | missingStop
  | invertedSpan
  | missingFlags
  | unknownFlags (bits : Nat)
  | strayParameter
  | noStub (kind : NodeKind)
  deriving DecidableEq, Repr

def RecordError.message : RecordError → String
  | .missingKind => "missing kind"
  | .unknownKind tag => tag.message
  | .missingName => "missing name"
  | .missingParent => "missing parent"
  | .laterParent => "parent does not precede child"
  | .missingStart => "missing span start"
  | .missingStop => "missing span end"
  | .invertedSpan => "inverted span"
  | .missingFlags => "missing assignment flags"
  | .unknownFlags bits => s!"unknown assignment flags 0x{Text.hexPadded 2 bits}"
  | .strayParameter => "parameter outside an assignment"
  | .noStub kind => s!"{kind.describe} has no stub"

namespace StubRecord

/-- The flags of an assignment as bits. -/
def flagBits (isFunction isTopLevel isRight : Bool) : Nat :=
  isFunction.toNat + 2 * isTopLevel.toNat + 4 * isRight.toNat

/-- The record of a stub. -/
def ofStub (s : Stub) : StubRecord :=
  let record (kind : NodeKind) (flags : Option Nat) : StubRecord :=
    ⟨some kind.tag, some s.name, flags, some s.parent, some s.span.start, some s.span.stop⟩
  match s.declaration with
  | .assignment _ isFunction isTopLevel isRight =>
    record .assignmentStatement (some (flagBits isFunction isTopLevel isRight))
  | .parameter _ => record .parameter none

def write (r : StubRecord) : Bytes :=
  Bytes.ofOption (Bytes.ofNat 2) r.kind ++ Bytes.ofOption Bytes.ofText r.name ++
    Bytes.ofOption (Bytes.ofNat 1) r.flags ++
    Bytes.ofOption (Bytes.ofOption (Bytes.ofNat 4)) r.parent ++
    Bytes.ofOption (Bytes.ofNat 4) r.start ++ Bytes.ofOption (Bytes.ofNat 4) r.stop

def read : Reader StubRecord := do
  let kind ← Reader.option (Reader.number 2)
  let name ← Reader.option Reader.text
  let flags ← Reader.option (Reader.number 1)
  let parent ← Reader.option (Reader.option (Reader.number 4))
  let start ← Reader.option (Reader.number 4)
  let stop ← Reader.option (Reader.number 4)
  return ⟨kind, name, flags, parent, start, stop⟩

/-- A field that must be there. -/
def require {α : Type} (field : Option α) (error : RecordError) : Except RecordError α :=
  match field with
  | some a => .ok a
  | none => .error error

/-- The declaration of a record of some kind. -/
def declaration (r : StubRecord) (before : Array Stub) (kind : NodeKind) (name : String)
    (parent : Option StubId) : Except RecordError Declaration :=
  match kind with
  | .assignmentStatement => do
    let bits ← require r.flags .missingFlags
    if bits < 8 then return .assignment name (bits.testBit 0) (bits.testBit 1) (bits.testBit 2)
    else throw (.unknownFlags bits)
  | .parameter =>
    if (parent.bind fun p => before[p]?).any (·.declaration.isAssignment) then .ok (.parameter name)
    else .error .strayParameter
  | kind => .error (.noStub kind)

/-- The stub of a record that comes after some stubs. -/
def toStub (r : StubRecord) (before : Array Stub) : Except RecordError Stub := do
  let tag ← require r.kind .missingKind
  let kind ← require (NodeKind.ofTag? tag) (.unknownKind ⟨tag⟩)
  let name ← require r.name .missingName
  let parent ← require r.parent .missingParent
  if parent.any (before.size ≤ ·) then throw .laterParent
  let start ← require r.start .missingStart
  let stop ← require r.stop .missingStop
  if stop < start then throw .invertedSpan
  return ⟨← r.declaration before kind name parent, parent, ⟨start, stop⟩⟩

end StubRecord

/-- Why bytes are no stored stubs. -/
inductive StoredError where
  | noHeader
  | version (found : Nat)
  | hash
  | payload (cause : ReadError)
  | record (index : Nat) (cause : RecordError)
  /-- The bytes of a store entry cannot be read. -/
  | entry (cause : ReadError)
  deriving DecidableEq, Repr

namespace StubTree

/-- The version of the stored form. -/
def storedVersion : Nat := 1

end StubTree

def StoredError.reason : StoredError → String
  | .noHeader => "truncated header"
  | .version found => s!"format version {found} (expected {StubTree.storedVersion})"
  | .hash => "checksum mismatch"
  | .payload cause => s!"undecodable payload: {cause.message}"
  | .record index cause => s!"record {index}: {cause.message}"
  | .entry cause => s!"undecodable store entry: {cause.message}"

def StoredError.message (e : StoredError) : String := s!"corrupt stub data: {e.reason}"

namespace StubTree

/-- The stored form of stubs. -/
def encode (t : StubTree) : Bytes :=
  let payload := Bytes.ofList (StubRecord.write ∘ StubRecord.ofStub) t.stubs.toList
  Bytes.ofNat 1 storedVersion ++ Bytes.ofNat 8 (ContentHash.ofBytes payload).value.toNat ++ payload

/-- The stubs of records that come after some stubs. -/
def ofRecords (before : Array Stub) : List StubRecord → Except StoredError StubTree
  | [] => .ok ⟨before⟩
  | r :: rs =>
    match r.toStub before with
    | .ok stub => ofRecords (before.push stub) rs
    | .error cause => .error (.record before.size cause)

/-- The stubs that bytes store. -/
def decode (bytes : Bytes) : Except StoredError StubTree :=
  if bytes.length < 9 then .error .noHeader
  else
    let version := Bytes.toNat (bytes.take 1)
    let hash := Bytes.toNat ((bytes.drop 1).take 8)
    let payload := bytes.drop 9
    if version ≠ storedVersion then .error (.version version)
    else if hash ≠ (ContentHash.ofBytes payload).value.toNat then .error .hash
    else
      match (Reader.list StubRecord.read).run payload with
      | .ok (records, _) => ofRecords #[] records
      | .error cause => .error (.payload cause)

end StubTree

end RSource
