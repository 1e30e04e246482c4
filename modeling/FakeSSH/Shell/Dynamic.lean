import FakeSSH.Lib.OrderedMap
import FakeSSH.Shell.Paths

/-!
# The dynamic store (`cmds/dynamic.go`)

A session's record of the paths it has touched: metadata only, one entry for each
cleaned path, in the order in which the paths first came. `record` checks its
arguments before it looks at the store, and the store's capacity only for a path
that is new. An error leaves the store as it was.
-/

namespace FakeSSH.Shell

open FakeSSH.Go FakeSSH.Lib

def maxDynamicEntries : Nat := 256
def maxDynamicPathLen : Nat := 512
def maxDynamicPreviewBytes : Nat := 256

def kindFile : Bytes := str "file"
def kindDir : Bytes := str "dir"

def validDynamicKinds : List Bytes := [kindFile, kindDir]

/-- `DynamicEntry`. `updatedAt` is the reading of the clock, and a nil preview is an
empty one. -/
structure DynamicEntry where
  path : Bytes := []
  kind : Bytes := []
  size : Int := 0
  preview : Bytes := []
  sha256 : Bytes := []
  updatedAt : Int := 0
  deriving DecidableEq, Repr, Inhabited

abbrev DynamicStore := OrderedMap Bytes DynamicEntry

inductive DynamicError where
  | path (e : PathError)
  | pathLength (n : Nat)
  | emptyKind
  | unknownKind (kind : Bytes)
  | negativeSize (size : Int)
  | hashLength (n : Nat)
  | hashByte (b : UInt8)
  | full
  deriving DecidableEq, Repr

/-- The error's text; `quote` is `fmt`'s `%q` and `point` its `%#U` of a byte. -/
def DynamicError.text (quote : Bytes → Bytes) (point : UInt8 → Bytes) : DynamicError → Bytes
  | .path e => str "dynamic: " ++ e.text
  | .pathLength n => str "dynamic: path length " ++ str (toString n) ++
      str " exceeds MaxDynamicPathLen (" ++ str (toString maxDynamicPathLen) ++ str ")"
  | .emptyKind => str "dynamic: empty kind not allowed"
  | .unknownKind kind => str "dynamic: unknown kind " ++ quote kind
  | .negativeSize size => str "dynamic: negative size " ++ str (toString size) ++ str " not allowed"
  | .hashLength n => str "dynamic: sha256 length " ++ str (toString n) ++ str ", want 64 hex chars"
  | .hashByte b => str "dynamic: invalid sha256 hex: encoding/hex: invalid byte: " ++ point b
  | .full => str "dynamic: MaxDynamicEntries (" ++ str (toString maxDynamicEntries) ++
      str ") reached"

def normalizeDynamicPath (pathArg : Bytes) : Except DynamicError Bytes :=
  match resolvePath [slash] pathArg with
  | .error e => .error (.path e)
  | .ok cleaned =>
    if maxDynamicPathLen < cleaned.length then .error (.pathLength cleaned.length)
    else .ok cleaned

def validateDynamicKind (kind : Bytes) : Except DynamicError Unit :=
  if kind = [] then .error .emptyKind
  else if kind ∈ validDynamicKinds then .ok ()
  else .error (.unknownKind kind)

/-- A digit of `hex.DecodeString`, which takes both cases. -/
def isHexDigit (b : UInt8) : Bool :=
  (decide (0x30 ≤ b) && decide (b ≤ 0x39)) || (decide (0x61 ≤ b) && decide (b ≤ 0x66)) ||
    (decide (0x41 ≤ b) && decide (b ≤ 0x46))

/-- `normalizeSHA256`. Sixty-four bytes are of even length, so decoding fails at the
first byte that is no digit or not at all. -/
def normalizeSHA256 (t : CaseTable) (sha256Hex : Bytes) : Except DynamicError Bytes :=
  if sha256Hex = [] then .ok []
  else
    let lower := t.toLower sha256Hex
    if lower.length ≠ 64 then .error (.hashLength lower.length)
    else match lower.find? fun b => !isHexDigit b with
      | some b => .error (.hashByte b)
      | none => .ok lower

def truncateAndCopyPreview (p : Bytes) : Bytes := p.take maxDynamicPreviewBytes

/-- What a call of `Record` is given: its arguments, and the clock's reading. -/
structure RecordCall where
  pathArg : Bytes
  kind : Bytes
  size : Int := 0
  preview : Bytes := []
  sha256Hex : Bytes := []
  now : Int := 0

/-- The entry that a call makes, from its arguments alone. -/
def RecordCall.entry (t : CaseTable) (c : RecordCall) : Except DynamicError DynamicEntry := do
  let cleaned ← normalizeDynamicPath c.pathArg
  validateDynamicKind c.kind
  if c.size < 0 then .error (.negativeSize c.size)
  else
    let hash ← normalizeSHA256 t c.sha256Hex
    .ok {
      path := cleaned, kind := c.kind, size := c.size
      preview := truncateAndCopyPreview c.preview, sha256 := hash, updatedAt := c.now }

/-- `DynamicStore.Record`: the store after the call, and its answer. -/
def record (t : CaseTable) (s : DynamicStore) (c : RecordCall) :
    DynamicStore × Except DynamicError DynamicEntry :=
  match c.entry t with
  | .error e => (s, .error e)
  | .ok entry =>
    if entry.path ∉ s.entries ∧ maxDynamicEntries ≤ s.size then (s, .error .full)
    else (s.put entry.path entry, .ok entry)

/-- `DynamicStore.Entries`. -/
def dynamicEntries (s : DynamicStore) : List DynamicEntry := s.values

end FakeSSH.Shell
