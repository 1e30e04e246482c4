import FakeSSH.Go.Strings
import FakeSSH.Lib.BigEndian

/-!
# SSH messages (`third/ssh/messages.go`)

`Marshal` and `Unmarshal` walk the fields of a structure by reflection. What they look at is
the structure's `Layout`: its name, the message types of its `sshtype` tag and, for each
field, the name and the `FieldKind` that the field's Go type and `ssh` tag make. A message is
a tuple of values for its layout, and the structures of the source are the layouts below.

A field is parsed from the front of the data and leaves what follows, which is how the loop
over the fields uses it. `decode` picks the layout by the first byte of a packet.
-/

namespace FakeSSH.Ssh

open FakeSSH.Go FakeSSH.Lib

/-! ## Numbers, strings and lists -/

/-- `appendU32`. -/
def appendU32 (n : UInt32) : Bytes :=
  [(n >>> 24).toUInt8, (n >>> 16).toUInt8, (n >>> 8).toUInt8, n.toUInt8]

/-- `appendU64`. -/
def appendU64 (n : UInt64) : Bytes :=
  [(n >>> 56).toUInt8, (n >>> 48).toUInt8, (n >>> 40).toUInt8, (n >>> 32).toUInt8,
    (n >>> 24).toUInt8, (n >>> 16).toUInt8, (n >>> 8).toUInt8, n.toUInt8]

/-- `appendInt`, of a length. -/
def appendInt (n : Nat) : Bytes := appendU32 (UInt32.ofNat n)

/-- `appendString`. -/
def appendString (s : Bytes) : Bytes := appendInt s.length ++ s

/-- `parseUint32`: the number and what follows it. -/
def parseUint32 : Bytes → Option (Nat × Bytes)
  | a :: b :: c :: d :: rest =>
    some (((a.toNat * 256 + b.toNat) * 256 + c.toNat) * 256 + d.toNat, rest)
  | _ => none

/-- `parseString`. The source compares the length with `uint32(len(in))`. -/
def parseString (data : Bytes) : Option (Bytes × Bytes) := do
  let (length, rest) ← parseUint32 data
  if rest.length % 0x100000000 < length then none else some (rest.take length, rest.drop length)

/-- `parseUint64`. -/
def parseUint64 (data : Bytes) : Option (Nat × Bytes) :=
  if data.length < 8 then none else some (ofBE (data.take 8), data.drop 8)

def comma : UInt8 := 0x2C

/-- `parseNameList`. -/
def parseNameList (data : Bytes) : Option (List Bytes × Bytes) := do
  let (contents, rest) ← parseString data
  some (if contents = [] then [] else contents.splitOn comma, rest)

/-- The sign bit of a two's complement number. -/
def signBit (b : UInt8) : Bool := b &&& 0x80 == 0x80

/-- `big.Int` from its two's complement bytes, in `parseInt`. -/
def intOfBytes (contents : Bytes) : Int :=
  if contents.head?.any signBit then -((ofBE (contents.map (~~~ ·)) : Int) + 1)
  else ofBE contents

/-- `parseInt`. -/
def parseInt (data : Bytes) : Option (Int × Bytes) := do
  let (contents, rest) ← parseString data
  some (intOfBytes contents, rest)

/-- The bytes and bits of a magnitude, as `intLength` counts them. -/
def magnitudeLength (bitLen : Nat) : Nat := (if bitLen % 8 = 0 then 1 else 0) + (bitLen + 7) / 8

/-- `intLength`. -/
def intLength (n : Int) : Nat :=
  if n < 0 then 4 + magnitudeLength (-n - 1).toNat.size
  else if n = 0 then 4
  else 4 + magnitudeLength n.toNat.size

/-- What `marshalInt` writes behind the length: the byte of padding, if there is one, and the
bytes of the number. -/
def intBytes (n : Int) : Bytes × Bytes :=
  if n < 0 then
    let bytes := (shortestBE (-n - 1).toNat).map (· ^^^ 0xff)
    (if bytes.head?.all (· &&& 0x80 == 0) then [0xff] else [], bytes)
  else if n = 0 then ([], [])
  else
    let bytes := shortestBE n.toNat
    (if bytes.head?.any (· &&& 0x80 != 0) then [0] else [], bytes)

/-- `marshalInt`: the bytes it writes to the front of a slice and the slice behind them. `none`
is an index out of range; a `copy` into a slice that is too short copies less. -/
def marshalInt (slice : Bytes) (n : Int) : Option (Bytes × Bytes) :=
  let (pad, bytes) := intBytes n
  if slice.length < 4 + pad.length then none
  else
    let behind := slice.drop (4 + pad.length)
    let copied := bytes.take behind.length
    some (appendInt (pad.length + copied.length) ++ pad ++ copied, behind.drop copied.length)

/-! ## Fields -/

/-- The types of fields, a byte slice with the tag `rest` being one of its own. -/
inductive FieldKind where
  | bool
  | array (n : Nat)
  | uint64
  | uint32
  | uint8
  | string
  | bytes
  | rest
  | nameList
  | bigInt
  deriving DecidableEq, Repr

/-- The values of a field. -/
abbrev FieldKind.Value : FieldKind → Type
  | .bool => Bool
  | .array n => { bs : Bytes // bs.length = n }
  | .uint64 => UInt64
  | .uint32 => UInt32
  | .uint8 => UInt8
  | .string => Bytes
  | .bytes => Bytes
  | .rest => Bytes
  | .nameList => List Bytes
  | .bigInt => Int

/-- One iteration of the loop of `marshalStruct`: what it appends. -/
def FieldKind.marshal : (k : FieldKind) → k.Value → Bytes
  | .bool, b => [if b then 1 else 0]
  | .array _, v => v.val
  | .uint64, n => appendU64 n
  | .uint32, n => appendU32 n
  | .uint8, n => [n]
  | .string, s => appendString s
  | .bytes, s => appendString s
  | .rest, s => s
  | .nameList, names => appendString ([comma].intercalate names)
  | .bigInt, n =>
    match marshalInt (List.replicate (intLength n) 0) n with
    | none => []
    | some (written, left) => written ++ left

/-- One iteration of the loop of `Unmarshal`, unless it returns an error. -/
def FieldKind.parse : (k : FieldKind) → Bytes → Option (k.Value × Bytes)
  | .bool, data => data.head?.map fun b => (b != 0, data.drop 1)
  | .array n, data =>
    if h : n ≤ data.length then some (⟨data.take n, List.length_take_of_le h⟩, data.drop n)
    else none
  | .uint64, data => (parseUint64 data).map fun p => (UInt64.ofNat p.1, p.2)
  | .uint32, data => (parseUint32 data).map fun p => (UInt32.ofNat p.1, p.2)
  | .uint8, data => data.head?.map fun b => (b, data.drop 1)
  | .string, data => parseString data
  | .bytes, data => parseString data
  | .rest, data => some (data, [])
  | .nameList, data => parseNameList data
  | .bigInt, data => parseInt data

/-! ## Structures -/

/-- A structure, as reflection shows it. -/
structure Layout where
  name : Bytes
  /-- `typeTags` -/
  tags : List UInt8
  fields : List (Bytes × FieldKind)
  deriving DecidableEq

/-- Values for the fields, in their order. -/
abbrev Values : List (Bytes × FieldKind) → Type
  | [] => Unit
  | f :: fs => f.2.Value × Values fs

abbrev Layout.Values (L : Layout) : Type := Ssh.Values L.fields

inductive WireError where
  | parse (tag : UInt8)
  | unexpectedType (got : UInt8) (expected : List UInt8)
  | unexpectedMessage (expected got : UInt8)
  | shortRead
  | field (name type : Bytes)
  deriving DecidableEq, Repr

def WireError.text : WireError → Bytes
  | .parse tag => str "ssh: parse error in message type " ++ str (toString tag)
  | .unexpectedType got expected =>
    str "ssh: unexpected message type " ++ str (toString got) ++ str " (expected one of [" ++
      (str " ").intercalate (expected.map fun e => str (toString e)) ++ str "])"
  | .unexpectedMessage expected got =>
    str "ssh: unexpected message type " ++ str (toString got) ++ str " (expected " ++
      str (toString expected) ++ str ")"
  | .shortRead => str "ssh: short read"
  | .field name type =>
    str "ssh: unmarshal error for field " ++ name ++ str " of type " ++ type

/-- The error of a field that cannot be parsed. -/
def FieldKind.failure (type name : Bytes) : FieldKind → WireError
  | .string => .field name type
  | _ => .shortRead

/-- The loop of `marshalStruct`. -/
def marshalValues : (fs : List (Bytes × FieldKind)) → Values fs → Bytes
  | [], _ => []
  | f :: fs, (v, vs) => f.2.marshal v ++ marshalValues fs vs

/-- `Marshal`. -/
def Layout.marshal (L : Layout) (vs : L.Values) : Bytes :=
  L.tags.take 1 ++ marshalValues L.fields vs

/-- The loop of `Unmarshal`, with the data it leaves. -/
def unmarshalValues (type : Bytes) :
    (fs : List (Bytes × FieldKind)) → Bytes → Except WireError (Values fs × Bytes)
  | [], data => .ok ((), data)
  | f :: fs, data =>
    match f.2.parse data with
    | none => .error (f.2.failure type f.1)
    | some (v, data) =>
      match unmarshalValues type fs data with
      | .error e => .error e
      | .ok (vs, data) => .ok ((v, vs), data)

/-- `expectedType`. -/
def Layout.expectedType (L : Layout) : UInt8 := L.tags.headD 0

/-- The data behind the message type, where the structure has one. -/
def Layout.body (L : Layout) : Bytes → Except WireError Bytes
  | [] => .error (.parse L.expectedType)
  | t :: data =>
    if L.tags = [] then .ok (t :: data)
    else if L.tags.any fun e => 0 < e && t == e then .ok data
    else .error (.unexpectedType t L.tags)

/-- `Unmarshal`. -/
def Layout.unmarshal (L : Layout) (data : Bytes) : Except WireError L.Values :=
  match L.body data with
  | .error e => .error e
  | .ok data =>
    match unmarshalValues L.name L.fields data with
    | .error e => .error e
    | .ok (vs, left) => if left = [] then .ok vs else .error (.parse L.expectedType)

/-! ## The messages -/

def disconnectMsg : Layout where
  name := str "disconnectMsg"
  tags := [1]
  fields := [(str "Reason", .uint32), (str "Message", .string), (str "Language", .string)]

def serviceRequestMsg : Layout where
  name := str "serviceRequestMsg"
  tags := [5]
  fields := [(str "Service", .string)]

def serviceAcceptMsg : Layout where
  name := str "serviceAcceptMsg"
  tags := [6]
  fields := [(str "Service", .string)]

def extInfoMsg : Layout where
  name := str "extInfoMsg"
  tags := [7]
  fields := [(str "NumExtensions", .uint32), (str "Payload", .rest)]

def kexInitMsg : Layout where
  name := str "kexInitMsg"
  tags := [20]
  fields :=
    [(str "Cookie", .array 16), (str "KexAlgos", .nameList),
      (str "ServerHostKeyAlgos", .nameList), (str "CiphersClientServer", .nameList),
      (str "CiphersServerClient", .nameList), (str "MACsClientServer", .nameList),
      (str "MACsServerClient", .nameList), (str "CompressionClientServer", .nameList),
      (str "CompressionServerClient", .nameList), (str "LanguagesClientServer", .nameList),
      (str "LanguagesServerClient", .nameList), (str "FirstKexFollows", .bool),
      (str "Reserved", .uint32)]

def kexDHInitMsg : Layout where
  name := str "kexDHInitMsg"
  tags := [30]
  fields := [(str "X", .bigInt)]

def kexDHReplyMsg : Layout where
  name := str "kexDHReplyMsg"
  tags := [31]
  fields := [(str "HostKey", .bytes), (str "Y", .bigInt), (str "Signature", .bytes)]

def userAuthRequestMsg : Layout where
  name := str "userAuthRequestMsg"
  tags := [50]
  fields :=
    [(str "User", .string), (str "Service", .string), (str "Method", .string),
      (str "Payload", .rest)]

def userAuthFailureMsg : Layout where
  name := str "userAuthFailureMsg"
  tags := [51]
  fields := [(str "Methods", .nameList), (str "PartialSuccess", .bool)]

def userAuthBannerMsg : Layout where
  name := str "userAuthBannerMsg"
  tags := [53]
  fields := [(str "Message", .string), (str "Language", .string)]

def userAuthPubKeyOkMsg : Layout where
  name := str "userAuthPubKeyOkMsg"
  tags := [60]
  fields := [(str "Algo", .string), (str "PubKey", .bytes)]

def userAuthGSSAPIToken : Layout where
  name := str "userAuthGSSAPIToken"
  tags := [61]
  fields := [(str "Token", .bytes)]

def userAuthGSSAPIErrTok : Layout where
  name := str "userAuthGSSAPIErrTok"
  tags := [64]
  fields := [(str "ErrorToken", .bytes)]

def userAuthGSSAPIError : Layout where
  name := str "userAuthGSSAPIError"
  tags := [65]
  fields :=
    [(str "MajorStatus", .uint32), (str "MinorStatus", .uint32), (str "Message", .string),
      (str "LanguageTag", .string)]

def userAuthGSSAPIMIC : Layout where
  name := str "userAuthGSSAPIMIC"
  tags := [66]
  fields := [(str "MIC", .bytes)]

def globalRequestMsg : Layout where
  name := str "globalRequestMsg"
  tags := [80]
  fields := [(str "Type", .string), (str "WantReply", .bool), (str "Data", .rest)]

def globalRequestSuccessMsg : Layout where
  name := str "globalRequestSuccessMsg"
  tags := [81]
  fields := [(str "Data", .rest)]

def globalRequestFailureMsg : Layout where
  name := str "globalRequestFailureMsg"
  tags := [82]
  fields := [(str "Data", .rest)]

def channelOpenMsg : Layout where
  name := str "channelOpenMsg"
  tags := [90]
  fields :=
    [(str "ChanType", .string), (str "PeersID", .uint32), (str "PeersWindow", .uint32),
      (str "MaxPacketSize", .uint32), (str "TypeSpecificData", .rest)]

def channelOpenConfirmMsg : Layout where
  name := str "channelOpenConfirmMsg"
  tags := [91]
  fields :=
    [(str "PeersID", .uint32), (str "MyID", .uint32), (str "MyWindow", .uint32),
      (str "MaxPacketSize", .uint32), (str "TypeSpecificData", .rest)]

def channelOpenFailureMsg : Layout where
  name := str "channelOpenFailureMsg"
  tags := [92]
  fields :=
    [(str "PeersID", .uint32), (str "Reason", .uint32), (str "Message", .string),
      (str "Language", .string)]

def windowAdjustMsg : Layout where
  name := str "windowAdjustMsg"
  tags := [93]
  fields := [(str "PeersID", .uint32), (str "AdditionalBytes", .uint32)]

def channelDataMsg : Layout where
  name := str "channelDataMsg"
  tags := [94]
  fields := [(str "PeersID", .uint32), (str "Length", .uint32), (str "Rest", .rest)]

def channelEOFMsg : Layout where
  name := str "channelEOFMsg"
  tags := [96]
  fields := [(str "PeersID", .uint32)]

def channelCloseMsg : Layout where
  name := str "channelCloseMsg"
  tags := [97]
  fields := [(str "PeersID", .uint32)]

def channelRequestMsg : Layout where
  name := str "channelRequestMsg"
  tags := [98]
  fields :=
    [(str "PeersID", .uint32), (str "Request", .string), (str "WantReply", .bool),
      (str "RequestSpecificData", .rest)]

def channelRequestSuccessMsg : Layout where
  name := str "channelRequestSuccessMsg"
  tags := [99]
  fields := [(str "PeersID", .uint32)]

def channelRequestFailureMsg : Layout where
  name := str "channelRequestFailureMsg"
  tags := [100]
  fields := [(str "PeersID", .uint32)]

/-- `msgUserAuthSuccess`, which carries nothing. -/
def msgUserAuthSuccess : UInt8 := 52

/-- The cases of `decode` that fill a structure. -/
def decodeCases : List (UInt8 × Layout) :=
  [(1, disconnectMsg), (5, serviceRequestMsg), (6, serviceAcceptMsg), (7, extInfoMsg),
    (20, kexInitMsg), (30, kexDHInitMsg), (31, kexDHReplyMsg), (50, userAuthRequestMsg),
    (51, userAuthFailureMsg), (53, userAuthBannerMsg), (60, userAuthPubKeyOkMsg),
    (80, globalRequestMsg), (81, globalRequestSuccessMsg), (82, globalRequestFailureMsg),
    (90, channelOpenMsg), (94, channelDataMsg), (91, channelOpenConfirmMsg),
    (92, channelOpenFailureMsg), (93, windowAdjustMsg), (96, channelEOFMsg),
    (97, channelCloseMsg), (98, channelRequestMsg), (99, channelRequestSuccessMsg),
    (100, channelRequestFailureMsg), (61, userAuthGSSAPIToken), (66, userAuthGSSAPIMIC),
    (64, userAuthGSSAPIErrTok), (65, userAuthGSSAPIError)]

/-- What `decode` returns. -/
inductive Decoded where
  | userAuthSuccess
  | message (L : Layout) (vs : L.Values)

/-- `decode`, for the packet `t :: data`; of an empty packet the source has no first byte to
look at. -/
def decode (t : UInt8) (data : Bytes) : Except WireError Decoded :=
  if t = msgUserAuthSuccess then .ok .userAuthSuccess
  else match decodeCases.lookup t with
    | none => .error (.unexpectedMessage 0 t)
    | some L =>
      match L.unmarshal (t :: data) with
      | .error e => .error e
      | .ok vs => .ok (.message L vs)

end FakeSSH.Ssh
