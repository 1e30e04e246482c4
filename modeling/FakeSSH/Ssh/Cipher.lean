import FakeSSH.Go.ChaCha20
import FakeSSH.Go.Format
import FakeSSH.Lib.BigEndian

/-!
# Packet ciphers (`third/ssh/cipher.go`)

A packet on the wire has its length, the length of its padding, the payload and the padding, and
in most modes a MAC or a tag. Each of the four modes encrypts it in a way of its own. A cipher is
for one direction; `write` and `read` go from one packet to the next and give the cipher for the
one after. A `Bytes` that is read from is all that the connection will ever deliver, so that a
read past its end is an error.

`rand` is the random source, which does not fail, and a write to the connection does not fail
either.
-/

namespace FakeSSH.Ssh

open FakeSSH.Go FakeSSH.Lib

def packetSizeMultiple : Nat := 16

/-- The longest packet that the transport takes or delivers. -/
def maxPacket : Nat := 256 * 1024

def prefixLen : Nat := 5

/-- The errors of a read. The antiscan code looks at the type and the text. -/
inductive CipherError where
  | eof
  | text (message : Bytes)
  | cbc (message : Bytes)
  | corrupt
  | authenticatedShort (message : Bytes)
  deriving DecidableEq, Repr

def CipherError.message : CipherError → Bytes
  | .eof => str "unexpected EOF"
  | .text message => message
  | .cbc message => message
  | .corrupt => str "ssh: packet corrupt"
  | .authenticatedShort message => message

/-- `io.ReadFull`. -/
def readFull (n : Nat) (r : Bytes) : Except CipherError (Bytes × Bytes) :=
  if n ≤ r.length then .ok (r.take n, r.drop n) else .error .eof

/-- Padding from the random source. -/
def randomBytes (rand : Nat → UInt8) (n : Nat) : Bytes := (List.range n).map rand

/-- A sequence number as the MACs and nonces have it. -/
def seqNumBytes (seqNum : UInt32) : Bytes := toBE 4 seqNum.toNat

/-- The padding up to a multiple, of four bytes at least. -/
def paddingTo (multiple n : Nat) : Nat :=
  let padding := multiple - n % multiple
  if padding < 4 then padding + multiple else padding

/-! ## Stream ciphers -/

/-- `streamPacketCipher`. The cipher is `noneCipher` where `plain` is set. -/
structure StreamPacketCipher where
  mac : Option KeyedHash
  cipher : StreamCipher
  plain : Bool
  etm : Bool
  openSSHPadding : Bool
  openSSHMinPadding : Bool
  openSSHPlaintextCorruptPadding : Bool

namespace StreamPacketCipher

/-- The length is sent as it is, and the MAC is of what is sent. -/
def encryptsThenMacs (s : StreamPacketCipher) : Bool := s.mac.isSome && s.etm

/-- `fillPadding`. -/
def fillPadding (s : StreamPacketCipher) (rand : Nat → UInt8) (n : Nat) : Bytes :=
  if s.openSSHPadding && s.mac.isNone && s.plain then List.replicate n 0 else randomBytes rand n

/-- The first bytes of a packet, encrypted or decrypted. -/
def cryptHeader (s : StreamPacketCipher) (header : Bytes) : Bytes :=
  if s.encryptsThenMacs then header.take 4 ++ s.cipher.xorKeyStream (header.drop 4)
  else s.cipher.xorKeyStream header

/-- The cipher after the first bytes. -/
def afterHeader (s : StreamPacketCipher) : StreamCipher :=
  s.cipher.skip (if s.encryptsThenMacs then 1 else prefixLen)

/-- The MAC of a packet, given in both forms. -/
def macOf (s : StreamPacketCipher) (seqNum : UInt32) (sent plain : Bytes) : Bytes :=
  match s.mac with
  | none => []
  | some mac => mac.sum (seqNumBytes seqNum ++ if s.etm then sent else plain)

def paddingLength (s : StreamPacketCipher) (packet : Bytes) : Nat :=
  paddingTo packetSizeMultiple
    (prefixLen + packet.length - if s.encryptsThenMacs then 4 else 0)

/-- `writeCipherPacket`. -/
def write (s : StreamPacketCipher) (seqNum : UInt32) (rand : Nat → UInt8) (packet : Bytes) :
    Except CipherError (Bytes × StreamPacketCipher) :=
  if maxPacket < packet.length then .error (.text (str "ssh: packet too large"))
  else
    let paddingLength := s.paddingLength packet
    let header := toBE 4 (packet.length + 1 + paddingLength) ++ [UInt8.ofNat paddingLength]
    let body := packet ++ s.fillPadding rand paddingLength
    let sent := s.cryptHeader header ++ s.afterHeader.xorKeyStream body
    .ok (sent ++ s.macOf seqNum sent (header ++ body),
      { s with cipher := s.afterHeader.skip body.length })

/-- `readCipherPacket`. -/
def read (s : StreamPacketCipher) (seqNum : UInt32) (r : Bytes) :
    Except CipherError (Bytes × Bytes × StreamPacketCipher) := do
  let (start, r) ← readFull prefixLen r
  let header := s.cryptHeader start
  let length := ofBE (header.take 4)
  let paddingLength := ofBE (header.drop 4)
  if length ≤ paddingLength + 1 then
    .error (.text (str "ssh: invalid packet length, packet too small"))
  else if maxPacket < length then
    .error (.text (str "ssh: invalid packet length, packet too large"))
  else do
    let macSize := (s.mac.map (·.size)).getD 0
    let (packetData, r) ← readFull (length - 1 + macSize) r
    let data := packetData.take (length - 1)
    let plain := s.afterHeader.xorKeyStream data
    if s.macOf seqNum (start ++ data) (header ++ plain) ≠ packetData.drop (length - 1) then
      .error (.text (str "ssh: MAC failure"))
    else if s.openSSHMinPadding && decide (paddingLength < 4) then
      .error (.text (str "ssh: illegal padding " ++ itoa paddingLength))
    else if s.openSSHPlaintextCorruptPadding && decide (paddingLength < 4) then .error .corrupt
    else .ok (plain.take (length - paddingLength - 1), r,
      { s with cipher := s.afterHeader.skip (length - 1) })

end StreamPacketCipher

/-! ## Authenticated modes -/

/-- `fakesshAuthenticatedShortPacket`; `none` where the packet is long enough. -/
def fakesshAuthenticatedShortPacket (plain : Bytes) : Option CipherError :=
  if 5 ≤ plain.length then none
  else match plain with
    | [] => some (.authenticatedShort (str "ssh: empty packet"))
    | padding :: _ =>
      if padding < 4 then
        some (.authenticatedShort (str "ssh: illegal padding " ++ itoa padding.toNat))
      else some (.authenticatedShort
        (str "ssh: padding " ++ itoa padding.toNat ++ str " too large"))

/-- The payload of a decrypted packet, as GCM and ChaCha20-Poly1305 take it out. -/
def stripPadding (plain : Bytes) : Except CipherError Bytes :=
  match fakesshAuthenticatedShortPacket plain with
  | some e => .error e
  | none =>
    let padding := (plain.headD 0).toNat
    if padding < 4 then
      .error (.text (str "ssh: illegal padding " ++ itoa padding))
    else if plain.length ≤ padding + 1 then
      .error (.text (str "ssh: padding " ++ itoa padding ++ str " too large"))
    else .ok ((plain.take (plain.length - padding)).drop 1)

/-- The packet that is encrypted. -/
def withPadding (rand : Nat → UInt8) (padding : Nat) (packet : Bytes) : Bytes :=
  UInt8.ofNat padding :: (packet ++ randomBytes rand padding)

def gcmTagSize : Nat := 16

/-- `gcmCipher`. -/
structure GcmCipher where
  aead : Aead
  iv : Bytes
  overhead_aead : aead.overhead = gcmTagSize

/-- One more, from the last byte on, with the carry. -/
def incLittleEndian : Bytes → Bytes
  | [] => []
  | b :: bs => if b + 1 ≠ 0 then (b + 1) :: bs else 0 :: incLittleEndian bs

namespace GcmCipher

/-- `incIV`, which counts in the bytes 4 to 11. -/
def incIV (c : GcmCipher) : GcmCipher :=
  { c with iv := c.iv.take 4 ++ (incLittleEndian ((c.iv.drop 4).take 8).reverse).reverse ++
      c.iv.drop 12 }

/-- `writeCipherPacket`. -/
def write (c : GcmCipher) (rand : Nat → UInt8) (packet : Bytes) : Bytes × GcmCipher :=
  let padding := paddingTo packetSizeMultiple (1 + packet.length)
  let plain := withPadding rand padding packet
  let header := toBE 4 plain.length
  (header ++ c.aead.sealData c.iv plain header, c.incIV)

/-- `readCipherPacket`. -/
def read (c : GcmCipher) (r : Bytes) : Except CipherError (Bytes × Bytes × GcmCipher) := do
  let (header, r) ← readFull 4 r
  let length := ofBE header
  if maxPacket < length then .error (.text (str "ssh: max packet length exceeded"))
  else do
    let (sealed, r) ← readFull (length + gcmTagSize) r
    match c.aead.openData c.iv sealed header with
    | none => .error (.text (str "cipher: message authentication failed"))
    | some plain => do
      let packet ← stripPadding plain
      .ok (packet, r, c.incIV)

end GcmCipher

/-- `chacha20Poly1305Cipher`, with the functions of its libraries: the key stream of a key and a
nonce, and the tag of a message under a key. -/
structure ChaCha20Poly1305Cipher where
  lengthKey : Bytes
  contentKey : Bytes
  keystream : Bytes → Bytes → Nat → UInt8
  tag : Bytes → KeyedHash
  size_tag : ∀ key, (tag key).size = 16

/-- `newChaCha20Cipher`. -/
def newChaCha20Cipher (key : Bytes) : ChaCha20Poly1305Cipher where
  lengthKey := (key.drop 32).take 32
  contentKey := key.take 32
  keystream := chacha20
  tag := poly1305
  size_tag := fun _ => rfl

namespace ChaCha20Poly1305Cipher

/-- The nonce of a packet. -/
def nonce (seqNum : UInt32) : Bytes := List.replicate 8 0 ++ seqNumBytes seqNum

/-- The stream of the content. Its first 32 bytes are the key of the tag, and the next 32 are
skipped. -/
def content (c : ChaCha20Poly1305Cipher) (seqNum : UInt32) : StreamCipher :=
  ⟨c.keystream c.contentKey (nonce seqNum), 0⟩

def polyKey (c : ChaCha20Poly1305Cipher) (seqNum : UInt32) : Bytes :=
  (c.content seqNum).xorKeyStream (List.replicate 32 0)

/-- The stream of the length. -/
def lengthStream (c : ChaCha20Poly1305Cipher) (seqNum : UInt32) : StreamCipher :=
  ⟨c.keystream c.lengthKey (nonce seqNum), 0⟩

/-- `writeCipherPacket`. Without a block size, the multiple is 8. -/
def write (c : ChaCha20Poly1305Cipher) (seqNum : UInt32) (rand : Nat → UInt8) (packet : Bytes) :
    Bytes :=
  let padding := paddingTo 8 (1 + packet.length)
  let plain := withPadding rand padding packet
  let sent := (c.lengthStream seqNum).xorKeyStream (toBE 4 plain.length) ++
    ((c.content seqNum).skip 64).xorKeyStream plain
  sent ++ (c.tag (c.polyKey seqNum)).sum sent

/-- `readCipherPacket`. -/
def read (c : ChaCha20Poly1305Cipher) (seqNum : UInt32) (r : Bytes) :
    Except CipherError (Bytes × Bytes) := do
  let (encryptedLength, r) ← readFull 4 r
  let length := ofBE ((c.lengthStream seqNum).xorKeyStream encryptedLength)
  if maxPacket < length then
    .error (.text (str "ssh: invalid packet length, packet too large"))
  else do
    let (data, r) ← readFull (length + 16) r
    let sent := encryptedLength ++ data.take length
    if (c.tag (c.polyKey seqNum)).sum sent ≠ data.drop length then
      .error (.text (str "ssh: MAC failure"))
    else do
      let packet ← stripPadding (((c.content seqNum).skip 64).xorKeyStream (data.take length))
      .ok (packet, r)

end ChaCha20Poly1305Cipher

/-! ## CBC -/

/-- `cbcCipher`, for blocks of 8 (3DES) or 16 bytes (AES): the blocks that its encrypter and its
decrypter go on from. -/
structure CbcCipher where
  block : BlockCipher
  mac : Option KeyedHash
  encrypter : Bytes
  decrypter : Bytes
  size_block : block.size = 8 ∨ block.size = 16
  length_encrypter : encrypter.length = block.size
  length_decrypter : decrypter.length = block.size

namespace CbcCipher

def macSize (c : CbcCipher) : Nat := (c.mac.map (·.size)).getD 0

def macOf (c : CbcCipher) (seqNum : UInt32) (packetData : Bytes) : Bytes :=
  match c.mac with
  | none => []
  | some mac => mac.sum (seqNumBytes seqNum ++ packetData)

/-- The length of what is encrypted. -/
def encLength (c : CbcCipher) (packet : Bytes) : Nat :=
  let effectiveBlockSize := max 8 c.block.size
  let encLength := max (prefixLen + packet.length + 4) 16
  (encLength + effectiveBlockSize - 1) / effectiveBlockSize * effectiveBlockSize

/-- What is encrypted: the lengths, the packet and the padding. -/
def plaintext (c : CbcCipher) (rand : Nat → UInt8) (packet : Bytes) : Bytes :=
  let length := c.encLength packet - 4
  let paddingLength := length - (1 + packet.length)
  toBE 4 length ++ [UInt8.ofNat paddingLength] ++ packet ++ randomBytes rand paddingLength

/-- The cipher after its encrypter has given some blocks. -/
def encrypted (c : CbcCipher) (sent : Bytes) : CbcCipher :=
  { c with
    encrypter := c.block.lastBlock c.encrypter sent
    length_encrypter := c.block.length_lastBlock c.length_encrypter sent }

/-- The cipher after its decrypter has taken some blocks. -/
def decrypted (c : CbcCipher) (sent : Bytes) : CbcCipher :=
  { c with
    decrypter := c.block.lastBlock c.decrypter sent
    length_decrypter := c.block.length_lastBlock c.length_decrypter sent }

/-- `writeCipherPacket`. -/
def write (c : CbcCipher) (seqNum : UInt32) (rand : Nat → UInt8) (packet : Bytes) :
    Bytes × CbcCipher :=
  let packetData := c.plaintext rand packet
  let sent := c.block.cbcEncrypt (c.encLength packet / c.block.size) c.encrypter packetData
  (sent ++ c.macOf seqNum packetData, c.encrypted sent)

/-- The blocks that hold the lengths. -/
def firstBlockLength (c : CbcCipher) : Nat :=
  (prefixLen + c.block.size - 1) / c.block.size * c.block.size

/-- `readCipherPacket`, but for what is read and thrown away after a failed check. -/
def read (c : CbcCipher) (seqNum : UInt32) (r : Bytes) :
    Except CipherError (Bytes × Bytes × CbcCipher) := do
  let (firstBlock, r) ← readFull c.firstBlockLength r
  let start := c.block.cbcDecrypt (c.firstBlockLength / c.block.size) c.decrypter firstBlock
  let length := ofBE (start.take 4)
  let paddingLength := ofBE ((start.drop 4).take 1)
  if maxPacket < length then .error (.cbc (str "ssh: packet too large"))
  else if length + 4 < max 16 c.block.size then .error (.cbc (str "ssh: packet too small"))
  else if (length + 4) % max 8 c.block.size ≠ 0 then
    .error (.cbc (str "ssh: invalid packet length multiple"))
  else if paddingLength < 4 ∨ length ≤ paddingLength + 1 then
    .error (.cbc (str "ssh: invalid packet length"))
  else do
    let macStart := 4 + length - c.firstBlockLength
    let (data, r) ← readFull (macStart + c.macSize) r
    let remaining := data.take macStart
    let c := c.decrypted firstBlock
    let packetData := start ++
      c.block.cbcDecrypt (remaining.length / c.block.size) c.decrypter remaining
    if c.macOf seqNum packetData ≠ data.drop macStart then .error (.cbc (str "ssh: MAC failure"))
    else .ok ((packetData.take (4 + length - paddingLength)).drop prefixLen, r,
      c.decrypted remaining)

end CbcCipher

/-! ## All ciphers -/

/-- `packetCipher`. -/
inductive PacketCipher where
  | stream (s : StreamPacketCipher)
  | gcm (c : GcmCipher)
  | chacha20Poly1305 (c : ChaCha20Poly1305Cipher)
  | cbc (c : CbcCipher)

/-- `writeCipherPacket`: what is sent, and the cipher for the next packet. -/
def PacketCipher.write (seqNum : UInt32) (rand : Nat → UInt8) (packet : Bytes) :
    PacketCipher → Except CipherError (Bytes × PacketCipher)
  | .stream s => (s.write seqNum rand packet).map fun (sent, s) => (sent, .stream s)
  | .gcm c => .ok ((c.write rand packet).1, .gcm (c.write rand packet).2)
  | .chacha20Poly1305 c => .ok (c.write seqNum rand packet, .chacha20Poly1305 c)
  | .cbc c => .ok ((c.write seqNum rand packet).1, .cbc (c.write seqNum rand packet).2)

/-- `readCipherPacket`: the packet, what is left, and the cipher for the next packet. -/
def PacketCipher.read (seqNum : UInt32) (r : Bytes) :
    PacketCipher → Except CipherError (Bytes × Bytes × PacketCipher)
  | .stream s => (s.read seqNum r).map fun (packet, r, s) => (packet, r, .stream s)
  | .gcm c => (c.read r).map fun (packet, r, c) => (packet, r, .gcm c)
  | .chacha20Poly1305 c =>
    (c.read seqNum r).map fun (packet, r) => (packet, r, .chacha20Poly1305 c)
  | .cbc c => (c.read seqNum r).map fun (packet, r, c) => (packet, r, .cbc c)

end FakeSSH.Ssh
