import FakeSSH.Ssh.Cipher
import FakeSSH.Ssh.Messages

/-!
# The packet transport (`third/ssh/transport.go`, `fakessh_antiscan.go`)

A direction of a connection has a cipher, the sequence number of its next packet and, between the
end of a key exchange and the message that says so, the cipher of the new keys. A `NEWKEYS` that
is written or read puts that cipher to use, and in strict mode starts the sequence numbers again.

After an error a connection is not read from again, so the state that a failed read leaves is not
part of the model. What a server that passes for OpenSSH answers to a bad packet is.
-/

namespace FakeSSH.Ssh

open FakeSSH.Go FakeSSH.Lib

def msgDisconnect : UInt8 := 1
def msgIgnore : UInt8 := 2
def msgDebug : UInt8 := 4
def msgNewKeys : UInt8 := 21

/-- The errors of the transport. `noKeyMaterial` is a panic. -/
inductive TransportError where
  | cipher (e : CipherError)
  | zeroLength
  | bogusNewKeys
  | malformed (e : WireError)
  | disconnect (reason : UInt32) (message language : Bytes)
  | noKeyMaterial
  | strictSeqNum
  deriving DecidableEq, Repr

/-! ## One direction -/

/-- `connectionState`. The channel of pending ciphers holds one at most. -/
structure ConnectionState where
  packetCipher : PacketCipher
  seqNum : UInt32
  pendingKeyChange : Option PacketCipher

namespace ConnectionState

/-- The direction after a packet; there is none where a `NEWKEYS` finds no key material. -/
def after (s : ConnectionState) (packet : Bytes) (cipher : PacketCipher) (strictMode : Bool) :
    Option ConnectionState :=
  if packet.head? = some msgNewKeys then
    s.pendingKeyChange.map fun next =>
      { packetCipher := next
        seqNum := if strictMode then 0 else s.seqNum + 1
        pendingKeyChange := none }
  else some { s with packetCipher := cipher, seqNum := s.seqNum + 1 }

/-- `connectionState.readPacket`. -/
def readPacket (s : ConnectionState) (r : Bytes) (strictMode : Bool) :
    Except TransportError (Bytes × Bytes × ConnectionState) :=
  match s.packetCipher.read s.seqNum r with
  | .error e => .error (.cipher e)
  | .ok (packet, r, cipher) =>
    if packet = [] then .error .zeroLength
    else match s.after packet cipher strictMode with
      | none => .error .bogusNewKeys
      | some s =>
        if packet.head? = some msgDisconnect then
          match disconnectMsg.unmarshal packet with
          | .error e => .error (.malformed e)
          | .ok (reason, message, language, ()) => .error (.disconnect reason message language)
        else .ok (packet, r, s)

/-- `connectionState.writePacket`: what is sent, and the direction after. -/
def writePacket (s : ConnectionState) (rand : Nat → UInt8) (packet : Bytes) (strictMode : Bool) :
    Except TransportError (Bytes × ConnectionState) :=
  match s.packetCipher.write s.seqNum rand packet with
  | .error e => .error (.cipher e)
  | .ok (sent, cipher) =>
    match s.after packet cipher strictMode with
    | none => .error .noKeyMaterial
    | some s => .ok (sent, s)

/-- `isPlaintext`. -/
def isPlaintext (s : ConnectionState) : Bool :=
  match s.packetCipher with
  | .stream c => c.mac.isNone && c.plain
  | _ => false

end ConnectionState

/-! ## Both directions -/

/-- `transport`. -/
structure Transport where
  reader : ConnectionState
  writer : ConnectionState
  strictMode : Bool
  initialKEXDone : Bool
  asOpenSSH : Bool

/-- `streamPacketCipher` with `noneCipher`. -/
def plainCipher : StreamPacketCipher where
  mac := none
  cipher := ⟨fun _ => 0, 0⟩
  plain := true
  etm := false
  openSSHPadding := false
  openSSHMinPadding := false
  openSSHPlaintextCorruptPadding := false

namespace Transport

/-- `newTransport`, and `enableOpenSSHCompat`, which is called before anything is sent. -/
def new (asOpenSSH : Bool) : Transport where
  reader :=
    ⟨.stream { plainCipher with openSSHPlaintextCorruptPadding := asOpenSSH }, 0, none⟩
  writer := ⟨.stream { plainCipher with openSSHPadding := asOpenSSH }, 0, none⟩
  strictMode := false
  initialKEXDone := false
  asOpenSSH := asOpenSSH

/-- `setStrictMode`. -/
def setStrictMode (t : Transport) : Except TransportError Transport :=
  if t.reader.seqNum ≠ 1 then .error .strictSeqNum else .ok { t with strictMode := true }

/-- `setInitialKEXDone`. -/
def setInitialKEXDone (t : Transport) : Transport := { t with initialKEXDone := true }

/-- `writePacket`. -/
def writePacket (t : Transport) (rand : Nat → UInt8) (packet : Bytes) :
    Except TransportError (Bytes × Transport) :=
  match t.writer.writePacket rand packet t.strictMode with
  | .error e => .error e
  | .ok (sent, writer) => .ok (sent, { t with writer })

/-! ### Bad packets -/

/-- The texts that `fakesshIsCorruptPacketError` knows. -/
def corruptTexts : List Bytes :=
  [str "ssh: invalid packet length, packet too small",
    str "ssh: invalid packet length, packet too large", str "ssh: max packet length exceeded",
    str "ssh: MAC failure", str "cipher: message authentication failed"]

/-- `fakesshIsCorruptPacketError`, for the errors of a cipher. The other errors of a read have
other texts. -/
def fakesshIsCorruptPacketError : CipherError → Bool
  | .authenticatedShort _ => true
  | .corrupt => true
  | .cbc _ => true
  | e => corruptTexts.contains e.message

/-- `fakesshCorruptedPadlen`. -/
def fakesshCorruptedPadlen : CipherError → Option Int
  | .authenticatedShort _ => none
  | e => (cutPrefix (str "ssh: illegal padding ") e.message).bind atoi

/-- What a bad packet is answered with. -/
inductive Answer where
  | none
  | raw (line : Bytes)
  | packet (packet : Bytes)
  deriving DecidableEq, Repr

/-- `writePacketCorrupt`. -/
def writePacketCorrupt (t : Transport) : Answer :=
  if t.writer.isPlaintext then .raw (str "Packet corrupt" ++ [0])
  else .packet (disconnectMsg.marshal (2, str "Packet corrupt", [], ()))

/-- `writePacketCorruptedPadlen`. -/
def writePacketCorruptedPadlen (padlen : Int) : Answer :=
  .packet (disconnectMsg.marshal
    (2, str "Corrupted padlen " ++ itoa padlen ++ str " on input.", [], ()))

/-- The answer to a failed read, in `readPacket`. -/
def answer (t : Transport) : TransportError → Answer
  | .cipher e =>
    if t.asOpenSSH then
      match fakesshCorruptedPadlen e with
      | some padlen => writePacketCorruptedPadlen padlen
      | none => if fakesshIsCorruptPacketError e then t.writePacketCorrupt else .none
    else .none
  | _ => .none

/-- A packet that `readPacket` keeps to itself. -/
def skips (t : Transport) (packet : Bytes) : Bool :=
  !(t.strictMode && !t.initialKEXDone) &&
    (packet.head? == some msgIgnore || packet.head? == some msgDebug)

/-- The loop of `readPacket`. Each packet takes a byte at least, so that the number of bytes is
fuel enough. -/
def readLoop (t : Transport) : Nat → Bytes → Except TransportError (Bytes × Bytes × Transport)
  | 0, _ => .error (.cipher .eof)
  | fuel + 1, r =>
    match t.reader.readPacket r t.strictMode with
    | .error e => .error e
    | .ok (packet, r, reader) =>
      if t.skips packet then readLoop { t with reader } fuel r
      else .ok (packet, r, { t with reader })

/-- `readPacket`: the packet and what is left, or the error and the answer to it. -/
def readPacket (t : Transport) (r : Bytes) :
    Except (TransportError × Answer) (Bytes × Bytes × Transport) :=
  (t.readLoop (r.length + 1) r).mapError fun e => (e, t.answer e)

end Transport

end FakeSSH.Ssh
