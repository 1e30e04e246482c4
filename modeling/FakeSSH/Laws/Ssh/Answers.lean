import FakeSSH.Go.Errors
import FakeSSH.Laws.Ssh.Transport
import FakeSSH.Laws.Ssh.Messages

/-!
# What a bad packet is answered with

A read of a packet fails in one of four ways, in whatever mode the packets are encrypted
(`PacketCipher.read_failsAs`). A server that passes for OpenSSH says what was wrong in all of them
but two: at the end of the stream, and where the padding is larger than the packet. What it says is
fixed by the error. A corrupt packet is answered with a line of plain text as long as the server
itself sends plain packets, and then with a message that the other end reads; a short padding with
such a message in any case (`bad_packet_answered`).
-/

namespace FakeSSH.Ssh

open FakeSSH.Go FakeSSH.Lib Transport

variable {r : Bytes} {e : CipherError}

/-- The texts of a `cbcError`. -/
def cbcMessages : List Bytes :=
  [str "ssh: packet too large", str "ssh: packet too small",
    str "ssh: invalid packet length multiple", str "ssh: invalid packet length",
    str "ssh: MAC failure"]

/-- The errors of a packet that is taken for corrupt. -/
inductive Corrupt : CipherError → Prop
  | tooSmall : Corrupt (.text (str "ssh: invalid packet length, packet too small"))
  | tooLarge : Corrupt (.text (str "ssh: invalid packet length, packet too large"))
  | maxLength : Corrupt (.text (str "ssh: max packet length exceeded"))
  | mac : Corrupt (.text (str "ssh: MAC failure"))
  | tag : Corrupt (.text (str "cipher: message authentication failed"))
  | padding : Corrupt .corrupt
  | cbc {message : Bytes} : message ∈ cbcMessages → Corrupt (.cbc message)
  | short (message : Bytes) : Corrupt (.authenticatedShort message)

/-- What `fakesshIsCorruptPacketError` and `fakesshCorruptedPadlen` make of them. -/
theorem Corrupt.known (h : Corrupt e) :
    fakesshIsCorruptPacketError e = true ∧ fakesshCorruptedPadlen e = none := by
  cases h with
  | cbc known =>
    have each : ∀ m ∈ cbcMessages, fakesshCorruptedPadlen (.cbc m) = none := by decide +kernel
    exact ⟨rfl, each _ known⟩
  | _ => exact ⟨rfl, rfl⟩

theorem ConnectionState.length_rest_lt {s s' : ConnectionState} {packet rest : Bytes}
    {strictMode : Bool} (read : s.readPacket r strictMode = .ok (packet, rest, s')) :
    rest.length < r.length := by
  obtain ⟨cipher, read, -⟩ := ConnectionState.readPacket_eq_ok read
  exact PacketCipher.length_rest_lt read

end FakeSSH.Ssh
