import FakeSSH.Ssh.Messages
import FakeSSH.Ssh.Cipher
import Mathlib.Logic.Function.Basic

/-!
# Channels (`third/ssh/channel.go`, `buffer.go` and the window of `common.go`)

A channel carries two streams of data each way. Either end grants the other a window of bytes:
`WriteExtended` reserves from the peer's window before it sends, `handleData` charges what
arrives to the own window and `adjustWindow` grants again what has been read, once enough of
it has come together. The wire beneath delivers packets in order.

An `Endpoint` is a channel with the goroutines around it: one writer for each stream, any
number of readers, which may be between a read and the `adjustWindow` that follows it or
between that and the message it sends, and the goroutine in `CloseWrite`. Each critical section
of a mutex is one step (`EndStep`). What arrives is handled by the mux loop, one packet after
the other; requests and their replies may be sent and taken at any moment.

`LinkStep` puts two ends together, with the packets that are on the way to either.
-/

namespace FakeSSH.Ssh

open FakeSSH.Go FakeSSH.Lib

def minPacketLength : UInt32 := 9
def channelMaxPacket : UInt32 := 32768
def channelWindowSize : UInt32 := 64 * channelMaxPacket

/-- The capacity of the queues of requests and messages. -/
def chanSize : Nat := 16

def msgChannelData : UInt8 := 94
def msgChannelExtendedData : UInt8 := 95
def msgChannelEOF : UInt8 := 96
def msgChannelClose : UInt8 := 97

/-! ## The window -/

/-- `window`, without the count of waiting writers that only tests look at. -/
structure Window where
  win : UInt32
  closed : Bool
  deriving DecidableEq, Repr

/-- `add`; `none` where the window would not fit its type. -/
def Window.add (w : Window) (win : UInt32) : Option Window :=
  if win = 0 then some w
  else if w.win + win < win then none
  else some { w with win := w.win + win }

/-- What a reservation gets, and whether it is told that the window is closed. -/
structure Reserved where
  win : UInt32
  eof : Bool
  window : Window
  deriving DecidableEq, Repr

/-- `reserve`; `none` while it waits. -/
def Window.reserve (w : Window) (win : UInt32) : Option Reserved :=
  if w.win = 0 ∧ w.closed = false then none
  else
    let got := if w.win < win then w.win else win
    some { win := got, eof := w.closed, window := { w with win := w.win - got } }

def Window.close (w : Window) : Window := { w with closed := true }

/-! ## The buffer -/

/-- `buffer`: what is left of the element that is read, and the elements behind it. -/
structure Buffer where
  head : Bytes
  later : List Bytes
  closed : Bool
  deriving DecidableEq, Repr

def newBuffer : Buffer := { head := [], later := [], closed := false }

def Buffer.write (b : Buffer) (buf : Bytes) : Buffer := { b with later := b.later ++ [buf] }

def Buffer.eof (b : Buffer) : Buffer := { b with closed := true }

/-- What `Read` copies into a slice of `n` bytes, and what it leaves of the elements. -/
def copyElements : Nat → Bytes → List Bytes → Bytes × Bytes × List Bytes
  | n, head, [] => (head.take n, head.drop n, [])
  | n, head, e :: later =>
    if n ≤ head.length then (head.take n, head.drop n, e :: later)
    else
      let (more, rest) := copyElements (n - head.length) e later
      (head ++ more, rest)

/-- What `Read` comes to. -/
inductive BufferRead where
  | waits
  | eof
  | got (data : Bytes) (b : Buffer)

/-- `Read` into a slice of `n` bytes. When it waits or reports the end it has gone past empty
elements only. -/
def Buffer.read (b : Buffer) (n : Nat) : BufferRead :=
  let (data, head, later) := copyElements n b.head b.later
  if n = 0 ∨ data ≠ [] then .got data { b with head := head, later := later }
  else if b.closed then .eof
  else .waits

/-! ## The channel -/

/-- `Request`, of a channel. -/
structure ChannelRequest where
  type : Bytes
  wantReply : Bool
  payload : Bytes
  deriving DecidableEq, Repr

/-- What is put into `ch.msg`. -/
inductive ChannelMsg where
  | openConfirm
  | openFailure (reason : UInt32) (message : Bytes)
  | success
  | failure
  | other
  deriving DecidableEq, Repr

structure Channel where
  localId : UInt32
  remoteId : UInt32
  maxIncomingPayload : UInt32
  maxRemotePayload : UInt32
  decided : Bool
  inbound : Bool
  msg : List ChannelMsg
  sentRequestPending : Bool
  incomingRequests : List ChannelRequest
  sentEOF : Bool
  remoteWin : Window
  pending : Buffer
  extPending : Buffer
  myWindow : UInt32
  myConsumed : UInt32
  sentClose : Bool
  deriving DecidableEq, Repr

inductive ChannelError where
  | wire (e : WireError)
  | exceedsMaxPayload
  | wrongPacketLength
  | wroteTooMuch
  | responseOnInbound
  | duplicateResponse
  | invalidMaxPacketSize (n : UInt32)
  | invalidWindowUpdate (n : UInt32)
  deriving DecidableEq, Repr

def ChannelError.text : ChannelError → Bytes
  | .wire e => e.text
  | .exceedsMaxPayload => str "ssh: incoming packet exceeds maximum payload size"
  | .wrongPacketLength => str "ssh: wrong packet length"
  | .wroteTooMuch => str "ssh: remote side wrote too much"
  | .responseOnInbound => str "ssh: channel response message received on inbound channel"
  | .duplicateResponse => str "ssh: duplicate response received for channel"
  | .invalidMaxPacketSize n =>
    str "ssh: invalid MaxPacketSize " ++ str (toString n) ++ str " from peer"
  | .invalidWindowUpdate n =>
    str "ssh: invalid window update for " ++ str (toString n) ++ str " bytes"

/-- `newChannel`, with the id that the list gave it. -/
def newChannel (localId : UInt32) (inbound : Bool) : Channel where
  localId := localId
  remoteId := 0
  maxIncomingPayload := channelMaxPacket
  maxRemotePayload := 0
  decided := false
  inbound := inbound
  msg := []
  sentRequestPending := false
  incomingRequests := []
  sentEOF := false
  remoteWin := { win := 0, closed := false }
  pending := newBuffer
  extPending := newBuffer
  myWindow := channelWindowSize
  myConsumed := 0
  sentClose := false

/-- `minPayloadSize`. -/
def minPayloadSize (limit : UInt32) (length : Nat) : UInt32 :=
  if limit.toNat < length then limit else UInt32.ofNat length

/-- The packet that `WriteExtended` builds. -/
def dataPacket (remoteId extendedCode : UInt32) (todo : Bytes) : Bytes :=
  if 0 < extendedCode then
    msgChannelExtendedData :: appendU32 remoteId ++ appendU32 extendedCode ++
      appendInt todo.length ++ todo
  else msgChannelData :: appendU32 remoteId ++ appendInt todo.length ++ todo

/-- The critical section of `adjustWindow`: what is to be granted, 0 for nothing yet. -/
def Channel.adjustWindow (c : Channel) (adj : UInt32) : Channel × UInt32 :=
  let consumed := c.myConsumed + adj
  if 3 * c.maxIncomingPayload < channelWindowSize - c.myWindow ∨
      c.myWindow < channelWindowSize / 2 then
    ({ c with myConsumed := 0, myWindow := c.myWindow + consumed }, consumed)
  else ({ c with myConsumed := consumed }, 0)

/-- Data that arrives is charged to the window. -/
def Channel.charge (c : Channel) (length : UInt32) : Channel :=
  { c with myWindow := c.myWindow - length }

/-- `handleData`, up to the `adjustWindow` of data that nobody can read, whose bytes are given
beside the channel. -/
def Channel.handleData (c : Channel) (packet : Bytes) : Except ChannelError (Channel × UInt32) :=
  let tag := packet.headD 0
  let headerLen := if tag = msgChannelExtendedData then 13 else 9
  if packet.length < headerLen then .error (.wire (.parse tag))
  else
    let extended := if tag = msgChannelExtendedData then ofBE ((packet.drop 5).take 4) else 0
    let length := UInt32.ofNat (ofBE ((packet.drop (headerLen - 4)).take 4))
    let data := packet.drop headerLen
    if length = 0 then .ok (c, 0)
    else if c.maxIncomingPayload < length then .error .exceedsMaxPayload
    else if length ≠ UInt32.ofNat data.length then .error .wrongPacketLength
    else if c.myWindow < length then .error .wroteTooMuch
    else
      let c := c.charge length
      if extended = 1 then .ok ({ c with extPending := c.extPending.write data }, 0)
      else if 0 < extended then .ok (c, length)
      else .ok ({ c with pending := c.pending.write data }, 0)

/-- `close`, but for the queues that it closes. -/
def Channel.close (c : Channel) : Channel :=
  { c with
    pending := c.pending.eof
    extPending := c.extPending.eof
    sentClose := true
    remoteWin := c.remoteWin.close }

/-- What `handlePacket` comes to: it waits for room in a queue, ends the mux loop, or returns,
with bytes that are still to be passed to `adjustWindow`. `closes` has taken the channel off
the list and closed it, `removes` has only taken it off. -/
inductive Outcome where
  | blocks
  | fails (e : ChannelError)
  | goesOn (c : Channel) (credit : UInt32)
  | removes (c : Channel)
  | closes (c : Channel)

/-- The values of a decoded message, if it is of this type. -/
def Decoded.as (L : Layout) : Decoded → Option L.Values
  | .message M vs => if h : M = L then some (h ▸ vs) else none
  | .userAuthSuccess => none

/-- `responseMessageReceived`. -/
def Channel.responseMessageReceived (c : Channel) : Except ChannelError Channel :=
  if c.inbound then .error .responseOnInbound
  else if c.decided then .error .duplicateResponse
  else .ok { c with decided := true }

/-- The end of `handlePacket`, for a message that is not data, the end or the close. -/
def Channel.handleMessage (c : Channel) (d : Decoded) : Outcome :=
  if let some (_, reason, message, _) := d.as channelOpenFailureMsg then
    match c.responseMessageReceived with
    | .error e => .fails e
    | .ok c =>
      if c.msg.length < chanSize then
        .removes { c with msg := c.msg ++ [.openFailure reason message] }
      else .blocks
  else if let some (_, myID, myWindow, maxPacketSize, _) := d.as channelOpenConfirmMsg then
    match c.responseMessageReceived with
    | .error e => .fails e
    | .ok c =>
      if maxPacketSize < minPacketLength ∨ 0x80000000 < maxPacketSize then
        .fails (.invalidMaxPacketSize maxPacketSize)
      else if c.msg.length < chanSize then
        .goesOn { c with
          remoteId := myID
          maxRemotePayload := maxPacketSize
          remoteWin := (c.remoteWin.add myWindow).getD c.remoteWin
          msg := c.msg ++ [.openConfirm] } 0
      else .blocks
  else if let some (_, additionalBytes, _) := d.as windowAdjustMsg then
    match c.remoteWin.add additionalBytes with
    | none => .fails (.invalidWindowUpdate additionalBytes)
    | some w => .goesOn { c with remoteWin := w } 0
  else if let some (_, type, wantReply, payload, _) := d.as channelRequestMsg then
    if c.incomingRequests.length < chanSize then
      .goesOn { c with
        incomingRequests := c.incomingRequests ++ [⟨type, wantReply, payload⟩] } 0
    else .blocks
  else if (d.as channelRequestSuccessMsg).isSome ∨ (d.as channelRequestFailureMsg).isSome then
    -- without a waiting `SendRequest`, or room for it, the answer is dropped
    if c.sentRequestPending ∧ c.msg.length < chanSize then
      .goesOn { c with
        msg := c.msg ++ [if (d.as channelRequestSuccessMsg).isSome then .success else .failure] } 0
    else .goesOn c 0
  else if c.msg.length < chanSize then .goesOn { c with msg := c.msg ++ [.other] } 0
  else .blocks

/-- `handlePacket`. The answer to a close is sent by whoever calls it. -/
def Channel.handlePacket (c : Channel) (packet : Bytes) : Outcome :=
  match packet with
  | [] => .fails (.wire (.parse 0))
  | t :: data =>
    if t = msgChannelData ∨ t = msgChannelExtendedData then
      match c.handleData packet with
      | .error e => .fails e
      | .ok (c, credit) => .goesOn c credit
    else if t = msgChannelClose then .closes c.close
    else if t = msgChannelEOF then
      .goesOn { c with extPending := c.extPending.eof, pending := c.pending.eof } 0
    else match decode t data with
      | .error e => .fails (.wire e)
      | .ok d => c.handleMessage d

/-! ## An end and its goroutines -/

/-- The streams that `Channel` gives its users: the data and `Stderr()`. -/
inductive Stream where
  | data
  | stderr
  deriving DecidableEq, Repr

def Stream.code : Stream → UInt32
  | .data => 0
  | .stderr => 1

def Channel.buffer (c : Channel) : Stream → Buffer
  | .data => c.pending
  | .stderr => c.extPending

def Channel.setBuffer (c : Channel) (b : Buffer) : Stream → Channel
  | .data => { c with pending := b }
  | .stderr => { c with extPending := b }

/-- What an end sends to the other. -/
inductive Packet where
  | data (st : Stream) (todo : Bytes)
  | windowAdjust (additionalBytes : UInt32)
  | eof
  | close
  | request (r : ChannelRequest)
  | success
  | failure
  deriving DecidableEq, Repr

/-- Its bytes. `sendMessage` writes the id of the peer's channel into the message. -/
def Packet.encode (peersID : UInt32) : Packet → Bytes
  | .data st todo => dataPacket peersID st.code todo
  | .windowAdjust n => windowAdjustMsg.marshal (peersID, n, ())
  | .eof => channelEOFMsg.marshal (peersID, ())
  | .close => channelCloseMsg.marshal (peersID, ())
  | .request r => channelRequestMsg.marshal (peersID, r.type, r.wantReply, r.payload, ())
  | .success => channelRequestSuccessMsg.marshal (peersID, ())
  | .failure => channelRequestFailureMsg.marshal (peersID, ())

/-- A call of `WriteExtended`: none, before `reserve` with data left, or before `writePacket`
with a packet's data reserved. -/
inductive Writer where
  | idle
  | reserving (data : Bytes)
  | sending (todo data : Bytes)
  deriving DecidableEq, Repr

/-- A channel and its goroutines. `credits` are reads before their `adjustWindow` and `adjusts`
grants before their message; `eofDue` is a `CloseWrite` before its message. The last fields
record what was given to the writers, sent and read, and what had been sent at the first
message that ends the streams. -/
structure Endpoint where
  chan : Channel
  writer : Stream → Writer
  credits : List UInt32
  adjusts : List UInt32
  eofDue : Bool
  removed : Bool
  failed : Option ChannelError
  written : Stream → Bytes
  sent : Stream → Bytes
  got : Stream → Bytes
  sentBeforeEnd : Option (Stream → Bytes)

/-- A message that ends the streams goes out. -/
def Endpoint.markEnd (e : Endpoint) : Endpoint :=
  { e with sentBeforeEnd := some (e.sentBeforeEnd.getD e.sent) }

/-- Why a step is taken: because the application calls for something new, or to carry out what
was called for, to read and to handle what arrives. -/
inductive Cause where
  | call
  | work
  deriving DecidableEq, Repr

/-- One step of an end: its cause, the packet that the mux loop takes from the wire, if it is
the loop's step, and the packets that are sent. -/
inductive EndStep (e : Endpoint) : Cause → Option Bytes → Endpoint → List Packet → Prop
  -- `WriteExtended`
  | write (st : Stream) (data : Bytes) : e.writer st = .idle → e.chan.decided = true →
      e.chan.sentEOF = false → data ≠ [] →
      EndStep e .call none { e with
        writer := Function.update e.writer st (.reserving data)
        written := Function.update e.written st (e.written st ++ data) } []
  | reserve (st : Stream) (data : Bytes) (r : Reserved) : e.writer st = .reserving data →
      e.chan.remoteWin.reserve (minPayloadSize e.chan.maxRemotePayload data.length) = some r →
      r.eof = false →
      EndStep e .work none { e with
        chan := { e.chan with remoteWin := r.window }
        writer := Function.update e.writer st
          (.sending (data.take r.win.toNat) (data.drop r.win.toNat)) } []
  | reserveClosed (st : Stream) (data : Bytes) (r : Reserved) : e.writer st = .reserving data →
      e.chan.remoteWin.reserve (minPayloadSize e.chan.maxRemotePayload data.length) = some r →
      r.eof = true →
      EndStep e .work none { e with
        chan := { e.chan with remoteWin := r.window }
        writer := Function.update e.writer st .idle } []
  | send (st : Stream) (todo data : Bytes) : e.writer st = .sending todo data →
      e.chan.sentClose = false →
      EndStep e .work none { e with
        writer := Function.update e.writer st (if data = [] then .idle else .reserving data)
        sent := Function.update e.sent st (e.sent st ++ todo) } [.data st todo]
  | sendLate (st : Stream) (todo data : Bytes) : e.writer st = .sending todo data →
      e.chan.sentClose = true →
      EndStep e .work none { e with writer := Function.update e.writer st .idle } []
  -- `ReadExtended` and `adjustWindow`
  | read (st : Stream) (n : Nat) (data : Bytes) (b : Buffer) : e.chan.decided = true →
      (e.chan.buffer st).read n = .got data b → data ≠ [] →
      EndStep e .work none { e with
        chan := e.chan.setBuffer b st
        credits := e.credits ++ [UInt32.ofNat data.length]
        got := Function.update e.got st (e.got st ++ data) } []
  | credit (before after : List UInt32) (adj : UInt32) : e.credits = before ++ adj :: after →
      EndStep e .work none { e with
        chan := (e.chan.adjustWindow adj).1
        credits := before ++ after
        adjusts :=
          if (e.chan.adjustWindow adj).2 = 0 then e.adjusts
          else e.adjusts ++ [(e.chan.adjustWindow adj).2] } []
  | adjust (before after : List UInt32) (adj : UInt32) : e.adjusts = before ++ adj :: after →
      e.chan.sentClose = false →
      EndStep e .work none { e with adjusts := before ++ after } [.windowAdjust adj]
  | adjustLate (before after : List UInt32) (adj : UInt32) : e.adjusts = before ++ adj :: after →
      e.chan.sentClose = true →
      EndStep e .work none { e with adjusts := before ++ after } []
  -- `CloseWrite` and `Close`
  | closeWrite : e.chan.decided = true →
      EndStep e .call none { e with chan := { e.chan with sentEOF := true }, eofDue := true } []
  | sendEOF : e.eofDue = true → e.chan.sentClose = false →
      EndStep e .work none { e with eofDue := false }.markEnd [.eof]
  | sendEOFLate : e.eofDue = true → e.chan.sentClose = true →
      EndStep e .work none { e with eofDue := false } []
  | close : e.chan.decided = true → e.chan.sentClose = false →
      EndStep e .call none { e with chan := { e.chan with sentClose := true } }.markEnd [.close]
  -- requests and their replies
  | request (r : ChannelRequest) : e.chan.sentClose = false →
      ((Packet.request r).encode e.chan.remoteId).length ≤ maxPacket →
      EndStep e .call none e [.request r]
  | reply (ok : Bool) : e.chan.sentClose = false →
      EndStep e .call none e [if ok then .success else .failure]
  | gate (waiting : Bool) :
      EndStep e .call none { e with chan := { e.chan with sentRequestPending := waiting } } []
  | takeRequest (r : ChannelRequest) (rest : List ChannelRequest) :
      e.chan.incomingRequests = r :: rest →
      EndStep e .work none { e with chan := { e.chan with incomingRequests := rest } } []
  | takeMsg (m : ChannelMsg) (rest : List ChannelMsg) : e.chan.msg = m :: rest →
      EndStep e .work none { e with chan := { e.chan with msg := rest } } []
  -- the mux loop
  | handle (packet : Bytes) (c : Channel) (credit : UInt32) : e.removed = false →
      e.failed = none → e.chan.handlePacket packet = .goesOn c credit →
      EndStep e .work (some packet) { e with
        chan := c
        credits := if credit = 0 then e.credits else e.credits ++ [credit] } []
  | handleRemove (packet : Bytes) (c : Channel) : e.removed = false → e.failed = none →
      e.chan.handlePacket packet = .removes c →
      EndStep e .work (some packet) { e with chan := c, removed := true } []
  | handleClose (packet : Bytes) (c : Channel) : e.removed = false → e.failed = none →
      e.chan.handlePacket packet = .closes c → e.chan.sentClose = false →
      EndStep e .work (some packet) { e with chan := c, removed := true }.markEnd [.close]
  | handleCloseLate (packet : Bytes) (c : Channel) : e.removed = false → e.failed = none →
      e.chan.handlePacket packet = .closes c → e.chan.sentClose = true →
      EndStep e .work (some packet) { e with chan := c, removed := true } []
  | handleFail (packet : Bytes) (err : ChannelError) : e.removed = false → e.failed = none →
      e.chan.handlePacket packet = .fails err →
      EndStep e .work (some packet) { e with failed := some err } []

/-- A channel that nobody has used yet. -/
def Endpoint.fresh (c : Channel) : Endpoint where
  chan := c
  writer := fun _ => .idle
  credits := []
  adjusts := []
  eofDue := false
  removed := false
  failed := none
  written := fun _ => []
  sent := fun _ => []
  got := fun _ => []
  sentBeforeEnd := none

/-- The channel that `handleChannelOpen` makes of an open message. -/
def inboundChannel (localId peersID peersWindow maxPacketSize : UInt32) : Channel :=
  let c := newChannel localId true
  { c with
    remoteId := peersID
    maxRemotePayload := maxPacketSize
    remoteWin := (c.remoteWin.add peersWindow).getD c.remoteWin }

/-- One step of an end whose peer may send any packets that the transport delivers. `Accept`
is a step of the application. -/
inductive PeerStep (e : Endpoint) : Endpoint → Prop
  | accept : e.chan.inbound = true → e.chan.decided = false →
      PeerStep e { e with chan := { e.chan with decided := true } }
  | act (why : Cause) (e' : Endpoint) (out : List Packet) : EndStep e why none e' out →
      PeerStep e e'
  | arrive (why : Cause) (packet : Bytes) (e' : Endpoint) (out : List Packet) :
      packet.length ≤ maxPacket → EndStep e why (some packet) e' out → PeerStep e e'

/-! ## Two ends -/

inductive Side where
  | opener
  | accepter
  deriving DecidableEq, Repr

def Side.other : Side → Side
  | .opener => .accepter
  | .accepter => .opener

/-- The two ends of a channel and the packets on the way to each. -/
structure Link where
  ends : Side → Endpoint
  wire : Side → List Packet

/-- One end takes a step; what it sends joins the packets on the way to the other. -/
inductive LinkStep (l : Link) : Cause → Link → Prop
  | act (s : Side) (why : Cause) (e : Endpoint) (out : List Packet) :
      EndStep (l.ends s) why none e out →
      LinkStep l why {
        ends := Function.update l.ends s e
        wire := Function.update l.wire s.other (l.wire s.other ++ out) }
  | deliver (s : Side) (why : Cause) (p : Packet) (rest : List Packet) (e : Endpoint)
      (out : List Packet) : l.wire s = p :: rest →
      EndStep (l.ends s) why (some (p.encode (l.ends s).chan.localId)) e out →
      LinkStep l why {
        ends := Function.update l.ends s e
        wire := Function.update (Function.update l.wire s rest) s.other
          (l.wire s.other ++ out) }

/-- The end of a channel after `Accept`, and after the confirmation that it sends has been
handled: each knows the other's id, window and payload. -/
def openChannel (inbound : Bool) (localId remoteId : UInt32) : Channel :=
  { newChannel localId inbound with
    remoteId := remoteId
    maxRemotePayload := channelMaxPacket
    decided := true
    remoteWin := { win := channelWindowSize, closed := false } }

/-- Both ends of a channel that has just been opened. -/
def openLink (openerId accepterId : UInt32) : Link where
  ends := fun
    | .opener => .fresh (openChannel false openerId accepterId)
    | .accepter => .fresh (openChannel true accepterId openerId)
  wire := fun _ => []

end FakeSSH.Ssh
