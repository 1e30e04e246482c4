import FakeSSH.Laws.Ssh.Messages
import FakeSSH.Lib.Transition
import FakeSSH.Lib.Weight
import FakeSSH.Ssh.Channel

/-!
# What a channel does with a packet

One lemma for each function of the channel: what a read takes from a buffer, what a
reservation takes from a window, what `adjustWindow` grants, and what `handlePacket` does with
a packet of any peer (`handlePacket_goesOn`) and with one that an end of this package has sent.

With a peer that sends what it likes the channel keeps its accounts: the window that is open,
the data that is not yet read, and what was read and is not yet granted again make up the
window of the beginning, at every moment and in whatever order reads, grants and packets come
(`buffered_bounded`). So no peer makes a channel hold more than the window.
-/

namespace FakeSSH.Ssh

open FakeSSH.Go FakeSSH.Lib Relation

/-! ## Buffers -/

/-- The data that is still to be read. -/
def Buffer.data (b : Buffer) : Bytes := b.head ++ b.later.flatten

@[simp] theorem data_newBuffer : newBuffer.data = [] := rfl

@[simp] theorem Buffer.data_write (b : Buffer) (buf : Bytes) :
    (b.write buf).data = b.data ++ buf := by
  simp [Buffer.data, Buffer.write]

@[simp] theorem Buffer.data_eof (b : Buffer) : b.eof.data = b.data := rfl

@[simp] theorem Buffer.closed_write (b : Buffer) (buf : Bytes) : (b.write buf).closed = b.closed :=
  rfl

theorem copyElements_eq (n : Nat) (head : Bytes) (later : List Bytes) :
    (copyElements n head later).1 = (head ++ later.flatten).take n ∧
      (copyElements n head later).2.1 ++ (copyElements n head later).2.2.flatten =
        (head ++ later.flatten).drop n := by
  induction later generalizing n head with
  | nil => simp [copyElements]
  | cons e later ih =>
    rw [copyElements, List.flatten_cons]
    by_cases fits : n ≤ head.length
    · rw [if_pos fits, List.take_append_of_le_length fits, List.drop_append_of_le_length fits]
      exact ⟨rfl, rfl⟩
    · obtain ⟨more, rest⟩ := ih (n - head.length) e
      rw [if_neg fits, List.take_append, List.drop_append, List.take_of_length_le (by omega),
        List.drop_of_length_le (by omega), ← more, ← rest]
      exact ⟨rfl, rfl⟩

/-- A read takes the first bytes and leaves the others. -/
theorem Buffer.read_got {b b' : Buffer} {n : Nat} {data : Bytes} (h : b.read n = .got data b') :
    data = b.data.take n ∧ b'.data = b.data.drop n ∧ b'.closed = b.closed := by
  obtain ⟨copied, left⟩ := copyElements_eq n b.head b.later
  unfold Buffer.read at h
  dsimp only at h
  split at h
  · cases h
    exact ⟨copied, left, rfl⟩
  · split at h <;> cases h

theorem Buffer.data_eq_nil_of_copied {b : Buffer} {n : Nat}
    (h : ¬ (n = 0 ∨ (copyElements n b.head b.later).1 ≠ [])) : b.data = [] := by
  rw [not_or, not_not, (copyElements_eq n b.head b.later).1] at h
  obtain ⟨positive, nothing⟩ := h
  exact (List.take_eq_nil_iff.mp nothing).resolve_left positive

/-- The end is reported when everything has been read. -/
theorem Buffer.read_eof {b : Buffer} {n : Nat} (h : b.read n = .eof) :
    b.data = [] ∧ b.closed = true := by
  unfold Buffer.read at h
  dsimp only at h
  split at h
  · cases h
  · rename_i none
    split at h
    · exact ⟨data_eq_nil_of_copied none, by assumption⟩
    · cases h

/-- Where there is data a read does not wait for any. -/
theorem Buffer.read_of_data {b : Buffer} {n : Nat} (some : b.data ≠ []) (room : n ≠ 0) :
    ∃ b', b.read n = .got (b.data.take n) b' := by
  obtain ⟨copied, -⟩ := copyElements_eq n b.head b.later
  have something : (copyElements n b.head b.later).1 ≠ [] := by
    rw [copied]
    exact fun h => (List.take_eq_nil_iff.mp h).elim room some
  unfold Buffer.read
  dsimp only
  rw [if_pos (.inr something), copied]
  exact ⟨_, rfl⟩

/-! ## Windows -/

theorem toNat_channelWindowSize : channelWindowSize.toNat = 2097152 := rfl

theorem toNat_channelMaxPacket : channelMaxPacket.toNat = 32768 := rfl

/-- A window grows by what is added. -/
theorem Window.add_eq_some {w : Window} {n : UInt32}
    (fits : w.win.toNat + n.toNat < 0x100000000) :
    ∃ w', w.add n = some w' ∧ w'.win.toNat = w.win.toNat + n.toNat ∧ w'.closed = w.closed := by
  unfold Window.add
  by_cases zero : n = 0
  · rw [if_pos zero, zero]
    exact ⟨w, rfl, rfl, rfl⟩
  · have sum : (w.win + n).toNat = w.win.toNat + n.toNat := by
      rw [UInt32.toNat_add]
      exact Nat.mod_eq_of_lt fits
    rw [if_neg zero, if_neg (by rw [UInt32.lt_iff_toNat_lt, sum]; omega)]
    exact ⟨_, rfl, sum, rfl⟩

/-- What is reserved is taken from the window, and is no more than was asked for. -/
theorem Window.reserve_eq_some {w : Window} {n : UInt32} {r : Reserved}
    (h : w.reserve n = some r) :
    r.win.toNat + r.window.win.toNat = w.win.toNat ∧ r.win.toNat ≤ n.toNat ∧
      r.eof = w.closed ∧ r.window.closed = w.closed ∧
      (r.eof = false → n ≠ 0 → 0 < r.win.toNat) := by
  unfold Window.reserve at h
  rw [Option.ite_none_left_eq_some] at h
  obtain ⟨available, h⟩ := h
  obtain rfl := Option.some.inj h
  dsimp only
  have least : (if w.win < n then w.win else n).toNat = min w.win.toNat n.toNat := by
    split
    · rename_i less
      rw [UInt32.lt_iff_toNat_lt] at less
      omega
    · rename_i enough
      rw [UInt32.lt_iff_toNat_lt] at enough
      omega
  have within : (if w.win < n then w.win else n) ≤ w.win := by
    rw [UInt32.le_iff_toNat_le, least]
    exact Nat.min_le_left _ _
  rw [UInt32.toNat_sub_of_le _ _ within, least]
  refine ⟨by omega, Nat.min_le_right _ _, rfl, rfl, ?_⟩
  intro stillOpen nonzero
  have some : w.win.toNat ≠ 0 := by
    intro zero
    exact available ⟨UInt32.toNat_inj.mp zero, stillOpen⟩
  have asked : n.toNat ≠ 0 := fun zero => nonzero (UInt32.toNat_inj.mp zero)
  omega

/-- A reservation waits only for a window that is used up and open. -/
theorem Window.reserve_eq_none {w : Window} {n : UInt32} (h : w.reserve n = none) :
    w.win.toNat = 0 ∧ w.closed = false := by
  unfold Window.reserve at h
  split at h
  · rename_i used
    exact ⟨congrArg UInt32.toNat used.1, used.2⟩
  · cases h

theorem minPayloadSize_le (limit : UInt32) (n : Nat) :
    (minPayloadSize limit n).toNat ≤ limit.toNat ∧ (minPayloadSize limit n).toNat ≤ n := by
  unfold minPayloadSize
  split
  · omega
  · have := limit.toNat_lt
    rw [UInt32.toNat_ofNat_of_lt' (show n < UInt32.size by simp only [UInt32.size]; omega)]
    omega

theorem minPayloadSize_ne_zero {limit : UInt32} {n : Nat} (hl : limit ≠ 0) (hn : n ≠ 0) :
    minPayloadSize limit n ≠ 0 := by
  unfold minPayloadSize
  split
  · exact hl
  · have := limit.toNat_lt
    intro zero
    have value := congrArg UInt32.toNat zero
    rw [UInt32.toNat_ofNat_of_lt' (show n < UInt32.size by simp only [UInt32.size]; omega)] at value
    exact hn value

/-! ## The accounts of a channel -/

/-- The bytes that wait to be read. -/
def Channel.unread (c : Channel) : Nat := c.pending.data.length + c.extPending.data.length

theorem Channel.buffer_setBuffer (c : Channel) (b : Buffer) (st st' : Stream) :
    (c.setBuffer b st).buffer st' = if st' = st then b else c.buffer st' := by
  cases st <;> cases st' <;> rfl

section SetBuffer

variable (c : Channel) (b : Buffer) (st : Stream)

@[simp] theorem Channel.myWindow_setBuffer : (c.setBuffer b st).myWindow = c.myWindow := by
  cases st <;> rfl

@[simp] theorem Channel.myConsumed_setBuffer : (c.setBuffer b st).myConsumed = c.myConsumed := by
  cases st <;> rfl

@[simp] theorem Channel.maxIncomingPayload_setBuffer :
    (c.setBuffer b st).maxIncomingPayload = c.maxIncomingPayload := by
  cases st <;> rfl

@[simp] theorem Channel.incomingRequests_setBuffer :
    (c.setBuffer b st).incomingRequests = c.incomingRequests := by
  cases st <;> rfl

@[simp] theorem Channel.msg_setBuffer : (c.setBuffer b st).msg = c.msg := by
  cases st <;> rfl

@[simp] theorem Channel.unread_charge (n : UInt32) : (c.charge n).unread = c.unread := rfl

@[simp] theorem Channel.buffer_charge (n : UInt32) : (c.charge n).buffer st = c.buffer st := by
  cases st <;> rfl

end SetBuffer

theorem Channel.unread_setBuffer (c : Channel) (b : Buffer) (st : Stream) :
    (c.setBuffer b st).unread + (c.buffer st).data.length = c.unread + b.data.length := by
  cases st <;> simp only [Channel.setBuffer, Channel.buffer, Channel.unread] <;> omega

/-- What `adjustWindow` does, where the bytes that it counts are within the window: what is
granted opens the window and is owed no more, and where nothing is granted half of the window
is open. -/
theorem Channel.adjustWindow_spec (c : Channel) (adj : UInt32)
    (within : c.myWindow.toNat + c.myConsumed.toNat + adj.toNat ≤ channelWindowSize.toNat) :
    ∃ w m, (c.adjustWindow adj).1 = { c with myWindow := w, myConsumed := m } ∧
      w.toNat = c.myWindow.toNat + (c.adjustWindow adj).2.toNat ∧
      (c.adjustWindow adj).2.toNat + m.toNat = c.myConsumed.toNat + adj.toNat ∧
      (m = 0 ∨ 1048576 ≤ w.toNat) := by
  rw [toNat_channelWindowSize] at within
  have sum : (c.myConsumed + adj).toNat = c.myConsumed.toNat + adj.toNat := by
    rw [UInt32.toNat_add]
    omega
  have nothing : (0 : UInt32).toNat = 0 := UInt32.toNat_zero
  by_cases grant : 3 * c.maxIncomingPayload < channelWindowSize - c.myWindow ∨
      c.myWindow < channelWindowSize / 2
  · rw [Channel.adjustWindow, if_pos grant]
    refine ⟨c.myWindow + (c.myConsumed + adj), 0, rfl, ?_, ?_, .inl rfl⟩
    · rw [UInt32.toNat_add, sum]
      omega
    · rw [sum, nothing, Nat.add_zero]
  · rw [Channel.adjustWindow, if_neg grant]
    have half : (channelWindowSize / 2).toNat = 1048576 := by decide
    rw [not_or, UInt32.not_lt, UInt32.not_lt, UInt32.le_iff_toNat_le, UInt32.le_iff_toNat_le,
      half] at grant
    refine ⟨c.myWindow, c.myConsumed + adj, rfl, ?_, ?_, .inr grant.2⟩
    · rw [nothing, Nat.add_zero]
    · rw [sum, nothing, Nat.zero_add]

/-- Two states of a channel between which no data came or went. -/
structure Channel.SameReceiving (c c' : Channel) : Prop where
  myWindow : c'.myWindow = c.myWindow
  myConsumed : c'.myConsumed = c.myConsumed
  payload : c'.maxIncomingPayload = c.maxIncomingPayload
  pending : c'.pending.data = c.pending.data
  extPending : c'.extPending.data = c.extPending.data

/-- The queues keep to their capacity. -/
structure Channel.Queues (c : Channel) : Prop where
  requests : c.incomingRequests.length ≤ chanSize
  msgs : c.msg.length ≤ chanSize

/-- What data that is accepted does: nothing, where there is none; it is charged to the window
and kept for a stream, or charged and to be granted again. -/
inductive Charges (c : Channel) : Channel → UInt32 → Prop
  | empty : Charges c c 0
  | kept (n : UInt32) (st : Stream) (data : Bytes) : n ≤ c.myWindow → data.length = n.toNat →
      Charges c ((c.charge n).setBuffer ((c.buffer st).write data) st) 0
  | discarded (n : UInt32) : n ≤ c.myWindow → Charges c (c.charge n) n

theorem Channel.handleData_ok {c c' : Channel} {packet : Bytes} {credit : UInt32}
    (short : packet.length ≤ maxPacket) (h : c.handleData packet = .ok (c', credit)) :
    Charges c c' credit := by
  unfold Channel.handleData at h
  dsimp only at h
  generalize (if packet.headD 0 = msgChannelExtendedData then ofBE ((packet.drop 5).take 4)
    else 0) = extended at h
  generalize (if packet.headD 0 = msgChannelExtendedData then 13 else 9) = headerLen at h
  generalize UInt32.ofNat (ofBE ((packet.drop (headerLen - 4)).take 4)) = n at h
  have long : (packet.drop headerLen).length < UInt32.size := by
    simp only [maxPacket] at short
    simp only [List.length_drop, UInt32.size]
    omega
  split at h
  · cases h
  split at h
  · cases h
    exact .empty
  split at h
  · cases h
  split at h
  · cases h
  split at h
  · cases h
  rename_i equal room
  rw [not_not] at equal
  have len : (packet.drop headerLen).length = n.toNat := by
    rw [equal, UInt32.toNat_ofNat_of_lt' long]
  have enough : n ≤ c.myWindow := UInt32.not_lt.mp room
  split at h
  · cases h
    exact .kept n .stderr (packet.drop headerLen) enough len
  split at h
  · cases h
    exact .discarded _ enough
  · cases h
    exact .kept n .data (packet.drop headerLen) enough len

/-- Two states of a channel between which no data came or went and no queue overflowed. -/
structure Channel.Quiet (c c' : Channel) : Prop extends c.SameReceiving c', c'.Queues

theorem Channel.responseMessageReceived_ok {c c' : Channel}
    (h : c.responseMessageReceived = .ok c') : c' = { c with decided := true } := by
  rw [Channel.responseMessageReceived] at h
  split at h
  · cases h
  split at h <;> cases h
  rfl

/-- A message other than data, the end and the close leaves the accounts alone. -/
theorem Channel.handleMessage_cases {c : Channel} (queues : c.Queues) (d : Decoded) :
    c.handleMessage d = .blocks ∨ (∃ e, c.handleMessage d = .fails e) ∨
      ∃ c', c.Quiet c' ∧ (c.handleMessage d = .goesOn c' 0 ∨ c.handleMessage d = .removes c') := by
  have msgs {c' : Channel} (m : ChannelMsg) (same : c.SameReceiving c')
      (hr : c'.incomingRequests = c.incomingRequests) (hm : c'.msg = c.msg ++ [m])
      (room : c.msg.length < chanSize) : c.Quiet c' := by
    refine ⟨same, ⟨hr ▸ queues.requests, ?_⟩⟩
    rw [hm, List.length_append]
    exact room
  rw [Channel.handleMessage]
  split
  · split
    · exact .inr (.inl ⟨_, rfl⟩)
    · rename_i h
      obtain rfl := responseMessageReceived_ok h
      split
      · refine .inr (.inr ⟨_, ?_, .inr rfl⟩)
        exact msgs _ ⟨rfl, rfl, rfl, rfl, rfl⟩ rfl rfl ‹_›
      · exact .inl rfl
  split
  · split
    · exact .inr (.inl ⟨_, rfl⟩)
    · rename_i h
      obtain rfl := responseMessageReceived_ok h
      split
      · exact .inr (.inl ⟨_, rfl⟩)
      split
      · refine .inr (.inr ⟨_, ?_, .inl rfl⟩)
        exact msgs _ ⟨rfl, rfl, rfl, rfl, rfl⟩ rfl rfl ‹_›
      · exact .inl rfl
  split
  · split
    · exact .inr (.inl ⟨_, rfl⟩)
    · refine .inr (.inr ⟨_, ?_, .inl rfl⟩)
      exact ⟨⟨rfl, rfl, rfl, rfl, rfl⟩, queues.1, queues.2⟩
  split
  · split
    · rename_i room
      refine .inr (.inr ⟨_, ?_, .inl rfl⟩)
      refine ⟨⟨rfl, rfl, rfl, rfl, rfl⟩, ?_, queues.msgs⟩
      rw [List.length_append]
      exact room
    · exact .inl rfl
  split
  · split
    · rename_i room
      refine .inr (.inr ⟨_, ?_, .inl rfl⟩)
      exact msgs _ ⟨rfl, rfl, rfl, rfl, rfl⟩ rfl rfl room.2
    · exact .inr (.inr ⟨c, ⟨⟨rfl, rfl, rfl, rfl, rfl⟩, queues⟩, .inl rfl⟩)
  split
  · refine .inr (.inr ⟨_, ?_, .inl rfl⟩)
    exact msgs _ ⟨rfl, rfl, rfl, rfl, rfl⟩ rfl rfl ‹_›
  · exact .inl rfl

/-- What a packet of any peer comes to. -/
theorem Channel.handlePacket_cases {c : Channel} {packet : Bytes} (queues : c.Queues)
    (short : packet.length ≤ maxPacket) :
    c.handlePacket packet = .blocks ∨ (∃ e, c.handlePacket packet = .fails e) ∨
      (∃ c' credit, Charges c c' credit ∧ c.handlePacket packet = .goesOn c' credit) ∨
      (∃ c', c.Quiet c' ∧
        (c.handlePacket packet = .goesOn c' 0 ∨ c.handlePacket packet = .removes c')) ∨
      c.handlePacket packet = .closes c.close := by
  cases packet with
  | nil => exact .inr (.inl ⟨_, rfl⟩)
  | cons t data =>
    rw [Channel.handlePacket]
    split
    · cases h : c.handleData (t :: data) with
      | error e => exact .inr (.inl ⟨e, rfl⟩)
      | ok r =>
        obtain ⟨c', credit⟩ := r
        exact .inr (.inr (.inl ⟨c', credit, handleData_ok short h, rfl⟩))
    split
    · exact .inr (.inr (.inr (.inr rfl)))
    split
    · refine .inr (.inr (.inr (.inl ⟨_, ?_, .inl rfl⟩)))
      exact ⟨⟨rfl, rfl, rfl, rfl, rfl⟩, queues.1, queues.2⟩
    · cases decode t data with
      | error e => exact .inr (.inl ⟨_, rfl⟩)
      | ok d =>
        rcases handleMessage_cases queues d with h | h | h
        · exact .inl h
        · exact .inr (.inl h)
        · exact .inr (.inr (.inr (.inl h)))

/-- The mux loop waits only where a queue is full. -/
theorem Channel.handleMessage_blocks {c : Channel} {d : Decoded}
    (h : c.handleMessage d = .blocks) :
    chanSize ≤ c.incomingRequests.length ∨ chanSize ≤ c.msg.length := by
  rw [Channel.handleMessage] at h
  split at h
  · split at h
    · cases h
    · rename_i answered
      obtain rfl := responseMessageReceived_ok answered
      split at h
      · cases h
      · exact .inr (not_lt.mp ‹_›)
  split at h
  · split at h
    · cases h
    · rename_i answered
      obtain rfl := responseMessageReceived_ok answered
      split at h
      · cases h
      split at h
      · cases h
      · exact .inr (not_lt.mp ‹_›)
  split at h
  · split at h <;> cases h
  split at h
  · split at h
    · cases h
    · exact .inl (not_lt.mp ‹_›)
  split at h
  · split at h <;> cases h
  split at h
  · cases h
  · exact .inr (not_lt.mp ‹_›)

theorem Channel.handlePacket_blocks {c : Channel} {packet : Bytes}
    (h : c.handlePacket packet = .blocks) :
    chanSize ≤ c.incomingRequests.length ∨ chanSize ≤ c.msg.length := by
  cases packet with
  | nil => cases h
  | cons t data =>
    rw [Channel.handlePacket] at h
    split at h
    · split at h <;> cases h
    split at h
    · cases h
    split at h
    · cases h
    split at h
    · cases h
    · exact handleMessage_blocks h

/-! ## Packets of the other end -/

/-- Data that fits is charged to the window and kept. -/
theorem Channel.handleData_eq {c : Channel} {packet todo : Bytes} {headerLen extended : Nat}
    (header : (if packet.headD 0 = msgChannelExtendedData then 13 else 9) = headerLen)
    (code : (if packet.headD 0 = msgChannelExtendedData then ofBE ((packet.drop 5).take 4)
      else 0) = extended)
    (length : (packet.drop (headerLen - 4)).take 4 = appendInt todo.length)
    (body : packet.drop headerLen = todo)
    (payload : c.maxIncomingPayload = channelMaxPacket) (some : todo ≠ [])
    (small : todo.length ≤ channelMaxPacket.toNat) (room : todo.length ≤ c.myWindow.toNat) :
    c.handleData packet =
      let c := c.charge (UInt32.ofNat todo.length)
      if extended = 1 then .ok ({ c with extPending := c.extPending.write todo }, 0)
      else if 0 < extended then .ok (c, UInt32.ofNat todo.length)
      else .ok ({ c with pending := c.pending.write todo }, 0) := by
  rw [toNat_channelMaxPacket] at small
  have len : (UInt32.ofNat todo.length).toNat = todo.length :=
    UInt32.toNat_ofNat_of_lt' (by simp only [UInt32.size]; omega)
  have value : UInt32.ofNat (ofBE (appendInt todo.length)) = UInt32.ofNat todo.length := by
    rw [← toBE_eq_appendInt (by omega), ofBE_toBE_of_lt (by omega)]
  have long : ¬ packet.length < headerLen := by
    intro cut
    apply some
    rw [← body]
    exact List.drop_eq_nil_of_le (Nat.le_of_lt cut)
  have nonzero : UInt32.ofNat todo.length ≠ 0 := by
    intro zero
    rw [zero] at len
    exact some (List.length_eq_zero_iff.mp len.symm)
  have bounded : ¬ c.maxIncomingPayload < UInt32.ofNat todo.length := by
    rw [payload, UInt32.lt_iff_toNat_lt, len, toNat_channelMaxPacket]
    omega
  have enough : ¬ c.myWindow < UInt32.ofNat todo.length := by
    rw [UInt32.lt_iff_toNat_lt, len]
    omega
  rw [Channel.handleData]
  dsimp only
  rw [header, code, length, value, body, if_neg long, if_neg nonzero, if_neg bounded,
    if_neg (not_not.mpr rfl), if_neg enough]

/-- Data of the other end is kept for its stream. -/
theorem Channel.handlePacket_data {c : Channel} (id : UInt32) (st : Stream) {todo : Bytes}
    (payload : c.maxIncomingPayload = channelMaxPacket) (some : todo ≠ [])
    (small : todo.length ≤ channelMaxPacket.toNat) (room : todo.length ≤ c.myWindow.toNat) :
    c.handlePacket ((Packet.data st todo).encode id) =
      .goesOn ((c.charge (UInt32.ofNat todo.length)).setBuffer ((c.buffer st).write todo) st)
        0 := by
  cases st with
  | data =>
    have encoded : (Packet.data .data todo).encode id =
        msgChannelData :: (appendU32 id ++ (appendInt todo.length ++ todo)) := rfl
    have handled : c.handleData (msgChannelData ::
        (appendU32 id ++ (appendInt todo.length ++ todo))) =
        .ok ((c.charge (UInt32.ofNat todo.length)).setBuffer (c.pending.write todo) .data, 0) :=
      handleData_eq rfl rfl rfl rfl payload some small room
    rw [encoded, Channel.handlePacket, if_pos (.inl rfl), handled]
    rfl
  | stderr =>
    have encoded : (Packet.data .stderr todo).encode id =
        msgChannelExtendedData ::
          (appendU32 id ++ (appendU32 1 ++ (appendInt todo.length ++ todo))) := rfl
    have handled : c.handleData (msgChannelExtendedData ::
        (appendU32 id ++ (appendU32 1 ++ (appendInt todo.length ++ todo)))) =
        .ok ((c.charge (UInt32.ofNat todo.length)).setBuffer (c.extPending.write todo) .stderr,
          0) :=
      handleData_eq rfl rfl rfl rfl payload some small room
    rw [encoded, Channel.handlePacket, if_pos (.inr rfl), handled]
    rfl

/-- What becomes of a message of one of the known types. -/
theorem Channel.handlePacket_marshal {c : Channel} {t : UInt8} {L : Layout}
    (known : (t, L) ∈ decodeCases) (vs : L.Values) (fit : ValuesFit L.fields vs)
    (short : (L.marshal vs).length ≤ maxPacket)
    (other : t ≠ msgChannelData ∧ t ≠ msgChannelExtendedData ∧ t ≠ msgChannelClose ∧
      t ≠ msgChannelEOF) :
    c.handlePacket (L.marshal vs) = c.handleMessage (.message L vs) := by
  obtain ⟨data, extended, close, eof⟩ := other
  simp only [maxPacket] at short
  rw [Layout.marshal_of_mem known, Channel.handlePacket, if_neg (not_or.mpr ⟨data, extended⟩),
    if_neg close, if_neg eof, decode_marshalValues known vs fit (by omega)]

theorem Channel.handlePacket_windowAdjust {c : Channel} (id n : UInt32) :
    c.handlePacket ((Packet.windowAdjust n).encode id) =
      match c.remoteWin.add n with
      | none => .fails (.invalidWindowUpdate n)
      | some w => .goesOn { c with remoteWin := w } 0 := by
  have short : (windowAdjustMsg.marshal (id, n, ())).length = 9 := rfl
  rw [Packet.encode, handlePacket_marshal (L := windowAdjustMsg) (t := 93) (by decide) (id, n, ())
    ⟨trivial, trivial, trivial⟩ (by rw [short]; decide) (by decide)]
  rfl

theorem Channel.handlePacket_request {c : Channel} (id : UInt32) (r : ChannelRequest)
    (short : ((Packet.request r).encode id).length ≤ maxPacket) :
    c.handlePacket ((Packet.request r).encode id) =
      if c.incomingRequests.length < chanSize then
        .goesOn { c with incomingRequests := c.incomingRequests ++ [r] } 0
      else .blocks := by
  rw [Packet.encode] at short ⊢
  rw [handlePacket_marshal (L := channelRequestMsg) (t := 98) (by decide)
    (id, r.type, r.wantReply, r.payload, ()) ⟨trivial, trivial, trivial, trivial, trivial⟩ short
    (by decide)]
  rfl

theorem Channel.handlePacket_success {c : Channel} (id : UInt32) :
    c.handlePacket (Packet.success.encode id) =
      if c.sentRequestPending ∧ c.msg.length < chanSize then
        .goesOn { c with msg := c.msg ++ [.success] } 0
      else .goesOn c 0 := by
  have short : (channelRequestSuccessMsg.marshal (id, ())).length = 5 := rfl
  rw [Packet.encode, handlePacket_marshal (L := channelRequestSuccessMsg) (t := 99) (by decide)
    (id, ()) ⟨trivial, trivial⟩ (by rw [short]; decide) (by decide)]
  rfl

theorem Channel.handlePacket_failure {c : Channel} (id : UInt32) :
    c.handlePacket (Packet.failure.encode id) =
      if c.sentRequestPending ∧ c.msg.length < chanSize then
        .goesOn { c with msg := c.msg ++ [.failure] } 0
      else .goesOn c 0 := by
  have short : (channelRequestFailureMsg.marshal (id, ())).length = 5 := rfl
  rw [Packet.encode, handlePacket_marshal (L := channelRequestFailureMsg) (t := 100) (by decide)
    (id, ()) ⟨trivial, trivial⟩ (by rw [short]; decide) (by decide)]
  rfl

theorem Channel.handlePacket_eof {c : Channel} (id : UInt32) :
    c.handlePacket (Packet.eof.encode id) =
      .goesOn { c with extPending := c.extPending.eof, pending := c.pending.eof } 0 := rfl

theorem Channel.handlePacket_close {c : Channel} (id : UInt32) :
    c.handlePacket (Packet.close.encode id) = .closes c.close := rfl

/-! ## Any peer -/

/-- The accounts of an end: nothing of the window is lost and nothing is granted twice. -/
structure Endpoint.Accounts (e : Endpoint) : Prop where
  balance : e.chan.myWindow.toNat + e.chan.unread + weigh UInt32.toNat e.credits +
    e.chan.myConsumed.toNat = channelWindowSize.toNat
  queues : e.chan.Queues

theorem Endpoint.Accounts.of_quiet {e e' : Endpoint} (acc : e.Accounts)
    (quiet : e.chan.Quiet e'.chan) (credits : e'.credits = e.credits) : e'.Accounts := by
  refine ⟨?_, quiet.toQueues⟩
  have balance := acc.balance
  rw [Channel.unread] at balance ⊢
  rw [credits, quiet.myWindow, quiet.myConsumed, quiet.pending, quiet.extPending]
  exact balance

/-- What is charged to the window is taken from it. -/
theorem Channel.toNat_charge {c : Channel} {n : UInt32} (within : n ≤ c.myWindow) :
    (c.charge n).myWindow.toNat + n.toNat = c.myWindow.toNat := by
  have less := UInt32.le_iff_toNat_le.mp within
  rw [Channel.charge, UInt32.toNat_sub_of_le _ _ within]
  exact Nat.sub_add_cancel less

theorem Endpoint.Accounts.of_charges {e : Endpoint} {c' : Channel} {credit : UInt32}
    (acc : e.Accounts) (h : Charges e.chan c' credit) :
    { e with
      chan := c'
      credits := if credit = 0 then e.credits else e.credits ++ [credit] }.Accounts := by
  have balance := acc.balance
  cases h with
  | empty => exact ⟨balance, acc.queues⟩
  | kept n st data within len =>
    have charged := Channel.toNat_charge within
    have consumed : (e.chan.charge n).myConsumed = e.chan.myConsumed := rfl
    have unread := Channel.unread_setBuffer (e.chan.charge n) ((e.chan.buffer st).write data) st
    rw [Channel.buffer_charge, Channel.unread_charge, Buffer.data_write, List.length_append,
      len] at unread
    refine ⟨?_, ?_, ?_⟩
    · dsimp only
      rw [if_pos rfl, Channel.myWindow_setBuffer, Channel.myConsumed_setBuffer, consumed]
      omega
    · rw [Channel.incomingRequests_setBuffer]
      exact acc.queues.requests
    · rw [Channel.msg_setBuffer]
      exact acc.queues.msgs
  | discarded _ within =>
    have charged := Channel.toNat_charge within
    have consumed : (e.chan.charge credit).myConsumed = e.chan.myConsumed := rfl
    refine ⟨?_, acc.queues.1, acc.queues.2⟩
    dsimp only
    rw [Channel.unread_charge, consumed]
    by_cases zero : credit = 0
    · rw [if_pos zero]
      have nothing := congrArg UInt32.toNat zero
      rw [UInt32.toNat_zero] at nothing
      omega
    · rw [if_neg zero, weigh_append, weigh_cons, weigh_nil]
      omega

/-- Every step of an end keeps its accounts. -/
theorem Endpoint.Accounts.step {e e' : Endpoint} {why : Cause} {arrived : Option Bytes}
    {out : List Packet} (acc : e.Accounts) (short : ∀ p, arrived = some p → p.length ≤ maxPacket)
    (h : EndStep e why arrived e' out) : e'.Accounts := by
  have balance := acc.balance
  cases h with
  | write | reserve | reserveClosed | send | sendLate | adjust | adjustLate | closeWrite |
    sendEOF | sendEOFLate | close | request | reply | gate | handleFail =>
    exact ⟨balance, acc.queues.1, acc.queues.2⟩
  | takeRequest r rest hq =>
    have := acc.queues.requests
    rw [hq, List.length_cons] at this
    exact ⟨balance, Nat.le_of_succ_le this, acc.queues.2⟩
  | takeMsg m rest hq =>
    have := acc.queues.msgs
    rw [hq, List.length_cons] at this
    exact ⟨balance, acc.queues.1, Nat.le_of_succ_le this⟩
  | read st n data b decided hread some =>
    obtain ⟨taken, left, -⟩ := Buffer.read_got hread
    have unread := Channel.unread_setBuffer e.chan b st
    have split : data.length + b.data.length = (e.chan.buffer st).data.length := by
      rw [taken, left, ← List.length_append, List.take_append_drop]
    have small : data.length < UInt32.size := by
      rw [toNat_channelWindowSize] at balance
      simp only [UInt32.size]
      omega
    refine ⟨?_, ?_, ?_⟩
    · dsimp only
      rw [weigh_append, weigh_cons, weigh_nil, UInt32.toNat_ofNat_of_lt' small,
        Channel.myWindow_setBuffer, Channel.myConsumed_setBuffer]
      omega
    · rw [Channel.incomingRequests_setBuffer]
      exact acc.queues.requests
    · rw [Channel.msg_setBuffer]
      exact acc.queues.msgs
  | credit before after adj hc =>
    rw [hc, weigh_append, weigh_cons] at balance
    obtain ⟨w, m, hadj, window, owed, -⟩ :=
      Channel.adjustWindow_spec e.chan adj (by omega)
    rw [hadj]
    refine ⟨?_, acc.queues.1, acc.queues.2⟩
    have unread : ({ e.chan with myWindow := w, myConsumed := m } : Channel).unread =
        e.chan.unread := rfl
    rw [unread, weigh_append]
    dsimp only
    omega
  | handle packet c credit here good hp =>
    rcases Channel.handlePacket_cases acc.queues (short packet rfl) with
      h | ⟨err, h⟩ | ⟨c', credit', charges, h⟩ | ⟨c', quiet, h | h⟩ | h <;>
      rw [h] at hp <;> cases hp
    · exact acc.of_charges charges
    · exact acc.of_quiet quiet rfl
  | handleRemove packet c here good hp =>
    rcases Channel.handlePacket_cases acc.queues (short packet rfl) with
      h | ⟨err, h⟩ | ⟨c', credit', charges, h⟩ | ⟨c', quiet, h | h⟩ | h <;>
      rw [h] at hp <;> cases hp
    exact acc.of_quiet quiet rfl
  | handleClose packet c here good hp =>
    rcases Channel.handlePacket_cases acc.queues (short packet rfl) with
      h | ⟨err, h⟩ | ⟨c', credit', charges, h⟩ | ⟨c', quiet, h | h⟩ | h <;>
      rw [h] at hp <;> cases hp
    exact ⟨balance, acc.queues.1, acc.queues.2⟩
  | handleCloseLate packet c here good hp =>
    rcases Channel.handlePacket_cases acc.queues (short packet rfl) with
      h | ⟨err, h⟩ | ⟨c', credit', charges, h⟩ | ⟨c', quiet, h | h⟩ | h <;>
      rw [h] at hp <;> cases hp
    exact ⟨balance, acc.queues.1, acc.queues.2⟩

theorem Endpoint.Accounts.peerStep {e e' : Endpoint} (acc : e.Accounts) (h : PeerStep e e') :
    e'.Accounts := by
  cases h with
  | accept => exact ⟨acc.balance, acc.queues.1, acc.queues.2⟩
  | act why _ out step =>
    apply acc.step _ step
    intro p none
    cases none
  | arrive why packet _ out short step =>
    exact acc.step (fun p same => Option.some.inj same ▸ short) step

/-- Whatever a peer sends, and in whatever order it is read and granted again, a channel holds
no more unread data than its window, and its queues hold no more than their capacity. What may
still come without an error is what is left of the window. -/
theorem buffered_bounded {c : Channel} {e : Endpoint}
    (start : (∃ id, c = newChannel id false) ∨ ∃ id pid window size,
      c = inboundChannel id pid window size)
    (run : ReflTransGen PeerStep (.fresh c) e) :
    e.chan.unread + e.chan.myWindow.toNat ≤ channelWindowSize.toNat ∧
      e.chan.incomingRequests.length ≤ chanSize ∧ e.chan.msg.length ≤ chanSize := by
  have fresh : (Endpoint.fresh c).Accounts := by
    rcases start with ⟨id, rfl⟩ | ⟨id, pid, window, size, rfl⟩
    · exact ⟨rfl, Nat.zero_le _, Nat.zero_le _⟩
    · exact ⟨rfl, Nat.zero_le _, Nat.zero_le _⟩
  have acc := invariant_of_steps (fun _ _ acc step => acc.peerStep step) fresh run
  have balance := acc.balance
  exact ⟨by omega, acc.queues.requests, acc.queues.msgs⟩

/-- After five bytes of a peer. -/
theorem buffered_bounded_hello :
    let c := inboundChannel 3 7 0 32768
    let e := { Endpoint.fresh c with
      chan := (c.charge 5).setBuffer (c.pending.write (str "hello")) .data }
    e.chan.unread + e.chan.myWindow.toNat ≤ channelWindowSize.toNat ∧
      e.chan.incomingRequests.length ≤ chanSize ∧ e.chan.msg.length ≤ chanSize := by
  refine buffered_bounded (c := inboundChannel 3 7 0 32768) (.inr ⟨3, 7, 0, 32768, rfl⟩)
    (.single (.arrive .work (dataPacket 3 0 (str "hello")) _ [] (by decide) ?_))
  exact EndStep.handle _ _ 0 rfl rfl rfl

end FakeSSH.Ssh
