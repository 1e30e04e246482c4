import FakeSSH.Lib.Pipe
import FakeSSH.Lib.Transition
import FakeSSH.Ssh.Transport
import FakeSSH.Laws.Ssh.Cipher

/-!
# A direction is a queue of packets

Between the writer of one end and the reader of the other lies a stream of bytes, under keys and
sequence numbers that change at every `NEWKEYS`, and the writer may be several key changes ahead.
Where the ciphers that the ends prepare for each change are in step, the stream is a queue: in
every interleaving of writes, reads and key preparations at the two ends, the reader gets the
packets in their order and unchanged, and no read fails (`packets_arrive`). Nothing is held up:
where the queue is empty, a packet that is written can be read at once (`LaneInv.pass`).
-/

namespace FakeSSH.Ssh

open FakeSSH.Go FakeSSH.Lib Relation

variable {packet bytes sent rest : Bytes} {strict strictMode : Bool}

/-! ## Positions -/

/-- The ciphers of a direction, for each of its key changes. -/
structure KeySchedule where
  writer : Nat → PacketCipher
  reader : Nat → PacketCipher
  inStep : ∀ n, (writer n).InStep (reader n)

/-- Where an end of a direction has got to. -/
structure Position where
  cipher : PacketCipher
  seqNum : UInt32
  keyChanges : Nat

/-- The position behind a packet. -/
def Position.next (p : Position) (ciphers : Nat → PacketCipher) (strict : Bool) (packet : Bytes)
    (cipher : PacketCipher) : Position :=
  if packet.head? = some msgNewKeys then
    ⟨ciphers p.keyChanges, if strict then 0 else p.seqNum + 1, p.keyChanges + 1⟩
  else ⟨cipher, p.seqNum + 1, p.keyChanges⟩

/-- The ends are in step. -/
structure Position.InStep (w r : Position) : Prop where
  cipher : w.cipher.InStep r.cipher
  seqNum : r.seqNum = w.seqNum
  keyChanges : r.keyChanges = w.keyChanges

/-- A packet that the reader of the other end will take. -/
structure Fits (cipher : PacketCipher) (packet : Bytes) : Prop where
  nonempty : packet ≠ []
  length : cipher.lengthField packet ≤ maxPacket

theorem Position.InStep.next {w r : Position} {cw cr : PacketCipher} (h : w.InStep r)
    (K : KeySchedule) (strict : Bool) (packet : Bytes) (ciphers : cw.InStep cr) :
    (w.next K.writer strict packet cw).InStep (r.next K.reader strict packet cr) := by
  unfold Position.next
  split
  · exact ⟨by rw [h.keyChanges]; exact K.inStep _, by rw [h.seqNum], by rw [h.keyChanges]⟩
  · exact ⟨ciphers, by rw [h.seqNum], h.keyChanges⟩

/-- A direction, as a format of packets. -/
def KeySchedule.pipe (K : KeySchedule) (strict : Bool) : Pipe Position Position Bytes UInt8 where
  Writes w packet sent w' := Fits w.cipher packet ∧ ∃ rand cipher,
    w.cipher.write w.seqNum rand packet = .ok (sent, cipher) ∧
    w' = w.next K.writer strict packet cipher
  read r bytes := match r.cipher.read r.seqNum bytes with
    | .error _ => none
    | .ok (packet, rest, cipher) => some (packet, rest, r.next K.reader strict packet cipher)
  InStep w r := w.InStep r
  read_written := by
    rintro w r packet sent w' inStep ⟨fits, rand, cipher, written, rfl⟩
    obtain ⟨sent', cw, cr, written', read, next⟩ :=
      inStep.cipher.read_write w.seqNum rand fits.nonempty fits.length
    obtain ⟨rfl, rfl⟩ : sent = sent' ∧ cipher = cw := by
      rw [written] at written'
      cases written'
      exact ⟨rfl, rfl⟩
    exact ⟨r.next K.reader strict packet cr,
      fun rest => by rw [inStep.seqNum, read rest], inStep.next K strict packet next⟩

theorem KeySchedule.read_eq_some {K : KeySchedule} {r r' : Position}
    (h : (K.pipe strict).read r bytes = some (packet, rest, r')) :
    ∃ cipher, r.cipher.read r.seqNum bytes = .ok (packet, rest, cipher) ∧
      r' = r.next K.reader strict packet cipher := by
  revert h
  simp only [KeySchedule.pipe]
  split
  · intro h
    cases h
  · rename_i packet rest cipher read
    intro h
    cases h
    exact ⟨cipher, read, rfl⟩

/-! ## The state of an end -/

/-- The state of an end stands at a position, and what it has prepared is the next cipher. -/
structure ConnectionState.At (s : ConnectionState) (p : Position)
    (ciphers : Nat → PacketCipher) : Prop where
  cipher : s.packetCipher = p.cipher
  seqNum : s.seqNum = p.seqNum
  pending : ∀ c ∈ s.pendingKeyChange, c = ciphers p.keyChanges

namespace ConnectionState

variable {s s' : ConnectionState} {p : Position} {ciphers : Nat → PacketCipher}

/-- The keys that an end has been given: those in use, and those prepared. -/
def given (s : ConnectionState) (p : Position) : Nat :=
  p.keyChanges + if s.pendingKeyChange.isSome then 1 else 0

/-- The state behind a packet stands at the position behind it. -/
theorem At.after (h : s.At p ciphers) (cipher : PacketCipher)
    (next : s.after packet cipher strictMode = some s')
    (agreed : packet.head? = some msgNewKeys → strictMode = strict) :
    s'.At (p.next ciphers strict packet cipher) ciphers ∧
      s'.given (p.next ciphers strict packet cipher) = s.given p := by
  unfold ConnectionState.after at next
  unfold Position.next given
  split at next
  · rename_i changes
    obtain ⟨c, hc, rfl⟩ := Option.map_eq_some_iff.mp next
    rw [if_pos changes, hc]
    refine ⟨⟨h.pending c hc, ?_, fun c hc => by cases hc⟩, rfl⟩
    simp only [h.seqNum, agreed changes]
  · rename_i same
    cases next
    rw [if_neg same]
    exact ⟨⟨rfl, by rw [h.seqNum], h.pending⟩, rfl⟩

theorem exists_after (s : ConnectionState) (cipher : PacketCipher)
    (prepared : packet.head? = some msgNewKeys → s.pendingKeyChange.isSome) :
    ∃ s', s.after packet cipher strictMode = some s' := by
  unfold ConnectionState.after
  split
  · rename_i changes
    obtain ⟨c, hc⟩ := Option.isSome_iff_exists.mp (prepared changes)
    exact ⟨_, by rw [hc]; rfl⟩
  · exact ⟨_, rfl⟩

theorem pending_after {cipher : PacketCipher} (next : s.after packet cipher strictMode = some s') :
    s'.pendingKeyChange =
      if packet.head? = some msgNewKeys then none else s.pendingKeyChange := by
  unfold ConnectionState.after at next
  split at next
  · rename_i changes
    obtain ⟨c, -, rfl⟩ := Option.map_eq_some_iff.mp next
    rw [if_pos changes]
  · rename_i same
    cases next
    rw [if_neg same]

theorem writePacket_eq_ok {rand : Nat → UInt8}
    (h : s.writePacket rand packet strictMode = .ok (sent, s')) :
    ∃ cipher, s.packetCipher.write s.seqNum rand packet = .ok (sent, cipher) ∧
      s.after packet cipher strictMode = some s' := by
  unfold writePacket at h
  split at h
  · cases h
  · rename_i sent cipher written
    split at h
    · cases h
    · rename_i next
      cases h
      exact ⟨cipher, written, next⟩

theorem readPacket_eq_ok (h : s.readPacket bytes strictMode = .ok (packet, rest, s')) :
    ∃ cipher, s.packetCipher.read s.seqNum bytes = .ok (packet, rest, cipher) ∧
      s.after packet cipher strictMode = some s' := by
  unfold readPacket at h
  split at h
  · cases h
  · rename_i packet rest cipher read
    split at h
    · cases h
    · split at h
      · cases h
      · rename_i next
        split at h
        · split at h <;> cases h
        · cases h
          exact ⟨cipher, read, next⟩

/-- A read of a packet that is there, with keys for it if it changes them. -/
theorem readPacket_of_read {cipher : PacketCipher}
    (read : s.packetCipher.read s.seqNum bytes = .ok (packet, rest, cipher))
    (nonempty : packet ≠ []) (goesOn : packet.head? ≠ some msgDisconnect)
    (next : s.after packet cipher strictMode = some s') :
    s.readPacket bytes strictMode = .ok (packet, rest, s') := by
  unfold readPacket
  rw [read]
  dsimp only
  rw [if_neg nonempty, next]
  exact if_neg goesOn

end ConnectionState

theorem Transport.setStrictMode_eq_ok {t t' : Transport} (h : t.setStrictMode = .ok t') :
    t' = { t with strictMode := true } := by
  unfold Transport.setStrictMode at h
  split at h
  · cases h
  · cases h
    rfl

theorem Transport.writePacket_eq_ok {t t' : Transport} {rand : Nat → UInt8}
    (h : t.writePacket rand packet = .ok (sent, t')) :
    ∃ w, t.writer.writePacket rand packet t.strictMode = .ok (sent, w) ∧
      t' = { t with writer := w } := by
  unfold Transport.writePacket at h
  split at h
  · cases h
  · rename_i sent w written
    cases h
    exact ⟨w, written, rfl⟩

/-! ## The two ends of a direction -/

/-- A direction between two transports, with the keys that its ends have been given and what has
been written and read. -/
structure Lane where
  writer : Transport
  writerKeys : Nat
  wire : Bytes
  reader : Transport
  readerKeys : Nat
  sent : List Bytes
  received : List Bytes

/-- The direction of two transports that are new. -/
def Lane.new (writer reader : Transport) : Lane := ⟨writer, 0, [], reader, 0, [], []⟩

/-- What the ends of a direction do; a read is a turn of the loop of `readPacket`. The keys of each
change come in their order, an end is given no new ones while it has not put the last ones to use,
and at a change of keys both ends are in the mode that they have agreed on, which is `strict`. What
the transports do in the other direction may be anything. -/
inductive LaneStep (K : KeySchedule) (strict : Bool) (l : Lane) : Lane → Prop
  | write (rand : Nat → UInt8) (packet out : Bytes) (w : Transport) :
    Fits l.writer.writer.packetCipher packet →
    (packet.head? = some msgNewKeys → l.writer.strictMode = strict) →
    l.writer.writePacket rand packet = .ok (out, w) →
    LaneStep K strict l
      { l with writer := w, wire := l.wire ++ out, sent := l.sent ++ [packet] }
  | read (packet rest : Bytes) (r : ConnectionState) :
    (packet.head? = some msgNewKeys → l.reader.strictMode = strict) →
    l.reader.reader.readPacket l.wire l.reader.strictMode = .ok (packet, rest, r) →
    LaneStep K strict l
      { l with
        reader := { l.reader with reader := r }
        wire := rest
        received := l.received ++ [packet] }
  | prepareWriter : l.writer.writer.pendingKeyChange = none →
    LaneStep K strict l
      { l with
        writer := { l.writer with
          writer := { l.writer.writer with pendingKeyChange := some (K.writer l.writerKeys) } }
        writerKeys := l.writerKeys + 1 }
  | prepareReader : l.reader.reader.pendingKeyChange = none →
    LaneStep K strict l
      { l with
        reader := { l.reader with
          reader := { l.reader.reader with pendingKeyChange := some (K.reader l.readerKeys) } }
        readerKeys := l.readerKeys + 1 }
  | writerStrict (w : Transport) : l.writer.setStrictMode = .ok w →
    LaneStep K strict l { l with writer := w }
  | readerStrict (r : Transport) : l.reader.setStrictMode = .ok r →
    LaneStep K strict l { l with reader := r }
  | writerKEXDone : LaneStep K strict l { l with writer := l.writer.setInitialKEXDone }
  | readerKEXDone : LaneStep K strict l { l with reader := l.reader.setInitialKEXDone }
  | writerReads (r : ConnectionState) :
    LaneStep K strict l { l with writer := { l.writer with reader := r } }
  | readerWrites (w : ConnectionState) :
    LaneStep K strict l { l with reader := { l.reader with writer := w } }

/-- The stream holds the packets that have been sent and not received. -/
structure LaneInv (K : KeySchedule) (strict : Bool) (l : Lane) (queue : List Bytes)
    (w r : Position) : Prop where
  carries : (K.pipe strict).Carries r l.wire queue w
  writer : l.writer.writer.At w K.writer
  reader : l.reader.reader.At r K.reader
  writerKeys : l.writerKeys = l.writer.writer.given w
  readerKeys : l.readerKeys = l.reader.reader.given r
  sent : l.sent = l.received ++ queue
  nonempty : ∀ packet ∈ queue, packet ≠ []

variable {K : KeySchedule} {l l' : Lane} {queue : List Bytes} {w r : Position}

theorem LaneInv.new (K : KeySchedule) (strict a b : Bool) :
    LaneInv K strict (Lane.new (.new a) (.new b)) []
      ⟨(Transport.new a).writer.packetCipher, 0, 0⟩
      ⟨(Transport.new b).reader.packetCipher, 0, 0⟩ where
  carries := .nil ⟨.stream ⟨rfl, rfl, rfl⟩, rfl, rfl⟩
  writer := ⟨rfl, rfl, fun _ h => by cases h⟩
  reader := ⟨rfl, rfl, fun _ h => by cases h⟩
  writerKeys := rfl
  readerKeys := rfl
  sent := rfl
  nonempty := List.forall_mem_nil _

/-- The packet that a read gives is the first of the queue. -/
theorem LaneInv.read_eq (h : LaneInv K strict l queue w r) {cipher : PacketCipher}
    (read : l.reader.reader.packetCipher.read l.reader.reader.seqNum l.wire =
      .ok (packet, rest, cipher)) :
    ∃ more, queue = packet :: more ∧
      (K.pipe strict).Carries (r.next K.reader strict packet cipher) rest more w := by
  have carries := h.carries
  rw [h.reader.cipher, h.reader.seqNum] at read
  cases queue with
  | nil =>
    rw [carries.bytes_eq_nil, PacketCipher.read_nil] at read
    cases read
  | cons first more =>
    obtain ⟨rest', r', read', carries⟩ := carries.read
    obtain ⟨cipher', first', rfl⟩ := KeySchedule.read_eq_some read'
    rw [read] at first'
    cases first'
    exact ⟨more, rfl, carries⟩

theorem LaneInv.step (h : LaneInv K strict l queue w r) (step : LaneStep K strict l l') :
    ∃ queue w r, LaneInv K strict l' queue w r := by
  cases step with
  | write rand packet out w' fits agreed written =>
    obtain ⟨_, direction, rfl⟩ := Transport.writePacket_eq_ok written
    obtain ⟨cipher, written, next⟩ := ConnectionState.writePacket_eq_ok direction
    obtain ⟨writer, given⟩ := h.writer.after cipher next agreed
    rw [h.writer.cipher, h.writer.seqNum] at written
    rw [h.writer.cipher] at fits
    exact ⟨queue ++ [packet], _, r,
      { carries := h.carries.write ⟨fits, rand, cipher, written, rfl⟩
        writer := writer
        reader := h.reader
        writerKeys := h.writerKeys.trans given.symm
        readerKeys := h.readerKeys
        sent := by rw [h.sent, List.append_assoc]
        nonempty := by
          intro p hp
          rcases List.mem_append.mp hp with hp | hp
          · exact h.nonempty p hp
          · rw [List.mem_singleton.mp hp]
            exact fits.nonempty }⟩
  | read packet rest r' agreed read =>
    obtain ⟨cipher, read, next⟩ := ConnectionState.readPacket_eq_ok read
    obtain ⟨reader, given⟩ := h.reader.after cipher next agreed
    obtain ⟨more, rfl, carries⟩ := h.read_eq read
    exact ⟨more, w, _,
      { carries := carries
        writer := h.writer
        reader := reader
        writerKeys := h.writerKeys
        readerKeys := h.readerKeys.trans given.symm
        sent := by rw [h.sent, List.append_assoc]; rfl
        nonempty := fun p hp => h.nonempty p (List.mem_cons_of_mem _ hp) }⟩
  | prepareWriter none =>
    have keys : l.writerKeys = w.keyChanges := by
      rw [h.writerKeys, ConnectionState.given, none]
      rfl
    refine ⟨queue, w, r,
      { h with writer := ⟨h.writer.cipher, h.writer.seqNum, ?_⟩, writerKeys := ?_ }⟩
    · rintro c ⟨⟩
      rw [keys]
    · rw [keys]
      rfl
  | prepareReader none =>
    have keys : l.readerKeys = r.keyChanges := by
      rw [h.readerKeys, ConnectionState.given, none]
      rfl
    refine ⟨queue, w, r,
      { h with reader := ⟨h.reader.cipher, h.reader.seqNum, ?_⟩, readerKeys := ?_ }⟩
    · rintro c ⟨⟩
      rw [keys]
    · rw [keys]
      rfl
  | writerStrict w' set =>
    cases Transport.setStrictMode_eq_ok set
    exact ⟨queue, w, r, { h with }⟩
  | readerStrict r' set =>
    cases Transport.setStrictMode_eq_ok set
    exact ⟨queue, w, r, { h with }⟩
  | writerKEXDone => exact ⟨queue, w, r, { h with }⟩
  | readerKEXDone => exact ⟨queue, w, r, { h with }⟩
  | writerReads => exact ⟨queue, w, r, { h with }⟩
  | readerWrites => exact ⟨queue, w, r, { h with }⟩

theorem LaneInv.run (h : LaneInv K strict l queue w r)
    (run : ReflTransGen (LaneStep K strict) l l') : ∃ queue w r, LaneInv K strict l' queue w r := by
  induction run with
  | refl => exact ⟨queue, w, r, h⟩
  | tail _ step ih =>
    obtain ⟨_, _, _, h⟩ := ih
    exact h.step step

/-! ## Progress -/

/-- A packet that fits can be written, with keys for it if it changes them. -/
theorem Transport.exists_writePacket (t : Transport) (rand : Nat → UInt8)
    (fits : Fits t.writer.packetCipher packet)
    (prepared : packet.head? = some msgNewKeys → t.writer.pendingKeyChange.isSome) :
    ∃ out w cipher, t.writePacket rand packet = .ok (out, { t with writer := w }) ∧
      t.writer.after packet cipher t.strictMode = some w := by
  obtain ⟨out, cipher, written⟩ :=
    t.writer.packetCipher.exists_write t.writer.seqNum rand fits.length
  obtain ⟨w, next⟩ := t.writer.exists_after cipher prepared
  refine ⟨out, w, cipher, ?_, next⟩
  unfold Transport.writePacket ConnectionState.writePacket
  rw [written]
  dsimp only
  rw [next]

/-- The first packet of the queue can be read. -/
theorem LaneInv.exists_readPacket (h : LaneInv K strict l (packet :: queue) w r)
    (goesOn : packet.head? ≠ some msgDisconnect)
    (prepared : packet.head? = some msgNewKeys → l.reader.reader.pendingKeyChange.isSome) :
    ∃ rest r' cipher,
      l.reader.reader.readPacket l.wire l.reader.strictMode = .ok (packet, rest, r') ∧
      l.reader.reader.after packet cipher l.reader.strictMode = some r' := by
  obtain ⟨rest, r', read, -⟩ := h.carries.read
  obtain ⟨cipher, read, -⟩ := KeySchedule.read_eq_some read
  rw [← h.reader.cipher, ← h.reader.seqNum] at read
  obtain ⟨s, next⟩ := l.reader.reader.exists_after cipher prepared
  exact ⟨rest, s, cipher, ConnectionState.readPacket_of_read read
    (h.nonempty packet List.mem_cons_self) goesOn next, next⟩

/-- The transport's loop ends at a packet that it does not skip. -/
theorem Transport.readPacket_of_kept {t : Transport} {s : ConnectionState}
    (read : t.reader.readPacket bytes t.strictMode = .ok (packet, rest, s))
    (kept : t.skips packet = false) :
    t.readPacket bytes = .ok (packet, rest, { t with reader := s }) := by
  unfold Transport.readPacket Transport.readLoop
  rw [read]
  dsimp only
  rw [if_neg (by rw [kept]; exact Bool.false_ne_true)]
  rfl

/-- In every run of the two ends, what has been received is the beginning of what has been sent.
The next packet can be read, if keys are there where it changes them, and the transport delivers it
unless it keeps it to itself; and any packet that fits can be written. -/
theorem packets_arrive (K : KeySchedule) (strict a b : Bool) {l : Lane}
    (run : ReflTransGen (LaneStep K strict) (Lane.new (.new a) (.new b)) l) :
    ∃ queue, l.sent = l.received ++ queue ∧ (queue = [] → l.wire = []) ∧
      (∀ packet ∈ queue.head?, packet.head? ≠ some msgDisconnect →
        (packet.head? = some msgNewKeys → l.reader.reader.pendingKeyChange.isSome) →
        ∃ rest r, l.reader.reader.readPacket l.wire l.reader.strictMode = .ok (packet, rest, r) ∧
          (l.reader.skips packet = false →
            l.reader.readPacket l.wire = .ok (packet, rest, { l.reader with reader := r }))) ∧
      ∀ packet, Fits l.writer.writer.packetCipher packet →
        (packet.head? = some msgNewKeys → l.writer.writer.pendingKeyChange.isSome) →
        ∀ rand, ∃ out w, l.writer.writePacket rand packet = .ok (out, w) := by
  obtain ⟨queue, w, r, h⟩ := (LaneInv.new K strict a b).run run
  refine ⟨queue, h.sent, ?_, ?_, ?_⟩
  · rintro rfl
    exact h.carries.bytes_eq_nil
  · intro packet first goesOn prepared
    obtain ⟨more, rfl⟩ := List.head?_eq_some_iff.mp first
    obtain ⟨rest, r', -, read, -⟩ := h.exists_readPacket goesOn prepared
    exact ⟨rest, r', read, Transport.readPacket_of_kept read⟩
  · intro packet fits prepared rand
    obtain ⟨out, w, -, written, -⟩ := l.writer.exists_writePacket rand fits prepared
    exact ⟨out, _, written⟩

/-! ## A run with every cipher -/

/-- A short packet fits every cipher. -/
theorem fits_of_short (c : PacketCipher) (nonempty : packet ≠ []) (short : packet.length ≤ 1000) :
    Fits c packet := by
  have bound := c.lengthField_lt packet
  refine ⟨nonempty, ?_⟩
  unfold maxPacket
  omega

/-- The direction after a packet has been written and read. -/
def Lane.passed (l : Lane) (packet : Bytes) (w r : ConnectionState) : Lane :=
  { l with
    writer := { l.writer with writer := w }
    reader := { l.reader with reader := r }
    wire := []
    sent := l.sent ++ [packet]
    received := l.received ++ [packet] }

/-- Where nothing is on its way, a packet that is written can be read at once. -/
theorem LaneInv.pass (h : LaneInv K strict l [] w r)
    (fits : Fits l.writer.writer.packetCipher packet) (goesOn : packet.head? ≠ some msgDisconnect)
    (prepared : packet.head? = some msgNewKeys →
      (l.writer.writer.pendingKeyChange.isSome ∧ l.reader.reader.pendingKeyChange.isSome) ∧
        l.writer.strictMode = strict ∧ l.reader.strictMode = strict) :
    ∃ (w' r' : ConnectionState) (cw cr : PacketCipher),
      l.writer.writer.after packet cw l.writer.strictMode = some w' ∧
      l.reader.reader.after packet cr l.reader.strictMode = some r' ∧
      ReflTransGen (LaneStep K strict) l (l.passed packet w' r') := by
  obtain ⟨out, w', cw, written, nextWriter⟩ :=
    l.writer.exists_writePacket (fun _ => 0) fits fun changes => (prepared changes).1.1
  let between : Lane := { l with
    writer := { l.writer with writer := w' }, wire := l.wire ++ out, sent := l.sent ++ [packet] }
  have write : LaneStep K strict l between :=
    .write _ packet out _ fits (fun changes => (prepared changes).2.1) written
  obtain ⟨queue, w₁, r₁, inv⟩ := h.step write
  obtain rfl : queue = [packet] := by
    have sent : l.sent ++ [packet] = l.received ++ queue := inv.sent
    rw [h.sent, List.append_nil] at sent
    exact (List.append_cancel_left sent).symm
  obtain ⟨rest, r', cr, received, nextReader⟩ :=
    inv.exists_readPacket goesOn fun changes => (prepared changes).1.2
  have read : LaneStep K strict between { between with
      reader := { l.reader with reader := r' }
      wire := rest
      received := l.received ++ [packet] } :=
    .read (l := between) packet rest r' (fun changes => (prepared changes).2.2) received
  obtain ⟨queue, w₂, r₂, last⟩ := inv.step read
  -- the queue is empty again, and so is the wire
  obtain rfl : queue = [] := by
    have sent : l.sent ++ [packet] = l.received ++ [packet] ++ queue := last.sent
    rw [h.sent, List.append_nil] at sent
    exact List.append_right_eq_self.mp sent.symm
  obtain rfl : rest = [] := last.carries.bytes_eq_nil
  exact ⟨w', r', cw, cr, nextWriter, nextReader, (ReflTransGen.single write).tail read⟩

/-- A run that leaves nothing on its way. -/
theorem LaneInv.run_empty (h : LaneInv K strict l queue w r)
    (run : ReflTransGen (LaneStep K strict) l l') (all : l'.sent = l'.received) :
    ∃ w r, LaneInv K strict l' [] w r := by
  obtain ⟨queue, w, r, inv⟩ := h.run run
  have sent := inv.sent
  rw [all] at sent
  obtain rfl : queue = [] := List.append_right_eq_self.mp sent.symm
  exact ⟨w, r, inv⟩

/-- Nothing is on its way, no keys are waiting, and the ends are in the mode they agreed on. -/
structure Lane.Rests (K : KeySchedule) (strict : Bool) (l : Lane) : Prop where
  inv : ∃ w r, LaneInv K strict l [] w r
  writerKeys : l.writer.writer.pendingKeyChange = none
  readerKeys : l.reader.reader.pendingKeyChange = none
  writerMode : l.writer.strictMode = strict
  readerMode : l.reader.strictMode = strict

/-- Two new transports that agree on strict mode after their first packets. -/
theorem exists_rests_strict (K : KeySchedule) (a b : Bool) :
    ∃ l, ReflTransGen (LaneStep K true) (Lane.new (.new a) (.new b)) l ∧ l.Rests K true ∧
      l.writerKeys = 0 ∧ l.sent = [[20]] ∧ l.received = [[20]] := by
  have start := LaneInv.new K true a b
  obtain ⟨w, r, cw, cr, nextWriter, nextReader, run⟩ :=
    start.pass (fits_of_short _ (List.cons_ne_nil 20 []) (by decide)) (by decide) fun never =>
      absurd never (by decide)
  cases nextWriter
  cases nextReader
  -- the writing end has read a packet of the other direction as well
  have heard := run.tail (.writerReads ⟨cw, 1, none⟩)
  have strictWriter := heard.tail (.writerStrict _ rfl)
  have run := strictWriter.tail (.readerStrict _ rfl)
  refine ⟨_, run, ⟨start.run_empty run rfl, rfl, rfl, rfl, rfl⟩, rfl, rfl, rfl⟩

/-- A packet that fits every cipher and is none of the transport's own. -/
structure Ordinary (packet : Bytes) : Prop where
  nonempty : packet ≠ []
  short : packet.length ≤ 1000
  sameKeys : packet.head? ≠ some msgNewKeys
  goesOn : packet.head? ≠ some msgDisconnect

/-- Both ends change to their next keys, and a packet goes under these. -/
theorem Lane.Rests.rekey (h : l.Rests K strict) (ordinary : Ordinary packet) :
    ∃ l', ReflTransGen (LaneStep K strict) l l' ∧ l'.Rests K strict ∧
      l'.writerKeys = l.writerKeys + 1 ∧ l'.sent = l.sent ++ [[msgNewKeys]] ++ [packet] ∧
      l'.received = l.received ++ [[msgNewKeys]] ++ [packet] := by
  obtain ⟨w, r, inv⟩ := h.inv
  have all : l.sent = l.received := by rw [inv.sent, List.append_nil]
  have writer : LaneStep K strict l _ := .prepareWriter h.writerKeys
  have prepared := (ReflTransGen.single writer).tail (.prepareReader h.readerKeys)
  obtain ⟨w₁, r₁, inv₁⟩ := inv.run_empty prepared all
  obtain ⟨w', r', cw, cr, writerAfter, readerAfter, changed⟩ :=
    inv₁.pass (fits_of_short _ (List.cons_ne_nil msgNewKeys []) (by decide)) (by decide)
      fun _ => ⟨⟨rfl, rfl⟩, h.writerMode, h.readerMode⟩
  have changed := prepared.trans changed
  obtain ⟨w₂, r₂, inv₂⟩ := inv.run_empty changed (congrArg (· ++ [[msgNewKeys]]) all)
  obtain ⟨w'', r'', cw', cr', writerThen, readerThen, run⟩ :=
    inv₂.pass (fits_of_short _ ordinary.nonempty ordinary.short) ordinary.goesOn fun changes =>
      absurd changes ordinary.sameKeys
  have run := changed.trans run
  refine ⟨_, run, ⟨inv.run_empty run ?_, ?_, ?_, h.writerMode, h.readerMode⟩, rfl, rfl, rfl⟩
  · exact congrArg (· ++ [[msgNewKeys]] ++ [packet]) all
  · exact (ConnectionState.pending_after writerThen).trans
      ((if_neg ordinary.sameKeys).trans (ConnectionState.pending_after writerAfter))
  · exact (ConnectionState.pending_after readerThen).trans
      ((if_neg ordinary.sameKeys).trans (ConnectionState.pending_after readerAfter))

/-- Any packets, each under keys of its own. -/
theorem Lane.Rests.rekeys (h : l.Rests K strict) {packets : List Bytes}
    (ordinary : ∀ packet ∈ packets, Ordinary packet) :
    ∃ l', ReflTransGen (LaneStep K strict) l l' ∧ l'.Rests K strict ∧
      l'.writerKeys = l.writerKeys + packets.length ∧
      l'.sent = l.sent ++ packets.flatMap (fun packet => [[msgNewKeys], packet]) ∧
      l'.received = l.received ++ packets.flatMap (fun packet => [[msgNewKeys], packet]) := by
  induction packets generalizing l with
  | nil => exact ⟨l, .refl, h, rfl, (List.append_nil _).symm, (List.append_nil _).symm⟩
  | cons packet packets ih =>
    obtain ⟨first, others⟩ := List.forall_mem_cons.mp ordinary
    obtain ⟨l₁, run₁, rests₁, keys₁, sent₁, received₁⟩ := h.rekey first
    obtain ⟨l₂, run₂, rests₂, keys₂, sent₂, received₂⟩ := ih rests₁ others
    refine ⟨l₂, run₁.trans run₂, rests₂, ?_, ?_, ?_⟩
    · rw [keys₂, keys₁, List.length_cons]
      omega
    · rw [sent₂, sent₁, List.flatMap_cons]
      simp only [List.append_assoc, List.cons_append, List.nil_append]
    · rw [received₂, received₁, List.flatMap_cons]
      simp only [List.append_assoc, List.cons_append, List.nil_append]

/-- A key of 64 bytes. -/
def someKey : Bytes := (List.range 64).map UInt8.ofNat

/-- A stream cipher with a MAC of what is sent. -/
def streamKeys : StreamPacketCipher :=
  { plainCipher with
    mac := some (poly1305 someKey)
    cipher := ⟨chacha20 someKey (List.replicate 12 0), 0⟩
    plain := false
    etm := true }

/-- An AEAD of the key stream and the tag that are at hand. -/
def gcmKeys : GcmCipher where
  aead := .encryptThenTag (chacha20 someKey) (fun nonce => poly1305 (someKey ++ nonce)) 16
    fun _ => rfl
  iv := List.replicate 12 0
  overhead_aead := rfl

/-- A keyed hash of four bytes. -/
def shortHash (key : Bytes) : KeyedHash := (poly1305 key).truncate 4 (by decide : 4 ≤ 16)

/-- Blocks of eight bytes, with three rounds, and a MAC. -/
def cbcKeys : CbcCipher where
  block := .feistel 4 [shortHash someKey, shortHash [1], shortHash [2]] fun f hf => by
    simp only [List.mem_cons, List.not_mem_nil, or_false] at hf
    rcases hf with rfl | rfl | rfl <;> rfl
  mac := some (poly1305 someKey)
  encrypter := List.replicate 8 0
  decrypter := List.replicate 8 0
  size_block := .inl rfl
  length_encrypter := rfl
  length_decrypter := rfl

/-- One mode after the other. -/
def everyCipher : Nat → PacketCipher
  | 0 => .stream streamKeys
  | 1 => .gcm gcmKeys
  | 2 => .chacha20Poly1305 (newChaCha20Cipher someKey)
  | _ => .cbc cbcKeys

def everyKeys : KeySchedule where
  writer := everyCipher
  reader := everyCipher
  inStep
    | 0 => .stream ⟨rfl, rfl, rfl⟩
    | 1 => .gcm _
    | 2 => .chacha20Poly1305 _
    | _ + 3 => .cbc ⟨rfl, rfl, rfl⟩

/-- In strict mode, with a packet under each of the four ciphers, all of them with a MAC or a tag:
everything that was sent has been received, and the next packet can be written. -/
theorem packets_arrive_everyKeys : ∃ l : Lane,
    ReflTransGen (LaneStep everyKeys true) (Lane.new (.new true) (.new false)) l ∧
    l.writerKeys = 4 ∧ l.received = l.sent ∧
    l.sent = [[20], [msgNewKeys], [5, 1], [msgNewKeys], [5, 2], [msgNewKeys], [5, 3], [msgNewKeys],
      [5, 4]] ∧
    l.wire = [] ∧ ∀ rand, ∃ out w, l.writer.writePacket rand [5, 5] = .ok (out, w) := by
  obtain ⟨l₀, run₀, rests₀, keys₀, sent₀, received₀⟩ := exists_rests_strict everyKeys true false
  have ordinary : ∀ packet ∈ [[5, 1], [5, 2], [5, 3], [5, 4]], Ordinary packet := by
    simp only [List.forall_mem_cons, List.not_mem_nil, false_implies, implies_true, and_true]
    refine ⟨?_, ?_, ?_, ?_⟩ <;> exact ⟨by decide, by decide, by decide, by decide⟩
  obtain ⟨l, run, rests, keys, sent, received⟩ := rests₀.rekeys ordinary
  rw [sent₀] at sent
  rw [received₀] at received
  have run := run₀.trans run
  obtain ⟨queue, all, empty, -, writes⟩ := packets_arrive everyKeys true true false run
  obtain rfl : queue = [] := by
    rw [received, sent] at all
    exact List.append_right_eq_self.mp all.symm
  refine ⟨l, run, by rw [keys, keys₀]; rfl, received.trans sent.symm, sent, empty rfl, ?_⟩
  exact writes [5, 5] (fits_of_short _ (by decide) (by decide)) fun never =>
    absurd never (by decide)

end FakeSSH.Ssh
