import FakeSSH.Go.Errors
import FakeSSH.Ssh.Cipher

/-!
# What was written is read

The cipher of a reader that is in step with the writer's takes out of the stream the packet that
was written, leaves what follows it, and is in step again (`InStep.read_write`). This is so for
packets that are not empty and whose length with padding is within `maxPacket`: the writers
accept a little more than the readers do.
-/

namespace FakeSSH.Ssh

open FakeSSH.Go FakeSSH.Lib

variable {rand : Nat → UInt8} {packet : Bytes}

/-! ## Parts of a packet -/

theorem readFull_append {n : Nat} {a : Bytes} (h : a.length = n) (rest : Bytes) :
    readFull n (a ++ rest) = .ok (a, rest) := by
  unfold readFull
  rw [if_pos (by rw [List.length_append]; omega), List.take_left' h, List.drop_left' h]

@[simp] theorem length_randomBytes (n : Nat) : (randomBytes rand n).length = n := by
  simp [randomBytes]

theorem paddingTo_bounds {multiple : Nat} (h : 4 ≤ multiple) (n : Nat) :
    4 ≤ paddingTo multiple n ∧ paddingTo multiple n < multiple + 4 := by
  have := Nat.mod_lt n (by omega : 0 < multiple)
  unfold paddingTo
  dsimp only
  split <;> omega

theorem ofBE_singleton {n : Nat} (h : n < 256) : ofBE [UInt8.ofNat n] = n := by
  have one : ofBE ([] ++ [UInt8.ofNat n]) = n := by
    rw [ofBE_concat, ofBE_nil, Nat.zero_mul, Nat.zero_add, UInt8.toNat_ofNat']
    exact Nat.mod_eq_of_lt h
  exact one

theorem length_lt_of_le_maxPacket {n : Nat} (h : n ≤ maxPacket) : n < 256 ^ 4 := by
  unfold maxPacket at h
  omega

/-! ## Stream ciphers -/

namespace StreamPacketCipher

variable {w r : StreamPacketCipher}

/-- The same keys at the same place. How a writer pads and which padding a reader refuses is a
matter of each. -/
structure InStep (w r : StreamPacketCipher) : Prop where
  mac : r.mac = w.mac
  cipher : r.cipher = w.cipher
  etm : r.etm = w.etm

@[simp] theorem length_fillPadding (s : StreamPacketCipher) (n : Nat) :
    (s.fillPadding rand n).length = n := by
  unfold fillPadding
  split <;> simp

@[simp] theorem length_cryptHeader (s : StreamPacketCipher) {header : Bytes}
    (h : header.length = prefixLen) : (s.cryptHeader header).length = prefixLen := by
  unfold cryptHeader
  split
  · rw [List.length_append, StreamCipher.length_xorKeyStream, ← List.length_append,
      List.take_append_drop, h]
  · rw [StreamCipher.length_xorKeyStream, h]

theorem cryptHeader_cryptHeader (s : StreamPacketCipher) {header : Bytes}
    (h : header.length = prefixLen) : s.cryptHeader (s.cryptHeader header) = header := by
  have four : (header.take 4).length = 4 := by
    rw [List.length_take, h]
    rfl
  unfold cryptHeader
  split
  · rw [List.take_left' four, List.drop_left' four, StreamCipher.xorKeyStream_xorKeyStream,
      List.take_append_drop]
  · rw [StreamCipher.xorKeyStream_xorKeyStream]

theorem length_macOf (s : StreamPacketCipher) (seqNum : UInt32) (sent plain : Bytes) :
    (s.macOf seqNum sent plain).length = (s.mac.map (·.size)).getD 0 := by
  unfold macOf
  split
  · rename_i none
    rw [none]
    rfl
  · rename_i mac some
    rw [mac.length_sum, some]
    rfl

theorem paddingLength_bounds (s : StreamPacketCipher) (packet : Bytes) :
    4 ≤ s.paddingLength packet ∧ s.paddingLength packet < 20 :=
  paddingTo_bounds (by decide) _

/-- The length that stands in front of a packet. -/
def lengthField (s : StreamPacketCipher) (packet : Bytes) : Nat :=
  packet.length + 1 + s.paddingLength packet

/-- A read of a packet whose parts are as they should be. -/
theorem read_eq (s : StreamPacketCipher) (seqNum : UInt32) (start data rest : Bytes)
    {length padding : Nat} (hstart : start.length = prefixLen)
    (hlength : ofBE ((s.cryptHeader start).take 4) = length)
    (hpadding : ofBE ((s.cryptHeader start).drop 4) = padding) (enough : 4 ≤ padding)
    (above : padding + 1 < length) (fits : length ≤ maxPacket)
    (hdata : data.length = length - 1) :
    s.read seqNum (start ++ data ++ s.macOf seqNum (start ++ data)
        (s.cryptHeader start ++ s.afterHeader.xorKeyStream data) ++ rest) =
      .ok ((s.afterHeader.xorKeyStream data).take (length - padding - 1), rest,
        { s with cipher := s.afterHeader.skip (length - 1) }) := by
  generalize hmac : s.macOf seqNum (start ++ data)
    (s.cryptHeader start ++ s.afterHeader.xorKeyStream data) = mac
  have whole : (data ++ mac).length = length - 1 + (s.mac.map (·.size)).getD 0 := by
    rw [List.length_append, hdata, ← hmac, length_macOf]
  unfold read
  rw [List.append_assoc start, List.append_assoc start, readFull_append hstart]
  simp only [bind, Except.bind]
  rw [hlength, hpadding, if_neg (by omega), if_neg (by omega), readFull_append whole]
  simp only [List.take_left' hdata, List.drop_left' hdata, hmac]
  rw [if_neg (not_not.mpr rfl), if_neg (by simp; omega), if_neg (by simp; omega)]

theorem InStep.encryptsThenMacs (h : InStep w r) : r.encryptsThenMacs = w.encryptsThenMacs := by
  simp only [StreamPacketCipher.encryptsThenMacs, h.mac, h.etm]

theorem InStep.cryptHeader (h : InStep w r) : r.cryptHeader = w.cryptHeader := by
  funext header
  simp only [StreamPacketCipher.cryptHeader, h.encryptsThenMacs, h.cipher]

theorem InStep.afterHeader (h : InStep w r) : r.afterHeader = w.afterHeader := by
  simp only [StreamPacketCipher.afterHeader, h.encryptsThenMacs, h.cipher]

theorem InStep.macOf (h : InStep w r) : r.macOf = w.macOf := by
  funext seqNum sent plain
  simp only [StreamPacketCipher.macOf, h.mac, h.etm]

theorem InStep.read_write (h : InStep w r) (seqNum : UInt32) (rand : Nat → UInt8)
    (nonempty : packet ≠ []) (fits : w.lengthField packet ≤ maxPacket) :
    ∃ sent w' r', w.write seqNum rand packet = .ok (sent, w') ∧
      (∀ rest, r.read seqNum (sent ++ rest) = .ok (packet, rest, r')) ∧ InStep w' r' := by
  obtain ⟨atLeast, atMost⟩ := w.paddingLength_bounds packet
  have some : 0 < packet.length := List.length_pos_iff.mpr nonempty
  unfold lengthField at fits
  -- the header and the rest of the packet, as they are encrypted
  generalize hp : w.paddingLength packet = padding at *
  have hheader : (toBE 4 (packet.length + 1 + padding) ++ [UInt8.ofNat padding]).length =
      prefixLen := by simp [prefixLen]
  generalize hh : toBE 4 (packet.length + 1 + padding) ++ [UInt8.ofNat padding] = header at *
  have hbody : (packet ++ w.fillPadding rand padding).length = packet.length + 1 + padding - 1 := by
    rw [List.length_append, length_fillPadding]
    omega
  generalize hb : packet ++ w.fillPadding rand padding = body at *
  have again := w.cryptHeader_cryptHeader hheader
  have written : w.write seqNum rand packet = .ok (w.cryptHeader header ++
      w.afterHeader.xorKeyStream body ++ w.macOf seqNum (w.cryptHeader header ++
        w.afterHeader.xorKeyStream body) (header ++ body),
      { w with cipher := w.afterHeader.skip body.length }) := by
    unfold write
    rw [if_neg (by omega), hp]
    dsimp only
    rw [hh, hb]
  refine ⟨_, _, { r with cipher := r.afterHeader.skip (packet.length + 1 + padding - 1) },
    written, fun rest => ?_, h.mac, ?_, h.etm⟩
  · have length : ofBE (header.take 4) = packet.length + 1 + padding := by
      rw [← hh, List.take_left' (length_toBE 4 _)]
      exact ofBE_toBE_of_lt (length_lt_of_le_maxPacket fits)
    have padding_eq : ofBE (header.drop 4) = padding := by
      rw [← hh, List.drop_left' (length_toBE 4 _)]
      exact ofBE_singleton (by omega)
    have read := r.read_eq seqNum (w.cryptHeader header) (w.afterHeader.xorKeyStream body) rest
      (length_cryptHeader w hheader) (by rw [h.cryptHeader, again, length])
      (by rw [h.cryptHeader, again, padding_eq]) atLeast (by omega) fits
      (by rw [StreamCipher.length_xorKeyStream, hbody])
    rw [h.afterHeader, h.cryptHeader, again, h.macOf,
      StreamCipher.xorKeyStream_xorKeyStream] at read
    rw [read, ← hb, List.take_left' (by omega), h.afterHeader]
  · simp only [h.afterHeader, hbody]

end StreamPacketCipher

/-! ## Authenticated modes -/

theorem length_withPadding (padding : Nat) (packet : Bytes) :
    (withPadding rand padding packet).length = 1 + packet.length + padding := by
  simp [withPadding]
  omega

theorem stripPadding_withPadding (rand : Nat → UInt8) {padding : Nat} (enough : 4 ≤ padding)
    (small : padding < 256) (nonempty : packet ≠ []) :
    stripPadding (withPadding rand padding packet) = .ok packet := by
  have some : 0 < packet.length := List.length_pos_iff.mpr nonempty
  have long : fakesshAuthenticatedShortPacket (withPadding rand padding packet) = none := by
    unfold fakesshAuthenticatedShortPacket
    rw [length_withPadding, if_pos (by omega)]
  have head : ((withPadding rand padding packet).headD 0).toNat = padding := by
    change (UInt8.ofNat padding).toNat = padding
    rw [UInt8.toNat_ofNat']
    exact Nat.mod_eq_of_lt small
  have payload : ((withPadding rand padding packet).take (1 + packet.length)).drop 1 = packet := by
    rw [Nat.add_comm, withPadding, List.take_succ_cons, List.drop_succ_cons, List.drop_zero,
      List.take_left]
  unfold stripPadding
  rw [long]
  dsimp only
  rw [head, length_withPadding, if_neg (by omega), if_neg (by omega), Nat.add_sub_cancel, payload]

namespace GcmCipher

def lengthField (packet : Bytes) : Nat :=
  1 + packet.length + paddingTo packetSizeMultiple (1 + packet.length)

theorem read_write (c : GcmCipher) (rand : Nat → UInt8) (nonempty : packet ≠ [])
    (fits : lengthField packet ≤ maxPacket) (rest : Bytes) :
    c.read ((c.write rand packet).1 ++ rest) = .ok (packet, rest, c.incIV) := by
  obtain ⟨atLeast, atMost⟩ := paddingTo_bounds (by decide : 4 ≤ packetSizeMultiple)
    (1 + packet.length)
  have small : paddingTo packetSizeMultiple (1 + packet.length) < 256 := by
    unfold packetSizeMultiple at *
    omega
  unfold lengthField at fits
  unfold write
  dsimp only
  generalize paddingTo packetSizeMultiple (1 + packet.length) = padding at *
  have stripped := stripPadding_withPadding rand atLeast small nonempty
  have length : (withPadding rand padding packet).length ≤ maxPacket := by
    rw [length_withPadding]
    exact fits
  generalize withPadding rand padding packet = plain at *
  have header : ofBE (toBE 4 plain.length) = plain.length :=
    ofBE_toBE_of_lt (length_lt_of_le_maxPacket length)
  have sealed : (c.aead.sealData c.iv plain (toBE 4 plain.length)).length =
      plain.length + gcmTagSize := by rw [c.aead.length_sealData, c.overhead_aead]
  unfold read
  rw [List.append_assoc, readFull_append (length_toBE 4 _)]
  simp only [bind, Except.bind, header]
  rw [if_neg (by omega), readFull_append sealed]
  simp only [c.aead.openData_sealData, stripped]

end GcmCipher

namespace ChaCha20Poly1305Cipher

def lengthField (packet : Bytes) : Nat := 1 + packet.length + paddingTo 8 (1 + packet.length)

theorem read_write (c : ChaCha20Poly1305Cipher) (seqNum : UInt32) (rand : Nat → UInt8)
    (nonempty : packet ≠ []) (fits : lengthField packet ≤ maxPacket) (rest : Bytes) :
    c.read seqNum (c.write seqNum rand packet ++ rest) = .ok (packet, rest) := by
  obtain ⟨atLeast, atMost⟩ := paddingTo_bounds (by decide : 4 ≤ 8) (1 + packet.length)
  unfold lengthField at fits
  unfold write
  dsimp only
  generalize paddingTo 8 (1 + packet.length) = padding at *
  have stripped := stripPadding_withPadding rand atLeast (by omega) nonempty
  have length : (withPadding rand padding packet).length ≤ maxPacket := by
    rw [length_withPadding]
    exact fits
  generalize withPadding rand padding packet = plain at *
  have header : ofBE (toBE 4 plain.length) = plain.length :=
    ofBE_toBE_of_lt (length_lt_of_le_maxPacket length)
  have first : ((c.lengthStream seqNum).xorKeyStream (toBE 4 plain.length)).length = 4 := by
    rw [StreamCipher.length_xorKeyStream, length_toBE]
  have content : (((c.content seqNum).skip 64).xorKeyStream plain).length = plain.length :=
    StreamCipher.length_xorKeyStream _ _
  generalize hsent : (c.lengthStream seqNum).xorKeyStream (toBE 4 plain.length) ++
    ((c.content seqNum).skip 64).xorKeyStream plain = sent
  have data : (((c.content seqNum).skip 64).xorKeyStream plain ++
      (c.tag (c.polyKey seqNum)).sum sent).length = plain.length + 16 := by
    rw [List.length_append, content, (c.tag _).length_sum, c.size_tag]
  unfold read
  rw [← hsent, List.append_assoc, List.append_assoc, readFull_append first]
  simp only [bind, Except.bind, StreamCipher.xorKeyStream_xorKeyStream, header]
  rw [if_neg (by omega), ← List.append_assoc, hsent, readFull_append data]
  simp only [List.take_left' content, List.drop_left' content, hsent,
    StreamCipher.xorKeyStream_xorKeyStream, stripped]
  rw [if_neg (not_not.mpr rfl)]

end ChaCha20Poly1305Cipher

/-! ## CBC -/

namespace CbcCipher

variable {w r : CbcCipher}

/-- The same keys, and the reader goes on from the block that the writer goes on from. -/
structure InStep (w r : CbcCipher) : Prop where
  block : r.block = w.block
  mac : r.mac = w.mac
  chained : r.decrypter = w.encrypter

theorem firstBlockLength_eq (c : CbcCipher) : c.firstBlockLength = c.block.size := by
  unfold firstBlockLength prefixLen
  rcases c.size_block with h | h <;> rw [h]

theorem encLength_bounds (c : CbcCipher) (packet : Bytes) :
    packet.length + 9 ≤ c.encLength packet ∧ 16 ≤ c.encLength packet ∧
      c.encLength packet < packet.length + 40 ∧
      c.encLength packet % max 8 c.block.size = 0 ∧ c.encLength packet % c.block.size = 0 := by
  unfold encLength prefixLen
  dsimp only
  rcases c.size_block with h | h
  · rw [h, Nat.max_self]
    omega
  · rw [h, show max 8 16 = 16 from rfl]
    omega

theorem length_macOf (c : CbcCipher) (seqNum : UInt32) (packetData : Bytes) :
    (c.macOf seqNum packetData).length = c.macSize := by
  unfold macOf macSize
  split
  · rename_i none
    rw [none]
    rfl
  · rename_i mac some
    rw [mac.length_sum, some]
    rfl

def lengthField (c : CbcCipher) (packet : Bytes) : Nat := c.encLength packet - 4

/-- A read of a packet whose parts are as they should be: the first block, and the others. -/
theorem read_eq (c : CbcCipher) (seqNum : UInt32) (sent₁ sent₂ rest : Bytes)
    {first others : Bytes} {n length padding : Nat} (length₁ : sent₁.length = c.block.size)
    (length₂ : sent₂.length = n * c.block.size)
    (plain₁ : c.block.cbcDecrypt 1 c.decrypter sent₁ = first)
    (plain₂ : c.block.cbcDecrypt n sent₁ sent₂ = others) (hlength : ofBE (first.take 4) = length)
    (hpadding : ofBE ((first.drop 4).take 1) = padding) (enough : 4 ≤ padding)
    (above : padding + 1 < length) (fits : length ≤ maxPacket) (sixteen : 16 ≤ length + 4)
    (multiple : (length + 4) % max 8 c.block.size = 0)
    (whole : 4 + length = c.block.size + n * c.block.size) :
    c.read seqNum (sent₁ ++ sent₂ ++ c.macOf seqNum (first ++ others) ++ rest) =
      .ok (((first ++ others).take (4 + length - padding)).drop prefixLen, rest,
        (c.decrypted sent₁).decrypted sent₂) := by
  have positive : 0 < c.block.size := by rcases c.size_block with h | h <;> omega
  have macStart : 4 + length - c.block.size = sent₂.length := by rw [length₂]; omega
  have atMost : max 16 c.block.size = 16 := by rcases c.size_block with h | h <;> rw [h] <;> rfl
  have data : (sent₂ ++ c.macOf seqNum (first ++ others)).length = sent₂.length + c.macSize := by
    rw [List.length_append, length_macOf]
  have chained : (c.decrypted sent₁).decrypter = sent₁ := BlockCipher.lastBlock_self length₁ _
  have count : sent₂.length / c.block.size = n := by
    rw [length₂, Nat.mul_div_cancel _ positive]
  unfold read
  rw [firstBlockLength_eq, Nat.div_self positive, List.append_assoc sent₁, List.append_assoc sent₁,
    readFull_append length₁]
  simp only [bind, Except.bind, plain₁, hlength, hpadding, atMost]
  rw [if_neg (by omega), if_neg (by omega), if_neg (not_not.mpr multiple), if_neg (by omega),
    macStart, readFull_append data]
  simp only [List.take_left, List.drop_left, chained]
  have plain : (c.decrypted sent₁).block.cbcDecrypt
      (sent₂.length / (c.decrypted sent₁).block.size) sent₁ sent₂ = others := by
    change c.block.cbcDecrypt (sent₂.length / c.block.size) sent₁ sent₂ = others
    rw [count, plain₂]
  rw [plain]
  exact if_neg (not_not.mpr rfl)

/-! ### What is encrypted -/

/-- The padding of a packet. -/
def paddingLength (c : CbcCipher) (packet : Bytes) : Nat :=
  c.lengthField packet - (1 + packet.length)

theorem paddingLength_bounds (c : CbcCipher) (packet : Bytes) :
    4 ≤ c.paddingLength packet ∧ c.paddingLength packet < 256 ∧
      c.lengthField packet = 1 + packet.length + c.paddingLength packet ∧
      c.encLength packet = 4 + c.lengthField packet := by
  obtain ⟨enough, -, few, -⟩ := c.encLength_bounds packet
  unfold paddingLength lengthField
  omega

theorem plaintext_eq (c : CbcCipher) (rand : Nat → UInt8) (packet : Bytes) :
    c.plaintext rand packet = toBE 4 (c.lengthField packet) ++
      ([UInt8.ofNat (c.paddingLength packet)] ++
        (packet ++ randomBytes rand (c.paddingLength packet))) := by
  rw [← List.append_assoc, ← List.append_assoc]
  rfl

theorem length_plaintext (c : CbcCipher) (rand : Nat → UInt8) (packet : Bytes) :
    (c.plaintext rand packet).length = c.encLength packet := by
  obtain ⟨-, -, parts, whole⟩ := c.paddingLength_bounds packet
  rw [plaintext_eq, List.length_append, List.length_append, List.length_append, length_toBE,
    length_randomBytes, List.length_singleton]
  omega

theorem payload_plaintext (c : CbcCipher) (rand : Nat → UInt8) (packet : Bytes) :
    ((c.plaintext rand packet).take (prefixLen + packet.length)).drop prefixLen = packet := by
  have start : (toBE 4 (c.lengthField packet) ++
      [UInt8.ofNat (c.paddingLength packet)]).length = prefixLen := by simp [prefixLen]
  rw [plaintext_eq, ← List.append_assoc, List.drop_take, List.drop_left' start,
    Nat.add_sub_cancel_left, List.take_left]

/-- The first block has the lengths. -/
theorem lengths_plaintext (c : CbcCipher) (rand : Nat → UInt8)
    (fits : c.lengthField packet ≤ maxPacket) :
    ofBE (((c.plaintext rand packet).take c.block.size).take 4) = c.lengthField packet ∧
      ofBE ((((c.plaintext rand packet).take c.block.size).drop 4).take 1) =
        c.paddingLength packet := by
  obtain ⟨-, small, -⟩ := c.paddingLength_bounds packet
  have large : 8 ≤ c.block.size := by rcases c.size_block with h | h <;> omega
  have four := length_toBE 4 (c.lengthField packet)
  rw [plaintext_eq, List.take_take, Nat.min_eq_left (by omega), List.take_left' four,
    List.drop_take, List.drop_left' four, List.take_take, Nat.min_eq_left (by omega)]
  exact ⟨ofBE_toBE_of_lt (length_lt_of_le_maxPacket fits), ofBE_singleton small⟩

theorem InStep.read_write (h : InStep w r) (seqNum : UInt32) (rand : Nat → UInt8)
    (nonempty : packet ≠ []) (fits : w.lengthField packet ≤ maxPacket) :
    ∃ r', (∀ rest, r.read seqNum ((w.write seqNum rand packet).1 ++ rest) =
      .ok (packet, rest, r')) ∧ InStep (w.write seqNum rand packet).2 r' := by
  have some : 0 < packet.length := List.length_pos_iff.mpr nonempty
  have positive : 0 < w.block.size := by rcases w.size_block with h | h <;> omega
  obtain ⟨-, sixteen, -, multiple, blocks⟩ := w.encLength_bounds packet
  obtain ⟨enough, -, parts, whole⟩ := w.paddingLength_bounds packet
  obtain ⟨length, padding⟩ := w.lengths_plaintext rand fits
  -- the first block and the `n` others
  obtain ⟨n, count⟩ : ∃ n, w.encLength packet / w.block.size = n + 1 :=
    Nat.exists_eq_add_one_of_ne_zero
      (Nat.div_pos (by rcases w.size_block with h | h <;> omega) positive).ne'
  have total : w.encLength packet = w.block.size + n * w.block.size := by
    rw [← Nat.div_mul_cancel (Nat.dvd_of_mod_eq_zero blocks), count, Nat.succ_mul, Nat.add_comm]
  have size := w.length_plaintext rand packet
  have payload := w.payload_plaintext rand packet
  have split := List.take_append_drop w.block.size (w.plaintext rand packet)
  have length₁ : ((w.plaintext rand packet).take w.block.size).length = w.block.size := by
    rw [List.length_take]
    omega
  have length₂ : ((w.plaintext rand packet).drop w.block.size).length = n * w.block.size := by
    rw [List.length_drop]
    omega
  generalize (w.plaintext rand packet).take w.block.size = first at *
  generalize (w.plaintext rand packet).drop w.block.size = others at *
  have one : first.length = 1 * w.block.size := length₁.trans (Nat.one_mul _).symm
  -- what they are sent as
  have sent₁ : (w.block.cbcEncrypt 1 w.encrypter first).length = w.block.size :=
    (BlockCipher.length_cbcEncrypt w.length_encrypter one).trans (Nat.one_mul _)
  have sent₂ := BlockCipher.length_cbcEncrypt sent₁ length₂
  have plain₁ := BlockCipher.cbcDecrypt_cbcEncrypt w.length_encrypter one
  have plain₂ := BlockCipher.cbcDecrypt_cbcEncrypt sent₁ length₂
  have written : w.write seqNum rand packet =
      (w.block.cbcEncrypt 1 w.encrypter first ++
          w.block.cbcEncrypt n (w.block.cbcEncrypt 1 w.encrypter first) others ++
          w.macOf seqNum (first ++ others),
        w.encrypted (w.block.cbcEncrypt 1 w.encrypter first ++
          w.block.cbcEncrypt n (w.block.cbcEncrypt 1 w.encrypter first) others)) := by
    unfold write
    dsimp only
    rw [count, ← split, BlockCipher.cbcEncrypt_succ length₁]
  rw [written]
  generalize w.block.cbcEncrypt 1 w.encrypter first = c₁ at *
  generalize w.block.cbcEncrypt n c₁ others = c₂ at *
  have macOf : w.macOf = r.macOf := by
    unfold CbcCipher.macOf
    rw [h.mac]
  rw [← h.block] at *
  refine ⟨(r.decrypted c₁).decrypted c₂, fun rest => ?_, h.block, h.mac, ?_⟩
  · rw [macOf, r.read_eq seqNum c₁ c₂ rest sent₁ sent₂ (h.chained ▸ plain₁) plain₂ length padding
      enough (by omega) fits (by omega) (by rw [Nat.add_comm, ← whole, multiple]) (by omega),
      split]
    rw [show 4 + w.lengthField packet - w.paddingLength packet = prefixLen + packet.length from by
      unfold prefixLen; omega, payload]
  · change r.block.lastBlock (r.block.lastBlock r.decrypter c₁) c₂ =
      w.block.lastBlock w.encrypter (c₁ ++ c₂)
    rw [BlockCipher.lastBlock_self sent₁, ← h.block, BlockCipher.lastBlock_append sent₁ sent₂]

end CbcCipher

/-! ## All ciphers -/

namespace PacketCipher

variable {w r : PacketCipher}

/-- A writer's cipher and a reader's are of one mode and in step. -/
inductive InStep : PacketCipher → PacketCipher → Prop
  | stream {w r : StreamPacketCipher} : w.InStep r → InStep (.stream w) (.stream r)
  | gcm (c : GcmCipher) : InStep (.gcm c) (.gcm c)
  | chacha20Poly1305 (c : ChaCha20Poly1305Cipher) :
    InStep (.chacha20Poly1305 c) (.chacha20Poly1305 c)
  | cbc {w r : CbcCipher} : w.InStep r → InStep (.cbc w) (.cbc r)

/-- The length that stands in front of a packet. -/
def lengthField (packet : Bytes) : PacketCipher → Nat
  | .stream s => s.lengthField packet
  | .gcm _ => GcmCipher.lengthField packet
  | .chacha20Poly1305 _ => ChaCha20Poly1305Cipher.lengthField packet
  | .cbc c => c.lengthField packet

theorem InStep.read_write (h : InStep w r) (seqNum : UInt32) (rand : Nat → UInt8)
    (nonempty : packet ≠ []) (fits : w.lengthField packet ≤ maxPacket) :
    ∃ sent w' r', w.write seqNum rand packet = .ok (sent, w') ∧
      (∀ rest, r.read seqNum (sent ++ rest) = .ok (packet, rest, r')) ∧ InStep w' r' := by
  cases h with
  | stream h =>
    obtain ⟨sent, w', r', written, read, next⟩ := h.read_write seqNum rand nonempty fits
    exact ⟨sent, .stream w', .stream r', by simp only [write, written, Except.map],
      fun rest => by simp only [PacketCipher.read, read, Except.map], .stream next⟩
  | gcm c =>
    have read := c.read_write rand nonempty fits
    exact ⟨_, _, .gcm c.incIV, rfl, fun rest => by simp only [PacketCipher.read, read, Except.map],
      .gcm _⟩
  | chacha20Poly1305 c =>
    have read := c.read_write seqNum rand nonempty fits
    exact ⟨_, _, _, rfl, fun rest => by simp only [PacketCipher.read, read, Except.map],
      .chacha20Poly1305 c⟩
  | cbc h =>
    obtain ⟨r', read, next⟩ := h.read_write seqNum rand nonempty fits
    exact ⟨_, _, .cbc r', rfl, fun rest => by simp only [PacketCipher.read, read, Except.map],
      .cbc next⟩

theorem lengthField_lt (c : PacketCipher) (packet : Bytes) :
    c.lengthField packet < packet.length + 40 := by
  have sixteen := (paddingTo_bounds (by decide : 4 ≤ packetSizeMultiple) (1 + packet.length)).2
  have eight := (paddingTo_bounds (by decide : 4 ≤ 8) (1 + packet.length)).2
  unfold packetSizeMultiple at sixteen
  cases c with
  | stream s =>
    have := (s.paddingLength_bounds packet).2
    simp only [lengthField, StreamPacketCipher.lengthField]
    omega
  | gcm c =>
    simp only [lengthField, GcmCipher.lengthField, packetSizeMultiple]
    omega
  | chacha20Poly1305 c =>
    simp only [lengthField, ChaCha20Poly1305Cipher.lengthField]
    omega
  | cbc c =>
    have := (c.encLength_bounds packet).2.2.1
    simp only [lengthField, CbcCipher.lengthField]
    omega

/-- A writer refuses no packet that a reader takes. -/
theorem exists_write (c : PacketCipher) (seqNum : UInt32) (rand : Nat → UInt8)
    (fits : c.lengthField packet ≤ maxPacket) :
    ∃ sent c', c.write seqNum rand packet = .ok (sent, c') := by
  cases c with
  | stream s =>
    have short : ¬ maxPacket < packet.length := by
      simp only [lengthField, StreamPacketCipher.lengthField] at fits
      omega
    simp only [write, StreamPacketCipher.write, if_neg short, Except.map]
    exact ⟨_, _, rfl⟩
  | gcm c => exact ⟨_, _, rfl⟩
  | chacha20Poly1305 c => exact ⟨_, _, rfl⟩
  | cbc c => exact ⟨_, _, rfl⟩

/-- There is nothing to read in an empty stream. -/
theorem read_nil (c : PacketCipher) (seqNum : UInt32) : c.read seqNum [] = .error .eof := by
  cases c with
  | stream s => rfl
  | gcm c => rfl
  | chacha20Poly1305 c => rfl
  | cbc c =>
    have positive : 0 < c.firstBlockLength := by
      rw [CbcCipher.firstBlockLength_eq]
      rcases c.size_block with h | h <;> omega
    have short : readFull c.firstBlockLength [] = .error .eof := by
      rw [readFull, List.length_nil, if_neg (by omega)]
    simp only [PacketCipher.read, CbcCipher.read, short, bind, Except.bind, Except.map]

end PacketCipher

/-! ## What a read leaves -/

theorem length_of_readFull {n : Nat} {r a rest : Bytes} (h : readFull n r = .ok (a, rest)) :
    rest.length + n = r.length := by
  unfold readFull at h
  split at h
  · cases h
    rw [List.length_drop]
    omega
  · cases h

theorem StreamPacketCipher.length_rest_lt {s s' : StreamPacketCipher} {seqNum : UInt32}
    {r rest : Bytes} (h : s.read seqNum r = .ok (packet, rest, s')) : rest.length < r.length := by
  obtain ⟨⟨start, r₁⟩, first, h⟩ := bind_eq_ok.mp h
  obtain ⟨-, h⟩ := check_eq_ok.mp h
  obtain ⟨-, h⟩ := check_eq_ok.mp h
  obtain ⟨⟨data, r₂⟩, second, h⟩ := bind_eq_ok.mp h
  obtain ⟨-, h⟩ := check_eq_ok.mp h
  obtain ⟨-, h⟩ := check_eq_ok.mp h
  obtain ⟨-, h⟩ := check_eq_ok.mp h
  cases h
  have := length_of_readFull first
  have := length_of_readFull second
  unfold prefixLen at *
  omega

theorem GcmCipher.length_rest_lt {c c' : GcmCipher} {r rest : Bytes}
    (h : c.read r = .ok (packet, rest, c')) : rest.length < r.length := by
  obtain ⟨⟨header, r₁⟩, first, h⟩ := bind_eq_ok.mp h
  obtain ⟨-, h⟩ := check_eq_ok.mp h
  obtain ⟨⟨sealed, r₂⟩, second, h⟩ := bind_eq_ok.mp h
  dsimp only at h
  split at h
  · cases h
  · obtain ⟨payload, -, h⟩ := bind_eq_ok.mp h
    cases h
    have := length_of_readFull first
    have := length_of_readFull second
    omega

theorem ChaCha20Poly1305Cipher.length_rest_lt {c : ChaCha20Poly1305Cipher} {seqNum : UInt32}
    {r rest : Bytes} (h : c.read seqNum r = .ok (packet, rest)) : rest.length < r.length := by
  obtain ⟨⟨encryptedLength, r₁⟩, first, h⟩ := bind_eq_ok.mp h
  obtain ⟨-, h⟩ := check_eq_ok.mp h
  obtain ⟨⟨data, r₂⟩, second, h⟩ := bind_eq_ok.mp h
  obtain ⟨-, h⟩ := check_eq_ok.mp h
  obtain ⟨payload, -, h⟩ := bind_eq_ok.mp h
  cases h
  have := length_of_readFull first
  have := length_of_readFull second
  omega

theorem CbcCipher.length_rest_lt {c c' : CbcCipher} {seqNum : UInt32} {r rest : Bytes}
    (h : c.read seqNum r = .ok (packet, rest, c')) : rest.length < r.length := by
  obtain ⟨⟨firstBlock, r₁⟩, first, h⟩ := bind_eq_ok.mp h
  obtain ⟨-, h⟩ := check_eq_ok.mp h
  obtain ⟨-, h⟩ := check_eq_ok.mp h
  obtain ⟨-, h⟩ := check_eq_ok.mp h
  obtain ⟨-, h⟩ := check_eq_ok.mp h
  obtain ⟨⟨data, r₂⟩, second, h⟩ := bind_eq_ok.mp h
  obtain ⟨-, h⟩ := check_eq_ok.mp h
  cases h
  have := length_of_readFull first
  have := length_of_readFull second
  have := c.firstBlockLength_eq
  rcases c.size_block with h | h <;> omega

theorem PacketCipher.length_rest_lt {c c' : PacketCipher} {seqNum : UInt32} {r rest : Bytes}
    (h : c.read seqNum r = .ok (packet, rest, c')) : rest.length < r.length := by
  cases c with
  | stream s =>
    obtain ⟨⟨_, _, _⟩, read, h⟩ := map_eq_ok.mp h
    cases h
    exact StreamPacketCipher.length_rest_lt read
  | gcm c =>
    obtain ⟨⟨_, _, _⟩, read, h⟩ := map_eq_ok.mp h
    cases h
    exact GcmCipher.length_rest_lt read
  | chacha20Poly1305 c =>
    obtain ⟨⟨_, _⟩, read, h⟩ := map_eq_ok.mp h
    cases h
    exact ChaCha20Poly1305Cipher.length_rest_lt read
  | cbc c =>
    obtain ⟨⟨_, _, _⟩, read, h⟩ := map_eq_ok.mp h
    cases h
    exact CbcCipher.length_rest_lt read

end FakeSSH.Ssh
