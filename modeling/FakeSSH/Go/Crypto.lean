import FakeSSH.Go.Strings

/-!
# The interfaces of Go's `crypto/cipher` and `hash`

What a packet cipher uses of the cryptography under it: a keyed hash, a stream cipher, an AEAD
and a block cipher in CBC mode. Each structure has the law that the users of the interface rely on,
that what was encrypted can be decrypted, and the lengths of the results. Which functions they are
is left open. An AEAD can be made of a key stream and a tag (`Aead.encryptThenTag`), and a block
cipher of keyed hashes (`BlockCipher.feistel`).
-/

namespace FakeSSH.Go

/-- A `hash.Hash` that has been set up with its key: what `Sum` gives for what was written. -/
structure KeyedHash where
  size : Nat
  sum : Bytes → Bytes
  length_sum : ∀ data, (sum data).length = size

/-- The first bytes of a hash, as `truncatingMAC` of the SSH library has it. -/
def KeyedHash.truncate (h : KeyedHash) (n : Nat) (shorter : n ≤ h.size) : KeyedHash where
  size := n
  sum data := (h.sum data).take n
  length_sum := fun data => by rw [List.length_take, h.length_sum, Nat.min_eq_left shorter]

/-! ## Streams -/

/-- A `cipher.Stream`: its key stream, and how much of it has been used. -/
structure StreamCipher where
  keystream : Nat → UInt8
  used : Nat

/-- What `XORKeyStream` writes. -/
def StreamCipher.xorKeyStream (s : StreamCipher) (src : Bytes) : Bytes :=
  src.mapIdx fun i b => b ^^^ s.keystream (s.used + i)

/-- The stream after `n` bytes. -/
def StreamCipher.skip (s : StreamCipher) (n : Nat) : StreamCipher := { s with used := s.used + n }

namespace StreamCipher

variable (s : StreamCipher) (a : Bytes)

@[simp] theorem length_xorKeyStream : (s.xorKeyStream a).length = a.length :=
  List.length_mapIdx

@[simp] theorem xorKeyStream_xorKeyStream : s.xorKeyStream (s.xorKeyStream a) = a := by
  unfold xorKeyStream
  apply List.ext_getElem?
  intro i
  cases h : a[i]? with
  | none => simp [h]
  | some x =>
    simp only [List.getElem?_mapIdx, h, Option.map_some, UInt8.xor_assoc, UInt8.xor_self,
      UInt8.xor_zero]

end StreamCipher

/-! ## Authenticated encryption -/

/-- A `cipher.AEAD` with tags of `overhead` bytes. -/
structure Aead where
  overhead : Nat
  sealData : Bytes → Bytes → Bytes → Bytes
  openData : Bytes → Bytes → Bytes → Option Bytes
  length_sealData : ∀ nonce plain data, (sealData nonce plain data).length = plain.length + overhead
  openData_sealData : ∀ nonce plain data, openData nonce (sealData nonce plain data) data = some plain

/-- An AEAD that encrypts with a key stream and has the tag of the ciphertext behind it, as GCM
and ChaCha20-Poly1305 do. -/
def Aead.encryptThenTag (keystream : Bytes → Nat → UInt8) (tag : Bytes → KeyedHash) (overhead : Nat)
    (size_tag : ∀ nonce, (tag nonce).size = overhead) : Aead where
  overhead := overhead
  sealData nonce plain data :=
    let ciphertext := StreamCipher.xorKeyStream ⟨keystream nonce, 0⟩ plain
    ciphertext ++ (tag nonce).sum (data ++ ciphertext)
  openData nonce sealed data :=
    let ciphertext := sealed.take (sealed.length - overhead)
    if (tag nonce).sum (data ++ ciphertext) = sealed.drop (sealed.length - overhead) then
      some (StreamCipher.xorKeyStream ⟨keystream nonce, 0⟩ ciphertext)
    else none
  length_sealData := fun nonce plain data => by
    rw [List.length_append, StreamCipher.length_xorKeyStream, (tag nonce).length_sum, size_tag]
  openData_sealData := fun nonce plain data => by
    have front : ∀ c : Bytes, (c ++ (tag nonce).sum (data ++ c)).length - overhead = c.length := by
      intro c
      rw [List.length_append, (tag nonce).length_sum, size_tag, Nat.add_sub_cancel]
    simp only [front, List.take_left, List.drop_left, if_true,
      StreamCipher.xorKeyStream_xorKeyStream]

/-! ## Blocks -/

/-- A `cipher.Block`. -/
structure BlockCipher where
  size : Nat
  encrypt : Bytes → Bytes
  decrypt : Bytes → Bytes
  length_encrypt : ∀ src, src.length = size → (encrypt src).length = size
  decrypt_encrypt : ∀ src, src.length = size → decrypt (encrypt src) = src

/-- Two blocks, byte by byte. -/
def xorBlock (a b : Bytes) : Bytes := List.zipWith (· ^^^ ·) a b

theorem length_xorBlock {a b : Bytes} (h : a.length = b.length) :
    (xorBlock a b).length = a.length := by
  rw [xorBlock, List.length_zipWith, h, Nat.min_self]

theorem xorBlock_xorBlock {a b : Bytes} (h : a.length = b.length) :
    xorBlock (xorBlock a b) b = a := by
  induction a generalizing b with
  | nil => rfl
  | cons x a ih =>
    cases b with
    | nil => cases h
    | cons y b =>
      have rest := ih (Nat.succ_injective h)
      simp only [xorBlock, List.zipWith_cons_cons, List.cons.injEq] at rest ⊢
      exact ⟨by rw [UInt8.xor_assoc, UInt8.xor_self, UInt8.xor_zero], rest⟩

namespace BlockCipher

/-! ### Feistel networks -/

/-- A round on the two halves of a block. -/
def feistelRound (f : KeyedHash) (x : Bytes × Bytes) : Bytes × Bytes :=
  (x.2, xorBlock x.1 (f.sum x.2))

def feistelUnround (f : KeyedHash) (x : Bytes × Bytes) : Bytes × Bytes :=
  (xorBlock x.2 (f.sum x.1), x.1)

section Feistel

variable {half : Nat} {f : KeyedHash} {x : Bytes × Bytes} {rounds : List KeyedHash}

/-- Both halves have the same length. -/
def Halved (half : Nat) (x : Bytes × Bytes) : Prop := x.1.length = half ∧ x.2.length = half

theorem Halved.round (h : Halved half x) (size : f.size = half) : Halved half (feistelRound f x) :=
  ⟨h.2, by rw [feistelRound, length_xorBlock (by rw [h.1, f.length_sum, size]), h.1]⟩

theorem feistelUnround_feistelRound (h : Halved half x) (size : f.size = half) :
    feistelUnround f (feistelRound f x) = x := by
  rw [feistelUnround, feistelRound, xorBlock_xorBlock (by rw [h.1, f.length_sum, size])]

theorem Halved.foldl (h : Halved half x) (sizes : ∀ f ∈ rounds, f.size = half) :
    Halved half (rounds.foldl (fun x f => feistelRound f x) x) := by
  induction rounds generalizing x with
  | nil => exact h
  | cons f rounds ih =>
    obtain ⟨size, sizes⟩ := List.forall_mem_cons.mp sizes
    exact ih (h.round size) sizes

/-- The rounds are undone from the last to the first. -/
theorem foldr_foldl_feistel (h : Halved half x) (sizes : ∀ f ∈ rounds, f.size = half) :
    rounds.foldr feistelUnround (rounds.foldl (fun x f => feistelRound f x) x) = x := by
  induction rounds generalizing x with
  | nil => rfl
  | cons f rounds ih =>
    obtain ⟨size, sizes⟩ := List.forall_mem_cons.mp sizes
    rw [List.foldl_cons, List.foldr_cons, ih (h.round size) sizes,
      feistelUnround_feistelRound h size]

theorem Halved.split {src : Bytes} (h : src.length = half + half) :
    Halved half (src.take half, src.drop half) := by
  constructor
  · rw [List.length_take]
    omega
  · rw [List.length_drop]
    omega

/-- A block cipher of rounds on the halves of a block, as DES is. -/
def feistel (half : Nat) (rounds : List KeyedHash) (sizes : ∀ f ∈ rounds, f.size = half) :
    BlockCipher where
  size := half + half
  encrypt src :=
    let x := rounds.foldl (fun x f => feistelRound f x) (src.take half, src.drop half)
    x.1 ++ x.2
  decrypt src :=
    let x := rounds.foldr feistelUnround (src.take half, src.drop half)
    x.1 ++ x.2
  length_encrypt := fun src h => by
    obtain ⟨left, right⟩ := (Halved.split h).foldl sizes
    rw [List.length_append, left, right]
  decrypt_encrypt := fun src h => by
    have halves := (Halved.split h).foldl sizes
    have undone := foldr_foldl_feistel (Halved.split h) sizes
    dsimp only
    rw [List.take_left' halves.1, List.drop_left' halves.1]
    exact (congrArg (fun x => x.1 ++ x.2) undone).trans (List.take_append_drop half src)

end Feistel

/-! ### CBC -/

variable (blk : BlockCipher)

/-- `CryptBlocks` of a CBC encrypter, on `n` blocks after the block `prev`. -/
def cbcEncrypt : Nat → Bytes → Bytes → Bytes
  | 0, _, _ => []
  | n + 1, prev, src =>
    let c := blk.encrypt (xorBlock (src.take blk.size) prev)
    c ++ cbcEncrypt n c (src.drop blk.size)

/-- `CryptBlocks` of a CBC decrypter. -/
def cbcDecrypt : Nat → Bytes → Bytes → Bytes
  | 0, _, _ => []
  | n + 1, prev, src =>
    let c := src.take blk.size
    xorBlock (blk.decrypt c) prev ++ cbcDecrypt n c (src.drop blk.size)

/-- The block that the next call goes on from: the last one of the ciphertext. -/
def lastBlock (prev ciphertext : Bytes) : Bytes :=
  if blk.size ≤ ciphertext.length then ciphertext.drop (ciphertext.length - blk.size) else prev

variable {blk} {n : Nat} {prev src : Bytes}

theorem length_cbcEncrypt (hp : prev.length = blk.size) (hs : src.length = n * blk.size) :
    (blk.cbcEncrypt n prev src).length = n * blk.size := by
  induction n generalizing prev src with
  | zero => simp [cbcEncrypt]
  | succ n ih =>
    rw [Nat.succ_mul] at hs
    have first : (src.take blk.size).length = blk.size := by
      rw [List.length_take]
      omega
    have block : (blk.encrypt (xorBlock (src.take blk.size) prev)).length = blk.size :=
      blk.length_encrypt _ (by rw [length_xorBlock (first.trans hp.symm), first])
    have rest : (src.drop blk.size).length = n * blk.size := by
      rw [List.length_drop]
      omega
    rw [cbcEncrypt, List.length_append, block, ih block rest, Nat.succ_mul, Nat.add_comm]

theorem cbcDecrypt_cbcEncrypt (hp : prev.length = blk.size) (hs : src.length = n * blk.size) :
    blk.cbcDecrypt n prev (blk.cbcEncrypt n prev src) = src := by
  induction n generalizing prev src with
  | zero =>
    rw [Nat.zero_mul, List.length_eq_zero_iff] at hs
    rw [hs]
    rfl
  | succ n ih =>
    rw [Nat.succ_mul] at hs
    have first : (src.take blk.size).length = blk.size := by
      rw [List.length_take]
      omega
    have masked : (xorBlock (src.take blk.size) prev).length = blk.size := by
      rw [length_xorBlock (first.trans hp.symm), first]
    have block : (blk.encrypt (xorBlock (src.take blk.size) prev)).length = blk.size :=
      blk.length_encrypt _ masked
    have rest : (src.drop blk.size).length = n * blk.size := by
      rw [List.length_drop]
      omega
    rw [cbcEncrypt, cbcDecrypt, List.take_left' block, List.drop_left' block,
      blk.decrypt_encrypt _ masked, xorBlock_xorBlock (first.trans hp.symm), ih block rest,
      List.take_append_drop]

theorem length_lastBlock (hp : prev.length = blk.size) (ciphertext : Bytes) :
    (blk.lastBlock prev ciphertext).length = blk.size := by
  unfold lastBlock
  split
  · rw [List.length_drop]
    omega
  · exact hp

theorem lastBlock_append {c rest : Bytes} (hc : c.length = blk.size)
    (hr : rest.length = n * blk.size) (prev : Bytes) :
    blk.lastBlock prev (c ++ rest) = blk.lastBlock c rest := by
  unfold lastBlock
  rw [List.length_append, if_pos (by omega)]
  split
  · rw [List.drop_append, List.drop_eq_nil_of_le (by omega), List.nil_append]
    congr 1
    omega
  · -- fewer bytes than a block are none
    rename_i few
    have none : rest.length = 0 := by
      cases n with
      | zero => rw [hr, Nat.zero_mul]
      | succ n =>
        rw [Nat.succ_mul] at hr
        omega
    rw [List.length_eq_zero_iff.mp none, List.append_nil, hc]
    simp

theorem lastBlock_self {c : Bytes} (hc : c.length = blk.size) (prev : Bytes) :
    blk.lastBlock prev c = c := by
  rw [lastBlock, hc, if_pos le_rfl, Nat.sub_self, List.drop_zero]

/-- Encryption of one block and then of the others. -/
theorem cbcEncrypt_succ {first : Bytes} (hf : first.length = blk.size) (n : Nat)
    (prev rest : Bytes) : blk.cbcEncrypt (n + 1) prev (first ++ rest) =
      blk.cbcEncrypt 1 prev first ++ blk.cbcEncrypt n (blk.cbcEncrypt 1 prev first) rest := by
  rw [cbcEncrypt, cbcEncrypt, cbcEncrypt, List.take_left' hf, List.drop_left' hf, List.append_nil,
    ← hf, List.take_length]

end BlockCipher

end FakeSSH.Go
