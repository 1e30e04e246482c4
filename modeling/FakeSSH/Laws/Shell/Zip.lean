import FakeSSH.Go.Errors
import FakeSSH.Shell.Zip
import Mathlib.Data.List.GetD

/-!
# Which record the preflight accepts

`archive/zip` looks for its record in the whole file, the preflight in the last 65557
bytes. `locateEOCD_spec` says what was read and found there. The record that is
accepted is the one that a reader of the whole file takes, and the directory ends
where it starts. The check for a Zip64 locator looks 20 bytes back in the window, and
so misses one that the window cuts off.
-/

namespace FakeSSH.Shell

open FakeSSH.Go FakeSSH.Lib

variable {content file s : Bytes} {size : Int} {l : Located} {e i off : Nat}

/-! ## Reading in a window -/

theorem getD_drop (s : Bytes) (off i : Nat) : (s.drop off).getD i 0 = s.getD (off + i) 0 := by
  rw [List.getD_eq_getElem?_getD, List.getD_eq_getElem?_getD, List.getElem?_drop]

theorem le16_drop (s : Bytes) (off i : Nat) : le16 (s.drop off) i = le16 s (off + i) := by
  unfold le16
  rw [getD_drop, getD_drop, Nat.add_assoc]

theorem le32_drop (s : Bytes) (off i : Nat) : le32 (s.drop off) i = le32 s (off + i) := by
  unfold le32
  rw [le16_drop, le16_drop, Nat.add_assoc]

theorem eocdSignature_drop (s : Bytes) (off i : Nat) :
    eocdSignature (s.drop off) i = eocdSignature s (off + i) := by
  unfold eocdSignature
  simp only [getD_drop, Nat.add_assoc]

theorem commentEnd_drop (s : Bytes) (off i : Nat) :
    commentEnd s (off + i) = off + commentEnd (s.drop off) i := by
  unfold commentEnd
  rw [le16_drop]
  simp only [Nat.add_assoc]

/-! ## What is located -/

/-- What the loop takes is a record whose comment ends with the file. -/
theorem eocdAt_eq_ok {j : Nat} (h : eocdAt s j = some (.ok i)) :
    j = i ∧ eocdSignature s i = true ∧ commentEnd s i = s.length := by
  unfold eocdAt at h
  split at h
  next signed =>
    split at h
    next => cases h
    next fits =>
    split at h
    next => cases h
    next ends =>
    cases h
    exact ⟨rfl, signed, by omega⟩
  next => cases h

/-- What `locateEOCD` answers: the end of the file, and the last record in it. -/
structure Located.Spec (l : Located) (file : Bytes) : Prop where
  off_eq : l.off = file.length - zipEOCDEndScanSize
  tail_eq : l.tail = file.drop l.off
  found : lastHit (eocdAt l.tail) (l.tail.length + 1 - zipEOCDMinSize) = some (.ok l.eocdIdx)
  room : zipEOCDMinSize ≤ file.length

theorem locateEOCD_spec (h : locateEOCD content size = .ok l) :
    (content.take size.toNat).length = size.toNat ∧ l.Spec (content.take size.toNat) := by
  unfold locateEOCD at h
  obtain ⟨large, h⟩ := check_eq_ok.mp h
  simp only at h
  split at h
  next => cases h
  next tail hread =>
  split at h
  next => cases h
  next => cases h
  next eocdIdx found =>
  obtain ⟨-, h⟩ := check_eq_ok.mp h
  cases h
  unfold readAt at hread
  split at hread
  next inside =>
    cases hread
    have total : size.toNat - min size.toNat zipEOCDEndScanSize +
        min size.toNat zipEOCDEndScanSize = size.toNat := by omega
    rw [total] at inside
    have hlength : (content.take size.toNat).length = size.toNat := List.length_take_of_le inside
    have min_size : (zipEOCDMinSize : Int) ≤ size := Int.not_lt.mp large
    refine ⟨hlength, ?_, ?_, found, ?_⟩
    · show size.toNat - min size.toNat zipEOCDEndScanSize = _ - zipEOCDEndScanSize
      rw [hlength]
      omega
    · have rest : size.toNat - (size.toNat - min size.toNat zipEOCDEndScanSize) =
          min size.toNat zipEOCDEndScanSize := by omega
      rw [List.drop_take]
      exact congrArg (List.take · _) rest.symm
    · rw [hlength]
      exact (Int.le_toNat (Int.le_trans (by decide) min_size)).mpr min_size
  next => cases hread

namespace Located.Spec

/-- The accepted record, in the file. -/
theorem record (h : l.Spec file) :
    l.eocdIdx + zipEOCDMinSize ≤ l.tail.length ∧ eocdSignature file l.eocdAbs = true ∧
      commentEnd file l.eocdAbs = file.length := by
  obtain ⟨i, hi, hat, -⟩ := lastHit_eq_some.mp h.found
  obtain ⟨rfl, signed, ends⟩ := eocdAt_eq_ok hat
  have sizes : zipEOCDMinSize = 22 ∧ zipEOCDEndScanSize = 65557 := ⟨rfl, rfl⟩
  have tail_length : l.tail.length = file.length - l.off := by rw [h.tail_eq, List.length_drop]
  refine ⟨by omega, ?_, ?_⟩
  · rw [h.tail_eq, eocdSignature_drop] at signed
    exact signed
  · rw [Located.eocdAbs, commentEnd_drop, ← h.tail_eq, ends, tail_length, h.off_eq]
    omega

/-- The record's fields, read in the tail or in the file. -/
theorem readEOCD_eq (h : l.Spec file) : readEOCD l.tail l.eocdIdx = readEOCD file l.eocdAbs := by
  unfold readEOCD
  rw [h.tail_eq]
  simp only [le16_drop, le32_drop, Located.eocdAbs, Nat.add_assoc]

end Located.Spec

/-! ## What is accepted -/

/-- The preflight accepts, with the record at `e`. -/
def AcceptsAt (content : Bytes) (size : Int) (e : Nat) : Prop :=
  preflightZipDirectory content size = .ok () ∧
    ∃ l, locateEOCD content size = .ok l ∧ l.eocdAbs = e

/-- What the preflight makes sure of in the record's fields. -/
structure EOCD.Judged (r : EOCD) (eocdAbs : Nat) : Prop where
  entries : r.totalEntries ≠ 0xffff
  cdSize : r.cdSize ≠ 0xffffffff
  cdOffset : r.cdOffset ≠ 0xffffffff
  ends : r.cdOffset + r.cdSize = eocdAbs

theorem judgeEOCD_ok {r : EOCD} (h : judgeEOCD content size e r = .ok ()) : r.Judged e := by
  unfold judgeEOCD at h
  simp only [check_eq_ok] at h
  obtain ⟨entries, cdSize, cdOffset, -, -, -, -, -, ends, -⟩ := h
  exact ⟨entries, cdSize, cdOffset, not_not.mp ends⟩

/-- What is known of an accepted file. -/
theorem AcceptsAt.cases (h : AcceptsAt content size e) :
    ∃ l, l.eocdAbs = e ∧ (content.take size.toNat).length = size.toNat ∧
      l.Spec (content.take size.toNat) ∧ ¬ locatorSeen l ∧
      (readEOCD (content.take size.toNat) e).Judged e := by
  obtain ⟨accepted, l, located, rfl⟩ := h
  unfold preflightZipDirectory at accepted
  obtain ⟨l', located', accepted⟩ := bind_eq_ok.mp accepted
  cases located.symm.trans located'
  obtain ⟨hlength, spec⟩ := locateEOCD_spec located
  obtain ⟨unseen, accepted⟩ := check_eq_ok.mp accepted
  refine ⟨l, rfl, hlength, spec, unseen, ?_⟩
  rw [← spec.readEOCD_eq]
  exact judgeEOCD_ok accepted

/-! ## The record that a reader takes -/

/-- The rule of a reader that passes over a record whose comment runs past the end. -/
def lenientAt (file : Bytes) (i : Nat) : Option Nat :=
  if eocdSignature file i ∧ commentEnd file i ≤ file.length then some i else none

/-- The offset that such a reader takes, scanning the whole file from its end. -/
def lenientReader (file : Bytes) : Option Nat :=
  lastHit (lenientAt file) (file.length + 1 - zipEOCDMinSize)

/-- The rule of a reader that gives up at a record whose comment runs past the end. -/
def strictAt (file : Bytes) (i : Nat) : Option (Option Nat) :=
  if eocdSignature file i then
    some (if commentEnd file i ≤ file.length then some i else none)
  else none

/-- The offset that such a reader takes; it fails with `none`. -/
def strictReader (file : Bytes) : Option Nat :=
  (lastHit (strictAt file) (file.length + 1 - zipEOCDMinSize)).join

theorem Located.Spec.lenient (h : l.Spec file) : lenientReader file = some l.eocdAbs := by
  have tail_length : l.tail.length = file.length - l.off := by rw [h.tail_eq, List.length_drop]
  have window := h.record.1
  have count : file.length + 1 - zipEOCDMinSize =
      l.off + (l.tail.length + 1 - zipEOCDMinSize) := by
    have := h.off_eq
    have := h.room
    have : zipEOCDMinSize ≤ zipEOCDEndScanSize := by decide
    omega
  unfold lenientReader
  rw [count]
  apply lastHit_window l.off h.found
  · -- The window's loop goes on only where the reader does.
    intro i hnone
    unfold eocdAt at hnone
    unfold lenientAt
    rw [if_neg]
    rintro ⟨signed, fits⟩
    rw [← eocdSignature_drop, ← h.tail_eq] at signed
    rw [commentEnd_drop, ← h.tail_eq] at fits
    rw [if_pos signed, if_neg (by omega)] at hnone
    split at hnone <;> cases hnone
  · intro i _ hat
    obtain ⟨rfl, -, -⟩ := eocdAt_eq_ok hat
    have record := h.record
    unfold lenientAt
    exact if_pos ⟨record.2.1, Nat.le_of_eq record.2.2⟩

/-- A reader that gives up takes the same record or none. -/
theorem strict_of_lenient (h : lenientReader file = some e) :
    strictReader file = none ∨ strictReader file = some e := by
  obtain ⟨i, hi, hat, later⟩ := lastHit_eq_some.mp h
  unfold strictReader
  cases strict : lastHit (strictAt file) (file.length + 1 - zipEOCDMinSize) with
  | none => exact .inl rfl
  | some answer =>
    cases answer with
    | none => exact .inl rfl
    | some j =>
      right
      obtain ⟨k, hk, hkat, klater⟩ := lastHit_eq_some.mp strict
      unfold strictAt at hkat
      split at hkat
      next signed =>
        split at hkat
        next fits =>
          cases hkat
          have taken : lenientAt file j = some j := if_pos ⟨signed, fits⟩
          unfold lenientAt at hat
          split at hat
          next both =>
            cases hat
            -- Neither comes after the other.
            rcases Nat.lt_trichotomy e j with lt | rfl | gt
            · rw [later j lt hk] at taken
              cases taken
            · rfl
            · have missed := klater e gt hi
              unfold strictAt at missed
              rw [if_pos both.1] at missed
              cases missed
          next => cases hat
        next => cases hkat
      next => cases hkat

/-- ONE RECORD. What the preflight accepts is what a reader of the whole file takes, be
it one that passes over cut records or one that gives up at them; the record's comment
ends with the file; and the directory that it describes ends where it starts, so that
the reader shifts no offset. -/
theorem preflight_record_is_readers (content : Bytes) (size : Int) (e : Nat)
    (h : AcceptsAt content size e) :
    lenientReader (content.take size.toNat) = some e ∧
      (strictReader (content.take size.toNat) = none ∨
        strictReader (content.take size.toNat) = some e) ∧
      (commentEnd (content.take size.toNat) e : Int) = size ∧
      (e : Int) - (readEOCD (content.take size.toNat) e).cdSize -
        (readEOCD (content.take size.toNat) e).cdOffset = 0 := by
  obtain ⟨l, rfl, hlength, spec, -, judged⟩ := h.cases
  have lenient := spec.lenient
  have ends := judged.ends
  have large := spec.room
  rw [hlength] at large
  have min_size : zipEOCDMinSize = 22 := rfl
  refine ⟨lenient, strict_of_lenient lenient, ?_, ?_⟩
  · rw [spec.record.2.2, hlength]
    omega
  · omega

/-- The directory of an archive with one file, `a`. -/
def oneFileDirectory : Bytes :=
  [0x50, 0x4B, 1, 2] ++ List.replicate 24 0 ++ [1, 0] ++ List.replicate 16 0 ++ [0x61]

/-- A record with one entry and a directory of 47 bytes at the front. Its comment starts
as a record does, with a comment that would run past the end of the file. -/
def forgedComment : Bytes :=
  [0x50, 0x4B, 5, 6, 0, 0, 0, 0, 1, 0, 1, 0, 47, 0, 0, 0, 0, 0, 0, 0, 22, 0] ++
    ([0x50, 0x4B, 5, 6] ++ List.replicate 16 0 ++ [0xFF, 0xFF])

def forgedArchive : Bytes := oneFileDirectory ++ forgedComment

theorem forgedArchive_accepted : AcceptsAt forgedArchive 91 47 := ⟨by decide +kernel, _, rfl, rfl⟩

/-- The signature in the comment comes later; a reader that passes over it and the
preflight take the record before it, and a reader that does not takes none. -/
theorem preflight_record_of_forged :
    AcceptsAt forgedArchive 91 47 ∧ eocdSignature forgedArchive 69 = true ∧
      lenientReader (forgedArchive.take (91 : Int).toNat) = some 47 ∧
      strictReader (forgedArchive.take (91 : Int).toNat) = none :=
  ⟨forgedArchive_accepted, rfl, (preflight_record_is_readers _ _ _ forgedArchive_accepted).1,
    by decide +kernel⟩

/-! ## Zip64 -/

/-- Nothing at the record `e` sends a reader to a Zip64 record. -/
structure NoZip64 (file : Bytes) (e : Nat) : Prop where
  locator : zip64EOCDLocatorSize ≤ e →
    le32 file (e - zip64EOCDLocatorSize) ≠ zip64EOCDLocatorSignature
  entries : (readEOCD file e).totalEntries ≠ 0xffff
  cdSize : (readEOCD file e).cdSize ≠ 0xffffffff
  cdOffset : (readEOCD file e).cdOffset ≠ 0xffffffff

/-- A locator is seen where the window reaches it. -/
theorem Located.Spec.locator_absent (h : l.Spec file) (unseen : ¬ locatorSeen l)
    (short : le16 file (l.eocdAbs + 20) ≤ zipMaxCommentSize - zip64EOCDLocatorSize)
    (room : zip64EOCDLocatorSize ≤ l.eocdAbs) :
    le32 file (l.eocdAbs - zip64EOCDLocatorSize) ≠ zip64EOCDLocatorSignature := by
  intro hsig
  apply unseen
  have ends := h.record.2.2
  have start := h.off_eq
  unfold commentEnd at ends
  unfold Located.eocdAbs at *
  simp only [zip64EOCDLocatorSize, zipEOCDMinSize, zipEOCDEndScanSize, zipMaxCommentSize] at *
  have inside : 20 ≤ l.eocdIdx := by omega
  refine ⟨inside, ?_⟩
  have place : l.off + (l.eocdIdx - 20) = l.off + l.eocdIdx - 20 := by omega
  rw [h.tail_eq, le32_drop]
  show le32 file (l.off + (l.eocdIdx - 20)) = _
  rw [place]
  exact hsig

/-- A locator, a record with no entries whose comment is `65515 + k` bytes long, and the
comment. The window starts `k` bytes into the locator. -/
def hiddenLocatorHead (k : Nat) : Bytes :=
  [0x50, 0x4B, 6, 7, 0, 0, 0, 0, 0, 0, 0, 0, 0, 0, 0, 0, 0, 0, 0, 0,
    0x50, 0x4B, 5, 6, 0, 0, 0, 0, 0, 0, 0, 0, 0, 0, 0, 0, 20, 0, 0, 0, UInt8.ofNat (235 + k), 0xFF]

def hiddenLocator (k : Nat) : Bytes := hiddenLocatorHead k ++ List.replicate (65515 + k) 0

section

variable {k : Nat}

theorem hiddenLocator_length : (hiddenLocator k).length = 65557 + k := by
  rw [hiddenLocator, List.length_append, List.length_replicate]
  show 42 + (65515 + k) = _
  omega

/-- Inside its first 42 bytes the file is what is written there. -/
theorem hiddenLocator_head {j : Nat} (h : j < 42) :
    (hiddenLocator k).getD j 0 = (hiddenLocatorHead k).getD j 0 :=
  List.getD_append _ _ _ _ h

theorem hiddenLocator_le16 {j : Nat} (h : j < 41) :
    le16 (hiddenLocator k) j = le16 (hiddenLocatorHead k) j := by
  unfold le16
  rw [hiddenLocator_head (by omega), hiddenLocator_head (by omega)]

theorem hiddenLocator_le32 {j : Nat} (h : j < 39) :
    le32 (hiddenLocator k) j = le32 (hiddenLocatorHead k) j := by
  unfold le32
  rw [hiddenLocator_le16 (by omega), hiddenLocator_le16 (by omega)]

theorem hiddenLocator_comment (hk : k ≤ 20) : le16 (hiddenLocator k) 40 = 65515 + k := by
  rw [hiddenLocator_le16 (by decide)]
  show (UInt8.ofNat (235 + k)).toNat + 256 * 255 = _
  rw [UInt8.toNat_ofNat_of_lt' (by show 235 + k < 256; omega)]
  omega

/-- No signature starts behind the record's: there is no `50` there. -/
theorem hiddenLocator_later {j : Nat} (hk : k ≤ 20) (h : 20 < j) :
    eocdSignature (hiddenLocator k) j = false := by
  have low : UInt8.ofNat (235 + k) ≠ 0x50 := by
    intro heq
    have := congrArg UInt8.toNat heq
    rw [UInt8.toNat_ofNat_of_lt' (by show 235 + k < 256; omega)] at this
    have : 235 + k = 80 := this
    omega
  have head : ∀ b ∈ (hiddenLocatorHead k).drop 21, b ≠ 0x50 := by
    simpa [hiddenLocatorHead] using low
  have bytes : ∀ b ∈ (hiddenLocator k).drop 21, b ≠ 0x50 := by
    intro b hb
    rcases List.mem_append.mp (show b ∈ (hiddenLocatorHead k).drop 21 ++ _ from hb) with hb | hb
    · exact head b hb
    · rw [List.eq_of_mem_replicate hb]
      decide
  have first : (hiddenLocator k).getD j 0 ≠ 0x50 := by
    have place : j = 21 + (j - 21) := by omega
    rw [place, ← getD_drop]
    by_cases inside : j - 21 < ((hiddenLocator k).drop 21).length
    · rw [List.getD_eq_getElem _ _ inside]
      exact bytes _ (List.getElem_mem inside)
    · rw [List.getD_eq_default _ _ (Nat.le_of_not_lt inside)]
      decide
  unfold eocdSignature
  rw [beq_false_of_ne first]
  rfl

/-- The window starts inside the locator and shows the record as the last one. -/
theorem hiddenLocator_located (pos : 0 < k) (hk : k ≤ 20) :
    locateEOCD (hiddenLocator k) (65557 + k) =
      .ok { off := k, tail := (hiddenLocator k).drop k, eocdIdx := 20 - k } := by
  have hsize : (65557 + k : Int).toNat = 65557 + k := by omega
  have htail : min (65557 + k) zipEOCDEndScanSize = 65557 := by
    simp only [zipEOCDEndScanSize, zipMaxCommentSize, zipEOCDMinSize]
    omega
  have hread : readAt (hiddenLocator k) k 65557 = some ((hiddenLocator k).drop k) := by
    unfold readAt
    rw [hiddenLocator_length, if_pos (by omega), List.take_of_length_le]
    rw [List.length_drop, hiddenLocator_length]
    omega
  have hlength : ((hiddenLocator k).drop k).length = 65557 := by
    rw [List.length_drop, hiddenLocator_length]
    omega
  have place : k + (20 - k) = 20 := by omega
  have hit : lastHit (eocdAt ((hiddenLocator k).drop k))
      (((hiddenLocator k).drop k).length + 1 - zipEOCDMinSize) = some (.ok (20 - k)) := by
    refine lastHit_eq_some.mpr ⟨20 - k, ?_, ?_, ?_⟩
    · rw [hlength]
      show 20 - k < 65557 + 1 - 22
      omega
    · have signed : eocdSignature ((hiddenLocator k).drop k) (20 - k) = true := by
        rw [eocdSignature_drop, place]
        rfl
      have ends : commentEnd ((hiddenLocator k).drop k) (20 - k) = 65557 := by
        unfold commentEnd
        rw [le16_drop, ← Nat.add_assoc, place, hiddenLocator_comment hk]
        show 20 - k + 22 + (65515 + k) = _
        omega
      unfold eocdAt
      rw [if_pos signed, ends, hlength, if_neg (Nat.lt_irrefl _), if_neg (Nat.lt_irrefl _)]
    · intro j hj _
      unfold eocdAt
      rw [eocdSignature_drop, hiddenLocator_later hk (by omega), if_neg Bool.false_ne_true]
  unfold locateEOCD
  rw [if_neg (by show ¬ ((65557 + k : Int) < 22); omega), hsize, htail]
  have start : 65557 + k - 65557 = k := by omega
  simp only [start, hread, hit]
  rw [if_neg]
  rw [hlength]
  show ¬ (65557 - (20 - k) < 22)
  omega

/-- The preflight takes it. -/
theorem hiddenLocator_accepted (pos : 0 < k) (hk : k ≤ 20) :
    AcceptsAt (hiddenLocator k) (65557 + k) 20 := by
  have place : k + (20 - k) = 20 := by omega
  refine ⟨?_, _, hiddenLocator_located pos hk, place⟩
  have unseen : ¬ locatorSeen
      { off := k, tail := (hiddenLocator k).drop k, eocdIdx := 20 - k } := by
    rintro ⟨inside, -⟩
    have : 20 ≤ 20 - k := inside
    omega
  have fields : readEOCD ((hiddenLocator k).drop k) (20 - k) = ⟨0, 0, 0, 0, 20⟩ := by
    unfold readEOCD
    simp only [le16_drop, le32_drop, ← Nat.add_assoc, place]
    rw [hiddenLocator_le16 (by decide), hiddenLocator_le16 (by decide),
      hiddenLocator_le16 (by decide), hiddenLocator_le32 (by decide),
      hiddenLocator_le32 (by decide)]
    rfl
  unfold preflightZipDirectory
  rw [hiddenLocator_located pos hk]
  show (if locatorSeen _ then _ else judgeEOCD _ _ (k + (20 - k)) (readEOCD _ _)) = _
  rw [if_neg unseen, fields, place]
  unfold judgeEOCD
  rw [if_neg (by decide), if_neg (by decide), if_neg (by decide), if_neg (by decide),
    if_neg (by decide), if_neg (by decide), if_neg (by show ¬ ((65557 + k : Int) < 20); omega),
    if_neg (by decide), if_neg (by decide)]
  rfl

/-- And the locator is there. -/
theorem hiddenLocator_locator : le32 (hiddenLocator k) (20 - zip64EOCDLocatorSize) =
    zip64EOCDLocatorSignature := by
  rw [hiddenLocator_le32 (by decide)]
  show 0x50 + 256 * 0x4B + 65536 * (6 + 256 * 7) = 0x07064b50
  decide

theorem hiddenLocator_take :
    (hiddenLocator k).take ((65557 + k : Int)).toNat = hiddenLocator k := by
  apply List.take_of_length_le
  rw [hiddenLocator_length]
  omega

end

/-- Every comment that leaves no room for a locator in the window lets one pass. -/
theorem exists_hidden_locator (c : UInt16)
    (long : zipMaxCommentSize - zip64EOCDLocatorSize < c.toNat) :
    ∃ (content : Bytes) (size : Int) (e : Nat), AcceptsAt content size e ∧
      le16 (content.take size.toNat) (e + 20) = c.toNat ∧
      ¬ NoZip64 (content.take size.toNat) e := by
  have bound : c.toNat < 65536 := c.toNat_lt
  have hlong : 65515 < c.toNat := long
  obtain ⟨k, hk⟩ : ∃ k, c.toNat = 65515 + k := ⟨c.toNat - 65515, by omega⟩
  refine ⟨hiddenLocator k, 65557 + k, 20, hiddenLocator_accepted (by omega) (by omega), ?_, ?_⟩
  · rw [hiddenLocator_take, hiddenLocator_comment (by omega), hk]
  · rw [hiddenLocator_take]
    exact fun free => free.locator (by decide) hiddenLocator_locator

/-- ZIP64. An accepted file leads no reader to a Zip64 record exactly when its record's
comment leaves room for a locator in the window, or the record stands too far in front
for one, or none is there. -/
theorem preflight_excludes_zip64_iff (content : Bytes) (size : Int) (e : Nat)
    (accepted : AcceptsAt content size e) :
    NoZip64 (content.take size.toNat) e ↔
      le16 (content.take size.toNat) (e + 20) ≤ zipMaxCommentSize - zip64EOCDLocatorSize ∨
        e < zip64EOCDLocatorSize ∨
        le32 (content.take size.toNat) (e - zip64EOCDLocatorSize) ≠ zip64EOCDLocatorSignature := by
  obtain ⟨l, rfl, -, spec, unseen, judged⟩ := accepted.cases
  constructor
  · intro free
    rcases Nat.lt_or_ge l.eocdAbs zip64EOCDLocatorSize with front | room
    · exact .inr (.inl front)
    · exact .inr (.inr (free.locator room))
  · intro absent
    refine ⟨fun room => ?_, judged.entries, judged.cdSize, judged.cdOffset⟩
    rcases absent with short | front | absent
    · exact spec.locator_absent unseen short room
    · exact absurd room (Nat.not_le_of_lt front)
    · exact absent

/-- The comment of the forged archive is short. -/
theorem preflight_excludes_zip64_of_forged :
    AcceptsAt forgedArchive 91 47 ∧ NoZip64 (forgedArchive.take (91 : Int).toNat) 47 :=
  ⟨forgedArchive_accepted,
    (preflight_excludes_zip64_iff _ _ _ forgedArchive_accepted).mpr (.inl (by decide +kernel))⟩

/-- A file of 65577 bytes that is accepted with a locator before its record. -/
theorem hiddenLocator_passes :
    AcceptsAt (hiddenLocator 20) 65577 20 ∧ ¬ NoZip64 (hiddenLocator 20) 20 := by
  have accepted := hiddenLocator_accepted (k := 20) (by decide) (by decide)
  have size : (65557 + ((20 : Nat) : Int)) = 65577 := by decide
  rw [size] at accepted
  exact ⟨accepted, fun h => h.locator (by decide) hiddenLocator_locator⟩

end FakeSSH.Shell
