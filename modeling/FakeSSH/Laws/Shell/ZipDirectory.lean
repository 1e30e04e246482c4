import FakeSSH.Lib.Framing
import FakeSSH.Laws.Shell.Zip

/-!
# What the scan of a central directory accepts

A central directory is well framed when it is a sequence of records, each as long as
its own header says. `scanZipCentralDirectory` counts them: it succeeds exactly on the
well-framed directories within the caps, and its answer is the number of records.

The loop is taken turn by turn (`scanTurn`). A turn passes exactly where a record
starts what is left of the directory, so the run is the framing's own recursion. The
turns that the model allows are never what stops it, and in no turn does a sum wrap or
a read leave the directory.
-/

namespace FakeSSH.Shell

open FakeSSH.Go FakeSSH.Lib

variable {file : Bytes} {cdOffset cdSize consumed entries turns n : Nat}

/-! ## Records -/

/-- A central-directory record: signed, and as long as its header says. -/
structure CentralRecord (r : Bytes) : Prop where
  header : zipCentralDirectoryHeaderSize ≤ r.length
  signed : le32 r 0 = zipCentralDirectoryHeaderSignature
  length : r.length = zipCentralDirectoryHeaderSize + le16 r 28 + le16 r 30 + le16 r 32

theorem le16_take {s : Bytes} {k i : Nat} (h : i + 1 < k) : le16 (s.take k) i = le16 s i := by
  unfold le16
  simp only [List.getD_eq_getElem?_getD]
  rw [List.getElem?_take_of_lt (by omega), List.getElem?_take_of_lt h]

theorem le32_take {s : Bytes} {k i : Nat} (h : i + 3 < k) : le32 (s.take k) i = le32 s i := by
  unfold le32
  rw [le16_take (by omega), le16_take h]

/-- The length that the header at the beginning of `s` gives its record. -/
def entryLen (s : Bytes) : Nat :=
  zipCentralDirectoryHeaderSize + le16 s 28 + le16 s 30 + le16 s 32

theorem entryLen_take {s : Bytes} {k : Nat} (h : zipCentralDirectoryHeaderSize ≤ k) :
    entryLen (s.take k) = entryLen s := by
  have size : zipCentralDirectoryHeaderSize = 46 := rfl
  unfold entryLen
  rw [le16_take (by omega), le16_take (by omega), le16_take (by omega)]

theorem signature_take {s : Bytes} {k : Nat} (h : zipCentralDirectoryHeaderSize ≤ k) :
    le32 (s.take k) 0 = le32 s 0 := by
  have size : zipCentralDirectoryHeaderSize = 46 := rfl
  exact le32_take (by omega)

/-- The record that starts a sequence, if its header does. -/
def recordLen (s : Bytes) : Option Nat :=
  if zipCentralDirectoryHeaderSize ≤ s.length ∧ le32 s 0 = zipCentralDirectoryHeaderSignature then
    some (entryLen s)
  else none

theorem recordLen_eq_some {s : Bytes} : recordLen s = some n ↔
    zipCentralDirectoryHeaderSize ≤ s.length ∧ le32 s 0 = zipCentralDirectoryHeaderSignature ∧
      entryLen s = n := by
  unfold recordLen
  split
  next h => rw [Option.some.injEq, and_iff_right h.1, and_iff_right h.2]
  next h =>
    refine iff_of_false nofun ?_
    rintro ⟨header, signed, -⟩
    exact h ⟨header, signed⟩

/-- The header alone decides. -/
theorem recordLen_take {s : Bytes} {k : Nat} (h : zipCentralDirectoryHeaderSize ≤ k)
    (hk : k ≤ s.length) : recordLen (s.take k) = recordLen s := by
  unfold recordLen
  rw [signature_take h, entryLen_take h, List.length_take, Nat.min_eq_left hk]
  have header : zipCentralDirectoryHeaderSize ≤ s.length := by omega
  simp only [h, header, true_and]

/-- The framing of a central directory. -/
def centralFraming : Framing UInt8 where
  len := recordLen
  pos := by
    intro s n h
    obtain ⟨-, -, rfl⟩ := recordLen_eq_some.mp h
    show 0 < 46 + _ + _ + _
    omega
  append := by
    intro r more h
    have header := (recordLen_eq_some.mp h).1
    have fits : r.length ≤ (r ++ more).length := by
      rw [List.length_append]
      omega
    have cut := recordLen_take header fits
    rw [List.take_left] at cut
    rw [← cut, h]
  take := by
    intro s n h hn
    obtain ⟨header, signed, rfl⟩ := recordLen_eq_some.mp h
    have long : zipCentralDirectoryHeaderSize ≤ entryLen s := by
      unfold entryLen
      omega
    rw [recordLen_take long hn, h]

theorem centralRecord_iff {r : Bytes} : centralFraming.Record r ↔ CentralRecord r := by
  refine recordLen_eq_some.trans ?_
  constructor
  · rintro ⟨header, signed, length⟩
    exact ⟨header, signed, length.symm⟩
  · rintro ⟨header, signed, length⟩
    exact ⟨header, signed, length.symm⟩

/-! ## One turn -/

/-- One turn of the loop of `scanZipCentralDirectory`, while bytes are left: the new
count of bytes and of entries. -/
def scanTurn (file : Bytes) (cdOffset cdSize consumed entries : Nat) :
    Except ZipError (Nat × Nat) :=
  let remaining := cdSize - consumed
  if remaining < zipCentralDirectoryHeaderSize then .error (.truncatedDirectory remaining)
  else
    let off := (cdOffset + consumed) % 18446744073709551616
    if 9223372036854775807 < off then .error (.offsetOverflow off)
    else match readAt file off zipCentralDirectoryHeaderSize with
      | none => .error (.readHeader off)
      | some hdr =>
        if le32 hdr 0 ≠ zipCentralDirectoryHeaderSignature then .error (.badHeader off)
        else if remaining < entryLen hdr then .error (.entryLength off (entryLen hdr) remaining)
        else if maxRootFSEntries < entries + 1 then .error .tooManyActual
        else
          let consumed := (consumed + entryLen hdr) % 18446744073709551616
          if maxRootFSZipCentralDirectoryBytes < consumed then .error (.directoryBytes consumed)
          else .ok (consumed, entries + 1)

/-- The loop is its turns. -/
theorem scanFrom_succ : scanFrom file cdOffset cdSize (turns + 1) consumed entries =
    if consumed < cdSize then do
      let next ← scanTurn file cdOffset cdSize consumed entries
      scanFrom file cdOffset cdSize turns next.1 next.2
    else if consumed ≠ cdSize then .error (.consumedMismatch consumed cdSize)
    else .ok entries := by
  rw [scanFrom]
  split
  next =>
    unfold scanTurn entryLen
    dsimp only
    split
    next => rfl
    next =>
    split
    next => rfl
    next =>
    cases readAt file ((cdOffset + consumed) % 18446744073709551616)
        zipCentralDirectoryHeaderSize with
    | none => rfl
    | some hdr =>
      dsimp only
      split
      next => rfl
      next =>
      split
      next => rfl
      next =>
      split
      next => rfl
      next =>
      split
      next => rfl
      next => rfl
  next => rfl

/-- Where the directory is: within the file, in offsets that an `int64` holds, and
within the cap. -/
structure InFile (file : Bytes) (cdOffset cdSize : Nat) : Prop where
  within : cdOffset + cdSize ≤ file.length
  offsets : cdOffset + cdSize ≤ 9223372036854775807
  capped : cdSize ≤ maxRootFSZipCentralDirectoryBytes

/-- The bytes of the directory. -/
def directory (file : Bytes) (cdOffset cdSize : Nat) : Bytes := (file.drop cdOffset).take cdSize

/-- What is left of them. -/
theorem directory_drop : (directory file cdOffset cdSize).drop consumed =
    (file.drop (cdOffset + consumed)).take (cdSize - consumed) := by
  rw [directory, List.drop_take, List.drop_drop]

theorem InFile.length_rest (h : InFile file cdOffset cdSize) :
    ((directory file cdOffset cdSize).drop consumed).length = cdSize - consumed := by
  have := h.within
  rw [directory, List.length_drop, List.length_take, List.length_drop]
  omega

theorem InFile.rest_ne_nil (h : InFile file cdOffset cdSize) (more : consumed < cdSize) :
    (directory file cdOffset cdSize).drop consumed ≠ [] := by
  rw [← List.length_pos_iff, h.length_rest]
  omega

/-- In a turn, the sum of offsets does not wrap, and the header is read from within the
directory. -/
theorem InFile.reads (h : InFile file cdOffset cdSize)
    (room : zipCentralDirectoryHeaderSize ≤ cdSize - consumed) :
    (cdOffset + consumed) % 18446744073709551616 = cdOffset + consumed ∧
    cdOffset + consumed ≤ 9223372036854775807 ∧
    cdOffset + consumed + zipCentralDirectoryHeaderSize ≤ cdOffset + cdSize ∧
    readAt file (cdOffset + consumed) zipCentralDirectoryHeaderSize =
      some (((directory file cdOffset cdSize).drop consumed).take
        zipCentralDirectoryHeaderSize) := by
  have size : zipCentralDirectoryHeaderSize = 46 := rfl
  have := h.offsets
  have := h.within
  refine ⟨Nat.mod_eq_of_lt (by omega), by omega, by omega, ?_⟩
  rw [readAt, if_pos (by omega), directory_drop, List.take_take, Nat.min_eq_left room]

/-- Nor does the count of bytes wrap, or pass the cap. -/
theorem InFile.consumes (h : InFile file cdOffset cdSize) (more : consumed < cdSize)
    (fits : n ≤ cdSize - consumed) :
    (consumed + n) % 18446744073709551616 = consumed + n ∧
      consumed + n ≤ maxRootFSZipCentralDirectoryBytes := by
  have := h.offsets
  have := h.capped
  exact ⟨Nat.mod_eq_of_lt (by omega), by omega⟩

/-- A turn passes exactly where a record starts what is left, and counts it. -/
theorem scanTurn_ok_iff (h : InFile file cdOffset cdSize) (more : consumed < cdSize)
    {next : Nat × Nat} : scanTurn file cdOffset cdSize consumed entries = .ok next ↔
      ∃ n, recordLen ((directory file cdOffset cdSize).drop consumed) = some n ∧
        n ≤ cdSize - consumed ∧ entries < maxRootFSEntries ∧
        next = (consumed + n, entries + 1) := by
  by_cases room : zipCentralDirectoryHeaderSize ≤ cdSize - consumed
  · obtain ⟨unwrapped, offset, -, header⟩ := h.reads room
    have long : zipCentralDirectoryHeaderSize ≤
        ((directory file cdOffset cdSize).drop consumed).length := by
      rw [h.length_rest]
      exact room
    unfold scanTurn
    dsimp only
    rw [if_neg (Nat.not_lt.mpr room), unwrapped, if_neg (Nat.not_lt.mpr offset), header]
    dsimp only
    rw [signature_take (Nat.le_refl _), entryLen_take (Nat.le_refl _)]
    simp only [check_eq_ok, not_not, Nat.not_lt, recordLen_eq_some]
    constructor
    · rintro ⟨signed, fits, count, -, hnext⟩
      rw [(h.consumes more fits).1] at hnext
      cases hnext
      exact ⟨_, ⟨long, signed, rfl⟩, fits, count, rfl⟩
    · rintro ⟨n, ⟨-, signed, rfl⟩, fits, count, rfl⟩
      obtain ⟨sum, capped⟩ := h.consumes more fits
      rw [sum]
      exact ⟨signed, fits, count, capped, rfl⟩
  · rw [scanTurn, if_pos (Nat.not_le.mp room)]
    refine iff_of_false nofun ?_
    rintro ⟨n, hlen, -⟩
    have long := (recordLen_eq_some.mp hlen).1
    rw [h.length_rest] at long
    exact room long

/-- A turn that passes counts one entry, and only up to the cap. -/
theorem scanTurn_counts {next : Nat × Nat}
    (h : scanTurn file cdOffset cdSize consumed entries = .ok next) :
    next.2 = entries + 1 ∧ entries < maxRootFSEntries := by
  unfold scanTurn at h
  obtain ⟨-, h⟩ := check_eq_ok.mp h
  obtain ⟨-, h⟩ := check_eq_ok.mp h
  split at h
  next => cases h
  next hdr _ =>
    obtain ⟨-, h⟩ := check_eq_ok.mp h
    obtain ⟨-, h⟩ := check_eq_ok.mp h
    obtain ⟨count, h⟩ := check_eq_ok.mp h
    obtain ⟨-, h⟩ := check_eq_ok.mp h
    cases h
    exact ⟨rfl, Nat.not_lt.mp count⟩

/-! ## The run -/

/-- From any turn on, with turns enough for the entries that may still come, the loop
succeeds exactly where what is left splits into records, and counts them. -/
theorem scanFrom_ok_iff (h : InFile file cdOffset cdSize) {total : Nat}
    (hconsumed : consumed ≤ cdSize) (hentries : entries ≤ maxRootFSEntries)
    (enough : maxRootFSEntries < turns + entries) :
    scanFrom file cdOffset cdSize turns consumed entries = .ok total ↔
      ∃ rs, centralFraming.Splits ((directory file cdOffset cdSize).drop consumed) rs ∧
        total = entries + rs.length ∧ total ≤ maxRootFSEntries := by
  induction turns generalizing consumed entries with
  | zero => omega
  | succ turns ih =>
    rw [scanFrom_succ]
    by_cases more : consumed < cdSize
    · rw [if_pos more, bind_eq_ok]
      simp only [Framing.splits_cons_iff (h.rest_ne_nil more), scanTurn_ok_iff h more,
        h.length_rest, List.drop_drop]
      constructor
      · rintro ⟨next, ⟨n, hlen, fits, count, rfl⟩, run⟩
        obtain ⟨rest, splits, rfl, capped⟩ :=
          (ih (by omega) (by omega) (by omega)).mp run
        refine ⟨_, ⟨n, rest, hlen, fits, rfl, splits⟩, ?_, capped⟩
        rw [List.length_cons]
        omega
      · rintro ⟨rs, ⟨n, rest, hlen, fits, rfl, splits⟩, htotal, capped⟩
        rw [List.length_cons] at htotal
        refine ⟨_, ⟨n, hlen, fits, by omega, rfl⟩, ?_⟩
        exact (ih (by omega) (by omega) (by omega)).mpr ⟨rest, splits, by omega, capped⟩
    · have done : consumed = cdSize := by omega
      have nothing : (directory file cdOffset cdSize).drop consumed = [] := by
        rw [← List.length_eq_zero_iff, h.length_rest]
        omega
      rw [if_neg more, if_neg (not_not.mpr done), nothing]
      simp only [Framing.splits_nil_iff, exists_eq_left, List.length_nil, Nat.add_zero]
      constructor
      · intro hok
        cases hok
        exact ⟨rfl, hentries⟩
      · rintro ⟨rfl, -⟩
        rfl

/-- Turns beyond the entries that may come change nothing: a turn counts an entry, and
the count is checked. -/
theorem scanFrom_turns {more : Nat} (hentries : entries ≤ maxRootFSEntries)
    (enough : maxRootFSEntries < turns + entries) :
    scanFrom file cdOffset cdSize (turns + more) consumed entries =
      scanFrom file cdOffset cdSize turns consumed entries := by
  induction turns generalizing consumed entries with
  | zero => omega
  | succ turns ih =>
    rw [Nat.add_right_comm, scanFrom_succ, scanFrom_succ]
    split
    next =>
      cases turn : scanTurn file cdOffset cdSize consumed entries with
      | error e => rfl
      | ok next =>
        have counted := scanTurn_counts turn
        exact ih (by omega) (by omega)
    next => rfl

/-- The places at which the loop is, from its start on. -/
inductive Reached (file : Bytes) (cdOffset cdSize : Nat) : Nat → Nat → Prop where
  | start : Reached file cdOffset cdSize 0 0
  | turn {consumed entries consumed' entries' : Nat} :
      Reached file cdOffset cdSize consumed entries → consumed < cdSize →
      scanTurn file cdOffset cdSize consumed entries = .ok (consumed', entries') →
      Reached file cdOffset cdSize consumed' entries'

/-- Wherever the loop is, it has not gone past the directory or over the count. -/
theorem Reached.bounds (h : InFile file cdOffset cdSize)
    (reached : Reached file cdOffset cdSize consumed entries) :
    consumed ≤ cdSize ∧ entries ≤ maxRootFSEntries := by
  cases reached with
  | start => exact ⟨Nat.zero_le _, Nat.zero_le _⟩
  | turn before more turn =>
    obtain ⟨n, -, fits, count, hnext⟩ := (scanTurn_ok_iff h more).mp turn
    cases hnext
    exact ⟨by omega, count⟩

/-! ## The scan and the preflight -/

/-- WELL-FRAMED DIRECTORIES. The scan of a directory that lies within the file answers
the number of its records, and fails if it is over a cap or not made of records. -/
theorem scanZipCentralDirectory_ok_iff {total : Nat} (within : cdOffset + cdSize ≤ file.length)
    (offsets : cdOffset + cdSize ≤ 9223372036854775807) :
    scanZipCentralDirectory file cdOffset cdSize = .ok total ↔
      cdSize ≤ maxRootFSZipCentralDirectoryBytes ∧
      (∃ rs : List Bytes, rs.length = total ∧ rs.flatten = directory file cdOffset cdSize ∧
        ∀ r ∈ rs, CentralRecord r) ∧ total ≤ maxRootFSEntries := by
  have framed : ∀ {rs : List Bytes}, centralFraming.Splits (directory file cdOffset cdSize) rs ↔
      rs.flatten = directory file cdOffset cdSize ∧ ∀ r ∈ rs, CentralRecord r := by
    intro rs
    constructor
    · rintro ⟨whole, records⟩
      exact ⟨whole, fun r hr => centralRecord_iff.mp (records r hr)⟩
    · rintro ⟨whole, records⟩
      exact ⟨whole, fun r hr => centralRecord_iff.mpr (records r hr)⟩
  simp only [← framed]
  unfold scanZipCentralDirectory
  split
  next empty =>
    subst empty
    have nothing : directory file cdOffset 0 = [] := List.take_zero
    rw [nothing]
    simp only [Framing.splits_nil_iff]
    constructor
    · intro h
      cases h
      exact ⟨Nat.zero_le _, ⟨[], rfl, rfl⟩, Nat.zero_le _⟩
    · rintro ⟨-, ⟨rs, rfl, rfl⟩, -⟩
      rfl
  next =>
    rw [check_eq_ok, Nat.not_lt]
    apply and_congr_right
    intro capped
    rw [scanFrom_ok_iff ⟨within, offsets, capped⟩ (Nat.zero_le _) (Nat.zero_le _) (by omega),
      List.drop_zero]
    constructor
    · rintro ⟨rs, splits, rfl, le⟩
      rw [Nat.zero_add] at le ⊢
      exact ⟨⟨rs, rfl, splits⟩, le⟩
    · rintro ⟨⟨rs, rfl, splits⟩, le⟩
      exact ⟨rs, splits, (Nat.zero_add _).symm, le⟩

theorem le16_lt (s : Bytes) (i : Nat) : le16 s i < 65536 := by
  have low := (s.getD i 0).toNat_lt
  have high := (s.getD (i + 1) 0).toNat_lt
  unfold le16
  omega

theorem le32_lt (s : Bytes) (i : Nat) : le32 s i < 4294967296 := by
  have low := le16_lt s i
  have high := le16_lt s (i + 2)
  unfold le32
  omega

/-- A preflight that passes has counted the records of the directory. -/
theorem preflight_counts {size : Int} (h : preflightZipDirectory file size = .ok ()) :
    ∃ l, locateEOCD file size = .ok l ∧
      ∃ rs : List Bytes, rs.length = (readEOCD l.tail l.eocdIdx).totalEntries ∧
        rs.flatten = directory file (readEOCD l.tail l.eocdIdx).cdOffset
          (readEOCD l.tail l.eocdIdx).cdSize ∧
        ∀ r ∈ rs, CentralRecord r := by
  unfold preflightZipDirectory at h
  obtain ⟨l, located, h⟩ := bind_eq_ok.mp h
  obtain ⟨-, h⟩ := check_eq_ok.mp h
  refine ⟨l, located, ?_⟩
  have held := (locateEOCD_spec located).1
  have offset : (readEOCD l.tail l.eocdIdx).cdOffset < 4294967296 := le32_lt _ _
  have length : (readEOCD l.tail l.eocdIdx).cdSize < 4294967296 := le32_lt _ _
  generalize readEOCD l.tail l.eocdIdx = r at h offset length ⊢
  unfold judgeEOCD at h
  simp only [check_eq_ok] at h
  obtain ⟨-, -, -, -, -, -, inside, -, -, h⟩ := h
  obtain ⟨actual, scanned, h⟩ := bind_eq_ok.mp h
  obtain ⟨counted, -⟩ := check_eq_ok.mp h
  have within : r.cdOffset + r.cdSize ≤ file.length := by
    rw [List.length_take] at held
    omega
  obtain ⟨-, ⟨rs, hlen, whole, records⟩, -⟩ :=
    (scanZipCentralDirectory_ok_iff within (by omega)).mp scanned
  exact ⟨rs, hlen.trans (not_not.mp counted), whole, records⟩

/-- THE SCAN. For a directory within a file, whose length an `int64` holds: the scan
answers `total` exactly when the directory is that many records, within both caps;
more turns than the model gives it change nothing; in every turn the sums are what
they are as numbers and the header is read from within the directory; and a preflight
that passes has found as many records as its EOCD record says. -/
theorem centralDirectory_framed (file : Bytes) (cdOffset cdSize : Nat)
    (int64 : file.length ≤ 9223372036854775807) (within : cdOffset + cdSize ≤ file.length) :
    (∀ total, scanZipCentralDirectory file cdOffset cdSize = .ok total ↔
      cdSize ≤ maxRootFSZipCentralDirectoryBytes ∧
      (∃ rs : List Bytes, rs.length = total ∧ rs.flatten = (file.drop cdOffset).take cdSize ∧
        ∀ r ∈ rs, CentralRecord r) ∧ total ≤ maxRootFSEntries) ∧
    (∀ turns, maxRootFSEntries < turns → scanFrom file cdOffset cdSize turns 0 0 =
      scanFrom file cdOffset cdSize (maxRootFSEntries + 1) 0 0) ∧
    (∀ consumed entries, cdSize ≤ maxRootFSZipCentralDirectoryBytes →
      Reached file cdOffset cdSize consumed entries →
      (consumed ≤ cdSize ∧ entries ≤ maxRootFSEntries) ∧
      (zipCentralDirectoryHeaderSize ≤ cdSize - consumed →
        (cdOffset + consumed) % 18446744073709551616 = cdOffset + consumed ∧
        cdOffset + consumed + zipCentralDirectoryHeaderSize ≤ cdOffset + cdSize ∧
        ∀ hdr : Bytes, entryLen hdr < 18446744073709551616 ∧
          (entryLen hdr ≤ cdSize - consumed →
            (consumed + entryLen hdr) % 18446744073709551616 = consumed + entryLen hdr))) ∧
    (∀ size, preflightZipDirectory file size = .ok () → ∃ l, locateEOCD file size = .ok l ∧
      ∃ rs : List Bytes, rs.length = (readEOCD l.tail l.eocdIdx).totalEntries ∧
        rs.flatten = directory file (readEOCD l.tail l.eocdIdx).cdOffset
          (readEOCD l.tail l.eocdIdx).cdSize ∧
        ∀ r ∈ rs, CentralRecord r) := by
  have offsets : cdOffset + cdSize ≤ 9223372036854775807 := Nat.le_trans within int64
  refine ⟨fun total => scanZipCentralDirectory_ok_iff within offsets, ?_, ?_,
    fun size => preflight_counts⟩
  · intro turns enough
    obtain ⟨more, rfl⟩ := Nat.exists_eq_add_of_le (Nat.succ_le_of_lt enough)
    exact scanFrom_turns (Nat.zero_le _) (by omega)
  · intro consumed entries capped reached
    have inFile : InFile file cdOffset cdSize := ⟨within, offsets, capped⟩
    refine ⟨reached.bounds inFile, fun room => ?_⟩
    obtain ⟨unwrapped, -, inside, -⟩ := inFile.reads room
    refine ⟨unwrapped, inside, fun hdr => ⟨?_, fun fits => ?_⟩⟩
    · have := le16_lt hdr 28
      have := le16_lt hdr 30
      have := le16_lt hdr 32
      have size : zipCentralDirectoryHeaderSize = 46 := rfl
      unfold entryLen
      omega
    · have size : zipCentralDirectoryHeaderSize = 46 := rfl
      exact (inFile.consumes (by omega) fits).1

/-- An archive of one entry whose local part is missing: a header with no name, and the
EOCD record. -/
def oneEntry : Bytes :=
  [0x50, 0x4B, 0x01, 0x02] ++ List.replicate 42 0 ++
    [0x50, 0x4B, 0x05, 0x06, 0, 0, 0, 0, 1, 0, 1, 0, 46, 0, 0, 0, 0, 0, 0, 0, 0, 0]

theorem centralDirectory_framed_oneEntry :
    preflightZipDirectory oneEntry 68 = .ok () ∧
      ∃ rs : List Bytes, rs.length = 1 ∧ rs.flatten = oneEntry.take 46 := by
  have accepted : preflightZipDirectory oneEntry 68 = .ok () := by decide +kernel
  have scanned : scanZipCentralDirectory oneEntry 0 46 = .ok 1 := by decide +kernel
  have framed := centralDirectory_framed oneEntry 0 46 (by decide) (by decide)
  obtain ⟨-, ⟨rs, one, whole, -⟩, -⟩ := (framed.1 1).mp scanned
  exact ⟨accepted, rs, one, whole⟩

end FakeSSH.Shell
