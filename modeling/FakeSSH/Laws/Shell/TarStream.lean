import FakeSSH.Lib.Weight
import FakeSSH.Shell.TarStream

/-!
# Where the cap on a tar stream bites

A stream shorter than the cap passes whole and ends with `io.EOF`; one that is longer
ends with the cap's error. At the cap itself it depends on the reader below: once the
count has reached the cap, `Read` answers the error without asking whether anything is
left, so the stream passes only if its end was reported with its last bytes.

The cap is meant to leave room for every archive within the other caps. Counted in
blocks of 512 bytes it leaves two for each entry that there may be, beside those of the
bodies. A header is one, the padding of a body comes to almost another, and so hardly
any is left for the metadata headers of an archive that is full.
-/

namespace FakeSSH.Shell

open FakeSSH.Go FakeSSH.Lib

variable {l : LimitedRootFSTarReader} {p : Nat} {ps : List Nat}

/-! ## One read -/

/-- The stream ends before the cap, or at it with its last bytes. -/
def Passes (l : LimitedRootFSTarReader) : Prop :=
  l.read + l.r.data.length < l.maxRead ∨
    l.read + l.r.data.length = l.maxRead ∧ l.r.EndsWithData

theorem Passes.below (h : Passes l) : l.read < l.maxRead := by
  rcases h with h | ⟨h, ends⟩
  · omega
  · have := List.length_pos_iff.mpr ends.data_ne_nil
    omega

theorem length_data (r : Delivery UInt8) (p : Nat) :
    (r.data.length : Int) = (r.read p).got.length + (r.read p).rest.data.length := by
  have := congrArg List.length (r.read_data p)
  rw [List.length_append] at this
  omega

/-- A read that does not end the stream leaves it to pass or not as before. -/
theorem passes_rest (ended : (l.r.read p).ended = false) :
    Passes { l with r := (l.r.read p).rest, read := l.read + (l.r.read p).got.length } ↔
      Passes l := by
  have total := length_data l.r p
  have same : l.read + (l.r.read p).got.length + ((l.r.read p).rest.data.length : Int) =
      l.read + l.r.data.length := by omega
  unfold Passes
  dsimp only
  rw [Delivery.endsWithData_rest ended, same]

/-- A read below the cap that stays within it answers what the reader below does. -/
theorem readInto_within (below : l.read < l.maxRead)
    (within : l.read + (l.r.read p).got.length ≤ l.maxRead) :
    l.readInto p = ⟨(l.r.read p).got, if (l.r.read p).ended then some .eof else none,
      { l with r := (l.r.read p).rest, read := l.read + (l.r.read p).got.length }⟩ := by
  unfold LimitedRootFSTarReader.readInto
  dsimp only
  rw [if_neg (Int.not_le.mpr below), if_neg (Int.not_lt.mpr within)]

/-- A read of a stream that passes: the last bytes with `io.EOF`, or some bytes and a
stream that passes. -/
theorem readInto_passes (h : Passes l) :
    ((l.readInto p).err = some .eof ∧ (l.readInto p).got = l.r.data) ∨
    ((l.r.read p).ended = false ∧ (l.readInto p).err = none ∧
      (l.readInto p).got ++ (l.readInto p).next.r.data = l.r.data ∧
      (l.readInto p).next.r = (l.r.read p).rest ∧ Passes (l.readInto p).next) := by
  have total := length_data l.r p
  have within : l.read + (l.r.read p).got.length ≤ l.maxRead := by
    rcases h with h | ⟨h, -⟩
    · omega
    · omega
  rw [readInto_within h.below within]
  cases ended : (l.r.read p).ended with
  | true =>
    refine .inl ⟨rfl, ?_⟩
    have whole := l.r.read_data p
    rw [Delivery.read_ended ended, List.append_nil] at whole
    exact whole
  | false =>
    refine .inr ⟨rfl, rfl, l.r.read_data p, rfl, ?_⟩
    exact (passes_rest ended).mpr h

/-- A read of a stream that does not: the cap's error, or some bytes and a stream that
does not. -/
theorem readInto_refuses (h : ¬ Passes l) :
    (l.readInto p).err = some (.cap l.maxRead) ∨
    ((l.r.read p).ended = false ∧ (l.readInto p).err = none ∧
      (l.readInto p).next.r = (l.r.read p).rest ∧ (l.readInto p).next.maxRead = l.maxRead ∧
      ¬ Passes (l.readInto p).next) := by
  have total := length_data l.r p
  by_cases below : l.read < l.maxRead
  · by_cases within : l.read + (l.r.read p).got.length ≤ l.maxRead
    · rw [readInto_within below within]
      cases ended : (l.r.read p).ended with
      | true =>
        -- the end comes with the last bytes, so the stream is over the cap or passes
        exfalso
        rw [Delivery.read_ended ended, List.length_nil] at total
        refine h ?_
        by_cases at_cap : l.read + l.r.data.length = l.maxRead
        · refine .inr ⟨at_cap, ?_⟩
          by_contra apart
          rw [Delivery.got_of_ended apart ended, List.length_nil] at total
          omega
        · left
          omega
      | false =>
        refine .inr ⟨rfl, rfl, rfl, rfl, ?_⟩
        exact mt (passes_rest ended).mp h
    · left
      unfold LimitedRootFSTarReader.readInto
      dsimp only
      rw [if_neg (Int.not_le.mpr below), if_pos (Int.not_le.mp within)]
  · left
    unfold LimitedRootFSTarReader.readInto
    rw [if_pos (Int.not_lt.mp below)]

/-! ## Reading to the end -/

theorem readUntilError_passes (h : Passes l) (positive : ∀ p ∈ ps, 0 < p)
    (enough : l.r.pending < ps.length) : l.readUntilError ps = (l.r.data, some .eof) := by
  induction ps generalizing l with
  | nil => exact absurd enough (Nat.not_lt_zero _)
  | cons p ps ih =>
    obtain ⟨hp, positive⟩ := List.forall_mem_cons.mp positive
    rw [LimitedRootFSTarReader.readUntilError]
    obtain ⟨err, got⟩ | ⟨ended, err, whole, hnext, passes⟩ := readInto_passes (p := p) h
    · rw [err, got]
    · have nearer := Delivery.read_progress hp ended
      rw [List.length_cons] at enough
      rw [err]
      dsimp only
      rw [ih passes positive (by rw [hnext]; omega), whole]

theorem readUntilError_refuses (h : ¬ Passes l) (positive : ∀ p ∈ ps, 0 < p)
    (enough : l.r.pending < ps.length) :
    ∃ got, l.readUntilError ps = (got, some (.cap l.maxRead)) := by
  induction ps generalizing l with
  | nil => exact absurd enough (Nat.not_lt_zero _)
  | cons p ps ih =>
    obtain ⟨hp, positive⟩ := List.forall_mem_cons.mp positive
    rw [LimitedRootFSTarReader.readUntilError]
    obtain err | ⟨ended, err, hnext, hmax, refuses⟩ := readInto_refuses (p := p) h
    · rw [err]
      exact ⟨_, rfl⟩
    · have nearer := Delivery.read_progress hp ended
      rw [List.length_cons] at enough
      obtain ⟨got, later⟩ := ih refuses positive (by rw [hnext]; omega)
      rw [err]
      dsimp only
      rw [later, hmax]
      exact ⟨_, rfl⟩

/-- A stream is read whole, up to its end, exactly if it passes. -/
theorem readUntilError_whole_iff (positive : ∀ p ∈ ps, 0 < p) (enough : l.r.pending < ps.length) :
    l.readUntilError ps = (l.r.data, some .eof) ↔ Passes l := by
  constructor
  · intro whole
    by_contra refused
    obtain ⟨got, refuses⟩ := readUntilError_refuses refused positive enough
    rw [whole] at refuses
    cases refuses
  · exact fun passes => readUntilError_passes passes positive enough

/-- What the cap promises over a reader: with buffers of any size, enough of them, a
stream of at most `maxRead` bytes is read whole and ends with `io.EOF`, and a longer one
ends with the cap's error. -/
def Exact (maxRead : Int) (r : Delivery UInt8) : Prop :=
  ∀ ps : List Nat, (∀ p ∈ ps, 0 < p) → r.pending < ps.length →
    ((r.data.length : Int) ≤ maxRead →
      LimitedRootFSTarReader.readUntilError ⟨r, 0, maxRead⟩ ps = (r.data, some .eof)) ∧
    (maxRead < (r.data.length : Int) → ∃ got,
      LimitedRootFSTarReader.readUntilError ⟨r, 0, maxRead⟩ ps = (got, some (.cap maxRead)))

theorem passes_start {maxRead : Int} {r : Delivery UInt8} : Passes ⟨r, 0, maxRead⟩ ↔
    (r.data.length : Int) < maxRead ∨ (r.data.length : Int) = maxRead ∧ r.EndsWithData := by
  unfold Passes
  rw [Int.zero_add]

/-- THE BOUNDARY. The promise is kept for every stream but one of exactly `maxRead`
bytes whose end is reported on a read of its own. -/
theorem limitedReader_exact_iff (maxRead : Int) (r : Delivery UInt8) :
    Exact maxRead r ↔ (r.data.length : Int) ≠ maxRead ∨ r.EndsWithData := by
  constructor
  · intro exact
    by_contra h
    obtain ⟨at_cap, apart⟩ := not_or.mp h
    have at_cap := not_not.mp at_cap
    let ps := List.replicate (r.pending + 1) 1
    have positive : ∀ p ∈ ps, 0 < p := fun p hp => List.eq_of_mem_replicate hp ▸ Nat.one_pos
    have enough : r.pending < ps.length := by
      rw [List.length_replicate]
      exact Nat.lt_succ_self _
    have whole := (exact ps positive enough).1 (Int.le_of_eq at_cap)
    rcases passes_start.mp ((readUntilError_whole_iff positive enough).mp whole) with
      below | ⟨-, ends⟩
    · omega
    · exact apart ends
  · intro h ps positive enough
    constructor
    · intro within
      refine readUntilError_passes (passes_start.mpr ?_) positive enough
      rcases h with off_cap | ends
      · exact .inl (by omega)
      · rcases Int.lt_or_eq_of_le within with below | at_cap
        · exact .inl below
        · exact .inr ⟨at_cap, ends⟩
    · intro beyond
      refine readUntilError_refuses ?_ positive enough
      rw [passes_start]
      rintro (below | ⟨at_cap, -⟩)
      · omega
      · omega

/-- Two bytes under a cap of two, the end on a read of its own: the bytes pass, and then
comes the cap's error where the stream has ended. -/
theorem exact_cap_refused :
    LimitedRootFSTarReader.readUntilError ⟨⟨[[0x61, 0x62]], false⟩, 0, 2⟩ [512, 512, 512, 512] =
      ([0x61, 0x62], some (.cap 2)) ∧
    ¬ Exact 2 ⟨[[0x61, 0x62]], false⟩ := by
  refine ⟨rfl, fun exact => ?_⟩
  have whole := (exact [512, 512, 512, 512] (by decide) (by decide)).1 (by decide)
  cases whole

/-- The reader that the loader makes. -/
theorem newLimitedRootFSTarReader_whole_iff (r : Delivery UInt8) (positive : ∀ p ∈ ps, 0 < p)
    (enough : r.pending < ps.length) :
    (newLimitedRootFSTarReader r).readUntilError ps = (r.data, some .eof) ↔
      (r.data.length : Int) < maxRootFSTarStreamBytes ∨
        (r.data.length : Int) = maxRootFSTarStreamBytes ∧ r.EndsWithData :=
  (readUntilError_whole_iff positive enough).trans passes_start

/-! ## Room for every archive -/

/-- What a tar entry is, as far as its length goes: the size of its body, and the size
of the body of a PAX or GNU metadata header before it. -/
structure TarLayout where
  size : Nat
  metadata : Option Nat
  deriving DecidableEq, Repr

/-- The blocks of 512 bytes that a body fills. -/
def blocks (n : Nat) : Nat := (n + 511) / 512

def padded (n : Nat) : Nat := blocks n * 512

/-- A header block and the padded body, and before them a metadata header with its own. -/
def TarLayout.length (e : TarLayout) : Nat :=
  (e.metadata.map fun m => 512 + padded m).getD 0 + 512 + padded e.size

/-- The bytes of the bodies. -/
def bodies (es : List TarLayout) : Nat := weigh (·.size) es

/-- The length of the stream: the entries, and two zero blocks. -/
def streamLength (es : List TarLayout) : Nat := weigh TarLayout.length es + 1024

/-- An archive within the other caps. -/
structure ArchiveCaps (es : List TarLayout) : Prop where
  count : es.length ≤ maxRootFSEntries
  files : ∀ e ∈ es, (e.size : Int) ≤ maxRootFSFileBodyBytes
  total : (bodies es : Int) ≤ maxRootFSTotalBodyBytes
  metadata : ∀ e ∈ es, ∀ m ∈ e.metadata, m ≤ 1024

/-- The blocks of a metadata header and its body. -/
def metadataBlocks : Option Nat → Nat
  | none => 0
  | some m => 1 + blocks m

/-- The blocks that the bodies of `n` entries fill at most. Each body is capped, and their
sum is, to which the padding adds up to 511 bytes for each. -/
def maxBodyBlocks (n : Nat) : Nat :=
  min (n * blocks maxRootFSFileBodyBytes.toNat) ((maxRootFSTotalBodyBytes.toNat + 511 * n) / 512)

/-- The headers leave room for the largest bodies that may stand behind them. -/
def HeadersFit (metadata : List (Option Nat)) : Prop :=
  metadata.length + weigh metadataBlocks metadata + maxBodyBlocks metadata.length ≤
    (maxRootFSTarStreamBytes.toNat - 1024) / 512

instance (metadata : List (Option Nat)) : Decidable (HeadersFit metadata) :=
  inferInstanceAs (Decidable (_ ≤ _))

variable {es : List TarLayout} {ms : List (Option Nat)}

theorem headersFit_iff : HeadersFit ms ↔
    ms.length + weigh metadataBlocks ms + maxBodyBlocks ms.length ≤ 151072 := Iff.rfl

theorem maxBodyBlocks_eq (n : Nat) :
    maxBodyBlocks n = min (n * 32768) ((67108864 + 511 * n) / 512) := rfl

/-- The stream in blocks. -/
theorem streamLength_eq (es : List TarLayout) :
    streamLength es =
      512 * (es.length + weigh metadataBlocks (es.map TarLayout.metadata) +
        weigh (blocks ·.size) es) + 1024 := by
  unfold streamLength
  induction es with
  | nil => rfl
  | cons e es ih =>
    have own : e.length = 512 * (1 + metadataBlocks e.metadata + blocks e.size) := by
      unfold TarLayout.length padded
      cases e.metadata with
      | none =>
        simp only [Option.map_none, Option.getD_none, metadataBlocks]
        omega
      | some m =>
        simp only [Option.map_some, Option.getD_some, metadataBlocks]
        omega
    rw [weigh_cons, List.map_cons, weigh_cons, weigh_cons, List.length_cons, own]
    omega

theorem admitted_iff : (streamLength es : Int) ≤ maxRootFSTarStreamBytes ↔
    es.length + weigh metadataBlocks (es.map TarLayout.metadata) + weigh (blocks ·.size) es ≤
      151072 := by
  have cap : maxRootFSTarStreamBytes = 512 * 151072 + 1024 := rfl
  rw [streamLength_eq, cap]
  omega

/-- Both caps on the bodies, in blocks. -/
theorem bodyBlocks_le (files : ∀ e ∈ es, (e.size : Int) ≤ maxRootFSFileBodyBytes) :
    weigh (blocks ·.size) es ≤ es.length * 32768 ∧
      512 * weigh (blocks ·.size) es ≤ bodies es + 511 * es.length := by
  unfold bodies
  induction es with
  | nil => exact ⟨Nat.le_refl _, Nat.le_refl _⟩
  | cons e es ih =>
    obtain ⟨file, files⟩ := List.forall_mem_cons.mp files
    have file : (e.size : Int) ≤ 16777216 := file
    have ⟨each, total⟩ := ih files
    simp only [weigh_cons, List.length_cons, blocks] at *
    omega

theorem ArchiveCaps.bodyBlocks (h : ArchiveCaps es) :
    weigh (blocks ·.size) es ≤ maxBodyBlocks es.length := by
  have ⟨each, all⟩ := bodyBlocks_le h.files
  have total : (bodies es : Int) ≤ 67108864 := h.total
  rw [maxBodyBlocks_eq]
  omega

/-- Bodies of one byte over so many blocks fill any number of them that the caps allow. -/
theorem exists_filling (ms : List (Option Nat)) {b : Nat} (least : ms.length ≤ b)
    (most : b ≤ ms.length * 32768) :
    ∃ es, es.map TarLayout.metadata = ms ∧
      (∀ e ∈ es, (e.size : Int) ≤ maxRootFSFileBodyBytes) ∧
      weigh (blocks ·.size) es = b ∧ bodies es + 511 * ms.length = 512 * b := by
  induction ms generalizing b with
  | nil =>
    obtain rfl : b = 0 := Nat.le_zero.mp most
    exact ⟨[], rfl, nofun, rfl, rfl⟩
  | cons m ms ih =>
    rw [List.length_cons] at least most
    -- as much as one body may be, if it leaves a block for each of the others
    obtain ⟨own, rest, rfl, one, large, least, most⟩ : ∃ own rest, b = own + rest ∧ 1 ≤ own ∧
        own ≤ 32768 ∧ ms.length ≤ rest ∧ rest ≤ ms.length * 32768 :=
      ⟨min 32768 (b - ms.length), b - min 32768 (b - ms.length), by omega, by omega, by omega,
        by omega, by omega⟩
    obtain ⟨es, metadata, files, filled, total⟩ := ih least most
    have body : blocks (512 * own - 511) = own := by
      unfold blocks
      omega
    have file : ((512 * own - 511 : Nat) : Int) ≤ 16777216 := by omega
    refine ⟨⟨512 * own - 511, m⟩ :: es, ?_, List.forall_mem_cons.mpr ⟨file, files⟩, ?_, ?_⟩
    · rw [List.map_cons, metadata]
    · rw [weigh_cons, filled, body]
    · unfold bodies at *
      rw [weigh_cons, List.length_cons]
      dsimp only
      omega

/-- The largest bodies behind given headers. -/
theorem exists_largest (few : ms.length ≤ maxRootFSEntries) (short : ∀ m ∈ ms, ∀ b ∈ m, b ≤ 1024) :
    ∃ es, ArchiveCaps es ∧ es.map TarLayout.metadata = ms ∧
      weigh (blocks ·.size) es = maxBodyBlocks ms.length := by
  have count : ms.length ≤ 10000 := few
  have room := maxBodyBlocks_eq ms.length
  obtain ⟨es, rfl, files, filled, total⟩ := exists_filling ms (b := maxBodyBlocks ms.length)
    (by omega) (by omega)
  have sum : (bodies es : Int) ≤ 67108864 := by omega
  rw [List.length_map] at few
  rw [List.forall_mem_map] at short
  exact ⟨es, ⟨few, files, sum, short⟩, rfl, filled⟩

theorem metadataBlocks_plain (plain : ∀ m ∈ ms, m = none) : weigh metadataBlocks ms = 0 := by
  rw [List.eq_replicate_of_mem plain, weigh_replicate, metadataBlocks, Nat.mul_zero]

theorem headersFit_plain (few : ms.length ≤ maxRootFSEntries) (plain : ∀ m ∈ ms, m = none) :
    HeadersFit ms := by
  have count : ms.length ≤ 10000 := few
  rw [headersFit_iff, metadataBlocks_plain plain, maxBodyBlocks_eq]
  omega

/-- THE ALLOWANCE. The archives within the other caps that have these metadata headers are
all within the cap on their stream exactly when the headers leave room for the largest
bodies; so they do where no entry has a metadata header. -/
theorem tarStream_admitted_iff {ms : List (Option Nat)} (few : ms.length ≤ maxRootFSEntries)
    (short : ∀ m ∈ ms, ∀ b ∈ m, b ≤ 1024) :
    ((∀ es, ArchiveCaps es → es.map TarLayout.metadata = ms →
        (streamLength es : Int) ≤ maxRootFSTarStreamBytes) ↔ HeadersFit ms) ∧
      ((∀ m ∈ ms, m = none) → HeadersFit ms) := by
  refine ⟨⟨fun all => ?_, fun fit es caps headers => ?_⟩, headersFit_plain few⟩
  · obtain ⟨es, caps, headers, filled⟩ := exists_largest few short
    have length : es.length = ms.length := by rw [← headers, List.length_map]
    have admitted := admitted_iff.mp (all es caps headers)
    rw [headers, filled, length] at admitted
    exact admitted
  · subst headers
    have fit := headersFit_iff.mp fit
    rw [List.length_map] at fit
    have bodies := caps.bodyBlocks
    exact admitted_iff.mpr (by omega)

/-- Three entries, the first as large as it may be, the others with metadata. -/
def threeEntries : List TarLayout := [⟨16777216, none⟩, ⟨5, some 1024⟩, ⟨0, some 200⟩]

theorem tarStream_admitted_three :
    ArchiveCaps threeEntries ∧ HeadersFit (threeEntries.map TarLayout.metadata) ∧
      (streamLength threeEntries : Int) ≤ maxRootFSTarStreamBytes := by
  have caps : ArchiveCaps threeEntries := ⟨by decide, by decide, by decide, by decide⟩
  have fit : HeadersFit (threeEntries.map TarLayout.metadata) := by decide
  exact ⟨caps, fit, (tarStream_admitted_iff (by decide) (by decide)).1.mpr fit _ caps rfl⟩

/-- As many entries as there may be, of 6710 bytes each and with a kilobyte of metadata. -/
def heavy : List TarLayout := List.replicate 10000 ⟨6710, some 1024⟩

theorem heavy_archiveCaps : ArchiveCaps heavy := by
  refine ⟨?_, ?_, ?_, ?_⟩
  · rw [heavy, List.length_replicate]
    decide
  · intro e he
    rw [List.eq_of_mem_replicate he]
    decide
  · rw [heavy, bodies, weigh_replicate]
    decide
  · intro e he m hm
    rw [List.eq_of_mem_replicate he] at hm
    cases hm
    exact Nat.le_refl _

/-- It is within every other cap and some 15 megabytes over the cap on its stream. -/
theorem heavy_refused : ArchiveCaps heavy ∧ streamLength heavy = 92161024 ∧
    ¬ (streamLength heavy : Int) ≤ maxRootFSTarStreamBytes := by
  have length : streamLength heavy = 92161024 := by
    rw [heavy, streamLength, weigh_replicate]
    decide
  refine ⟨heavy_archiveCaps, length, ?_⟩
  rw [length]
  decide

/-- The loader's reader lets every archive without metadata through, whole and to its end. -/
theorem plainArchive_read_whole (caps : ArchiveCaps es) (plain : ∀ e ∈ es, e.metadata = none)
    {r : Delivery UInt8} (written : r.data.length = streamLength es)
    (positive : ∀ p ∈ ps, 0 < p) (enough : r.pending < ps.length) :
    (newLimitedRootFSTarReader r).readUntilError ps = (r.data, some .eof) := by
  refine (newLimitedRootFSTarReader_whole_iff r positive enough).mpr (.inl ?_)
  have count : es.length ≤ 10000 := caps.count
  have bodies := caps.bodyBlocks
  have cap : maxRootFSTarStreamBytes = 512 * 151072 + 1024 := rfl
  rw [maxBodyBlocks_eq] at bodies
  rw [written, streamLength_eq, metadataBlocks_plain (List.forall_mem_map.mpr plain), cap]
  omega

end FakeSSH.Shell
