import FakeSSH.Go.Strings
import FakeSSH.Lib.BackScan

/-!
# The zip preflight (`rootfs.go`)

`preflightZipDirectory` looks at the end of an archive before `archive/zip` does. It
finds the end-of-central-directory record (EOCD) in the last 65557 bytes, refuses
what would make `archive/zip` read more than the caps allow, and walks the headers of
the central directory itself. `size` is what the file system says the file holds.
-/

namespace FakeSSH.Shell

open FakeSSH.Go FakeSSH.Lib

def maxRootFSEntries : Nat := 10000
def maxRootFSZipCentralDirectoryBytes : Nat := 8388608

def zipEOCDMinSize : Nat := 22
def zipMaxCommentSize : Nat := 65535
def zipEOCDEndScanSize : Nat := zipMaxCommentSize + zipEOCDMinSize
def zip64EOCDLocatorSignature : Nat := 0x07064b50
def zip64EOCDLocatorSize : Nat := 20
def zipCentralDirectoryHeaderSignature : Nat := 0x02014b50
def zipCentralDirectoryHeaderSize : Nat := 46

/-- `ReadAt` of `n` bytes, which fails where the file ends before them. -/
def readAt (file : Bytes) (off n : Nat) : Option Bytes :=
  if off + n ≤ file.length then some ((file.drop off).take n) else none

/-- `binary.LittleEndian.Uint16` at an index. -/
def le16 (s : Bytes) (i : Nat) : Nat := (s.getD i 0).toNat + 256 * (s.getD (i + 1) 0).toNat

/-- `binary.LittleEndian.Uint32` at an index. -/
def le32 (s : Bytes) (i : Nat) : Nat := le16 s i + 65536 * le16 s (i + 2)

inductive ZipError where
  | tooSmall
  | readTail
  | ambiguous
  | noEOCD
  | truncatedEOCD
  | locator
  | entriesSentinel
  | sizeSentinel
  | offsetSentinel
  | spanning
  | tooManyEntries (total : Nat)
  | directorySize (cdSize : Nat)
  | beyondFile (cdOffset cdSize : Nat) (size : Int)
  | overlaps (cdOffset cdSize eocd : Nat)
  | gap (cdOffset cdSize eocd : Nat)
  | truncatedDirectory (remaining : Nat)
  | offsetOverflow (off : Nat)
  | readHeader (off : Nat)
  | badHeader (off : Nat)
  | entryLength (off entryLen remaining : Nat)
  | tooManyActual
  | directoryBytes (consumed : Nat)
  | consumedMismatch (consumed cdSize : Nat)
  | countMismatch (actual total : Nat)
  deriving DecidableEq, Repr

def ZipError.text : ZipError → Bytes
  | .tooSmall => str "zip too small to contain EOCD"
  | .readTail => str "zip read tail: EOF"
  | .ambiguous => str "zip ambiguous EOCD: trailing bytes after comment"
  | .noEOCD => str "zip EOCD signature not found"
  | .truncatedEOCD => str "zip EOCD truncated"
  | .locator => str "zip64 not allowed (Zip64 EOCD locator present)"
  | .entriesSentinel => str "zip64 not allowed (total entries sentinel)"
  | .sizeSentinel => str "zip64 not allowed (central directory size sentinel)"
  | .offsetSentinel => str "zip64 not allowed (central directory offset sentinel)"
  | .spanning => str "zip disk spanning not allowed"
  | .tooManyEntries total => str "exceeds MaxRootFSEntries (" ++ str (toString maxRootFSEntries) ++
      str ") raw zip entries (EOCD total=" ++ str (toString total) ++ str ")"
  | .directorySize cdSize => str "central directory size " ++ str (toString cdSize) ++
      str " exceeds MaxRootFSZipCentralDirectoryBytes (" ++
      str (toString maxRootFSZipCentralDirectoryBytes) ++ str ")"
  | .beyondFile cdOffset cdSize size => str "zip central directory (" ++ str (toString cdOffset) ++
      str "+" ++ str (toString cdSize) ++ str ") exceeds file size " ++ str (toString size)
  | .overlaps cdOffset cdSize eocd => str "zip central directory (" ++ str (toString cdOffset) ++
      str "+" ++ str (toString cdSize) ++ str ") overlaps EOCD at " ++ str (toString eocd)
  | .gap cdOffset cdSize eocd => str "zip central directory (" ++ str (toString cdOffset) ++
      str "+" ++ str (toString cdSize) ++ str ") does not end at EOCD " ++ str (toString eocd)
  | .truncatedDirectory remaining => str "zip central directory truncated: " ++
      str (toString remaining) ++ str " trailing bytes"
  | .offsetOverflow off => str "zip central directory offset " ++ str (toString off) ++
      str " overflows int64"
  | .readHeader off => str "zip read central directory header at " ++ str (toString off) ++
      str ": EOF"
  | .badHeader off => str "zip central directory header at " ++ str (toString off) ++
      str " has invalid signature"
  | .entryLength off entryLen remaining => str "zip central directory entry at " ++
      str (toString off) ++ str " length " ++ str (toString entryLen) ++
      str " exceeds remaining " ++ str (toString remaining)
  | .tooManyActual => str "exceeds MaxRootFSEntries (" ++ str (toString maxRootFSEntries) ++
      str ") actual zip central-directory entries"
  | .directoryBytes consumed => str "central directory bytes " ++ str (toString consumed) ++
      str " exceed MaxRootFSZipCentralDirectoryBytes (" ++
      str (toString maxRootFSZipCentralDirectoryBytes) ++ str ")"
  | .consumedMismatch consumed cdSize => str "zip central directory consumed " ++
      str (toString consumed) ++ str " bytes, want " ++ str (toString cdSize)
  | .countMismatch actual total => str "zip central directory entry count " ++
      str (toString actual) ++ str " does not match EOCD total " ++ str (toString total)

/-! ## The end-of-central-directory record -/

/-- The EOCD signature at an index: `50 4b 05 06`. -/
def eocdSignature (s : Bytes) (i : Nat) : Bool :=
  s.getD i 0 == 0x50 && s.getD (i + 1) 0 == 0x4B && s.getD (i + 2) 0 == 0x05 &&
    s.getD (i + 3) 0 == 0x06

/-- Where the comment of the record at an index ends. -/
def commentEnd (s : Bytes) (i : Nat) : Nat := i + zipEOCDMinSize + le16 s (i + 20)

/-- The body of the backward loop: go on, fail, or take the index. -/
def eocdAt (tail : Bytes) (i : Nat) : Option (Except ZipError Nat) :=
  if eocdSignature tail i then
    if tail.length < commentEnd tail i then none
    else if commentEnd tail i < tail.length then some (.error .ambiguous)
    else some (.ok i)
  else none

/-- The tail that was read, the offset it starts at, and the record's index in it. -/
structure Located where
  off : Nat
  tail : Bytes
  eocdIdx : Nat

/-- The record's offset in the file. -/
def Located.eocdAbs (l : Located) : Nat := l.off + l.eocdIdx

/-- The first half of `preflightZipDirectory`: read the tail, find the record. -/
def locateEOCD (file : Bytes) (size : Int) : Except ZipError Located :=
  if size < zipEOCDMinSize then .error .tooSmall
  else
    let tailLen := min size.toNat zipEOCDEndScanSize
    let off := size.toNat - tailLen
    match readAt file off tailLen with
    | none => .error .readTail
    | some tail =>
      match lastHit (eocdAt tail) (tail.length + 1 - zipEOCDMinSize) with
      | none => .error .noEOCD
      | some (.error e) => .error e
      | some (.ok eocdIdx) =>
        if tail.length - eocdIdx < zipEOCDMinSize then .error .truncatedEOCD
        else .ok { off, tail, eocdIdx }

/-! ## The central directory -/

/-- The loop of `scanZipCentralDirectory`. Each turn counts an entry and the count is
checked, so that the loop takes no more turns than it is given here. -/
def scanFrom (file : Bytes) (cdOffset cdSize : Nat) : Nat → Nat → Nat → Except ZipError Nat
  | 0, _, _ => .error .tooManyActual
  | turns + 1, consumed, entries =>
    if consumed < cdSize then
      let remaining := cdSize - consumed
      if remaining < zipCentralDirectoryHeaderSize then .error (.truncatedDirectory remaining)
      else
        -- The sums are of `uint64`s.
        let off := (cdOffset + consumed) % 18446744073709551616
        if 9223372036854775807 < off then .error (.offsetOverflow off)
        else match readAt file off zipCentralDirectoryHeaderSize with
          | none => .error (.readHeader off)
          | some hdr =>
            if le32 hdr 0 ≠ zipCentralDirectoryHeaderSignature then .error (.badHeader off)
            else
              let entryLen := zipCentralDirectoryHeaderSize + le16 hdr 28 + le16 hdr 30 + le16 hdr 32
              if remaining < entryLen then .error (.entryLength off entryLen remaining)
              else if maxRootFSEntries < entries + 1 then .error .tooManyActual
              else
                let consumed := (consumed + entryLen) % 18446744073709551616
                if maxRootFSZipCentralDirectoryBytes < consumed then
                  .error (.directoryBytes consumed)
                else scanFrom file cdOffset cdSize turns consumed (entries + 1)
    else if consumed ≠ cdSize then .error (.consumedMismatch consumed cdSize)
    else .ok entries

def scanZipCentralDirectory (file : Bytes) (cdOffset cdSize : Nat) : Except ZipError Nat :=
  if cdSize = 0 then .ok 0
  else if maxRootFSZipCentralDirectoryBytes < cdSize then .error (.directorySize cdSize)
  else scanFrom file cdOffset cdSize (maxRootFSEntries + 1) 0 0

/-! ## The preflight -/

/-- The fields of an EOCD record that the preflight reads. -/
structure EOCD where
  diskNum : Nat
  cdDisk : Nat
  totalEntries : Nat
  cdSize : Nat
  cdOffset : Nat

/-- The fields of the record at an index. -/
def readEOCD (s : Bytes) (i : Nat) : EOCD where
  diskNum := le16 s (i + 4)
  cdDisk := le16 s (i + 6)
  totalEntries := le16 s (i + 10)
  cdSize := le32 s (i + 12)
  cdOffset := le32 s (i + 16)

/-- The last part of `preflightZipDirectory`: the record's fields, and the directory. -/
def judgeEOCD (file : Bytes) (size : Int) (eocdAbs : Nat) (r : EOCD) : Except ZipError Unit :=
  if r.totalEntries = 0xffff then .error .entriesSentinel
  else if r.cdSize = 0xffffffff then .error .sizeSentinel
  else if r.cdOffset = 0xffffffff then .error .offsetSentinel
  else if r.diskNum ≠ 0 ∨ r.cdDisk ≠ 0 then .error .spanning
  else if maxRootFSEntries < r.totalEntries then .error (.tooManyEntries r.totalEntries)
  else if maxRootFSZipCentralDirectoryBytes < r.cdSize then .error (.directorySize r.cdSize)
  else if size < r.cdOffset + r.cdSize then .error (.beyondFile r.cdOffset r.cdSize size)
  else if eocdAbs < r.cdOffset + r.cdSize then .error (.overlaps r.cdOffset r.cdSize eocdAbs)
  else if r.cdOffset + r.cdSize ≠ eocdAbs then .error (.gap r.cdOffset r.cdSize eocdAbs)
  else do
    let actualEntries ← scanZipCentralDirectory file r.cdOffset r.cdSize
    if actualEntries ≠ r.totalEntries then .error (.countMismatch actualEntries r.totalEntries)
    else .ok ()

/-- A Zip64 locator before the record, as far as the tail shows it. -/
def locatorSeen (l : Located) : Prop :=
  zip64EOCDLocatorSize ≤ l.eocdIdx ∧
    le32 l.tail (l.eocdIdx - zip64EOCDLocatorSize) = zip64EOCDLocatorSignature

instance (l : Located) : Decidable (locatorSeen l) := inferInstanceAs (Decidable (_ ∧ _))

/-- `preflightZipDirectory`. -/
def preflightZipDirectory (file : Bytes) (size : Int) : Except ZipError Unit := do
  let l ← locateEOCD file size
  if locatorSeen l then .error .locator
  else judgeEOCD file size l.eocdAbs (readEOCD l.tail l.eocdIdx)

end FakeSSH.Shell
