import FakeSSH.Lib.Delivery
import FakeSSH.Shell.RootFS

/-!
# The cap on a tar stream (`rootfs.go`)

`tar.Reader` reads its stream, decompressed where it was compressed, through a
`limitedRootFSTarReader`, which counts the bytes that pass and fails once there are
more than the cap. The reader below it is a `Delivery`: any pieces, with the end
reported with the last of them or on a read of its own.

The count is an `int64` that stays below the cap and one buffer, so that it does not
wrap; here it is an integer.
-/

namespace FakeSSH.Shell

open FakeSSH.Go FakeSSH.Lib

def maxRootFSTarStreamBytes : Int := maxRootFSTotalBodyBytes + maxRootFSEntries * 1024 + 1024

/-- What a read reports beside its bytes: `io.EOF`, or the cap. -/
inductive StreamError where
  | eof
  | cap (maxRead : Int)
  deriving DecidableEq, Repr

def StreamError.text : StreamError → Bytes
  | .eof => str "EOF"
  | .cap maxRead => str "exceeds MaxRootFSTarStreamBytes (" ++ str (toString maxRead) ++
      str ") decompressed tar stream bytes"

structure LimitedRootFSTarReader where
  r : Delivery UInt8
  read : Int
  maxRead : Int

def newLimitedRootFSTarReader (r : Delivery UInt8) : LimitedRootFSTarReader :=
  { r, read := 0, maxRead := maxRootFSTarStreamBytes }

/-- What `Read` answers, and the reader after it. -/
structure StreamRead where
  got : Bytes
  err : Option StreamError
  next : LimitedRootFSTarReader

/-- `limitedRootFSTarReader.Read`, with a buffer for `p` bytes. -/
def LimitedRootFSTarReader.readInto (l : LimitedRootFSTarReader) (p : Nat) : StreamRead :=
  if l.maxRead ≤ l.read then ⟨[], some (.cap l.maxRead), l⟩
  else
    let answer := l.r.read p
    let next := { l with r := answer.rest, read := l.read + answer.got.length }
    -- the cap's error is preferred to one of the reader below, `io.EOF` included
    if l.maxRead < next.read then ⟨answer.got, some (.cap l.maxRead), next⟩
    else ⟨answer.got, if answer.ended then some .eof else none, next⟩

/-- Reading with these buffers until an error: the bytes and the error, which is `none`
where the buffers end first. -/
def LimitedRootFSTarReader.readUntilError (l : LimitedRootFSTarReader) :
    List Nat → Bytes × Option StreamError
  | [] => ([], none)
  | p :: ps =>
    match (l.readInto p).err with
    | some e => ((l.readInto p).got, some e)
    | none =>
      let later := (l.readInto p).next.readUntilError ps
      ((l.readInto p).got ++ later.1, later.2)

end FakeSSH.Shell
