import FakeSSH.Go.Path
import FakeSSH.Lib.Watched
import FakeSSH.Shell.Zip
import Mathlib.Data.Finset.Insert

/-!
# Loading the root file system (`rootfs.go`)

The loaders walk the entries of an archive and make an empty file or a directory for
each, in a file system that lives in memory. Every name is cleaned, and counted with
its ancestors before anything is made of it. The archive formats are the standard
library's: a tar stream is the list of what `Next` returns, a zip file the list of its
entries. A loader is a `Watched` computation, so that its states between two of its
changes can be spoken of.
-/

namespace FakeSSH.Shell

open FakeSSH.Go FakeSSH.Lib

def maxRootFSPathLen : Nat := 512
def maxRootFSFileBodyBytes : Int := 16777216
def maxRootFSTotalBodyBytes : Int := 67108864

/-! ## Names -/

inductive ArchivePathError where
  | empty
  | length (n : Nat)
  | control (index : Nat)
  | backslash
  | absolute
  | colon
  | dotdot
  | escapes
  deriving DecidableEq, Repr

def ArchivePathError.text : ArchivePathError → Bytes
  | .empty => str "empty path"
  | .length n => str "path length " ++ str (toString n) ++ str " exceeds MaxRootFSPathLen (" ++
      str (toString maxRootFSPathLen) ++ str ")"
  | .control i => str "control character at index " ++ str (toString i)
  | .backslash => str "backslash not allowed"
  | .absolute => str "absolute path not allowed"
  | .colon => str "colon not allowed"
  | .dotdot => str "\"..\" segment not allowed"
  | .escapes => str "cleaned path escapes root"

/-- The rules of `cleanArchivePath` behind its search for control characters. -/
def cleanPlainPath (name : Bytes) : Except ArchivePathError Bytes :=
  if Go.backslash ∈ name then .error .backslash
  else if name.head? = some slash then .error .absolute
  else if Go.colon ∈ name then .error .colon
  else if Go.dotdot ∈ components name then .error .dotdot
  else if clean name = dot then .ok dot
  else if (clean name).head? = some slash ∨ (str "../").isPrefixOf (clean name) ∨
      clean name = Go.dotdot then .error .escapes
  else .ok (clean name)

def cleanArchivePath (name : Bytes) : Except ArchivePathError Bytes :=
  if name = [] then .error .empty
  else if maxRootFSPathLen < name.length then .error (.length name.length)
  else match name.findIdx? fun b => decide (b < 0x20) || b == 0x7F with
    | some i => .error (.control i)
    | none => cleanPlainPath name

def memPath (clean : Bytes) : Bytes :=
  if clean = [] ∨ clean = dot then [slash]
  else if clean.head? = some slash then clean
  else slash :: clean

/-! ## Errors -/

inductive LoadError where
  | readMagic (e : Bytes)
  | gzipHeader (e : Bytes)
  | tarRead (e : Bytes)
  | rawTarHeaders
  | entry (name : Bytes) (e : ArchivePathError)
  | tooManyNodes
  | mkdir (clean e : Bytes)
  | create (clean e : Bytes)
  | close (clean e : Bytes)
  | negativeSize (clean : Bytes) (size : Int)
  | bodySize (clean : Bytes) (size : Int)
  | totalBody (clean : Bytes) (total size : Int)
  | shortBody (clean : Bytes) (n size : Int) (e : Bytes)
  | refused (name what : Bytes)
  | unsupportedType (name : Bytes) (typeflag : UInt8)
  | zip (e : ZipError)
  | zipHeader (e : Bytes)
  | rawZipEntries
  | unsupportedMode (name : Bytes) (mode : UInt32)
  deriving DecidableEq, Repr

/-- The error's text for the archive `name`; `quote` is `%q` and `modeText` the `%v` of a
file mode. -/
def LoadError.text (quote : Bytes → Bytes) (modeText : UInt32 → Bytes) (name : Bytes)
    (e : LoadError) : Bytes :=
  name ++ str ": " ++ match e with
  | .readMagic e => str "read magic: " ++ e
  | .gzipHeader e => str "gzip header: " ++ e
  | .tarRead e => str "tar read: " ++ e
  | .rawTarHeaders => str "exceeds MaxRootFSEntries (" ++ str (toString maxRootFSEntries) ++
      str ") raw tar headers"
  | .entry n e => str "entry " ++ quote n ++ str ": " ++ e.text
  | .tooManyNodes => str "exceeds MaxRootFSEntries (" ++ str (toString maxRootFSEntries) ++ str ")"
  | .mkdir clean e => str "mkdir " ++ quote clean ++ str ": " ++ e
  | .create clean e => str "create " ++ quote clean ++ str ": " ++ e
  | .close clean e => str "close " ++ quote clean ++ str ": " ++ e
  | .negativeSize clean size => str "drain " ++ quote clean ++ str ": negative size " ++
      str (toString size)
  | .bodySize clean size => str "drain " ++ quote clean ++ str ": body size " ++
      str (toString size) ++ str " exceeds MaxRootFSFileBodyBytes (" ++
      str (toString maxRootFSFileBodyBytes) ++ str ")"
  | .totalBody clean total size => str "drain " ++ quote clean ++
      str ": cumulative body bytes " ++ str (toString total) ++ str "+" ++ str (toString size) ++
      str " would exceed MaxRootFSTotalBodyBytes (" ++ str (toString maxRootFSTotalBodyBytes) ++
      str ")"
  | .shortBody clean n size e => str "drain " ++ quote clean ++ str ": short read (" ++
      str (toString n) ++ str "/" ++ str (toString size) ++ str " bytes): " ++ e
  | .refused n what => str "entry " ++ quote n ++ str ": " ++ what ++ str " not allowed"
  | .unsupportedType n typeflag => str "entry " ++ quote n ++ str ": unsupported tar type " ++
      quote (encodeRune typeflag.toNat)
  | .zip e => e.text
  | .zipHeader e => str "zip header: " ++ e
  | .rawZipEntries => str "exceeds MaxRootFSEntries (" ++ str (toString maxRootFSEntries) ++
      str ") raw zip entries"
  | .unsupportedMode n mode => str "entry " ++ quote n ++ str ": unsupported zip mode " ++
      modeText mode

/-! ## The file system -/

/-- What the loaders use of `afero`'s file system in memory. `MkdirAll` and `Create`
make the path they are given and its missing ancestors, and nothing else; where they
fail they may have made some of these. -/
structure Afero (σ : Type) where
  empty : σ
  /-- The paths of the nodes, the root's apart. -/
  nodes : σ → Finset Bytes
  mkdirAll : σ → Bytes → σ × Option Bytes
  create : σ → Bytes → σ × Option Bytes
  /-- What `Close` of a created file returns. -/
  close : σ → Bytes → Option Bytes
  nodes_empty : nodes empty = ∅
  mkdirAll_within : ∀ fs p a, a ∈ nodes (mkdirAll fs p).1 → a ∈ nodes fs ∨ SlashPrefix a p
  mkdirAll_makes : ∀ fs p, (mkdirAll fs p).2 = none →
    ∀ a, a ∈ nodes fs ∨ SlashPrefix a p → a ∈ nodes (mkdirAll fs p).1
  create_within : ∀ fs p a, a ∈ nodes (create fs p).1 → a ∈ nodes fs ∨ SlashPrefix a p
  create_makes : ∀ fs p, (create fs p).2 = none →
    ∀ a, a ∈ nodes fs ∨ SlashPrefix a p → a ∈ nodes (create fs p).1

/-! ## Counting -/

structure NodeCounter where
  seen : Finset Bytes := ∅
  count : Nat := 0

/-- The loader's variables. `names` and `walked` are not the source's: the names that were
counted, and the part of the name being counted that the count has reached. -/
structure Loader (σ : Type) where
  fs : σ
  counter : NodeCounter := {}
  rawHeaders : Nat := 0
  totalBodyBytes : Int := 0
  names : List Bytes := []
  walked : Bytes := []

abbrev Loading (σ α : Type) := Watched (Loader σ) LoadError α

variable {σ : Type}

/-- The loop of `nodeCounter.add` over the segments, with the path walked so far. -/
def addFrom (cur : Bytes) : List Bytes → Loading σ Unit
  | [] => pure ()
  | seg :: segs =>
    if seg = [] then addFrom cur segs
    else do
      let cur := if cur = [] then seg else cur ++ slash :: seg
      let s ← Watched.read
      if cur ∈ s.counter.seen then
        Watched.change fun s => { s with walked := cur }
        addFrom cur segs
      else
        Watched.change fun s => { s with
          counter := { seen := insert cur s.counter.seen, count := s.counter.count + 1 }
          walked := cur }
        if maxRootFSEntries < s.counter.count + 1 then Watched.fail .tooManyNodes
        else addFrom cur segs

/-- `nodeCounter.add`. -/
def add (clean : Bytes) : Loading σ Unit :=
  if clean = [] ∨ clean = dot then pure ()
  else do
    addFrom [] (components clean)
    Watched.change fun s => { s with names := s.names ++ [clean], walked := [] }

/-! ## Making -/

/-- `MkdirAll` for a counted name. -/
def makeDir (a : Afero σ) (clean : Bytes) : Loading σ Unit := do
  let s ← Watched.read
  Watched.change fun s => { s with fs := (a.mkdirAll s.fs (memPath clean)).1 }
  match (a.mkdirAll s.fs (memPath clean)).2 with
  | some e => Watched.fail (.mkdir clean e)
  | none => pure ()

/-- `Create` and `Close` for a counted name. -/
def makeFile (a : Afero σ) (clean : Bytes) : Loading σ Unit := do
  let s ← Watched.read
  Watched.change fun s => { s with fs := (a.create s.fs (memPath clean)).1 }
  match (a.create s.fs (memPath clean)).2 with
  | some e => Watched.fail (.create clean e)
  | none =>
    match a.close (a.create s.fs (memPath clean)).1 (memPath clean) with
    | some e => Watched.fail (.close clean e)
    | none => pure ()

/-! ## Tar -/

inductive TarType where
  | dir | reg | link | device | fifo | cont | sparse | metadata | other
  deriving DecidableEq, Repr

/-- The cases of the loader's `switch`. -/
def tarType (typeflag : UInt8) : TarType :=
  if typeflag = 0x35 then .dir                                  -- TypeDir '5'
  else if typeflag = 0x30 ∨ typeflag = 0x00 then .reg           -- TypeReg '0', TypeRegA
  else if typeflag = 0x32 ∨ typeflag = 0x31 then .link          -- TypeSymlink '2', TypeLink '1'
  else if typeflag = 0x33 ∨ typeflag = 0x34 then .device        -- TypeChar '3', TypeBlock '4'
  else if typeflag = 0x36 then .fifo                            -- TypeFifo '6'
  else if typeflag = 0x37 then .cont                            -- TypeCont '7'
  else if typeflag = 0x53 then .sparse                          -- TypeGNUSparse 'S'
  else if typeflag = 0x78 ∨ typeflag = 0x67 ∨ typeflag = 0x4C ∨ typeflag = 0x4B then .metadata
  else .other

/-- A header that `Next` returns, and how much of the body can then be read, with the
error that reading ends with when that is too little. -/
structure TarHeader where
  name : Bytes
  typeflag : UInt8
  size : Int := 0
  body : Nat := 0
  bodyError : Bytes := []

/-- What `Next` returns before the end of the archive. -/
inductive TarNext where
  | header (h : TarHeader)
  | failed (e : Bytes)

/-- `drainTarBody`. -/
def drainTarBody (clean : Bytes) (h : TarHeader) : Loading σ Unit := do
  let s ← Watched.read
  if h.size < 0 then Watched.fail (.negativeSize clean h.size)
  else if h.size = 0 then pure ()
  else if maxRootFSFileBodyBytes < h.size then Watched.fail (.bodySize clean h.size)
  else if maxRootFSTotalBodyBytes < s.totalBodyBytes + h.size then
    Watched.fail (.totalBody clean s.totalBodyBytes h.size)
  else if (h.body : Int) < h.size then Watched.fail (.shortBody clean h.body h.size h.bodyError)
  else Watched.change fun s => { s with totalBodyBytes := s.totalBodyBytes + h.size }

/-- The `switch` over the type of an entry whose name is clean. -/
def loadTarEntry (a : Afero σ) (h : TarHeader) (clean : Bytes) : Loading σ Unit :=
  match tarType h.typeflag with
  | .dir =>
    if clean = [] ∨ clean = dot then pure ()
    else do
      add clean
      makeDir a clean
  | .reg => do
    drainTarBody clean h
    if clean = [] ∨ clean = dot then pure ()
    else do
      add clean
      makeFile a clean
  | .link => Watched.fail (.refused h.name (str "symlink/hardlink"))
  | .device => Watched.fail (.refused h.name (str "device node"))
  | .fifo => Watched.fail (.refused h.name (str "fifo"))
  | .cont => Watched.fail (.refused h.name (str "reserved type"))
  | .sparse => Watched.fail (.refused h.name (str "sparse file"))
  | .metadata => pure ()
  | .other => Watched.fail (.unsupportedType h.name h.typeflag)

/-- The loop of `loadRootFSFromReader` over what `Next` returns. -/
def loadTar (a : Afero σ) : List TarNext → Loading σ Unit
  | [] => pure ()
  | .failed e :: _ => Watched.fail (.tarRead e)
  | .header h :: rest => do
    let s ← Watched.read
    Watched.change fun s => { s with rawHeaders := s.rawHeaders + 1 }
    if maxRootFSEntries < s.rawHeaders + 1 then Watched.fail .rawTarHeaders
    else
      match cleanArchivePath h.name with
      | .error e => Watched.fail (.entry h.name e)
      | .ok clean => do
        loadTarEntry a h clean
        loadTar a rest

/-- `loadRootFSFromReader`: `opened` is what reading the magic bytes and, for gzip, the
header came to. -/
def loadRootFSFromReader (a : Afero σ) (opened : Except LoadError (List TarNext)) :
    Loading σ Unit := do
  loadTar a (← Watched.lift opened)

/-! ## Zip -/

/-- An entry of a zip archive, with its mode as an `os.FileMode`. -/
structure ZipEntry where
  name : Bytes
  mode : UInt32

def modeDir : UInt32 := 0x80000000
def modeSymlink : UInt32 := 0x08000000
def modeDevice : UInt32 := 0x04000000
def modeNamedPipe : UInt32 := 0x02000000
def modeSocket : UInt32 := 0x01000000
def modeCharDevice : UInt32 := 0x00200000
def modeIrregular : UInt32 := 0x00080000

def modeType : UInt32 :=
  modeDir ||| modeSymlink ||| modeNamedPipe ||| modeSocket ||| modeDevice ||| modeCharDevice |||
    modeIrregular

/-- The body of the loop of `loadRootFSFromZip`. -/
def loadZipEntry (a : Afero σ) (f : ZipEntry) (clean : Bytes) : Loading σ Unit :=
  if clean = [] ∨ clean = dot then pure ()
  else if f.mode &&& modeDir ≠ 0 then do
    add clean
    makeDir a clean
  else if f.mode &&& modeType = 0 then do
    add clean
    makeFile a clean
  else if f.mode &&& modeSymlink ≠ 0 then Watched.fail (.refused f.name (str "symlink"))
  else if f.mode &&& modeDevice ≠ 0 then Watched.fail (.refused f.name (str "device node"))
  else if f.mode &&& modeNamedPipe ≠ 0 then Watched.fail (.refused f.name (str "fifo"))
  else if f.mode &&& modeSocket ≠ 0 then Watched.fail (.refused f.name (str "socket"))
  else if f.mode &&& modeIrregular ≠ 0 then Watched.fail (.refused f.name (str "irregular file"))
  else Watched.fail (.unsupportedMode f.name f.mode)

def loadZip (a : Afero σ) : List ZipEntry → Loading σ Unit
  | [] => pure ()
  | f :: rest =>
    match cleanArchivePath f.name with
    | .error e => Watched.fail (.entry f.name e)
    | .ok clean => do
      loadZipEntry a f clean
      loadZip a rest

/-- `loadRootFSFromZip`: `opened` is what `zip.NewReader` returns for the file. -/
def loadRootFSFromZip (a : Afero σ) (file : Bytes) (size : Int)
    (opened : Except Bytes (List ZipEntry)) : Loading σ Unit := do
  Watched.lift ((preflightZipDirectory file size).mapError LoadError.zip)
  let files ← Watched.lift (opened.mapError LoadError.zipHeader)
  if maxRootFSEntries < files.length then Watched.fail .rawZipEntries
  else loadZip a files

end FakeSSH.Shell
