import FakeSSH.Shell.RootFS

/-!
# Loading from the host (`rootfs.go`)

A root file system is the one that is built in, a directory of the host, or an archive
on it. A directory is walked with a stack of the directories that are still to be read.
The host is another program's: what it answers is part of the model's input, and it may
answer the same question differently the next time. Each entry is looked at once and
each file opened once, so the answers are kept with the entry they are about. Paths are
those of Unix.
-/

namespace FakeSSH.Shell

open FakeSSH.Go FakeSSH.Lib

/-! ## What the host answers -/

/-- What `Lstat` and `Stat` say of a file: its mode, and what `os.SameFile` compares. -/
structure FileInfo where
  mode : UInt32
  identity : Nat
  deriving DecidableEq, Repr

/-- What opening a file and `Stat` of the handle come to. -/
inductive HostOpen where
  | failed (e : Bytes)
  | noStat (e : Bytes)
  | opened (info : FileInfo)
  deriving DecidableEq, Repr

/-- A name that `ReadDir` returns: one component, and neither `.` nor `..`. -/
structure HostName where
  text : Bytes
  full : text ≠ []
  plain : slash ∉ text
  notDot : text ≠ dot
  notDotdot : text ≠ Go.dotdot

mutual
/-- A file once it is opened. For a directory, `entries` is what its calls of `ReadDir`
return together, and `ended` the error behind them if that is not `io.EOF`. -/
inductive HostFile where
  | mk (opened : HostOpen) (entries : HostEntries) (ended closed : Option Bytes)
/-- Entries in the order in which they are read, each with what `Lstat` says of it. -/
inductive HostEntries where
  | nil
  | cons (name : HostName) (lstat : Except Bytes FileInfo) (file : HostFile) (rest : HostEntries)
end

namespace HostFile

def opened : HostFile → HostOpen
  | .mk opened _ _ _ => opened

def entries : HostFile → HostEntries
  | .mk _ entries _ _ => entries

def ended : HostFile → Option Bytes
  | .mk _ _ ended _ => ended

/-- What `Close` of the handle returns. -/
def closed : HostFile → Option Bytes
  | .mk _ _ _ closed => closed

end HostFile

mutual
/-- How many files there are in a tree. -/
def HostFile.weight : HostFile → Nat
  | .mk _ entries _ _ => entries.weight + 1
def HostEntries.weight : HostEntries → Nat
  | .nil => 0
  | .cons _ _ file rest => file.weight + rest.weight
end

/-! ## Files that are no files -/

/-- `rejectSpecial`: what of a mode is not allowed. -/
def rejectSpecial (mode : UInt32) : Option Bytes :=
  if mode &&& modeSymlink ≠ 0 then some (str "symlink")
  else if mode &&& modeDevice ≠ 0 then some (str "device node")
  else if mode &&& modeNamedPipe ≠ 0 then some (str "named pipe")
  else if mode &&& modeSocket ≠ 0 then some (str "socket")
  else if mode &&& modeIrregular ≠ 0 then some (str "irregular file")
  else none

inductive HostError where
  | openRoot (root e : Bytes)
  | opening (path e : Bytes)
  | stat (path e : Bytes)
  | special (label what : Bytes)
  | changed (path : Bytes)
  | lstat (path e : Bytes)
  | entry (rel : Bytes) (e : ArchivePathError)
  | load (e : LoadError)
  | close (path e : Bytes)
  | readDir (path e : Bytes)
  | unsupported (rel : Bytes)
  deriving DecidableEq, Repr

/-- The error's text; `quote` is `%q` and `modeText` the `%v` of a file mode. -/
def HostError.text (quote : Bytes → Bytes) (modeText : UInt32 → Bytes) : HostError → Bytes
  | .openRoot root e => str "open root " ++ quote root ++ str ": " ++ e
  | .opening path e => str "open " ++ quote path ++ str ": " ++ e
  | .stat path e => str "open " ++ quote path ++ str ": stat: " ++ e
  | .special label what => label ++ str ": " ++ what ++ str " not allowed"
  | .changed path => str "open " ++ quote path ++ str ": changed after lstat"
  | .lstat path e => str "lstat " ++ quote path ++ str ": " ++ e
  | .entry rel e => str "entry " ++ quote rel ++ str ": " ++ e.text
  -- no archive is named in front
  | .load e => (e.text quote modeText []).drop 2
  | .close path e => str "close " ++ quote path ++ str ": " ++ e
  | .readDir path e => str "readdir " ++ quote path ++ str ": " ++ e
  | .unsupported rel => str "entry " ++ quote rel ++ str ": unsupported file type"

/-- `openRootFSChecked` and `openRootFSInRootChecked`, with `checkRootFSFile`. -/
def checkRootFSFile (path : Bytes) (expected : FileInfo) : HostOpen → Except HostError Unit
  | .failed e => .error (.opening path e)
  | .noStat e => .error (.stat path e)
  | .opened info =>
    match rejectSpecial info.mode with
    | some what => .error (.special path what)
    | none => if expected.identity ≠ info.identity then .error (.changed path) else .ok ()

/-! ## A directory -/

/-- `walkItem`. -/
structure WalkItem where
  hostRel : Bytes
  fakeClean : Bytes
  expected : FileInfo
  file : HostFile

abbrev Walking (σ α : Type) := Watched (Loader σ) HostError α

variable {σ : Type}

/-- The body of the loop over the entries of a directory. The answer is what it pushes. -/
def loadDirEntry (a : Afero σ) (item : WalkItem) (name : HostName)
    (lstat : Except Bytes FileInfo) (file : HostFile) : Walking σ (Option WalkItem) :=
  let hostFull := join item.hostRel name.text
  let rel := join item.fakeClean name.text
  match lstat with
  | .error e => Watched.fail (.lstat hostFull e)
  | .ok info =>
    match rejectSpecial info.mode with
    | some what => Watched.fail (.special hostFull what)
    | none =>
      match cleanArchivePath rel with
      | .error e => Watched.fail (.entry rel e)
      | .ok clean => do
        (add clean).mapError .load
        if info.mode &&& modeDir ≠ 0 then
          pure (some { hostRel := hostFull, fakeClean := clean, expected := info, file })
        else if info.mode &&& modeType = 0 then do
          Watched.lift (checkRootFSFile hostFull info file.opened)
          match file.closed with
          | some e => Watched.fail (.close hostFull e)
          | none => do
            (makeFile a clean).mapError .load
            pure none
        else Watched.fail (.unsupported rel)

/-- The loop over the entries, with the top of the stack in front. -/
def loadDirEntries (a : Afero σ) (item : WalkItem) :
    HostEntries → List WalkItem → Walking σ (List WalkItem)
  | .nil, stack => pure stack
  | .cons name lstat file rest, stack => do
    let pushed ← loadDirEntry a item name lstat file
    loadDirEntries a item rest (pushed.toList ++ stack)

/-- A directory is made once it is opened; the root's is there. -/
def makeItem (a : Afero σ) (item : WalkItem) : Walking σ Unit :=
  if item.fakeClean ≠ [] then (makeDir a item.fakeClean).mapError .load else pure ()

/-- The loop over the stack. A turn reads one directory, so as many turns as there are
files are enough. -/
def walkDirs (a : Afero σ) : Nat → List WalkItem → Walking σ Unit
  | 0, _ => pure ()
  | _ + 1, [] => pure ()
  | turns + 1, item :: stack => do
    Watched.lift (checkRootFSFile item.hostRel item.expected item.file.opened)
    makeItem a item
    let stack ← loadDirEntries a item item.file.entries stack
    match item.file.ended with
    | some e => Watched.fail (.readDir item.hostRel e)
    | none =>
      match item.file.closed with
      | some e => Watched.fail (.close item.hostRel e)
      | none => walkDirs a turns stack

/-- `loadRootFSFromDir`: `opened` is the error of `OpenRoot`, and `file` the directory. -/
def loadRootFSFromDir (a : Afero σ) (root : Bytes) (expected : FileInfo) (opened : Option Bytes)
    (file : HostFile) : Walking σ Unit :=
  match opened with
  | some e => Watched.fail (.openRoot root e)
  | none => walkDirs a file.weight [{ hostRel := dot, fakeClean := [], expected, file }]

/-! ## An archive -/

/-- What the host answers about an archive: `zip` and `tar` are what the readers of the
two formats return for its bytes. -/
structure HostArchive where
  opened : HostOpen
  size : Except Bytes Int
  content : Bytes
  seek : Option Bytes
  zip : Except Bytes (List ZipEntry)
  tar : Except LoadError (List TarNext)

/-- The test of the first four bytes. -/
def isZipMagic : Bytes → Bool
  | a :: b :: c :: d :: _ =>
    a == 0x50 && b == 0x4B && (c == 0x03 || c == 0x05 || c == 0x07) &&
      (d == 0x04 || d == 0x06 || d == 0x08)
  | _ => false

inductive ArchiveError where
  | host (e : HostError)
  | raw (e : Bytes)
  | load (e : LoadError)
  deriving DecidableEq, Repr

def ArchiveError.text (quote : Bytes → Bytes) (modeText : UInt32 → Bytes) (file : Bytes) :
    ArchiveError → Bytes
  | .host e => e.text quote modeText
  | .raw e => e
  | .load e => e.text quote modeText file

/-- `loadRootFSFromFile`. -/
def loadRootFSFromFile (t : CaseTable) (a : Afero σ) (file : Bytes) (expected : FileInfo)
    (host : HostArchive) : Watched (Loader σ) ArchiveError Unit := do
  Watched.lift ((checkRootFSFile file expected host.opened).mapError .host)
  let size ← Watched.lift (host.size.mapError .raw)
  if (str ".zip").isSuffixOf (t.toLower file) || isZipMagic host.content then
    (loadRootFSFromZip a host.content size host.zip).mapError .load
  else
    match host.seek with
    | some e => Watched.fail (.raw e)
    | none => (loadRootFSFromReader a host.tar).mapError .load

/-! ## Any -/

/-- What the host answers about the configured path. -/
structure HostPath where
  lstat : Except Bytes FileInfo
  openRoot : Option Bytes
  file : HostFile
  archive : HostArchive

inductive RootFSError where
  | embedded (e : LoadError)
  | inaccessible (e : Bytes)
  | rejected (what : Bytes)
  | dir (e : HostError)
  | archive (e : ArchiveError)
  deriving DecidableEq, Repr

/-- The error's text for the configured path. -/
def RootFSError.text (quote : Bytes → Bytes) (modeText : UInt32 → Bytes) (rootFS : Bytes) :
    RootFSError → Bytes
  | .embedded e => str "fakeshell: load embedded rootfs: " ++
      e.text quote modeText (str "embedded:assets/rootfs.tar.gz")
  | .inaccessible e => str "fakeshell: rootfs " ++ quote rootFS ++ str " is not accessible: " ++ e
  | .rejected what => str "fakeshell: rootfs " ++ quote rootFS ++ str " rejected: " ++
      (HostError.special rootFS what).text quote modeText
  | .dir e => str "fakeshell: load rootfs dir " ++ quote rootFS ++ str ": " ++ e.text quote modeText
  | .archive e => str "fakeshell: load rootfs archive " ++ quote rootFS ++ str ": " ++
      e.text quote modeText rootFS

/-- `LoadRootFS`: `embedded` is what reading the built-in archive comes to. -/
def loadRootFS (t : CaseTable) (a : Afero σ) (embedded : Except LoadError (List TarNext))
    (rootFS : Bytes) (host : HostPath) : Watched (Loader σ) RootFSError Unit :=
  if rootFS = [] then (loadRootFSFromReader a embedded).mapError .embedded
  else
    match host.lstat with
    | .error e => Watched.fail (.inaccessible e)
    | .ok info =>
      match rejectSpecial info.mode with
      | some what => Watched.fail (.rejected what)
      | none =>
        if info.mode &&& modeDir ≠ 0 then
          (loadRootFSFromDir a rootFS info host.openRoot host.file).mapError .dir
        else (loadRootFSFromFile t a rootFS info host.archive).mapError .archive

end FakeSSH.Shell
