import FakeSSH.Lib.Journal
import FakeSSH.Shell.Dynamic
import Mathlib.Data.List.Destutter
import Mathlib.Data.List.Sort

/-!
# The command runner (`cmds/types.go`)

What a session's commands share: the environment of the configuration, the variables
that the session sets over it, the root file system and the dynamic store. Commands
only read the file system. `NewCommandRunner` sets every field, so the source's nil
cases do not arise.
-/

namespace FakeSSH.Shell

open FakeSSH.Go FakeSSH.Lib

/-- What the shell takes from the standard library as it finds it: the case tables,
and `fmt`'s `%q` and `%#U`. -/
structure StdLib where
  cases : CaseTable
  quote : Bytes → Bytes
  point : UInt8 → Bytes

/-! ## The root file system -/

inductive NodeKind where
  | file
  | dir
  deriving DecidableEq, Repr

/-- A loaded file system, with its nodes by their absolute paths. Its root is always
there. Files are empty. -/
structure RootFS where
  nodes : Map NodeKind := ∅

namespace RootFS

/-- `Stat`, as far as it is read. -/
def stat (fs : RootFS) (p : Bytes) : Option NodeKind :=
  if p = [slash] then some .dir else fs.nodes.lookup p

/-- `afero.Exists`, which cannot fail in memory. -/
def pathExists (fs : RootFS) (p : Bytes) : Bool := (fs.stat p).isSome

/-- `afero.IsDir`, `false` also for its error. -/
def isDir (fs : RootFS) (p : Bytes) : Bool := fs.stat p = some .dir

/-- The names that `afero.ReadDir` returns. It sorts them, which its callers do again. -/
def readDirNames (fs : RootFS) (d : Bytes) : List Bytes :=
  (fs.nodes.keys.filter fun p => p ≠ [slash] ∧ dir p = d).map base

end RootFS

/-! ## The runner -/

structure EnvPair where
  key : Bytes
  value : Bytes
  deriving DecidableEq, Repr

/-- `EnvMap`: variables by their names in capitals, with the spelling last used. -/
abbrev EnvMap := FiniteMap Bytes EnvPair

/-- `CommandRunner`, with the fields of its configuration that commands print. -/
structure CommandRunner where
  user : Bytes := []
  os : Bytes := []
  hostName : Bytes := []
  kernel : Bytes := []
  env : EnvMap := ∅
  tempEnv : EnvMap := ∅
  rootFS : RootFS := {}
  dynamic : DynamicStore := {}

def pwdKey : Bytes := str "PWD"

namespace CommandRunner

variable (r : CommandRunner)

def getEnv (key : Bytes) : Bytes :=
  match r.tempEnv.lookup (toUpper key) with
  | some v => v.value
  | none =>
    match r.env.lookup (toUpper key) with
    | some v => v.value
    | none => []

def setEnv (key value : Bytes) : CommandRunner :=
  { r with tempEnv := r.tempEnv.insert (toUpper key) ⟨key, value⟩ }

def unsetEnv (key : Bytes) : CommandRunner := { r with tempEnv := r.tempEnv.erase (toUpper key) }

/-- The map of `GetEnvs`. -/
def getEnvs : EnvMap := r.tempEnv ∪ r.env

/-- `currentPWD`. The built-in commands have the same lines. -/
def currentPWD : Bytes := if r.getEnv pwdKey = [] then [slash] else r.getEnv pwdKey

end CommandRunner

/-! ## What the session sees of its files -/

def dynamicEntryExists (entries : List DynamicEntry) (resolved : Bytes) : Bool :=
  entries.any fun entry => entry.path = resolved

/-- `lookupDynamicPath`. -/
def lookupDynamicPath (r : CommandRunner) (resolved : Bytes) : Option DynamicEntry :=
  (dynamicEntries r.dynamic).find? fun entry => entry.path = resolved

/-- The last part of `fakeDirExists` and of `parentExists`. -/
def dynamicDirExists (r : CommandRunner) (resolved : Bytes) : Bool :=
  (dynamicEntries r.dynamic).any fun entry => entry.path = resolved ∧ entry.kind = kindDir

def fakeDirExists (r : CommandRunner) (resolved : Bytes) : Bool :=
  decide (resolved = [slash]) || r.rootFS.isDir resolved || dynamicDirExists r resolved

/-- `dynamicChildNames`, and `dynamicChildNamesForGlob`. -/
def dynamicChildNames (r : CommandRunner) (parent : Bytes) : List Bytes :=
  ((dynamicEntries r.dynamic).filter fun entry => dir entry.path = parent).map fun entry =>
    base entry.path

/-- `sortDedup`: sorted, each name once. -/
def sortDedup (names : List Bytes) : List Bytes := (names.insertionSort (· ≤ ·)).destutter (· ≠ ·)

end FakeSSH.Shell
