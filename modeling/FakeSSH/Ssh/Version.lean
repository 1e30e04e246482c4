import FakeSSH.Go.Format

/-!
# The version line (`third/ssh/transport.go`, `fakessh_antiscan.go`, `antiscan.go`)

Before the key exchange the server reads one line from the client. Without
`AsOpenSSH` it skips lines that are not version lines, up to 255 bytes of them.
With it the first line has to be one, of at most 8192 bytes, and goes through two
more checks: the protocol version, and the callback `CheckClientVersion`. That
callback is `isOpenSSHCompatClientVersion`, of another package and written once
more.

A client is what it sends before it stops or closes: bytes, and then no more.
-/

namespace FakeSSH.Ssh

open FakeSSH.Go

def maxVersionStringBytes : Nat := 255
def openSSHMaxBannerBytes : Nat := 8192

/-- Why the server gives up on a client. -/
inductive VersionError where
  /-- the own line cannot be sent -/
  | junk
  /-- `io.ReadFull` has no byte to give -/
  | closed
  | overflow
  | bannerOverflow
  | unexpectedCR
  | invalidChar
  | noVersion
  | malformed
  | majorDiffers
  | checkFailed
  deriving DecidableEq, Repr

/-- What `serverHandshake` returns, where closing the connection succeeds. -/
def VersionError.text : VersionError → Bytes
  | .junk => str "ssh: junk character in version line"
  | .closed => str "EOF"
  | .overflow | .bannerOverflow => str "ssh: overflow reading version string"
  | .unexpectedCR => str "ssh: unexpected CR"
  | .noVersion => str "ssh: cannot read client version"
  | .invalidChar | .malformed => str "client version format invalid"
  | .majorDiffers => str "client major version don't match"
  | .checkFailed => str "check client version failed"

/-- What the client is told. -/
def VersionError.reply : VersionError → Bytes
  | .junk | .closed | .overflow => []
  | .bannerOverflow | .unexpectedCR | .invalidChar | .noVersion | .malformed =>
    str "Invalid SSH identification string.\r\n"
  | .majorDiffers => str "Protocol major versions differ.\r\n"
  | .checkFailed => str "Protocol mismatch.\r\n"

/-! ## Reading the line -/

def carriageReturn : UInt8 := 0x0D

/-- The loop of `readVersion`, with as many bytes to go. -/
def readVersionFrom : Nat → Bytes → Bytes → Except VersionError Bytes
  | 0, _, _ => .error .overflow
  | _ + 1, _, [] => .error .closed
  | n + 1, versionString, b :: stream =>
    if b = newline then
      if (str "SSH-").isPrefixOf versionString then .ok versionString
      else readVersionFrom n [] stream
    else readVersionFrom n (versionString ++ [b]) stream

/-- `readVersion`. One carriage return at the end is removed. -/
def readVersion (stream : Bytes) : Except VersionError Bytes := do
  let versionString ← readVersionFrom maxVersionStringBytes [] stream
  .ok (if versionString.getLast? = some carriageReturn then versionString.dropLast
    else versionString)

/-- The inner loop of `readVersionOpenSSH`. A carriage return is not kept, and
nothing but more of them may stand between it and the newline. -/
def readBannerFrom (length : Nat) (lastCR : Bool) (versionString : Bytes) :
    Bytes → Except VersionError Bytes
  | [] => .error .closed
  | b :: stream =>
    if openSSHMaxBannerBytes ≤ length then .error .bannerOverflow
    else if b = carriageReturn then readBannerFrom (length + 1) true versionString stream
    else if b = newline then .ok versionString
    else if b = 0 then .error .invalidChar
    else if lastCR then .error .unexpectedCR
    else readBannerFrom (length + 1) false (versionString ++ [b]) stream

/-- The outer loop of the source never goes round. -/
def readVersionOpenSSH (stream : Bytes) : Except VersionError Bytes := do
  let versionString ← readBannerFrom 0 false [] stream
  if (str "SSH-").isPrefixOf versionString then .ok versionString else .error .noVersion

/-! ## The protocol version -/

/-- The bytes that `sscanf` skips before a number. -/
def scanSpaces : Bytes := [0x20, 0x0C, 0x0A, 0x0D, 0x09, 0x0B]

/-- The text that `fakesshScanOpenSSHInt` and `scanOpenSSHProtocolInt` have in
common: a number as `%d` reads it, and what follows. -/
def scanInt (isScanSpace : UInt8 → Bool) (input : Bytes) : Option (Int × Bytes) :=
  let input := input.dropWhile isScanSpace
  let sign := input.take (if input.head? = some 0x2B ∨ input.head? = some 0x2D then 1 else 0)
  let digits := (input.drop sign.length).takeWhile isDecimalDigit
  if digits = [] then none
  else (atoi (sign ++ digits)).map fun value =>
    (value, (input.drop sign.length).drop digits.length)

def fakesshIsOpenSSHScanSpace (c : UInt8) : Bool := scanSpaces.contains c

def fakesshScanOpenSSHInt : Bytes → Option (Int × Bytes) := scanInt fakesshIsOpenSSHScanSpace

def fakesshParseOpenSSHProtocolVersion (version : Bytes) : Option (Int × Int) := do
  let rest ← cutPrefix (str "SSH-") version
  let (major, rest) ← fakesshScanOpenSSHInt rest
  let rest ← cutPrefix (str ".") rest
  let (minor, rest) ← fakesshScanOpenSSHInt rest
  let rest ← cutPrefix (str "-") rest
  if rest = [] then none else some (major, minor)

def fakesshOpenSSHProtocolMismatch (major minor : Int) : Bool :=
  if major = 2 then false else decide (major ≠ 1) || decide (minor ≠ 99)

/-! ## The stage in `serverHandshake` -/

/-- The precheck that OpenSSH has and the library had not. -/
def checkProtocol (clientVersion : Bytes) : Except VersionError Unit :=
  match fakesshParseOpenSSHProtocolVersion clientVersion with
  | none => .error .malformed
  | some (major, minor) =>
    if fakesshOpenSSHProtocolMismatch major minor then .error .majorDiffers else .ok ()

/-- The fields of `ssh.ServerConfig` that the stage reads. -/
structure ServerConfig where
  serverVersion : Bytes := []
  asOpenSSH : Bool := false
  checkClientVersion : Option (Bytes → Bool) := none

def packageVersion : Bytes := str "SSH-2.0-Go"

namespace ServerConfig

def ownVersion (config : ServerConfig) : Bytes :=
  if config.serverVersion = [] then packageVersion else config.serverVersion

/-- The checks of the line that was read. -/
def checkVersion (config : ServerConfig) (clientVersion : Bytes) : Except VersionError Unit := do
  if config.asOpenSSH then checkProtocol clientVersion else .ok ()
  if config.checkClientVersion.any fun check => !check clientVersion then .error .checkFailed
  else .ok ()

/-- From the first byte of the client to the end of the checks. -/
def versionStage (config : ServerConfig) (stream : Bytes) : Except VersionError Bytes := do
  let clientVersion ← if config.asOpenSSH then readVersionOpenSSH stream else readVersion stream
  config.checkVersion clientVersion
  .ok clientVersion

/-- `exchangeVersions` and `exchangeVersionsOpenSSH` look at the own line first. -/
def exchange (config : ServerConfig) (stream : Bytes) : Except VersionError Bytes :=
  if config.ownVersion.any (· < 32) then .error .junk else config.versionStage stream

end ServerConfig

end FakeSSH.Ssh

namespace FakeSSH.Main

open FakeSSH.Go FakeSSH.Ssh

def isOpenSSHScanSpace (c : UInt8) : Bool := scanSpaces.contains c

def scanOpenSSHProtocolInt : Bytes → Option (Int × Bytes) := scanInt isOpenSSHScanSpace

def isOpenSSHCompatClientVersion (version : Bytes) : Bool :=
  let compat := do
    let rest ← cutPrefix (str "SSH-") version
    let (major, rest) ← scanOpenSSHProtocolInt rest
    let rest ← cutPrefix (str ".") rest
    let (minor, rest) ← scanOpenSSHProtocolInt rest
    let rest ← cutPrefix (str "-") rest
    if rest = [] then none
    else if major = 2 then some true
    else some (decide (major = 1) && decide (minor = 99))
  compat.getD false

/-- The part of `main` that sets up the version stage. -/
def serverConfig (sshVersion : Bytes) (antiScan : Bool) : ServerConfig where
  serverVersion := str "SSH-2.0-" ++ sshVersion
  asOpenSSH := antiScan
  checkClientVersion := if antiScan then some isOpenSSHCompatClientVersion else none

end FakeSSH.Main
