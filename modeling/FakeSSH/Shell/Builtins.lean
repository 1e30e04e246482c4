import FakeSSH.Go.Format
import FakeSSH.Shell.Redirect

/-!
# The built-in commands (`cmds/base.go`, `cmds/recon.go`, `cmds/profile.go`)

A command writes what it has to say against its arguments to its standard error, makes
at most one write to its standard output after that, and returns. So what it does to
its writers is a `Report`. Only `cd` and `touch` change the runner.
-/

namespace FakeSSH.Shell

open FakeSSH.Go FakeSSH.Lib

/-- What the surroundings answer while a command runs: the clock where it is read, the
order in which the environment's map is iterated, and the failure of a write to the
channel. -/
structure Surroundings where
  reservedAt : Nat → Int
  ranAt : Int
  closedAt : Nat → Int
  loggedAt : Int
  iterate : EnvMap → List EnvPair
  iterate_all : ∀ m, (iterate m : Multiset EnvPair) = m.entries.map fun e => e.2
  writeError : Option Bytes

/-- The error a command returns. -/
inductive CmdError where
  | exit
  | failed (text : Bytes)
  deriving DecidableEq, Repr

def CmdError.text : CmdError → Bytes
  | .exit => str "exit"
  | .failed text => text

/-- What a command writes, and what it returns if its write to the output succeeds. -/
structure Report where
  errs : List Bytes := []
  out : Option Bytes := none
  error : Option CmdError := none
  deriving DecidableEq, Repr

/-- A line on standard error, with the error that is returned. -/
def complain (line error : Bytes) : Report :=
  { errs := [line ++ [newline]], error := some (.failed error) }

/-- `Fprintln(r.Stdout, text)`. -/
def printLine (text : Bytes) : Report := { out := some (text ++ [newline]) }

/-! ## Bounded output -/

def outputTruncatedMarker : Bytes := str "\n[fakeshell: output truncated]\n"

/-- `truncateOutput`. The marker is shorter than the cap. -/
def truncateOutput (data : Bytes) : Bytes :=
  if data.length ≤ maxCommandOutputBytes then data
  else data.take (maxCommandOutputBytes - outputTruncatedMarker.length) ++ outputTruncatedMarker

def writeBounded (data : Bytes) : Report := { out := some (truncateOutput data) }

def maxErrorTokenBytes : Nat := 80

def clipErrorToken (s : Bytes) : Bytes :=
  if s.length ≤ maxErrorTokenBytes then s else s.take maxErrorTokenBytes ++ str "..."

def unsupportedOption (cmd opt : Bytes) : Bytes :=
  clipErrorToken cmd ++ str ": unsupported option " ++ clipErrorToken opt

def rejectUnsupportedOption (cmd opt : Bytes) : Report :=
  complain (unsupportedOption cmd opt) (unsupportedOption cmd opt)

/-- An argument that starts with `-` and is not `-` alone. -/
def isOption (arg : Bytes) : Bool := arg.head? = some hyphen ∧ arg ≠ [hyphen]

/-- `rejectOptionsExcept`: the option that is refused. -/
def rejectOptionsExcept (args allowed : List Bytes) : Option Bytes :=
  args.find? fun arg => isOption arg && !allowed.contains arg

/-- `rejectShortOptions`: the option that is refused. -/
def rejectShortOptions (args : List Bytes) (allowedLetters : Bytes) : Option Bytes :=
  args.find? fun arg => isOption arg &&
    ((str "--").isPrefixOf arg ||
      (runes (trimPrefix (str "-") arg)).any fun d =>
        !allowedLetters.any fun letter => letter.toNat == d.rune)

/-- The commands that refuse options and then print. -/
def printUnless (cmd : Bytes) (refused : Option Bytes) (text : Bytes) : Report :=
  match refused with
  | some opt => rejectUnsupportedOption cmd opt
  | none => writeBounded text

namespace Cmds

/-! ## Commands on paths -/

variable (r : CommandRunner) (args : List Bytes)

def pwd : Report := printLine r.currentPWD

/-- The directory that `cd` and `ls` are asked for. -/
def firstArg : Bytes := args.headD []

/-- `HOME`, or the root. -/
def homeDir : Bytes :=
  if r.getEnv (str "HOME") = [] then [slash] else r.getEnv (str "HOME")

def cdTarget : Bytes :=
  if firstArg args = [] ∨ firstArg args = str "~" then homeDir r else firstArg args

def cd : CommandRunner × Report :=
  match resolvePath (r.getEnv pwdKey) (cdTarget r args) with
  | .error e => (r, complain (str "cd: " ++ e.text) e.text)
  | .ok resolved =>
    match r.rootFS.stat resolved with
    | none => (r, complain (str "cd: " ++ resolved ++ str ": No such file or directory")
        (str "cd: " ++ resolved ++ str ": no such directory"))
    | some .file => (r, complain (str "cd: " ++ resolved ++ str ": Not a directory")
        (str "cd: " ++ resolved ++ str ": not a directory"))
    | some .dir => (r.setEnv pwdKey resolved, {})

def lsTarget : Bytes := if firstArg args = [] then r.currentPWD else firstArg args

/-- A listing: the names sorted, each once. -/
def listing (names : List Bytes) : Report := printLine ((str "  ").intercalate (sortDedup names))

def lsMissing (target : Bytes) : Report :=
  complain (str "ls: " ++ target ++ str ": No such file or directory")
    (str "ls: " ++ target ++ str ": no such file")

def ls : Report :=
  match resolvePath (r.getEnv pwdKey) (lsTarget r args) with
  | .error e => complain (str "ls: " ++ e.text) e.text
  | .ok resolved =>
    match r.rootFS.stat resolved with
    | some .file => printLine (base resolved)
    | some .dir => listing (r.rootFS.readDirNames resolved ++ dynamicChildNames r resolved)
    | none =>
      match lookupDynamicPath r resolved with
      | some de =>
        if de.kind = kindFile then printLine (base resolved)
        else if de.kind = kindDir then listing (dynamicChildNames r resolved)
        else lsMissing (lsTarget r args)
      | none => lsMissing (lsTarget r args)

/-- `parentExists`. -/
def parentExists (d : Bytes) : Bool :=
  decide (d = [slash]) || (r.rootFS.pathExists d && r.rootFS.isDir d) || dynamicDirExists r d

def touch (lib : StdLib) (now : Int) : CommandRunner × Report :=
  match args with
  | [] => (r, complain (str "touch: missing file operand") (str "touch: missing file operand"))
  | [arg] =>
    match resolvePath r.currentPWD arg with
    | .error e => (r, complain (str "touch: " ++ e.text) e.text)
    | .ok resolved =>
      if !parentExists r (dir resolved) then
        (r, complain (str "touch: cannot touch '" ++ arg ++ str "': No such file or directory")
          (str "touch: " ++ resolved ++ str ": parent " ++ dir resolved ++ str " does not exist"))
      else match record lib.cases r.dynamic (reservation resolved now) with
        | (s, .error e) => ({ r with dynamic := s },
            complain (str "touch: " ++ e.text lib.quote lib.point) (e.text lib.quote lib.point))
        | (s, .ok _) => ({ r with dynamic := s }, {})
  | _ => (r, complain (str "touch: too many arguments") (str "touch: too many arguments"))

/-! ## Commands on the environment -/

/-- The first variable that is not empty, or the second one. -/
def envOr (key other : Bytes) : Bytes := if r.getEnv key = [] then r.getEnv other else r.getEnv key

def whoami : Report := printLine (envOr r (str "USER") (str "LOGNAME"))

def hostname : Report := printLine (envOr r (str "NAME") (str "HOSTNAME"))

def echo : Report := printLine ((str " ").intercalate args)

def uname : Report :=
  printLine (r.os ++ str " " ++ r.hostName ++ str " " ++ r.kernel ++
    str " \xc2\xa9 FakeShell 2024")

/-- `env`. `io.Copy` of an empty buffer writes nothing. -/
def env (iterate : EnvMap → List EnvPair) : Report :=
  let lines := (iterate r.getEnvs).map fun e => e.key ++ equals :: e.value
  { out := if lines = [] then none else some ([newline].intercalate lines) }

def exit : Report := { error := some .exit }

/-! ## Recon commands -/

def reconUser : Bytes :=
  if r.getEnv (str "USER") ≠ [] then r.getEnv (str "USER")
  else if r.getEnv (str "LOGNAME") ≠ [] then r.getEnv (str "LOGNAME")
  else if r.user ≠ [] then r.user
  else str "root"

def id : Report :=
  let user := reconUser r
  let num := if user = str "root" then str "0" else str "1000"
  printUnless (str "id") (rejectOptionsExcept args [])
    (str "uid=" ++ num ++ str "(" ++ user ++ str ") gid=" ++ num ++ str "(" ++ user ++
      str ") groups=" ++ num ++ str "(" ++ user ++ str ")\n")

def groups : Report :=
  printUnless (str "groups") (rejectOptionsExcept args []) (reconUser r ++ str "\n")

def who : Report :=
  printUnless (str "who") (rejectOptionsExcept args [])
    (reconUser r ++ str "     pts/0        1970-01-01 00:00 (10.0.0.1)\n")

def w : Report :=
  printUnless (str "w") (rejectOptionsExcept args [])
    (str " 00:00:00 up 3:25,  1 user,  load average: 0.00, 0.01, 0.05\n" ++
      str "USER     TTY      FROM             LOGIN@   IDLE   JCPU   PCPU WHAT\n" ++
      padRight 8 (reconUser r) ++
      str " pts/0    10.0.0.1         00:00    0.00s  0.00s  0.00s -sh\n")

def last : Report :=
  printUnless (str "last") (rejectOptionsExcept args [])
    (padRight 8 (reconUser r) ++
      str " pts/0        10.0.0.1         Thu Jan  1 00:00   still logged in\n" ++
      str "reboot   system boot  6.1.0-fakeshell Thu Jan  1 00:00   still running\n")

def uptime : Report :=
  printUnless (str "uptime") (rejectOptionsExcept args [])
    (str " 00:00:00 up 3:25,  1 user,  load average: 0.00, 0.01, 0.05\n")

/-- `date`, which takes no arguments at all. -/
def date : Report :=
  printUnless (str "date") args.head? (str "Thu Jan  1 00:00:00 UTC 1970\n")

def df : Report :=
  printUnless (str "df") (rejectOptionsExcept args [str "-h", str "-k"])
    (str "Filesystem      Size  Used Avail Use% Mounted on\n" ++
      str "fakeshellfs      16G  1.2G   15G   8% /\n" ++
      str "tmpfs            64M     0   64M   0% /tmp\n")

def free : Report :=
  printUnless (str "free") (rejectOptionsExcept args [str "-h", str "-k", str "-m", str "-g"])
    (str "              total        used        free      shared  buff/cache   available\n" ++
      str "Mem:           2048         256        1536           0         256        1792\n" ++
      str "Swap:             0           0           0\n")

def ps : Report :=
  printUnless (str "ps") (rejectOptionsExcept args [str "-ef", str "-aux"])
    (str "  PID TTY          TIME CMD\n" ++
      str "    1 ?        00:00:00 init\n" ++
      str "  101 pts/0    00:00:00 sh\n" ++
      str "  128 pts/0    00:00:00 ps\n")

def netstat : Report :=
  printUnless (str "netstat") (rejectShortOptions args (str "antulp"))
    (str "Proto Recv-Q Send-Q Local Address           Foreign Address         State       " ++
      str "PID/Program name\n" ++
      str "tcp        0      0 0.0.0.0:22              0.0.0.0:*               LISTEN      " ++
      str "101/sshd\n")

def ss : Report :=
  printUnless (str "ss") (rejectShortOptions args (str "antulp"))
    (str "Netid State  Recv-Q Send-Q Local Address:Port Peer Address:Port Process\n" ++
      str "tcp   LISTEN 0      128          0.0.0.0:22        0.0.0.0:*     " ++
      str "users:(\"sshd\",pid=101,fd=3)\n")

def ip : Report :=
  printUnless (str "ip") (args.find? isOption)
    (str "1: lo: <LOOPBACK,UP,LOWER_UP> mtu 65536 qdisc noqueue state UNKNOWN group default\n" ++
      str "    inet 127.0.0.1/8 scope host lo\n" ++
      str "2: eth0: <BROADCAST,MULTICAST,UP,LOWER_UP> mtu 1500 qdisc fq_codel state UP group " ++
      str "default\n" ++
      str "    inet 10.0.0.10/24 brd 10.0.0.255 scope global eth0\n")

def ifconfig : Report :=
  printUnless (str "ifconfig") (rejectOptionsExcept args [])
    (str "eth0: flags=4163<UP,BROADCAST,RUNNING,MULTICAST>  mtu 1500\n" ++
      str "        inet 10.0.0.10  netmask 255.255.255.0  broadcast 10.0.0.255\n" ++
      str "lo: flags=73<UP,LOOPBACK,RUNNING>  mtu 65536\n" ++
      str "        inet 127.0.0.1  netmask 255.0.0.0\n")

def history : Report := printUnless (str "history") (rejectOptionsExcept args []) []

def clear : Report :=
  printUnless (str "clear") (rejectOptionsExcept args []) (str "\x1b[H\x1b[2J")

/-! ## `which` -/

def reconCommandNames : List Bytes :=
  ["cat", "clear", "date", "df", "echo", "env", "exit", "free", "groups", "head", "history",
    "hostname", "id", "ifconfig", "ip", "last", "ls", "netstat", "ps", "pwd", "ss", "stat", "tail",
    "touch", "uname", "uptime", "w", "wc", "which", "who", "whoami"].map str

def binCommandNames : List Bytes :=
  ["cat", "clear", "date", "df", "echo", "hostname", "ls", "pwd", "sh", "touch", "uname"].map str

/-- `knownReconCommandPaths()[name]`. -/
def knownReconCommandPath (name : Bytes) : Option Bytes :=
  if name = str "sh" then some (str "/bin/sh")
  else if name ∈ reconCommandNames then
    some ((if name ∈ binCommandNames then str "/bin/" else str "/usr/bin/") ++ name)
  else none

def which : Report :=
  match rejectOptionsExcept args [] with
  | some opt => rejectUnsupportedOption (str "which") opt
  | none =>
    if args = [] then complain (str "which: missing command") (str "which: missing command")
    else
      let missing := args.filter fun name => (knownReconCommandPath name).isNone
      { errs := missing.map fun name =>
          str "which: no " ++ clipErrorToken name ++ str " in (/bin:/usr/bin)\n"
        out := some (truncateOutput
          ((args.filterMap knownReconCommandPath).flatMap fun p => p ++ [newline]))
        error := missing.head?.map fun name =>
          .failed (str "which: " ++ clipErrorToken name ++ str " not found") }

/-! ## Commands on a file -/

/-- `fakeFileContent`. -/
def fakeFileContent (filePath : Bytes) : Option Bytes :=
  if filePath = str "/etc/hostname" then some (str "fakeshell\n")
  else if filePath = str "/etc/os-release" then
    some (str "NAME=\"FakeShell Linux\"\nPRETTY_NAME=\"FakeShell Linux\"\nID=fakeshell\n")
  else if filePath = str "/etc/passwd" then some (str "root:x:0:0:root:/root:/bin/sh\n")
  else if filePath = str "/proc/version" then
    some (str "Linux version 6.1.0-fakeshell (fakeshell@localhost) #1 SMP PREEMPT_DYNAMIC\n")
  else if filePath = str "/proc/uptime" then some (str "12345.67 89012.34\n")
  else none

structure ReconFile where
  path : Bytes
  content : Bytes
  deriving DecidableEq, Repr

/-- `resolveSingleFakeFile`: the file, or what the command says instead. -/
def resolveSingleFakeFile (cmd : Bytes) : Except Report ReconFile :=
  match args.find? isOption with
  | some opt => .error (rejectUnsupportedOption cmd opt)
  | none =>
    match args with
    | [] => .error (complain (cmd ++ str ": missing file operand")
        (cmd ++ str ": missing file operand"))
    | [arg] =>
      match resolvePath r.currentPWD arg with
      | .error e => .error (complain (cmd ++ str ": " ++ e.text) e.text)
      | .ok resolved =>
        let isADirectory := complain (cmd ++ str ": " ++ resolved ++ str ": Is a directory")
          (cmd ++ str ": " ++ resolved ++ str ": is a directory")
        let missing := complain (cmd ++ str ": " ++ arg ++ str ": No such file or directory")
          (cmd ++ str ": " ++ arg ++ str ": no such file")
        match fakeFileContent resolved with
        | some content => .ok ⟨resolved, content⟩
        | none =>
          match r.rootFS.stat resolved with
          | some .dir => .error isADirectory
          | some .file => .ok ⟨resolved, []⟩
          | none =>
            match lookupDynamicPath r resolved with
            | some de =>
              if de.kind = kindFile then .ok ⟨resolved, []⟩
              else if de.kind = kindDir then .error isADirectory
              else .error missing
            | none => .error missing
    | _ => .error (complain (cmd ++ str ": too many arguments") (cmd ++ str ": too many arguments"))

/-- A command that prints something about one file. -/
def reportFile (file : Except Report ReconFile) (describe : ReconFile → Bytes) : Report :=
  match file with
  | .error report => report
  | .ok f => writeBounded (describe f)

def stat : Report :=
  reportFile (resolveSingleFakeFile r args (str "stat")) fun f =>
    str "  File: " ++ f.path ++ str "\n  Size: " ++ itoa f.content.length ++
      str "\tBlocks: 0\tIO Block: 4096   regular file\nAccess: (0644/-rw-r--r--)\n"

def wc : Report :=
  reportFile (resolveSingleFakeFile r args (str "wc")) fun f =>
    itoa (f.content.count newline) ++ str " " ++ itoa (fieldCount f.content) ++ str " " ++
      itoa f.content.length ++ str " " ++ f.path ++ str "\n"

def cat : Report := reportFile (resolveSingleFakeFile r args (str "cat")) fun f => f.content

def defaultLineCount : Int := 10
def maxLineCount : Int := 100

/-- `parseLineCount`, up to `maxLineCount`. -/
def parseLineCount (cmd raw : Bytes) : Except Bytes Int :=
  match atoi raw with
  | none => .error (cmd ++ str ": invalid line count " ++ clipErrorToken raw)
  | some n =>
    if n < 1 ∨ maxLineCount < n then
      .error (cmd ++ str ": line count out of range " ++ clipErrorToken raw)
    else .ok n

/-- The condition of `parseCompactLineCount` on an option: digits after the `-`. -/
def isCompactLineCount (arg : Bytes) : Bool :=
  decide (1 < arg.length) &&
    (runes (arg.drop 1)).all fun d => decide (0x30 ≤ d.rune) && decide (d.rune ≤ 0x39)

/-- The loop of `parseHeadTailArgs`, with the count and the files so far. -/
def parseHeadTailFrom (cmd : Bytes) :
    Int → List Bytes → List Bytes → Except Report (Int × List Bytes)
  | n, fileArgs, [] => .ok (n, fileArgs)
  | n, fileArgs, arg :: rest =>
    if arg = str "-n" then
      match rest with
      | [] => .error (complain (cmd ++ str ": option requires an argument -- n")
          (cmd ++ str ": option requires an argument -- n"))
      | raw :: rest =>
        match parseLineCount cmd raw with
        | .error e => .error (complain e e)
        | .ok count => parseHeadTailFrom cmd count fileArgs rest
    else if (str "-n").isPrefixOf arg ∧ 2 < arg.length then
      match parseLineCount cmd (trimPrefix (str "-n") arg) with
      | .error e => .error (complain e e)
      | .ok count => parseHeadTailFrom cmd count fileArgs rest
    else if isOption arg then
      if isCompactLineCount arg then
        match parseLineCount cmd (arg.drop 1) with
        | .error e => .error (complain e e)
        | .ok count => parseHeadTailFrom cmd count fileArgs rest
      else .error (rejectUnsupportedOption cmd arg)
    else parseHeadTailFrom cmd n (fileArgs ++ [arg]) rest

/-- `firstLines`. -/
def firstLines (content : Bytes) (n : Int) : Bytes :=
  if n ≤ 0 then [] else ((linesAfter content).take n.toNat).flatten

/-- `lastLines`. -/
def lastLines (content : Bytes) (n : Int) : Bytes :=
  if n ≤ 0 then []
  else ((linesAfter content).drop ((linesAfter content).length - n.toNat)).flatten

/-- `head` and `tail`. -/
def someLines (cmd : Bytes) (choose : Bytes → Int → Bytes) : Report :=
  match parseHeadTailFrom cmd defaultLineCount [] args with
  | .error report => report
  | .ok (n, fileArgs) =>
    reportFile (resolveSingleFakeFile r fileArgs cmd) fun f => choose f.content n

def head : Report := someLines r args (str "head") firstLines

def tail : Report := someLines r args (str "tail") lastLines

end Cmds

/-! ## Dispatch -/

/-- The cases of the switch in `runCmd`. -/
inductive Builtin where
  | ls | pwd | cd | whoami | hostname | echo | touch | exit | uname | env | id | groups | who | w
  | last | uptime | date | df | free | ps | netstat | ss | ip | ifconfig | which | stat | wc | head
  | tail | cat | history | clear
  deriving DecidableEq, Repr

def Builtin.all : List Builtin :=
  [.ls, .pwd, .cd, .whoami, .hostname, .echo, .touch, .exit, .uname, .env, .id, .groups, .who, .w,
    .last, .uptime, .date, .df, .free, .ps, .netstat, .ss, .ip, .ifconfig, .which, .stat, .wc,
    .head, .tail, .cat, .history, .clear]

def Builtin.name : Builtin → Bytes
  | .ls => str "ls"
  | .pwd => str "pwd"
  | .cd => str "cd"
  | .whoami => str "whoami"
  | .hostname => str "hostname"
  | .echo => str "echo"
  | .touch => str "touch"
  | .exit => str "exit"
  | .uname => str "uname"
  | .env => str "env"
  | .id => str "id"
  | .groups => str "groups"
  | .who => str "who"
  | .w => str "w"
  | .last => str "last"
  | .uptime => str "uptime"
  | .date => str "date"
  | .df => str "df"
  | .free => str "free"
  | .ps => str "ps"
  | .netstat => str "netstat"
  | .ss => str "ss"
  | .ip => str "ip"
  | .ifconfig => str "ifconfig"
  | .which => str "which"
  | .stat => str "stat"
  | .wc => str "wc"
  | .head => str "head"
  | .tail => str "tail"
  | .cat => str "cat"
  | .history => str "history"
  | .clear => str "clear"

variable (r : CommandRunner) (args : List Bytes)

def Builtin.run (lib : StdLib) (around : Surroundings) : Builtin → CommandRunner × Report
  | .ls => (r, Cmds.ls r args)
  | .pwd => (r, Cmds.pwd r)
  | .cd => Cmds.cd r args
  | .whoami => (r, Cmds.whoami r)
  | .hostname => (r, Cmds.hostname r)
  | .echo => (r, Cmds.echo args)
  | .touch => Cmds.touch r args lib around.ranAt
  | .exit => (r, Cmds.exit)
  | .uname => (r, Cmds.uname r)
  | .env => (r, Cmds.env r around.iterate)
  | .id => (r, Cmds.id r args)
  | .groups => (r, Cmds.groups r args)
  | .who => (r, Cmds.who r args)
  | .w => (r, Cmds.w r args)
  | .last => (r, Cmds.last r args)
  | .uptime => (r, Cmds.uptime args)
  | .date => (r, Cmds.date args)
  | .df => (r, Cmds.df args)
  | .free => (r, Cmds.free args)
  | .ps => (r, Cmds.ps args)
  | .netstat => (r, Cmds.netstat args)
  | .ss => (r, Cmds.ss args)
  | .ip => (r, Cmds.ip args)
  | .ifconfig => (r, Cmds.ifconfig args)
  | .which => (r, Cmds.which args)
  | .stat => (r, Cmds.stat r args)
  | .wc => (r, Cmds.wc r args)
  | .head => (r, Cmds.head r args)
  | .tail => (r, Cmds.tail r args)
  | .cat => (r, Cmds.cat r args)
  | .history => (r, Cmds.history args)
  | .clear => (r, Cmds.clear args)

/-- The regular expression of `PathPatt`, `^\.>\.?/`. -/
def matchesPathPatt (name : Bytes) : Bool :=
  (str ".>/").isPrefixOf name || (str ".>./").isPrefixOf name

/-- `runCmd`: the message, the runner after the command, and its report. -/
def runCmd (lib : StdLib) (around : Surroundings) (name : Bytes) : Bytes × CommandRunner × Report :=
  match Builtin.all.find? fun b => b.name = name with
  | some b => ([], b.run r args lib around)
  | none =>
    if matchesPathPatt name then
      (str "permission denied: " ++ name, r,
        { error := some (.failed (str "failed to execute relastfile")) })
    else
      (str "unknown command: " ++ name, r, { error := some (.failed (str "unknown command")) })

end FakeSSH.Shell
