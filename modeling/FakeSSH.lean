import FakeSSH.Go.Strings
import FakeSSH.Go.Errors
import FakeSSH.Go.Path
import FakeSSH.GitServer.Path
import FakeSSH.GitServer.Config
import FakeSSH.GitServer.Request
import FakeSSH.Laws.GitServer.Path
import FakeSSH.Laws.GitServer.Config
import FakeSSH.Laws.GitServer.Authorization
import FakeSSH.Lib.Transition
import FakeSSH.Lib.Log
import FakeSSH.GitServer.Lifecycle
import FakeSSH.Laws.GitServer.Lifecycle
import FakeSSH.Lib.Interleave
import FakeSSH.GitServer.Slots
import FakeSSH.Laws.GitServer.Slots
import FakeSSH.Go.Runes
import FakeSSH.Laws.GitServer.Spelling
import FakeSSH.GitServer.Session
import FakeSSH.Laws.GitServer.Session
import FakeSSH.Go.Filepath
import FakeSSH.GitServer.Local
import FakeSSH.Laws.GitServer.Local
import FakeSSH.GitServer.Keys
import FakeSSH.Laws.GitServer.Keys
import FakeSSH.Lib.TokenBucket
import FakeSSH.Main.Rate
import FakeSSH.Laws.Main.Rate
import FakeSSH.Laws.Main.Refund
import FakeSSH.Laws.Main.Cleanup
import FakeSSH.Main.Connections
import FakeSSH.Laws.Main.Connections
import FakeSSH.Lib.Scanner
import FakeSSH.Shell.Input
import FakeSSH.Shell.Syntax
import FakeSSH.Laws.Shell.Separator
import FakeSSH.Laws.Shell.Fuel
import FakeSSH.Laws.Shell.Tokenizer
import FakeSSH.Shell.Loop
import FakeSSH.Laws.Shell.Reading
import FakeSSH.Laws.Shell.Turns
import FakeSSH.Laws.Shell.Following
import FakeSSH.Laws.Shell.Chunking
import FakeSSH.Laws.Shell.Lines
import FakeSSH.Shell.Paths
import FakeSSH.Laws.Shell.Paths
import FakeSSH.Lib.OrderedMap
import FakeSSH.Shell.Dynamic
import FakeSSH.Laws.Shell.Dynamic
import FakeSSH.Shell.Logging
import FakeSSH.Laws.Shell.Logging
import FakeSSH.Lib.BackScan
import FakeSSH.Shell.Zip
import FakeSSH.Laws.Shell.Zip
import FakeSSH.Lib.Framing
import FakeSSH.Laws.Shell.ZipDirectory
import FakeSSH.Lib.Watched
import FakeSSH.Shell.RootFS
import FakeSSH.Laws.Shell.RootFS
import FakeSSH.Shell.RootFSHost
import FakeSSH.Lib.Delivery
import FakeSSH.Shell.TarStream
import FakeSSH.Laws.Shell.TarStream
import FakeSSH.Lib.Journal
import FakeSSH.Go.Match
import FakeSSH.Go.Glob
import FakeSSH.Go.GlobMatch
import FakeSSH.Shell.Runner
import FakeSSH.Shell.Expand
import FakeSSH.Shell.Redirect
import FakeSSH.Go.Format
import FakeSSH.Shell.Builtins
import FakeSSH.Shell.Execute
import FakeSSH.Laws.Shell.Expand
import FakeSSH.Laws.Shell.Redirect
import FakeSSH.Laws.Shell.Execute
import FakeSSH.Laws.Shell.SessionEnv
import FakeSSH.Laws.Shell.Closing
import FakeSSH.Laws.Shell.Atomic
import FakeSSH.Lib.Cut
import FakeSSH.Laws.Shell.Grammar
import FakeSSH.Conf.Options
import FakeSSH.Laws.Conf.Options
import FakeSSH.Lib.Compact
import FakeSSH.Laws.Shell.Children
import FakeSSH.Laws.Shell.RootFSHost
import FakeSSH.Laws.Shell.Glob
import FakeSSH.Lib.Runs
import FakeSSH.Laws.Shell.Pieces
import FakeSSH.Laws.Shell.Quoting
import FakeSSH.Lib.Transducer
import FakeSSH.Laws.Shell.Boundaries
import FakeSSH.Laws.Shell.Output
import FakeSSH.Laws.Shell.Listing
import FakeSSH.Laws.Shell.Assignments
import FakeSSH.Laws.Shell.Accounting
import FakeSSH.Ssh.Version
import FakeSSH.Laws.Ssh.Version
import FakeSSH.Lib.Draw
import FakeSSH.Laws.Main.Admission
import FakeSSH.Lib.Utf8
import FakeSSH.Laws.Shell.Truncation
import FakeSSH.Lib.Iteration
import FakeSSH.Go.Encoding
import FakeSSH.Go.Capitals
import FakeSSH.Shell.Environment
import FakeSSH.Laws.Shell.Environment
import FakeSSH.Lib.BigEndian
import FakeSSH.Ssh.Messages
import FakeSSH.Laws.Ssh.Messages
import FakeSSH.Lib.Weight
import FakeSSH.Ssh.Channel
import FakeSSH.Laws.Ssh.Channel
import FakeSSH.Lib.CreditFlow
import FakeSSH.Laws.Ssh.Flow
import FakeSSH.Laws.Ssh.Link
import FakeSSH.Lib.Traced
import FakeSSH.Ssh.Auth
import FakeSSH.Laws.Ssh.Auth
import FakeSSH.Laws.GitServer.Callback
import FakeSSH.Go.Float64
import FakeSSH.Main.Auth
import FakeSSH.Laws.Main.Auth
import FakeSSH.Go.Crypto
import FakeSSH.Go.ChaCha20
import FakeSSH.Ssh.Cipher
import FakeSSH.Laws.Ssh.Cipher
import FakeSSH.Laws.Ssh.Answers
import FakeSSH.Lib.Pipe
import FakeSSH.Ssh.Transport
import FakeSSH.Laws.Ssh.Transport
