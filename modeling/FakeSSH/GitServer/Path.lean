import FakeSSH.Go.Path

/-!
# Repository paths (`modules/gitserver/path.go`)

`normalizeRepoPath` canonicalizes a repository path that a configuration or a
client supplied. A raw `..` component is refused before `path.Clean` could
collapse it; `.` and empty components are collapsed; what survives is checked
again component by component.
-/

namespace FakeSSH.GitServer

open FakeSSH.Go

/-- The reasons `NormalizeRepoPath` refuses a path. -/
inductive PathError where
  | empty
  | backslash
  | colon
  | traversal
  | emptyOrTraversal
  | emptyOrTraversalSegments
  | invalidSegment (seg : Bytes)
  deriving DecidableEq, Repr

/-- The error's text. -/
def PathError.text : PathError → Bytes
  | .empty => str "repository path cannot be empty"
  | .backslash => str "repository path cannot contain backslash"
  | .colon => str "repository path cannot contain colon"
  | .traversal => str "repository path cannot contain traversal segment"
  | .emptyOrTraversal => str "repository path cannot be empty or traversal"
  | .emptyOrTraversalSegments => str "repository path cannot contain empty or traversal segments"
  | .invalidSegment seg => str "repository path contains invalid segment: " ++ seg

/-- The character class of `repoSegmentPattern`, `[A-Za-z0-9._@+-]`. -/
def repoSegmentChar (b : UInt8) : Bool :=
  (decide (0x41 ≤ b) && decide (b ≤ 0x5A)) || (decide (0x61 ≤ b) && decide (b ≤ 0x7A)) ||
    (decide (0x30 ≤ b) && decide (b ≤ 0x39)) || (str "._@+-").contains b

/-- `repoSegmentPattern.MatchString`: one or more characters of the class, and
nothing else. -/
def repoSegmentPattern (seg : Bytes) : Bool := !seg.isEmpty && seg.all repoSegmentChar

/-- The final loop of `NormalizeRepoPath`, over the cleaned path's segments. -/
def checkSegments : List Bytes → Except PathError Unit
  | [] => .ok ()
  | seg :: rest =>
    if seg = [] ∨ seg = dot ∨ seg = dotdot then .error .emptyOrTraversalSegments
    else if repoSegmentPattern seg then checkSegments rest
    else .error (.invalidSegment seg)

/-- `NormalizeRepoPath`. -/
def normalizeRepoPath (repo : Bytes) : Except PathError Bytes :=
  if repo = [] then .error .empty
  else if backslash ∈ repo then .error .backslash
  else if colon ∈ repo then .error .colon
  else
    -- one leading slash only: `//a` keeps a slash and fails in `checkSegments`
    let repo := trimPrefix (str "/") repo
    if dotdot ∈ components repo then .error .traversal
    else
      let cleaned := clean repo
      if cleaned = [] ∨ cleaned = dot ∨ cleaned = dotdot then .error .emptyOrTraversal
      else do
        checkSegments (components cleaned)
        .ok cleaned

end FakeSSH.GitServer
