import FakeSSH.Go.Path

/-!
# Paths in the fake root (`cmds/path.go`)

`resolvePath` turns an argument into an absolute path. It checks the bytes of the
argument, joins it to the working directory unless it is absolute, refuses a `..`
anywhere in the result and cleans what is left. The working directory's own bytes
are not checked.
-/

namespace FakeSSH.Shell

open FakeSSH.Go

/-- The reasons `ResolvePath` refuses a path. -/
inductive PathError where
  | control (index : Nat)
  | backslash
  | colon
  | dotdot
  | escapes
  deriving DecidableEq, Repr

def PathError.text : PathError → Bytes
  | .control i => str "path: control character at index " ++ str (toString i)
  | .backslash => str "path: backslash not allowed"
  | .colon => str "path: colon not allowed"
  | .dotdot => str "path: \"..\" segment not allowed"
  | .escapes => str "path: resolved path escapes root"

/-- The loop of `validatePathChars`, at index `i`. -/
def validateCharsFrom : Nat → Bytes → Except PathError Unit
  | _, [] => .ok ()
  | i, b :: rest =>
    if b < 0x20 ∨ b = 0x7F then .error (.control i)
    else if b = Go.backslash then .error .backslash
    else if b = Go.colon then .error .colon
    else validateCharsFrom (i + 1) rest

def validatePathChars (s : Bytes) : Except PathError Unit := validateCharsFrom 0 s

def joinPosix (cwd arg : Bytes) : Bytes :=
  let cwd := if cwd = [] then [slash] else cwd
  if cwd.getLast? = some slash then cwd ++ arg else cwd ++ slash :: arg

/-- What `ResolvePath` cleans: an absolute argument alone, or the argument in the
working directory. -/
def joined (cwd arg : Bytes) : Bytes := if arg.head? = some slash then arg else joinPosix cwd arg

/-- `ResolvePath`. -/
def resolvePath (cwd arg : Bytes) : Except PathError Bytes := do
  validatePathChars arg
  if Go.dotdot ∈ components (joined cwd arg) then .error .dotdot
  else
    let cleaned := clean (joined cwd arg)
    if cleaned = dot ∨ cleaned = [] then .ok [slash]
    else
      let cleaned := if cleaned.head? = some slash then cleaned else slash :: cleaned
      if (str "../").isPrefixOf cleaned ∨ cleaned = Go.dotdot then .error .escapes
      else .ok cleaned

end FakeSSH.Shell
