import FakeSSH.Go.Strings

/-!
# Command separators (`input.go`)

`findCommandSeparator` looks for the end of the first command in what has been
read: a newline, or a `;` that is not quoted, escaped or in a comment. A newline
ends a command even in an open quote and after a backslash.
-/

namespace FakeSSH.Shell

open FakeSSH.Go

def maxInputLineBytes : Nat := 4096
def maxInputTokenBytes : Nat := 1024
def maxInputArgs : Nat := 64
def maxCommandsPerReadCycle : Nat := 64

def singleQuote : UInt8 := 0x27
def doubleQuote : UInt8 := 0x22
def semicolon : UInt8 := 0x3B
def numberSign : UInt8 := 0x23
def ampersand : UInt8 := 0x26
def verticalBar : UInt8 := 0x7C
def lessThan : UInt8 := 0x3C
def greaterThan : UInt8 := 0x3E

/-- Space, tab, carriage return, form feed and vertical tab. -/
def isShellSpace (c : UInt8) : Bool :=
  c == 0x20 || c == 0x09 || c == 0x0D || c == 0x0C || c == 0x0B

def isSyntaxOperatorStart (c : UInt8) : Bool :=
  c == ampersand || c == verticalBar || c == lessThan || c == greaterThan

/-- The variable `quote` of `findCommandSeparator`. -/
inductive Quote where
  | noQuote
  | single
  | double
  deriving DecidableEq, Repr

/-- The loop of `findCommandSeparator`: the index within what is left. A
backslash takes the byte after it along, unless that is a newline. -/
def findSeparatorFrom : Quote → Bool → Bytes → Option Nat
  | _, _, [] => none
  | quote, tokenStart, c :: rest =>
    if c = newline then some 0
    else match quote with
      | .noQuote =>
        if c = backslash then
          match rest with
          | [] => none
          | e :: rest =>
            if e = newline then some 1 else (findSeparatorFrom .noQuote false rest).map (· + 2)
        else if c = singleQuote then (findSeparatorFrom .single false rest).map (· + 1)
        else if c = doubleQuote then (findSeparatorFrom .double false rest).map (· + 1)
        else if c = numberSign then
          if tokenStart then (rest.findIdx? (· = newline)).map (· + 1)
          else (findSeparatorFrom .noQuote tokenStart rest).map (· + 1)
        else if c = semicolon then some 0
        else
          (findSeparatorFrom .noQuote (isShellSpace c || isSyntaxOperatorStart c) rest).map (· + 1)
      | .single =>
        (findSeparatorFrom (if c = singleQuote then .noQuote else .single) tokenStart rest).map (· + 1)
      | .double =>
        if c = backslash then
          match rest with
          | [] => none
          | e :: rest =>
            if e = newline then some 1 else (findSeparatorFrom .double tokenStart rest).map (· + 2)
        else
          (findSeparatorFrom (if c = doubleQuote then .noQuote else .double) tokenStart rest).map
            (· + 1)

/-- `findCommandSeparator`, `none` for its `(0, false)`. -/
def findCommandSeparator (buf : Bytes) : Option Nat := findSeparatorFrom .noQuote true buf

/-- `consumePhysicalInputLine`: the bytes to drop, and whether they are a whole
line. -/
def consumePhysicalInputLine (buf : Bytes) : Nat × Bool :=
  match buf.findIdx? (· = newline) with
  | some i => (i + 1, true)
  | none => (buf.length, false)

end FakeSSH.Shell
