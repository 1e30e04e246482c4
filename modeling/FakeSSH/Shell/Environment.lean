import FakeSSH.Conf.Options
import FakeSSH.Go.Capitals
import FakeSSH.Shell.Runner

/-!
# The first environment of a session (`conf/config.go`, `cmds/types.go`)

`EnvConfig.CheckAndFill` merges the configured variables into the generated ones, and
`NewEnvMap` files the result by names in capitals. The loops range over Go maps. In
which order a map is met is the runtime's choice, each time anew; here an order is an
argument, and `Starts` lets it be any permutation of the entries.
-/

namespace FakeSSH.Conf

open FakeSSH.Go

/-- The variables of a map, in the order in which a loop meets them. -/
abbrev EnvOrder := List (Σ _ : Bytes, Bytes)

namespace EnvConfig

variable (t : CapitalTable) (c : EnvConfig)

def fillHome : EnvConfig :=
  if c.home = [] then
    { c with home := if c.user = str "root" then str "/root" else str "/home/" ++ c.user }
  else c

def defaultEnv : Map Bytes :=
  [⟨str "USER", c.user⟩, ⟨str "HOME", c.home⟩, ⟨str "NAME", c.hostName⟩,
    ⟨str "PWD", c.home⟩].toAList

/-- The body of the loop over `c.Envs`. -/
def mergeEnv (envs : Map Bytes) (e : Σ _ : Bytes, Bytes) : Map Bytes :=
  let upper := t.toUpper e.1
  let rest := if (envs.lookup upper).isSome then envs.erase upper else envs
  rest.insert e.1 e.2

/-- `EnvConfig.CheckAndFill`, which has no error to return. `maps.Copy` meets the defaults
in the order `copied`, and the loop meets `c.Envs` in the order `ranged`. A nil map is
the empty one. -/
def checkAndFill (copied ranged : EnvOrder) : EnvConfig :=
  let c := c.fillHome
  if c.generateEnv then
    let envs := copied.foldl (fun envs e => envs.insert e.1 e.2) ∅
    { c with envs := ranged.foldl (mergeEnv t) envs }
  else c

end EnvConfig

end FakeSSH.Conf

namespace FakeSSH.Shell

open FakeSSH.Go FakeSSH.Lib FakeSSH.Conf

variable (t : CapitalTable)

/-- `NewEnvMap`. -/
def newEnvMap (stored : EnvOrder) : EnvMap :=
  stored.foldl (fun envs e => envs.insert (t.toUpper e.1) ⟨e.1, e.2⟩) ∅

/-- `NewCommandRunner`, with the order in which `NewEnvMap` meets `c.Envs`. -/
def newCommandRunner (c : EnvConfig) (stored : EnvOrder) : CommandRunner where
  user := c.user
  os := c.os
  hostName := c.hostName
  kernel := c.kernel
  env := newEnvMap t stored
  tempEnv := newEnvMap t []

/-- `GetEnv` of any name, in ASCII or not. -/
def CommandRunner.getEnvBy (r : CommandRunner) (key : Bytes) : Bytes :=
  let key := t.toUpper key
  match r.tempEnv.lookup key with
  | some v => v.value
  | none =>
    match r.env.lookup key with
    | some v => v.value
    | none => []

/-- The runners that a configuration can lead to. -/
inductive Starts (c : EnvConfig) : CommandRunner → Prop
  | new {copied ranged stored : EnvOrder}
      (copies : copied.Perm c.fillHome.defaultEnv.entries)
      (ranges : ranged.Perm c.envs.entries)
      (stores : stored.Perm (c.checkAndFill t copied ranged).envs.entries) :
      Starts c (newCommandRunner t (c.checkAndFill t copied ranged) stored)

end FakeSSH.Shell
