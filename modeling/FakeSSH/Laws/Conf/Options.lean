import FakeSSH.Conf.Options
import FakeSSH.Laws.GitServer.Config
import Mathlib.Data.List.Induction

/-!
# Options and files mean the same

An option for one of the five fields acts as if the file had given its last value
(`UserKey` names the fields). A loop over options leaves each field at its last value
and its flag set, so the comparison with the file is one comparison for each derived
field: `rederived` for a field whose derivation keeps the empty string, and
`rederived_iff` for the authorized keys, where it does not.
-/

namespace FakeSSH.Conf

open FakeSSH.Go FakeSSH.GitServer

variable {t : CaseTable}

/-! ## The loop over options -/

/-- The option that sets a field. -/
def optionText (k : UserKey) (value : Bytes) : Bytes :=
  str "gitserver." ++ k.name ++ equalsSign :: value

/-- The options of a command line, over the five fields. -/
abbrev Settings := List (UserKey × Bytes)

/-- The last value that the options give a field. -/
def Settings.last (settings : Settings) (k : UserKey) : Option Bytes :=
  settings.foldl (fun last kv => if kv.1 = k then some (trimSpace kv.2) else last) none

theorem parseOpt_optionText (k : UserKey) (value : Bytes) :
    parseOpt (optionText k value) = .ok ⟨str "gitserver", k.name, trimSpace value⟩ := by
  cases k <;> rfl

theorem GitserverKey.read_name (k : UserKey) : GitserverKey.read t k.name = some (.field k) := by
  cases k <;> rfl

theorem OptionState.note_name (s : OptionState) (k : UserKey) : s.note t k.name = s.noteKey k := by
  cases k <;> rfl

theorem mergeOption_optionText (now : AppConfig × OptionState) (k : UserKey) (value : Bytes) :
    mergeOption t now (optionText k value) =
      .ok ({ now.1 with gitServer := k.set now.1.gitServer (trimSpace value) },
        now.2.noteKey k) := by
  unfold mergeOption
  rw [parseOpt_optionText]
  dsimp only
  rw [if_neg (by decide), if_pos rfl]
  have set : mergeGitserver t now.1.gitServer ⟨str "gitserver", k.name, trimSpace value⟩ =
      some (k.set now.1.gitServer (trimSpace value)) := by
    have gitserver : t.toLower (str "gitserver") = str "gitserver" := rfl
    simp only [mergeGitserver, gitserver, ne_eq, not_true_eq_false, if_false,
      GitserverKey.read_name, Option.bind_some, GitserverKey.set]
  rw [set, OptionState.note_name]

/-- The fields, each at its last value. -/
def override (last : UserKey → Option Bytes) (c : Config) : Config :=
  { c with
    user := (last .user).getD c.user
    sshUser := (last .sshUser).getD c.sshUser
    gitUserHome := (last .gitUserHome).getD c.gitUserHome
    repoRoot := (last .repoRoot).getD c.repoRoot
    authorizedKeys := (last .authorizedKeys).getD c.authorizedKeys }

/-- The flags, those of the fields with a value set. -/
def OptionState.noted (last : UserKey → Option Bytes) (s : OptionState) : OptionState :=
  { s with
    userSet := s.userSet || (last .user).isSome
    gitUserHomeSet := s.gitUserHomeSet || (last .gitUserHome).isSome
    sshUserSet := s.sshUserSet || (last .sshUser).isSome
    repoRootSet := s.repoRootSet || (last .repoRoot).isSome
    authorizedKeysSet := s.authorizedKeysSet || (last .authorizedKeys).isSome }

theorem Settings.last_concat (settings : Settings) (k : UserKey) (value : Bytes) :
    Settings.last (settings ++ [(k, value)]) =
      Function.update settings.last k (some (trimSpace value)) := by
  funext j
  rw [Settings.last, List.foldl_append, Function.update_apply, List.foldl_cons, List.foldl_nil]
  exact if_congr eq_comm rfl rfl

theorem override_update (last : UserKey → Option Bytes) (c : Config) (k : UserKey) (v : Bytes) :
    k.set (override last c) v = override (Function.update last k (some v)) c := by
  cases k <;> rfl

theorem OptionState.noted_update (last : UserKey → Option Bytes) (s : OptionState) (k : UserKey)
    (v : Bytes) : (s.noted last).noteKey k = s.noted (Function.update last k (some v)) := by
  cases k <;> simp [OptionState.noted, OptionState.noteKey]

/-- What the loop leaves behind. -/
theorem foldlM_mergeOption (settings : Settings) (c : AppConfig) (s : OptionState) :
    (settings.map fun kv => optionText kv.1 kv.2).foldlM (mergeOption t) (c, s) =
      .ok ({ c with gitServer := override settings.last c.gitServer }, s.noted settings.last) := by
  induction settings using List.reverseRecOn with
  | nil =>
    have flags : s.noted (Settings.last []) = s := by
      simp [OptionState.noted, Settings.last]
    rw [flags]
    rfl
  | append_singleton settings kv ih =>
    rw [List.map_append, List.foldlM_append, ih, List.map_singleton]
    show (List.foldlM (mergeOption t) _ [optionText kv.1 kv.2]) = _
    rw [List.foldlM_cons, mergeOption_optionText, Settings.last_concat settings kv.1 kv.2,
      ← override_update, ← OptionState.noted_update]
    rfl

/-! ## Derived fields -/

theorem orDefault_getD (set : Option Bytes) (own dflt : Bytes) :
    orDefault (set.getD (orDefault own dflt)) dflt = orDefault (set.getD own) dflt := by
  cases set with
  | none =>
    show orDefault (orDefault own dflt) dflt = orDefault own dflt
    unfold orDefault
    split <;> simp [*]
  | some v => rfl

theorem orDefault_self (own dflt : Bytes) :
    orDefault (orDefault own dflt) dflt = orDefault own dflt :=
  orDefault_getD none own dflt

/-- A derived field after the options, and as the file alone would give it. `base` is
what it is derived from; `set` and `baseSet` are the options' last values. They differ
exactly when the options empty the base and the derivation makes something of it. -/
theorem rederived_iff (derive : Bytes → Bytes) (set baseSet : Option Bytes)
    (own base dflt : Bytes) :
    let base₁ := orDefault base dflt
    let own₁ := orDefault own (derive base₁)
    orDefault
        (if baseSet.isSome && !(decide (own ≠ []) || set.isSome) &&
            (own₁ == [] || own₁ == derive base₁) then derive (baseSet.getD base₁)
          else set.getD own₁)
        (derive (orDefault (baseSet.getD base) dflt)) =
      orDefault (set.getD own) (derive (orDefault (baseSet.getD base) dflt)) ↔
    ¬ (baseSet = some [] ∧ set = none ∧ own = [] ∧ derive [] ≠ [] ∧ derive [] ≠ derive dflt) := by
  intro base₁ own₁
  cases set with
  | some v => simp
  | none =>
    by_cases given : own = []
    · have first : own₁ = derive base₁ := by simp only [own₁, orDefault, if_pos given]
      rw [first, given]
      cases baseSet with
      | none => simp [orDefault, base₁]
      | some v =>
        by_cases empty : v = []
        · rw [empty]
          by_cases nothing : derive [] = []
          · simp [orDefault, nothing]
          · simp [orDefault, nothing]
        · simp [orDefault, empty]
    · have first : own₁ = own := by simp only [own₁, orDefault, if_neg given]
      simp [first, given]

/-! ## The two configurations -/

def UserKey.get (k : UserKey) (c : Config) : Bytes :=
  match k with
  | .user => c.user
  | .sshUser => c.sshUser
  | .gitUserHome => c.gitUserHome
  | .repoRoot => c.repoRoot
  | .authorizedKeys => c.authorizedKeys

/-- The document with each field that has an option set to its last value. -/
def Document.with (d : Document) (settings : Settings) : Document :=
  { d with field := fun k => (settings.last k).or (d.field k) }

theorem Document.gitServer_with (d : Document) (settings : Settings) :
    (d.with settings).gitServer = override settings.last d.gitServer := by
  have given (k : UserKey) : ((settings.last k).or (d.field k)).getD [] =
      (settings.last k).getD ((d.field k).getD []) := by
    cases settings.last k <;> rfl
  simp only [Document.gitServer, Document.with, override, given]

theorem any_ne_nil (field : Option Bytes) :
    field.any (· ≠ []) = decide (field.getD [] ≠ []) := by
  cases field <;> simp

theorem fillDefault_self (c : Config) : c.fillDefault.fillDefault = c.fillDefault := by
  by_cases negative : c.maxGitShellProcesses < 0
  · simp only [Config.fillDefault, orDefault_self, if_pos negative, Int.lt_irrefl, if_false]
  · simp only [Config.fillDefault, orDefault_self, if_neg negative]

/-- What the options make of a document's configuration, before it is checked. -/
def merged (d : Document) (settings : Settings) : Config :=
  ((newGitserverOptionState d.gitServer.fillDefault d.state).noted settings.last).apply
    (override settings.last d.gitServer.fillDefault)

theorem mergeConfig_parseConfig (d : Document) (settings : Settings) :
    mergeConfig t (parseConfig d) (settings.map fun kv => optionText kv.1 kv.2) =
      .ok { parseConfig d with gitServer := merged d settings } := by
  unfold mergeConfig
  rw [foldlM_mergeOption]
  rfl

/-- The options empty the git user's home, and nothing gives the authorized keys. -/
def HomeEmptied (d : Document) (settings : Settings) : Prop :=
  settings.last .gitUserHome = some [] ∧ settings.last .authorizedKeys = none ∧
    (d.field .authorizedKeys).getD [] = []

instance (d : Document) (settings : Settings) : Decidable (HomeEmptied d settings) :=
  inferInstanceAs (Decidable (_ ∧ _ ∧ _))

theorem merged_authorizedKeys (d : Document) (settings : Settings) :
    (merged d settings).fillDefault.authorizedKeys =
        (override settings.last d.gitServer).fillDefault.authorizedKeys ↔
      ¬ HomeEmptied d settings := by
  have law := rederived_iff authorizedKeysIn (settings.last .authorizedKeys)
    (settings.last .gitUserHome) ((d.field .authorizedKeys).getD [])
    ((d.field .gitUserHome).getD []) (str "/home/git")
  have filled : authorizedKeysIn [] ≠ [] ∧
      authorizedKeysIn [] ≠ authorizedKeysIn (str "/home/git") := by decide
  rw [and_iff_left filled] at law
  refine Iff.trans ?_ law
  simp only [merged, OptionState.apply, OptionState.noted, newGitserverOptionState, Document.state,
    any_ne_nil, override, Config.fillDefault, orDefault_getD, Bool.false_or]
  rfl

/-- All other fields are what the file would give them. -/
theorem merged_get (d : Document) (settings : Settings) {k : UserKey}
    (other : k ≠ .authorizedKeys) :
    k.get (merged d settings).fillDefault =
      k.get (override settings.last d.gitServer).fillDefault := by
  cases k with
  | user => exact orDefault_getD _ _ _
  | gitUserHome => exact orDefault_getD _ _ _
  | sshUser =>
    have law := (rederived_iff id (settings.last .sshUser) (settings.last .user)
      ((d.field .sshUser).getD []) ((d.field .user).getD []) (str "git")).mpr (by simp)
    simp only [UserKey.get, merged, OptionState.apply, OptionState.noted, newGitserverOptionState,
      Document.state, any_ne_nil, override, Config.fillDefault, orDefault_getD, Bool.false_or]
    exact law
  | repoRoot =>
    have law := (rederived_iff id (settings.last .repoRoot) (settings.last .gitUserHome)
      ((d.field .repoRoot).getD []) ((d.field .gitUserHome).getD []) (str "/home/git")).mpr
        (by simp)
    simp only [UserKey.get, merged, OptionState.apply, OptionState.noted, newGitserverOptionState,
      Document.state, any_ne_nil, override, Config.fillDefault, orDefault_getD, Bool.false_or]
    exact law
  | authorizedKeys => exact absurd rfl other

theorem merged_fillDefault (d : Document) (settings : Settings) :
    (merged d settings).fillDefault =
      { (override settings.last d.gitServer).fillDefault with
        authorizedKeys := (merged d settings).fillDefault.authorizedKeys } := by
  have user := merged_get d settings (k := .user) (by decide)
  have sshUser := merged_get d settings (k := .sshUser) (by decide)
  have gitUserHome := merged_get d settings (k := .gitUserHome) (by decide)
  have repoRoot := merged_get d settings (k := .repoRoot) (by decide)
  -- what no option of the five touches was filled when the file was read
  have again := fillDefault_self d.gitServer
  have gitShell := congrArg Config.gitShell again
  have processes := congrArg Config.maxGitShellProcesses again
  have backend := congrArg Config.backend again
  exact (Config.mk.injEq ..).mpr ⟨rfl, user, rfl, sshUser, gitShell, gitUserHome, rfl, rfl,
    processes, rfl, backend, repoRoot, rfl, rfl⟩

/-! ## Checking -/

theorem checkBackend_authorizedKeys (c : Config) (keys : Bytes) :
    ({ c with authorizedKeys := keys } : Config).checkBackend =
      c.checkBackend.map fun c => { c with authorizedKeys := keys } := by
  unfold Config.checkBackend
  dsimp only
  split
  · split
    · rfl
    · split <;> rfl
  · split
    · cases rejectUnsafeLocalPath (str "repo_root") c.repoRoot with
      | error e => rfl
      | ok _ => cases rejectUnsafeLocalPath (str "git_user_home") c.gitUserHome <;> rfl
    · rfl

/-- The check does not read the authorized keys. -/
theorem checkAndFillConfig_authorizedKeys {c c' : Config} {keys : Bytes}
    (h : c.fillDefault = { c'.fillDefault with authorizedKeys := keys }) :
    checkAndFillConfig c =
      (checkAndFillConfig c').map fun m => { m with authorizedKeys := keys } := by
  unfold checkAndFillConfig
  rw [h, checkBackend_authorizedKeys]
  cases c'.fillDefault.checkBackend with
  | error e => rfl
  | ok checked =>
    have filled (rs : Except ConfigError (List RepositoryConfig)) :
        (rs >>= fun repositories =>
          Except.ok { checked with authorizedKeys := keys, repositories }) =
        (rs >>= fun repositories => Except.ok { checked with repositories }).map
          fun m => { m with authorizedKeys := keys } := by
      cases rs <;> rfl
    exact filled _

/-- The check changes none of the five fields once they are filled. -/
theorem checkAndFillConfig_get {c o : Config} (h : checkAndFillConfig c = .ok o) (k : UserKey) :
    k.get o = k.get c.fillDefault := by
  obtain ⟨checked, hchecked, h⟩ := bind_eq_ok.mp h
  obtain ⟨repositories, -, h⟩ := bind_eq_ok.mp h
  cases h
  have kept : k.get checked = k.get c.fillDefault := by
    unfold Config.checkBackend at hchecked
    split at hchecked
    · split at hchecked
      · cases hchecked
      · split at hchecked <;> cases hchecked <;> rfl
    · split at hchecked
      · obtain ⟨_, -, hchecked⟩ := bind_eq_ok.mp hchecked
        obtain ⟨_, -, hchecked⟩ := bind_eq_ok.mp hchecked
        cases hchecked
        rfl
      · cases hchecked
  rw [← kept]
  cases k <;> rfl

/-- OPTIONS AND FILES. Merging options for the five fields into a file's configuration
gives what the file with their last values in it gives: the check refuses both or
neither, for one reason, and the fields it leaves are the same exactly when the options
do not empty the home while nothing gives the authorized keys. -/
theorem options_mean_toml (t : CaseTable) (d : Document) (settings : Settings) :
    ∃ c, mergeConfig t (parseConfig d) (settings.map fun kv => optionText kv.1 kv.2) = .ok c ∧
      (∀ e, checkAndFillConfig c.gitServer = .error e ↔
        checkAndFillConfig (parseConfig (d.with settings)).gitServer = .error e) ∧
      ∀ m, checkAndFillConfig (parseConfig (d.with settings)).gitServer = .ok m →
        ∃ o, checkAndFillConfig c.gitServer = .ok o ∧
          ((∀ k : UserKey, k.get o = k.get m) ↔ ¬ HomeEmptied d settings) := by
  refine ⟨_, mergeConfig_parseConfig d settings, ?_⟩
  have file : (parseConfig (d.with settings)).gitServer.fillDefault =
      (override settings.last d.gitServer).fillDefault := by
    show (d.with settings).gitServer.fillDefault.fillDefault = _
    rw [fillDefault_self, d.gitServer_with]
  have filled : (merged d settings).fillDefault =
      { (parseConfig (d.with settings)).gitServer.fillDefault with
        authorizedKeys := (merged d settings).fillDefault.authorizedKeys } := by
    rw [file]
    exact merged_fillDefault d settings
  have checked := checkAndFillConfig_authorizedKeys filled
  dsimp only
  refine ⟨fun e => ?_, fun m hm => ?_⟩
  · rw [checked]
    cases checkAndFillConfig (parseConfig (d.with settings)).gitServer with
    | error e' => exact ⟨fun h => by cases h; rfl, fun h => by cases h; rfl⟩
    | ok m => exact ⟨nofun, nofun⟩
  · rw [hm] at checked
    refine ⟨_, checked, ?_⟩
    have ofFile (k : UserKey) :
        k.get m = k.get (override settings.last d.gitServer).fillDefault := by
      rw [checkAndFillConfig_get hm, file]
    have ofOptions := checkAndFillConfig_get checked
    rw [← merged_authorizedKeys]
    constructor
    · intro same
      have := same .authorizedKeys
      rw [ofOptions, ofFile] at this
      exact this
    · intro same k
      rw [ofOptions, ofFile]
      by_cases other : k = .authorizedKeys
      · rw [other]
        exact same
      · exact merged_get d settings other

def emptyDocument : Document := ⟨fun _ => none, {}, {}⟩

/-- `-o gitserver.git_user_home=`. -/
def homeUnset : Settings := [(.gitUserHome, [])]

/-- With the home emptied by an option, the authorized keys are looked for in the root
directory, while the home itself falls back to its default. -/
theorem home_unset_misplaces_keys :
    (mergeConfig asciiCase (parseConfig emptyDocument)
        (homeUnset.map fun kv => optionText kv.1 kv.2)).toOption.bind (fun c =>
      (checkAndFillConfig c.gitServer).toOption.map fun o => (o.gitUserHome, o.authorizedKeys)) =
        some (str "/home/git", str "/.ssh/authorized_keys") ∧
    (checkAndFillConfig (parseConfig (emptyDocument.with homeUnset)).gitServer).toOption.map
        (fun m => (m.gitUserHome, m.authorizedKeys)) =
      some (str "/home/git", str "/home/git/.ssh/authorized_keys") :=
  ⟨rfl, rfl⟩

end FakeSSH.Conf
