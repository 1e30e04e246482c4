import FakeSSH.Laws.GitServer.Config

/-!
# End-to-end authorization of exec requests

What the pipeline is for, stated without its code: an exec string names a
service and a repository token (`Names`); it is granted when the token denotes
the path of exactly one configured repository, the key may use the service
there, and the command sent is the service's own spelling of that repository's
backend path (`Granted`).

`backendCommand_ok_iff` is the agreement: the three functions in a row answer a
command exactly when the string passes the metacharacter filter, the permission
is a git permission and the command is granted.
-/

namespace FakeSSH.GitServer

open FakeSSH.Go

/-- The three git services. -/
inductive Service where
  | uploadPack
  | receivePack
  | uploadArchive
  deriving DecidableEq, Repr

/-- The name of the service's hyphenated command. -/
def Service.command : Service → Bytes
  | .uploadPack => str "git-upload-pack"
  | .receivePack => str "git-receive-pack"
  | .uploadArchive => str "git-upload-archive"

/-- The service's name after a separate `git`. -/
def Service.subcommand : Service → Bytes
  | .uploadPack => str "upload-pack"
  | .receivePack => str "receive-pack"
  | .uploadArchive => str "upload-archive"

def Service.operation : Service → Operation
  | .receivePack => .write
  | _ => .read

/-- The keys that may use a service on a repository. -/
def Service.keys (rc : RepositoryConfig) : Service → List Bytes
  | .receivePack => rc.writeKeys
  | _ => rc.readKeys ++ rc.writeKeys

/-- The exec string names this service and this repository token, in either
form. -/
def Names (exec : Bytes) (svc : Service) (token : Bytes) : Prop :=
  tokenize exec = .ok [svc.command, token] ∨
    tokenize exec = .ok [str "git", svc.subcommand, token]

/-- The exec string is granted the backend command `out`. -/
def Granted (c : Config) (perms : Option Permissions) (exec out : Bytes) : Prop :=
  ∃ svc token rc, Names exec svc token ∧
    normalizeRepoPath token = .ok rc.path ∧
    c.repositories.filter (fun r => r.path = rc.path) = [rc] ∧
    gitKeyFingerprint perms ≠ [] ∧ gitKeyFingerprint perms ∈ svc.keys rc ∧
    out = svc.command ++ str " '" ++ rc.backendPath ++ str "'"

/-! ## The command tables -/

theorem Service.command_injective {a b : Service} (h : a.command = b.command) : a = b := by
  revert h
  cases a <;> cases b <;> decide

theorem Service.subcommand_injective {a b : Service} (h : a.subcommand = b.subcommand) : a = b := by
  revert h
  cases a <;> cases b <;> decide

/-- The table of the services under one of their names. -/
theorem serviceTable_eq_some {name : Service → Bytes} (inj : ∀ a b, name a = name b → a = b)
    {token : Bytes} {entry : Bytes × Operation} :
    (if token = name .uploadPack then
        some (Service.uploadPack.command, Service.uploadPack.operation)
      else if token = name .receivePack then
        some (Service.receivePack.command, Service.receivePack.operation)
      else if token = name .uploadArchive then
        some (Service.uploadArchive.command, Service.uploadArchive.operation)
      else none) = some entry ↔
      ∃ svc : Service, token = name svc ∧ entry = (svc.command, svc.operation) := by
  constructor
  · intro h
    split at h
    next ht =>
      cases h
      exact ⟨.uploadPack, ht, rfl⟩
    next =>
    split at h
    next ht =>
      cases h
      exact ⟨.receivePack, ht, rfl⟩
    next =>
    split at h
    next ht =>
      cases h
      exact ⟨.uploadArchive, ht, rfl⟩
    next => cases h
  · rintro ⟨svc, rfl, rfl⟩
    have other (a b : Service) (h : a ≠ b) : name a ≠ name b := fun same => h (inj a b same)
    cases svc with
    | uploadPack => rw [if_pos rfl]
    | receivePack => rw [if_neg (other .receivePack .uploadPack nofun), if_pos rfl]
    | uploadArchive =>
      rw [if_neg (other .uploadArchive .uploadPack nofun),
        if_neg (other .uploadArchive .receivePack nofun), if_pos rfl]

theorem gitHyphenCommand_eq_some {token : Bytes} {entry : Bytes × Operation} :
    gitHyphenCommand token = some entry ↔
      ∃ svc : Service, token = svc.command ∧ entry = (svc.command, svc.operation) :=
  serviceTable_eq_some fun _ _ => Service.command_injective

theorem gitServiceSubcommand_eq_some {token : Bytes} {entry : Bytes × Operation} :
    gitServiceSubcommand token = some entry ↔
      ∃ svc : Service, token = svc.subcommand ∧ entry = (svc.command, svc.operation) :=
  serviceTable_eq_some fun _ _ => Service.subcommand_injective

/-- The shapes accepted are the two forms of the three services. -/
theorem matchCommand_ok_iff {tokens : List Bytes} {cmd repo : Bytes} {op : Operation} :
    matchCommand tokens = .ok (cmd, op, repo) ↔
      ∃ svc : Service, cmd = svc.command ∧ op = svc.operation ∧
        (tokens = [svc.command, repo] ∨ tokens = [str "git", svc.subcommand, repo]) := by
  constructor
  · intro h
    unfold matchCommand at h
    split at h
    · split at h
      · rename_i hgit
        split at h
        · rename_i entry hentry
          obtain ⟨svc, rfl, heq⟩ := gitServiceSubcommand_eq_some.mp hentry
          cases heq
          cases h
          exact ⟨svc, rfl, rfl, .inr (by rw [hgit])⟩
        · cases h
      · cases h
    · split at h
      · rename_i entry hentry
        obtain ⟨svc, rfl, heq⟩ := gitHyphenCommand_eq_some.mp hentry
        cases heq
        cases h
        exact ⟨svc, rfl, rfl, .inl rfl⟩
      · cases h
    · cases h
  · rintro ⟨svc, rfl, rfl, rfl | rfl⟩
    · simp only [matchCommand, gitHyphenCommand_eq_some.mpr ⟨svc, rfl, rfl⟩]
    · simp only [matchCommand, if_pos, gitServiceSubcommand_eq_some.mpr ⟨svc, rfl, rfl⟩]

/-- A string names at most one service and token. -/
theorem Names.unique {exec : Bytes} {svc svc' : Service} {token token' : Bytes}
    (h : Names exec svc token) (h' : Names exec svc' token') : svc = svc' ∧ token = token' := by
  rcases h with h | h <;> rcases h' with h' | h' <;> rw [h] at h' <;> injection h' with heq
  · injection heq with hc hrest
    injection hrest with ht
    exact ⟨Service.command_injective hc, ht⟩
  · simp at heq
  · simp at heq
  · injection heq with _ hrest
    injection hrest with hc hrest
    injection hrest with ht
    exact ⟨Service.subcommand_injective hc, ht⟩

/-! ## The three stages -/

theorem parseGitCommand_ok_iff {exec : Bytes} {req : Request} :
    parseGitCommand exec = .ok req ↔
      rejectUnsafeChars exec = .ok () ∧ ∃ svc token path, Names exec svc token ∧
        normalizeRepoPath token = .ok path ∧
        req = { command := svc.command, operation := svc.operation, repoPath := path } := by
  unfold parseGitCommand
  constructor
  · intro h
    obtain ⟨u, hsafe, h⟩ := bind_eq_ok.mp h
    obtain ⟨tokens, htokens, h⟩ := bind_eq_ok.mp h
    obtain ⟨⟨cmd, op, token⟩, hmatch, h⟩ := bind_eq_ok.mp h
    obtain ⟨svc, rfl, rfl, hshape⟩ := matchCommand_ok_iff.mp hmatch
    cases hpath : normalizeRepoPath token with
    | error e => simp only [hpath] at h; cases h
    | ok path =>
      simp only [hpath] at h
      cases h
      refine ⟨hsafe, svc, token, path, ?_, hpath, rfl⟩
      rcases hshape with rfl | rfl
      · exact .inl htokens
      · exact .inr htokens
  · rintro ⟨hsafe, svc, token, path, hnames, hpath, rfl⟩
    refine bind_eq_ok.mpr ⟨(), hsafe, ?_⟩
    rcases hnames with htokens | htokens
    · refine bind_eq_ok.mpr ⟨_, htokens, bind_eq_ok.mpr ⟨_, matchCommand_ok_iff.mpr
        ⟨svc, rfl, rfl, .inl rfl⟩, ?_⟩⟩
      simp only [hpath]
    · refine bind_eq_ok.mpr ⟨_, htokens, bind_eq_ok.mpr ⟨_, matchCommand_ok_iff.mpr
        ⟨svc, rfl, rfl, .inr rfl⟩, ?_⟩⟩
      simp only [hpath]

/-- The access decision for a service's operation is membership in its keys. -/
theorem allowed_service (rc : RepositoryConfig) (fp : Bytes) (svc : Service) :
    allowed rc fp svc.operation = .ok ((svc.keys rc).contains fp) := by
  cases svc with
  | receivePack => rfl
  | uploadPack => simp [allowed, Service.operation, Service.keys]
  | uploadArchive => simp [allowed, Service.operation, Service.keys]

theorem authorize_ok_iff {s : Server} {perms : Option Permissions} {svc : Service}
    {path : Bytes} {out : Request} :
    s.authorize perms { command := svc.command, operation := svc.operation, repoPath := path } =
        .ok out ↔
      isGitPermission perms = true ∧ gitKeyFingerprint perms ≠ [] ∧
        ∃ norm rc, normalizeRepoPath path = .ok norm ∧ s.repos.lookup norm = some rc ∧
          gitKeyFingerprint perms ∈ svc.keys rc ∧
          out = { command := svc.command, operation := svc.operation, repoPath := norm,
                  backendPath := rc.backendPath } := by
  unfold Server.authorize
  simp only [check_eq_ok, Bool.not_eq_false, allowed_service]
  refine and_congr_right fun _ => and_congr_right fun _ => ?_
  cases hnorm : normalizeRepoPath path with
  | error e => exact ⟨nofun, fun ⟨_, _, h, _⟩ => nomatch h⟩
  | ok norm =>
    dsimp only
    cases hrc : s.repos.lookup norm with
    | none =>
      refine ⟨nofun, ?_⟩
      rintro ⟨norm', rc, same, found, -⟩
      cases same
      rw [hrc] at found
      cases found
    | some rc =>
      dsimp only
      constructor
      · intro h
        obtain ⟨ok, allows, h⟩ := bind_eq_ok.mp h
        cases allows
        obtain ⟨hmem, h⟩ := guard_eq_ok.mp h
        cases h
        exact ⟨norm, rc, rfl, hrc, List.contains_iff_mem.mp hmem, rfl⟩
      · rintro ⟨norm', rc', same, found, hmem, rfl⟩
        cases same
        rw [hrc] at found
        cases found
        exact bind_eq_ok.mpr ⟨_, rfl, guard_eq_ok.mpr ⟨List.contains_iff_mem.mpr hmem, rfl⟩⟩

/-- What is built for a service is its command and the normal form of the backend
path in single quotes. -/
theorem buildBackendCommand_eq {r : Request} {svc : Service} {q : Bytes}
    (command : r.command = svc.command) (full : r.backendPath ≠ [])
    (accepted : normalizeRepoPath r.backendPath = .ok q) :
    buildBackendCommand r = .ok (svc.command ++ str " '" ++ q ++ str "'") := by
  have listed := gitHyphenCommand_eq_some.mpr ⟨svc, command, rfl⟩
  unfold buildBackendCommand
  rw [listed, orDefault, if_neg full, accepted, command]

/-- A service's command is on the whitelist, and a normal backend path is spelled
as it is. -/
theorem buildBackendCommand_service {svc : Service} {op : Operation} {path backend : Bytes}
    (normal : normalizeRepoPath backend = .ok backend) :
    buildBackendCommand ⟨svc.command, op, path, backend⟩ =
      .ok (svc.command ++ str " '" ++ backend ++ str "'") :=
  buildBackendCommand_eq rfl (normalizeRepoPath_ne_nil normal) normal

/-! ## The pipeline -/

/-- The pipeline answers `out` exactly when the exec string passes the filter,
the permission is a git permission and `out` is granted. -/
theorem backendCommand_ok_iff {c : Config} (checked : Checked c.repositories)
    (keys : Map AuthorizedKeyEntry) (perms : Option Permissions) (exec out : Bytes) :
    (Server.ofConfig c keys).backendCommand perms exec = .ok out ↔
      rejectUnsafeChars exec = .ok () ∧ isGitPermission perms = true ∧
        Granted c perms exec out := by
  unfold Server.backendCommand
  constructor
  · intro h
    obtain ⟨req, hparse, h⟩ := bind_eq_ok.mp h
    obtain ⟨authorized, hauth, hbuild⟩ := bind_eq_ok.mp h
    obtain ⟨hsafe, svc, token, path, hnames, hpath, rfl⟩ := parseGitCommand_ok_iff.mp hparse
    obtain ⟨hgit, hfp, norm, rc, hnorm, hrc, hmem, rfl⟩ := authorize_ok_iff.mp hauth
    -- the token is already normal, so the second normalization changes nothing
    rw [normalizeRepoPath_idem hpath] at hnorm
    cases hnorm
    obtain ⟨hin, rfl⟩ := (lookup_repoMap_iff checked.distinct).mp hrc
    rw [buildBackendCommand_service (checked.backendPaths rc hin)] at hbuild
    cases hbuild
    exact ⟨hsafe, hgit, svc, token, rc, hnames, hpath, filter_path_eq checked.distinct hin, hfp,
      hmem, rfl⟩
  · rintro ⟨hsafe, hgit, svc, token, rc, hnames, hpath, hone, hfp, hmem, rfl⟩
    have hin : rc ∈ c.repositories :=
      (List.mem_filter.mp (hone ▸ List.mem_singleton_self rc)).1
    refine bind_eq_ok.mpr ⟨_, parseGitCommand_ok_iff.mpr
      ⟨hsafe, svc, token, rc.path, hnames, hpath, rfl⟩, bind_eq_ok.mpr ⟨_, authorize_ok_iff.mpr
        ⟨hgit, hfp, rc.path, rc, normalizeRepoPath_idem hpath, ?_, hmem, rfl⟩, ?_⟩⟩
    · exact (lookup_repoMap_iff checked.distinct).mpr ⟨hin, rfl⟩
    · exact buildBackendCommand_service (checked.backendPaths rc hin)

/-- Two exec strings that name one service and one repository are granted the
same command, whoever sends them. -/
theorem Granted.same_command {c : Config} {perms₁ perms₂ : Option Permissions}
    {exec₁ exec₂ out₁ out₂ : Bytes} (h₁ : Granted c perms₁ exec₁ out₁)
    (h₂ : Granted c perms₂ exec₂ out₂) {svc : Service} {token₁ token₂ path : Bytes}
    (names₁ : Names exec₁ svc token₁) (names₂ : Names exec₂ svc token₂)
    (norm₁ : normalizeRepoPath token₁ = .ok path) (norm₂ : normalizeRepoPath token₂ = .ok path) :
    out₁ = out₂ := by
  obtain ⟨svc₁, tok₁, rc₁, hn₁, hp₁, hone₁, -, -, rfl⟩ := h₁
  obtain ⟨svc₂, tok₂, rc₂, hn₂, hp₂, hone₂, -, -, rfl⟩ := h₂
  obtain ⟨rfl, rfl⟩ := hn₁.unique names₁
  obtain ⟨rfl, rfl⟩ := hn₂.unique names₂
  rw [hp₁] at norm₁
  rw [hp₂] at norm₂
  cases norm₁
  injection norm₂ with hpath
  rw [hpath, hone₁] at hone₂
  cases hone₂
  rfl

/-- END-TO-END AUTHORIZATION. Over every accepted configuration, key map and
permission: a command reaches the backend only when it is granted; commands for
one service and one repository are one string, whatever the spelling of the
request; and a string that nothing is granted for is an error. -/
theorem exec_authorized {c c' : Config} (accepted : checkAndFillConfig c = .ok c')
    (keys : Map AuthorizedKeyEntry) :
    (∀ perms exec out, (Server.ofConfig c' keys).backendCommand perms exec = .ok out →
      Granted c' perms exec out) ∧
    (∀ perms₁ perms₂ exec₁ exec₂ out₁ out₂ svc token₁ token₂ path,
      Names exec₁ svc token₁ → Names exec₂ svc token₂ →
      normalizeRepoPath token₁ = .ok path → normalizeRepoPath token₂ = .ok path →
      (Server.ofConfig c' keys).backendCommand perms₁ exec₁ = .ok out₁ →
      (Server.ofConfig c' keys).backendCommand perms₂ exec₂ = .ok out₂ → out₁ = out₂) ∧
    (∀ perms exec, (¬ ∃ out, Granted c' perms exec out) →
      ∃ e, (Server.ofConfig c' keys).backendCommand perms exec = .error e) := by
  have checked := checkAndFillConfig_checked accepted
  have granted : ∀ perms exec out, (Server.ofConfig c' keys).backendCommand perms exec = .ok out →
      Granted c' perms exec out := by
    intro perms exec out h
    exact ((backendCommand_ok_iff checked keys perms exec out).mp h).2.2
  refine ⟨granted, ?_, ?_⟩
  · intro perms₁ perms₂ exec₁ exec₂ out₁ out₂ svc token₁ token₂ path n₁ n₂ p₁ p₂ h₁ h₂
    exact (granted _ _ _ h₁).same_command (granted _ _ _ h₂) n₁ n₂ p₁ p₂
  · intro perms exec none
    exact eq_error_of_not_ok fun out h => none ⟨out, granted perms exec out h⟩

/-- One aliased repository, as an operator writes it. -/
def aliased : Config :=
  { repositories := [⟨str "/team/project.git", str "vault/./p.git", [str " SHA256:r "],
      [str "SHA256:w"]⟩] }

/-- The same, as the server keeps it. -/
def aliasedFilled : Config :=
  { aliased.fillDefault with
    repositories := [⟨str "team/project.git", str "vault/p.git", [str "SHA256:r"],
      [str "SHA256:w"]⟩] }

/-- What the public-key callback answers for the writer's key. -/
def writer : Option Permissions :=
  some ⟨some ((AList.insert permExtGitServer (str "1") ∅).insert permExtKeyFingerprint
    (str "SHA256:w"))⟩

/-- A push in the split form, with a leading slash and a dot segment, reaches the
configured backend path. -/
theorem exec_authorized_push :
    checkAndFillConfig aliased = .ok aliasedFilled ∧
      Granted aliasedFilled writer (str "git receive-pack \"/team/./project.git\"")
        (str "git-receive-pack 'vault/p.git'") := by
  have accepted : checkAndFillConfig aliased = .ok aliasedFilled := by decide +kernel
  exact ⟨accepted, (exec_authorized accepted ∅).1 _ _ _ (by decide +kernel)⟩

end FakeSSH.GitServer
