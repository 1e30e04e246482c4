import FakeSSH.Go.Errors
import FakeSSH.Go.Runes
import FakeSSH.GitServer.Request
import FakeSSH.Laws.GitServer.Path

/-!
# What an accepted configuration guarantees

`Checked` collects what `CheckAndFillConfig` leaves behind in the repository
list: pairwise distinct paths, and paths and backend paths in normal form.
`checkAndFillConfig_checked` proves it of every accepted configuration, and
`lookup_repoMap_iff` says what that buys: the server's map finds a path exactly
when one entry of the list carries it.

`Canonical` is all that it leaves behind: the defaults are filled in, the backend's
fields pass, the list is checked and the access lists are trimmed. The result of
`CheckAndFillConfig` is canonical, and a canonical configuration is left as it is.
-/

namespace FakeSSH.GitServer

open FakeSSH.Go

/-- A repository list as an accepted configuration leaves it. -/
structure Checked (rs : List RepositoryConfig) : Prop where
  distinct : (rs.map (·.path)).Nodup
  paths : ∀ r ∈ rs, normalizeRepoPath r.path = .ok r.path
  backendPaths : ∀ r ∈ rs, normalizeRepoPath r.backendPath = .ok r.backendPath

/-- An access list as an accepted configuration leaves it. -/
def TrimmedACL (keys : List Bytes) : Prop := ∀ k ∈ keys, k ≠ [] ∧ Trimmed k

theorem trimACL_trimmed (keys : List Bytes) : TrimmedACL (trimACL keys) := by
  intro k hk
  obtain ⟨hmem, full⟩ := List.mem_filter.mp hk
  obtain ⟨raw, -, rfl⟩ := List.mem_map.mp hmem
  exact ⟨of_decide_eq_true full, trimSpace_trimmed raw⟩

theorem trimACL_of_trimmed {keys : List Bytes} (h : TrimmedACL keys) : trimACL keys = keys := by
  have kept : keys.map trimSpace = keys := by
    conv_rhs => rw [← List.map_id keys]
    exact List.map_congr_left fun k hk => trimSpace_of_trimmed (h k hk).2
  rw [trimACL, kept, List.filter_eq_self]
  exact fun k hk => decide_eq_true (h k hk).1

/-- One repository, filled: its own paths are normal forms, its path is new and its
access lists are trimmed. -/
theorem fillRepository_ok {i : Nat} {seen : List Bytes} {r out : RepositoryConfig}
    (h : fillRepository i seen r = .ok out) :
    (normalizeRepoPath out.path = .ok out.path ∧
      normalizeRepoPath out.backendPath = .ok out.backendPath ∧ out.path ∉ seen) ∧
    TrimmedACL out.readKeys ∧ TrimmedACL out.writeKeys := by
  unfold fillRepository at h
  split at h
  · cases h
  rename_i path hpath
  split at h
  · cases h
  rename_i backendPath hbackend
  split at h
  · cases h
  rename_i hnew
  cases h
  refine ⟨⟨normalizeRepoPath_idem hpath, ?_, hnew⟩, trimACL_trimmed _, trimACL_trimmed _⟩
  by_cases hempty : r.backendPath = []
  · rw [if_pos hempty] at hbackend
    cases hbackend
    exact normalizeRepoPath_idem hpath
  · rw [if_neg hempty] at hbackend
    exact normalizeRepoPath_idem hbackend

/-- The repository loop, from any set of paths already taken. -/
theorem fillRepositories_ok {i : Nat} {seen : List Bytes} {rs out : List RepositoryConfig}
    (h : fillRepositories i seen rs = .ok out) :
    Checked out ∧ (∀ r ∈ out, r.path ∉ seen) ∧
      ∀ r ∈ out, TrimmedACL r.readKeys ∧ TrimmedACL r.writeKeys := by
  induction rs generalizing i seen out with
  | nil =>
    cases h
    exact ⟨⟨List.nodup_nil, nofun, nofun⟩, nofun, nofun⟩
  | cons r rest ih =>
    simp only [fillRepositories] at h
    obtain ⟨filled, hfilled, h⟩ := bind_eq_ok.mp h
    obtain ⟨others, hothers, h⟩ := bind_eq_ok.mp h
    cases h
    obtain ⟨⟨hpath, hbackend, hnew⟩, hkeys⟩ := fillRepository_ok hfilled
    obtain ⟨hchecked, hseen, hothersKeys⟩ := ih hothers
    have hfresh : filled.path ∉ others.map (·.path) := by
      intro hmem
      obtain ⟨r', hr', heq⟩ := List.mem_map.mp hmem
      exact hseen r' hr' (heq ▸ List.mem_cons_self)
    refine ⟨⟨?_, ?_, ?_⟩, ?_, List.forall_mem_cons.mpr ⟨hkeys, hothersKeys⟩⟩
    · rw [List.map_cons]
      exact List.nodup_cons.mpr ⟨hfresh, hchecked.distinct⟩
    · exact List.forall_mem_cons.mpr ⟨hpath, hchecked.paths⟩
    · exact List.forall_mem_cons.mpr ⟨hbackend, hchecked.backendPaths⟩
    · refine List.forall_mem_cons.mpr ⟨hnew, ?_⟩
      intro r' hr' hmem
      exact hseen r' hr' (List.mem_cons_of_mem _ hmem)

/-! ## Canonical configurations -/

/-- The fields that have a default are filled in. -/
structure Filled (c : Config) : Prop where
  user : c.user ≠ []
  sshUser : c.sshUser ≠ []
  gitShell : c.gitShell ≠ []
  gitUserHome : c.gitUserHome ≠ []
  repoRoot : c.repoRoot ≠ []
  authorizedKeys : c.authorizedKeys ≠ []
  backend : c.backend ≠ []
  slots : 0 ≤ c.maxGitShellProcesses

/-- A configuration as `CheckAndFillConfig` leaves it. -/
structure Canonical (c : Config) : Prop extends Filled c where
  backendChecked : c.checkBackend = .ok c
  checked : Checked c.repositories
  keys : ∀ r ∈ c.repositories, TrimmedACL r.readKeys ∧ TrimmedACL r.writeKeys

theorem orDefault_ne_nil {value default : Bytes} (h : default ≠ []) :
    orDefault value default ≠ [] := by
  unfold orDefault
  split
  · exact h
  · assumption

theorem orDefault_of_ne_nil {value default : Bytes} (h : value ≠ []) :
    orDefault value default = value := if_neg h

theorem fillDefault_filled (c : Config) : Filled c.fillDefault := by
  have user : c.fillDefault.user ≠ [] := orDefault_ne_nil (by decide)
  have home : c.fillDefault.gitUserHome ≠ [] := orDefault_ne_nil (by decide)
  refine ⟨user, orDefault_ne_nil user, orDefault_ne_nil (by decide), home, orDefault_ne_nil home,
    orDefault_ne_nil ?_, orDefault_ne_nil (by decide), ?_⟩
  · exact List.append_ne_nil_of_left_ne_nil home _
  · show 0 ≤ if c.maxGitShellProcesses < 0 then 0 else c.maxGitShellProcesses
    split
    · exact Int.le_refl 0
    · omega

theorem fillDefault_of_filled {c : Config} (h : Filled c) : c.fillDefault = c := by
  have slots : ¬ c.maxGitShellProcesses < 0 := Int.not_lt.mpr h.slots
  unfold Config.fillDefault
  dsimp only
  rw [orDefault_of_ne_nil h.user, orDefault_of_ne_nil h.sshUser, orDefault_of_ne_nil h.gitShell,
    orDefault_of_ne_nil h.gitUserHome, orDefault_of_ne_nil h.repoRoot,
    orDefault_of_ne_nil h.authorizedKeys, orDefault_of_ne_nil h.backend, if_neg slots]

/-- The backend's checks change at most the SSH timeout, and pass on what they leave,
whatever the repositories. -/
theorem checkBackend_ok {c c' : Config} (h : c.checkBackend = .ok c') :
    (∃ timeout, c' = { c with sshBackend := { c.sshBackend with timeoutSeconds := timeout } }) ∧
    ∀ rs, Config.checkBackend { c' with repositories := rs } =
      .ok { c' with repositories := rs } := by
  unfold Config.checkBackend at h
  split at h
  next ssh =>
    obtain ⟨complete, h⟩ := check_eq_ok.mp h
    split at h
    next =>
      cases h
      refine ⟨⟨30, rfl⟩, fun rs => ?_⟩
      have positive : ¬ (30 : Int) ≤ 0 := by decide
      exact (if_pos ssh).trans ((if_neg complete).trans (if_neg positive))
    next positive =>
      cases h
      refine ⟨⟨c.sshBackend.timeoutSeconds, rfl⟩, fun rs => ?_⟩
      exact (if_pos ssh).trans ((if_neg complete).trans (if_neg positive))
  next ssh =>
    split at h
    next loc =>
      obtain ⟨_, root, h⟩ := bind_eq_ok.mp h
      obtain ⟨_, home, h⟩ := bind_eq_ok.mp h
      cases h
      refine ⟨⟨c.sshBackend.timeoutSeconds, rfl⟩, fun rs => ?_⟩
      refine (if_neg ssh).trans ((if_pos loc).trans ?_)
      exact bind_eq_ok.mpr ⟨_, root, bind_eq_ok.mpr ⟨_, home, rfl⟩⟩
    next => cases h

/-- A repository in normal form whose path is new is left as it is. -/
theorem fillRepository_of_normal {i : Nat} {seen : List Bytes} {r : RepositoryConfig}
    (path : normalizeRepoPath r.path = .ok r.path)
    (backendPath : normalizeRepoPath r.backendPath = .ok r.backendPath)
    (keys : TrimmedACL r.readKeys ∧ TrimmedACL r.writeKeys) (new : r.path ∉ seen) :
    fillRepository i seen r = .ok r := by
  unfold fillRepository
  rw [path]
  dsimp only
  rw [if_neg (normalizeRepoPath_ne_nil backendPath), backendPath]
  dsimp only
  rw [if_neg new, trimACL_of_trimmed keys.1, trimACL_of_trimmed keys.2]

theorem fillRepositories_of_checked {i : Nat} {seen : List Bytes} {rs : List RepositoryConfig}
    (checked : Checked rs) (keys : ∀ r ∈ rs, TrimmedACL r.readKeys ∧ TrimmedACL r.writeKeys)
    (new : ∀ r ∈ rs, r.path ∉ seen) : fillRepositories i seen rs = .ok rs := by
  induction rs generalizing i seen with
  | nil => rfl
  | cons r rest ih =>
    obtain ⟨distinct, paths, backendPaths⟩ := checked
    obtain ⟨hpath, paths⟩ := List.forall_mem_cons.mp paths
    obtain ⟨hbackend, backendPaths⟩ := List.forall_mem_cons.mp backendPaths
    obtain ⟨hkeys, keys⟩ := List.forall_mem_cons.mp keys
    obtain ⟨hnew, new⟩ := List.forall_mem_cons.mp new
    rw [List.map_cons, List.nodup_cons] at distinct
    have later : ∀ r' ∈ rest, r'.path ∉ r.path :: seen := by
      intro r' hr' hmem
      rcases List.mem_cons.mp hmem with same | old
      · exact distinct.1 (List.mem_map.mpr ⟨r', hr', same⟩)
      · exact new r' hr' old
    have others := @ih (i + 1) (r.path :: seen) ⟨distinct.2, paths, backendPaths⟩ keys later
    rw [fillRepositories]
    exact bind_eq_ok.mpr ⟨r, fillRepository_of_normal hpath hbackend hkeys hnew,
      bind_eq_ok.mpr ⟨rest, others, rfl⟩⟩

/-- A canonical configuration is left as it is. -/
theorem checkAndFillConfig_of_canonical {c : Config} (h : Canonical c) :
    checkAndFillConfig c = .ok c := by
  unfold checkAndFillConfig
  rw [fillDefault_of_filled h.toFilled]
  refine bind_eq_ok.mpr ⟨c, h.backendChecked, bind_eq_ok.mpr ⟨c.repositories, ?_, rfl⟩⟩
  exact fillRepositories_of_checked h.checked h.keys fun _ _ => List.not_mem_nil

/-- What is accepted is canonical. -/
theorem checkAndFillConfig_canonical {c c' : Config} (h : checkAndFillConfig c = .ok c') :
    Canonical c' := by
  obtain ⟨checked, hbackend, h⟩ := bind_eq_ok.mp h
  obtain ⟨repositories, hrepos, h⟩ := bind_eq_ok.mp h
  cases h
  obtain ⟨⟨timeout, rfl⟩, again⟩ := checkBackend_ok hbackend
  obtain ⟨hchecked, -, hkeys⟩ := fillRepositories_ok hrepos
  have filled := fillDefault_filled c
  exact { user := filled.user, sshUser := filled.sshUser, gitShell := filled.gitShell,
          gitUserHome := filled.gitUserHome, repoRoot := filled.repoRoot,
          authorizedKeys := filled.authorizedKeys, backend := filled.backend,
          slots := filled.slots, backendChecked := again repositories, checked := hchecked,
          keys := hkeys }

/-- Every accepted configuration has a checked repository list. -/
theorem checkAndFillConfig_checked {c c' : Config} (h : checkAndFillConfig c = .ok c') :
    Checked c'.repositories :=
  (checkAndFillConfig_canonical h).checked

/-- IDEMPOTENCE. What `CheckAndFillConfig` accepts it leaves in a form that a second
call accepts and does not change: the paths pairwise distinct normal forms, the
backend paths normal forms too, the access lists trimmed and without empty entries, and
every field that has a default filled in. -/
theorem checkAndFillConfig_idem {c c' : Config} (h : checkAndFillConfig c = .ok c') :
    checkAndFillConfig c' = .ok c' ∧
    (c'.repositories.map (·.path)).Nodup ∧
    (∀ r ∈ c'.repositories, normalizeRepoPath r.path = .ok r.path ∧ r.backendPath ≠ [] ∧
      normalizeRepoPath r.backendPath = .ok r.backendPath ∧
      ∀ k ∈ r.readKeys ++ r.writeKeys, k ≠ [] ∧ trimSpace k = k ∧
        spaceWidth k = 0 ∧ lastSpaceWidth k.reverse = 0) ∧
    0 ≤ c'.maxGitShellProcesses ∧
    c'.user ≠ [] ∧ c'.sshUser ≠ [] ∧ c'.gitUserHome ≠ [] ∧ c'.repoRoot ≠ [] ∧
    c'.authorizedKeys ≠ [] ∧ c'.backend ≠ [] := by
  have canonical := checkAndFillConfig_canonical h
  refine ⟨checkAndFillConfig_of_canonical canonical, canonical.checked.distinct, ?_,
    canonical.slots, canonical.user, canonical.sshUser, canonical.gitUserHome,
    canonical.repoRoot, canonical.authorizedKeys, canonical.backend⟩
  intro r hr
  have backendPath := canonical.checked.backendPaths r hr
  refine ⟨canonical.checked.paths r hr, normalizeRepoPath_ne_nil backendPath, backendPath, ?_⟩
  intro k hk
  have trimmed : k ≠ [] ∧ Trimmed k := by
    rcases List.mem_append.mp hk with hk | hk
    · exact (canonical.keys r hr).1 k hk
    · exact (canonical.keys r hr).2 k hk
  exact ⟨trimmed.1, trimSpace_of_trimmed trimmed.2, trimmed.2.front, trimmed.2.back⟩

/-- A configuration with every kind of repair to make. -/
def untidy : Config :=
  { maxGitShellProcesses := -1
    repositories := [⟨str "/team//project.git", [], [str " SHA256:r\t", str "  "], []⟩] }

def tidy : Config :=
  { untidy.fillDefault with
    repositories := [⟨str "team/project.git", str "team/project.git", [str "SHA256:r"], []⟩] }

theorem checkAndFillConfig_idem_untidy :
    checkAndFillConfig untidy = .ok tidy ∧ checkAndFillConfig tidy = .ok tidy := by
  have accepted : checkAndFillConfig untidy = .ok tidy := by decide +kernel
  exact ⟨accepted, (checkAndFillConfig_idem accepted).1⟩

/-! ## The repository map -/

private theorem lookup_foldl_of_not_mem (rs : List RepositoryConfig) (m : Map RepositoryConfig)
    {p : Bytes} (h : p ∉ rs.map (·.path)) :
    (rs.foldl (fun m r => m.insert r.path r) m).lookup p = m.lookup p := by
  induction rs generalizing m with
  | nil => rfl
  | cons r rest ih =>
    rw [List.map_cons, List.mem_cons, not_or] at h
    rw [List.foldl_cons, ih _ h.2, AList.lookup_insert_ne h.1]

private theorem lookup_foldl_of_mem (rs : List RepositoryConfig) (m : Map RepositoryConfig)
    (distinct : (rs.map (·.path)).Nodup) {r : RepositoryConfig} (h : r ∈ rs) :
    (rs.foldl (fun m r => m.insert r.path r) m).lookup r.path = some r := by
  induction rs generalizing m with
  | nil => cases h
  | cons first rest ih =>
    rw [List.map_cons, List.nodup_cons] at distinct
    rw [List.foldl_cons]
    rcases List.mem_cons.mp h with rfl | h
    · rw [lookup_foldl_of_not_mem rest _ distinct.1, AList.lookup_insert]
    · exact ih _ distinct.2 h

/-- With distinct paths, the map finds a path exactly when an entry carries it. -/
theorem lookup_repoMap_iff {rs : List RepositoryConfig} (distinct : (rs.map (·.path)).Nodup)
    {p : Bytes} {r : RepositoryConfig} :
    (repoMap rs).lookup p = some r ↔ r ∈ rs ∧ r.path = p := by
  constructor
  · intro h
    by_cases hp : p ∈ rs.map (·.path)
    · obtain ⟨r', hr', rfl⟩ := List.mem_map.mp hp
      rw [repoMap, lookup_foldl_of_mem rs ∅ distinct hr'] at h
      cases h
      exact ⟨hr', rfl⟩
    · rw [repoMap, lookup_foldl_of_not_mem rs ∅ hp, AList.lookup_empty] at h
      cases h
  · rintro ⟨hr, rfl⟩
    exact lookup_foldl_of_mem rs ∅ distinct hr

/-- And then it is the only one. -/
theorem filter_path_eq {rs : List RepositoryConfig} (distinct : (rs.map (·.path)).Nodup)
    {r : RepositoryConfig} (h : r ∈ rs) : rs.filter (fun r' => r'.path = r.path) = [r] := by
  induction rs with
  | nil => cases h
  | cons first rest ih =>
    rw [List.map_cons, List.nodup_cons] at distinct
    rcases List.mem_cons.mp h with rfl | h
    · rw [List.filter_cons, if_pos (by simp)]
      congr 1
      rw [List.filter_eq_nil_iff]
      intro r' hr' heq
      exact distinct.1 (List.mem_map.mpr ⟨r', hr', by simpa using heq⟩)
    · have hne : first.path ≠ r.path := by
        intro heq
        exact distinct.1 (List.mem_map.mpr ⟨r, h, heq.symm⟩)
      rw [List.filter_cons, if_neg (by simpa using hne), ih distinct.2 h]

end FakeSSH.GitServer
