import FakeSSH.GitServer.Local
import FakeSSH.Go.Runes
import FakeSSH.Laws.GitServer.Authorization

/-!
# Confinement of local repositories

A path is in a directory when the directory's segments are the first of its own
(`segments root <+: segments p`), which for clean absolute paths is `Within`: the root,
the directory itself, or the directory, a slash and more. The check that the source
makes of `filepath.Rel`'s answer decides exactly that: the answer starts with `..` as
soon as a segment of the directory is left over, and never otherwise.

What `git-shell` is handed follows: the command of a service and one path in single
quotes, in the resolved root and with no quote in it.
-/

namespace FakeSSH.GitServer

open FakeSSH.Go

variable {ε : Type} {root cand r : Bytes}

/-! ## The escape check -/

/-- A path escapes when its first component is `..`, or when it is absolute. -/
theorem isEscapeRel_iff :
    isEscapeRel r = true ↔ (components r).head? = some dotdot ∨ r.head? = some slash := by
  have first : r = dotdot ∨ str "../" <+: r ↔ (components r).head? = some dotdot := by
    constructor
    · rintro (rfl | ⟨more, rfl⟩)
      · rfl
      · have split : components (str "../" ++ more) = components dotdot ++ components more :=
          components_append_slash dotdot more
        rw [split]
        rfl
    · intro h
      obtain ⟨rest, hrest⟩ := List.head?_eq_some_iff.mp h
      have whole := joinSlash_components r
      rw [hrest] at whole
      by_cases hnil : rest = []
      · rw [hnil, joinSlash_singleton] at whole
        exact .inl whole.symm
      · rw [joinSlash_cons hnil] at whole
        exact .inr ⟨_, whole⟩
  unfold isEscapeRel isAbs
  rw [Bool.or_eq_true, Bool.or_eq_true, beq_iff_eq, beq_iff_eq, List.isPrefixOf_iff_prefix, first]

/-- Joined components escape exactly when they go up first. -/
theorem isEscapeRel_joinSlash {cs : List Bytes} (nonempty : cs ≠ [])
    (valid : ∀ c ∈ cs, c ≠ [] ∧ slash ∉ c) :
    isEscapeRel (joinSlash cs) = true ↔ cs.head? = some dotdot := by
  have plain : ∀ c ∈ cs, slash ∉ c := fun c hc => (valid c hc).2
  rw [isEscapeRel_iff, components_joinSlash plain nonempty]
  exact or_iff_left (joinSlash_relative (fun c hc => (valid c hc).1) plain)

/-- CONTAINMENT. `Rel` and the check accept a clean absolute path exactly when the
root's segments are its first. -/
theorem rel_accepts_iff (hroot : CleanAbs root) (hcand : CleanAbs cand) :
    (∃ r, rel root cand = some r ∧ isEscapeRel r = false) ↔ segments root <+: segments cand := by
  by_cases same : cand = root
  · subst same
    have answer : rel cand cand = some dot := by
      rw [rel, if_pos rfl]
    exact iff_of_true ⟨dot, answer, by decide⟩ (List.prefix_refl _)
  · obtain ⟨shared, hleft, hrest⟩ := diverge_common (segments root) (segments cand)
    rw [rel_cleanAbs hroot hcand same, ← diverge_fst_eq_nil]
    generalize (diverge (segments root) (segments cand)).1 = left at hleft ⊢
    generalize (diverge (segments root) (segments cand)).2 = rest at hrest ⊢
    have valid : ∀ c ∈ rest, Segment c := by
      intro c hc
      exact hcand.reads.1 c (hrest ▸ List.mem_append_right _ hc)
    have answer := upDown_component (n := left.length) valid
    cases left with
    | nil =>
      have nonempty : rest ≠ [] := by
        rintro rfl
        apply same
        apply hcand.ext hroot
        rw [hleft, hrest]
      refine iff_of_true ⟨_, rfl, ?_⟩ rfl
      rw [← Bool.not_eq_true]
      intro escapes
      have hhead := (isEscapeRel_joinSlash nonempty answer).mp escapes
      exact (valid _ (List.mem_of_head? hhead)).notDotdot rfl
    | cons seg left =>
      refine iff_of_false ?_ (List.cons_ne_nil _ _)
      rintro ⟨r, hr, stays⟩
      cases hr
      rw [← Bool.not_eq_true] at stays
      exact stays ((isEscapeRel_joinSlash (List.cons_ne_nil _ _) answer).mpr rfl)

/-- The path is the directory or lies below it, as strings. -/
def Within (root cand : Bytes) : Prop :=
  root = [slash] ∨ cand = root ∨ ∃ more, cand = root ++ slash :: more

theorem within_iff (hroot : CleanAbs root) (hcand : CleanAbs cand) :
    Within root cand ↔ segments root <+: segments cand := by
  constructor
  · rintro (rfl | rfl | ⟨more, rfl⟩)
    · exact List.nil_prefix
    · exact List.prefix_refl _
    · refine ⟨segments more, ?_⟩
      rw [segments, segments, segments, components_append_slash, List.filter_append]
  · rintro ⟨rest, hrest⟩
    by_cases atTop : segments root = []
    · left
      rw [hroot.reads.2, atTop]
      rfl
    · right
      by_cases hnil : rest = []
      · left
        apply hcand.ext hroot
        rw [← hrest, hnil, List.append_nil]
      · right
        refine ⟨joinSlash rest, ?_⟩
        rw [hcand.reads.2, ← hrest, joinSlash_append atTop hnil, ← List.cons_append,
          ← hroot.reads.2]

/-! ## The resolver -/

theorem resolveLocalRepo_ok {s : Server} {host : LocalHost ε} {repo p : Bytes}
    (h : s.resolveLocalRepo host repo = .ok p) :
    ∃ norm rootPath rootAbs, normalizeRepoPath repo = .ok norm ∧
      host.abs s.config.repoRoot = .ok rootPath ∧ host.evalSymlinks rootPath = .ok rootAbs ∧
      host.evalSymlinks (join rootAbs norm) = .ok p ∧
      ∃ r, rel rootAbs p = some r ∧ isEscapeRel r = false := by
  unfold Server.resolveLocalRepo at h
  obtain ⟨norm, hnorm, h⟩ := bind_eq_ok.mp h
  obtain ⟨-, h⟩ := check_eq_ok.mp h
  obtain ⟨rootPath, habs, h⟩ := bind_eq_ok.mp h
  obtain ⟨rootAbs, hroot, h⟩ := bind_eq_ok.mp h
  obtain ⟨cand, hcand, h⟩ := bind_eq_ok.mp h
  rw [mapError_eq_ok] at hnorm habs hroot hcand
  refine ⟨norm, rootPath, rootAbs, hnorm, habs, hroot, ?_⟩
  cases hrel : rel rootAbs cand with
  | none =>
    rw [hrel] at h
    cases h
  | some r =>
    rw [hrel] at h
    obtain ⟨stays, h⟩ := check_eq_ok.mp h
    cases h
    exact ⟨hcand, r, hrel, Bool.not_eq_true _ ▸ stays⟩

/-- The resolved repository is within the resolved root; both are clean and absolute,
as the host promises. -/
theorem resolveLocalRepo_within {s : Server} {host : LocalHost ε} {repo p : Bytes}
    (h : s.resolveLocalRepo host repo = .ok p) :
    ∃ rootPath rootAbs, host.abs s.config.repoRoot = .ok rootPath ∧
      host.evalSymlinks rootPath = .ok rootAbs ∧ CleanAbs rootAbs ∧ CleanAbs p ∧
      segments rootAbs <+: segments p := by
  obtain ⟨norm, rootPath, rootAbs, -, habs, hroot, hcand, stays⟩ := resolveLocalRepo_ok h
  have rootClean := host.evalSymlinks_clean _ _ (host.abs_clean _ _ habs).rooted hroot
  have rooted : (join rootAbs norm).head? = some slash := by
    rw [rootClean.join_eq]
    rfl
  have clean := host.evalSymlinks_clean _ _ rooted hcand
  exact ⟨rootPath, rootAbs, habs, hroot, rootClean, clean,
    (rel_accepts_iff rootClean clean).mp stays⟩

/-- CONFINEMENT. For clean absolute paths the check of `Rel`'s answer, which leads from
the root to the path, accepts exactly what has the root as a component-wise prefix:
the root itself and what lies below it. So a resolved repository is never outside the
resolved root. -/
theorem localRepo_confined :
    (∀ root cand, CleanAbs root → CleanAbs cand →
      (∀ r, rel root cand = some r → join root r = cand) ∧
      ((∃ r, rel root cand = some r ∧ isEscapeRel r = false) ↔ segments root <+: segments cand) ∧
      (segments root <+: segments cand ↔
        root = [slash] ∨ cand = root ∨ ∃ more, cand = root ++ slash :: more)) ∧
    (∀ (ε : Type) (host : LocalHost ε) (s : Server) (repo p : Bytes),
      s.resolveLocalRepo host repo = .ok p →
      ∃ rootPath rootAbs, host.abs s.config.repoRoot = .ok rootPath ∧
        host.evalSymlinks rootPath = .ok rootAbs ∧ CleanAbs rootAbs ∧ CleanAbs p ∧
        segments rootAbs <+: segments p) := by
  refine ⟨?_, fun ε host s repo p => resolveLocalRepo_within⟩
  intro root cand hroot hcand
  exact ⟨fun r => join_rel hroot hcand, rel_accepts_iff hroot hcand,
    (within_iff hroot hcand).symm⟩

/-- A sibling that shares the root's name as a beginning is outside, a name that only
begins with two dots is inside, and everything is inside the root directory. -/
example : (rel (str "/srv/git") (str "/srv/git-old/a")).map isEscapeRel = some true ∧
    (rel (str "/srv/git") (str "/srv/git/..a/b")).map isEscapeRel = some false ∧
    (rel (str "/") (str "/srv")).map isEscapeRel = some false := by decide +kernel

/-- A host without symbolic links that knows one user. -/
def plainHost : LocalHost Unit where
  abs p := if p.head? = some slash then .ok (clean p) else .error ()
  evalSymlinks p := if p.head? = some slash then .ok (clean p) else .error ()
  getUid _ _ := .ok (1000, 1000)
  abs_clean p q h := by
    obtain ⟨rooted, h⟩ := guard_eq_ok.mp h
    cases h
    exact cleanAbs_clean rooted
  evalSymlinks_clean p q _ h := by
    obtain ⟨rooted, h⟩ := guard_eq_ok.mp h
    cases h
    exact cleanAbs_clean rooted

/-- The default root, and a directory beside it whose name only begins with the root's. -/
theorem localRepo_confined_of_default :
    (Server.ofConfig (Config.fillDefault {}) ∅).resolveLocalRepo plainHost (str "team/p.git") =
        .ok (str "/home/git/team/p.git") ∧
      segments (str "/home/git") <+: segments (str "/home/git/team/p.git") ∧
      ¬ ∃ r, rel (str "/home/git") (str "/home/git-old/p") = some r ∧ isEscapeRel r = false := by
  have resolved : (Server.ofConfig (Config.fillDefault {}) ∅).resolveLocalRepo plainHost
      (str "team/p.git") = .ok (str "/home/git/team/p.git") := rfl
  refine ⟨resolved, ?_, ?_⟩
  · obtain ⟨rootPath, rootAbs, abs, eval, -, -, below⟩ :=
      localRepo_confined.2 Unit plainHost _ _ _ resolved
    cases abs
    cases eval
    exact below
  · rw [(localRepo_confined.1 (str "/home/git") (str "/home/git-old/p") ⟨rfl, by decide⟩
      ⟨rfl, by decide⟩).2.1]
    decide

/-! ## The command -/

/-- A path that passes `rejectUnsafeLocalPath` has no single quote. -/
theorem rejectUnsafeLocalPath_ok {field p : Bytes} (h : rejectUnsafeLocalPath field p = .ok ()) :
    (0x27 : UInt8) ∉ p := by
  intro hquote
  obtain ⟨d, hd, hrune⟩ := mem_runes (by decide) hquote
  obtain ⟨passed, -⟩ := check_eq_ok.mp h
  apply passed
  rw [List.any_eq_true]
  refine ⟨d, hd, ?_⟩
  rw [hrune]
  rfl

/-- What `git-shell` is run with: the request's command and one path in single quotes,
with no quote in it, within the resolved root, which is also the directory. -/
theorem buildLocalCommand_ok {s : Server} {host : LocalHost ε} {req : Request}
    {gitProtocol : Bytes} {cmd : LocalCommand}
    (h : s.buildLocalCommand host req gitProtocol = .ok cmd) :
    ∃ repo, cmd.name = s.config.gitShell ∧
      cmd.args = [str "-c", req.command ++ str " '" ++ repo ++ str "'"] ∧
      (0x27 : UInt8) ∉ repo ∧ CleanAbs repo ∧ Within cmd.dir repo ∧
      cmd.env = s.localEnv gitProtocol := by
  unfold Server.buildLocalCommand at h
  obtain ⟨repo, hrepo, h⟩ := bind_eq_ok.mp h
  obtain ⟨rootPath, habs, h⟩ := bind_eq_ok.mp h
  obtain ⟨rootAbs, hroot, h⟩ := bind_eq_ok.mp h
  obtain ⟨_, -, h⟩ := bind_eq_ok.mp h
  obtain ⟨_, hsafe, h⟩ := bind_eq_ok.mp h
  obtain ⟨uid, -, h⟩ := bind_eq_ok.mp h
  cases h
  rw [mapError_eq_ok] at hrepo habs hroot hsafe
  obtain ⟨path', root', habs', hroot', rootClean, clean, below⟩ := resolveLocalRepo_within hrepo
  -- the root is resolved twice, to the same directory
  rw [habs] at habs'
  cases habs'
  rw [hroot] at hroot'
  cases hroot'
  exact ⟨repo, rfl, rfl, rejectUnsafeLocalPath_ok hsafe, clean,
    (within_iff rootClean clean).mpr below, rfl⟩

end FakeSSH.GitServer
