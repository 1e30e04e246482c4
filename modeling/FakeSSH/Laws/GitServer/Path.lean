import FakeSSH.GitServer.Path
import FakeSSH.Go.Errors

/-!
# Repository names, and the form `NormalizeRepoPath` gives them

A repository name is what a path is for: a non-empty list of segments, each of
them non-empty, over the segment alphabet and neither `.` nor `..`. `RepoName`
is that, with the proof as a field. `RepoName.render` is its one spelling.

`normalizeRepoPath_ok` says that every accepted path denotes a name and is
answered by the name's spelling; `normalizeRepoPath_render` and
`normalizeRepoPath_slash_render` say that a spelling is accepted as it stands,
with or without one leading slash. Idempotence is the two composed.
`normalizeRepoPath_ok_iff` is the same from the other side: which strings are
accepted at all.
-/

namespace FakeSSH.GitServer

open FakeSSH.Go

/-- A segment of a repository name. -/
structure RepoSegment (seg : Bytes) : Prop where
  full : seg ≠ []
  notDot : seg ≠ dot
  notDotdot : seg ≠ dotdot
  chars : ∀ b ∈ seg, repoSegmentChar b = true

/-- A repository name: what a repository path denotes. -/
structure RepoName where
  segs : List Bytes
  nonempty : segs ≠ []
  valid : ∀ seg ∈ segs, RepoSegment seg

/-- The spelling of a name: its segments joined by slashes. -/
def RepoName.render (n : RepoName) : Bytes := joinSlash n.segs

theorem repoSegmentPattern_iff {seg : Bytes} :
    repoSegmentPattern seg = true ↔ seg ≠ [] ∧ ∀ b ∈ seg, repoSegmentChar b = true := by
  simp [repoSegmentPattern]

theorem repoSegment_iff {seg : Bytes} : RepoSegment seg ↔
    ¬ (seg = [] ∨ seg = dot ∨ seg = dotdot) ∧ repoSegmentPattern seg = true := by
  rw [repoSegmentPattern_iff, not_or, not_or]
  constructor
  · rintro ⟨full, notDot, notDotdot, chars⟩
    exact ⟨⟨full, notDot, notDotdot⟩, full, chars⟩
  · rintro ⟨⟨full, notDot, notDotdot⟩, -, chars⟩
    exact ⟨full, notDot, notDotdot, chars⟩

/-- The segment check passes exactly on segments of a name. -/
theorem checkSegments_ok_iff {segs : List Bytes} :
    checkSegments segs = .ok () ↔ ∀ seg ∈ segs, RepoSegment seg := by
  induction segs with
  | nil => exact ⟨fun _ => nofun, fun _ => rfl⟩
  | cons seg rest ih =>
    rw [List.forall_mem_cons, checkSegments, check_eq_ok, guard_eq_ok, ih, repoSegment_iff,
      and_assoc]

/-- The separators a segment cannot contain: the alphabet has none of them. -/
theorem RepoSegment.not_mem {seg : Bytes} (h : RepoSegment seg) {b : UInt8}
    (outside : repoSegmentChar b = false) : b ∉ seg := by
  intro hb
  rw [h.chars b hb] at outside
  exact Bool.noConfusion outside

theorem RepoName.plain (n : RepoName) : ∀ seg ∈ n.segs, slash ∉ seg :=
  fun seg h => (n.valid seg h).not_mem (by decide)

/-- The segments are read back from the spelling, so a name has one spelling
and a spelling one name. -/
theorem RepoName.components_render (n : RepoName) : components n.render = n.segs :=
  components_joinSlash n.plain n.nonempty

/-- Every byte of a spelling is a slash or of the segment alphabet. -/
theorem RepoName.mem_render {n : RepoName} {b : UInt8} (h : b ∈ n.render) :
    b = slash ∨ repoSegmentChar b = true := by
  rcases mem_joinSlash h with h | ⟨seg, hseg, h⟩
  · exact .inl h
  · exact .inr ((n.valid seg hseg).chars b h)

theorem RepoName.not_mem_render {n : RepoName} {b : UInt8} (hb : b ≠ slash)
    (outside : repoSegmentChar b = false) : b ∉ n.render := by
  intro h
  rcases n.mem_render h with h | h
  · exact hb h
  · rw [h] at outside
    exact Bool.noConfusion outside

theorem RepoName.backslash_not_mem (n : RepoName) : backslash ∉ n.render :=
  n.not_mem_render (by decide) (by decide)

theorem RepoName.colon_not_mem (n : RepoName) : colon ∉ n.render :=
  n.not_mem_render (by decide) (by decide)

theorem RepoName.render_ne_nil (n : RepoName) : n.render ≠ [] := by
  rw [RepoName.render, Ne, joinSlash_eq_nil fun c hc => (n.valid c hc).full]
  exact n.nonempty

theorem RepoName.relative (n : RepoName) : n.render.head? ≠ some slash :=
  joinSlash_relative (fun c hc => (n.valid c hc).full) n.plain

theorem RepoName.dotdot_not_mem (n : RepoName) : dotdot ∉ components n.render := by
  rw [n.components_render]
  intro h
  exact (n.valid _ h).notDotdot rfl

theorem RepoName.filter_keeps (n : RepoName) : n.segs.filter keeps = n.segs := by
  rw [List.filter_eq_self]
  intro seg h
  exact keeps_iff.mpr ⟨(n.valid seg h).full, (n.valid seg h).notDot⟩

/-- Cleaning leaves a spelling alone. -/
theorem RepoName.clean_render (n : RepoName) : clean n.render = n.render := by
  rw [clean_relative n.relative n.dotdot_not_mem, n.components_render, n.filter_keeps]
  exact if_neg n.render_ne_nil

/-- A single segment is not `.` or `..`, and neither is a longer spelling. -/
theorem RepoName.render_ne_single (n : RepoName) {c : Bytes} (plain : slash ∉ c)
    (bad : ¬ RepoSegment c) : n.render ≠ c := by
  intro h
  have hc : components c = [c] := List.splitOn_eq_singleton plain
  have hsegs : n.segs = [c] := by rw [← n.components_render, h, hc]
  exact bad (n.valid c (by rw [hsegs]; exact List.mem_cons_self))

/-- The tail of `normalizeRepoPath`: what is left without the leading slash has no
`..` in it and is cleaned to the spelling of a name. -/
theorem RepoName.accepts_cleaned (n : RepoName) {p : Bytes} (hp : p ≠ [])
    (noBackslash : backslash ∉ p) (noColon : colon ∉ p)
    (plain : dotdot ∉ components (trimPrefix (str "/") p))
    (cleaned : clean (trimPrefix (str "/") p) = n.render) : normalizeRepoPath p = .ok n.render := by
  have hdots : ¬ (n.render = [] ∨ n.render = dot ∨ n.render = dotdot) := by
    rintro (h | h | h)
    · exact n.render_ne_nil h
    · exact n.render_ne_single (by decide) (fun hs => hs.notDot rfl) h
    · exact n.render_ne_single (by decide) (fun hs => hs.notDotdot rfl) h
  have hsegs : checkSegments (components n.render) = .ok () := by
    rw [n.components_render]
    exact checkSegments_ok_iff.mpr n.valid
  unfold normalizeRepoPath
  rw [if_neg hp, if_neg noBackslash, if_neg noColon]
  simp only [if_neg plain, cleaned, if_neg hdots, hsegs]
  rfl

theorem RepoName.accepts (n : RepoName) {p : Bytes} (hp : p ≠ [])
    (noBackslash : backslash ∉ p) (noColon : colon ∉ p)
    (trimmed : trimPrefix (str "/") p = n.render) : normalizeRepoPath p = .ok n.render := by
  apply n.accepts_cleaned hp noBackslash noColon
  · rw [trimmed]
    exact n.dotdot_not_mem
  · rw [trimmed, n.clean_render]

theorem trimPrefix_slash (rest : Bytes) : trimPrefix (str "/") (slash :: rest) = rest := rfl

theorem trimPrefix_relative {p : Bytes} (relative : p.head? ≠ some slash) :
    trimPrefix (str "/") p = p := by
  rw [trimPrefix, if_neg]
  intro h
  obtain ⟨rest, rfl⟩ := List.isPrefixOf_iff_prefix.mp h
  exact relative rfl

/-- A spelling is its own normal form. -/
theorem normalizeRepoPath_render (n : RepoName) : normalizeRepoPath n.render = .ok n.render :=
  n.accepts n.render_ne_nil n.backslash_not_mem n.colon_not_mem (trimPrefix_relative n.relative)

/-- One leading slash is dropped. -/
theorem normalizeRepoPath_slash_render (n : RepoName) :
    normalizeRepoPath (str "/" ++ n.render) = .ok n.render := by
  have hcons : str "/" ++ n.render = slash :: n.render := rfl
  rw [hcons]
  refine n.accepts (List.cons_ne_nil _ _) ?_ ?_ rfl
  · rw [List.mem_cons, not_or]
    exact ⟨by decide, n.backslash_not_mem⟩
  · rw [List.mem_cons, not_or]
    exact ⟨by decide, n.colon_not_mem⟩

/-- What an accepted path looks like without its leading slash: it is relative, has no
`..`, and its components less the empty ones and the `.`s are the segments of a name,
whose spelling is the answer. -/
theorem normalizeRepoPath_reads {p q : Bytes} (h : normalizeRepoPath p = .ok q) :
    (trimPrefix (str "/") p).head? ≠ some slash ∧
    dotdot ∉ components (trimPrefix (str "/") p) ∧
    ∃ n : RepoName, q = n.render ∧
      n.segs = (components (trimPrefix (str "/") p)).filter keeps := by
  unfold normalizeRepoPath at h
  obtain ⟨-, h⟩ := check_eq_ok.mp h
  obtain ⟨-, h⟩ := check_eq_ok.mp h
  obtain ⟨-, h⟩ := check_eq_ok.mp h
  obtain ⟨hplain, h⟩ := check_eq_ok.mp h
  obtain ⟨hdots, h⟩ := check_eq_ok.mp h
  obtain ⟨_, hseg, h⟩ := bind_eq_ok.mp h
  cases h
  generalize trimPrefix (str "/") p = p' at hplain hdots hseg ⊢
  have hvalid := checkSegments_ok_iff.mp hseg
  -- a path still rooted here would leave an empty first segment
  have hrel : p'.head? ≠ some slash := by
    intro hroot
    obtain ⟨body, hbody⟩ := clean_rooted hroot
    rw [hbody, components_slash] at hvalid
    exact (hvalid [] List.mem_cons_self).full rfl
  have hkept : ∀ c ∈ (components p').filter keeps, slash ∉ c :=
    fun c hc => slash_not_mem_components (List.mem_filter.mp hc).1
  have hclean := clean_relative hrel hplain
  by_cases hnil : joinSlash ((components p').filter keeps) = []
  · rw [if_pos hnil] at hclean
    exact absurd (.inr (.inl hclean)) hdots
  · rw [if_neg hnil] at hclean
    have hne : (components p').filter keeps ≠ [] := fun hempty => hnil (hempty ▸ rfl)
    have hback : components (clean p') = (components p').filter keeps := by
      rw [hclean]
      exact components_joinSlash hkept hne
    rw [hback] at hvalid
    exact ⟨hrel, hplain, ⟨_, hne, hvalid⟩, hclean, rfl⟩

/-- Every accepted path denotes a name, whose segments are the path's
components less the empty ones and the `.`s, and the answer is its spelling. -/
theorem normalizeRepoPath_ok {p q : Bytes} (h : normalizeRepoPath p = .ok q) :
    ∃ n : RepoName, q = n.render ∧
      n.segs = (components (trimPrefix (str "/") p)).filter keeps :=
  (normalizeRepoPath_reads h).2.2

/-- Normalizing twice is normalizing once. -/
theorem normalizeRepoPath_idem {p q : Bytes} (h : normalizeRepoPath p = .ok q) :
    normalizeRepoPath q = .ok q := by
  obtain ⟨n, rfl, -⟩ := normalizeRepoPath_ok h
  exact normalizeRepoPath_render n

/-- A normal form is never empty. -/
theorem normalizeRepoPath_ne_nil {p q : Bytes} (h : normalizeRepoPath p = .ok q) : q ≠ [] := by
  obtain ⟨n, rfl, -⟩ := normalizeRepoPath_ok h
  exact n.render_ne_nil

/-! ## Which paths are accepted -/

/-- A leading slash only adds an empty component. -/
theorem filter_components_trimmed (p : Bytes) :
    (components (trimPrefix (str "/") p)).filter keeps = (components p).filter keeps := by
  by_cases rooted : p.head? = some slash
  · obtain ⟨rest, rfl⟩ := List.head?_eq_some_iff.mp rooted
    rw [trimPrefix_slash, components_slash, List.filter_cons_of_neg (by decide)]
  · rw [trimPrefix_relative rooted]

/-- What is left without the leading slash is relative unless two slashes were there. -/
theorem trimmed_relative_iff {p : Bytes} :
    (trimPrefix (str "/") p).head? ≠ some slash ↔ ¬ str "//" <+: p := by
  have two : str "//" = [slash, slash] := rfl
  rw [two, not_iff_not]
  by_cases rooted : p.head? = some slash
  · obtain ⟨rest, rfl⟩ := List.head?_eq_some_iff.mp rooted
    rw [trimPrefix_slash, List.head?_eq_some_iff, List.cons_prefix_cons, and_iff_right rfl]
    exact exists_congr fun more => eq_comm
  · rw [trimPrefix_relative rooted]
    refine iff_of_false rooted ?_
    rintro ⟨rest, rfl⟩
    exact rooted rfl

theorem dotdot_trimmed {p : Bytes} :
    dotdot ∈ components (trimPrefix (str "/") p) ↔ dotdot ∈ components p := by
  have kept : keeps dotdot = true := by decide
  rw [← mem_filter_keeps kept, filter_components_trimmed, mem_filter_keeps kept]

/-- Every byte of a path is a slash or stands in a component. -/
theorem mem_component {p : Bytes} {b : UInt8} (h : b ∈ p) :
    b = slash ∨ ∃ c ∈ components p, b ∈ c := by
  rw [← joinSlash_components p] at h
  exact mem_joinSlash h

/-- A path over the alphabet, with no `..`, no second leading slash and some component
that is kept, is answered by the name of those that are kept. -/
theorem normalizeRepoPath_accepts {p : Bytes}
    (chars : ∀ b ∈ p, b = slash ∨ repoSegmentChar b = true)
    (plain : dotdot ∉ components p) (single : ¬ str "//" <+: p)
    (kept : (components p).filter keeps ≠ []) :
    ∃ n : RepoName, n.segs = (components p).filter keeps ∧ normalizeRepoPath p = .ok n.render := by
  have valid : ∀ seg ∈ (components p).filter keeps, RepoSegment seg := by
    intro seg hseg
    obtain ⟨hmem, hkeeps⟩ := List.mem_filter.mp hseg
    obtain ⟨full, notDot⟩ := keeps_iff.mp hkeeps
    refine ⟨full, notDot, fun hdots => plain (hdots ▸ hmem), ?_⟩
    intro b hb
    rcases chars b (mem_of_mem_components hmem hb) with rfl | h
    · exact absurd hb (slash_not_mem_components hmem)
    · exact h
  let n : RepoName := ⟨(components p).filter keeps, kept, valid⟩
  have outside : ∀ b, b ≠ slash → repoSegmentChar b = false → b ∉ p := by
    intro b hb hout hmem
    rcases chars b hmem with h | h
    · exact hb h
    · rw [h] at hout
      cases hout
  have hp : p ≠ [] := by
    rintro rfl
    exact kept rfl
  refine ⟨n, rfl, n.accepts_cleaned hp (outside _ (by decide) (by decide))
    (outside _ (by decide) (by decide)) (mt dotdot_trimmed.mp plain) ?_⟩
  rw [clean_relative (trimmed_relative_iff.mpr single) (mt dotdot_trimmed.mp plain),
    filter_components_trimmed]
  exact if_neg n.render_ne_nil

/-- ACCEPTANCE. The accepted paths are those over the alphabet and the slash that have
no `..`, do not begin with two slashes and keep some component. -/
theorem normalizeRepoPath_ok_iff {p q : Bytes} : normalizeRepoPath p = .ok q ↔
    (∀ b ∈ p, b = slash ∨ repoSegmentChar b = true) ∧ dotdot ∉ components p ∧
      ¬ str "//" <+: p ∧
      ∃ n : RepoName, n.segs = (components p).filter keeps ∧ q = n.render := by
  constructor
  · intro h
    obtain ⟨relative, plain, n, rfl, hsegs⟩ := normalizeRepoPath_reads h
    rw [filter_components_trimmed] at hsegs
    refine ⟨?_, mt dotdot_trimmed.mpr plain, trimmed_relative_iff.mp relative, n, hsegs, rfl⟩
    intro b hb
    rcases mem_component hb with hslash | ⟨c, hc, hbc⟩
    · exact .inl hslash
    · right
      by_cases hkeeps : keeps c = true
      · exact (n.valid c (hsegs ▸ List.mem_filter.mpr ⟨hc, hkeeps⟩)).chars b hbc
      · -- a component that is dropped has no byte but the dot
        rcases not_keeps_iff.mp hkeeps with rfl | rfl
        · cases hbc
        · rw [List.mem_singleton.mp hbc]
          rfl
  · rintro ⟨chars, plain, single, n, hsegs, rfl⟩
    obtain ⟨m, hm, h⟩ := normalizeRepoPath_accepts chars plain single (hsegs ▸ n.nonempty)
    have same : m.render = n.render := by rw [RepoName.render, hm, ← hsegs, RepoName.render]
    rw [h, same]

theorem normalizeRepoPath_succeeds {p : Bytes} : (∃ q, normalizeRepoPath p = .ok q) ↔
    (∀ b ∈ p, b = slash ∨ repoSegmentChar b = true) ∧ dotdot ∉ components p ∧
      ¬ str "//" <+: p ∧ (components p).filter keeps ≠ [] := by
  constructor
  · rintro ⟨q, h⟩
    obtain ⟨chars, plain, single, n, hsegs, -⟩ := normalizeRepoPath_ok_iff.mp h
    exact ⟨chars, plain, single, hsegs ▸ n.nonempty⟩
  · rintro ⟨chars, plain, single, kept⟩
    obtain ⟨n, -, h⟩ := normalizeRepoPath_accepts chars plain single kept
    exact ⟨_, h⟩

/-- The paths that are refused. -/
theorem normalizeRepoPath_error_iff {p : Bytes} : (∃ e, normalizeRepoPath p = .error e) ↔
    dotdot ∈ components p ∨ backslash ∈ p ∨ colon ∈ p ∨
      (∃ b ∈ p, b ≠ slash ∧ repoSegmentChar b = false) ∨ str "//" <+: p ∨
      ∀ c ∈ components p, c = [] ∨ c = dot := by
  constructor
  · rintro ⟨e, he⟩
    by_contra none
    simp only [not_or] at none
    obtain ⟨plain, -, -, chars, single, kept⟩ := none
    have allChars : ∀ b ∈ p, b = slash ∨ repoSegmentChar b = true := by
      intro b hb
      by_contra hout
      rw [not_or, Bool.not_eq_true] at hout
      exact chars ⟨b, hb, hout⟩
    have someKept : (components p).filter keeps ≠ [] := by
      intro hnil
      exact kept fun c hc => not_keeps_iff.mp (List.filter_eq_nil_iff.mp hnil c hc)
    obtain ⟨q, hq⟩ := normalizeRepoPath_succeeds.mpr ⟨allChars, plain, single, someKept⟩
    rw [he] at hq
    cases hq
  · intro bad
    apply eq_error_of_not_ok
    intro q hq
    obtain ⟨chars, plain, single, kept⟩ := normalizeRepoPath_succeeds.mp ⟨q, hq⟩
    have inside : ∀ b ∈ p, b ≠ slash → repoSegmentChar b ≠ false := by
      intro b hb hslash
      rw [(chars b hb).resolve_left hslash]
      decide
    rcases bad with h | h | h | ⟨b, hb, hslash, hout⟩ | h | h
    · exact plain h
    · exact inside _ h (by decide) (by decide)
    · exact inside _ h (by decide) (by decide)
    · exact inside b hb hslash hout
    · exact single h
    · apply kept
      rw [List.filter_eq_nil_iff]
      exact fun c hc => not_keeps_iff.mpr (h c hc)

/-- CANONICAL FORM. An accepted path is answered by the components it keeps, each of
them a segment over the alphabet; the answer is a fixed point, with or without a
leading slash; and the paths that are refused are exactly those with a `..`, a byte
outside the alphabet and the slash, two leading slashes, or nothing to keep. -/
theorem normalizeRepoPath_canonical (p : Bytes) :
    (∀ q, normalizeRepoPath p = .ok q →
      (components q = (components p).filter fun c => c ≠ [] ∧ c ≠ dot) ∧ q ≠ [] ∧
      (∀ c ∈ components q, repoSegmentPattern c = true ∧ c ≠ dot ∧ c ≠ dotdot) ∧
      q = joinSlash (components q) ∧
      normalizeRepoPath q = .ok q ∧ normalizeRepoPath (str "/" ++ q) = .ok q) ∧
    ((∃ e, normalizeRepoPath p = .error e) ↔
      dotdot ∈ components p ∨ backslash ∈ p ∨ colon ∈ p ∨
        (∃ b ∈ p, b ≠ slash ∧ repoSegmentChar b = false) ∨ str "//" <+: p ∨
        ∀ c ∈ components p, c = [] ∨ c = dot) := by
  refine ⟨?_, normalizeRepoPath_error_iff⟩
  intro q h
  obtain ⟨-, -, -, n, hsegs, rfl⟩ := normalizeRepoPath_ok_iff.mp h
  rw [n.components_render]
  refine ⟨hsegs, n.render_ne_nil, ?_, rfl, normalizeRepoPath_render n,
    normalizeRepoPath_slash_render n⟩
  intro c hc
  have valid := n.valid c hc
  exact ⟨repoSegmentPattern_iff.mpr ⟨valid.full, valid.chars⟩, valid.notDot, valid.notDotdot⟩

end FakeSSH.GitServer
