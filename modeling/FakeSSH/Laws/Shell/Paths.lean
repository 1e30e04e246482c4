import FakeSSH.Go.Errors
import FakeSSH.Shell.Paths

/-!
# What `ResolvePath` accepts, and what it answers

A path of the fake root denotes a list of segments, none of them empty, `.` or
`..` (`FakePath`), and has one spelling (`FakePath.render`). `resolvePath_ok_iff`
says exactly when a path is resolved, and that the answer is the spelling of the
segments that are left when the empty ones and the `.` are dropped. A spelling
whose bytes may stand in an argument resolves to itself, from anywhere.

`named` lists the components that an argument names from a working directory. In
its terms resolution is a filter, and resolving in two steps concatenates what the
two arguments name.
-/

namespace FakeSSH.Shell

open FakeSSH.Go

variable {cwd arg p : Bytes}

/-! ## Bytes -/

/-- A byte that may stand in a path argument. -/
def pathByte (b : UInt8) : Bool :=
  !(decide (b < 0x20) || b == 0x7F) && b != Go.backslash && b != Go.colon

theorem pathByte_iff {b : UInt8} : pathByte b = true ↔
    ¬ (b < 0x20 ∨ b = 0x7F ∨ b = Go.backslash ∨ b = Go.colon) := by
  simp [pathByte, and_assoc]

/-- What `validatePathChars` asks of a path. -/
def PathBytes (p : Bytes) : Prop := ∀ b ∈ p, pathByte b = true

theorem validateCharsFrom_ok_iff {i : Nat} : validateCharsFrom i p = .ok () ↔ PathBytes p := by
  induction p generalizing i with
  | nil => exact ⟨fun _ => nofun, fun _ => rfl⟩
  | cons b p ih =>
    rw [validateCharsFrom, check_eq_ok, check_eq_ok, check_eq_ok, ih]
    unfold PathBytes
    rw [List.forall_mem_cons, pathByte_iff]
    simp only [not_or, and_assoc]

theorem validatePathChars_ok_iff : validatePathChars p = .ok () ↔ PathBytes p :=
  validateCharsFrom_ok_iff

theorem pathBytes_root : PathBytes [slash] := by
  intro b hb
  rw [List.mem_singleton.mp hb]
  rfl

theorem PathBytes.append {q : Bytes} (hp : PathBytes p) (hq : PathBytes q) :
    PathBytes (p ++ q) := by
  intro b hb
  rcases List.mem_append.mp hb with hb | hb
  · exact hp b hb
  · exact hq b hb

/-! ## Paths -/

/-- A segment that cleaning leaves alone. -/
structure PathSegment (seg : Bytes) : Prop where
  full : seg ≠ []
  notDot : seg ≠ dot
  notDotdot : seg ≠ Go.dotdot
  plain : slash ∉ seg

/-- What an absolute path of the fake root denotes. -/
structure FakePath where
  segments : List Bytes
  valid : ∀ seg ∈ segments, PathSegment seg

def FakePath.render (q : FakePath) : Bytes := slash :: joinSlash q.segments

/-- The path that a string without `..` denotes. -/
def FakePath.read (p : Bytes) (plain : Go.dotdot ∉ components p) : FakePath where
  segments := (components p).filter keeps
  valid := by
    intro seg h
    obtain ⟨hmem, hkeeps⟩ := List.mem_filter.mp h
    simp only [keeps, decide_eq_true_eq] at hkeeps
    exact ⟨hkeeps.1, hkeeps.2, fun hdots => plain (hdots ▸ hmem), slash_not_mem_components hmem⟩

theorem FakePath.filter_keeps (q : FakePath) : q.segments.filter keeps = q.segments := by
  rw [List.filter_eq_self]
  intro seg h
  exact keeps_iff.mpr ⟨(q.valid seg h).full, (q.valid seg h).notDot⟩

theorem FakePath.components_render (q : FakePath) :
    components q.render = [] :: (if q.segments = [] then [[]] else q.segments) := by
  rw [FakePath.render, components_slash]
  split
  next hnil => rw [hnil]; rfl
  next hsome => rw [components_joinSlash (fun c hc => (q.valid c hc).plain) hsome]

/-- The segments are read back from the spelling. -/
theorem FakePath.filter_components (q : FakePath) :
    (components q.render).filter keeps = q.segments := by
  rw [q.components_render, List.filter_cons_of_neg (by decide)]
  split
  next hnil => rw [hnil]; decide
  next hsome => exact q.filter_keeps

theorem FakePath.dotdot_not_mem (q : FakePath) : Go.dotdot ∉ components q.render := by
  rw [q.components_render]
  intro h
  rcases List.mem_cons.mp h with h | h
  · cases h
  · split at h
    · cases List.mem_singleton.mp h
    · exact (q.valid _ h).notDotdot rfl

/-! ## The resolver -/

/-- Cleaning what has no `..` in it, rooted or not, is reading the path. -/
theorem resolve_clean (plain : Go.dotdot ∉ components p) :
    (if clean p = dot ∨ clean p = [] then [slash]
      else if (clean p).head? = some slash then clean p else slash :: clean p) =
      (FakePath.read p plain).render := by
  have valid : ∀ c ∈ (components p).filter keeps, PathSegment c := (FakePath.read p plain).valid
  have render : (FakePath.read p plain).render = slash :: joinSlash ((components p).filter keeps) :=
    rfl
  rw [render]
  by_cases rooted : p.head? = some slash
  · rw [clean_absolute rooted plain, if_neg (by simp [dot, str, slash]), List.head?_cons,
      if_pos rfl]
  · rw [clean_relative rooted plain]
    by_cases nothing : joinSlash ((components p).filter keeps) = []
    · rw [if_pos nothing, if_pos (.inl rfl), nothing]
    · have relative := joinSlash_relative (fun c hc => (valid c hc).full)
        fun c hc => (valid c hc).plain
      have notDot : joinSlash ((components p).filter keeps) ≠ dot := by
        intro hdot
        have hsome : (components p).filter keeps ≠ [] := by
          intro hnil
          rw [hnil] at nothing
          exact nothing rfl
        have parts := components_joinSlash (fun c hc => (valid c hc).plain) hsome
        rw [hdot] at parts
        have hmem : dot ∈ (components p).filter keeps := by
          rw [← parts]
          decide
        exact (valid dot hmem).notDot rfl
      rw [if_neg nothing, if_neg (not_or.mpr ⟨notDot, nothing⟩), if_neg relative]

/-- The last check of `ResolvePath` finds nothing: the path starts with a slash. -/
theorem not_escaping (h : p.head? = some slash) :
    ¬ ((str "../").isPrefixOf p = true ∨ p = Go.dotdot) := by
  rintro (front | rfl)
  · obtain ⟨more, rfl⟩ := List.isPrefixOf_iff_prefix.mp front
    have first : (str "../" ++ more).head? = some 0x2E := rfl
    rw [first] at h
    cases h
  · cases h

theorem resolve_plain (plain : Go.dotdot ∉ components p) :
    (if clean p = dot ∨ clean p = [] then (.ok [slash] : Except PathError Bytes)
      else if (str "../").isPrefixOf
            (if (clean p).head? = some slash then clean p else slash :: clean p) = true ∨
          (if (clean p).head? = some slash then clean p else slash :: clean p) = Go.dotdot then
        .error .escapes
      else .ok (if (clean p).head? = some slash then clean p else slash :: clean p)) =
      .ok (FakePath.read p plain).render := by
  rw [← resolve_clean plain]
  split
  · rfl
  · rw [if_neg]
    apply not_escaping
    split
    · assumption
    · rfl

/-- RESOLUTION. An argument resolves exactly when its own bytes are allowed and no
`..` is in it or, for a relative one, in the working directory; the answer is the
path that is left when empty segments and `.` are dropped. -/
theorem resolvePath_ok_iff : resolvePath cwd arg = .ok p ↔
    PathBytes arg ∧ ∃ plain : Go.dotdot ∉ components (joined cwd arg),
      p = (FakePath.read (joined cwd arg) plain).render := by
  unfold resolvePath
  rw [bind_eq_ok]
  constructor
  · rintro ⟨_, hchars, h⟩
    refine ⟨validatePathChars_ok_iff.mp hchars, ?_⟩
    split at h
    next => cases h
    next plain =>
    rw [resolve_plain plain] at h
    cases h
    exact ⟨plain, rfl⟩
  · rintro ⟨hchars, plain, rfl⟩
    refine ⟨(), validatePathChars_ok_iff.mpr hchars, ?_⟩
    rw [if_neg plain]
    exact resolve_plain plain

theorem FakePath.joined_render (q : FakePath) (cwd : Bytes) : joined cwd q.render = q.render := by
  rw [joined, FakePath.render, List.head?_cons, if_pos rfl]

/-- A spelling resolves to itself, from anywhere. -/
theorem FakePath.resolve (q : FakePath) (cwd : Bytes) (chars : PathBytes q.render) :
    resolvePath cwd q.render = .ok q.render := by
  have plain : Go.dotdot ∉ components (joined cwd q.render) := by
    rw [q.joined_render]
    exact q.dotdot_not_mem
  refine resolvePath_ok_iff.mpr ⟨chars, plain, ?_⟩
  have segments : (components (joined cwd q.render)).filter keeps = q.segments := by
    rw [q.joined_render, q.filter_components]
  show slash :: joinSlash q.segments =
    slash :: joinSlash ((components (joined cwd q.render)).filter keeps)
  rw [segments]

/-- What is resolved is a path. -/
theorem resolvePath_path (h : resolvePath cwd arg = .ok p) : ∃ q : FakePath, p = q.render := by
  obtain ⟨-, plain, rfl⟩ := resolvePath_ok_iff.mp h
  exact ⟨_, rfl⟩

/-- The bytes of a path are those of what was joined, and slashes. -/
theorem FakePath.mem_read_render {plain : Go.dotdot ∉ components p} {b : UInt8}
    (h : b ∈ (FakePath.read p plain).render) : b = slash ∨ b ∈ p := by
  rcases List.mem_cons.mp h with h | h
  · exact .inl h
  · rcases mem_joinSlash h with h | ⟨c, hc, hb⟩
    · exact .inl h
    · exact .inr (mem_of_mem_components (List.mem_filter.mp hc).1 hb)

theorem pathBytes_joined (hcwd : PathBytes cwd) (harg : PathBytes arg) :
    PathBytes (joined cwd arg) := by
  have start : PathBytes (if cwd = [] then [slash] else cwd) := by
    split
    · exact pathBytes_root
    · exact hcwd
  unfold joined joinPosix
  generalize (if cwd = [] then [slash] else cwd) = front at start
  dsimp only
  split
  · exact harg
  · split
    · exact start.append harg
    · exact start.append (pathBytes_root.append harg)

/-- From a directory of allowed bytes, what is resolved has allowed bytes. -/
theorem resolvePath_bytes (hcwd : PathBytes cwd) (h : resolvePath cwd arg = .ok p) :
    PathBytes p := by
  obtain ⟨chars, plain, rfl⟩ := resolvePath_ok_iff.mp h
  intro b hb
  rcases FakePath.mem_read_render hb with rfl | hb
  · exact pathBytes_root _ (List.mem_singleton_self _)
  · exact pathBytes_joined hcwd chars b hb

/-! ## Confinement -/

/-- The components that an argument names from a working directory: its own if it is
absolute, else those of the directory and then its own. -/
def named (cwd arg : Bytes) : List Bytes :=
  if arg.head? = some slash then components arg else components cwd ++ components arg

/-- What is joined has the named components, up to empty ones. -/
theorem filter_joined (cwd arg : Bytes) :
    (components (joined cwd arg)).filter keeps = (named cwd arg).filter keeps := by
  unfold joined named
  split
  · rfl
  · by_cases hnil : cwd = []
    · subst hnil
      show (components (slash :: arg)).filter keeps = ([[]] ++ components arg).filter keeps
      rw [components_slash, List.singleton_append]
    · simp only [joinPosix, if_neg hnil]
      split
      next hlast =>
        -- the slash that ends the directory leaves an empty component behind it
        obtain ⟨front, rfl⟩ := List.getLast?_eq_some_iff.mp hlast
        have hcwd : components (front ++ [slash]) = components front ++ [[]] :=
          components_append_slash front []
        have empties : ([[]] : List Bytes).filter keeps = [] := by decide
        rw [List.append_assoc, List.singleton_append, components_append_slash, hcwd,
          List.append_assoc, List.filter_append, List.filter_append, List.filter_append, empties,
          List.nil_append]
      next => rw [components_append_slash]

theorem dotdot_joined : Go.dotdot ∈ components (joined cwd arg) ↔ Go.dotdot ∈ named cwd arg := by
  have kept : keeps Go.dotdot = true := by decide
  rw [← mem_filter_keeps kept, filter_joined, mem_filter_keeps kept]

/-- Resolution in terms of the named components: the argument's bytes are allowed and
the components that are kept are a path, whose spelling is the answer. -/
theorem resolvePath_denotes : resolvePath cwd arg = .ok p ↔
    PathBytes arg ∧ ∃ q : FakePath, q.segments = (named cwd arg).filter keeps ∧ p = q.render := by
  rw [resolvePath_ok_iff]
  apply and_congr_right
  intro chars
  constructor
  · rintro ⟨plain, rfl⟩
    exact ⟨_, filter_joined cwd arg, rfl⟩
  · rintro ⟨q, hsegs, rfl⟩
    have plain : Go.dotdot ∉ components (joined cwd arg) := by
      rw [dotdot_joined]
      intro hdots
      have hmem : Go.dotdot ∈ q.segments := by
        rw [hsegs, mem_filter_keeps (by decide)]
        exact hdots
      exact (q.valid _ hmem).notDotdot rfl
    refine ⟨plain, ?_⟩
    show slash :: joinSlash q.segments =
      slash :: joinSlash ((components (joined cwd arg)).filter keeps)
    rw [hsegs, filter_joined]

theorem dotdot_named : Go.dotdot ∉ named cwd arg ↔
    if arg.head? = some slash then Go.dotdot ∉ components arg
    else Go.dotdot ∉ components cwd ∧ Go.dotdot ∉ components arg := by
  unfold named
  split
  · rfl
  · rw [List.mem_append, not_or]

theorem resolvePath_succeeds :
    (∃ p, resolvePath cwd arg = .ok p) ↔ PathBytes arg ∧ Go.dotdot ∉ named cwd arg := by
  rw [← dotdot_joined]
  constructor
  · rintro ⟨p, hp⟩
    obtain ⟨chars, plain, -⟩ := resolvePath_ok_iff.mp hp
    exact ⟨chars, plain⟩
  · rintro ⟨chars, plain⟩
    exact ⟨_, resolvePath_ok_iff.mpr ⟨chars, plain, rfl⟩⟩

/-- From a path of the fake root, an argument that is not absolute names the path's
segments and then its own components. -/
theorem FakePath.filter_named (q : FakePath) {b : Bytes} (relative : b.head? ≠ some slash) :
    (named q.render b).filter keeps = q.segments ++ (components b).filter keeps := by
  rw [named, if_neg relative, List.filter_append, q.filter_components]

theorem named_append_slash {a : Bytes} (ha : a ≠ []) (b : Bytes) :
    named cwd (a ++ slash :: b) = named cwd a ++ components b := by
  have head : (a ++ slash :: b).head? = a.head? := by
    obtain ⟨x, rest, rfl⟩ := List.exists_cons_of_ne_nil ha
    rfl
  unfold named
  rw [head, components_append_slash]
  split
  · rfl
  · rw [List.append_assoc]

theorem pathBytes_append_slash {a b : Bytes} :
    PathBytes (a ++ slash :: b) ↔ PathBytes a ∧ PathBytes b := by
  have root : pathByte slash = true := rfl
  unfold PathBytes
  rw [List.forall_mem_append, List.forall_mem_cons, and_iff_right root]

/-- TWO STEPS. Resolving `b` from where `a` leads is resolving `a/b`. -/
theorem resolvePath_two_steps {a b q : Bytes} (ha : a ≠ []) (hb : b.head? ≠ some slash) :
    (∃ p, resolvePath cwd a = .ok p ∧ resolvePath p b = .ok q) ↔
      resolvePath cwd (a ++ slash :: b) = .ok q := by
  rw [resolvePath_denotes, named_append_slash ha, pathBytes_append_slash, List.filter_append]
  constructor
  · rintro ⟨p, hp, hq⟩
    obtain ⟨charsA, m, hm, rfl⟩ := resolvePath_denotes.mp hp
    obtain ⟨charsB, n, hn, rfl⟩ := resolvePath_denotes.mp hq
    rw [m.filter_named hb, hm] at hn
    exact ⟨⟨charsA, charsB⟩, n, hn, rfl⟩
  · rintro ⟨⟨charsA, charsB⟩, n, hn, rfl⟩
    -- the segments named by `a` are the first of the path, so they are a path too
    let m : FakePath := {
      segments := (named cwd a).filter keeps
      valid := fun seg h => n.valid seg (hn ▸ List.mem_append_left _ h) }
    refine ⟨m.render, resolvePath_denotes.mpr ⟨charsA, m, rfl, rfl⟩, ?_⟩
    refine resolvePath_denotes.mpr ⟨charsB, n, ?_, rfl⟩
    rw [m.filter_named hb, hn]

/-- A spelling is absolute, and behind its slash it has no empty component, no `.`
and no `..`, unless it is the root. -/
theorem FakePath.render_components (q : FakePath) :
    q.render = [slash] ∨ ∀ c ∈ components q.render.tail, PathSegment c := by
  by_cases hnil : q.segments = []
  · left
    rw [FakePath.render, hnil]
    rfl
  · right
    intro c hc
    rw [FakePath.render, List.tail_cons,
      components_joinSlash (fun c hc => (q.valid c hc).plain) hnil] at hc
    exact q.valid c hc

/-- CONFINEMENT. `ResolvePath` succeeds exactly when the bytes of the argument are
allowed and no `..` is among the components it names, from any working directory; the
answer is the absolute path of those of them that are neither empty nor `.`; and a
second step from the answer is one step along both arguments. -/
theorem resolvePath_confines (cwd arg : Bytes) :
    ((∃ p, resolvePath cwd arg = .ok p) ↔
      (∀ b ∈ arg, ¬ (b < 0x20 ∨ b = 0x7F ∨ b = Go.backslash ∨ b = Go.colon)) ∧
        if arg.head? = some slash then Go.dotdot ∉ components arg
        else Go.dotdot ∉ components cwd ∧ Go.dotdot ∉ components arg) ∧
    (∀ p, resolvePath cwd arg = .ok p →
      p = slash :: joinSlash ((if arg.head? = some slash then components arg
        else components cwd ++ components arg).filter fun c => c ≠ [] ∧ c ≠ dot) ∧
      (p = [slash] ∨ ∀ c ∈ components p.tail, c ≠ [] ∧ c ≠ dot ∧ c ≠ Go.dotdot)) ∧
    (∀ b q, arg ≠ [] → b.head? ≠ some slash →
      ((∃ p, resolvePath cwd arg = .ok p ∧ resolvePath p b = .ok q) ↔
        resolvePath cwd (arg ++ slash :: b) = .ok q)) := by
  refine ⟨?_, ?_, fun b q => resolvePath_two_steps⟩
  · have chars : PathBytes arg ↔
        ∀ b ∈ arg, ¬ (b < 0x20 ∨ b = 0x7F ∨ b = Go.backslash ∨ b = Go.colon) :=
      forall₂_congr fun b _ => pathByte_iff
    rw [← dotdot_named, ← chars]
    exact resolvePath_succeeds
  · intro p hp
    obtain ⟨-, q, hq, rfl⟩ := resolvePath_denotes.mp hp
    refine ⟨?_, ?_⟩
    · rw [FakePath.render, hq]
      rfl
    · refine q.render_components.imp_right fun h c hc => ?_
      exact ⟨(h c hc).full, (h c hc).notDot, (h c hc).notDotdot⟩

end FakeSSH.Shell
