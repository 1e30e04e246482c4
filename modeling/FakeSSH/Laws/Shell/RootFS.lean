import FakeSSH.Laws.Shell.Paths
import FakeSSH.Shell.RootFS
import Mathlib.Data.Finset.Card

/-!
# What a load makes

A name is counted with its ancestors before anything is made of it, so what is made
was counted (`Loader.Sound`). Inside a count, what was counted is the names before and
the part of the name that the walk has reached. The count that passes the cap is the
last, and what it counted is never made. The names counted are those of the archive's
directories and regular files, in order, as far as the load has come (`Loader.Named`).
One triple for each function of the loader carries this through whole loads, those that
fail included.
-/

namespace FakeSSH.Shell

open FakeSSH.Go FakeSSH.Lib

variable {σ : Type} {a : Afero σ} {s : Loader σ} {c p x : Bytes}

/-! ## Clean names -/

/-- What a cleaned name other than the root's is. -/
structure CleanName (c : Bytes) : Prop where
  path : ∃ q : FakePath, q.segments ≠ [] ∧ c = joinSlash q.segments
  short : c.length ≤ maxRootFSPathLen
  chars : PathBytes c

theorem FakePath.slashPrefix_iff (q : FakePath) (hne : q.segments ≠ []) :
    SlashPrefix p (joinSlash q.segments) ↔
      ∃ front back, q.segments = front ++ back ∧ front ≠ [] ∧ p = joinSlash front :=
  slashPrefix_joinSlash (fun c hc => (q.valid c hc).full) (fun c hc => (q.valid c hc).plain) hne

/-- The ancestors of a clean name are clean names. -/
theorem CleanName.ancestor (h : CleanName c) (hp : SlashPrefix p c) : CleanName p := by
  obtain ⟨⟨q, hne, rfl⟩, short, chars⟩ := h
  refine ⟨?_, ?_, ?_⟩
  · obtain ⟨front, back, hq, hfront, rfl⟩ := (q.slashPrefix_iff hne).mp hp
    refine ⟨⟨front, fun seg hseg => q.valid seg ?_⟩, hfront, rfl⟩
    rw [hq]
    exact List.mem_append_left _ hseg
  · rcases hp.2 with heq | ⟨rest, heq⟩
    · rw [← heq]
      exact short
    · rw [heq, List.length_append] at short
      omega
  · rcases hp.2 with heq | ⟨rest, heq⟩
    · rw [← heq]
      exact chars
    · intro b hb
      apply chars
      rw [heq]
      exact List.mem_append_left _ hb

theorem CleanName.components (h : CleanName c) : ∀ seg ∈ components c, PathSegment seg := by
  obtain ⟨⟨q, hne, rfl⟩, -⟩ := h
  rw [components_joinSlash (fun c hc => (q.valid c hc).plain) hne]
  exact q.valid

theorem CleanName.full (h : CleanName c) : c ≠ [] := by
  rintro rfl
  exact (h.components [] (by decide)).full rfl

theorem CleanName.relative (h : CleanName c) : c.head? ≠ some slash := by
  obtain ⟨⟨q, -, rfl⟩, -⟩ := h
  exact joinSlash_relative (fun c hc => (q.valid c hc).full) fun c hc => (q.valid c hc).plain

theorem CleanName.notDot (h : CleanName c) : c ≠ dot := by
  rintro rfl
  exact (h.components dot (by decide)).notDot rfl

theorem CleanName.memPath (h : CleanName c) : memPath c = slash :: c := by
  unfold FakeSSH.Shell.memPath
  rw [if_neg (not_or.mpr ⟨h.full, h.notDot⟩), if_neg h.relative]

/-- The ancestors of a node's path are the paths of the name's ancestors. -/
theorem CleanName.slashPrefix_memPath (h : CleanName c) :
    SlashPrefix x (FakeSSH.Shell.memPath c) ↔ ∃ p, x = slash :: p ∧ SlashPrefix p c := by
  rw [h.memPath]
  constructor
  · rintro ⟨hx, heq | ⟨rest, heq⟩⟩
    · exact ⟨c, heq.symm, h.full, .inl rfl⟩
    · obtain ⟨b, p, rfl⟩ := List.exists_cons_of_ne_nil hx
      rw [List.cons_append] at heq
      obtain ⟨rfl, tail⟩ := List.cons.inj heq
      refine ⟨p, rfl, ?_, .inr ⟨rest, tail⟩⟩
      rintro rfl
      apply h.relative
      rw [tail]
      rfl
  · rintro ⟨p, rfl, -, rfl | ⟨rest, rfl⟩⟩
    · exact ⟨List.cons_ne_nil _ _, .inl rfl⟩
    · exact ⟨List.cons_ne_nil _ _, .inr ⟨rest, rfl⟩⟩

/-! ## The names the loader takes -/

/-- What `cleanArchivePath` asks of a name. -/
structure AcceptedName (name : Bytes) : Prop where
  full : name ≠ []
  short : name.length ≤ maxRootFSPathLen
  relative : name.head? ≠ some slash
  chars : PathBytes name
  plain : Go.dotdot ∉ Go.components name

/-- The loader's three searches refuse the bytes that the resolver refuses. -/
theorem pathBytes_iff : PathBytes p ↔
    p.findIdx? (fun b => decide (b < 0x20) || b == 0x7F) = none ∧ Go.backslash ∉ p ∧
      Go.colon ∉ p := by
  rw [List.findIdx?_eq_none_iff]
  constructor
  · intro chars
    refine ⟨fun b hb => ?_, fun hb => ?_, fun hb => ?_⟩
    · have := chars b hb
      simp only [pathByte, Bool.and_eq_true, Bool.not_eq_true'] at this
      exact this.1.1
    · exact absurd (chars _ hb) (by decide)
    · exact absurd (chars _ hb) (by decide)
  · rintro ⟨control, hback, hcolon⟩ b hb
    have notBack : b ≠ Go.backslash := fun h => hback (h ▸ hb)
    have notColon : b ≠ Go.colon := fun h => hcolon (h ▸ hb)
    simp only [pathByte, control b hb, Bool.not_false, Bool.true_and, Bool.and_eq_true, bne_iff_ne]
    exact ⟨notBack, notColon⟩

/-- Cleaning an accepted name keeps it in the root, so the last check finds nothing. -/
theorem clean_stays (relative : p.head? ≠ some slash) (plain : Go.dotdot ∉ Go.components p) :
    ¬ ((clean p).head? = some slash ∨ (str "../").isPrefixOf (clean p) = true ∨
      clean p = Go.dotdot) := by
  have valid : ∀ c ∈ (Go.components p).filter keeps, PathSegment c :=
    (FakePath.read p plain).valid
  have inside : (clean p).head? ≠ some slash ∧ Go.dotdot ∉ Go.components (clean p) := by
    rw [clean_relative relative plain]
    split
    next => exact ⟨by decide, by decide⟩
    next filled =>
    refine ⟨joinSlash_relative (fun c hc => (valid c hc).full) fun c hc => (valid c hc).plain, ?_⟩
    rw [components_joinSlash (fun c hc => (valid c hc).plain)
      fun hnil => filled (by rw [hnil]; rfl)]
    exact fun h => (valid _ h).notDotdot rfl
  rintro (rooted | front | heq)
  · exact inside.1 rooted
  · obtain ⟨more, hmore⟩ := List.isPrefixOf_iff_prefix.mp front
    apply inside.2
    rw [← hmore]
    have parts : Go.components (str "../" ++ more) = Go.components Go.dotdot ++ Go.components more :=
      components_append_slash Go.dotdot more
    rw [parts]
    exact List.mem_append_left _ (by decide)
  · apply inside.2
    rw [heq]
    decide

/-- LOADING A NAME. A name is taken exactly when it is accepted, under its clean form. -/
theorem cleanArchivePath_ok_iff {name : Bytes} :
    cleanArchivePath name = .ok c ↔ AcceptedName name ∧ c = clean name := by
  unfold cleanArchivePath cleanPlainPath
  constructor
  · intro h
    obtain ⟨full, h⟩ := check_eq_ok.mp h
    obtain ⟨short, h⟩ := check_eq_ok.mp h
    split at h
    next => cases h
    next control =>
    obtain ⟨hback, h⟩ := check_eq_ok.mp h
    obtain ⟨relative, h⟩ := check_eq_ok.mp h
    obtain ⟨hcolon, h⟩ := check_eq_ok.mp h
    obtain ⟨plain, h⟩ := check_eq_ok.mp h
    refine ⟨⟨full, Nat.le_of_not_lt short, relative, pathBytes_iff.mpr ⟨control, hback, hcolon⟩,
      plain⟩, ?_⟩
    split at h
    next hdot =>
      cases h
      exact hdot.symm
    next =>
      obtain ⟨-, h⟩ := check_eq_ok.mp h
      exact (Except.ok.inj h).symm
  · rintro ⟨accepted, rfl⟩
    obtain ⟨control, hback, hcolon⟩ := pathBytes_iff.mp accepted.chars
    rw [if_neg accepted.full, if_neg (Nat.not_lt.mpr accepted.short), control]
    dsimp only
    rw [if_neg hback, if_neg accepted.relative, if_neg hcolon, if_neg accepted.plain,
      if_neg (clean_stays accepted.relative accepted.plain)]
    split
    next hdot => rw [hdot]
    next => rfl

/-- The node of a name is made at the path that the name denotes. -/
theorem memPath_clean (plain : Go.dotdot ∉ Go.components p) :
    memPath (clean p) = (FakePath.read p plain).render := by
  rw [← resolve_clean plain, memPath]
  simp only [or_comm]

/-- What `cleanArchivePath` answers. -/
theorem cleanArchivePath_ok {name : Bytes} (h : cleanArchivePath name = .ok c) :
    c = dot ∨ CleanName c := by
  obtain ⟨accepted, rfl⟩ := cleanArchivePath_ok_iff.mp h
  rw [clean_relative accepted.relative accepted.plain]
  split
  next => exact .inl rfl
  next filled =>
  refine .inr ⟨⟨FakePath.read name accepted.plain, fun hnil => filled ?_, rfl⟩, ?_, ?_⟩
  · have : (Go.components name).filter keeps = [] := hnil
    rw [this]
    rfl
  · have bound := length_joinSlash_filter keeps (Go.components name)
    rw [joinSlash_components] at bound
    exact Nat.le_trans bound accepted.short
  · intro b hb
    rcases mem_joinSlash hb with rfl | ⟨seg, hseg, hb⟩
    · exact pathBytes_root _ (List.mem_singleton_self _)
    · exact accepted.chars b (mem_of_mem_components (List.mem_filter.mp hseg).1 hb)

/-- Valid segments are clean as they are. -/
theorem FakePath.clean_segments (q : FakePath) (some : q.segments ≠ []) :
    Go.clean (joinSlash q.segments) = joinSlash q.segments := by
  have full : ∀ c ∈ q.segments, c ≠ [] := fun c hc => (q.valid c hc).full
  have plain : ∀ c ∈ q.segments, slash ∉ c := fun c hc => (q.valid c hc).plain
  have parts := components_joinSlash plain some
  rw [clean_relative (joinSlash_relative full plain), parts, q.filter_keeps,
    if_neg fun h => some ((joinSlash_eq_nil full).mp h)]
  rw [parts]
  exact fun h => (q.valid _ h).notDotdot rfl

theorem CleanName.clean (h : CleanName c) : clean c = c := by
  obtain ⟨⟨q, some, rfl⟩, -⟩ := h
  exact q.clean_segments some

theorem AcceptedName.bytes {name : Bytes} (accepted : AcceptedName name) :
    PathBytes (memPath (Go.clean name)) := by
  rw [memPath_clean accepted.plain]
  intro b hb
  rcases FakePath.mem_read_render hb with rfl | hb
  · exact pathBytes_root _ (List.mem_singleton_self _)
  · exact accepted.chars b hb

/-- From the root, a relative name denotes what it denotes by itself. -/
theorem resolvePath_root {name : Bytes} (relative : name.head? ≠ some slash) :
    resolvePath [slash] name = .ok p ↔
      PathBytes name ∧ Go.dotdot ∉ Go.components name ∧ p = memPath (clean name) := by
  have hjoined : joined [slash] name = slash :: name := by
    rw [joined, if_neg relative]
    rfl
  have parts : Go.dotdot ∉ Go.components (slash :: name) ↔ Go.dotdot ∉ Go.components name := by
    rw [components_slash, List.mem_cons, not_or]
    exact and_iff_right (by decide)
  have same : ∀ (hslash : Go.dotdot ∉ Go.components (slash :: name))
      (plain : Go.dotdot ∉ Go.components name),
      (FakePath.read (slash :: name) hslash).render = (FakePath.read name plain).render := by
    intro _ _
    show slash :: joinSlash ((Go.components (slash :: name)).filter keeps) =
      slash :: joinSlash ((Go.components name).filter keeps)
    rw [components_slash, List.filter_cons_of_neg (by decide)]
  rw [resolvePath_ok_iff, hjoined]
  refine and_congr_right fun _ => ⟨?_, ?_⟩
  · rintro ⟨hslash, rfl⟩
    have plain := parts.mp hslash
    exact ⟨plain, (same hslash plain).trans (memPath_clean plain).symm⟩
  · rintro ⟨plain, rfl⟩
    have hslash := parts.mpr plain
    exact ⟨hslash, (memPath_clean plain).trans (same hslash plain).symm⟩

/-- ONE NAME SPACE. A node of the archive is reached under the path it was made at, from
every directory, and cleaning is idempotent; the loader and the resolver take the same
relative names, and lead them to the same path. -/
theorem loader_resolver_agree :
    (∀ name c, cleanArchivePath name = .ok c →
      (c ≠ dot → ∀ cwd, resolvePath cwd (memPath c) = .ok (memPath c)) ∧
      cleanArchivePath c = .ok c) ∧
    ∀ name, name.head? ≠ some slash → name.length ≤ maxRootFSPathLen →
      ((∃ c, cleanArchivePath name = .ok c) ↔
        name ≠ [] ∧ ∃ p, resolvePath [slash] name = .ok p) ∧
      ∀ c, cleanArchivePath name = .ok c → resolvePath [slash] name = .ok (memPath c) := by
  refine ⟨fun name c h => ⟨fun _ cwd => ?_, ?_⟩, fun name relative short => ⟨?_, fun c h => ?_⟩⟩
  · obtain ⟨accepted, rfl⟩ := cleanArchivePath_ok_iff.mp h
    have chars := accepted.bytes
    rw [memPath_clean accepted.plain] at chars ⊢
    exact FakePath.resolve _ cwd chars
  · rcases cleanArchivePath_ok h with rfl | hclean
    · decide
    · refine cleanArchivePath_ok_iff.mpr ⟨?_, hclean.clean.symm⟩
      exact ⟨hclean.full, hclean.short, hclean.relative, hclean.chars,
        fun hmem => (hclean.components _ hmem).notDotdot rfl⟩
  · constructor
    · rintro ⟨c, h⟩
      obtain ⟨accepted, -⟩ := cleanArchivePath_ok_iff.mp h
      exact ⟨accepted.full, _, (resolvePath_root relative).mpr
        ⟨accepted.chars, accepted.plain, rfl⟩⟩
    · rintro ⟨full, p, h⟩
      obtain ⟨chars, plain, -⟩ := (resolvePath_root relative).mp h
      exact ⟨_, cleanArchivePath_ok_iff.mpr ⟨⟨full, short, relative, chars, plain⟩, rfl⟩⟩
  · obtain ⟨accepted, rfl⟩ := cleanArchivePath_ok_iff.mp h
    exact (resolvePath_root relative).mpr ⟨accepted.chars, accepted.plain, rfl⟩

/-- At a name that is not clean, from a directory other than the root. -/
theorem loader_resolver_agree_of_relative :
    cleanArchivePath (str "a/./b") = .ok (str "a/b") ∧
      resolvePath (str "/x") (str "/a/b") = .ok (str "/a/b") ∧
      resolvePath [slash] (str "a/./b") = .ok (str "/a/b") := by
  have cleaned : cleanArchivePath (str "a/./b") = .ok (str "a/b") := by decide
  refine ⟨cleaned, ?_, ?_⟩
  · exact (loader_resolver_agree.1 _ _ cleaned).1 (by decide) (str "/x")
  · exact (loader_resolver_agree.2 (str "a/./b") (by decide) (by decide)).2 _ cleaned

/-! ## Ancestors -/

instance (p c : Bytes) : Decidable (SlashPrefix p c) :=
  decidable_of_iff (p ≠ [] ∧ (c = p ∨ p ++ [slash] <+: c)) <| by
    have same : p ++ [slash] <+: c ↔ ∃ rest, c = p ++ slash :: rest := by
      simp only [List.IsPrefix, List.append_assoc, List.singleton_append, eq_comm]
    rw [same]
    rfl

/-- A path and its ancestors. -/
def ancestry (p : Bytes) : Finset Bytes := (p.inits.filter (SlashPrefix · p)).toFinset

theorem mem_ancestry : x ∈ ancestry p ↔ SlashPrefix x p := by
  rw [ancestry, List.mem_toFinset, List.mem_filter, List.mem_inits, decide_eq_true_eq]
  refine ⟨fun h => h.2, fun h => ⟨?_, h⟩⟩
  rcases h.2 with rfl | ⟨rest, rfl⟩
  · exact List.prefix_refl _
  · exact List.prefix_append _ _

/-! ## Counting -/

/-- The state of a load between two of its changes. -/
structure Loader.Sound (a : Afero σ) (s : Loader σ) : Prop where
  seen : ∀ p, p ∈ s.counter.seen ↔ (∃ c ∈ s.names, SlashPrefix p c) ∨ SlashPrefix p s.walked
  count : s.counter.count = s.counter.seen.card
  made : ∀ x ∈ a.nodes s.fs, ∃ p, x = slash :: p ∧ ∃ c ∈ s.names, SlashPrefix p c
  capped : s.counter.count ≤ maxRootFSEntries ∨ s.counter.count = maxRootFSEntries + 1 ∧
    ∃ p ∈ s.counter.seen, ∀ c ∈ s.names, ¬ SlashPrefix p c
  clean : ∀ c ∈ s.names, CleanName c

theorem not_slashPrefix_nil : ¬ SlashPrefix p [] := by
  rintro ⟨hp, heq | ⟨rest, heq⟩⟩
  · exact hp heq.symm
  · simp at heq

/-- One segment further. -/
theorem slashPrefix_snoc {front : List Bytes} {seg : Bytes}
    (valid : ∀ c ∈ front ++ [seg], PathSegment c) :
    SlashPrefix p (joinSlash (front ++ [seg])) ↔
      p = joinSlash (front ++ [seg]) ∨ SlashPrefix p (joinSlash front) := by
  rw [FakePath.slashPrefix_iff ⟨front ++ [seg], valid⟩ (by simp)]
  have inner : ∀ c ∈ front, PathSegment c := fun c hc => valid c (List.mem_append_left _ hc)
  constructor
  · rintro ⟨start, back, hsplit, hbegin, rfl⟩
    rcases List.eq_nil_or_concat back with rfl | ⟨back', last, rfl⟩
    · rw [List.append_nil] at hsplit
      exact .inl (by rw [← hsplit])
    · rw [List.concat_eq_append, ← List.append_assoc] at hsplit
      obtain ⟨rfl, -⟩ := List.append_inj' hsplit rfl
      have hne : start ++ back' ≠ [] := fun h => hbegin (List.append_eq_nil_iff.mp h).1
      exact .inr ((FakePath.slashPrefix_iff ⟨_, inner⟩ hne).mpr ⟨start, back', rfl, hbegin, rfl⟩)
  · rintro (rfl | hp)
    · exact ⟨front ++ [seg], [], (List.append_nil _).symm, by simp, rfl⟩
    · have hne : front ≠ [] := by
        rintro rfl
        exact not_slashPrefix_nil hp
      obtain ⟨start, back, rfl, hbegin, rfl⟩ := (FakePath.slashPrefix_iff ⟨_, inner⟩ hne).mp hp
      exact ⟨start, back ++ [seg], List.append_assoc _ _ _, hbegin, rfl⟩

/-- A sound state that has counted the first of these names. -/
structure Loader.Named (a : Afero σ) (names : List Bytes) (s : Loader σ) : Prop where
  sound : s.Sound a
  counted : s.names <+: names

variable {names front segs : List Bytes} {fs : σ} {seg : Bytes}

theorem Loader.Named.mono {all : List Bytes} (h : s.Named a names) (hall : names <+: all) :
    s.Named a all :=
  ⟨h.sound, h.counted.trans hall⟩

/-- A count under way: after `names`, with the file system at `fs`, the segments `front`
of a name are counted. -/
structure Counting (a : Afero σ) (names : List Bytes) (fs : σ) (front : List Bytes)
    (s : Loader σ) : Prop where
  sound : s.Sound a
  room : s.counter.count ≤ maxRootFSEntries
  names_eq : s.names = names
  fs_eq : s.fs = fs
  walked_eq : s.walked = joinSlash front

theorem Counting.named (h : Counting a names fs front s) : s.Named a names :=
  ⟨h.sound, h.names_eq ▸ List.prefix_refl _⟩

/-- Walking on to a path that was counted. -/
theorem Counting.pass (h : Counting a names fs front s)
    (valid : ∀ c ∈ front ++ [seg], PathSegment c)
    (known : joinSlash (front ++ [seg]) ∈ s.counter.seen) :
    Counting a names fs (front ++ [seg]) { s with walked := joinSlash (front ++ [seg]) } where
  sound := by
    refine ⟨?_, h.sound.count, h.sound.made, h.sound.capped, h.sound.clean⟩
    intro p
    show p ∈ s.counter.seen ↔ (∃ c ∈ s.names, SlashPrefix p c) ∨ SlashPrefix p (joinSlash _)
    rw [slashPrefix_snoc valid]
    constructor
    · intro hp
      rcases (h.sound.seen p).mp hp with hp | hp
      · exact .inl hp
      · exact .inr (.inr (h.walked_eq ▸ hp))
    · rintro (hp | rfl | hp)
      · exact (h.sound.seen p).mpr (.inl hp)
      · exact known
      · exact (h.sound.seen p).mpr (.inr (h.walked_eq ▸ hp))
  room := h.room
  names_eq := h.names_eq
  fs_eq := h.fs_eq
  walked_eq := rfl

/-- The loader after counting a new path. -/
def Loader.counting (s : Loader σ) (cur : Bytes) : Loader σ :=
  { s with
    counter := { seen := insert cur s.counter.seen, count := s.counter.count + 1 }
    walked := cur }

/-- Counting a new path, which may be one too many. -/
theorem Counting.new (h : Counting a names fs front s)
    (valid : ∀ c ∈ front ++ [seg], PathSegment c)
    (new : joinSlash (front ++ [seg]) ∉ s.counter.seen) :
    (s.counting (joinSlash (front ++ [seg]))).Named a names where
  sound := {
    seen := by
      intro p
      show p ∈ insert _ s.counter.seen ↔
        (∃ c ∈ s.names, SlashPrefix p c) ∨ SlashPrefix p (joinSlash (front ++ [seg]))
      rw [Finset.mem_insert, slashPrefix_snoc valid, h.sound.seen p, h.walked_eq]
      exact or_left_comm
    count := by
      show s.counter.count + 1 = (insert _ s.counter.seen).card
      rw [Finset.card_insert_of_notMem new, h.sound.count]
    made := h.sound.made
    capped := by
      show s.counter.count + 1 ≤ _ ∨ s.counter.count + 1 = _ ∧ _
      by_cases full : s.counter.count + 1 ≤ maxRootFSEntries
      · exact .inl full
      · have room := h.room
        refine .inr ⟨by omega, _, Finset.mem_insert_self _ _, fun c hc hp => new ?_⟩
        exact (h.sound.seen _).mpr (.inl ⟨c, hc, hp⟩)
    clean := h.sound.clean }
  counted := h.named.counted

/-- The path that the loop builds. -/
theorem walk_eq (valid : ∀ c ∈ front, PathSegment c) :
    (if joinSlash front = [] then seg else joinSlash front ++ slash :: seg) =
      joinSlash (front ++ [seg]) := by
  by_cases hfront : front = []
  · rw [hfront, List.nil_append, joinSlash_singleton]
    rfl
  · rw [if_neg fun h => hfront ((joinSlash_eq_nil fun c hc => (valid c hc).full).mp h),
      joinSlash_append hfront (List.cons_ne_nil _ _), joinSlash_singleton]

/-- The loop: a count of the remaining segments. -/
theorem addFrom_holds (valid : ∀ c ∈ front ++ segs, PathSegment c) :
    Watched.Holds (Loader.Named a names) (Counting a names fs front)
      (addFrom (joinSlash front) segs) (fun _ => Counting a names fs (front ++ segs))
      (Loader.Named a names) := by
  induction segs generalizing front with
  | nil =>
    rw [List.append_nil]
    exact .pure fun s h => h
  | cons seg segs ih =>
    have inner : ∀ c ∈ front, PathSegment c := fun c hc => valid c (List.mem_append_left _ hc)
    have step : front ++ seg :: segs = (front ++ [seg]) ++ segs := by simp
    rw [step] at valid ⊢
    have here : ∀ c ∈ front ++ [seg], PathSegment c :=
      fun c hc => valid c (List.mem_append_left _ hc)
    have full : seg ≠ [] := (here seg (by simp)).full
    unfold addFrom
    rw [if_neg full, walk_eq inner]
    refine .bind_read fun before => .ite (fun known => ?_) fun new => ?_
    · refine .bind_change ?_ ((ih valid).pre ?_)
      · rintro s ⟨rfl, h⟩
        exact (h.pass here known).named
      · rintro _ ⟨s, ⟨rfl, h⟩, rfl⟩
        exact h.pass here known
    · refine .bind_change ?_ (.ite (fun _ => .fail ?_) fun room => (ih valid).pre ?_)
      · rintro s ⟨rfl, h⟩
        exact h.new here new
      · rintro _ ⟨s, ⟨rfl, h⟩, rfl⟩
        exact h.new here new
      · rintro _ ⟨s, ⟨rfl, h⟩, rfl⟩
        exact ⟨(h.new here new).sound, Nat.le_of_not_lt room, h.names_eq, h.fs_eq, rfl⟩

/-- Between two changes: `names` are counted, and all of them are made but those that wait. -/
structure Pending (a : Afero σ) (names waiting : List Bytes) (s : Loader σ) : Prop where
  sound : s.Sound a
  room : s.counter.count ≤ maxRootFSEntries
  names_eq : s.names = names
  walked_eq : s.walked = []
  counted : ∀ c ∈ waiting, c ∈ names
  settled : ∀ c ∈ names, c ∈ waiting ∨ ∀ p, SlashPrefix p c → slash :: p ∈ a.nodes s.fs

variable {waiting : List Bytes}

theorem Pending.named (h : Pending a names waiting s) : s.Named a names :=
  ⟨h.sound, h.names_eq ▸ List.prefix_refl _⟩

/-- A name whose count has come to its end is counted, and waits. -/
theorem Counting.finish (h : Counting a names fs front s) (hc : CleanName (joinSlash front))
    (counted : ∀ c ∈ waiting, c ∈ names)
    (settled : ∀ c ∈ names, c ∈ waiting ∨ ∀ p, SlashPrefix p c → slash :: p ∈ a.nodes fs) :
    Pending a (names ++ [joinSlash front]) (joinSlash front :: waiting)
      { s with names := s.names ++ [joinSlash front], walked := [] } where
  sound := by
    refine ⟨?_, h.sound.count, ?_, .inl h.room, ?_⟩
    · intro p
      show p ∈ s.counter.seen ↔ (∃ c ∈ s.names ++ [_], SlashPrefix p c) ∨ SlashPrefix p []
      rw [h.sound.seen p, h.walked_eq]
      simp only [List.mem_append, List.mem_singleton, or_and_right, exists_or, exists_eq_left,
        not_slashPrefix_nil, or_false]
    · intro x hx
      obtain ⟨p, rfl, c, hc, hp⟩ := h.sound.made x hx
      exact ⟨p, rfl, c, List.mem_append_left _ hc, hp⟩
    · intro c hmem
      rcases List.mem_append.mp hmem with hmem | hmem
      · exact h.sound.clean c hmem
      · rw [List.mem_singleton.mp hmem]
        exact hc
  room := h.room
  names_eq := by rw [h.names_eq]
  walked_eq := rfl
  counted := by
    refine List.forall_mem_cons.mpr ⟨List.mem_append_right _ (List.mem_singleton_self _), ?_⟩
    intro c hmem
    exact List.mem_append_left _ (counted c hmem)
  settled := by
    intro c hmem
    rcases List.mem_append.mp hmem with hmem | hmem
    · exact (settled c hmem).imp (List.mem_cons_of_mem _) fun made => h.fs_eq ▸ made
    · rw [List.mem_singleton.mp hmem]
      exact .inl List.mem_cons_self

theorem add_waits (hc : CleanName c) :
    Watched.Holds (Loader.Named a (names ++ [c])) (Pending a names waiting) (add c)
      (fun _ => Pending a (names ++ [c]) (c :: waiting)) (Loader.Named a (names ++ [c])) := by
  unfold add
  rw [if_neg (not_or.mpr ⟨hc.full, hc.notDot⟩)]
  intro s pending
  obtain ⟨⟨q, hne, rfl⟩, short, chars⟩ := hc
  rw [components_joinSlash (fun c hc => (q.valid c hc).plain) hne]
  have start : Counting a names s.fs [] s :=
    ⟨pending.sound, pending.room, pending.names_eq, rfl, pending.walked_eq⟩
  -- while the name is being counted, only the names before it are
  have earlier (s' : Loader σ) (h : s'.Named a names) :=
    h.mono (List.prefix_append _ [joinSlash q.segments])
  have count : Watched.Holds (Loader.Named a names) (Counting a names s.fs [])
      (addFrom [] q.segments) (fun _ => Counting a names s.fs q.segments) (Loader.Named a names) :=
    addFrom_holds q.valid
  have finish (s') (h : Counting a names s.fs q.segments s') :=
    h.finish ⟨⟨q, hne, rfl⟩, short, chars⟩ pending.counted pending.settled
  exact (Watched.Holds.bind (count.weaken earlier earlier) fun _ =>
    .change (fun s' h => (finish s' h).named) finish) s start

/-! ## Making -/

/-- What is assumed of `MkdirAll` and of `Create`. -/
structure Makes (a : Afero σ) (op : σ → Bytes → σ × Option Bytes) : Prop where
  within : ∀ fs p x, x ∈ a.nodes (op fs p).1 → x ∈ a.nodes fs ∨ SlashPrefix x p
  makes : ∀ fs p, (op fs p).2 = none →
    ∀ x, x ∈ a.nodes fs ∨ SlashPrefix x p → x ∈ a.nodes (op fs p).1

theorem makes_mkdirAll (a : Afero σ) : Makes a a.mkdirAll := ⟨a.mkdirAll_within, a.mkdirAll_makes⟩

theorem makes_create (a : Afero σ) : Makes a a.create := ⟨a.create_within, a.create_makes⟩

variable {op : σ → Bytes → σ × Option Bytes}

/-- Making a counted name, with or without success. -/
theorem Pending.make (h : Pending a names (c :: waiting) s) (hop : Makes a op) :
    Loader.Named a names { s with fs := (op s.fs (memPath c)).1 } where
  sound := {
    seen := h.sound.seen
    count := h.sound.count
    made := by
      have last : c ∈ s.names := h.names_eq ▸ h.counted c List.mem_cons_self
      intro x hx
      rcases hop.within _ _ _ hx with hx | hx
      · exact h.sound.made x hx
      · obtain ⟨p, rfl, hp⟩ := (h.sound.clean c last).slashPrefix_memPath.mp hx
        exact ⟨p, rfl, c, last, hp⟩
    capped := h.sound.capped
    clean := h.sound.clean }
  counted := h.named.counted

theorem Pending.made (h : Pending a names (c :: waiting) s) (hop : Makes a op)
    (ok : (op s.fs (memPath c)).2 = none) :
    Pending a names waiting { s with fs := (op s.fs (memPath c)).1 } where
  sound := (h.make hop).sound
  room := h.room
  names_eq := h.names_eq
  walked_eq := h.walked_eq
  counted := fun c' hc' => h.counted c' (List.mem_cons_of_mem _ hc')
  settled := by
    intro c' hc'
    have clean := h.sound.clean c' (h.names_eq ▸ hc')
    rcases h.settled c' hc' with waits | before
    · rcases List.mem_cons.mp waits with rfl | waits
      · refine .inr fun p hp => hop.makes _ _ ok _ (.inr ?_)
        exact clean.slashPrefix_memPath.mpr ⟨p, rfl, hp⟩
      · exact .inl waits
    · exact .inr fun p hp => hop.makes _ _ ok _ (.inl (before p hp))

theorem makeDir_waits :
    Watched.Holds (Loader.Named a names) (Pending a names (c :: waiting)) (makeDir a c)
      (fun _ => Pending a names waiting) (Loader.Named a names) := by
  refine .bind_read fun before => .bind_change ?_ ?_
  · rintro s ⟨rfl, h⟩
    exact h.make (makes_mkdirAll a)
  · split
    next =>
      refine .fail ?_
      rintro _ ⟨s, ⟨rfl, h⟩, rfl⟩
      exact h.make (makes_mkdirAll a)
    next ok =>
      refine .pure ?_
      rintro _ ⟨s, ⟨rfl, h⟩, rfl⟩
      exact h.made (makes_mkdirAll a) ok

theorem makeFile_waits :
    Watched.Holds (Loader.Named a names) (Pending a names (c :: waiting)) (makeFile a c)
      (fun _ => Pending a names waiting) (Loader.Named a names) := by
  refine .bind_read fun before => .bind_change ?_ ?_
  · rintro s ⟨rfl, h⟩
    exact h.make (makes_create a)
  · split
    next =>
      refine .fail ?_
      rintro _ ⟨s, ⟨rfl, h⟩, rfl⟩
      exact h.make (makes_create a)
    next ok =>
      split
      next =>
        refine .fail ?_
        rintro _ ⟨s, ⟨rfl, h⟩, rfl⟩
        exact h.make (makes_create a)
      next =>
        refine .pure ?_
        rintro _ ⟨s, ⟨rfl, h⟩, rfl⟩
        exact h.made (makes_create a) ok

/-! ## Whole loads -/

/-- A part of a load that counts these names, one after the other, and makes what it has
counted. Wherever it stops, it has counted the first of them. -/
def Adds (a : Afero σ) (new : List Bytes) (x : Loading σ Unit) : Prop :=
  ∀ names, Watched.Holds (Loader.Named a (names ++ new)) (Pending a names []) x
    (fun _ => Pending a (names ++ new) []) (Loader.Named a (names ++ new))

variable {new more : List Bytes}

theorem Pending.within (h : Pending a names waiting s) (new : List Bytes) :
    s.Named a (names ++ new) :=
  h.named.mono (List.prefix_append _ _)

theorem adds_pure : Adds a [] (pure ()) := by
  intro names
  rw [List.append_nil]
  exact .pure fun _ h => h

theorem adds_fail {e : LoadError} : Adds a new (Watched.fail e) :=
  fun _ => .fail fun _ h => h.within _

theorem Adds.bind {x y : Loading σ Unit} (first : Adds a new x) (second : Adds a more y) :
    Adds a (new ++ more) (x >>= fun _ => y) := by
  intro names
  rw [← List.append_assoc]
  have earlier (s : Loader σ) (h : s.Named a (names ++ new)) := h.mono (List.prefix_append _ more)
  exact .bind ((first names).weaken earlier earlier) fun _ => second (names ++ new)

/-- What is opened first counts nothing. -/
theorem Adds.bind_lift {α : Type} {x : Except LoadError α} {f : α → Loading σ Unit}
    (h : ∀ v, x = .ok v → Adds a new (f v)) : Adds a new (Watched.lift x >>= f) := by
  intro names
  cases x with
  | error e =>
    have stops : Watched.Holds (Loader.Named a (names ++ new)) (Pending a names [])
        (Watched.lift (.error e) : Loading σ α) (fun _ _ => False)
        (Loader.Named a (names ++ new)) :=
      .lift nofun fun _ h => h.within _
    exact .bind stops fun _ _ => False.elim
  | ok v => exact h v rfl names

/-- A change of the loader's other variables. -/
theorem Pending.other (h : Pending a names waiting s) (rawHeaders : Nat) (totalBodyBytes : Int) :
    Pending a names waiting { s with rawHeaders, totalBodyBytes } :=
  ⟨⟨h.sound.seen, h.sound.count, h.sound.made, h.sound.capped, h.sound.clean⟩, h.room,
    h.names_eq, h.walked_eq, h.counted, h.settled⟩

theorem addDir_adds (hc : CleanName c) : Adds a [c] (do add c; makeDir a c) :=
  fun _ => .bind (add_waits hc) fun _ => makeDir_waits

theorem addFile_adds (hc : CleanName c) : Adds a [c] (do add c; makeFile a c) :=
  fun _ => .bind (add_waits hc) fun _ => makeFile_waits

theorem drainTarBody_adds {h : TarHeader} : Adds a [] (drainTarBody c h) := by
  intro names
  rw [List.append_nil]
  refine .bind_read fun before => ?_
  refine .ite (fun _ => .fail fun s hs => hs.2.named) fun _ => ?_
  refine .ite (fun _ => .pure fun s hs => hs.2) fun _ => ?_
  refine .ite (fun _ => .fail fun s hs => hs.2.named) fun _ => ?_
  refine .ite (fun _ => .fail fun s hs => hs.2.named) fun _ => ?_
  refine .ite (fun _ => .fail fun s hs => hs.2.named) fun _ => ?_
  exact .change (fun s hs => (hs.2.other _ _).named) fun s hs => hs.2.other _ _

/-! ## The names of an archive -/

/-- What an entry contributes: its cleaned name, if it is a directory or a regular file and
not the root. -/
def nodeName (isNode : Bool) (name : Bytes) : List Bytes :=
  match cleanArchivePath name with
  | .ok clean => if isNode ∧ clean ≠ dot then [clean] else []
  | .error _ => []

def TarType.isNode : TarType → Bool
  | .dir | .reg => true
  | _ => false

def TarNext.nodeName : TarNext → List Bytes
  | .header h => FakeSSH.Shell.nodeName (tarType h.typeflag).isNode h.name
  | .failed _ => []

def ZipEntry.nodeName (f : ZipEntry) : List Bytes :=
  FakeSSH.Shell.nodeName (f.mode &&& modeDir ≠ 0 ∨ f.mode &&& modeType = 0) f.name

/-- The names of the directories and regular files of an archive that could be opened. -/
def nodeNames {ε α : Type} (nodeName : α → List Bytes) : Except ε (List α) → List Bytes
  | .ok entries => entries.flatMap nodeName
  | .error _ => []

variable {name : Bytes} {isNode : Bool}

/-- What is done for the entry with the name `c`: the root is left alone, and nothing but
directories and regular files is made. -/
theorem adds_node (hc : cleanArchivePath name = .ok c) {x : Loading σ Unit}
    (node : isNode = true) (made : CleanName c → Adds a [c] x) :
    Adds a (nodeName isNode name) (if c = [] ∨ c = dot then pure () else x) := by
  rw [nodeName, hc]
  dsimp only
  rcases cleanArchivePath_ok hc with rfl | clean
  · rw [if_neg fun h => h.2 rfl, if_pos (.inr rfl)]
    exact adds_pure
  · rw [if_pos ⟨node, clean.notDot⟩, if_neg (not_or.mpr ⟨clean.full, clean.notDot⟩)]
    exact made clean

theorem nodeName_false : nodeName false name = [] := by
  unfold nodeName
  split
  next => rfl
  next => rfl

theorem loadTarEntry_adds {h : TarHeader} (hc : cleanArchivePath h.name = .ok c) :
    Adds a (TarNext.header h).nodeName (loadTarEntry a h c) := by
  unfold loadTarEntry
  show Adds a (nodeName (tarType h.typeflag).isNode h.name) _
  cases tarType h.typeflag with
  | dir => exact adds_node hc rfl addDir_adds
  | reg => exact drainTarBody_adds.bind (adds_node hc rfl addFile_adds)
  | metadata =>
    show Adds a (nodeName false h.name) _
    rw [nodeName_false]
    exact adds_pure
  | _ => exact adds_fail

theorem loadTar_adds (nexts : List TarNext) :
    Adds a (nexts.flatMap TarNext.nodeName) (loadTar a nexts) := by
  induction nexts with
  | nil => exact adds_pure
  | cons next rest ih =>
    cases next with
    | failed e => exact adds_fail
    | header h =>
      intro names
      refine .bind_read fun before => .bind_change ?_ (.ite (fun _ => .fail ?_) fun _ => ?_)
      · rintro s ⟨rfl, hs⟩
        exact (hs.other _ _).within _
      · rintro _ ⟨s, ⟨rfl, hs⟩, rfl⟩
        exact (hs.other _ _).within _
      · have counted : ∀ s, (∃ old, (old = before ∧ Pending a names [] old) ∧
            s = { old with rawHeaders := old.rawHeaders + 1 }) → Pending a names [] s := by
          rintro _ ⟨s, ⟨rfl, hs⟩, rfl⟩
          exact hs.other _ _
        split
        next => exact (adds_fail names).pre counted
        next clean hc => exact ((loadTarEntry_adds hc).bind ih names).pre counted

theorem loadRootFSFromReader_adds (opened : Except LoadError (List TarNext)) :
    Adds a (nodeNames TarNext.nodeName opened) (loadRootFSFromReader a opened) := by
  refine .bind_lift fun nexts hopened => ?_
  rw [hopened]
  exact loadTar_adds nexts

theorem loadZipEntry_adds {f : ZipEntry} (hc : cleanArchivePath f.name = .ok c) :
    Adds a f.nodeName (loadZipEntry a f c) := by
  unfold loadZipEntry ZipEntry.nodeName
  by_cases dir : f.mode &&& modeDir ≠ 0
  · rw [if_pos dir]
    exact adds_node hc (decide_eq_true (.inl dir)) addDir_adds
  · rw [if_neg dir]
    by_cases regular : f.mode &&& modeType = 0
    · rw [if_pos regular]
      exact adds_node hc (decide_eq_true (.inr regular)) addFile_adds
    · rw [if_neg regular, decide_eq_false (not_or.mpr ⟨dir, regular⟩), nodeName_false]
      intro names
      refine .ite (fun _ => adds_pure names) fun _ => ?_
      refine .ite (fun _ => adds_fail names) fun _ => ?_
      refine .ite (fun _ => adds_fail names) fun _ => ?_
      refine .ite (fun _ => adds_fail names) fun _ => ?_
      refine .ite (fun _ => adds_fail names) fun _ => ?_
      exact .ite (fun _ => adds_fail names) fun _ => adds_fail names

theorem loadZip_adds (files : List ZipEntry) :
    Adds a (files.flatMap ZipEntry.nodeName) (loadZip a files) := by
  induction files with
  | nil => exact adds_pure
  | cons f rest ih =>
    unfold loadZip
    split
    next => exact adds_fail
    next clean hc => exact (loadZipEntry_adds hc).bind ih

theorem loadRootFSFromZip_adds (file : Bytes) (size : Int)
    (opened : Except Bytes (List ZipEntry)) :
    Adds a (nodeNames ZipEntry.nodeName opened) (loadRootFSFromZip a file size opened) := by
  refine .bind_lift fun _ _ => .bind_lift fun files hopened => ?_
  cases opened with
  | error e => cases hopened
  | ok entries =>
    cases hopened
    intro names
    exact .ite (fun _ => adds_fail names) fun _ => loadZip_adds files names

/-! ## The cap -/

/-- What holds at every moment of a load. -/
structure Loader.Bounded (a : Afero σ) (s : Loader σ) : Prop where
  created : ∀ x ∈ a.nodes s.fs, ∃ p ∈ s.counter.seen, x = memPath p
  seen : ∀ p, p ∈ s.counter.seen ↔ (∃ c ∈ s.names, SlashPrefix p c) ∨ SlashPrefix p s.walked
  count : s.counter.count = s.counter.seen.card
  capped : (a.nodes s.fs).card ≤ maxRootFSEntries

/-- What is made was counted, and not as the one too many. -/
theorem Loader.Sound.bounded (h : s.Sound a) : s.Bounded a where
  created := by
    intro x hx
    obtain ⟨p, rfl, c, hc, hp⟩ := h.made x hx
    exact ⟨p, (h.seen p).mpr (.inl ⟨c, hc, hp⟩), ((h.clean c hc).ancestor hp).memPath.symm⟩
  seen := h.seen
  count := h.count
  capped := by
    have within {kept : Finset Bytes}
        (hkept : ∀ p, (∃ c ∈ s.names, SlashPrefix p c) → p ∈ kept) :
        (a.nodes s.fs).card ≤ kept.card := by
      have sub : a.nodes s.fs ⊆ kept.image (slash :: ·) := by
        intro x hx
        obtain ⟨p, rfl, hp⟩ := h.made x hx
        exact Finset.mem_image.mpr ⟨p, hkept p hp, rfl⟩
      exact le_trans (Finset.card_le_card sub) Finset.card_image_le
    rcases h.capped with room | ⟨full, p, hp, unmade⟩
    · rw [h.count] at room
      exact le_trans (within fun p hp => (h.seen p).mpr (.inl hp)) room
    · have rest : (s.counter.seen.erase p).card = maxRootFSEntries := by
        rw [Finset.card_erase_of_mem hp, ← h.count, full]
        rfl
      rw [← rest]
      apply within
      rintro p' ⟨c, hc, hp'⟩
      refine Finset.mem_erase.mpr ⟨?_, (h.seen p').mpr (.inl ⟨c, hc, hp'⟩)⟩
      rintro rfl
      exact unmade c hc hp'

/-- A load from nothing of an archive with the directories and regular files `kept`: at
every moment it is bounded and has counted the first of these names. When it succeeds it
has counted them all, and exactly they and their ancestors are made, each of them short
and free of `.`, `..` and empty components. -/
structure LoadBounded (a : Afero σ) (load : Loading σ Unit) (kept : List Bytes) : Prop where
  always : ∀ m ∈ { fs := a.empty } :: (load { fs := a.empty }).passed,
    Loader.Bounded a m ∧ m.names <+: kept
  ended : Loader.Bounded a (load { fs := a.empty }).state ∧
    (load { fs := a.empty }).state.names <+: kept
  counted : (load { fs := a.empty }).result = .ok () →
    (load { fs := a.empty }).state.names = kept ∧ (load { fs := a.empty }).state.walked = []
  made : (load { fs := a.empty }).result = .ok () →
    ∀ x, x ∈ a.nodes (load { fs := a.empty }).state.fs ↔
      ∃ c ∈ kept, ∃ p, SlashPrefix p c ∧ x = memPath p
  short : (load { fs := a.empty }).result = .ok () → ∀ c ∈ kept, ∀ p, SlashPrefix p c →
    p.length ≤ maxRootFSPathLen ∧
      ∀ seg ∈ components p, seg ≠ [] ∧ seg ≠ dot ∧ seg ≠ Go.dotdot

theorem pending_empty (a : Afero σ) : Pending a [] [] { fs := a.empty } where
  sound := {
    seen := by
      intro p
      simp [not_slashPrefix_nil]
    count := rfl
    made := by
      intro x hx
      have : x ∈ a.nodes a.empty := hx
      rw [a.nodes_empty] at this
      cases this
    capped := .inl (Nat.zero_le _)
    clean := by
      intro c hc
      cases hc }
  room := Nat.zero_le _
  names_eq := rfl
  walked_eq := rfl
  counted := nofun
  settled := nofun

/-- When nothing waits, the nodes are the counted names and their ancestors. -/
theorem Pending.nodes_iff (h : Pending a names [] s) :
    x ∈ a.nodes s.fs ↔ ∃ c ∈ names, ∃ p, SlashPrefix p c ∧ x = memPath p := by
  have clean : ∀ c ∈ names, CleanName c := h.names_eq ▸ h.sound.clean
  constructor
  · intro hx
    obtain ⟨p, rfl, c, hc, hp⟩ := h.sound.made x hx
    rw [h.names_eq] at hc
    exact ⟨c, hc, p, hp, ((clean c hc).ancestor hp).memPath.symm⟩
  · rintro ⟨c, hc, p, hp, rfl⟩
    rw [((clean c hc).ancestor hp).memPath]
    exact (h.settled c hc).resolve_left List.not_mem_nil p hp

theorem Adds.loadBounded {load : Loading σ Unit} (h : Adds a new load) :
    LoadBounded a load new := by
  obtain ⟨passed, ok, error⟩ := h [] _ (pending_empty a)
  constructor
  · intro m hm
    rcases List.mem_cons.mp hm with rfl | hm
    · exact ⟨(pending_empty a).sound.bounded, List.nil_prefix⟩
    · exact ⟨(passed m hm).sound.bounded, (passed m hm).counted⟩
  · cases hresult : (load { fs := a.empty }).result with
    | ok _ => exact ⟨(ok _ hresult).sound.bounded, (ok _ hresult).named.counted⟩
    | error e => exact ⟨(error e hresult).sound.bounded, (error e hresult).counted⟩
  · exact fun hresult => ⟨(ok () hresult).names_eq, (ok () hresult).walked_eq⟩
  · exact fun hresult x => (ok () hresult).nodes_iff
  · intro hresult c hc p hp
    have loaded := ok () hresult
    have name := (loaded.sound.clean c (loaded.names_eq ▸ hc)).ancestor hp
    refine ⟨name.short, ?_⟩
    intro seg hseg
    have valid := name.components seg hseg
    exact ⟨valid.full, valid.notDot, valid.notDotdot⟩

/-- THE NODE CAP. Every load of a tar stream and every load of a zip file is bounded,
whatever the headers or entries are and wherever it ends. -/
theorem rootfs_loads_bounded (a : Afero σ) :
    (∀ opened : Except LoadError (List TarNext),
      LoadBounded a (loadRootFSFromReader a opened) (nodeNames TarNext.nodeName opened)) ∧
      ∀ (file : Bytes) (size : Int) (opened : Except Bytes (List ZipEntry)),
        LoadBounded a (loadRootFSFromZip a file size opened)
          (nodeNames ZipEntry.nodeName opened) :=
  ⟨fun opened => (loadRootFSFromReader_adds opened).loadBounded,
    fun file size opened => (loadRootFSFromZip_adds file size opened).loadBounded⟩

/-- The assumptions on the file system can be met: by the set of its paths. -/
def pathSet : Afero (Finset Bytes) where
  empty := ∅
  nodes := id
  mkdirAll fs p := (fs ∪ ancestry p, none)
  create fs p := (fs ∪ ancestry p, none)
  close _ _ := none
  nodes_empty := rfl
  mkdirAll_within := fun _ _ _ h => (Finset.mem_union.mp h).imp_right mem_ancestry.mp
  mkdirAll_makes := fun _ _ _ _ h => Finset.mem_union.mpr (h.imp_right mem_ancestry.mpr)
  create_within := fun _ _ _ h => (Finset.mem_union.mp h).imp_right mem_ancestry.mp
  create_makes := fun _ _ _ _ h => Finset.mem_union.mpr (h.imp_right mem_ancestry.mpr)

/-- A tar stream with a file whose parent has no header, a header of the root and one of
an extended header. -/
def implicitParent : List TarNext :=
  [.header { name := str "a/./b", typeflag := 0x30, size := 3, body := 3 },
    .header { name := str "./", typeflag := 0x35 },
    .header { name := str "pax", typeflag := 0x78 }]

theorem rootfs_loads_bounded_of_implicitParent :
    nodeNames TarNext.nodeName (.ok implicitParent : Except LoadError _) = [str "a/b"] ∧
      (loadRootFSFromReader pathSet (.ok implicitParent) { fs := ∅ }).result = .ok () ∧
      (loadRootFSFromReader pathSet (.ok implicitParent) { fs := ∅ }).state.fs =
        {str "/a", str "/a/b"} ∧
      (loadRootFSFromReader pathSet (.ok implicitParent) { fs := ∅ }).state.counter.count = 2 ∧
      LoadBounded pathSet (loadRootFSFromReader pathSet (.ok implicitParent)) [str "a/b"] :=
  ⟨by decide, by decide, by decide, by decide,
    (rootfs_loads_bounded pathSet).1 (.ok implicitParent)⟩

end FakeSSH.Shell
