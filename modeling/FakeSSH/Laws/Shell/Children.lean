import FakeSSH.Laws.Shell.Redirect
import FakeSSH.Laws.Shell.RootFS
import FakeSSH.Lib.Compact
import FakeSSH.Shell.Runner

/-!
# The children of a directory

A path of the fake root is the root's or that of a name inside another one, and `dir`
and `base` take it apart. So the direct children of a directory, in a loaded file system
and in the dynamic store, are the names whose paths inside it are there. A listing has
them in order, each once.
-/

namespace FakeSSH.Shell

open FakeSSH.Go FakeSSH.Lib

variable {d n p : Bytes}

/-! ## Sorted names -/

/-- The loop of the source, on the sorted names. -/
theorem sortDedup_eq_compact (names : List Bytes) :
    sortDedup names = compact (names.insertionSort (· ≤ ·)) :=
  (compact_eq_destutter _).symm

theorem sortDedup_eq_dedup (names : List Bytes) :
    sortDedup names = (names.insertionSort (· ≤ ·)).dedup :=
  List.Pairwise.destutter_eq_dedup (List.pairwise_insertionSort _ _)

theorem mem_sortDedup {names : List Bytes} : n ∈ sortDedup names ↔ n ∈ names := by
  rw [sortDedup_eq_dedup, List.mem_dedup, List.mem_insertionSort]

theorem sortDedup_increasing (names : List Bytes) : (sortDedup names).Pairwise (· < ·) := by
  have sorted := List.pairwise_insertionSort (· ≤ ·) names
  rw [sortDedup_eq_dedup]
  have ordered := sorted.sublist (List.dedup_sublist _)
  exact (ordered.and (List.nodup_dedup _)).imp fun h =>
    (List.le_iff_lt_or_eq.mp h.1).resolve_right h.2

/-! ## Names inside a directory -/

/-- The path of a name inside a directory. -/
def inside (d n : Bytes) : Bytes := if d = [slash] then slash :: n else d ++ slash :: n

/-- The path of a name inside a path's directory. -/
def FakePath.snoc (q : FakePath) (n : Bytes) (hn : PathSegment n) : FakePath where
  segments := q.segments ++ [n]
  valid := List.forall_mem_append.mpr ⟨q.valid, List.forall_mem_singleton.mpr hn⟩

theorem FakePath.render_eq_root {q : FakePath} : q.render = [slash] ↔ q.segments = [] := by
  rw [FakePath.render, List.cons_eq_cons, and_iff_right rfl,
    joinSlash_eq_nil fun c hc => (q.valid c hc).full]

theorem FakePath.render_snoc (q : FakePath) (hn : PathSegment n) :
    (q.snoc n hn).render = inside q.render n := by
  unfold inside
  split
  next root =>
    have none := FakePath.render_eq_root.mp root
    show slash :: joinSlash (q.segments ++ [n]) = slash :: n
    rw [none, List.nil_append, joinSlash_singleton]
  next below =>
    have some : q.segments ≠ [] := fun h => below (FakePath.render_eq_root.mpr h)
    show slash :: joinSlash (q.segments ++ [n]) = slash :: joinSlash q.segments ++ slash :: n
    rw [joinSlash_append some (List.cons_ne_nil _ _), joinSlash_singleton]
    rfl

/-- A path is the root's, or that of a name inside another path's directory. -/
theorem FakePath.root_or_inside (q : FakePath) :
    q.render = [slash] ∨ ∃ (parent : FakePath) (n : Bytes), PathSegment n ∧
      q.render = inside parent.render n := by
  rcases List.eq_nil_or_concat' q.segments with none | ⟨front, n, some⟩
  · exact .inl (FakePath.render_eq_root.mpr none)
  · have valid : ∀ seg ∈ front ++ [n], PathSegment seg := some ▸ q.valid
    have hn : PathSegment n := valid n (List.mem_append_right _ (List.mem_singleton_self n))
    let parent : FakePath := ⟨front, fun seg hseg => valid seg (List.mem_append_left _ hseg)⟩
    refine .inr ⟨parent, n, hn, ?_⟩
    rw [← parent.render_snoc hn, FakePath.render, some]
    rfl

/-- Read from its end, a name without a slash is passed over as a whole. -/
theorem forall_mem_reverse_ne_slash (plain : slash ∉ n) :
    ∀ b ∈ n.reverse, decide (b ≠ slash) = true := by
  intro b hb
  rw [decide_eq_true_iff]
  rintro rfl
  exact plain (List.mem_reverse.mp hb)

/-- What stands before the last slash. -/
theorem splitDir_append (front : Bytes) (plain : slash ∉ n) :
    splitDir (front ++ slash :: n) = front ++ [slash] := by
  have name := forall_mem_reverse_ne_slash plain
  rw [splitDir, List.reverse_append, List.reverse_cons, List.append_assoc,
    List.dropWhile_append_of_pos name, List.singleton_append, List.dropWhile_cons_of_neg (by simp),
    List.reverse_cons, List.reverse_reverse]

theorem dir_inside (q : FakePath) (plain : slash ∉ n) : dir (inside q.render n) = q.render := by
  unfold inside
  split
  next root =>
    rw [root, dir, ← List.nil_append (slash :: n), splitDir_append [] plain]
    rfl
  next below =>
    have parts : components (q.render ++ [slash]) = components q.render ++ [[]] :=
      components_append_slash q.render []
    have plainer : Go.dotdot ∉ components (q.render ++ [slash]) := by
      rw [parts]
      exact fun h => (List.mem_append.mp h).elim q.dotdot_not_mem (by decide)
    rw [dir, splitDir_append _ plain, clean_absolute rfl plainer, parts, List.filter_append,
      q.filter_components]
    show slash :: joinSlash (q.segments ++ []) = q.render
    rw [List.append_nil]
    rfl

/-- The name behind the last slash. -/
theorem base_append (front : Bytes) (full : n ≠ []) (plain : slash ∉ n) :
    base (front ++ slash :: n) = n := by
  have last := forall_mem_reverse_ne_slash plain
  have starts : (n.reverse ++ slash :: front.reverse).dropWhile (· = slash) =
      n.reverse ++ slash :: front.reverse := by
    obtain ⟨b, rest, hn⟩ := List.exists_cons_of_ne_nil (List.reverse_ne_nil_iff.mpr full)
    have other := last b (hn ▸ List.mem_cons_self)
    rw [hn, List.cons_append, List.dropWhile_cons_of_neg]
    simpa using other
  have name : (((front ++ slash :: n).reverse.dropWhile (· = slash)).takeWhile
      (· ≠ slash)).reverse = n := by
    rw [List.reverse_append, List.reverse_cons, List.append_assoc, List.singleton_append, starts,
      List.takeWhile_append_of_pos last, List.takeWhile_cons_of_neg (by simp), List.append_nil,
      List.reverse_reverse]
  have some : front ++ slash :: n ≠ [] :=
    List.append_ne_nil_of_right_ne_nil _ (List.cons_ne_nil _ _)
  rw [base, if_neg some]
  dsimp only
  rw [name, if_neg full]

theorem base_inside (d : Bytes) (full : n ≠ []) (plain : slash ∉ n) : base (inside d n) = n := by
  unfold inside
  split
  · exact base_append [] full plain
  · exact base_append d full plain

/-- `dir` and `base` take a path below the root apart. -/
theorem FakePath.inside_dir_base (q : FakePath) (below : q.render ≠ [slash]) :
    PathSegment (base q.render) ∧ q.render = inside (dir q.render) (base q.render) := by
  rcases q.root_or_inside with root | ⟨parent, n, hn, spelled⟩
  · exact absurd root below
  · rw [spelled, dir_inside parent hn.plain, base_inside _ hn.full hn.plain]
    exact ⟨hn, rfl⟩

/-! ## The loaded file system -/

/-- What every load leaves: clean names below the root, and not too many. -/
structure RootFS.Loaded (fs : RootFS) : Prop where
  names : ∀ p ∈ fs.nodes, ∃ c, CleanName c ∧ p = slash :: c
  capped : fs.nodes.keys.length ≤ maxRootFSEntries

/-- The file system of a load that was sound to its end. -/
theorem Loader.Sound.loaded {σ : Type} {a : Afero σ} {s : Loader σ} {fs : RootFS}
    (sound : s.Sound a)
    (same : ∀ p, p ∈ fs.nodes ↔ p ∈ a.nodes s.fs) : fs.Loaded where
  names := by
    intro p hp
    obtain ⟨c, rfl, name, known, before⟩ := sound.made p ((same p).mp hp)
    exact ⟨c, (sound.clean name known).ancestor before, rfl⟩
  capped := by
    have nodes : fs.nodes.keys.toFinset = a.nodes s.fs := by
      ext p
      rw [List.mem_toFinset]
      exact same p
    rw [← List.toFinset_card_of_nodup fs.nodes.keys_nodup, nodes]
    exact sound.bounded.capped

theorem CleanName.fakePath {c : Bytes} (h : CleanName c) :
    ∃ q : FakePath, slash :: c = q.render ∧ q.render ≠ [slash] := by
  obtain ⟨q, some, rfl⟩ := h.path
  exact ⟨q, rfl, fun root => some (FakePath.render_eq_root.mp root)⟩

variable {fs : RootFS} {r : CommandRunner}

theorem RootFS.Loaded.path (loaded : fs.Loaded) (h : p ∈ fs.nodes) :
    ∃ q : FakePath, p = q.render ∧ q.render ≠ [slash] := by
  obtain ⟨c, clean, rfl⟩ := loaded.names p h
  exact clean.fakePath

/-- A directory has a path that resolves to itself. -/
theorem RootFS.Loaded.isDir (loaded : fs.Loaded) (h : fs.isDir d = true) :
    ∃ q : FakePath, d = q.render ∧ PathBytes q.render := by
  rw [RootFS.isDir, decide_eq_true_iff, RootFS.stat] at h
  split at h
  next root =>
    refine ⟨⟨[], nofun⟩, root, pathBytes_root⟩
  next =>
    have known : d ∈ fs.nodes := AList.lookup_isSome.mp (by rw [h]; rfl)
    obtain ⟨c, clean, rfl⟩ := loaded.names d known
    obtain ⟨q, spelled, -⟩ := clean.fakePath
    refine ⟨q, spelled, ?_⟩
    rw [← spelled]
    exact pathBytes_root.append clean.chars

theorem RootFS.Loaded.component (loaded : fs.Loaded) (h : n ∈ fs.readDirNames d) :
    n ≠ [] ∧ slash ∉ n := by
  obtain ⟨p, hp, rfl⟩ := List.mem_map.mp h
  obtain ⟨q, rfl, below⟩ := loaded.path (List.mem_filter.mp hp).1
  have seg := (q.inside_dir_base below).1
  exact ⟨seg.full, seg.plain⟩

theorem RootFS.Loaded.mem_readDirNames (loaded : fs.Loaded) (q : FakePath) (full : n ≠ [])
    (plain : slash ∉ n) : n ∈ fs.readDirNames q.render ↔ inside q.render n ∈ fs.nodes := by
  unfold RootFS.readDirNames
  simp only [List.mem_map, List.mem_filter, decide_eq_true_eq]
  constructor
  · rintro ⟨p, ⟨known, -, parent⟩, rfl⟩
    obtain ⟨child, rfl, below⟩ := loaded.path known
    rw [← parent, ← (child.inside_dir_base below).2]
    exact known
  · intro known
    obtain ⟨child, spelled, below⟩ := loaded.path known
    exact ⟨_, ⟨known, spelled ▸ below, dir_inside q plain⟩, base_inside _ full plain⟩

/-! ## The dynamic store -/

theorem DynamicStore.Valid.path {s : DynamicStore} (valid : DynamicStore.Valid s)
    (h : p ∈ s.entries) : ∃ q : FakePath, p = q.render := by
  obtain ⟨e, he⟩ := Option.isSome_iff_exists.mp (AList.lookup_isSome.mpr h)
  rw [← valid.own p e he]
  exact (normalizeDynamicPath_ok (valid.valid p e he).path).2.1

theorem DynamicStore.Valid.mem_paths {s : DynamicStore} (valid : DynamicStore.Valid s) :
    (∃ e ∈ dynamicEntries s, e.path = p) ↔ p ∈ s.entries := by
  rw [← valid.dynamicEntryExists_iff]
  simp [dynamicEntryExists]

/-- The names of the entries in a directory: those of the paths inside it, and for the
root its own. -/
theorem mem_dynamicChildNames (valid : DynamicStore.Valid r.dynamic) :
    n ∈ dynamicChildNames r d ↔ ∃ p ∈ r.dynamic.entries, dir p = d ∧ base p = n := by
  unfold dynamicChildNames
  simp only [List.mem_map, List.mem_filter, decide_eq_true_eq]
  constructor
  · rintro ⟨e, ⟨he, parent⟩, name⟩
    exact ⟨e.path, valid.mem_paths.mp ⟨e, he, rfl⟩, parent, name⟩
  · rintro ⟨p, known, parent, name⟩
    obtain ⟨e, he, rfl⟩ := valid.mem_paths.mpr known
    exact ⟨e, ⟨he, parent⟩, name⟩

theorem dynamicChildNames_component (valid : DynamicStore.Valid r.dynamic)
    (noRoot : [slash] ∉ r.dynamic.entries) (h : n ∈ dynamicChildNames r d) :
    n ≠ [] ∧ slash ∉ n := by
  obtain ⟨p, known, -, rfl⟩ := (mem_dynamicChildNames valid).mp h
  obtain ⟨q, rfl⟩ := valid.path known
  have seg := (q.inside_dir_base fun root => noRoot (root ▸ known)).1
  exact ⟨seg.full, seg.plain⟩

theorem mem_dynamicChildNames_inside (valid : DynamicStore.Valid r.dynamic) (q : FakePath)
    (full : n ≠ []) (plain : slash ∉ n) :
    n ∈ dynamicChildNames r q.render ↔ inside q.render n ∈ r.dynamic.entries := by
  rw [mem_dynamicChildNames valid]
  constructor
  · rintro ⟨p, known, parent, rfl⟩
    obtain ⟨child, rfl⟩ := valid.path known
    have below : child.render ≠ [slash] := by
      intro root
      rw [root] at plain
      exact plain (List.mem_singleton_self slash)
    rw [← parent, ← (child.inside_dir_base below).2]
    exact known
  · intro known
    exact ⟨_, known, dir_inside q plain, base_inside _ full plain⟩

end FakeSSH.Shell
