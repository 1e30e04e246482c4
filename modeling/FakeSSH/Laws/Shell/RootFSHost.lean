import FakeSSH.Laws.Shell.Children
import FakeSSH.Shell.RootFSHost

/-!
# Every root file system is one that a load leaves

A walk over the host counts a directory when it is seen and makes it when it is opened,
so between two entries the names on the stack are counted and not yet made (`Pending`).
Nothing else differs from the archives. The turns that `loadRootFSFromDir` allows are
enough (`walkDirs_turns`): a turn pushes what it has read and is rid of one file.
-/

namespace FakeSSH.Shell

open FakeSSH.Go FakeSSH.Lib

variable {σ : Type} {a : Afero σ} {c : Bytes} {waiting : List Bytes} {stack : List WalkItem}
  {item : WalkItem}

/-! ## Names -/

theorem HostName.segment (n : HostName) : PathSegment n.text :=
  ⟨n.full, n.notDot, n.notDotdot, n.plain⟩

/-- An item of the stack is the root's or has a clean name. -/
def WalkItem.Clean (item : WalkItem) : Prop := item.fakeClean = [] ∨ CleanName item.fakeClean

theorem WalkItem.Clean.join (h : item.Clean) (n : HostName) :
    ∃ q : FakePath, q.segments ≠ [] ∧ Go.join item.fakeClean n.text = joinSlash q.segments := by
  rcases h with root | clean
  · refine ⟨⟨[n.text], List.forall_mem_singleton.mpr n.segment⟩, List.cons_ne_nil _ _, ?_⟩
    rw [← FakePath.clean_segments _ (List.cons_ne_nil _ _)]
    show Go.join item.fakeClean n.text = Go.clean (joinSlash [n.text])
    rw [Go.join, root, if_neg (not_not.mpr rfl), if_pos n.full, joinSlash_singleton]
  · have full := clean.full
    obtain ⟨⟨q, some, spelled⟩, -⟩ := clean
    have valid : ∀ seg ∈ q.segments ++ [n.text], PathSegment seg :=
      List.forall_mem_append.mpr ⟨q.valid, List.forall_mem_singleton.mpr n.segment⟩
    have longer : q.segments ++ [n.text] ≠ [] := List.append_ne_nil_of_left_ne_nil some _
    refine ⟨⟨_, valid⟩, longer, ?_⟩
    rw [← FakePath.clean_segments ⟨_, valid⟩ longer]
    show _ = Go.clean (joinSlash (q.segments ++ [n.text]))
    rw [Go.join, if_pos full, spelled, joinSlash_append some (List.cons_ne_nil _ _),
      joinSlash_singleton]

/-- The name of an entry is never the root's. -/
theorem WalkItem.Clean.child (h : item.Clean) {n : HostName}
    (accepted : cleanArchivePath (Go.join item.fakeClean n.text) = .ok c) : CleanName c := by
  refine (cleanArchivePath_ok accepted).resolve_left ?_
  obtain ⟨q, some, spelled⟩ := h.join n
  rw [(cleanArchivePath_ok_iff.mp accepted).2, spelled, q.clean_segments some]
  intro isDot
  have parts := components_joinSlash (fun c hc => (q.valid c hc).plain) some
  rw [isDot] at parts
  have seg : dot ∈ q.segments := parts ▸ by decide
  exact (q.valid dot seg).notDot rfl

/-! ## The walk -/

/-- The names that wait on the stack. -/
def waitingOn (stack : List WalkItem) : List Bytes :=
  (stack.map WalkItem.fakeClean).filter fun c => decide (c ≠ [])

theorem waitingOn_cons (item : WalkItem) (stack : List WalkItem) :
    waitingOn (item :: stack) =
      if item.fakeClean ≠ [] then item.fakeClean :: waitingOn stack else waitingOn stack := by
  rw [waitingOn, List.map_cons, List.filter_cons]
  simp only [decide_eq_true_eq]
  rfl

/-- Between two changes: all is made but some of the names that were counted. -/
def Waits (a : Afero σ) (waiting : List Bytes) (s : Loader σ) : Prop :=
  ∃ names, Pending a names waiting s

theorem Waits.sound {s : Loader σ} (h : Waits a waiting s) : s.Sound a :=
  h.elim fun _ pending => pending.sound

/-- Of a part of a load it is enough here which names wait. -/
theorem waits_of_pending {ε : Type} {later : List Bytes} {x : Watched (Loader σ) ε Unit}
    (h : ∀ names, ∃ names', Watched.Holds (Loader.Named a names') (Pending a names waiting) x
      (fun _ => Pending a names' later) (Loader.Named a names')) :
    Watched.Holds (Loader.Sound a) (Waits a waiting) x (fun _ => Waits a later)
      (Loader.Sound a) := by
  rintro s ⟨names, pending⟩
  obtain ⟨names', holds⟩ := h names
  have forget (s : Loader σ) (h : s.Named a names') := h.sound
  exact ((holds.weaken forget forget).post fun _ _ h => ⟨names', h⟩) s pending

/-- The walk between two entries: what was counted is made or on the stack. -/
def Walked (a : Afero σ) (stack : List WalkItem) (s : Loader σ) : Prop :=
  Waits a (waitingOn stack) s ∧ ∀ item ∈ stack, item.Clean

theorem loadDirEntry_holds (clean : item.Clean) (name : HostName)
    (lstat : Except Bytes FileInfo) (file : HostFile) :
    Watched.Holds (Loader.Sound a) (Walked a stack) (loadDirEntry a item name lstat file)
      (fun pushed => Walked a (pushed.toList ++ stack)) (Loader.Sound a) := by
  have fails (e : HostError) : Watched.Holds (Loader.Sound a) (Walked a stack)
      (Watched.fail e : Walking σ (Option WalkItem))
      (fun pushed => Walked a (pushed.toList ++ stack)) (Loader.Sound a) :=
    .fail fun s h => h.1.sound
  unfold loadDirEntry
  dsimp only
  split
  next => exact fails _
  next info _ =>
  split
  next => exact fails _
  next =>
  split
  next => exact fails _
  next c accepted =>
  have child := clean.child accepted
  intro s walked
  -- the stack's own names do not change, so its items stay clean
  have counts : Watched.Holds (Loader.Sound a) (Waits a (waitingOn stack))
      ((add c).mapError HostError.load) (fun _ => Waits a (c :: waitingOn stack))
      (Loader.Sound a) :=
    (waits_of_pending fun names => ⟨names ++ [c], add_waits child⟩).mapError _
  refine (Watched.Holds.bind counts fun _ => ?_) s walked.1
  refine .ite (fun _ => .pure ?_) fun _ => .ite (fun _ => ?_) fun _ => .fail fun s h => h.sound
  · intro s pending
    refine ⟨?_, List.forall_mem_cons.mpr ⟨.inr child, walked.2⟩⟩
    show Waits a (waitingOn (_ :: stack)) s
    rw [waitingOn_cons, if_pos child.full]
    exact pending
  · refine .bind (.lift (fun _ _ h _ => h) fun _ h => h.sound) fun _ => ?_
    split
    next => exact .fail fun s h => h.sound
    next =>
      have makes : Watched.Holds (Loader.Sound a) (Waits a (c :: waitingOn stack)) (makeFile a c)
          (fun _ => Waits a (waitingOn stack)) (Loader.Sound a) :=
        waits_of_pending fun names => ⟨names, makeFile_waits⟩
      refine .bind (makes.mapError _) fun _ => .pure ?_
      intro s pending
      exact ⟨pending, walked.2⟩

theorem loadDirEntries_holds (clean : item.Clean) (entries : HostEntries) :
    Watched.Holds (Loader.Sound a) (Walked a stack) (loadDirEntries a item entries stack)
      (Walked a) (Loader.Sound a) := by
  fun_induction loadDirEntries a item entries stack with
  | case1 stack => exact .pure fun s h => h
  | case2 name lstat file rest stack ih =>
    exact .bind (loadDirEntry_holds clean name lstat file) fun pushed => ih pushed

theorem makeItem_holds :
    Watched.Holds (Loader.Sound a) (Walked a (item :: stack)) (makeItem a item)
      (fun _ => Walked a stack) (Loader.Sound a) := by
  unfold makeItem
  have below {s : Loader σ} (h : Walked a (item :: stack) s) : ∀ item ∈ stack, item.Clean :=
    fun x hx => h.2 x (List.mem_cons_of_mem _ hx)
  refine .ite (fun named => ?_) fun root => .pure ?_
  · intro s walked
    have pending := walked.1
    rw [waitingOn_cons, if_pos named] at pending
    have makes : Watched.Holds (Loader.Sound a) (Waits a (item.fakeClean :: waitingOn stack))
        (makeDir a item.fakeClean) (fun _ => Waits a (waitingOn stack)) (Loader.Sound a) :=
      waits_of_pending fun names => ⟨names, makeDir_waits⟩
    exact ((makes.mapError HostError.load).post fun _ _ h => ⟨h, below walked⟩) s pending
  · intro s walked
    have pending := walked.1
    rw [waitingOn_cons, if_neg root] at pending
    exact ⟨pending, below walked⟩

/-! ## The turns -/

/-- How many files are on the stack and below it. -/
def stackWeight : List WalkItem → Nat
  | [] => 0
  | item :: stack => item.file.weight + stackWeight stack

theorem stackWeight_append (stack below : List WalkItem) :
    stackWeight (stack ++ below) = stackWeight stack + stackWeight below := by
  induction stack with
  | nil => exact (Nat.zero_add _).symm
  | cons item stack ih => rw [List.cons_append, stackWeight, ih, stackWeight, Nat.add_assoc]

/-- What is pushed is the entry's own file. -/
theorem loadDirEntry_pushed (name : HostName) (lstat : Except Bytes FileInfo) (file : HostFile) :
    Watched.Holds (fun _ => True) (fun _ => True) (loadDirEntry a item name lstat file)
      (fun pushed _ => stackWeight pushed.toList ≤ file.weight) fun _ => True := by
  unfold loadDirEntry
  dsimp only
  split
  next => exact .fail fun _ _ => trivial
  next =>
  split
  next => exact .fail fun _ _ => trivial
  next =>
  split
  next => exact .fail fun _ _ => trivial
  next =>
  refine .bind (Watched.holds_true _) fun _ => .ite (fun _ => .pure fun _ _ => Nat.le_refl _)
    fun _ => .ite (fun _ => .bind (Watched.holds_true _) fun _ => ?_)
      fun _ => .fail fun _ _ => trivial
  split
  next => exact .fail fun _ _ => trivial
  next => exact .bind (Watched.holds_true _) fun _ => .pure fun _ _ => Nat.zero_le _

theorem loadDirEntries_pushed (entries : HostEntries) :
    Watched.Holds (fun _ => True) (fun _ => True) (loadDirEntries a item entries stack)
      (fun pushed _ => stackWeight pushed ≤ entries.weight + stackWeight stack) fun _ => True := by
  fun_induction loadDirEntries a item entries stack with
  | case1 stack => exact .pure fun _ _ => Nat.le_add_left _ _
  | case2 name lstat file rest stack ih =>
    refine .bind (loadDirEntry_pushed name lstat file) fun pushed s fits => ?_
    obtain ⟨passed, ok, error⟩ := ih pushed s trivial
    refine ⟨passed, fun after answer => ?_, error⟩
    have later := ok after answer
    rw [stackWeight_append] at later
    rw [HostEntries.weight]
    omega

theorem HostFile.weight_eq (file : HostFile) : file.weight = file.entries.weight + 1 := by
  cases file
  rfl

/-- What is left on the stack when a directory has been read. -/
theorem walk_lighter {turns : Nat} (enough : stackWeight (item :: stack) ≤ turns + 1) (s : Loader σ)
    (left : List WalkItem)
    (ok : (loadDirEntries a item item.file.entries stack s).result = .ok left) :
    stackWeight left ≤ turns := by
  have pushed := (loadDirEntries_pushed item.file.entries).answer s left ok
  rw [stackWeight, item.file.weight_eq] at enough
  omega

/-- TURNS. The walk does not depend on how many turns it is allowed, if these are enough. -/
theorem walkDirs_turns (a : Afero σ) {f g : Nat} (hf : stackWeight stack ≤ f)
    (hg : stackWeight stack ≤ g) : walkDirs a f stack = walkDirs a g stack := by
  induction f generalizing g stack with
  | zero =>
    cases stack with
    | nil => cases g <;> rfl
    | cons item stack =>
      rw [stackWeight, item.file.weight_eq] at hf
      omega
  | succ f ih =>
    cases stack with
    | nil => cases g <;> rfl
    | cons item stack =>
      obtain ⟨g, rfl⟩ : ∃ g', g = g' + 1 := by
        refine ⟨g - 1, ?_⟩
        rw [stackWeight, item.file.weight_eq] at hg
        omega
      rw [walkDirs, walkDirs]
      refine Watched.bind_congr fun _ _ _ => Watched.bind_congr fun _ _ _ =>
        Watched.bind_congr fun s left ok => ?_
      rw [ih (walk_lighter hf s left ok) (walk_lighter hg s left ok)]

theorem walkDirs_holds {turns : Nat} (enough : stackWeight stack ≤ turns) :
    Watched.Holds (Loader.Sound a) (Walked a stack) (walkDirs a turns stack)
      (fun _ => Waits a []) (Loader.Sound a) := by
  have done : Watched.Holds (Loader.Sound a) (Walked a []) (pure () : Walking σ Unit)
      (fun _ => Waits a []) (Loader.Sound a) := .pure fun s walked => walked.1
  induction turns generalizing stack with
  | zero =>
    cases stack with
    | nil => exact done
    | cons item stack =>
      rw [stackWeight, item.file.weight_eq] at enough
      omega
  | succ turns ih =>
    cases stack with
    | nil => exact done
    | cons item stack =>
      intro s walked
      have clean := walked.2 item List.mem_cons_self
      have reads : Watched.Holds (Loader.Sound a) (Walked a stack)
          (loadDirEntries a item item.file.entries stack)
          (fun left s => Walked a left s ∧ stackWeight left ≤ turns) (Loader.Sound a) :=
        (loadDirEntries_holds clean _).answers (walk_lighter enough)
      refine (Watched.Holds.bind (.lift (fun _ _ h _ => h) fun _ h => h.1.sound) fun _ =>
        .bind makeItem_holds fun _ => .bind reads fun left => ?_) s walked
      split
      next => exact .fail fun s h => h.1.1.sound
      next =>
      split
      next => exact .fail fun s h => h.1.1.sound
      next => exact fun s h => ih h.2 s h.1

/-! ## Any load -/

/-- A load, whatever its errors are, takes one state between entries to another. -/
abbrev Keeps {ε : Type} (a : Afero σ) (x : Watched (Loader σ) ε Unit) : Prop :=
  Watched.Holds (Loader.Sound a) (Waits a []) x (fun _ => Waits a []) (Loader.Sound a)

theorem Adds.keeps {new : List Bytes} {x : Loading σ Unit} (h : Adds a new x) : Keeps a x :=
  waits_of_pending fun names => ⟨names ++ new, h names⟩

theorem loadRootFSFromDir_keeps (root : Bytes) (expected : FileInfo) (opened : Option Bytes)
    (file : HostFile) : Keeps a (loadRootFSFromDir a root expected opened file) := by
  unfold loadRootFSFromDir
  split
  next => exact .fail fun s h => h.sound
  next =>
    refine (walkDirs_holds ?_).pre fun s ready => ⟨?_, ?_⟩
    · rw [stackWeight, stackWeight, Nat.add_zero]
    · rw [waitingOn_cons, if_neg (not_not.mpr rfl)]
      exact ready
    · exact List.forall_mem_singleton.mpr (.inl rfl)

theorem loadRootFSFromFile_keeps (t : CaseTable) (file : Bytes) (expected : FileInfo)
    (host : HostArchive) : Keeps a (loadRootFSFromFile t a file expected host) := by
  have kept {α : Type} (x : Except ArchiveError α) : Watched.Holds (Loader.Sound a) (Waits a [])
      (Watched.lift x) (fun _ => Waits a []) (Loader.Sound a) :=
    .lift (fun _ _ h _ => h) fun _ h => h.sound
  refine .bind (kept _) fun _ => .bind (kept _) fun size => .ite (fun _ => ?_) fun _ => ?_
  · exact (loadRootFSFromZip_adds _ _ _).keeps.mapError _
  · split
    next => exact .fail fun s h => h.sound
    next => exact (loadRootFSFromReader_adds _).keeps.mapError _

theorem loadRootFS_keeps (t : CaseTable) (embedded : Except LoadError (List TarNext))
    (rootFS : Bytes) (host : HostPath) : Keeps a (loadRootFS t a embedded rootFS host) := by
  refine .ite (fun _ => (loadRootFSFromReader_adds _).keeps.mapError _) fun _ => ?_
  split
  next => exact .fail fun s h => h.sound
  next =>
  split
  next => exact .fail fun s h => h.sound
  next =>
    exact .ite (fun _ => (loadRootFSFromDir_keeps _ _ _ _).mapError _)
      fun _ => (loadRootFSFromFile_keeps t _ _ _).mapError _

/-- LOADING. Whatever is configured and whatever the host answers, every state of
`LoadRootFS` is bounded, and what it leaves when it succeeds is a loaded file system. -/
theorem loadRootFS_loaded (t : CaseTable) (a : Afero σ)
    (embedded : Except LoadError (List TarNext)) (rootFS : Bytes) (host : HostPath) :
    (∀ m ∈ (loadRootFS t a embedded rootFS host { fs := a.empty }).passed, Loader.Bounded a m) ∧
      ((loadRootFS t a embedded rootFS host { fs := a.empty }).result = .ok () →
        ∀ fs : RootFS, (∀ p, p ∈ fs.nodes ↔
          p ∈ a.nodes (loadRootFS t a embedded rootFS host { fs := a.empty }).state.fs) →
        fs.Loaded) := by
  obtain ⟨passed, ok, -⟩ := loadRootFS_keeps t embedded rootFS host _ ⟨[], pending_empty a⟩
  refine ⟨fun m hm => (passed m hm).bounded, ?_⟩
  intro succeeds fs same
  exact (ok () succeeds).sound.loaded same

end FakeSSH.Shell
