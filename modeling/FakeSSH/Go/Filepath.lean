import FakeSSH.Go.Path

/-!
# `path/filepath` on Unix

There the separator is the slash and a path has no volume, so `Clean` and `Join` are
those of `path`, and `FromSlash` changes nothing. What is left is `IsAbs` and `Rel`.

`rel` walks off the components that the two cleaned paths share, goes up once for
each that is left of the base and then down what is left of the target. It fails when
one path is rooted and the other is not, and when what is left of the base starts
with a `..`, which only the working directory could resolve.
`join_rel` is the documented law, for rooted paths.
-/

namespace FakeSSH.Go

/-- `filepath.IsAbs`. -/
def isAbs (p : Bytes) : Bool := p.head? == some slash

/-- What is left of two lists behind their longest common beginning. -/
def diverge {α : Type} [DecidableEq α] : List α → List α → List α × List α
  | x :: xs, y :: ys => if x = y then diverge xs ys else (x :: xs, y :: ys)
  | xs, ys => (xs, ys)

/-- The components of a path that name something. -/
def segments (p : Bytes) : List Bytes := (components p).filter keeps

/-- `filepath.Rel`; `none` is its error. -/
def rel (base targ : Bytes) : Option Bytes :=
  let base := clean base
  let targ := clean targ
  if targ = base then some dot
  else if isAbs base ≠ isAbs targ then none
  else
    let rest := diverge (segments base) (segments targ)
    if rest.1.head? = some dotdot then none
    else some (joinSlash (List.replicate rest.1.length dotdot ++ rest.2))

/-! ## Common beginnings -/

section Diverge

variable {α : Type} [DecidableEq α]

theorem diverge_common (xs ys : List α) :
    ∃ shared, xs = shared ++ (diverge xs ys).1 ∧ ys = shared ++ (diverge xs ys).2 := by
  fun_induction diverge xs ys with
  | case1 xs x ys ih =>
    obtain ⟨shared, hxs, hys⟩ := ih
    exact ⟨x :: shared, by rw [List.cons_append, ← hxs], by rw [List.cons_append, ← hys]⟩
  | case2 x xs y ys h => exact ⟨[], rfl, rfl⟩
  | case3 xs ys h => exact ⟨[], rfl, rfl⟩

/-- Nothing is left of a list exactly when the other starts with it. -/
theorem diverge_fst_eq_nil {xs ys : List α} : (diverge xs ys).1 = [] ↔ xs <+: ys := by
  fun_induction diverge xs ys with
  | case1 xs x ys ih => rw [ih, List.cons_prefix_cons, and_iff_right rfl]
  | case2 x xs y ys h =>
    refine iff_of_false (List.cons_ne_nil _ _) ?_
    rw [List.cons_prefix_cons]
    exact fun hp => h hp.1
  | case3 xs ys h =>
    constructor
    · intro hnil
      rw [show xs = [] from hnil]
      exact List.nil_prefix
    · intro hp
      cases xs with
      | nil => rfl
      | cons x xs =>
        cases ys with
        | nil => exact absurd (List.prefix_nil.mp hp) (List.cons_ne_nil _ _)
        | cons y ys => exact absurd rfl (h x xs y ys rfl)

end Diverge

/-! ## Clean rooted paths -/

/-- A component that a clean rooted path can have. -/
structure Segment (c : Bytes) : Prop where
  full : c ≠ []
  notDot : c ≠ dot
  notDotdot : c ≠ dotdot
  plain : slash ∉ c

/-- An absolute path as `EvalSymlinks` and `Abs` return it. -/
structure CleanAbs (p : Bytes) : Prop where
  rooted : p.head? = some slash
  fixed : clean p = p

theorem filter_keeps_segments {segs : List Bytes} (valid : ∀ c ∈ segs, Segment c) :
    segs.filter keeps = segs := by
  rw [List.filter_eq_self]
  intro c hc
  exact keeps_iff.mpr ⟨(valid c hc).full, (valid c hc).notDot⟩

theorem cleanStep_segments {out : List Bytes} {c : Bytes} (hout : ∀ d ∈ out, Segment d)
    (hc : slash ∉ c) : ∀ d ∈ cleanStep true out c, Segment d := by
  unfold cleanStep
  split
  next => exact hout
  next hkept =>
    obtain ⟨full, notDot⟩ := not_or.mp hkept
    split
    next =>
      -- a rooted path goes up from its last segment, and at the root not at all
      cases out with
      | nil => exact hout
      | cons top below =>
        obtain ⟨htop, hbelow⟩ := List.forall_mem_cons.mp hout
        dsimp only
        rw [if_neg htop.notDotdot]
        exact hbelow
    next hup => exact List.forall_mem_cons.mpr ⟨⟨full, notDot, hup, hc⟩, hout⟩

theorem foldl_cleanStep_segments {cs out : List Bytes} (hcs : ∀ c ∈ cs, slash ∉ c)
    (hout : ∀ d ∈ out, Segment d) : ∀ d ∈ cs.foldl (cleanStep true) out, Segment d := by
  induction cs generalizing out with
  | nil => exact hout
  | cons c cs ih =>
    obtain ⟨hc, hcs⟩ := List.forall_mem_cons.mp hcs
    exact ih hcs (cleanStep_segments hout hc)

/-- A rooted path is cleaned to the spelling of some segments. -/
theorem clean_segments {p : Bytes} (rooted : p.head? = some slash) :
    ∃ segs, (∀ c ∈ segs, Segment c) ∧ clean p = slash :: joinSlash segs := by
  have hroot : (p.head? == some slash) = true := by
    rw [rooted]
    rfl
  refine ⟨((components p).foldl (cleanStep true) []).reverse, ?_, ?_⟩
  · intro c hc
    exact foldl_cleanStep_segments (fun d hd => slash_not_mem_components hd)
      (List.forall_mem_nil _) c (List.mem_reverse.mp hc)
  · rw [clean, hroot]
    rfl

theorem segments_render {segs : List Bytes} (valid : ∀ c ∈ segs, Segment c) :
    segments (slash :: joinSlash segs) = segs := by
  rw [segments, components_slash, List.filter_cons_of_neg (by decide)]
  by_cases hnil : segs = []
  · rw [hnil]
    decide
  · rw [components_joinSlash (fun c hc => (valid c hc).plain) hnil, filter_keeps_segments valid]

/-- A `..` would be among the segments. -/
theorem dotdot_not_mem_of_segments {p : Bytes} (valid : ∀ c ∈ segments p, Segment c) :
    dotdot ∉ components p := by
  intro hdots
  have hmem : dotdot ∈ segments p := (mem_filter_keeps (by decide)).mpr hdots
  exact (valid dotdot hmem).notDotdot rfl

/-- A clean rooted path is the spelling of its segments. -/
theorem CleanAbs.reads {p : Bytes} (h : CleanAbs p) :
    (∀ c ∈ segments p, Segment c) ∧ p = slash :: joinSlash (segments p) := by
  obtain ⟨segs, valid, cleaned⟩ := clean_segments h.rooted
  rw [h.fixed] at cleaned
  have same : segments p = segs := by
    rw [cleaned]
    exact segments_render valid
  rw [same]
  exact ⟨valid, cleaned⟩

/-- The spelling of segments is clean. -/
theorem cleanAbs_render {segs : List Bytes} (valid : ∀ c ∈ segs, Segment c) :
    CleanAbs (slash :: joinSlash segs) := by
  have read := segments_render valid
  have plain : dotdot ∉ components (slash :: joinSlash segs) :=
    dotdot_not_mem_of_segments (read.symm ▸ valid)
  refine ⟨rfl, ?_⟩
  rw [clean_absolute rfl plain]
  exact congrArg (fun cs => slash :: joinSlash cs) read

theorem cleanAbs_clean {p : Bytes} (rooted : p.head? = some slash) : CleanAbs (clean p) := by
  obtain ⟨segs, valid, cleaned⟩ := clean_segments rooted
  rw [cleaned]
  exact cleanAbs_render valid

theorem CleanAbs.ext {p q : Bytes} (hp : CleanAbs p) (hq : CleanAbs q)
    (same : segments p = segments q) : p = q := by
  rw [hp.reads.2, hq.reads.2, same]

/-- Between two clean rooted paths that differ: up from what is left of the base, then
down what is left of the target. -/
theorem rel_cleanAbs {base targ : Bytes} (hbase : CleanAbs base) (htarg : CleanAbs targ)
    (differ : targ ≠ base) :
    rel base targ = some (joinSlash
      (List.replicate (diverge (segments base) (segments targ)).1.length dotdot ++
        (diverge (segments base) (segments targ)).2)) := by
  have rooted : ¬ isAbs base ≠ isAbs targ := by
    rw [isAbs, isAbs, hbase.rooted, htarg.rooted]
    exact fun h => h rfl
  obtain ⟨shared, hshared, -⟩ := diverge_common (segments base) (segments targ)
  have noUp : ¬ (diverge (segments base) (segments targ)).1.head? = some dotdot := by
    intro hhead
    have hmem : dotdot ∈ segments base := by
      rw [hshared]
      exact List.mem_append_right _ (List.mem_of_head? hhead)
    exact (hbase.reads.1 _ hmem).notDotdot rfl
  unfold rel
  rw [hbase.fixed, htarg.fixed, if_neg differ, if_neg rooted, if_neg noUp]

/-- The components of `Rel`'s answer: ups, then segments. -/
theorem upDown_component {n : Nat} {segs : List Bytes} (valid : ∀ c ∈ segs, Segment c) :
    ∀ c ∈ List.replicate n dotdot ++ segs, c ≠ [] ∧ slash ∉ c := by
  intro c hc
  rcases List.mem_append.mp hc with hc | hc
  · rw [List.eq_of_mem_replicate hc]
    decide
  · exact ⟨(valid c hc).full, (valid c hc).plain⟩

/-- Going up from a list of segments, last first, drops the last. -/
theorem foldl_up {out : List Bytes} (hout : ∀ d ∈ out, Segment d) (n : Nat) :
    (List.replicate n dotdot).foldl (cleanStep true) out = out.drop n := by
  have kept : ¬ (dotdot = [] ∨ dotdot = dot) := by decide
  induction n generalizing out with
  | zero => rfl
  | succ n ih =>
    rw [List.replicate_succ, List.foldl_cons, cleanStep.eq_def, if_neg kept, if_pos rfl]
    cases out with
    | nil => exact (ih hout).trans List.drop_nil
    | cons top below =>
      obtain ⟨htop, hbelow⟩ := List.forall_mem_cons.mp hout
      dsimp only
      rw [if_neg htop.notDotdot, ih hbelow, List.drop_succ_cons]

/-- Going down pushes the segments. -/
theorem foldl_down {segs : List Bytes} (valid : ∀ c ∈ segs, Segment c) (out : List Bytes) :
    segs.foldl (cleanStep true) out = segs.reverse ++ out := by
  have plain : dotdot ∉ segs := fun h => (valid _ h).notDotdot rfl
  rw [foldl_cleanStep plain, filter_keeps_segments valid]

theorem CleanAbs.foldl_components {p : Bytes} (h : CleanAbs p) :
    (components p).foldl (cleanStep true) [] = (segments p).reverse := by
  rw [foldl_cleanStep (dotdot_not_mem_of_segments h.reads.1), List.append_nil]
  rfl

theorem CleanAbs.join_eq {p r : Bytes} (h : CleanAbs p) :
    join p r =
      slash :: joinSlash ((components r).foldl (cleanStep true) (segments p).reverse).reverse := by
  have hp : p ≠ [] := by
    rintro rfl
    cases h.rooted
  have rooted : ((p ++ slash :: r).head? == some slash) = true := by
    rw [List.head?_append, h.rooted]
    rfl
  rw [join, if_pos hp, clean, rooted, components_append_slash, List.foldl_append,
    h.foldl_components]
  rfl

/-- The documented law of `Rel`, for rooted paths: joined to the base, the answer is
the target. -/
theorem join_rel {base targ r : Bytes} (hbase : CleanAbs base) (htarg : CleanAbs targ)
    (h : rel base targ = some r) : join base r = targ := by
  by_cases same : targ = base
  · have hr : rel base targ = some dot := by
      rw [rel, hbase.fixed, htarg.fixed, if_pos same]
    rw [hr] at h
    cases h
    have stay : (components dot).foldl (cleanStep true) (segments base).reverse =
        (segments base).reverse := rfl
    rw [hbase.join_eq, stay, List.reverse_reverse, ← hbase.reads.2, same]
  · rw [rel_cleanAbs hbase htarg same] at h
    cases h
    obtain ⟨shared, hleft, hrest⟩ := diverge_common (segments base) (segments targ)
    generalize (diverge (segments base) (segments targ)).1 = left at hleft ⊢
    generalize (diverge (segments base) (segments targ)).2 = rest at hrest ⊢
    have hvalid : ∀ c ∈ rest, Segment c := by
      intro c hc
      exact htarg.reads.1 c (hrest ▸ List.mem_append_right _ hc)
    have plain : ∀ c ∈ List.replicate left.length dotdot ++ rest, slash ∉ c :=
      fun c hc => (upDown_component hvalid c hc).2
    have some : List.replicate left.length dotdot ++ rest ≠ [] := by
      intro hnil
      obtain ⟨hup, hdown⟩ := List.append_eq_nil_iff.mp hnil
      have hleftNil : left = [] := List.length_eq_zero_iff.mp ((List.replicate_eq_nil_iff _).mp hup)
      apply same
      apply htarg.ext hbase
      rw [hleft, hrest, hleftNil, hdown]
    have hreverse : ∀ d ∈ (segments base).reverse, Segment d :=
      fun d hd => hbase.reads.1 d (List.mem_reverse.mp hd)
    have up : (segments base).reverse.drop left.length = shared.reverse := by
      rw [hleft, List.reverse_append, List.drop_left' List.length_reverse]
    rw [hbase.join_eq, components_joinSlash plain some, List.foldl_append, foldl_up hreverse, up,
      foldl_down hvalid, List.reverse_append, List.reverse_reverse, List.reverse_reverse, ← hrest,
      ← htarg.reads.2]

end FakeSSH.Go
