import FakeSSH.Go.Strings

/-!
# `path.Clean`

The lexical cleaning of a slash-separated path, written on its components as
the package documentation states it: empty and `.` components are dropped, a
`..` drops the component before it, a `..` at the root of a rooted path is
dropped, and an empty result is `.`.

The laws below cover the paths this development meets after a check has
refused every `..` component: there cleaning is a filter of the components, and
on components that survive the filter it changes nothing.
-/

namespace FakeSSH.Go

def dot : Bytes := str "."
def dotdot : Bytes := str ".."

/-- `strings.Split(p, "/")`. -/
def components (p : Bytes) : List Bytes := p.splitOn slash

/-- `strings.Join(cs, "/")`. -/
def joinSlash (cs : List Bytes) : Bytes := [slash].intercalate cs

/-- One component against the output so far, which is kept last-first. -/
def cleanStep (rooted : Bool) (out : List Bytes) (c : Bytes) : List Bytes :=
  if c = [] ∨ c = dot then out
  else if c = dotdot then
    match out with
    | top :: below => if top = dotdot then c :: out else below
    | [] => if rooted then [] else [c]
  else c :: out

/-- `path.Clean`. -/
def clean (p : Bytes) : Bytes :=
  let rooted := p.head? == some slash
  let body := joinSlash ((components p).foldl (cleanStep rooted) []).reverse
  if rooted then slash :: body else if body = [] then dot else body

/-- `path.Join` of two elements. -/
def join (p q : Bytes) : Bytes :=
  if p ≠ [] then clean (p ++ slash :: q) else if q ≠ [] then clean q else []

/-- `path.Split`, the directory part: all through the last slash. -/
def splitDir (p : Bytes) : Bytes := (p.reverse.dropWhile (· ≠ slash)).reverse

/-- `path.Dir`. -/
def dir (p : Bytes) : Bytes := clean (splitDir p)

/-- `path.Base`. -/
def base (p : Bytes) : Bytes :=
  if p = [] then dot
  else
    let name := ((p.reverse.dropWhile (· = slash)).takeWhile (· ≠ slash)).reverse
    if name = [] then [slash] else name

/-- A component that cleaning keeps as it is. -/
def keeps (c : Bytes) : Bool := decide (c ≠ [] ∧ c ≠ dot)

theorem keeps_iff {c : Bytes} : keeps c = true ↔ c ≠ [] ∧ c ≠ dot := decide_eq_true_iff

theorem not_keeps_iff {c : Bytes} : ¬ keeps c = true ↔ c = [] ∨ c = dot := by
  rw [keeps_iff, not_and_or, not_not, not_not]

/-- What is kept is found among what is kept. -/
theorem mem_filter_keeps {c : Bytes} (h : keeps c = true) {cs : List Bytes} :
    c ∈ cs.filter keeps ↔ c ∈ cs := by
  rw [List.mem_filter, and_iff_left h]

theorem components_joinSlash {cs : List Bytes} (plain : ∀ c ∈ cs, slash ∉ c) (some : cs ≠ []) :
    components (joinSlash cs) = cs :=
  List.splitOn_intercalate slash plain some

/-- No component contains the separator it was split on. -/
theorem slash_not_mem_components {p c : Bytes} (h : c ∈ components p) : slash ∉ c := by
  induction p generalizing c with
  | nil =>
    simp only [components, List.splitOn_nil, List.mem_singleton] at h
    subst h
    exact List.not_mem_nil
  | cons b p ih =>
    rw [components, List.splitOn_cons_eq_if_modifyHead] at h
    split at h
    · rcases List.mem_cons.mp h with rfl | h
      · exact List.not_mem_nil
      · exact ih h
    · rename_i hb
      cases hs : p.splitOn slash with
      | nil => exact absurd hs (List.splitOn_ne_nil _ _)
      | cons first rest =>
        have hfirst : first ∈ components p := by rw [components, hs]; exact List.mem_cons_self
        rw [hs, List.modifyHead_cons] at h
        rcases List.mem_cons.mp h with rfl | h
        · simp only [List.mem_cons, not_or]
          refine ⟨?_, ih hfirst⟩
          intro heq
          exact hb (by simp [heq])
        · exact ih (by rw [components, hs]; exact List.mem_cons_of_mem _ h)

theorem components_slash (p : Bytes) : components (slash :: p) = [] :: components p := by
  simp [components, List.splitOn_cons_eq_if_modifyHead]

/-- Splitting at a slash that is there. -/
theorem components_append_slash (p q : Bytes) :
    components (p ++ slash :: q) = components p ++ components q :=
  List.splitOn_append_cons_self p q

theorem joinSlash_components (p : Bytes) : joinSlash (components p) = p :=
  List.intercalate_splitOn slash

theorem joinSlash_singleton (c : Bytes) : joinSlash [c] = c := List.intercalate_singleton

theorem joinSlash_cons {c : Bytes} {cs : List Bytes} (h : cs ≠ []) :
    joinSlash (c :: cs) = c ++ slash :: joinSlash cs := by
  obtain ⟨d, ds, rfl⟩ := List.exists_cons_of_ne_nil h
  rw [joinSlash, List.intercalate_cons_cons, List.append_assoc]
  rfl

/-- Joining in two parts. -/
theorem joinSlash_append {cs ds : List Bytes} (hc : cs ≠ []) (hd : ds ≠ []) :
    joinSlash (cs ++ ds) = joinSlash cs ++ slash :: joinSlash ds := by
  induction cs with
  | nil => exact absurd rfl hc
  | cons c cs ih =>
    by_cases hnil : cs = []
    · rw [hnil, List.singleton_append, joinSlash_cons hd, joinSlash_singleton]
    · have filled : cs ++ ds ≠ [] := fun h => hnil (List.append_eq_nil_iff.mp h).1
      rw [List.cons_append, joinSlash_cons filled, ih hnil, joinSlash_cons hnil, List.append_assoc,
        List.cons_append]

/-- The join of non-empty components is empty only when there are none. -/
theorem joinSlash_eq_nil {cs : List Bytes} (full : ∀ c ∈ cs, c ≠ []) :
    joinSlash cs = [] ↔ cs = [] := by
  refine ⟨?_, fun h => h ▸ rfl⟩
  intro h
  cases cs with
  | nil => rfl
  | cons c cs =>
    have filled := full c List.mem_cons_self
    by_cases hnil : cs = []
    · rw [hnil, joinSlash_singleton] at h
      exact absurd h filled
    · rw [joinSlash_cons hnil] at h
      exact absurd (List.append_eq_nil_iff.mp h).1 filled

/-- `p` is `c` or an ancestor of it: what stands before a slash of it, and is not empty. -/
def SlashPrefix (p c : Bytes) : Prop := p ≠ [] ∧ (c = p ∨ ∃ rest, c = p ++ slash :: rest)

/-- The ancestors of a join are the joins of its beginnings. -/
theorem slashPrefix_joinSlash {p : Bytes} {cs : List Bytes} (full : ∀ c ∈ cs, c ≠ [])
    (plain : ∀ c ∈ cs, slash ∉ c) (hne : cs ≠ []) : SlashPrefix p (joinSlash cs) ↔
      ∃ front back, cs = front ++ back ∧ front ≠ [] ∧ p = joinSlash front := by
  have parts := components_joinSlash plain hne
  constructor
  · rintro ⟨hp, rfl | ⟨rest, hrest⟩⟩
    · exact ⟨cs, [], (List.append_nil cs).symm, hne, rfl⟩
    · refine ⟨components p, components rest, ?_, List.splitOn_ne_nil _ _,
        (joinSlash_components p).symm⟩
      rw [← parts, hrest, components_append_slash]
  · rintro ⟨front, back, rfl, hfront, rfl⟩
    have filled : joinSlash front ≠ [] := by
      intro h
      exact hfront ((joinSlash_eq_nil fun c hc => full c (List.mem_append_left _ hc)).mp h)
    refine ⟨filled, ?_⟩
    by_cases hback : back = []
    · rw [hback, List.append_nil]
      exact .inl rfl
    · exact .inr ⟨joinSlash back, joinSlash_append hfront hback⟩

/-- Dropping parts makes a join no longer. -/
theorem length_joinSlash_filter (f : Bytes → Bool) (cs : List Bytes) :
    (joinSlash (cs.filter f)).length ≤ (joinSlash cs).length := by
  induction cs with
  | nil => exact Nat.le_refl _
  | cons c cs ih =>
    by_cases hnil : cs = []
    · rw [hnil, List.filter_cons]
      split
      · exact Nat.le_refl _
      · exact Nat.zero_le _
    · rw [joinSlash_cons hnil, List.length_append, List.length_cons, List.filter_cons]
      split
      · by_cases hrest : cs.filter f = []
        · rw [hrest, joinSlash_singleton]
          omega
        · rw [joinSlash_cons hrest, List.length_append, List.length_cons]
          omega
      · omega

/-- With no `..` among the components, cleaning's fold is the filter of those
it keeps. -/
theorem foldl_cleanStep {rooted : Bool} {cs : List Bytes} (plain : dotdot ∉ cs)
    (out : List Bytes) :
    cs.foldl (cleanStep rooted) out = (cs.filter keeps).reverse ++ out := by
  induction cs generalizing out with
  | nil => rfl
  | cons c cs ih =>
    have hc : c ≠ dotdot := fun h => plain (h ▸ List.mem_cons_self)
    have hcs : dotdot ∉ cs := fun h => plain (List.mem_cons_of_mem _ h)
    rw [List.foldl_cons, ih hcs, List.filter_cons]
    by_cases hk : c = [] ∨ c = dot
    · have : keeps c = false := by
        simp only [keeps, ne_eq, decide_eq_false_iff_not, not_and_or, not_not]; exact hk
      simp only [cleanStep, if_pos hk, this, Bool.false_eq_true, if_false]
    · have : keeps c = true := by
        simp only [keeps, ne_eq, decide_eq_true_eq]; exact not_or.mp hk
      simp only [cleanStep, if_neg hk, if_neg hc, this, if_true, List.reverse_cons,
        List.append_assoc, List.singleton_append]

/-- Cleaning a path that is not rooted and has no `..` component. -/
theorem clean_relative {p : Bytes} (relative : p.head? ≠ some slash)
    (plain : dotdot ∉ components p) :
    clean p = if joinSlash ((components p).filter keeps) = [] then dot
      else joinSlash ((components p).filter keeps) := by
  have hroot : (p.head? == some slash) = false := by simpa using relative
  simp only [clean, hroot, foldl_cleanStep plain, List.append_nil, List.reverse_reverse,
    Bool.false_eq_true, if_false]

/-- Cleaning a rooted path that has no `..` component. -/
theorem clean_absolute {p : Bytes} (rooted : p.head? = some slash)
    (plain : dotdot ∉ components p) :
    clean p = slash :: joinSlash ((components p).filter keeps) := by
  have hroot : (p.head? == some slash) = true := by simpa using rooted
  simp only [clean, hroot, foldl_cleanStep plain, List.append_nil, List.reverse_reverse, if_true]

/-- A rooted path stays rooted. -/
theorem clean_rooted {p : Bytes} (rooted : p.head? = some slash) :
    ∃ body, clean p = slash :: body :=
  ⟨joinSlash ((components p).foldl (cleanStep true) []).reverse, by simp [clean, rooted]⟩

/-- The bytes of a join are those of its parts, and slashes. -/
theorem mem_joinSlash {cs : List Bytes} {b : UInt8} (h : b ∈ joinSlash cs) :
    b = slash ∨ ∃ c ∈ cs, b ∈ c := by
  induction cs with
  | nil => cases h
  | cons c cs ih =>
    by_cases hnil : cs = []
    · rw [hnil, joinSlash_singleton] at h
      exact .inr ⟨c, List.mem_cons_self, h⟩
    · rw [joinSlash_cons hnil, List.mem_append, List.mem_cons] at h
      rcases h with h | h | h
      · exact .inr ⟨c, List.mem_cons_self, h⟩
      · exact .inl h
      · rcases ih h with h | ⟨e, he, h⟩
        · exact .inl h
        · exact .inr ⟨e, List.mem_cons_of_mem _ he, h⟩

theorem mem_joinSlash_of_mem {cs : List Bytes} {c : Bytes} {b : UInt8} (h : c ∈ cs) (hb : b ∈ c) :
    b ∈ joinSlash cs := by
  induction cs with
  | nil => cases h
  | cons d cs ih =>
    by_cases hnil : cs = []
    · subst hnil
      rw [joinSlash_singleton, ← List.mem_singleton.mp h]
      exact hb
    · rw [joinSlash_cons hnil]
      rcases List.mem_cons.mp h with rfl | h
      · exact List.mem_append_left _ hb
      · exact List.mem_append_right _ (List.mem_cons_of_mem _ (ih h))

/-- The bytes of a component are the path's. -/
theorem mem_of_mem_components {p c : Bytes} {b : UInt8} (h : c ∈ components p) (hb : b ∈ c) :
    b ∈ p := by
  rw [← joinSlash_components p]
  exact mem_joinSlash_of_mem h hb

/-- A join of plain components starts with the first one's first byte, so it is
not rooted. -/
theorem joinSlash_relative {cs : List Bytes} (full : ∀ c ∈ cs, c ≠ [])
    (plain : ∀ c ∈ cs, slash ∉ c) : (joinSlash cs).head? ≠ some slash := by
  cases cs with
  | nil => exact nofun
  | cons c cs =>
    obtain ⟨b, c, rfl⟩ := List.exists_cons_of_ne_nil (full c List.mem_cons_self)
    have hb : b ≠ slash := fun h => plain (b :: c) List.mem_cons_self (h ▸ List.mem_cons_self)
    have first : (joinSlash ((b :: c) :: cs)).head? = some b := by
      by_cases hnil : cs = []
      · rw [hnil, joinSlash_singleton, List.head?_cons]
      · rw [joinSlash_cons hnil, List.cons_append, List.head?_cons]
    rw [first]
    exact fun h => hb (Option.some.inj h)

end FakeSSH.Go
