import FakeSSH.Go.Strings

/-!
# Numbers, padding and fields (`strconv`, `fmt`, `strings`)
-/

namespace FakeSSH.Go

/-- `strconv.Itoa`, and `%d`. -/
def itoa (n : Int) : Bytes := str (toString n)

theorem itoa_ne_nil (n : Int) : itoa n ≠ [] := by
  unfold itoa str
  rw [Ne, List.map_eq_nil_iff]
  cases n with
  | ofNat m =>
    have digits : (toString (Int.ofNat m)).toList = Nat.toDigits 10 m := Nat.toList_repr
    rw [digits]
    exact Nat.toDigits_ne_nil
  | negSucc m =>
    have sign : toString (Int.negSucc m) = "-" ++ Nat.repr (m + 1) := rfl
    rw [sign, String.toList_append]
    exact List.append_ne_nil_of_left_ne_nil (by decide) _

def isDecimalDigit (c : UInt8) : Bool := decide (0x30 ≤ c) && decide (c ≤ 0x39)

/-- `strconv.Atoi`, on a platform of 64 bits; `none` is any error. -/
def atoi (s : Bytes) : Option Int :=
  let sign := s.head?.filter fun c => c == 0x2D || c == 0x2B
  let digits := if sign.isSome then s.tail else s
  if digits = [] ∨ !digits.all isDecimalDigit then none
  else
    let n : Int := digits.foldl (fun n c => 10 * n + (c.toNat - 0x30 : Nat)) 0
    let v := if sign = some 0x2D then -n else n
    if -9223372036854775808 ≤ v ∧ v ≤ 9223372036854775807 then some v else none

/-- The number that decimal digits write. -/
def decimal (digits : Bytes) : Int := digits.foldl (fun n c => 10 * n + (c.toNat - 0x30 : Nat)) 0

/-- A sign, or none. -/
def IsSign (sign : Bytes) : Prop := sign = [] ∨ sign = [0x2B] ∨ sign = [0x2D]

def signed (sign : Bytes) (n : Int) : Int := if sign = [0x2D] then -n else n

theorem isDecimalDigit_iff {c : UInt8} : isDecimalDigit c = true ↔ 0x30 ≤ c ∧ c ≤ 0x39 := by
  rw [isDecimalDigit, Bool.and_eq_true, decide_eq_true_eq, decide_eq_true_eq]

/-- What `atoi` takes for a sign is one, since no digit is. -/
theorem head?_signed {sign digits : Bytes} (hs : IsSign sign)
    (all : ∀ c ∈ digits, isDecimalDigit c = true) :
    ((sign ++ digits).head?.filter fun c => c == 0x2D || c == 0x2B) = sign.head? := by
  obtain rfl | rfl | rfl := hs
  · cases digits with
    | nil => rfl
    | cons d ds =>
      have digit := isDecimalDigit_iff.mp (all d List.mem_cons_self)
      have plain : (d == 0x2D || d == 0x2B) = false := by
        rw [Bool.or_eq_false_iff, beq_eq_false_iff_ne, beq_eq_false_iff_ne]
        constructor <;> rintro rfl <;> exact absurd digit.1 (by decide)
      simp [Option.filter, plain]
  · rfl
  · rfl

/-- A sign and digits are read as the number they write, where an `int64` holds it. -/
theorem atoi_eq_some {sign digits : Bytes} {v : Int} (hs : IsSign sign) (some : digits ≠ [])
    (all : ∀ c ∈ digits, isDecimalDigit c = true) :
    atoi (sign ++ digits) = .some v ↔ v = signed sign (decimal digits) ∧
      -9223372036854775808 ≤ v ∧ v ≤ 9223372036854775807 := by
  have unsigned :
      (if sign.head?.isSome then (sign ++ digits).tail else sign ++ digits) = digits := by
    obtain rfl | rfl | rfl := hs <;> rfl
  have minus : (sign.head? = .some 0x2D) = (sign = [0x2D]) := by
    obtain rfl | rfl | rfl := hs <;> simp
  have good : ¬ (digits = [] ∨ (!digits.all isDecimalDigit) = true) := by
    rw [List.all_eq_true.mpr all]
    exact fun h => h.elim some Bool.noConfusion
  rw [atoi]
  dsimp only
  simp only [head?_signed hs all, unsigned, minus]
  rw [if_neg good, Option.ite_none_right_eq_some, Option.some.injEq]
  change _ ∧ signed sign (decimal digits) = v ↔ _
  constructor
  · rintro ⟨range, rfl⟩
    exact ⟨rfl, range⟩
  · rintro ⟨rfl, range⟩
    exact ⟨range, rfl⟩

/-- `%-*s`: spaces up to a width in runes. -/
def padRight (width : Nat) (s : Bytes) : Bytes :=
  s ++ List.replicate (width - (runes s).length) 0x20

/-- The runes that start a field. -/
def fieldStarts : Bool → List RuneAt → Nat
  | _, [] => 0
  | inField, d :: ds =>
    if isSpace d.rune then fieldStarts false ds
    else (if inField then 0 else 1) + fieldStarts true ds

/-- `len(strings.Fields(s))`. -/
def fieldCount (s : Bytes) : Nat := fieldStarts false (runes s)

/-- The pieces of `strings.SplitAfter(s, "\n")`, but for a last one that is empty. -/
def linesAfter : Bytes → List Bytes
  | [] => []
  | c :: rest =>
    if c = newline then [c] :: linesAfter rest
    else match linesAfter rest with
      | [] => [[c]]
      | line :: lines => (c :: line) :: lines

end FakeSSH.Go
