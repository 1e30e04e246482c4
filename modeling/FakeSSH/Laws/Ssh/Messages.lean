import FakeSSH.Lib.Cut
import FakeSSH.Ssh.Messages

/-!
# Messages survive the wire

`Unmarshal` gives back what `Marshal` was given (`decode_marshal` for the packets that
`decode` looks at), for every message whose encoding a 32-bit length can describe and whose
name lists hold names: no name with a comma, and not the empty name alone, whose list is
written as the empty list.

In the other direction, what is accepted is read again as the same values after another
`Marshal`, in no more bytes (`unmarshal_normal`). Only two kinds of fields have more than one
encoding, booleans and big integers; without them the accepted data is the encoding.

The arithmetic is in the big integers: `intLength` makes room for exactly what `marshalInt`
writes (`marshalInt_fills`), and the sign bit decides on the byte of padding on both sides.
-/

namespace FakeSSH.Ssh

open FakeSSH.Go FakeSSH.Lib

/-! ## Numbers and strings -/

theorem appendU32_eq (n : UInt32) : appendU32 n = toBE 4 n.toNat := by
  have bound := n.toNat_lt
  simp only [appendU32, toBE, List.nil_append, List.cons_append, List.cons.injEq, and_true]
  refine ⟨?_, ?_, ?_, ?_⟩ <;> apply UInt8.toNat_inj.1 <;>
    simp [Nat.shiftRight_eq_div_pow, Nat.div_div_eq_div_mul]

theorem appendU64_eq (n : UInt64) : appendU64 n = toBE 8 n.toNat := by
  have bound := n.toNat_lt
  simp only [appendU64, toBE, List.nil_append, List.cons_append, List.cons.injEq, and_true]
  refine ⟨?_, ?_, ?_, ?_, ?_, ?_, ?_, ?_⟩ <;> apply UInt8.toNat_inj.1 <;>
    simp [Nat.shiftRight_eq_div_pow, Nat.div_div_eq_div_mul]

@[simp] theorem length_appendU32 (n : UInt32) : (appendU32 n).length = 4 := rfl

@[simp] theorem length_appendU64 (n : UInt64) : (appendU64 n).length = 8 := rfl

@[simp] theorem length_appendInt (n : Nat) : (appendInt n).length = 4 := rfl

@[simp] theorem length_appendString (s : Bytes) : (appendString s).length = 4 + s.length := by
  rw [appendString, List.length_append, length_appendInt]

/-- Four bytes and what follows them. -/
theorem parseUint32_append {front : Bytes} (h : front.length = 4) (rest : Bytes) :
    parseUint32 (front ++ rest) = some (ofBE front, rest) := by
  obtain ⟨a, b, c, d, rfl⟩ := List.length_eq_four.mp h
  simp [parseUint32, ofBE]

theorem parseUint32_eq_some {data rest : Bytes} {n : Nat} (h : parseUint32 data = some (n, rest)) :
    n < 0x100000000 ∧ data = toBE 4 n ++ rest := by
  rcases data with _ | ⟨a, _ | ⟨b, _ | ⟨c, _ | ⟨d, more⟩⟩⟩⟩
  any_goals cases h
  have split : a :: b :: c :: d :: rest = [a, b, c, d] ++ rest := rfl
  have value : ((a.toNat * 256 + b.toNat) * 256 + c.toNat) * 256 + d.toNat = ofBE [a, b, c, d] := by
    simp [ofBE]
  have bound : ofBE [a, b, c, d] < 256 ^ 4 := ofBE_lt [a, b, c, d]
  have whole : toBE 4 (ofBE [a, b, c, d]) = [a, b, c, d] := toBE_ofBE [a, b, c, d]
  rw [value, split, whole]
  exact ⟨Nat.lt_of_lt_of_eq bound (by decide), rfl⟩

theorem toBE_eq_appendInt {n : Nat} (h : n < 0x100000000) : toBE 4 n = appendInt n := by
  rw [appendInt, appendU32_eq, UInt32.toNat_ofNat_of_lt' h]

/-- A string, where a 32-bit length describes all that is left of the data. -/
theorem parseString_append (s rest : Bytes) (short : (s ++ rest).length < 0x100000000) :
    parseString (appendString s ++ rest) = some (s, rest) := by
  have len : s.length < 0x100000000 := by
    rw [List.length_append] at short
    omega
  unfold parseString
  rw [appendString, List.append_assoc, ← toBE_eq_appendInt len,
    parseUint32_append (length_toBE 4 s.length), ofBE_toBE_of_lt len]
  simp only [Option.bind_eq_bind, Option.bind_some, Nat.mod_eq_of_lt short]
  rw [if_neg (by rw [List.length_append]; omega), List.take_left, List.drop_left]

theorem parseString_eq_some {data s rest : Bytes} (h : parseString data = some (s, rest)) :
    s.length < 0x100000000 ∧ data = appendString s ++ rest := by
  unfold parseString at h
  cases hn : parseUint32 data with
  | none => simp [hn] at h
  | some p =>
    obtain ⟨n, more⟩ := p
    obtain ⟨bound, rfl⟩ := parseUint32_eq_some hn
    simp only [hn, Option.bind_eq_bind, Option.bind_some] at h
    rw [Option.ite_none_left_eq_some] at h
    obtain ⟨enough, h⟩ := h
    obtain ⟨rfl, rfl⟩ := Prod.mk.inj (Option.some.inj h)
    have len : (more.take n).length = n := by
      have := Nat.mod_le more.length 0x100000000
      rw [List.length_take]
      omega
    rw [len]
    refine ⟨bound, ?_⟩
    rw [appendString, len, toBE_eq_appendInt bound, List.append_assoc, List.take_append_drop]

/-! ## Big integers -/

theorem signBit_iff (b : UInt8) : signBit b = true ↔ 128 ≤ b.toNat := by
  obtain ⟨v⟩ := b
  revert v
  decide +kernel

theorem and_eq_zero_iff (b : UInt8) : (b &&& 0x80 == 0) = !signBit b := by
  obtain ⟨v⟩ := b
  revert v
  decide +kernel

theorem xor_eq_not (b : UInt8) : b ^^^ 0xff = ~~~b := by
  obtain ⟨v⟩ := b
  revert v
  decide +kernel

theorem signBit_not (b : UInt8) : signBit (~~~b) = !signBit b := by
  obtain ⟨v⟩ := b
  revert v
  decide +kernel

theorem map_not_map_not (bs : Bytes) : (bs.map (~~~ ·)).map (~~~ ·) = bs := by
  rw [List.map_map]
  exact List.map_id'' (fun b => UInt8.not_not) bs

/-- A byte of zeros in front changes no number. -/
theorem ofBE_zero_cons (bs : Bytes) : ofBE (0 :: bs) = ofBE bs := by
  rw [ofBE_cons]
  simp

/-- The bytes of a magnitude, with a zero in front of a first byte that has the sign bit, and
in the place of none. -/
def padded (m : Nat) : Bytes :=
  if (shortestBE m).head?.all signBit then 0 :: shortestBE m else shortestBE m

theorem ofBE_padded (m : Nat) : ofBE (padded m) = m := by
  unfold padded
  split
  · rw [ofBE_zero_cons, ofBE_shortestBE]
  · exact ofBE_shortestBE m

theorem length_padded (m : Nat) : (padded m).length = magnitudeLength m.size := by
  unfold padded magnitudeLength
  cases hs : shortestBE m with
  | nil =>
    have zero : m = 0 := shortestBE_eq_nil_iff.mp hs
    rw [zero, Nat.size_zero]
    rfl
  | cons b bs =>
    have long := congrArg List.length hs
    rw [length_shortestBE] at long
    have sign : (b :: bs).head?.all signBit = true ↔ m.size % 8 = 0 := by
      rw [← shortestBE_high_iff hs, ← signBit_iff]
      rfl
    by_cases full : m.size % 8 = 0
    · rw [if_pos (sign.mpr full), if_pos full, List.length_cons, long]
      omega
    · rw [if_neg (fun h => full (sign.mp h)), if_neg full, long]
      omega

/-- The first byte of a padded magnitude is there and has no sign bit. -/
theorem padded_head (m : Nat) : ∃ b bs, padded m = b :: bs ∧ signBit b = false := by
  unfold padded
  cases hs : shortestBE m with
  | nil => exact ⟨0, [], rfl, rfl⟩
  | cons b bs =>
    by_cases sign : signBit b = true
    · exact ⟨0, b :: bs, if_pos sign, rfl⟩
    · exact ⟨b, bs, if_neg sign, Bool.eq_false_of_not_eq_true sign⟩

/-- Everything `marshalInt` writes behind the length. -/
def intContents (n : Int) : Bytes := (intBytes n).1 ++ (intBytes n).2

theorem intContents_neg {n : Int} (h : n < 0) :
    intContents n = (padded (-n - 1).toNat).map (~~~ ·) := by
  have inverted : ((shortestBE (-n - 1).toNat).map (· ^^^ 0xff)).head?.all (· &&& 0x80 == 0) =
      (shortestBE (-n - 1).toNat).head?.all signBit := by
    cases shortestBE (-n - 1).toNat with
    | nil => rfl
    | cons b bs =>
      simp only [List.map_cons, List.head?_cons, Option.all_some, and_eq_zero_iff, xor_eq_not,
        signBit_not, Bool.not_not]
  have bytes : (shortestBE (-n - 1).toNat).map (· ^^^ 0xff) =
      (shortestBE (-n - 1).toNat).map (~~~ ·) := List.map_congr_left fun b _ => xor_eq_not b
  unfold intContents intBytes padded
  rw [if_pos h]
  dsimp only
  rw [inverted, bytes]
  split <;> rfl

theorem intContents_pos {n : Int} (h : 0 < n) : intContents n = padded n.toNat := by
  have nonzero : n.toNat ≠ 0 := by omega
  have same : (shortestBE n.toNat).head?.any (· &&& 0x80 != 0) =
      (shortestBE n.toNat).head?.all signBit := by
    cases hs : shortestBE n.toNat with
    | nil => exact absurd (shortestBE_eq_nil_iff.mp hs) nonzero
    | cons b bs =>
      simp only [List.head?_cons, Option.any_some, Option.all_some, bne, and_eq_zero_iff,
        Bool.not_not]
  unfold intContents intBytes padded
  rw [if_neg (by omega), if_neg (by omega)]
  dsimp only
  rw [same]
  split <;> rfl

/-- A number is read back from its bytes. -/
theorem intOfBytes_intContents (n : Int) : intOfBytes (intContents n) = n := by
  rcases lt_trichotomy n 0 with neg | rfl | pos
  · obtain ⟨b, bs, hp, sign⟩ := padded_head (-n - 1).toNat
    have value := ofBE_padded (-n - 1).toNat
    have first : ((padded (-n - 1).toNat).map (~~~ ·)).head?.any signBit = true := by
      rw [hp, List.map_cons, List.head?_cons, Option.any_some, signBit_not, sign]
      rfl
    rw [intContents_neg neg, intOfBytes, if_pos first, map_not_map_not, value]
    omega
  · rfl
  · obtain ⟨b, bs, hp, sign⟩ := padded_head n.toNat
    have value := ofBE_padded n.toNat
    have first : ¬ (padded n.toNat).head?.any signBit = true := by
      rw [hp, List.head?_cons, Option.any_some, sign]
      exact Bool.false_ne_true
    rw [intContents_pos pos, intOfBytes, if_neg first, value]
    omega

/-- `intLength` counts the bytes that are written. -/
theorem intLength_eq (n : Int) : intLength n = 4 + (intContents n).length := by
  unfold intLength
  rcases lt_trichotomy n 0 with neg | rfl | pos
  · rw [if_pos neg, intContents_neg neg, List.length_map, length_padded]
  · rfl
  · rw [if_neg (by omega), if_neg (by omega), intContents_pos pos, length_padded]

/-- In a slice of that length `marshalInt` finds room for all of it, and leaves none. -/
theorem marshalInt_fills {slice : Bytes} {n : Int} (h : slice.length = intLength n) :
    marshalInt slice n = some (appendString (intContents n), []) := by
  have room := intLength_eq n
  rw [intContents, List.length_append] at room
  have behind : (slice.drop (4 + (intBytes n).1.length)).length = (intBytes n).2.length := by
    rw [List.length_drop]
    omega
  unfold marshalInt
  dsimp only
  rw [if_neg (by omega), behind, List.take_length, appendString, intContents, List.length_append,
    List.append_assoc, ← behind, List.drop_length]

/-- No number has a shorter encoding than the one it is given. -/
theorem intLength_intOfBytes_le (contents : Bytes) :
    intLength (intOfBytes contents) ≤ 4 + contents.length := by
  -- a magnitude in bytes whose first has no sign bit needs no byte more
  have fits (b : UInt8) (bs : Bytes) (sign : signBit b = false) :
      magnitudeLength (ofBE (b :: bs)).size ≤ (b :: bs).length := by
    have low : ¬ 8 * (b :: bs).length ≤ (ofBE (b :: bs)).size := by
      rw [← high_iff, ← signBit_iff, sign]
      exact Bool.false_ne_true
    rw [List.length_cons] at low ⊢
    unfold magnitudeLength
    split <;> omega
  cases contents with
  | nil => exact Nat.le_refl 4
  | cons b bs =>
    unfold intOfBytes intLength
    cases sign : signBit b with
    | true =>
      have hfit := fits (~~~b) (bs.map (~~~ ·)) (by rw [signBit_not, sign]; rfl)
      rw [List.head?_cons, Option.any_some, sign, if_pos rfl, if_pos (by omega), List.map_cons]
      have back : (-(-((ofBE (~~~b :: bs.map (~~~ ·)) : Int) + 1)) - 1).toNat =
          ofBE (~~~b :: bs.map (~~~ ·)) := by omega
      rw [back]
      rw [List.length_cons, List.length_map] at hfit
      rw [List.length_cons]
      omega
    | false =>
      have hfit := fits b bs sign
      rw [List.head?_cons, Option.any_some, sign, if_neg Bool.false_ne_true, if_neg (by omega)]
      split
      · omega
      · rw [Int.toNat_natCast]
        omega

/-! ## Fields -/

/-- Names that a list can be made of: none has a comma, and the empty name is not alone. -/
structure Names (names : List Bytes) : Prop where
  plain : ∀ name ∈ names, comma ∉ name
  notLone : names ≠ [[]]

/-- The names between commas are names. -/
theorem names_splitOn {contents : Bytes} (h : contents ≠ []) : Names (contents.splitOn comma) := by
  have groups : ∀ a : UInt8, (a == comma) = true → ∃ u : Unit, a = (fun _ => comma) u := by
    intro a ha
    exact ⟨(), beq_iff_eq.mp ha⟩
  obtain ⟨front, tail, rfl, cut⟩ := exists_cut groups contents
  have split : (front ++ spell (fun _ : Unit => comma) tail).splitOn comma =
      front :: tail.map (·.2) :=
    splitOnP_spell (p := (· == comma)) (fun _ => beq_self_eq_true comma) cut
  rw [split]
  constructor
  · intro name hname
    rcases List.mem_cons.mp hname with rfl | hname
    · intro hc
      exact absurd (cut.front comma hc) (by simp)
    · obtain ⟨x, hx, rfl⟩ := List.mem_map.mp hname
      intro hc
      exact absurd (cut.tail x hx comma hc) (by simp)
  · intro lone
    obtain ⟨rfl, htail⟩ := List.cons.inj lone
    rw [List.map_eq_nil_iff.mp htail] at h
    exact h rfl

theorem Names.intercalate_eq_nil_iff {names : List Bytes} (h : Names names) :
    [comma].intercalate names = [] ↔ names = [] := by
  constructor
  · intro hnil
    by_contra some
    have back := List.splitOn_intercalate comma h.plain some
    rw [hnil, List.splitOn_nil] at back
    exact h.notLone back.symm
  · rintro rfl
    rfl

/-- The values of a kind that are read back as they are. -/
def FieldKind.Fits : (k : FieldKind) → k.Value → Prop
  | .nameList, names => Names names
  | _, _ => True

/-- The kinds whose values have one encoding. -/
def FieldKind.Canonical (k : FieldKind) : Prop := k ≠ .bool ∧ k ≠ .bigInt

instance (k : FieldKind) : Decidable k.Canonical := inferInstanceAs (Decidable (_ ∧ _))

theorem marshal_bigInt (n : Int) :
    FieldKind.bigInt.marshal n = appendString (intContents n) := by
  have room : (List.replicate (intLength n) (0 : UInt8)).length = intLength n :=
    List.length_replicate
  rw [FieldKind.marshal, marshalInt_fills room]
  exact List.append_nil _

/-- A field is read back, whatever follows it. -/
theorem FieldKind.parse_marshal {k : FieldKind} (notRest : k ≠ .rest) {v : k.Value}
    (fits : k.Fits v) (rest : Bytes) (short : (k.marshal v ++ rest).length < 0x100000000) :
    k.parse (k.marshal v ++ rest) = some (v, rest) := by
  -- the strings' own lengths are within that of the encoding
  have within (s : Bytes) (h : (appendString s ++ rest).length < 0x100000000) :
      (s ++ rest).length < 0x100000000 := by
    rw [List.length_append, length_appendString] at h
    rw [List.length_append]
    omega
  cases k with
  | bool => cases v <;> rfl
  | array n =>
    obtain ⟨bs, rfl⟩ := v
    have enough : bs.length ≤ (bs ++ rest).length := by
      rw [List.length_append]
      exact Nat.le_add_right _ _
    simp only [FieldKind.parse, FieldKind.marshal, dif_pos enough, List.take_left, List.drop_left]
  | uint64 =>
    have enough : ¬ (appendU64 v ++ rest).length < 8 := by
      rw [List.length_append, length_appendU64]
      omega
    have bound : v.toNat < 256 ^ 8 := v.toNat_lt
    rw [FieldKind.marshal, FieldKind.parse, parseUint64, if_neg enough,
      List.take_left' (length_appendU64 v), List.drop_left' (length_appendU64 v), appendU64_eq,
      ofBE_toBE_of_lt bound, Option.map_some, UInt64.ofNat_toNat]
  | uint32 =>
    have bound : v.toNat < 256 ^ 4 := v.toNat_lt
    rw [FieldKind.marshal, FieldKind.parse, parseUint32_append (length_appendU32 v), appendU32_eq,
      ofBE_toBE_of_lt bound, Option.map_some, UInt32.ofNat_toNat]
  | uint8 => rfl
  | string => exact parseString_append v rest (within v short)
  | bytes => exact parseString_append v rest (within v short)
  | rest => exact absurd rfl notRest
  | nameList =>
    have names : Names v := fits
    rw [FieldKind.marshal, FieldKind.parse, parseNameList, parseString_append _ _ (within _ short)]
    simp only [Option.bind_eq_bind, Option.bind_some, names.intercalate_eq_nil_iff]
    split
    · rename_i hnil
      rw [hnil]
    · rename_i some
      rw [List.splitOn_intercalate comma names.plain some]
  | bigInt =>
    rw [marshal_bigInt] at short ⊢
    rw [FieldKind.parse, parseInt, parseString_append _ _ (within _ short)]
    simp only [Option.bind_eq_bind, Option.bind_some, intOfBytes_intContents]

/-- What is read fits, is not longer when written again, and is the same where there is one
way to write it. -/
structure FieldKind.Accepts (k : FieldKind) (data : Bytes) (v : k.Value) (rest : Bytes) : Prop where
  fits : k.Fits v
  shorter : (k.marshal v ++ rest).length ≤ data.length
  exact : k.Canonical → k.marshal v ++ rest = data

theorem FieldKind.Accepts.ofEq {k : FieldKind} {data rest : Bytes} {v : k.Value} (fits : k.Fits v)
    (h : k.marshal v ++ rest = data) : k.Accepts data v rest :=
  ⟨fits, Nat.le_of_eq (congrArg List.length h), fun _ => h⟩

theorem FieldKind.accepts_of_parse {k : FieldKind} {data rest : Bytes} {v : k.Value}
    (h : k.parse data = some (v, rest)) : k.Accepts data v rest := by
  cases k with
  | bool =>
    cases data with
    | nil => cases h
    | cons b data =>
      obtain ⟨rfl, rfl⟩ := Prod.mk.inj (Option.some.inj h)
      exact ⟨trivial, Nat.le_refl _, fun c => absurd rfl c.1⟩
  | array n =>
    simp only [FieldKind.parse, Option.dite_none_right_eq_some] at h
    obtain ⟨enough, h⟩ := h
    obtain ⟨rfl, rfl⟩ := Prod.mk.inj (Option.some.inj h)
    exact .ofEq trivial (List.take_append_drop n data)
  | uint64 =>
    rw [FieldKind.parse, parseUint64] at h
    split at h
    · cases h
    · rename_i enough
      obtain ⟨rfl, rfl⟩ := Prod.mk.inj (Option.some.inj h)
      have len : (data.take 8).length = 8 := by
        rw [List.length_take]
        omega
      have bound := ofBE_lt (data.take 8)
      have whole := toBE_ofBE (data.take 8)
      rw [len] at bound whole
      refine .ofEq trivial ?_
      rw [FieldKind.marshal, appendU64_eq, UInt64.toNat_ofNat_of_lt' bound, whole,
        List.take_append_drop]
  | uint32 =>
    rw [FieldKind.parse, Option.map_eq_some_iff] at h
    obtain ⟨⟨n, more⟩, parsed, h⟩ := h
    obtain ⟨rfl, rfl⟩ := Prod.mk.inj h
    obtain ⟨bound, rfl⟩ := parseUint32_eq_some parsed
    refine .ofEq trivial ?_
    rw [FieldKind.marshal, appendU32_eq, UInt32.toNat_ofNat_of_lt' bound]
  | uint8 =>
    cases data with
    | nil => cases h
    | cons b data =>
      obtain ⟨rfl, rfl⟩ := Prod.mk.inj (Option.some.inj h)
      exact .ofEq trivial rfl
  | string => exact .ofEq trivial (parseString_eq_some h).2.symm
  | bytes => exact .ofEq trivial (parseString_eq_some h).2.symm
  | rest =>
    obtain ⟨rfl, rfl⟩ := Prod.mk.inj (Option.some.inj h)
    exact .ofEq trivial (List.append_nil _)
  | nameList =>
    simp only [FieldKind.parse, parseNameList, Option.bind_eq_bind, Option.bind_eq_some_iff] at h
    obtain ⟨⟨contents, more⟩, parsed, h⟩ := h
    obtain ⟨rfl, rfl⟩ := Prod.mk.inj (Option.some.inj h)
    have data_eq := (parseString_eq_some parsed).2
    by_cases empty : contents = []
    · rw [if_pos empty]
      refine .ofEq ⟨List.forall_mem_nil _, List.cons_ne_nil _ _ |>.symm⟩ ?_
      rw [data_eq, empty]
      rfl
    · rw [if_neg empty]
      refine .ofEq (names_splitOn empty) ?_
      rw [data_eq, FieldKind.marshal, List.intercalate_splitOn]
  | bigInt =>
    simp only [FieldKind.parse, parseInt, Option.bind_eq_bind, Option.bind_eq_some_iff] at h
    obtain ⟨⟨contents, more⟩, parsed, h⟩ := h
    obtain ⟨rfl, rfl⟩ := Prod.mk.inj (Option.some.inj h)
    have data_eq := (parseString_eq_some parsed).2
    have shorter := intLength_intOfBytes_le contents
    rw [intLength_eq] at shorter
    refine ⟨trivial, ?_, fun c => absurd rfl c.2⟩
    dsimp only
    rw [marshal_bigInt, data_eq, List.length_append, List.length_append, length_appendString,
      length_appendString]
    omega

/-! ## Structures -/

/-- Every field has a value that fits. -/
def ValuesFit : (fs : List (Bytes × FieldKind)) → Values fs → Prop
  | [], _ => True
  | f :: fs, (v, vs) => f.2.Fits v ∧ ValuesFit fs vs

/-- Only the last field has the tag `rest`. -/
def RestLast : List (Bytes × FieldKind) → Prop
  | [] => True
  | f :: fs => (f.2 = .rest → fs = []) ∧ RestLast fs

instance decidableRestLast : (fs : List (Bytes × FieldKind)) → Decidable (RestLast fs)
  | [] => inferInstanceAs (Decidable True)
  | f :: fs =>
    have : Decidable (RestLast fs) := decidableRestLast fs
    inferInstanceAs (Decidable ((f.2 = .rest → fs = []) ∧ RestLast fs))

/-- A structure that the package's comments allow for a message. -/
structure Layout.WellFormed (L : Layout) : Prop where
  restLast : RestLast L.fields
  positive : ∀ t ∈ L.tags, 0 < t

variable {L : Layout} {fs : List (Bytes × FieldKind)} {data : Bytes}

theorem unmarshalValues_marshalValues (type : Bytes) {vs : Values fs} (last : RestLast fs)
    (fit : ValuesFit fs vs) (short : (marshalValues fs vs).length < 0x100000000) :
    unmarshalValues type fs (marshalValues fs vs) = .ok (vs, []) := by
  induction fs with
  | nil => rfl
  | cons f fs ih =>
    obtain ⟨v, vs⟩ := vs
    obtain ⟨fits, fit⟩ := fit
    obtain ⟨lastHere, last⟩ := last
    rw [marshalValues] at short ⊢
    by_cases isRest : f.2 = .rest
    · -- the rest takes everything, and nothing comes behind it
      obtain ⟨name, kind⟩ := f
      cases isRest
      cases lastHere rfl
      simp only [unmarshalValues, FieldKind.parse, FieldKind.marshal, marshalValues,
        List.append_nil]
    · have later : (marshalValues fs vs).length < 0x100000000 := by
        rw [List.length_append] at short
        omega
      simp only [unmarshalValues, FieldKind.parse_marshal isRest fits _ short, ih last fit later]

/-- `Unmarshal` after `Marshal`. -/
theorem Layout.unmarshal_marshal {vs : L.Values} (wf : L.WellFormed) (fit : ValuesFit L.fields vs)
    (short : (L.marshal vs).length < 0x100000000) (some : L.marshal vs ≠ []) :
    L.unmarshal (L.marshal vs) = .ok vs := by
  have behind : L.body (L.marshal vs) = .ok (marshalValues L.fields vs) := by
    unfold Layout.marshal at some ⊢
    cases htags : L.tags with
    | nil =>
      rw [htags, List.take_nil, List.nil_append] at some
      rw [List.take_nil, List.nil_append]
      obtain ⟨t, data, hdata⟩ := List.exists_cons_of_ne_nil some
      rw [hdata, Layout.body, if_pos htags]
    | cons t ts =>
      have positive : 0 < t := wf.positive t (by rw [htags]; exact List.mem_cons_self)
      have known : (L.tags.any fun e => 0 < e && t == e) = true := by
        rw [htags, List.any_cons, decide_eq_true positive, beq_self_eq_true]
        rfl
      have tagged : L.tags ≠ [] := by
        rw [htags]
        exact List.cons_ne_nil t ts
      show L.body (t :: marshalValues L.fields vs) = _
      rw [Layout.body, if_neg tagged, if_pos known]
  have values := unmarshalValues_marshalValues L.name wf.restLast fit (by
    rw [Layout.marshal, List.length_append] at short
    omega)
  simp only [Layout.unmarshal, behind, values, if_true]

/-- Data that is accepted, against its values written again. -/
structure Normal (fs : List (Bytes × FieldKind)) (data : Bytes) (vs : Values fs) (rest : Bytes) :
    Prop where
  fit : ValuesFit fs vs
  shorter : (marshalValues fs vs ++ rest).length ≤ data.length
  exact : (∀ f ∈ fs, f.2.Canonical) → marshalValues fs vs ++ rest = data

theorem normal_of_unmarshalValues {type rest : Bytes} {vs : Values fs}
    (h : unmarshalValues type fs data = .ok (vs, rest)) : Normal fs data vs rest := by
  induction fs generalizing data with
  | nil =>
    obtain ⟨rfl, rfl⟩ := Prod.mk.inj (Except.ok.inj h)
    exact ⟨trivial, Nat.le_refl _, fun _ => rfl⟩
  | cons f fs ih =>
    rw [unmarshalValues] at h
    cases hv : f.2.parse data with
    | none => rw [hv] at h; cases h
    | some p =>
      obtain ⟨v, more⟩ := p
      simp only [hv] at h
      cases hvs : unmarshalValues type fs more with
      | error e => rw [hvs] at h; cases h
      | ok q =>
        obtain ⟨ws, left⟩ := q
        rw [hvs] at h
        obtain ⟨rfl, rfl⟩ := Prod.mk.inj (Except.ok.inj h)
        have here := FieldKind.accepts_of_parse hv
        have later := ih hvs
        refine ⟨⟨here.fits, later.fit⟩, ?_, ?_⟩
        · have first := here.shorter
          have second := later.shorter
          rw [List.length_append] at first second
          rw [marshalValues, List.append_assoc, List.length_append, List.length_append]
          omega
        · intro canonical
          obtain ⟨one, rest⟩ := List.forall_mem_cons.mp canonical
          rw [marshalValues, List.append_assoc, later.exact rest, here.exact one]

/-- The data behind the message type of an accepted message. -/
theorem Layout.unmarshal_eq_ok {vs : L.Values} (h : L.unmarshal data = .ok vs) :
    ∃ values, L.body data = .ok values ∧ Normal L.fields values vs [] := by
  unfold Layout.unmarshal at h
  cases hbody : L.body data with
  | error e => rw [hbody] at h; cases h
  | ok values =>
    simp only [hbody] at h
    cases hvs : unmarshalValues L.name L.fields values with
    | error e => rw [hvs] at h; cases h
    | ok p =>
      obtain ⟨ws, left⟩ := p
      simp only [hvs] at h
      split at h
      · rename_i nothing
        cases h
        exact ⟨values, rfl, nothing ▸ normal_of_unmarshalValues hvs⟩
      · cases h

/-! ## Packets -/

/-- The message structures of `decode`. -/
theorem decodeCases_wellFormed : ∀ c ∈ decodeCases,
    c.2.tags = [c.1] ∧ 0 < c.1 ∧ c.1 ≠ msgUserAuthSuccess ∧ RestLast c.2.fields ∧
      decodeCases.lookup c.1 = some c.2 := by
  decide +kernel

theorem mem_of_lookup {t : UInt8} (h : decodeCases.lookup t = some L) : (t, L) ∈ decodeCases := by
  obtain ⟨before, after, split, -⟩ := List.lookup_eq_some_iff.mp h
  rw [split]
  exact List.mem_append_right _ List.mem_cons_self

theorem Layout.wellFormed_of_mem {t : UInt8} (h : (t, L) ∈ decodeCases) : L.WellFormed := by
  obtain ⟨tags, positive, -, last, -⟩ := decodeCases_wellFormed _ h
  refine ⟨last, ?_⟩
  rw [tags]
  exact List.forall_mem_singleton.mpr positive

theorem Layout.marshal_of_mem {t : UInt8} (h : (t, L) ∈ decodeCases) (vs : L.Values) :
    L.marshal vs = t :: marshalValues L.fields vs := by
  obtain ⟨tags, -⟩ := decodeCases_wellFormed _ h
  rw [Layout.marshal, tags]
  rfl

theorem decode_of_mem {t : UInt8} (h : (t, L) ∈ decodeCases) {vs : L.Values}
    (accepted : L.unmarshal (t :: data) = .ok vs) : decode t data = .ok (.message L vs) := by
  obtain ⟨-, -, other, -, found⟩ := decodeCases_wellFormed _ h
  dsimp only at other found
  rw [decode, if_neg other, found]
  simp only [accepted]

theorem decode_marshalValues {t : UInt8} (known : (t, L) ∈ decodeCases) (vs : L.Values)
    (fit : ValuesFit L.fields vs) (short : (L.marshal vs).length < 0x100000000) :
    decode t (marshalValues L.fields vs) = .ok (.message L vs) := by
  have packet := Layout.marshal_of_mem known vs
  apply decode_of_mem known
  rw [← packet]
  apply Layout.unmarshal_marshal (Layout.wellFormed_of_mem known) fit short
  rw [packet]
  exact List.cons_ne_nil _ _

/-- Every message that `decode` knows is decoded as what was marshalled. -/
theorem decode_marshal {t : UInt8} {L : Layout} (known : (t, L) ∈ decodeCases) (vs : L.Values)
    (fit : ValuesFit L.fields vs) (short : (L.marshal vs).length < 0x100000000) :
    ∃ data, L.marshal vs = t :: data ∧ decode t data = .ok (.message L vs) :=
  ⟨marshalValues L.fields vs, Layout.marshal_of_mem known vs,
    decode_marshalValues known vs fit short⟩

/-- A negative number whose magnitude fills its byte. -/
theorem decode_marshal_dhInit :
    ∃ data, kexDHInitMsg.marshal (-129, ()) = 30 :: data ∧
      decode 30 data = .ok (.message kexDHInitMsg (-129, ())) :=
  decode_marshal (t := 30) (L := kexDHInitMsg) (by decide +kernel) (-129, ()) ⟨trivial, trivial⟩
    (by decide +kernel)

/-- Whatever packet `decode` accepts, its message can be sent again: it is decoded as the same,
in no more bytes, and in the same bytes where no field has two encodings. -/
theorem decode_normal {t : UInt8} {data : Bytes} {L : Layout} {vs : L.Values}
    (accepted : decode t data = .ok (.message L vs)) (short : (t :: data).length < 0x100000000) :
    ∃ again, L.marshal vs = t :: again ∧ again.length ≤ data.length ∧
      decode t again = .ok (.message L vs) ∧
      ((∀ f ∈ L.fields, f.2.Canonical) → again = data) := by
  unfold decode at accepted
  split at accepted
  · cases accepted
  · cases found : decodeCases.lookup t with
    | none => rw [found] at accepted; cases accepted
    | some M =>
      simp only [found] at accepted
      cases hvs : M.unmarshal (t :: data) with
      | error e => rw [hvs] at accepted; cases accepted
      | ok ws =>
        rw [hvs] at accepted
        cases accepted
        have known := mem_of_lookup found
        obtain ⟨tags, positive, -, -, -⟩ := decodeCases_wellFormed _ known
        obtain ⟨values, hbody, normal⟩ := Layout.unmarshal_eq_ok hvs
        have tagged : L.tags ≠ [] := by
          rw [tags]
          exact List.cons_ne_nil _ _
        have here : (L.tags.any fun e => 0 < e && t == e) = true := by
          rw [tags, List.any_cons, decide_eq_true positive, beq_self_eq_true]
          rfl
        rw [Layout.body, if_neg tagged, if_pos here] at hbody
        obtain rfl := Except.ok.inj hbody
        obtain ⟨fit, shorter, exact⟩ := normal
        rw [List.append_nil] at shorter exact
        have packet := Layout.marshal_of_mem known vs
        refine ⟨marshalValues L.fields vs, packet, shorter, ?_, exact⟩
        apply decode_marshalValues known vs fit
        rw [packet, List.length_cons]
        rw [List.length_cons] at short
        omega

/-- A window adjustment, as a peer sends it. -/
theorem decode_normal_windowAdjust :
    ∃ again, windowAdjustMsg.marshal (7, 32768, ()) = 93 :: again ∧
      again.length ≤ [0, 0, 0, 7, 0, 0, 128, 0].length ∧
      decode 93 again = .ok (.message windowAdjustMsg (7, 32768, ())) ∧
      ((∀ f ∈ windowAdjustMsg.fields, f.2.Canonical) → again = [0, 0, 0, 7, 0, 0, 128, 0]) :=
  decode_normal (show decode 93 [0, 0, 0, 7, 0, 0, 128, 0] =
    .ok (.message windowAdjustMsg (7, 32768, ())) from rfl) (by decide)

end FakeSSH.Ssh
