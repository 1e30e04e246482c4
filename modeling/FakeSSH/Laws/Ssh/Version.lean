import FakeSSH.Go.Errors
import FakeSSH.Lib.Cut
import FakeSSH.Ssh.Version

/-!
# The version gate accepts a grammar

With `AsOpenSSH` on, what passes the version stage is said without reference to
the code: `Received` is the line that the bytes of the client begin with,
`Numeral` a number as `sscanf` takes it, `Compatible` a version line that OpenSSH
would go on with. The reader, the check of the transport and the callback are
compared with these one by one, each in both directions.

The callback is the check of the transport written a second time, so it has
nothing left to reject.
-/

namespace FakeSSH.Ssh

open FakeSSH.Go FakeSSH.Lib

/-! ## Reading the line -/

/-- No byte that ends the reading of a line. -/
def PlainLine (line : Bytes) : Prop := ∀ c ∈ line, c ≠ carriageReturn ∧ c ≠ newline ∧ c ≠ 0

/-- The bytes of the client begin with a line, carriage returns and a newline, at
an index the limit allows. -/
def Received (stream line : Bytes) : Prop :=
  ∃ k rest, stream = line ++ List.replicate k carriageReturn ++ newline :: rest ∧
    PlainLine line ∧ line.length + k < openSSHMaxBannerBytes

variable {stream line versionString : Bytes} {length : Nat} {lastCR : Bool}

/-- What the loop does with a byte, where it does not fail. -/
theorem readBannerFrom_cons {b : UInt8} :
    readBannerFrom length lastCR versionString (b :: stream) = .ok line ↔
      length < openSSHMaxBannerBytes ∧
      (b = carriageReturn ∧ readBannerFrom (length + 1) true versionString stream = .ok line ∨
        b = newline ∧ line = versionString ∨
        (b ≠ carriageReturn ∧ b ≠ newline ∧ b ≠ 0) ∧ lastCR = false ∧
          readBannerFrom (length + 1) false (versionString ++ [b]) stream = .ok line) := by
  rw [readBannerFrom, check_eq_ok, Nat.not_le]
  refine and_congr_right fun _ => ?_
  by_cases cr : b = carriageReturn
  · subst cr
    simp [carriageReturn, newline]
  · by_cases lf : b = newline
    · subst lf
      simp [carriageReturn, newline, eq_comm]
    · rw [if_neg cr, if_neg lf, check_eq_ok, check_eq_ok]
      simp [cr, lf]

/-- Carriage returns and a newline end the loop. -/
theorem readBannerFrom_ending {k : Nat} {rest : Bytes} (room : length + k < openSSHMaxBannerBytes) :
    readBannerFrom length lastCR versionString
      (List.replicate k carriageReturn ++ newline :: rest) = .ok versionString := by
  induction k generalizing length lastCR with
  | zero => exact readBannerFrom_cons.mpr ⟨room, .inr (.inl ⟨rfl, rfl⟩)⟩
  | succ k ih => exact readBannerFrom_cons.mpr ⟨by omega, .inl ⟨rfl, ih (by omega)⟩⟩

theorem readBannerFrom_complete {k : Nat} {rest : Bytes} (plain : PlainLine line)
    (room : length + line.length + k < openSSHMaxBannerBytes) :
    readBannerFrom length false versionString
      (line ++ List.replicate k carriageReturn ++ newline :: rest) =
        .ok (versionString ++ line) := by
  induction line generalizing length versionString with
  | nil =>
    rw [List.append_nil]
    exact readBannerFrom_ending room
  | cons b line ih =>
    rw [List.length_cons] at room
    have next := @ih (versionString ++ [b]) (length + 1)
      (fun c hc => plain c (List.mem_cons_of_mem _ hc)) (by omega)
    rw [List.append_assoc versionString] at next
    exact readBannerFrom_cons.mpr
      ⟨by omega, .inr (.inr ⟨plain b List.mem_cons_self, rfl, next⟩)⟩

/-- The line begins where the loop does, and is empty behind a carriage return. -/
theorem readBannerFrom_sound {out : Bytes}
    (h : readBannerFrom length lastCR versionString stream = .ok out) :
    ∃ line k rest, stream = line ++ List.replicate k carriageReturn ++ newline :: rest ∧
      PlainLine line ∧ length + line.length + k < openSSHMaxBannerBytes ∧
      out = versionString ++ line ∧ (lastCR = true → line = []) := by
  induction stream generalizing length lastCR versionString with
  | nil => cases h
  | cons b stream ih =>
    obtain ⟨room, ⟨rfl, more⟩ | ⟨rfl, rfl⟩ | ⟨plain, fresh, more⟩⟩ := readBannerFrom_cons.mp h
    · obtain ⟨line, k, rest, rfl, -, bound, rfl, empty⟩ := ih more
      obtain rfl := empty rfl
      refine ⟨[], k + 1, rest, rfl, by simp [PlainLine], ?_, rfl, fun _ => rfl⟩
      rw [List.length_nil] at bound ⊢
      omega
    · exact ⟨[], 0, stream, rfl, by simp [PlainLine], room, by simp, fun _ => rfl⟩
    · obtain ⟨line, k, rest, rfl, tail, bound, rfl, -⟩ := ih more
      refine ⟨b :: line, k, rest, rfl, ?_, ?_, by simp, ?_⟩
      · exact List.forall_mem_cons.mpr ⟨plain, tail⟩
      · rw [List.length_cons]
        omega
      · rw [fresh]
        exact Bool.noConfusion

theorem readVersionOpenSSH_eq_ok : readVersionOpenSSH stream = .ok line ↔
    Received stream line ∧ str "SSH-" <+: line := by
  unfold readVersionOpenSSH
  rw [bind_eq_ok]
  constructor
  · rintro ⟨out, read, checked⟩
    obtain ⟨version, done⟩ := guard_eq_ok.mp checked
    obtain ⟨line', k, rest, rfl, plain, room, rfl, -⟩ := readBannerFrom_sound read
    obtain rfl := Except.ok.inj done
    rw [Nat.zero_add] at room
    exact ⟨⟨k, rest, rfl, plain, room⟩, List.isPrefixOf_iff_prefix.mp version⟩
  · rintro ⟨⟨k, rest, rfl, plain, room⟩, version⟩
    refine ⟨line, readBannerFrom_complete plain (by omega), ?_⟩
    exact guard_eq_ok.mpr ⟨List.isPrefixOf_iff_prefix.mpr version, rfl⟩

/-! ## Numbers -/

/-- A number as `%d` takes it: blanks, at most one sign, digits, and an `int64`
that they write. -/
def Numeral (w : Bytes) (v : Int) : Prop :=
  ∃ blanks sign digits, w = blanks ++ sign ++ digits ∧ (∀ c ∈ blanks, c ∈ scanSpaces) ∧
    IsSign sign ∧ digits ≠ [] ∧ (∀ c ∈ digits, isDecimalDigit c = true) ∧
    v = signed sign (decimal digits) ∧ -9223372036854775808 ≤ v ∧ v ≤ 9223372036854775807

/-- The scanner takes off a sign, or nothing. -/
theorem take_sign (input : Bytes) : ∃ sign rest, IsSign sign ∧ input = sign ++ rest ∧
    input.take (if input.head? = some 0x2B ∨ input.head? = some 0x2D then 1 else 0) = sign := by
  cases input with
  | nil => exact ⟨[], [], .inl rfl, rfl, rfl⟩
  | cons c rest =>
    by_cases h : c = 0x2B ∨ c = 0x2D
    · refine ⟨[c], rest, ?_, rfl, ?_⟩
      · obtain rfl | rfl := h
        · exact .inr (.inl rfl)
        · exact .inr (.inr rfl)
      · simp [h]
    · exact ⟨[], c :: rest, .inl rfl, rfl, by simp [h]⟩

/-- Before a digit the sign is all that it takes off. -/
theorem take_sign_digit {sign rest : Bytes} {d : UInt8} (hs : IsSign sign)
    (digit : isDecimalDigit d = true) :
    (sign ++ d :: rest).take (if (sign ++ d :: rest).head? = some 0x2B ∨
      (sign ++ d :: rest).head? = some 0x2D then 1 else 0) = sign := by
  obtain rfl | rfl | rfl := hs
  · have above := (isDecimalDigit_iff.mp digit).1
    have plain : ¬ (d = 0x2B ∨ d = 0x2D) := by
      rintro (rfl | rfl) <;> exact absurd above (by decide)
    simp [plain]
  · rfl
  · rfl

/-- No blank begins a number. -/
theorem not_blank {sign rest : Bytes} {d c : UInt8} (hs : IsSign sign)
    (digit : isDecimalDigit d = true) (hc : c ∈ (sign ++ d :: rest).head?) :
    scanSpaces.contains c = false := by
  obtain rfl | rfl | rfl := hs
  · obtain rfl := Option.some.inj hc
    obtain ⟨above, -⟩ := isDecimalDigit_iff.mp digit
    rw [Bool.eq_false_iff, Ne, List.contains_iff_mem]
    intro blank
    simp only [scanSpaces, List.mem_cons, List.not_mem_nil, or_false] at blank
    rcases blank with rfl | rfl | rfl | rfl | rfl | rfl <;> exact absurd above (by decide)
  · obtain rfl := Option.some.inj hc
    decide
  · obtain rfl := Option.some.inj hc
    decide

theorem scanInt_complete {w rest : Bytes} {v : Int} (numeral : Numeral w v)
    (stop : ∀ c ∈ rest.head?, isDecimalDigit c = false) :
    scanInt scanSpaces.contains (w ++ rest) = some (v, rest) := by
  obtain ⟨blanks, sign, digits, rfl, blank, hs, some, all, value⟩ := numeral
  obtain ⟨d, ds, rfl⟩ := List.exists_cons_of_ne_nil some
  have digit := all d List.mem_cons_self
  have skipped : (blanks ++ sign ++ d :: ds ++ rest).dropWhile scanSpaces.contains =
      sign ++ d :: (ds ++ rest) := by
    rw [List.append_assoc, List.append_assoc, List.cons_append]
    exact Stops.dropWhile ⟨fun c hc => List.contains_iff_mem.mpr (blank c hc),
      fun c hc => not_blank hs digit hc⟩
  have scanned : (d :: (ds ++ rest)).takeWhile isDecimalDigit = d :: ds :=
    Stops.takeWhile ⟨all, stop⟩
  unfold scanInt
  dsimp only
  rw [skipped, take_sign_digit hs digit, List.drop_left, scanned, if_neg some,
    (atoi_eq_some hs some all).mpr value, Option.map_some]
  exact congrArg (fun rest => Option.some (v, rest)) List.drop_left

theorem scanInt_sound {input rest : Bytes} {v : Int}
    (h : scanInt scanSpaces.contains input = some (v, rest)) :
    ∃ w, input = w ++ rest ∧ Numeral w v ∧ ∀ c ∈ rest.head?, isDecimalDigit c = false := by
  obtain ⟨blanks, body, rfl, blank⟩ := exists_stops scanSpaces.contains input
  obtain ⟨sign, body, hs, rfl, taken⟩ := take_sign body
  obtain ⟨digits, after, rfl, digit⟩ := exists_stops isDecimalDigit body
  unfold scanInt at h
  dsimp only at h
  rw [blank.dropWhile, taken, List.drop_left, digit.takeWhile, List.drop_left,
    Option.ite_none_left_eq_some] at h
  obtain ⟨some, h⟩ := h
  obtain ⟨value, read, same⟩ := Option.map_eq_some_iff.mp h
  obtain ⟨rfl, rfl⟩ := Prod.mk.inj same
  refine ⟨blanks ++ sign ++ digits, by simp only [List.append_assoc], ?_, digit.rest⟩
  exact ⟨blanks, sign, digits, rfl, fun c hc => List.contains_iff_mem.mp (blank.front c hc), hs,
    some, digit.front, (atoi_eq_some hs some digit.front).mp read⟩

/-! ## The protocol version -/

/-- `SSH-`, two numbers with a dot between them, and `-` before a name that is not
empty. -/
def VersionLine (line : Bytes) (major minor : Int) : Prop :=
  ∃ w₁ w₂ software, line = str "SSH-" ++ (w₁ ++ (str "." ++ (w₂ ++ (str "-" ++ software)))) ∧
    Numeral w₁ major ∧ Numeral w₂ minor ∧ software ≠ []

/-- A version line that OpenSSH goes on with: 2, or 1.99. -/
def Compatible (line : Bytes) : Prop :=
  ∃ major minor, VersionLine line major minor ∧ (major = 2 ∨ major = 1 ∧ minor = 99)

variable {major minor : Int}

theorem fakesshParseOpenSSHProtocolVersion_eq_some :
    fakesshParseOpenSSHProtocolVersion line = some (major, minor) ↔
      VersionLine line major minor := by
  unfold fakesshParseOpenSSHProtocolVersion
  simp only [Option.bind_eq_bind, Option.bind_eq_some_iff, Prod.exists, cutPrefix_eq_some,
    Option.ite_none_left_eq_some, Option.some.injEq, Prod.mk.injEq]
  constructor
  · rintro ⟨_, rfl, n, _, scanned₁, _, rfl, m, _, scanned₂, software, rfl, named, rfl, rfl⟩
    obtain ⟨w₁, rfl, numeral₁, -⟩ := scanInt_sound scanned₁
    obtain ⟨w₂, rfl, numeral₂, -⟩ := scanInt_sound scanned₂
    exact ⟨w₁, w₂, software, rfl, numeral₁, numeral₂, named⟩
  · rintro ⟨w₁, w₂, software, rfl, numeral₁, numeral₂, named⟩
    have dot (c : UInt8) (hc : some 0x2E = some c) : isDecimalDigit c = false :=
      Option.some.inj hc ▸ by decide
    have hyphen (c : UInt8) (hc : some 0x2D = some c) : isDecimalDigit c = false :=
      Option.some.inj hc ▸ by decide
    exact ⟨_, rfl, major, _, scanInt_complete numeral₁ dot, _, rfl, minor, _,
      scanInt_complete numeral₂ hyphen, software, rfl, named, rfl, rfl⟩

theorem fakesshOpenSSHProtocolMismatch_eq_false :
    fakesshOpenSSHProtocolMismatch major minor = false ↔ major = 2 ∨ major = 1 ∧ minor = 99 := by
  unfold fakesshOpenSSHProtocolMismatch
  by_cases h : major = 2
  · simp [h]
  · simp [h]

theorem checkProtocol_eq_ok : checkProtocol line = .ok () ↔ Compatible line := by
  unfold checkProtocol Compatible
  cases parsed : fakesshParseOpenSSHProtocolVersion line with
  | none =>
    refine iff_of_false (fun passed => by cases passed) ?_
    rintro ⟨major, minor, valid, -⟩
    rw [fakesshParseOpenSSHProtocolVersion_eq_some.mpr valid] at parsed
    cases parsed
  | some v =>
    rw [check_eq_ok, Bool.not_eq_true, fakesshOpenSSHProtocolMismatch_eq_false,
      and_iff_left rfl]
    constructor
    · intro admitted
      exact ⟨v.1, v.2, fakesshParseOpenSSHProtocolVersion_eq_some.mp parsed, admitted⟩
    · rintro ⟨major, minor, valid, admitted⟩
      rw [fakesshParseOpenSSHProtocolVersion_eq_some.mpr valid] at parsed
      obtain rfl := Option.some.inj parsed
      exact admitted

theorem Compatible.version (h : Compatible line) : str "SSH-" <+: line := by
  obtain ⟨major, minor, ⟨w₁, w₂, software, rfl, -⟩, -⟩ := h
  exact List.prefix_append _ _

/-! ## The stage -/

namespace ServerConfig

variable {config : ServerConfig}

theorem checkVersion_eq_ok (compat : config.asOpenSSH = true) :
    config.checkVersion line = .ok () ↔
      Compatible line ∧ ∀ check ∈ config.checkClientVersion, check line = true := by
  rw [checkVersion, if_pos compat, bind_eq_ok, ← checkProtocol_eq_ok]
  simp only [check_eq_ok, and_true, exists_and_right]
  refine and_congr ⟨fun ⟨⟨⟩, passed⟩ => passed, fun passed => ⟨(), passed⟩⟩ ?_
  cases config.checkClientVersion with
  | none => simp
  | some check => simp

theorem versionStage_eq_ok (compat : config.asOpenSSH = true) :
    config.versionStage stream = .ok line ↔ Received stream line ∧ Compatible line ∧
      ∀ check ∈ config.checkClientVersion, check line = true := by
  rw [versionStage, if_pos compat, bind_eq_ok]
  constructor
  · rintro ⟨read, hread, checked⟩
    obtain ⟨⟨⟩, passed, done⟩ := bind_eq_ok.mp checked
    obtain rfl := Except.ok.inj done
    exact ⟨(readVersionOpenSSH_eq_ok.mp hread).1, (checkVersion_eq_ok compat).mp passed⟩
  · rintro ⟨received, compatible, called⟩
    refine ⟨line, readVersionOpenSSH_eq_ok.mpr ⟨received, compatible.version⟩, ?_⟩
    exact bind_eq_ok.mpr ⟨(), (checkVersion_eq_ok compat).mpr ⟨compatible, called⟩, rfl⟩

theorem exchange_eq_ok : config.exchange stream = .ok line ↔
    (∀ c ∈ config.ownVersion, 32 ≤ c) ∧ config.versionStage stream = .ok line := by
  rw [exchange, check_eq_ok]
  simp

end ServerConfig

end FakeSSH.Ssh

namespace FakeSSH.Main

open FakeSSH.Go FakeSSH.Ssh

/-- The callback parses as the transport does and decides as it does. -/
theorem isOpenSSHCompatClientVersion_eq (version : Bytes) : isOpenSSHCompatClientVersion version =
    ((fakesshParseOpenSSHProtocolVersion version).map
      fun v => !fakesshOpenSSHProtocolMismatch v.1 v.2).getD false := by
  have leaf (major minor : Int) (rest : Bytes) :
      (if rest = [] then none else if major = 2 then some true
        else some (decide (major = 1) && decide (minor = 99))) =
      (if rest = [] then none else some (major, minor)).map
        fun v => !fakesshOpenSSHProtocolMismatch v.1 v.2 := by
    unfold fakesshOpenSSHProtocolMismatch
    by_cases named : rest = []
    · rw [if_pos named, if_pos named, Option.map_none]
    · by_cases two : major = 2
      · simp [named, two]
      · simp [named, two]
  unfold isOpenSSHCompatClientVersion fakesshParseOpenSSHProtocolVersion
  simp only [Option.bind_eq_bind, Option.map_bind, Function.comp_def, leaf]
  rfl

theorem isOpenSSHCompatClientVersion_iff {version : Bytes} :
    isOpenSSHCompatClientVersion version = true ↔ Compatible version := by
  rw [isOpenSSHCompatClientVersion_eq, ← checkProtocol_eq_ok, checkProtocol]
  cases fakesshParseOpenSSHProtocolVersion version with
  | none => exact iff_of_false Bool.noConfusion fun passed => by cases passed
  | some v =>
    rw [check_eq_ok, and_iff_left rfl, Option.map_some, Option.getD_some, Bool.not_eq_true,
      Bool.not_eq_true']

/-- What passes the check before it passes the callback. -/
theorem serverConfig_callback {sshVersion line : Bytes} (compatible : Compatible line) :
    ∀ check ∈ (serverConfig sshVersion true).checkClientVersion, check line = true := by
  rintro check ⟨⟩
  exact isOpenSSHCompatClientVersion_iff.mpr compatible

/-- The callback adds nothing to the check before it, the error included. -/
theorem serverConfig_checkVersion (sshVersion line : Bytes) :
    (serverConfig sshVersion true).checkVersion line = checkProtocol line := by
  cases checked : checkProtocol line with
  | ok passed =>
    have compatible := checkProtocol_eq_ok.mp checked
    exact (ServerConfig.checkVersion_eq_ok rfl).mpr ⟨compatible, serverConfig_callback compatible⟩
  | error e =>
    have compat : (serverConfig sshVersion true).asOpenSSH = true := rfl
    rw [ServerConfig.checkVersion, if_pos compat, checked]
    rfl

/-- With anti-scan on, a client passes the version stage with a line if and only
if its bytes begin with the line, carriage returns and a newline within the limit
and the line is compatible. The check of the transport and the callback are the
same test. -/
theorem antiScan_versionGate (sshVersion stream line : Bytes) :
    ((serverConfig sshVersion true).versionStage stream = .ok line ↔
      Received stream line ∧ Compatible line) ∧
    (readVersionOpenSSH stream = .ok line ↔ Received stream line ∧ str "SSH-" <+: line) ∧
    (checkProtocol line = .ok () ↔ Compatible line) ∧
    (isOpenSSHCompatClientVersion line = true ↔ Compatible line) ∧
    (serverConfig sshVersion true).checkVersion line = checkProtocol line := by
  refine ⟨?_, readVersionOpenSSH_eq_ok, checkProtocol_eq_ok, isOpenSSHCompatClientVersion_iff,
    serverConfig_checkVersion sshVersion line⟩
  rw [ServerConfig.versionStage_eq_ok rfl]
  constructor
  · rintro ⟨received, compatible, -⟩
    exact ⟨received, compatible⟩
  · rintro ⟨received, compatible⟩
    exact ⟨received, compatible, serverConfig_callback compatible⟩

end FakeSSH.Main
