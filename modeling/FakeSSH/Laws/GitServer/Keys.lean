import FakeSSH.GitServer.Keys

/-!
# Revocation in watch mode

The map that `parseAuthorizedKeys` builds holds exactly the keys of the file's
lines (`parseAuthorizedKeys_enrolled`), one line at a time. A callback in watch
mode holds `watchMu` from before its read until after its lookup, and the lock
admits one callback (`KeysInv`), so the map it looks its key up in is the one it
parsed itself, from a version of the file that was current after it started.
`WatchSafe` draws the consequences: acceptance rests on the call's own read, a
failed read or parse denies and changes nothing, and a revoked key stays out.
-/

namespace FakeSSH.GitServer

open FakeSSH.Go FakeSSH.Lib Relation

variable {K ι : Type} {codec : KeyCodec K} {fp bytes : Bytes}

/-! ## The keys of a file -/

/-- The map holds a key, by fingerprint and by bytes. -/
def Enrolled (m : Map AuthorizedKeyEntry) (fp bytes : Bytes) : Prop :=
  ∃ e, m.lookup fp = some e ∧ e.keyBytes = bytes

/-- The line is an entry for the key. -/
def KeyLine (codec : KeyCodec K) (fp bytes raw : Bytes) : Prop :=
  skipsLine raw = false ∧ ∃ parsed key, codec.parseAuthorizedKey raw = .ok parsed ∧
    parsed.key = some key ∧ codec.fingerprintSHA256 key = fp ∧ codec.marshal key = bytes

/-- The contents parse completely and have a line for the key. -/
def Authorizes (codec : KeyCodec K) (data : Bytes) (key : K) : Prop :=
  (∃ entries, parseAuthorizedKeys codec data = .ok entries) ∧
    ∃ raw ∈ data.splitOn newline,
      KeyLine codec (codec.fingerprintSHA256 key) (codec.marshal key) (trimRightCR raw)

theorem not_enrolled_empty : ¬ Enrolled ∅ fp bytes := by
  rintro ⟨e, he, -⟩
  simp at he

/-- Inserting a fingerprint that the map lacks adds that key and no other. -/
theorem enrolled_insert {m : Map AuthorizedKeyEntry} {fp' : Bytes} {entry : AuthorizedKeyEntry}
    (absent : m.lookup fp' = none) :
    Enrolled (m.insert fp' entry) fp bytes ↔
      Enrolled m fp bytes ∨ (fp' = fp ∧ entry.keyBytes = bytes) := by
  unfold Enrolled
  by_cases h : fp = fp'
  · subst h
    simp [AList.lookup_insert, absent]
  · simp [AList.lookup_insert_ne h, Ne.symm h]

/-- One line adds its key to the map and takes none away. -/
theorem parseKeyLine_enrolled {out out' : Map AuthorizedKeyEntry} {raw : Bytes}
    (h : parseKeyLine codec out raw = .ok out') :
    Enrolled out' fp bytes ↔ Enrolled out fp bytes ∨ KeyLine codec fp bytes raw := by
  unfold parseKeyLine at h
  split at h
  · rename_i skips
    cases h
    refine (or_iff_left ?_).symm
    rintro ⟨entry, -⟩
    rw [skips] at entry
    cases entry
  · rename_i entry
    split at h
    · cases h
    · rename_i parsed hparsed
      split at h
      · cases h
      · cases h
      · rename_i key hkey hoptions
        -- the line is an entry for this key, and for no other
        have line : KeyLine codec fp bytes raw ↔
            codec.fingerprintSHA256 key = fp ∧ codec.marshal key = bytes := by
          constructor
          · rintro ⟨-, parsed', key', hparsed', hkey', hfp, hbytes⟩
            cases hparsed.symm.trans hparsed'
            cases hkey.symm.trans hkey'
            exact ⟨hfp, hbytes⟩
          · rintro ⟨hfp, hbytes⟩
            exact ⟨by simpa using entry, parsed, key, hparsed, hkey, hfp, hbytes⟩
        rw [line]
        split at h
        · cases h
        · split at h
          · rename_i existing hexisting
            split at h
            · cases h
            · rename_i same
              cases h
              refine (or_iff_left_of_imp ?_).symm
              rintro ⟨rfl, rfl⟩
              exact ⟨existing, hexisting, by simpa using same⟩
          · rename_i absent
            cases h
            exact enrolled_insert absent

theorem parseKeyLines_enrolled {n : Nat} {lines : List Bytes} {out m : Map AuthorizedKeyEntry}
    (h : parseKeyLines codec n lines out = .ok m) :
    Enrolled m fp bytes ↔
      Enrolled out fp bytes ∨ ∃ raw ∈ lines, KeyLine codec fp bytes (trimRightCR raw) := by
  induction lines generalizing n out with
  | nil =>
    cases h
    simp
  | cons raw rest ih =>
    unfold parseKeyLines at h
    split at h
    · cases h
    · rename_i out' hline
      rw [ih h, parseKeyLine_enrolled hline, or_assoc, List.exists_mem_cons_iff]

/-- The map of a file holds exactly the keys of its lines. -/
theorem parseAuthorizedKeys_enrolled {data : Bytes} {m : Map AuthorizedKeyEntry} {key : K}
    (h : parseAuthorizedKeys codec data = .ok m) :
    Enrolled m (codec.fingerprintSHA256 key) (codec.marshal key) ↔ Authorizes codec data key := by
  rw [parseKeyLines_enrolled h, or_iff_right not_enrolled_empty]
  exact (and_iff_right ⟨m, h⟩).symm

theorem lookupKey_accepted {m : Map AuthorizedKeyEntry} {key : K} {perms : Permissions}
    (h : lookupKey codec m key = .accepted perms) :
    Enrolled m (codec.fingerprintSHA256 key) (codec.marshal key) := by
  unfold lookupKey at h
  split at h
  · cases h
  · rename_i entry hentry
    split at h
    · cases h
    · rename_i same
      exact ⟨entry, hentry, by simpa using same⟩

theorem lookupKey_ne_reload (m : Map AuthorizedKeyEntry) (key : K) (e : LoadError) :
    lookupKey codec m key ≠ .reload e := by
  unfold lookupKey
  split
  · nofun
  · split <;> nofun

/-! ## One call -/

variable {cfg : Config} {st st' : KeyStore} {c c' : KeyCall K}

/-- The call read these contents, after its start and no later than version
`upTo`. -/
def KeyCall.Read (c : KeyCall K) (versions : List File) (upTo : Nat) (data : Bytes) : Prop :=
  ∃ k, c.readAt = some k ∧ c.startedAt ≤ k ∧ k ≤ upTo ∧ versions[k]? = some (.ok data)

/-- The result is a denial by a call that left the map alone, or rests on
contents that the call read itself and that parse. -/
def KeyCall.Settled (codec : KeyCodec K) (c : KeyCall K) (versions : List File) (upTo : Nat)
    (ret : KeyRet) : Prop :=
  (c.stores = 0 ∧ ∀ perms, ret ≠ .accepted perms) ∨
    ∃ data, c.Read versions upTo data ∧ (∃ entries, parseAuthorizedKeys codec data = .ok entries) ∧
      (∀ e, ret ≠ .reload e) ∧ ∀ perms, ret = .accepted perms → Authorizes codec data c.key

/-- What is known of a watching call at each place. -/
def KeyCall.Fits (codec : KeyCodec K) (st : KeyStore) (c : KeyCall K) : Prop :=
  match c.pc with
  | .idle => c.stores = 0
  | .check | .lock | .read => c.stores = 0 ∧ c.startedAt ≤ st.past.length
  | .parse data => c.stores = 0 ∧ c.Read st.versions st.past.length data
  | .store entries => ∃ data, c.Read st.versions st.past.length data ∧
      parseAuthorizedKeys codec data = .ok entries
  | .lookup => ∃ data, c.Read st.versions st.past.length data ∧
      parseAuthorizedKeys codec data = .ok st.keysByFP
  | .unlock ret => c.Settled codec st.versions st.past.length ret
  | .returned ret => c.Settled codec st.versions c.returnedAt ret

/-- Inside the critical section of `watchMu`. -/
def KeyCall.inside (c : KeyCall K) : Nat :=
  match c.pc with
  | .read | .parse _ | .store _ | .lookup | .unlock _ => 1
  | _ => 0

/-- What a call knows survives more versions of the file, and outside the lock
any change of the map. -/
theorem KeyCall.Fits.frame (h : c.Fits codec st)
    (hv : ∀ (k : Nat) f, st.versions[k]? = some f → st'.versions[k]? = some f)
    (hp : st.past.length ≤ st'.past.length) (hk : st'.keysByFP = st.keysByFP ∨ c.inside = 0) :
    c.Fits codec st' := by
  have read : ∀ {a b data}, a ≤ b → c.Read st.versions a data → c.Read st'.versions b data := by
    rintro a b data hab ⟨k, hread, hstart, hle, hdata⟩
    exact ⟨k, hread, hstart, hle.trans hab, hv k _ hdata⟩
  have settled : ∀ {a b ret}, a ≤ b → c.Settled codec st.versions a ret →
      c.Settled codec st'.versions b ret := by
    rintro a b ret hab (denied | ⟨data, hread, rest⟩)
    · exact .inl denied
    · exact .inr ⟨data, read hab hread, rest⟩
  unfold KeyCall.Fits at h ⊢
  cases hpc : c.pc with
  | idle =>
    simp only [hpc] at h
    exact h
  | check =>
    simp only [hpc] at h
    exact ⟨h.1, h.2.trans hp⟩
  | lock =>
    simp only [hpc] at h
    exact ⟨h.1, h.2.trans hp⟩
  | read =>
    simp only [hpc] at h
    exact ⟨h.1, h.2.trans hp⟩
  | parse data =>
    simp only [hpc] at h
    exact ⟨h.1, read hp h.2⟩
  | store entries =>
    simp only [hpc] at h
    obtain ⟨data, hread, hparse⟩ := h
    exact ⟨data, read hp hread, hparse⟩
  | lookup =>
    simp only [hpc] at h
    obtain ⟨data, hread, hparse⟩ := h
    have same := hk.resolve_right (by simp [KeyCall.inside, hpc])
    exact ⟨data, read hp hread, by rw [same]; exact hparse⟩
  | unlock ret =>
    simp only [hpc] at h
    exact settled hp h
  | returned ret =>
    simp only [hpc] at h
    exact settled le_rfl h

theorem KeyStore.getElem?_versions (st : KeyStore) :
    st.versions[st.past.length]? = some st.file := by
  simp [KeyStore.versions]

theorem KeyStore.getElem?_rewrite {f g : File} {k : Nat} (h : st.versions[k]? = some f) :
    (st.rewrite g).versions[k]? = some f := by
  rw [KeyStore.versions, KeyStore.rewrite, List.getElem?_append_left]
  · exact h
  · exact (List.getElem?_eq_some_iff.mp h).1

/-- What one step of a watching call does, if the lock admits it. -/
theorem KeyStep.fits (watch : cfg.watchKeys = true) (h : KeyStep codec cfg st c st' c')
    (hc : c.Fits codec st) (locked : c.inside ≤ st.watchMu.toNat) :
    c'.Fits codec st' ∧ st'.watchMu.toNat + c.inside = st.watchMu.toNat + c'.inside ∧
      st'.versions = st.versions ∧ st'.past = st.past ∧
      (st'.keysByFP = st.keysByFP ∨ c.inside = 1) := by
  cases h with
  | call hpc =>
    simp only [KeyCall.Fits, hpc] at hc
    exact ⟨⟨hc, le_rfl⟩, by simp [KeyCall.inside, hpc], rfl, rfl, .inl rfl⟩
  | wrongUser hpc hu =>
    simp only [KeyCall.Fits, hpc] at hc
    exact ⟨.inl ⟨hc.1, nofun⟩, by simp [KeyCall.inside, hpc], rfl, rfl, .inl rfl⟩
  | certificate hpc hu hcert =>
    simp only [KeyCall.Fits, hpc] at hc
    exact ⟨.inl ⟨hc.1, nofun⟩, by simp [KeyCall.inside, hpc], rfl, rfl, .inl rfl⟩
  | proceed hpc hu hcert =>
    simp only [KeyCall.Fits, hpc] at hc
    rw [if_pos watch]
    exact ⟨hc, by simp [KeyCall.inside, hpc], rfl, rfl, .inl rfl⟩
  | lock hpc hfree =>
    simp only [KeyCall.Fits, hpc] at hc
    exact ⟨hc, by simp [KeyCall.inside, hpc, hfree], rfl, rfl, .inl rfl⟩
  | emptyPath hpc hpath =>
    simp only [KeyCall.Fits, hpc] at hc
    exact ⟨.inl ⟨hc.1, nofun⟩, by simp [KeyCall.inside, hpc], rfl, rfl, .inl rfl⟩
  | readError text hpc hpath hfile =>
    simp only [KeyCall.Fits, hpc] at hc
    exact ⟨.inl ⟨hc.1, nofun⟩, by simp [KeyCall.inside, hpc], rfl, rfl, .inl rfl⟩
  | read data hpc hpath hfile =>
    simp only [KeyCall.Fits, hpc] at hc
    refine ⟨⟨hc.1, _, rfl, hc.2, le_rfl, ?_⟩, by simp [KeyCall.inside, hpc], rfl, rfl, .inl rfl⟩
    rw [st.getElem?_versions, hfile]
  | parseError data line e hpc herr =>
    simp only [KeyCall.Fits, hpc] at hc
    exact ⟨.inl ⟨hc.1, nofun⟩, by simp [KeyCall.inside, hpc], rfl, rfl, .inl rfl⟩
  | parse data entries hpc hok =>
    simp only [KeyCall.Fits, hpc] at hc
    exact ⟨⟨data, hc.2, hok⟩, by simp [KeyCall.inside, hpc], rfl, rfl, .inl rfl⟩
  | store entries hpc =>
    simp only [KeyCall.Fits, hpc] at hc
    exact ⟨hc, by simp [KeyCall.inside, hpc], rfl, rfl, .inr (by simp [KeyCall.inside, hpc])⟩
  | lookupWatching hpc hwatch =>
    simp only [KeyCall.Fits, hpc] at hc
    obtain ⟨data, hread, hparse⟩ := hc
    refine ⟨.inr ⟨data, hread, ⟨_, hparse⟩, lookupKey_ne_reload _ _, ?_⟩,
      by simp [KeyCall.inside, hpc], rfl, rfl, .inl rfl⟩
    intro perms haccept
    exact (parseAuthorizedKeys_enrolled hparse).mp (lookupKey_accepted haccept)
  | lookup hpc hwatch => exact nomatch hwatch.symm.trans watch
  | unlock ret hpc =>
    have held : st.watchMu = true := by
      cases hmu : st.watchMu with
      | true => rfl
      | false => simp [KeyCall.inside, hpc, hmu] at locked
    simp only [KeyCall.Fits, hpc] at hc
    exact ⟨hc, by simp [KeyCall.inside, hpc, held], rfl, rfl, .inl rfl⟩

/-! ## All calls -/

variable [DecidableEq ι] [Fintype ι] {s s' : Family ι KeyStore (KeyCall K)}

structure KeysInv (codec : KeyCodec K) (s : Family ι KeyStore (KeyCall K)) : Prop where
  lock : s.shared.watchMu.toNat = tally KeyCall.inside s.procs
  fits : ∀ i, (s.procs i).Fits codec s.shared

omit [DecidableEq ι] in
theorem KeysInv.locked (inv : KeysInv codec s) (i : ι) :
    (s.procs i).inside ≤ s.shared.watchMu.toNat :=
  inv.lock ▸ le_tally KeyCall.inside s.procs i

theorem KeysInv.step (watch : cfg.watchKeys = true) (inv : KeysInv codec s)
    (h : KeysStep codec cfg s s') : KeysInv codec s' := by
  cases h with
  | rewrite f =>
    refine ⟨inv.lock, ?_⟩
    intro i
    apply (inv.fits i).frame
    · intro k g
      exact KeyStore.getElem?_rewrite
    · simp [KeyStore.rewrite]
    · exact .inl rfl
  | callback _ h =>
    obtain ⟨i, st', c', step, rfl⟩ := h
    obtain ⟨fits, moves, hv, hp, hk⟩ := step.fits watch (inv.fits i) (inv.locked i)
    refine ⟨tally_step inv.lock moves, ?_⟩
    apply forall_update fits
    intro j hj
    apply (inv.fits j).frame (fun k f hf => hv ▸ hf) (by rw [hp])
    apply hk.imp_right
    intro hi
    -- the lock admits one call, so beside the one that stores no other is inside
    have both := pair_le_tally KeyCall.inside s.procs hj
    have one := inv.lock ▸ Bool.toNat_le s.shared.watchMu
    omega

theorem keysInv_of_run {file : File} {keys : Map AuthorizedKeyEntry} {user : ι → Bytes}
    {key : ι → K} {isCertificate : ι → Bool} (watch : cfg.watchKeys = true)
    (run : ReflTransGen (KeysStep codec cfg) (noCallbacks file keys user key isCertificate) s) :
    KeysInv codec s := by
  have start : KeysInv codec (noCallbacks file keys user key isCertificate) :=
    ⟨(tally_eq_zero fun _ => rfl).symm, fun _ => rfl⟩
  have keeps (a b : Family ι KeyStore (KeyCall K)) (inv : KeysInv codec a)
      (step : KeysStep codec cfg a b) : KeysInv codec b := inv.step watch step
  exact invariant_of_steps keeps start run

/-- The call has returned permissions. -/
def KeyCall.Accepted (c : KeyCall K) : Prop := ∃ perms, c.pc = .returned (.accepted perms)

/-- The call's own read found no contents that parse. -/
def KeyCall.Failed (codec : KeyCodec K) (c : KeyCall K) (versions : List File) : Prop :=
  ∃ k, c.readAt = some k ∧
    ∀ data, versions[k]? = some (.ok data) → ∃ e, parseAuthorizedKeys codec data = .error e

/-- What every moment of a watching server satisfies. -/
structure WatchSafe (codec : KeyCodec K) (cfg : Config) (s : Family ι KeyStore (KeyCall K)) :
    Prop where
  acceptsOwnRead : ∀ i, (s.procs i).Accepted → ∃ k data, (s.procs i).readAt = some k ∧
    (s.procs i).startedAt ≤ k ∧ k ≤ (s.procs i).returnedAt ∧
    s.shared.versions[k]? = some (.ok data) ∧ Authorizes codec data (s.procs i).key
  failureDenies : ∀ i, (s.procs i).Failed codec s.shared.versions →
    ¬ (s.procs i).Accepted ∧ (s.procs i).stores = 0
  reloadErrorStoresNothing : ∀ i e, (s.procs i).pc = .returned (.reload e) →
    (s.procs i).stores = 0
  mapFromOwnRead : ∀ s', KeysStep codec cfg s s' → s'.shared.keysByFP ≠ s.shared.keysByFP →
    ∃ i k data, (s'.procs i).stores = (s.procs i).stores + 1 ∧ (s.procs i).readAt = some k ∧
      s.shared.versions[k]? = some (.ok data) ∧
      parseAuthorizedKeys codec data = .ok s'.shared.keysByFP
  revoked : ∀ n i,
    (∀ k data, n ≤ k → s.shared.versions[k]? = some (.ok data) →
      ¬ Authorizes codec data (s.procs i).key) →
    n ≤ (s.procs i).startedAt → ¬ (s.procs i).Accepted

theorem KeyCall.Fits.accepted (h : c.Fits codec st) (ha : c.Accepted) :
    ∃ k data, c.readAt = some k ∧ c.startedAt ≤ k ∧ k ≤ c.returnedAt ∧
      st.versions[k]? = some (.ok data) ∧ Authorizes codec data c.key := by
  obtain ⟨perms, hpc⟩ := ha
  simp only [KeyCall.Fits, hpc] at h
  rcases h with ⟨-, denied⟩ | ⟨data, ⟨k, hread, hstart, hend, hdata⟩, -, -, authorizes⟩
  · exact absurd rfl (denied perms)
  · exact ⟨k, data, hread, hstart, hend, hdata, authorizes perms rfl⟩

/-- Contents that the call read and that parse are not a failure. -/
theorem KeyCall.Read.not_failed {versions : List File} {upTo : Nat} {data : Bytes}
    {entries : Map AuthorizedKeyEntry} (h : c.Read versions upTo data)
    (hparse : parseAuthorizedKeys codec data = .ok entries) : ¬ c.Failed codec versions := by
  rintro ⟨k, hk, fails⟩
  obtain ⟨k', hk', -, -, hdata⟩ := h
  cases hk.symm.trans hk'
  obtain ⟨e, he⟩ := fails data hdata
  exact nomatch hparse.symm.trans he

theorem KeyCall.Fits.failed (h : c.Fits codec st) (hf : c.Failed codec st.versions) :
    c.stores = 0 := by
  have settled : ∀ {upTo ret}, c.Settled codec st.versions upTo ret → c.stores = 0 := by
    rintro upTo ret (denied | ⟨data, hread, ⟨entries, hparse⟩, -⟩)
    · exact denied.1
    · exact absurd hf (hread.not_failed hparse)
  unfold KeyCall.Fits at h
  split at h
  · exact h
  · exact h.1
  · exact h.1
  · exact h.1
  · exact h.1
  · obtain ⟨data, hread, hparse⟩ := h
    exact absurd hf (hread.not_failed hparse)
  · obtain ⟨data, hread, hparse⟩ := h
    exact absurd hf (hread.not_failed hparse)
  · exact settled h
  · exact settled h

/-- Only the store of a call that parsed its own read changes the map. -/
theorem KeyStep.keysByFP (h : KeyStep codec cfg st c st' c') (hc : c.Fits codec st)
    (hne : st'.keysByFP ≠ st.keysByFP) :
    ∃ k data, c'.stores = c.stores + 1 ∧ c.readAt = some k ∧
      st.versions[k]? = some (.ok data) ∧ parseAuthorizedKeys codec data = .ok st'.keysByFP := by
  cases h with
  | store entries hpc =>
    simp only [KeyCall.Fits, hpc] at hc
    obtain ⟨data, ⟨k, hk, -, -, hdata⟩, hparse⟩ := hc
    exact ⟨k, data, rfl, hk, hdata, hparse⟩
  | _ => exact absurd rfl hne

/-- WATCH-MODE REVOCATION. However the callbacks interleave with each other and
with rewrites of the file, a call accepts a key only on contents that it read
itself between its start and its return, that parse and that hold the key; a
call whose read or parse fails denies and leaves the map alone; and no call that
starts after the file lost a key accepts it. -/
theorem publicKeyCallback_watch {file : File} {keys : Map AuthorizedKeyEntry} {user : ι → Bytes}
    {key : ι → K} {isCertificate : ι → Bool} (watch : cfg.watchKeys = true)
    (run : ReflTransGen (KeysStep codec cfg) (noCallbacks file keys user key isCertificate) s) :
    WatchSafe codec cfg s := by
  have inv := keysInv_of_run watch run
  refine ⟨fun i => (inv.fits i).accepted, ?_, ?_, ?_, ?_⟩
  · intro i hf
    refine ⟨?_, (inv.fits i).failed hf⟩
    intro ha
    obtain ⟨k, data, hk, hstart, hend, hdata, ⟨entries, hparse⟩, -⟩ := (inv.fits i).accepted ha
    have read : (s.procs i).Read s.shared.versions (s.procs i).returnedAt data :=
      ⟨k, hk, hstart, hend, hdata⟩
    exact read.not_failed hparse hf
  · intro i e hpc
    have fits := inv.fits i
    simp only [KeyCall.Fits, hpc] at fits
    rcases fits with denied | ⟨-, -, -, notReload, -⟩
    · exact denied.1
    · exact absurd rfl (notReload e)
  · intro s' h hne
    cases h with
    | rewrite f => exact absurd rfl hne
    | callback _ h =>
      obtain ⟨i, st', c', step, rfl⟩ := h
      obtain ⟨k, data, stores, rest⟩ := step.keysByFP (inv.fits i) hne
      exact ⟨i, k, data, by simpa using stores, rest⟩
  · intro n i gone hn ha
    obtain ⟨k, data, -, hstart, -, hdata, authorizes⟩ := (inv.fits i).accepted ha
    exact gone k data (hn.trans hstart) hdata authorizes

/-- Keys that are their own line, fingerprint and bytes. -/
def plainCodec : KeyCodec Bytes :=
  { parseAuthorizedKey := fun line => .ok ⟨some line, [], [], []⟩
    fingerprintSHA256 := id
    marshal := id }

def watching : Config := { watchKeys := true, authorizedKeys := str "keys" }

/-- One call accepts the key of the file; the file loses it; a second call
denies it. -/
theorem watching_run : ∃ s : Family Bool KeyStore (KeyCall Bytes),
    ReflTransGen (KeysStep plainCodec watching)
      (noCallbacks (.ok (str "k")) ∅ (fun _ => []) (fun _ => str "k") (fun _ => false)) s ∧
      (s.procs false).Accepted ∧ (s.procs true).pc = .returned .errAuth :=
  ⟨_, .head (.callback _ ⟨false, _, _, .call rfl, rfl⟩) <|
    .head (.callback _ ⟨false, _, _, .proceed rfl rfl rfl, rfl⟩) <|
    .head (.callback _ ⟨false, _, _, .lock rfl rfl, rfl⟩) <|
    .head (.callback _ ⟨false, _, _, .read (str "k") rfl nofun rfl, rfl⟩) <|
    .head (.callback _ ⟨false, _, _, .parse (str "k") _ rfl rfl, rfl⟩) <|
    .head (.callback _ ⟨false, _, _, .store _ rfl, rfl⟩) <|
    .head (.callback _ ⟨false, _, _, .lookupWatching rfl rfl, rfl⟩) <|
    .head (.callback _ ⟨false, _, _, .unlock _ rfl, rfl⟩) <|
    .head (.rewrite (.ok [])) <|
    .head (.callback _ ⟨true, _, _, .call rfl, rfl⟩) <|
    .head (.callback _ ⟨true, _, _, .proceed rfl rfl rfl, rfl⟩) <|
    .head (.callback _ ⟨true, _, _, .lock rfl rfl, rfl⟩) <|
    .head (.callback _ ⟨true, _, _, .read [] rfl nofun rfl, rfl⟩) <|
    .head (.callback _ ⟨true, _, _, .parse [] _ rfl rfl, rfl⟩) <|
    .head (.callback _ ⟨true, _, _, .store _ rfl, rfl⟩) <|
    .head (.callback _ ⟨true, _, _, .lookupWatching rfl rfl, rfl⟩) <|
    .head (.callback _ ⟨true, _, _, .unlock _ rfl, rfl⟩) .refl, ⟨_, rfl⟩, rfl⟩

theorem publicKeyCallback_watch_revoked : ∃ s : Family Bool KeyStore (KeyCall Bytes),
    (s.procs false).Accepted ∧ (s.procs true).pc = .returned .errAuth ∧
      WatchSafe plainCodec watching s := by
  obtain ⟨s, run, first, second⟩ := watching_run
  exact ⟨s, first, second, publicKeyCallback_watch rfl run⟩

end FakeSSH.GitServer
