import FakeSSH.Laws.GitServer.Keys

/-!
# Callbacks take effect at one moment

The steps of a `PublicKeyCallback` interleave with those of the others and with writes to the
file, but what it returns is what the whole callback would have returned, had it run at one
moment between its start and its return (`publicKeyCallback_atomic`). In watch mode that is the
moment of its read. `Answers` says at each place of a call how far the callback, run at that
moment, has been followed.
-/

namespace FakeSSH.GitServer

open FakeSSH.Go FakeSSH.Lib Relation

variable {K ι : Type} {codec : KeyCodec K} {cfg : Config} {keys : Map AuthorizedKeyEntry}
  {st st' : KeyStore} {c c' : KeyCall K}

/-- A version of the file that was current after the start of the call, and no later than
`upTo`. -/
def KeyCall.Saw (c : KeyCall K) (versions : List File) (upTo : Nat) (file : File) : Prop :=
  ∃ k, c.startedAt ≤ k ∧ k ≤ upTo ∧ versions[k]? = some file

/-- The result of the callback at one moment of the call. -/
def KeyCall.Atomic (codec : KeyCodec K) (cfg : Config) (keys : Map AuthorizedKeyEntry)
    (c : KeyCall K) (versions : List File) (upTo : Nat) (ret : KeyRet) : Prop :=
  ∃ file, c.Saw versions upTo file ∧
    ret = publicKeyCallback codec cfg keys file c.user c.key c.isCertificate

/-- The checks before the lookup have been passed. -/
def KeyCall.Passed (cfg : Config) (c : KeyCall K) : Prop :=
  c.user = cfg.sshUser ∧ c.isCertificate = false

/-- The call watches, and holds what a load of the file at one of its moments gives. -/
def KeyCall.Loaded (codec : KeyCodec K) (cfg : Config) (c : KeyCall K) (st : KeyStore)
    (entries : Map AuthorizedKeyEntry) : Prop :=
  ∃ file, c.Saw st.versions st.past.length file ∧
    loadAuthorizedKeys codec cfg.authorizedKeys file = .ok entries

/-- How far the callback has been followed at each place. -/
def KeyCall.Answers (codec : KeyCodec K) (cfg : Config) (keys : Map AuthorizedKeyEntry)
    (st : KeyStore) (c : KeyCall K) : Prop :=
  match c.pc with
  | .idle => True
  | .check => c.startedAt ≤ st.past.length
  | .lock | .read => cfg.watchKeys = true ∧ c.Passed cfg ∧ c.startedAt ≤ st.past.length
  | .parse data => cfg.watchKeys = true ∧ c.Passed cfg ∧ cfg.authorizedKeys ≠ [] ∧
      c.Saw st.versions st.past.length (.ok data)
  | .store entries => cfg.watchKeys = true ∧ c.Passed cfg ∧ c.Loaded codec cfg st entries
  | .lookup => c.Passed cfg ∧ c.startedAt ≤ st.past.length ∧
      (cfg.watchKeys = true → c.Loaded codec cfg st st.keysByFP)
  | .unlock ret => c.Atomic codec cfg keys st.versions st.past.length ret
  | .returned ret => c.Atomic codec cfg keys st.versions c.returnedAt ret

/-! ## One call -/

theorem KeyCall.Saw.frame {versions versions' : List File} {a b : Nat} {file : File}
    (h : c.Saw versions a file) (grows : ∀ (k : Nat) f, versions[k]? = some f →
      versions'[k]? = some f) (hab : a ≤ b) : c.Saw versions' b file := by
  obtain ⟨k, started, le, version⟩ := h
  exact ⟨k, started, le.trans hab, grows k _ version⟩

theorem KeyCall.saw_now (h : c.startedAt ≤ st.past.length) :
    c.Saw st.versions st.past.length st.file :=
  ⟨_, h, le_rfl, st.getElem?_versions⟩

/-- What is known of a call stays, outside the lock whatever happens to the map. -/
theorem KeyCall.Answers.frame (h : c.Answers codec cfg keys st)
    (grows : ∀ (k : Nat) f, st.versions[k]? = some f → st'.versions[k]? = some f)
    (later : st.past.length ≤ st'.past.length)
    (kept : st'.keysByFP = st.keysByFP ∨ c.inside = 0) :
    c.Answers codec cfg keys st' := by
  have loaded {entries : Map AuthorizedKeyEntry} (hl : c.Loaded codec cfg st entries) :
      c.Loaded codec cfg st' entries := by
    obtain ⟨file, saw, load⟩ := hl
    exact ⟨file, saw.frame grows later, load⟩
  have atomic {a b : Nat} {ret : KeyRet} (hab : a ≤ b)
      (ha : c.Atomic codec cfg keys st.versions a ret) :
      c.Atomic codec cfg keys st'.versions b ret := by
    obtain ⟨file, saw, eq⟩ := ha
    exact ⟨file, saw.frame grows hab, eq⟩
  unfold KeyCall.Answers at h ⊢
  cases hpc : c.pc with
  | idle => trivial
  | check =>
    simp only [hpc] at h
    exact h.trans later
  | lock =>
    simp only [hpc] at h
    exact ⟨h.1, h.2.1, h.2.2.trans later⟩
  | read =>
    simp only [hpc] at h
    exact ⟨h.1, h.2.1, h.2.2.trans later⟩
  | parse data =>
    simp only [hpc] at h
    exact ⟨h.1, h.2.1, h.2.2.1, h.2.2.2.frame grows later⟩
  | store entries =>
    simp only [hpc] at h
    exact ⟨h.1, h.2.1, loaded h.2.2⟩
  | lookup =>
    simp only [hpc] at h
    obtain ⟨passed, started, watching⟩ := h
    refine ⟨passed, started.trans later, fun watch => ?_⟩
    have same := kept.resolve_right (by simp [KeyCall.inside, hpc])
    rw [same]
    exact loaded (watching watch)
  | unlock ret =>
    simp only [hpc] at h
    exact atomic later h
  | returned ret =>
    simp only [hpc] at h
    exact atomic le_rfl h

theorem KeyCall.Passed.publicKeyCallback_reload {file : File} {e : LoadError}
    (passed : c.Passed cfg) (watch : cfg.watchKeys = true)
    (load : loadAuthorizedKeys codec cfg.authorizedKeys file = .error e) :
    publicKeyCallback codec cfg keys file c.user c.key c.isCertificate = .reload e := by
  unfold publicKeyCallback
  rw [if_neg (not_not.mpr passed.1), passed.2, if_neg Bool.false_ne_true, if_pos watch]
  simp only [load]

theorem KeyCall.Passed.publicKeyCallback_loaded {file : File}
    {entries : Map AuthorizedKeyEntry} (passed : c.Passed cfg) (watch : cfg.watchKeys = true)
    (load : loadAuthorizedKeys codec cfg.authorizedKeys file = .ok entries) :
    publicKeyCallback codec cfg keys file c.user c.key c.isCertificate =
      lookupKey codec entries c.key := by
  unfold publicKeyCallback
  rw [if_neg (not_not.mpr passed.1), passed.2, if_neg Bool.false_ne_true, if_pos watch]
  simp only [load]

theorem KeyCall.Passed.publicKeyCallback_fixed {file : File} (passed : c.Passed cfg)
    (fixed : cfg.watchKeys = false) :
    publicKeyCallback codec cfg keys file c.user c.key c.isCertificate =
      lookupKey codec keys c.key := by
  unfold publicKeyCallback
  rw [if_neg (not_not.mpr passed.1), passed.2, if_neg Bool.false_ne_true, fixed,
    if_neg Bool.false_ne_true]

/-- A load that fails at a moment of the call is what the callback reports. -/
theorem KeyCall.atomic_reload {file : File} {e : LoadError} (passed : c.Passed cfg)
    (watch : cfg.watchKeys = true) (saw : c.Saw st.versions st.past.length file)
    (fails : loadAuthorizedKeys codec cfg.authorizedKeys file = .error e) :
    c.Atomic codec cfg keys st.versions st.past.length (.reload e) :=
  ⟨file, saw, (passed.publicKeyCallback_reload watch fails).symm⟩

/-- What one step of a call does; the map is replaced by calls that hold the lock only. -/
theorem KeyStep.answers (h : KeyStep codec cfg st c st' c') (hc : c.Answers codec cfg keys st)
    (fixed : cfg.watchKeys = false → st.keysByFP = keys) :
    c'.Answers codec cfg keys st' ∧ st'.versions = st.versions ∧ st'.past = st.past ∧
      (st'.keysByFP = st.keysByFP ∨ cfg.watchKeys = true ∧ c.inside = 1) := by
  cases h with
  | call hpc => exact ⟨le_rfl, rfl, rfl, .inl rfl⟩
  | wrongUser hpc hu =>
    simp only [KeyCall.Answers, hpc] at hc
    refine ⟨⟨st.file, KeyCall.saw_now hc, ?_⟩, rfl, rfl, .inl rfl⟩
    exact (if_pos hu).symm
  | certificate hpc hu hcert =>
    simp only [KeyCall.Answers, hpc] at hc
    refine ⟨⟨st.file, KeyCall.saw_now hc, ?_⟩, rfl, rfl, .inl rfl⟩
    unfold publicKeyCallback
    rw [if_neg (not_not.mpr hu), if_pos hcert]
  | proceed hpc hu hcert =>
    simp only [KeyCall.Answers, hpc] at hc
    refine ⟨?_, rfl, rfl, .inl rfl⟩
    by_cases watch : cfg.watchKeys = true
    · rw [if_pos watch]
      exact ⟨watch, ⟨hu, hcert⟩, hc⟩
    · rw [if_neg watch]
      exact ⟨⟨hu, hcert⟩, hc, fun h => absurd h watch⟩
  | lock hpc hfree =>
    simp only [KeyCall.Answers, hpc] at hc
    exact ⟨hc, rfl, rfl, .inl rfl⟩
  | emptyPath hpc hpath =>
    simp only [KeyCall.Answers, hpc] at hc
    obtain ⟨watch, passed, started⟩ := hc
    refine ⟨KeyCall.atomic_reload passed watch (KeyCall.saw_now started) ?_, rfl, rfl, .inl rfl⟩
    exact if_pos hpath
  | readError text hpc hpath hfile =>
    simp only [KeyCall.Answers, hpc] at hc
    obtain ⟨watch, passed, started⟩ := hc
    refine ⟨KeyCall.atomic_reload passed watch (KeyCall.saw_now started) ?_, rfl, rfl, .inl rfl⟩
    simp only [loadAuthorizedKeys, if_neg hpath, hfile]
  | read data hpc hpath hfile =>
    simp only [KeyCall.Answers, hpc] at hc
    obtain ⟨watch, passed, started⟩ := hc
    exact ⟨⟨watch, passed, hpath, hfile ▸ KeyCall.saw_now started⟩, rfl, rfl, .inl rfl⟩
  | parseError data line e hpc herr =>
    simp only [KeyCall.Answers, hpc] at hc
    obtain ⟨watch, passed, path, saw⟩ := hc
    refine ⟨KeyCall.atomic_reload passed watch saw ?_, rfl, rfl, .inl rfl⟩
    simp only [loadAuthorizedKeys, if_neg path, herr]
  | parse data entries hpc hok =>
    simp only [KeyCall.Answers, hpc] at hc
    obtain ⟨watch, passed, path, saw⟩ := hc
    refine ⟨⟨watch, passed, _, saw, ?_⟩, rfl, rfl, .inl rfl⟩
    simp only [loadAuthorizedKeys, if_neg path, hok]
  | store entries hpc =>
    simp only [KeyCall.Answers, hpc] at hc
    obtain ⟨watch, passed, loaded⟩ := hc
    have started : c.startedAt ≤ st.past.length := by
      obtain ⟨-, ⟨k, after, before, -⟩, -⟩ := loaded
      exact after.trans before
    exact ⟨⟨passed, started, fun _ => loaded⟩, rfl, rfl, .inr ⟨watch, by
      simp [KeyCall.inside, hpc]⟩⟩
  | lookupWatching hpc watch =>
    simp only [KeyCall.Answers, hpc] at hc
    obtain ⟨passed, -, loaded⟩ := hc
    obtain ⟨file, saw, load⟩ := loaded watch
    refine ⟨⟨file, saw, ?_⟩, rfl, rfl, .inl rfl⟩
    exact (passed.publicKeyCallback_loaded watch load).symm
  | lookup hpc still =>
    simp only [KeyCall.Answers, hpc] at hc
    obtain ⟨passed, started, -⟩ := hc
    refine ⟨⟨st.file, KeyCall.saw_now started, ?_⟩, rfl, rfl, .inl rfl⟩
    rw [passed.publicKeyCallback_fixed still, fixed still]
  | unlock ret hpc =>
    simp only [KeyCall.Answers, hpc] at hc
    exact ⟨hc, rfl, rfl, .inl rfl⟩

/-! ## All calls -/

variable [DecidableEq ι] [Fintype ι] {s s' : Family ι KeyStore (KeyCall K)}

structure AnswersInv (codec : KeyCodec K) (cfg : Config) (keys : Map AuthorizedKeyEntry)
    (s : Family ι KeyStore (KeyCall K)) : Prop where
  watching : cfg.watchKeys = true → KeysInv codec s
  fixed : cfg.watchKeys = false → s.shared.keysByFP = keys
  answers : ∀ i, (s.procs i).Answers codec cfg keys s.shared

theorem AnswersInv.step (inv : AnswersInv codec cfg keys s) (h : KeysStep codec cfg s s') :
    AnswersInv codec cfg keys s' := by
  refine ⟨fun watch => (inv.watching watch).step watch h, ?_, ?_⟩
  · intro still
    cases h with
    | rewrite f => exact inv.fixed still
    | callback _ h =>
      obtain ⟨i, st', c', step, rfl⟩ := h
      obtain ⟨-, -, -, same | ⟨watch, -⟩⟩ := step.answers (inv.answers i) inv.fixed
      · exact same.trans (inv.fixed still)
      · rw [still] at watch
        cases watch
  · cases h with
    | rewrite f =>
      intro i
      apply (inv.answers i).frame
      · exact fun k g => KeyStore.getElem?_rewrite
      · simp [KeyStore.rewrite]
      · exact .inl rfl
    | callback _ h =>
      obtain ⟨i, st', c', step, rfl⟩ := h
      obtain ⟨here, versions, past, replaced⟩ := step.answers (inv.answers i) inv.fixed
      apply forall_update here
      intro j other
      apply (inv.answers j).frame (fun k f hf => versions ▸ hf) (by rw [past])
      apply replaced.imp_right
      rintro ⟨watch, inside⟩
      -- the lock admits one call, so beside the one that stores no other is inside
      have lock := (inv.watching watch).lock
      have both := pair_le_tally KeyCall.inside s.procs other
      have one := lock ▸ Bool.toNat_le s.shared.watchMu
      omega

/-- ATOMICITY. Whatever the other callbacks and the writers of the file do in between, a callback
returns what `publicKeyCallback` computes at one moment between its start and its return: from a
version of the file that was current then, in watch mode, and from the map that `NewServer` has
loaded otherwise. -/
theorem publicKeyCallback_atomic {file : File} {user : ι → Bytes} {key : ι → K}
    {isCertificate : ι → Bool}
    (run : ReflTransGen (KeysStep codec cfg) (noCallbacks file keys user key isCertificate) s)
    (i : ι) (ret : KeyRet) (returned : (s.procs i).pc = .returned ret) :
    ∃ (k : Nat) (version : File), (s.procs i).startedAt ≤ k ∧ k ≤ (s.procs i).returnedAt ∧
      s.shared.versions[k]? = some version ∧
      ret = publicKeyCallback codec cfg keys version (s.procs i).user (s.procs i).key
        (s.procs i).isCertificate := by
  have start : AnswersInv codec cfg keys (noCallbacks file keys user key isCertificate) :=
    ⟨fun watch => keysInv_of_run watch .refl, fun _ => rfl, fun _ => trivial⟩
  have inv : AnswersInv codec cfg keys s :=
    invariant_of_steps (fun _ _ inv step => inv.step step) start run
  have answers := inv.answers i
  simp only [KeyCall.Answers, returned] at answers
  obtain ⟨version, ⟨k, started, ended, current⟩, eq⟩ := answers
  exact ⟨k, version, started, ended, current, eq⟩

theorem publicKeyCallback_atomic_revoked : ∃ s : Family Bool KeyStore (KeyCall Bytes),
    (s.procs true).pc = .returned .errAuth ∧ ∃ (k : Nat) (version : File),
      (s.procs true).startedAt ≤ k ∧ k ≤ (s.procs true).returnedAt ∧
      s.shared.versions[k]? = some version ∧
      .errAuth = publicKeyCallback plainCodec watching ∅ version (s.procs true).user
        (s.procs true).key (s.procs true).isCertificate := by
  obtain ⟨s, run, -, second⟩ := watching_run
  exact ⟨s, second, publicKeyCallback_atomic run true .errAuth second⟩

end FakeSSH.GitServer
