import FakeSSH.Lib.Interleave
import FakeSSH.Lib.Weight

/-!
# Credit-based flow control

One direction of a link. A sender takes credit for each piece of data before it sends it. The
receiver holds what arrives until it is read, counts what was read as owed, and from time to
time grants all that it owes as new credit, which travels back. Both ends of the link may leave
at any moment; what is under way then may get lost.

`Flow.Step` has the steps of the goroutines of such a link, in any order. The credit is
conserved (`Flow.Balanced`): what the sender may still spend, what it holds, what is on the way
and what is coming back are together what the receiver has room for, until somebody leaves.
So what arrives always fits (`Balanced.fits`). Each stream is delivered in order without loss
(`Flow.Carries`). And when nobody leaves, no order of steps keeps a writer waiting for ever:
whatever is not done yet, some step is possible (`exists_pending`), and each step brings the end
nearer (`rank_lt`).

The streams are `κ` and the data is made of `α`. `limit` bounds a piece, and the receiver grants
when `due` says so of the room it has left.
-/

namespace FakeSSH.Lib

variable {κ α : Type}

/-! ## States and steps -/

/-- The writer of a stream: without work, before it takes credit for its data, or with a piece
that credit was taken for. -/
inductive Flow.Writer (α : Type) where
  | idle
  | waiting (data : List α)
  | holding (piece data : List α)

namespace Flow.Writer

/-- What credit was taken for. -/
def held : Writer α → Nat
  | holding piece _ => piece.length
  | _ => 0

/-- What no credit was taken for. -/
def unpaid : Writer α → Nat
  | waiting data => data.length
  | holding _ data => data.length
  | idle => 0

/-- What is still to be sent. -/
def rest : Writer α → List α
  | idle => []
  | waiting data => data
  | holding piece data => piece ++ data

/-- The writer that goes on with what is left. -/
def next (data : List α) : Writer α := if data.isEmpty then idle else waiting data

end Flow.Writer

/-- What the sender sends: data, that there will be no more, or that it leaves. -/
inductive Flow.Message (κ α : Type) where
  | data (k : κ) (piece : List α)
  | eof
  | close

/-- The amount of data in a message. -/
def Flow.Message.size : Flow.Message κ α → Nat
  | data _ piece => piece.length
  | _ => 0

/-- One direction of a link. At the sender: the credit, the writers, whether it has left, what
was given to the writers and sent, and what had been sent when the end was first announced. On
the way: messages and grants. At the receiver: the room, what it owes, the data that is not
read, whether the end has arrived, the reads that are not yet counted, the grants that are not
yet sent, whether it has left, and what was read. -/
structure Flow (κ α : Type) where
  credit : Nat
  writer : κ → Flow.Writer α
  left : Bool
  written : κ → List α
  sent : κ → List α
  mark : Option (κ → List α)
  forth : List (Flow.Message κ α)
  back : List Nat
  room : Nat
  owed : Nat
  buffer : κ → List α
  ended : Bool
  counts : List Nat
  grants : List Nat
  parted : Bool
  got : κ → List α

namespace Flow

variable [DecidableEq κ]

/-- The end is announced; the first time it is remembered what was sent. -/
def announce (s : Flow κ α) (m : Message κ α) : Flow κ α :=
  { s with forth := s.forth ++ [m], mark := some (s.mark.getD s.sent) }

/-- What one read amounts to is counted; all that is owed is granted where that is due. -/
def count (s : Flow κ α) (due : Nat → Bool) (n : Nat) : Flow κ α :=
  if due s.room then
    { s with
      owed := 0
      room := s.room + (s.owed + n)
      grants := if s.owed + n = 0 then s.grants else s.grants ++ [s.owed + n] }
  else { s with owed := s.owed + n }

/-- The steps that do what is under way. -/
inductive Work (limit : Nat) (due : Nat → Bool) (s : Flow κ α) : Flow κ α → Prop
  | take (k : κ) (data : List α) (n : Nat) : s.writer k = .waiting data → 0 < n →
      n ≤ s.credit → n ≤ data.length → n ≤ limit →
      Work limit due s { s with
        credit := s.credit - n
        writer := Function.update s.writer k (.holding (data.take n) (data.drop n)) }
  | send (k : κ) (piece data : List α) : s.writer k = .holding piece data → s.left = false →
      Work limit due s { s with
        writer := Function.update s.writer k (.next data)
        sent := Function.update s.sent k (s.sent k ++ piece)
        forth := s.forth ++ [.data k piece] }
  | arrive (k : κ) (piece : List α) (rest : List (Message κ α)) :
      s.forth = .data k piece :: rest → piece.length ≤ s.room →
      Work limit due s { s with
        forth := rest
        room := s.room - piece.length
        buffer := Function.update s.buffer k (s.buffer k ++ piece) }
  | arriveEof (rest : List (Message κ α)) : s.forth = .eof :: rest →
      Work limit due s { s with forth := rest, ended := true }
  | read (k : κ) (data rest : List α) : s.buffer k = data ++ rest → data ≠ [] →
      Work limit due s { s with
        buffer := Function.update s.buffer k rest
        counts := s.counts ++ [data.length]
        got := Function.update s.got k (s.got k ++ data) }
  | count (before after : List Nat) (n : Nat) : s.counts = before ++ n :: after →
      Work limit due s ({ s with counts := before ++ after }.count due n)
  | grant (before after : List Nat) (n : Nat) : s.grants = before ++ n :: after →
      s.parted = false →
      Work limit due s { s with grants := before ++ after, back := s.back ++ [n] }
  | collect (n : Nat) (rest : List Nat) : s.back = n :: rest →
      Work limit due s { s with back := rest, credit := s.credit + n }

/-- All the steps. -/
inductive Step (limit : Nat) (due : Nat → Bool) (s : Flow κ α) : Flow κ α → Prop
  | work (s' : Flow κ α) : Work limit due s s' → Step limit due s s'
  | write (k : κ) (data : List α) : s.writer k = .idle → data ≠ [] →
      Step limit due s { s with
        writer := Function.update s.writer k (.waiting data)
        written := Function.update s.written k (s.written k ++ data) }
  | finish : s.left = false → Step limit due s (s.announce .eof)
  | leave : s.left = false → Step limit due s { s.announce .close with left := true }
  | giveUp (k : κ) (credit : Nat) : s.left = true → credit ≤ s.credit →
      Step limit due s { s with credit := credit, writer := Function.update s.writer k .idle }
  | arriveClose (rest : List (Message κ α)) : s.forth = .close :: rest →
      Step limit due s { s with forth := rest, ended := true, parted := true }
  | part : Step limit due s { s with parted := true }
  | forget (before after : List Nat) (n : Nat) : s.grants = before ++ n :: after →
      s.parted = true → Step limit due s { s with grants := before ++ after }

section WorkKeeps

variable {limit : Nat} {due : Nat → Bool} {s s' : Flow κ α}

theorem Work.left_eq (h : Work limit due s s') : s'.left = s.left := by
  cases h with
  | count before after n =>
    unfold Flow.count
    split <;> rfl
  | take | send | arrive | arriveEof | read | grant | collect => rfl

theorem Work.written_eq (h : Work limit due s s') : s'.written = s.written := by
  cases h with
  | count before after n =>
    unfold Flow.count
    split <;> rfl
  | take | send | arrive | arriveEof | read | grant | collect => rfl

/-- Who has left does not come back. -/
theorem Step.left_mono (h : Step limit due s s') (gone : s.left = true) : s'.left = true := by
  cases h with
  | work _ h => exact h.left_eq.trans gone
  | leave => rfl
  | write | finish | giveUp | arriveClose | part | forget => exact gone

end WorkKeeps

/-- Nothing has been given to the writers yet. -/
def fresh (capacity : Nat) : Flow κ α where
  credit := capacity
  writer := fun _ => .idle
  left := false
  written := fun _ => []
  sent := fun _ => []
  mark := none
  forth := []
  back := []
  room := capacity
  owed := 0
  buffer := fun _ => []
  ended := false
  counts := []
  grants := []
  parted := false
  got := fun _ => []

/-! ## Credit is conserved -/

/-- A waiting writer has data, and what a writer holds is a piece. -/
def Writer.Fits (limit : Nat) : Writer α → Prop
  | .idle => True
  | .waiting data => data ≠ []
  | .holding piece _ => piece ≠ [] ∧ piece.length ≤ limit

omit [DecidableEq κ] in
theorem Writer.fits_next (limit : Nat) (data : List α) : (Writer.next data).Fits limit := by
  unfold Writer.next
  cases data with
  | nil => exact trivial
  | cons a data => exact List.cons_ne_nil a data

@[simp] theorem Writer.held_next (data : List α) : (Writer.next data).held = 0 := by
  unfold Writer.next
  cases data <;> rfl

@[simp] theorem Writer.unpaid_next (data : List α) : (Writer.next data).unpaid = data.length := by
  unfold Writer.next
  cases data <;> rfl

@[simp] theorem Writer.rest_next (data : List α) : (Writer.next data).rest = data := by
  unfold Writer.next
  cases data <;> rfl

variable {limit capacity : Nat} {due : Nat → Bool} {s s' : Flow κ α}

section Accounts

variable [Fintype κ]

/-- The credit there is, wherever it is. -/
def pledged (s : Flow κ α) : Nat :=
  s.credit + tally Writer.held s.writer + weigh Message.size s.forth + weigh id s.grants +
    weigh id s.back

/-- The accounts of both ends. -/
structure Balanced (limit capacity : Nat) (due : Nat → Bool) (s : Flow κ α) : Prop where
  writers : ∀ k, (s.writer k).Fits limit
  pieces : ∀ k piece, Message.data k piece ∈ s.forth → piece ≠ [] ∧ piece.length ≤ limit
  covered : s.pledged ≤ s.room
  exact : s.left = false → s.parted = false → s.pledged = s.room
  account : s.room + tally List.length s.buffer + weigh id s.counts + s.owed = capacity
  counts : ∀ n ∈ s.counts, 0 < n
  grants : ∀ n ∈ s.grants, 0 < n
  back : ∀ n ∈ s.back, 0 < n
  drained : s.counts = [] → (∀ k, s.buffer k = []) → s.owed = 0 ∨ due s.room = false

omit [DecidableEq κ] in
/-- What arrives always fits. -/
theorem Balanced.fits (b : s.Balanced limit capacity due) {k : κ} {piece : List α}
    {rest : List (Message κ α)} (h : s.forth = .data k piece :: rest) :
    piece.length ≤ s.room := by
  have covered := b.covered
  rw [pledged, h, weigh_cons] at covered
  have : (Message.data k piece).size = piece.length := rfl
  omega

omit [DecidableEq κ] in
theorem pledged_fresh : (fresh capacity : Flow κ α).pledged = capacity := by
  have nothing : tally Writer.held (fresh capacity : Flow κ α).writer = 0 :=
    tally_eq_zero fun _ => rfl
  rw [pledged, nothing]
  rfl

omit [DecidableEq κ] in
theorem balanced_fresh : (fresh capacity : Flow κ α).Balanced limit capacity due where
  writers _ := trivial
  pieces _ _ h := absurd h List.not_mem_nil
  covered := Nat.le_of_eq pledged_fresh
  exact _ _ := pledged_fresh
  account := by
    have nothing : tally List.length (fresh capacity : Flow κ α).buffer = 0 :=
      tally_eq_zero fun _ => rfl
    rw [nothing]
    rfl
  counts _ h := absurd h List.not_mem_nil
  grants _ h := absurd h List.not_mem_nil
  back _ h := absurd h List.not_mem_nil
  drained _ _ := .inl rfl

omit [DecidableEq κ] in
/-- A step that moves credit but loses none, and touches neither the room nor the accounts. -/
theorem Balanced.of_moved (b : s.Balanced limit capacity due)
    (writers : ∀ k, (s'.writer k).Fits limit)
    (pieces : ∀ k piece, Message.data k piece ∈ s'.forth → piece ≠ [] ∧ piece.length ≤ limit)
    (moved : s'.pledged = s.pledged) (left : s'.left = s.left) (parted : s'.parted = s.parted)
    (room : s'.room = s.room) (buffer : s'.buffer = s.buffer) (counts : s'.counts = s.counts)
    (owed : s'.owed = s.owed) (grants : ∀ n ∈ s'.grants, 0 < n) (back : ∀ n ∈ s'.back, 0 < n) :
    s'.Balanced limit capacity due where
  writers := writers
  pieces := pieces
  covered := by rw [moved, room]; exact b.covered
  exact := by rw [moved, room, left, parted]; exact b.exact
  account := by rw [room, buffer, counts, owed]; exact b.account
  counts := by rw [counts]; exact b.counts
  grants := grants
  back := back
  drained := by rw [room, buffer, counts, owed]; exact b.drained

omit [DecidableEq κ] in
/-- A step after which somebody has left, where credit may get lost. -/
theorem Balanced.of_lost (b : s.Balanced limit capacity due)
    (writers : ∀ k, (s'.writer k).Fits limit)
    (pieces : ∀ k piece, Message.data k piece ∈ s'.forth → Message.data k piece ∈ s.forth)
    (lost : s'.pledged ≤ s.pledged) (gone : s'.left = true ∨ s'.parted = true)
    (room : s'.room = s.room) (buffer : s'.buffer = s.buffer) (counts : s'.counts = s.counts)
    (owed : s'.owed = s.owed) (grants : ∀ n ∈ s'.grants, n ∈ s.grants) (back : s'.back = s.back) :
    s'.Balanced limit capacity due where
  writers := writers
  pieces k piece h := b.pieces k piece (pieces k piece h)
  covered := by rw [room]; exact Nat.le_trans lost b.covered
  exact hl hp := by simp [hl, hp] at gone
  account := by rw [room, buffer, counts, owed]; exact b.account
  counts := by rw [counts]; exact b.counts
  grants n h := b.grants n (grants n h)
  back := by rw [back]; exact b.back
  drained := by rw [room, buffer, counts, owed]; exact b.drained

theorem Balanced.take (b : s.Balanced limit capacity due) {k : κ} {data : List α} {n : Nat}
    (waiting : s.writer k = .waiting data) (some : 0 < n) (credit : n ≤ s.credit)
    (within : n ≤ data.length) (small : n ≤ limit) :
    { s with
      credit := s.credit - n
      writer := Function.update s.writer k (.holding (data.take n) (data.drop n)) }.Balanced
      limit capacity due := by
  have length : (data.take n).length = n := List.length_take_of_le within
  refine b.of_moved ?_ b.pieces ?_ rfl rfl rfl rfl rfl rfl b.grants b.back
  · apply forall_update _ fun j _ => b.writers j
    exact ⟨List.ne_nil_of_length_pos (by omega), by omega⟩
  · have := tally_update Writer.held s.writer k (.holding (data.take n) (data.drop n))
    rw [waiting] at this
    simp only [Writer.held, length] at this
    simp only [pledged]
    omega

theorem Balanced.send (b : s.Balanced limit capacity due) {k : κ} {piece data : List α}
    (holding : s.writer k = .holding piece data) :
    { s with
      writer := Function.update s.writer k (.next data)
      sent := Function.update s.sent k (s.sent k ++ piece)
      forth := s.forth ++ [Message.data k piece] }.Balanced limit capacity due := by
  have fits := b.writers k
  rw [holding] at fits
  refine b.of_moved ?_ ?_ ?_ rfl rfl rfl rfl rfl rfl b.grants b.back
  · exact forall_update (Writer.fits_next limit data) fun j _ => b.writers j
  · intro j p hp
    rcases List.mem_append.mp hp with old | new
    · exact b.pieces j p old
    · cases List.mem_singleton.mp new
      exact fits
  · have := tally_update Writer.held s.writer k (.next data)
    rw [holding, Writer.held_next] at this
    simp only [Writer.held] at this
    simp only [pledged, weigh_append, weigh_cons, weigh_nil, Message.size]
    omega

theorem Balanced.arrive (b : s.Balanced limit capacity due) {k : κ} {piece : List α}
    {rest : List (Message κ α)} (first : s.forth = .data k piece :: rest)
    (fits : piece.length ≤ s.room) :
    { s with
      forth := rest
      room := s.room - piece.length
      buffer := Function.update s.buffer k (s.buffer k ++ piece) }.Balanced
      limit capacity due := by
  obtain ⟨some, -⟩ := b.pieces k piece (by rw [first]; exact List.mem_cons_self)
  have spent : s.pledged = piece.length + { s with forth := rest }.pledged := by
    simp only [pledged, first, weigh_cons, Message.size]
    omega
  refine ⟨b.writers, ?_, ?_, ?_, ?_, b.counts, b.grants, b.back, ?_⟩
  · intro j p hp
    exact b.pieces j p (by rw [first]; exact List.mem_cons_of_mem _ hp)
  · have := b.covered
    change { s with forth := rest }.pledged ≤ s.room - piece.length
    omega
  · intro hl hp
    have := b.exact hl hp
    change { s with forth := rest }.pledged = s.room - piece.length
    omega
  · have moved := tally_update List.length s.buffer k (s.buffer k ++ piece)
    have := b.account
    rw [List.length_append] at moved
    dsimp only
    omega
  · intro _ empty
    have := empty k
    simp only [Function.update_self, List.append_eq_nil_iff] at this
    exact absurd this.2 some

theorem Balanced.read (b : s.Balanced limit capacity due) {k : κ} {data rest : List α}
    (buffered : s.buffer k = data ++ rest) (some : data ≠ []) :
    { s with
      buffer := Function.update s.buffer k rest
      counts := s.counts ++ [data.length]
      got := Function.update s.got k (s.got k ++ data) }.Balanced limit capacity due := by
  refine ⟨b.writers, b.pieces, b.covered, b.exact, ?_, ?_, b.grants, b.back, ?_⟩
  · have moved := tally_update List.length s.buffer k rest
    have := b.account
    rw [buffered, List.length_append] at moved
    simp only [weigh_append, weigh_cons, weigh_nil, id_eq]
    omega
  · intro n hn
    rcases List.mem_append.mp hn with old | new
    · exact b.counts n old
    · cases List.mem_singleton.mp new
      exact List.length_pos_of_ne_nil some
  · intro nothing
    exact absurd nothing (by simp)

omit [DecidableEq κ] in
theorem Balanced.count (b : s.Balanced limit capacity due) {before after : List Nat} {n : Nat}
    (counts : s.counts = before ++ n :: after) :
    ({ s with counts := before ++ after }.count due n).Balanced limit capacity due := by
  have account := b.account
  rw [counts, weigh_append, weigh_cons] at account
  have fewer : ∀ m ∈ before ++ after, 0 < m := by
    intro m hm
    apply b.counts m
    rw [counts]
    simp only [List.mem_append, List.mem_cons] at hm ⊢
    tauto
  have positive := b.counts n (by rw [counts]; simp)
  unfold Flow.count
  dsimp only
  rw [if_neg (show ¬ s.owed + n = 0 by omega)]
  split
  · have more : { s with grants := s.grants ++ [s.owed + n] }.pledged =
        s.pledged + (s.owed + n) := by
      simp only [pledged, weigh_append, weigh_cons, weigh_nil, id_eq]
      omega
    refine ⟨b.writers, b.pieces, ?_, ?_, ?_, fewer, ?_, b.back, fun _ _ => .inl rfl⟩
    · have := b.covered
      change { s with grants := s.grants ++ [s.owed + n] }.pledged ≤ s.room + (s.owed + n)
      omega
    · intro hl hp
      have := b.exact hl hp
      change { s with grants := s.grants ++ [s.owed + n] }.pledged = s.room + (s.owed + n)
      omega
    · simp only [weigh_append, id_eq] at account ⊢
      omega
    · intro m hm
      rcases List.mem_append.mp hm with old | new
      · exact b.grants m old
      · rw [List.mem_singleton.mp new]
        omega
  · rename_i notDue
    refine ⟨b.writers, b.pieces, b.covered, b.exact, ?_, fewer, b.grants, b.back, ?_⟩
    · simp only [weigh_append, id_eq] at account ⊢
      omega
    · exact fun _ _ => .inr (Bool.eq_false_of_not_eq_true notDue)

/-- The steps that do what is under way keep the accounts. -/
theorem Balanced.work (b : s.Balanced limit capacity due) (h : Work limit due s s') :
    s'.Balanced limit capacity due := by
  cases h with
  | take k data n waiting some credit within small => exact b.take waiting some credit within small
  | send k piece data holding here => exact b.send holding
  | arrive k piece rest first fits => exact b.arrive first fits
  | arriveEof rest first =>
    refine b.of_moved b.writers ?_ ?_ rfl rfl rfl rfl rfl rfl b.grants b.back
    · intro k piece h
      exact b.pieces k piece (by rw [first]; exact List.mem_cons_of_mem _ h)
    · simp only [pledged, first, weigh_cons, Message.size]
      omega
  | read k data rest buffered some => exact b.read buffered some
  | count before after n counts => exact b.count counts
  | grant before after n grants here =>
    refine b.of_moved b.writers b.pieces ?_ rfl rfl rfl rfl rfl rfl ?_ ?_
    · simp only [pledged, grants, weigh_append, weigh_cons, weigh_nil]
      omega
    · intro m hm
      apply b.grants m
      rw [grants]
      simp only [List.mem_append, List.mem_cons] at hm ⊢
      tauto
    · intro m hm
      rcases List.mem_append.mp hm with old | new
      · exact b.back m old
      · rw [List.mem_singleton.mp new]
        exact b.grants n (by rw [grants]; simp)
  | collect n rest first =>
    refine b.of_moved b.writers b.pieces ?_ rfl rfl rfl rfl rfl rfl b.grants ?_
    · simp only [pledged, first, weigh_cons, id_eq]
      omega
    · intro m hm
      exact b.back m (by rw [first]; exact List.mem_cons_of_mem _ hm)

/-- Every step keeps the accounts. -/
theorem Balanced.step (b : s.Balanced limit capacity due) (h : Step limit due s s') :
    s'.Balanced limit capacity due := by
  cases h with
  | work _ h => exact b.work h
  | write k data idle some =>
    refine b.of_moved ?_ b.pieces ?_ rfl rfl rfl rfl rfl rfl b.grants b.back
    · exact forall_update some fun j _ => b.writers j
    · have := tally_update Writer.held s.writer k (.waiting data)
      rw [idle] at this
      simp only [Writer.held] at this
      simp only [pledged]
      omega
  | finish here =>
    refine b.of_moved b.writers ?_ ?_ rfl rfl rfl rfl rfl rfl b.grants b.back
    · intro k piece h
      rcases List.mem_append.mp h with old | new
      · exact b.pieces k piece old
      · cases List.mem_singleton.mp new
    · simp only [pledged, announce, weigh_append, weigh_cons, weigh_nil, Message.size]
      omega
  | leave here =>
    refine b.of_lost b.writers ?_ ?_ (.inl rfl) rfl rfl rfl rfl (fun _ h => h) rfl
    · intro k piece h
      rcases List.mem_append.mp h with old | new
      · exact old
      · cases List.mem_singleton.mp new
    · simp only [pledged, announce, weigh_append, weigh_cons, weigh_nil, Message.size]
      omega
  | giveUp k credit here less =>
    refine b.of_lost ?_ (fun _ _ h => h) ?_ (.inl here) rfl rfl rfl rfl (fun _ h => h) rfl
    · exact forall_update trivial fun j _ => b.writers j
    · have := tally_update Writer.held s.writer k .idle
      simp only [Writer.held] at this
      simp only [pledged]
      omega
  | arriveClose rest first =>
    refine b.of_lost b.writers ?_ ?_ (.inr rfl) rfl rfl rfl rfl (fun _ h => h) rfl
    · intro k piece h
      rw [first]
      exact List.mem_cons_of_mem _ h
    · simp only [pledged, first, weigh_cons]
      omega
  | part =>
    refine b.of_lost ?_ ?_ (Nat.le_refl _) (.inr rfl) rfl rfl rfl rfl ?_ rfl
    · exact b.writers
    · exact fun _ _ h => h
    · exact fun _ h => h
  | forget before after n grants gone =>
    refine b.of_lost b.writers (fun _ _ h => h) ?_ (.inr gone) rfl rfl rfl rfl ?_ rfl
    · simp only [pledged, grants, weigh_append, weigh_cons]
      omega
    · intro m hm
      rw [grants]
      simp only [List.mem_append, List.mem_cons] at hm ⊢
      tauto

end Accounts

/-! ## The streams arrive as they were written -/

/-- What a message carries of a stream. -/
def Message.on (k : κ) : Message κ α → List α
  | .data j piece => if j = k then piece else []
  | _ => []

@[simp] theorem Message.on_eof (k : κ) : (Message.eof : Message κ α).on k = [] := rfl

@[simp] theorem Message.on_close (k : κ) : (Message.close : Message κ α).on k = [] := rfl

/-- What is on the way of a stream. -/
def content (k : κ) (ms : List (Message κ α)) : List α := ms.flatMap (Message.on k)

@[simp] theorem content_nil (k : κ) : content k ([] : List (Message κ α)) = [] := rfl

@[simp] theorem content_cons (k : κ) (m : Message κ α) (ms : List (Message κ α)) :
    content k (m :: ms) = m.on k ++ content k ms := rfl

@[simp] theorem content_append (k : κ) (ms ms' : List (Message κ α)) :
    content k (ms ++ ms') = content k ms ++ content k ms' := List.flatMap_append

/-- What arrived of a stream. -/
def arrived (s : Flow κ α) (k : κ) : List α := s.got k ++ s.buffer k

omit [DecidableEq κ] in
@[simp] theorem written_count (n : Nat) : (s.count due n).written = s.written := by
  unfold count
  split <;> rfl

omit [DecidableEq κ] in
@[simp] theorem sent_count (n : Nat) : (s.count due n).sent = s.sent := by
  unfold count
  split <;> rfl

omit [DecidableEq κ] in
@[simp] theorem writer_count (n : Nat) : (s.count due n).writer = s.writer := by
  unfold count
  split <;> rfl

omit [DecidableEq κ] in
@[simp] theorem left_count (n : Nat) : (s.count due n).left = s.left := by
  unfold count
  split <;> rfl

omit [DecidableEq κ] in
@[simp] theorem forth_count (n : Nat) : (s.count due n).forth = s.forth := by
  unfold count
  split <;> rfl

omit [DecidableEq κ] in
@[simp] theorem arrived_count (n : Nat) : (s.count due n).arrived = s.arrived := by
  unfold count
  split <;> rfl

/-- A read moves data from the buffer to the reader. -/
theorem arrived_read {k : κ} {data rest : List α} (buffered : s.buffer k = data ++ rest) :
    { s with
      buffer := Function.update s.buffer k rest
      counts := s.counts ++ [data.length]
      got := Function.update s.got k (s.got k ++ data) }.arrived = s.arrived := by
  funext j
  by_cases hj : j = k
  · subst hj
    simp only [arrived, Function.update_self, buffered, List.append_assoc]
  · simp only [arrived, Function.update_of_ne hj]

/-- A piece arrives. -/
theorem arrived_arrive {k : κ} {piece : List α} {rest : List (Message κ α)} (j : κ) :
    { s with
      forth := rest
      room := s.room - piece.length
      buffer := Function.update s.buffer k (s.buffer k ++ piece) }.arrived j =
      s.arrived j ++ (Message.data k piece).on j := by
  by_cases hj : j = k
  · subst hj
    simp only [arrived, Function.update_self, Message.on, if_pos, List.append_assoc]
  · simp only [arrived, Function.update_of_ne hj, Message.on, if_neg (Ne.symm hj), List.append_nil]

/-- Each stream is what was read, what is held and what is on the way, one after the other. Of
what was written nothing is skipped, and until the sender leaves what is not sent yet is with
the writer. -/
structure Carries (s : Flow κ α) : Prop where
  inOrder : ∀ k, s.arrived k ++ content k s.forth = s.sent k
  beginning : ∀ k, s.sent k <+: s.written k
  complete : s.left = false → ∀ k, s.sent k ++ (s.writer k).rest = s.written k

theorem Carries.of_same (c : s.Carries)
    (inOrder : ∀ k, s'.arrived k ++ content k s'.forth = s.arrived k ++ content k s.forth)
    (sent : s'.sent = s.sent) (written : s'.written = s.written)
    (complete : s'.left = false → s.left = false ∧ ∀ k, (s'.writer k).rest = (s.writer k).rest) :
    s'.Carries where
  inOrder k := by rw [inOrder, sent]; exact c.inOrder k
  beginning := by rw [sent, written]; exact c.beginning
  complete here k := by
    obtain ⟨before, same⟩ := complete here
    rw [sent, written, same]
    exact c.complete before k

theorem Carries.send (c : s.Carries) {k : κ} {piece data : List α}
    (holding : s.writer k = .holding piece data) (here : s.left = false) :
    { s with
      writer := Function.update s.writer k (.next data)
      sent := Function.update s.sent k (s.sent k ++ piece)
      forth := s.forth ++ [Message.data k piece] }.Carries := by
  have complete := c.complete here k
  rw [holding, Writer.rest, ← List.append_assoc] at complete
  refine ⟨fun j => ?_, fun j => ?_, fun _ j => ?_⟩
  · change s.arrived j ++ content j (s.forth ++ [Message.data k piece]) =
      Function.update s.sent k (s.sent k ++ piece) j
    rw [content_append, ← List.append_assoc, c.inOrder j, content_cons, content_nil,
      List.append_nil]
    by_cases hj : j = k
    · subst hj
      rw [Function.update_self, Message.on, if_pos rfl]
    · rw [Function.update_of_ne hj, Message.on, if_neg (Ne.symm hj), List.append_nil]
  · by_cases hj : j = k
    · subst hj
      dsimp only
      rw [Function.update_self]
      exact ⟨data, complete⟩
    · dsimp only
      rw [Function.update_of_ne hj]
      exact c.beginning j
  · by_cases hj : j = k
    · subst hj
      dsimp only
      rw [Function.update_self, Function.update_self, Writer.rest_next]
      exact complete
    · dsimp only
      rw [Function.update_of_ne hj, Function.update_of_ne hj]
      exact c.complete here j

theorem Carries.write (c : s.Carries) {k : κ} {data : List α} (idle : s.writer k = .idle) :
    { s with
      writer := Function.update s.writer k (.waiting data)
      written := Function.update s.written k (s.written k ++ data) }.Carries := by
  refine ⟨c.inOrder, fun j => ?_, fun here j => ?_⟩
  · by_cases hj : j = k
    · subst hj
      dsimp only
      rw [Function.update_self]
      exact (c.beginning j).trans (List.prefix_append _ _)
    · dsimp only
      rw [Function.update_of_ne hj]
      exact c.beginning j
  · by_cases hj : j = k
    · subst hj
      have complete := c.complete here j
      rw [idle, Writer.rest, List.append_nil] at complete
      dsimp only
      rw [Function.update_self, Function.update_self, complete, Writer.rest]
    · dsimp only
      rw [Function.update_of_ne hj, Function.update_of_ne hj]
      exact c.complete here j

theorem Carries.work (c : s.Carries) (h : Work limit due s s') : s'.Carries := by
  cases h with
  | take k data n waiting =>
    refine c.of_same (fun _ => rfl) rfl rfl fun here => ⟨here, ?_⟩
    refine (Function.forall_update_iff s.writer
      fun j w => w.rest = (s.writer j).rest).mpr ⟨?_, fun _ _ => rfl⟩
    rw [waiting]
    exact List.take_append_drop n data
  | send k piece data holding here => exact c.send holding here
  | arrive k piece rest first =>
    refine c.of_same (fun j => ?_) rfl rfl fun here => ⟨here, fun _ => rfl⟩
    rw [arrived_arrive, first, content_cons, List.append_assoc]
  | arriveEof rest first =>
    refine c.of_same (fun j => ?_) rfl rfl fun here => ⟨here, fun _ => rfl⟩
    rw [first]
    rfl
  | read k data rest buffered =>
    refine c.of_same (fun j => ?_) rfl rfl fun here => ⟨here, fun _ => rfl⟩
    rw [arrived_read buffered]
  | count before after n =>
    refine c.of_same (fun j => ?_) (sent_count n) (written_count n) fun here => ⟨?_, fun k => ?_⟩
    · rw [arrived_count, forth_count]
      rfl
    · rwa [left_count] at here
    · rw [writer_count]
  | grant => exact c.of_same (fun _ => rfl) rfl rfl fun here => ⟨here, fun _ => rfl⟩
  | collect => exact c.of_same (fun _ => rfl) rfl rfl fun here => ⟨here, fun _ => rfl⟩

theorem Carries.step (c : s.Carries) (h : Step limit due s s') : s'.Carries := by
  cases h with
  | work _ h => exact c.work h
  | write k data idle => exact c.write idle
  | finish here =>
    refine c.of_same (fun j => ?_) rfl rfl fun here => ⟨here, fun _ => rfl⟩
    change s.arrived j ++ content j (s.forth ++ [Message.eof]) = _
    rw [content_append, content_cons, content_nil, Message.on_eof, List.append_nil,
      List.append_nil]
  | leave here =>
    refine c.of_same (fun j => ?_) rfl rfl fun gone => Bool.noConfusion gone
    change s.arrived j ++ content j (s.forth ++ [Message.close]) = _
    rw [content_append, content_cons, content_nil, Message.on_close, List.append_nil,
      List.append_nil]
  | giveUp k credit gone =>
    refine c.of_same (fun _ => rfl) rfl rfl fun here => ?_
    exact Bool.noConfusion (here.symm.trans gone)
  | arriveClose rest first =>
    refine c.of_same (fun j => ?_) rfl rfl fun here => ⟨here, fun _ => rfl⟩
    rw [first]
    rfl
  | part => exact c.of_same (fun _ => rfl) rfl rfl fun here => ⟨here, fun _ => rfl⟩
  | forget => exact c.of_same (fun _ => rfl) rfl rfl fun here => ⟨here, fun _ => rfl⟩

theorem carries_fresh : (fresh capacity : Flow κ α).Carries :=
  ⟨fun _ => rfl, fun _ => List.prefix_rfl, fun _ _ => rfl⟩

/-! ## The end comes after the data -/

/-- Does the message say that there will be no more data? -/
def Message.ends : Message κ α → Bool
  | .data _ _ => false
  | _ => true

/-- Until the end is announced it does not arrive. Then it is on the way, behind what had been
sent. When it has arrived all of that has arrived. -/
structure Ends (s : Flow κ α) : Prop where
  unannounced : s.mark = none → (∀ m ∈ s.forth, m.ends = false) ∧ s.ended = false
  underWay : ∀ f, s.mark = some f → s.ended = false → ∃ before m after,
    s.forth = before ++ m :: after ∧ m.ends = true ∧ (∀ m ∈ before, m.ends = false) ∧
      ∀ k, f k = s.arrived k ++ content k before
  passed : ∀ f, s.mark = some f → s.ended = true → ∀ k, f k <+: s.arrived k

theorem ends_fresh : (fresh capacity : Flow κ α).Ends where
  unannounced _ := ⟨fun _ h => absurd h List.not_mem_nil, rfl⟩
  underWay _ h := by cases h
  passed _ h := by cases h

theorem Ends.of_same (e : s.Ends) (mark : s'.mark = s.mark) (forth : s'.forth = s.forth)
    (ended : s'.ended = s.ended) (arrived : s'.arrived = s.arrived) : s'.Ends where
  unannounced := by rw [mark, forth, ended]; exact e.unannounced
  underWay := by rw [mark, forth, ended, arrived]; exact e.underWay
  passed := by rw [mark, ended, arrived]; exact e.passed

/-- Data joins what is on the way. -/
theorem Ends.of_sent (e : s.Ends) (m : Message κ α) (data : m.ends = false)
    (mark : s'.mark = s.mark) (forth : s'.forth = s.forth ++ [m]) (ended : s'.ended = s.ended)
    (arrived : s'.arrived = s.arrived) : s'.Ends where
  unannounced h := by
    rw [mark] at h
    obtain ⟨none, fresh⟩ := e.unannounced h
    rw [forth, ended]
    refine ⟨fun m' hm => ?_, fresh⟩
    rcases List.mem_append.mp hm with old | new
    · exact none m' old
    · rwa [List.mem_singleton.mp new]
  underWay f h early := by
    rw [mark] at h
    rw [ended] at early
    obtain ⟨before, last, after, way, rest⟩ := e.underWay f h early
    refine ⟨before, last, after ++ [m], ?_, arrived ▸ rest⟩
    rw [forth, way, List.append_assoc]
    rfl
  passed := by rw [mark, ended, arrived]; exact e.passed

/-- The end is announced, for the first time or once more. -/
theorem Ends.announce (e : s.Ends) (c : s.Carries) (m : Message κ α) (last : m.ends = true) :
    (s.announce m).Ends where
  unannounced h := by cases h
  underWay f h early := by
    change some (s.mark.getD s.sent) = some f at h
    change s.ended = false at early
    obtain rfl := Option.some.inj h
    cases hm : s.mark with
    | none =>
      refine ⟨s.forth, m, [], rfl, last, (e.unannounced hm).1, fun k => ?_⟩
      exact (c.inOrder k).symm
    | some f =>
      obtain ⟨before, m', after, way, rest⟩ := e.underWay f hm early
      refine ⟨before, m', after ++ [m], ?_, rest⟩
      change s.forth ++ [m] = _
      rw [way, List.append_assoc]
      rfl
  passed f h late := by
    change some (s.mark.getD s.sent) = some f at h
    change s.ended = true at late
    obtain rfl := Option.some.inj h
    cases hm : s.mark with
    | none => exact Bool.noConfusion ((e.unannounced hm).2.symm.trans late)
    | some f => exact e.passed f hm late

/-- The first message arrives, and with it what it carries. -/
theorem Ends.of_arrival (e : s.Ends) {m : Message κ α} {rest : List (Message κ α)}
    (first : s.forth = m :: rest) (mark : s'.mark = s.mark) (forth : s'.forth = rest)
    (ended : s'.ended = (s.ended || m.ends))
    (arrived : ∀ k, s'.arrived k = s.arrived k ++ m.on k) : s'.Ends where
  unannounced h := by
    rw [mark] at h
    obtain ⟨none, fresh⟩ := e.unannounced h
    rw [first] at none
    refine ⟨fun m' hm => none m' ?_, ?_⟩
    · rw [forth] at hm
      exact List.mem_cons_of_mem m hm
    · rw [ended, fresh, none m List.mem_cons_self]
      rfl
  underWay f h early := by
    rw [mark] at h
    rw [ended, Bool.or_eq_false_iff] at early
    obtain ⟨before, last, after, way, ends, data, same⟩ := e.underWay f h early.1
    rw [first] at way
    cases before with
    | nil =>
      cases way
      exact Bool.noConfusion (early.2.symm.trans ends)
    | cons b before =>
      cases way
      refine ⟨before, last, after, forth, ends, fun m hm => ?_, fun k => ?_⟩
      · exact data m (List.mem_cons_of_mem _ hm)
      · rw [same k, arrived k, content_cons, List.append_assoc]
  passed f h late k := by
    rw [mark] at h
    rw [arrived]
    cases early : s.ended with
    | true => exact (e.passed f h early k).trans (List.prefix_append _ _)
    | false =>
      obtain ⟨before, last, after, way, ends, data, same⟩ := e.underWay f h early
      rw [ended, early, Bool.false_or] at late
      rw [first] at way
      cases before with
      | nil =>
        rw [same k, content_nil, List.append_nil]
        exact List.prefix_append _ _
      | cons b before =>
        cases way
        exact Bool.noConfusion ((data m List.mem_cons_self).symm.trans late)

theorem Ends.work (e : s.Ends) (h : Work limit due s s') : s'.Ends := by
  cases h with
  | take => exact e.of_same rfl rfl rfl rfl
  | send k piece data => exact e.of_sent (.data k piece) rfl rfl rfl rfl rfl
  | arrive k piece rest first =>
    exact e.of_arrival first rfl rfl (Bool.or_false _).symm arrived_arrive
  | arriveEof rest first =>
    exact e.of_arrival first rfl rfl (Bool.or_true _).symm fun k => (List.append_nil _).symm
  | read k data rest buffered => exact e.of_same rfl rfl rfl (arrived_read buffered)
  | count before after n =>
    unfold count
    split <;> exact e.of_same rfl rfl rfl rfl
  | grant => exact e.of_same rfl rfl rfl rfl
  | collect => exact e.of_same rfl rfl rfl rfl

theorem Ends.step (e : s.Ends) (c : s.Carries) (h : Step limit due s s') : s'.Ends := by
  cases h with
  | work _ h => exact e.work h
  | finish => exact e.announce c .eof rfl
  | leave =>
    have := e.announce c .close rfl
    exact this.of_same rfl rfl rfl rfl
  | arriveClose rest first =>
    exact e.of_arrival first rfl rfl (Bool.or_true _).symm fun k => (List.append_nil _).symm
  | write => exact e.of_same rfl rfl rfl rfl
  | giveUp => exact e.of_same rfl rfl rfl rfl
  | part => exact e.of_same rfl rfl rfl rfl
  | forget => exact e.of_same rfl rfl rfl rfl

/-! ## Nobody waits for ever -/

section Progress

variable [Fintype κ]

/-- Everything that was written has been read. -/
structure Settled (s : Flow κ α) : Prop where
  writers : ∀ k, s.writer k = .idle
  forth : s.forth = []
  buffer : ∀ k, s.buffer k = []

omit [Fintype κ] in
theorem Carries.settled (c : s.Carries) (d : s.Settled) (here : s.left = false) (k : κ) :
    s.got k = s.written k := by
  have inOrder := c.inOrder k
  have complete := c.complete here k
  rw [arrived, d.forth, d.buffer k, content_nil, List.append_nil, List.append_nil] at inOrder
  rw [d.writers k, Writer.rest, List.append_nil, ← inOrder] at complete
  exact complete

/-- What there is to do. -/
inductive Pending (s : Flow κ α) : Prop
  | forth : s.forth ≠ [] → Pending s
  | buffer (k : κ) : s.buffer k ≠ [] → Pending s
  | counts : s.counts ≠ [] → Pending s
  | grants : s.grants ≠ [] → Pending s
  | back : s.back ≠ [] → Pending s
  | holding (k : κ) (piece data : List α) : s.writer k = .holding piece data → Pending s
  | waiting (k : κ) (data : List α) : s.writer k = .waiting data → 0 < s.credit → Pending s

omit [DecidableEq κ] in
/-- A writer that waits for credit has a cause: something is on the way, unread, not yet
granted or not yet collected. -/
theorem Balanced.exists_pending (b : s.Balanced limit capacity due) (here : s.left = false)
    (there : s.parted = false) (positive : 0 < capacity)
    (generous : ∀ room, due room = false → 0 < room) (unsettled : ¬ s.Settled) : s.Pending := by
  by_contra nothing
  have forth : s.forth = [] := not_not.mp fun h => nothing (.forth h)
  have buffer : ∀ k, s.buffer k = [] := fun k => not_not.mp fun h => nothing (.buffer k h)
  have counts : s.counts = [] := not_not.mp fun h => nothing (.counts h)
  have grants : s.grants = [] := not_not.mp fun h => nothing (.grants h)
  have back : s.back = [] := not_not.mp fun h => nothing (.back h)
  have held : tally Writer.held s.writer = 0 := by
    apply tally_eq_zero
    intro k
    cases hw : s.writer k with
    | idle => rfl
    | waiting data => rfl
    | holding piece data => exact absurd (.holding k piece data hw) nothing
  -- the whole window is open, or so much of it that nothing was granted
  have exact := b.exact here there
  have account := b.account
  have drained := b.drained counts buffer
  rw [pledged, forth, grants, back, held] at exact
  rw [tally_eq_zero (fun k => by rw [buffer k]; rfl), counts] at account
  simp only [weigh_nil, Nat.add_zero] at exact account
  have room : 0 < s.room := by
    rcases drained with none | enough
    · omega
    · exact generous _ enough
  apply unsettled
  refine ⟨fun k => ?_, forth, buffer⟩
  cases hw : s.writer k with
  | idle => rfl
  | waiting data => exact absurd (.waiting k data hw (by omega)) nothing
  | holding piece data => exact absurd (.holding k piece data hw) nothing

/-- What a message weighs on its way. -/
def Message.load : Message κ α → Nat
  | .data _ piece => 6 * piece.length
  | _ => 1

/-- How far everything is from its end. A unit of data and the credit for it go through eight
stations. -/
def rank (s : Flow κ α) : Nat :=
  8 * tally Writer.unpaid s.writer + 7 * tally Writer.held s.writer + weigh Message.load s.forth +
    5 * tally List.length s.buffer + 4 * weigh id s.counts + 3 * s.owed +
    2 * weigh id s.grants + weigh id s.back

omit [DecidableEq κ] in
theorem rank_announce (m : Message κ α) (light : m.load = 1) :
    (s.announce m).rank = s.rank + 1 := by
  simp only [rank, announce, weigh_append, weigh_cons, weigh_nil, light]
  omega

theorem Balanced.rank_lt (b : s.Balanced limit capacity due) (h : Work limit due s s') :
    s'.rank < s.rank := by
  cases h with
  | take k data n waiting some credit within =>
    have unpaid := tally_update Writer.unpaid s.writer k (.holding (data.take n) (data.drop n))
    have held := tally_update Writer.held s.writer k (.holding (data.take n) (data.drop n))
    rw [waiting] at unpaid held
    simp only [Writer.unpaid, Writer.held, List.length_drop, List.length_take_of_le within]
      at unpaid held
    simp only [rank]
    omega
  | send k piece data holding =>
    have unpaid := tally_update Writer.unpaid s.writer k (.next data)
    have held := tally_update Writer.held s.writer k (.next data)
    have fits := b.writers k
    rw [holding, Writer.unpaid_next] at unpaid
    rw [holding, Writer.held_next] at held
    rw [holding] at fits
    have some := List.length_pos_of_ne_nil fits.1
    simp only [Writer.unpaid, Writer.held] at unpaid held
    simp only [rank, weigh_append, weigh_cons, weigh_nil, Message.load]
    omega
  | arrive k piece rest first =>
    have moved := tally_update List.length s.buffer k (s.buffer k ++ piece)
    have some := List.length_pos_of_ne_nil
      (b.pieces k piece (by rw [first]; exact List.mem_cons_self)).1
    rw [List.length_append] at moved
    simp only [rank, first, weigh_cons, Message.load]
    omega
  | arriveEof rest first =>
    simp only [rank, first, weigh_cons, Message.load]
    omega
  | read k data rest buffered some =>
    have moved := tally_update List.length s.buffer k rest
    have some := List.length_pos_of_ne_nil some
    rw [buffered, List.length_append] at moved
    simp only [rank, weigh_append, weigh_cons, weigh_nil, id_eq]
    omega
  | count before after n counts =>
    have positive := b.counts n (by rw [counts]; simp)
    unfold Flow.count
    dsimp only
    rw [if_neg (show ¬ s.owed + n = 0 by omega)]
    split
    · simp only [rank, counts, weigh_append, weigh_cons, weigh_nil, id_eq]
      omega
    · simp only [rank, counts, weigh_append, weigh_cons, id_eq]
      omega
  | grant before after n grants =>
    have positive := b.grants n (by rw [grants]; simp)
    simp only [rank, grants, weigh_append, weigh_cons, weigh_nil, id_eq]
    omega
  | collect n rest first =>
    have positive := b.back n (by rw [first]; simp)
    simp only [rank, first, weigh_cons, id_eq]
    omega

end Progress

end Flow

end FakeSSH.Lib
