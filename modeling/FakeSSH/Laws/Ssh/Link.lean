import FakeSSH.Laws.Ssh.Flow
import FakeSSH.Lib.Transition

/-!
# Two ends of a channel

What holds of a channel between two ends of this package, whatever their applications call and
in whatever order the goroutines and the wire go on.

* Neither end ever fails the other (`link_never_fails`): no end sends more than the window, no
  grant overflows, and nothing arrives after the close.
* Each stream is read as it was written, in order and without a gap, and an end of stream is
  reported only when everything sent before it has been read (`streams_in_order`).
* As long as neither end closes the channel, no order of steps leaves a writer waiting: all
  that was written is read in the end (`everything_arrives`).
-/

namespace FakeSSH.Ssh

open FakeSSH.Go FakeSSH.Lib Relation

@[simp] theorem Side.other_other (s : Side) : s.other.other = s := by cases s <;> rfl

theorem Side.other_ne (s : Side) : s.other ≠ s := by cases s <;> decide

theorem Side.forall_of (s : Side) {P : Side → Prop} (here : P s) (there : P s.other) (t : Side) :
    P t := by
  cases s <;> cases t <;> assumption

/-! ## What the packets on the way are -/

/-- The close is the last packet that an end sends, and when it has been handled nothing is on
the way to the end that handled it. -/
structure Closing (sender receiver : Endpoint) (wire : List Packet) : Prop where
  notYet : sender.chan.sentClose = false → Packet.close ∉ wire ∧ receiver.removed = false
  last : Packet.close ∉ wire.dropLast
  removed : receiver.removed = true → wire = []

theorem Closing.sends {e e' o : Endpoint} {wire out : List Packet} (c : Closing e o wire)
    (sends : Sends e e' out) (mono : e.chan.sentClose = true → e'.chan.sentClose = true) :
    Closing e' o (wire ++ out) := by
  have before : e'.chan.sentClose = false → e.chan.sentClose = false := by
    intro notYet
    cases h : e.chan.sentClose with
    | false => rfl
    | true => exact absurd (mono h) (by rw [notYet]; decide)
  rcases sends with rfl | ⟨p, rfl, here, close, -⟩
  · rw [List.append_nil]
    exact ⟨fun notYet => c.notYet (before notYet), c.last, c.removed⟩
  · obtain ⟨none, still⟩ := c.notYet here
    refine ⟨fun notYet => ⟨fun found => ?_, still⟩, ?_, fun gone => ?_⟩
    · rcases List.mem_append.mp found with old | new
      · exact none old
      · have := close (List.mem_singleton.mp new).symm
        rw [notYet] at this
        cases this
    · rw [List.dropLast_concat]
      exact none
    · rw [still] at gone
      cases gone

theorem Closing.receives {e e' o : Endpoint} {p : Packet} {rest : List Packet}
    (c : Closing o e (p :: rest)) (removed : p = .close ∨ e'.removed = e.removed) :
    Closing o e' rest := by
  have kept : e.removed = false := by
    cases h : e.removed with
    | false => rfl
    | true => exact absurd (c.removed h) (List.cons_ne_nil p rest)
  refine ⟨fun notYet => ?_, fun found => ?_, fun gone => ?_⟩
  · obtain ⟨none, -⟩ := c.notYet notYet
    rw [List.mem_cons, not_or] at none
    refine ⟨none.2, ?_⟩
    rcases removed with rfl | same
    · exact absurd rfl none.1
    · rw [same, kept]
  · apply c.last
    cases rest with
    | nil => cases found
    | cons q rest => exact List.mem_cons_of_mem p found
  · rcases removed with rfl | same
    · cases rest with
      | nil => rfl
      | cons q rest => exact absurd List.mem_cons_self c.last
    · rw [same, kept] at gone
      cases gone

/-! ## Links -/

/-- The flow from one side to the other. -/
def Link.flow (l : Link) (s : Side) : Flow Stream UInt8 :=
  flowOf (l.ends s) (l.ends s.other) (l.wire s.other) (l.wire s)

/-- What is left to do besides the flows. -/
def Link.budget (l : Link) : Nat :=
  (l.ends .opener).budget + (l.ends .accepter).budget + weigh Packet.budget (l.wire .opener) +
    weigh Packet.budget (l.wire .accepter)

theorem Link.budget_eq (l : Link) (s : Side) :
    l.budget = (l.ends s).budget + (l.ends s.other).budget + weigh Packet.budget (l.wire s) +
      weigh Packet.budget (l.wire s.other) := by
  cases s with
  | opener => rfl
  | accepter =>
    simp only [Link.budget, Side.other]
    omega

/-- What holds of every link. -/
structure Link.Sound (l : Link) : Prop where
  ends : ∀ s, (l.ends s).Sound
  flows : ∀ s, FlowSound (l.flow s)
  short : ∀ s, ∀ p ∈ l.wire s, p.Short
  closing : ∀ s, Closing (l.ends s) (l.ends s.other) (l.wire s.other)

variable {l l' : Link} {why : Cause}

/-- A step of one side: the flow from it, the flow to it, and what else there is. -/
structure LinkEffect (why : Cause) (l l' : Link) (s : Side) : Prop where
  effect : Effect why l.budget l'.budget (l.flow s) (l.flow s.other) (l'.flow s) (l'.flow s.other)
  here : (l'.ends s).Sound
  there : l'.ends s.other = l.ends s.other
  short : ∀ t, ∀ p ∈ l'.wire t, p.Short
  leaving : Closing (l'.ends s) (l'.ends s.other) (l'.wire s.other)
  left : Closing (l'.ends s.other) (l'.ends s) (l'.wire s)

theorem Effect.shift {before after : Nat} {f g f' g' : Flow Stream UInt8}
    (h : Effect why before after f g f' g') (n : Nat) :
    Effect why (before + n) (after + n) f g f' g' := by
  cases h with
  | sends work same budget => exact .sends work same (by omega)
  | receives same work budget => exact .receives same work (by omega)
  | finishes here announced same budget => exact .finishes here announced same (by omega)
  | aside sameF sameG less => exact .aside sameF sameG fun work => by have := less work; omega
  | calls call step moved => exact .calls call step moved
  | leaves cause movedF movedG => exact .leaves cause movedF movedG

theorem short_append {wire out : List Packet} {e e' : Endpoint} (short : ∀ p ∈ wire, p.Short)
    (sends : Sends e e' out) : ∀ p ∈ wire ++ out, p.Short := by
  intro p hp
  rcases List.mem_append.mp hp with old | new
  · exact short p old
  · rcases sends with rfl | ⟨q, rfl, -, -, fits⟩
    · cases new
    · rwa [List.mem_singleton.mp new]

/-- From what a step does to an end with its peer, what it does to the link. -/
theorem LinkEffect.of_end {s : Side} {out handled toS : List Packet} (sound : l.Sound)
    (there : l'.ends s.other = l.ends s.other) (wire : l.wire s = handled ++ toS)
    (wireHere : l'.wire s = toS) (wireThere : l'.wire s.other = l.wire s.other ++ out)
    (effect : Effect why ((l.ends s).budget + weigh Packet.budget handled)
      ((l'.ends s).budget + weigh Packet.budget out)
      (flowOf (l.ends s) (l.ends s.other) (l.wire s.other) (l.wire s))
      (flowOf (l.ends s.other) (l.ends s) (l.wire s) (l.wire s.other))
      (flowOf (l'.ends s) (l.ends s.other) (l.wire s.other ++ out) toS)
      (flowOf (l.ends s.other) (l'.ends s) toS (l.wire s.other ++ out)))
    (here : (l'.ends s).Sound) (sends : Sends (l.ends s) (l'.ends s) out)
    (left : Closing (l.ends s.other) (l'.ends s) toS) : LinkEffect why l l' s where
  effect := by
    have shifted := effect.shift ((l.ends s.other).budget + weigh Packet.budget toS +
      weigh Packet.budget (l.wire s.other))
    rw [Link.flow, Link.flow, Link.flow, Link.flow, Side.other_other, there, wireHere, wireThere,
      l.budget_eq s, l'.budget_eq s, there, wireHere, wireThere]
    have before : (l.ends s).budget + (l.ends s.other).budget + weigh Packet.budget (l.wire s) +
        weigh Packet.budget (l.wire s.other) =
        (l.ends s).budget + weigh Packet.budget handled + ((l.ends s.other).budget +
          weigh Packet.budget toS + weigh Packet.budget (l.wire s.other)) := by
      rw [wire, weigh_append]
      omega
    have after : (l'.ends s).budget + (l.ends s.other).budget + weigh Packet.budget toS +
        weigh Packet.budget (l.wire s.other ++ out) =
        (l'.ends s).budget + weigh Packet.budget out + ((l.ends s.other).budget +
          weigh Packet.budget toS + weigh Packet.budget (l.wire s.other)) := by
      rw [weigh_append]
      omega
    rw [before, after]
    exact shifted
  here := here
  there := there
  short := by
    refine Side.forall_of s ?_ ?_
    · rw [wireHere]
      intro p hp
      exact sound.short s p (by rw [wire]; exact List.mem_append_right _ hp)
    · rw [wireThere]
      exact short_append (sound.short s.other) sends
  leaving := by
    rw [there, wireThere]
    exact (sound.closing s).sends sends effect.left_mono
  left := by
    rw [there, wireHere]
    exact left

/-- One side takes a step, with the first packet on the way to it or without. -/
theorem LinkStep.inversion (h : LinkStep l why l') : ∃ s out,
    l'.ends s.other = l.ends s.other ∧ l'.wire s.other = l.wire s.other ++ out ∧
      ((l'.wire s = l.wire s ∧ EndStep (l.ends s) why none (l'.ends s) out) ∨
        ∃ p, l.wire s = p :: l'.wire s ∧
          EndStep (l.ends s) why (some (p.encode (l.ends s).chan.localId)) (l'.ends s) out) := by
  cases h with
  | act s why e out step =>
    refine ⟨s, out, Function.update_of_ne s.other_ne _ _, Function.update_self _ _ _, .inl ⟨?_, ?_⟩⟩
    · exact Function.update_of_ne s.other_ne.symm _ _
    · dsimp only
      rwa [Function.update_self]
  | deliver s why p rest e out first step =>
    have wire : Function.update (Function.update l.wire s rest) s.other (l.wire s.other ++ out) s =
        rest := by
      rw [Function.update_of_ne s.other_ne.symm, Function.update_self]
    refine ⟨s, out, Function.update_of_ne s.other_ne _ _, Function.update_self _ _ _,
      .inr ⟨p, ?_, ?_⟩⟩
    · dsimp only
      rw [wire, first]
    · dsimp only
      rwa [Function.update_self]

theorem LinkStep.effect (sound : l.Sound) (h : LinkStep l why l') : ∃ s, LinkEffect why l l' s := by
  obtain ⟨s, out, there, wireThere, step⟩ := h.inversion
  have incoming := (sound.flows s.other).balanced
  have closing := sound.closing s.other
  rw [Link.flow, Side.other_other] at incoming
  rw [Side.other_other] at closing
  refine ⟨s, ?_⟩
  rcases step with ⟨wireHere, step⟩ | ⟨p, first, step⟩
  · refine .of_end sound there (List.nil_append _).symm wireHere wireThere
      (step.act_effect (sound.ends s) (sound.flows s).balanced incoming)
      (step.act_sound (sound.ends s)) step.act_sends ?_
    exact ⟨fun notYet => step.act_removed ▸ closing.notYet notYet, closing.last,
      step.act_removed ▸ closing.removed⟩
  · have outgoing := (sound.flows s).balanced
    have fits := sound.short s p (by rw [first]; exact List.mem_cons_self)
    rw [Link.flow, first] at outgoing
    rw [first] at incoming closing
    obtain ⟨here, effect, sends, removed⟩ :=
      step.handle_effect _ (sound.ends s) outgoing incoming fits
    refine .of_end sound there (show l.wire s = [p] ++ l'.wire s from first) rfl wireThere ?_ here
      sends (closing.receives removed)
    rw [first]
    exact effect

theorem Link.Sound.step (sound : l.Sound) (h : LinkStep l why l') : l'.Sound := by
  obtain ⟨s, effect⟩ := h.effect sound
  obtain ⟨outgoing, incoming⟩ := effect.effect.moves
  refine ⟨Side.forall_of s effect.here (effect.there ▸ sound.ends s.other),
    Side.forall_of s ((sound.flows s).moved outgoing) ((sound.flows s.other).moved incoming),
    effect.short, Side.forall_of s effect.leaving ?_⟩
  rw [Side.other_other]
  exact effect.left

theorem openLink_sound (openerId accepterId : UInt32) : (openLink openerId accepterId).Sound where
  ends s := by
    cases s <;> exact ⟨rfl, rfl, rfl, rfl, (fun h => by cases h), (fun h => by cases h), rfl⟩
  flows s := by
    have fresh : (openLink openerId accepterId).flow s = .fresh channelWindowSize.toNat := by
      have nothing : ∀ inbound localId remoteId,
          (fun st => ((openChannel inbound localId remoteId).buffer st).data) = fun _ => [] := by
        intro inbound localId remoteId
        funext st
        cases st <;> rfl
      cases s <;> simp only [Link.flow, flowOf, openLink, Side.other, Endpoint.fresh, nothing] <;>
        rfl
    rw [fresh]
    exact ⟨Flow.balanced_fresh, Flow.carries_fresh, Flow.ends_fresh⟩
  short _ _ hp := absurd hp List.not_mem_nil
  closing s := by
    cases s <;> exact ⟨fun _ => ⟨List.not_mem_nil, rfl⟩, List.not_mem_nil, fun h => by cases h⟩

theorem add_channelWindowSize :
    Window.add { win := 0, closed := false } channelWindowSize =
      some { win := channelWindowSize, closed := false } := by
  decide

/-- The end that `Accept` leaves, of a channel that this package has asked for. -/
theorem inboundChannel_accepted (localId remoteId : UInt32) :
    { inboundChannel localId remoteId channelWindowSize channelMaxPacket with decided := true } =
      openChannel true localId remoteId := by
  simp only [inboundChannel, newChannel, openChannel, add_channelWindowSize, Option.getD_some]

/-- The end that `OpenChannel` leaves: the confirmation that `Accept` sends is handled, and its
message taken from the queue. -/
theorem newChannel_confirmed (localId remoteId : UInt32) :
    (newChannel localId false).handlePacket (channelOpenConfirmMsg.marshal
      (localId, remoteId, channelWindowSize, channelMaxPacket, [], ())) =
      .goesOn { openChannel false localId remoteId with msg := [.openConfirm] } 0 := by
  have short : (channelOpenConfirmMsg.marshal
    (localId, remoteId, channelWindowSize, channelMaxPacket, [], ())).length = 17 := rfl
  rw [Channel.handlePacket_marshal (L := channelOpenConfirmMsg) (t := 91) (by decide)
    (localId, remoteId, channelWindowSize, channelMaxPacket, [], ())
    ⟨trivial, trivial, trivial, trivial, trivial, trivial⟩ (by rw [short]; decide) (by decide)]
  change (if channelMaxPacket < minPacketLength ∨ 0x80000000 < channelMaxPacket then
      Outcome.fails (.invalidMaxPacketSize channelMaxPacket)
    else .goesOn { newChannel localId false with
      decided := true
      remoteId := remoteId
      maxRemotePayload := channelMaxPacket
      remoteWin := (Window.add { win := 0, closed := false } channelWindowSize).getD
        { win := 0, closed := false }
      msg := [.openConfirm] } 0) = _
  rw [if_neg (by decide), add_channelWindowSize]
  rfl

theorem Link.Sound.run {openerId accepterId : UInt32}
    (run : ReflTransGen (fun l l' => ∃ why, LinkStep l why l') (openLink openerId accepterId) l) :
    l.Sound :=
  invariant_of_steps (fun _ _ sound ⟨_, step⟩ => sound.step step) (openLink_sound _ _) run

/-- Whatever the applications at both ends do, and in whatever order the steps are taken, no end
fails on what the other has sent. The close is the last thing that arrives: a channel that was
taken off the list gets no more packets. -/
theorem link_never_fails (openerId accepterId : UInt32)
    (run : ReflTransGen (fun l l' => ∃ why, LinkStep l why l') (openLink openerId accepterId) l)
    (s : Side) : (l.ends s).failed = none ∧ ((l.ends s).removed = true → l.wire s = []) := by
  have sound := Link.Sound.run run
  refine ⟨(sound.ends s).failed, fun gone => ?_⟩
  have closing := sound.closing s.other
  rw [Side.other_other] at closing
  exact closing.removed gone

/-- After the opener has closed the channel and the accepter has answered. -/
theorem link_never_fails_closed : ∃ l : Link, (l.ends .accepter).removed = true ∧
    (l.ends .accepter).failed = none ∧ ((l.ends .accepter).removed = true → l.wire .accepter = []) :=
  ⟨_, rfl, link_never_fails 0 1 (.tail (.single
    ⟨.call, .act .opener .call _ _ (.close rfl rfl)⟩)
    ⟨.work, .deliver .accepter .work .close [] _ _ rfl (.handleClose _ _ rfl rfl rfl rfl)⟩)
    .accepter⟩

/-- What is read of a stream is a beginning of what was sent, and that is a beginning of what was
written. When a read reports the end of the stream, all that had been sent when the end was
first announced has been read. -/
theorem streams_in_order (openerId accepterId : UInt32)
    (run : ReflTransGen (fun l l' => ∃ why, LinkStep l why l') (openLink openerId accepterId) l)
    (s : Side) (st : Stream) :
    (l.ends s.other).got st <+: (l.ends s).sent st ∧
      (l.ends s).sent st <+: (l.ends s).written st ∧
      ∀ n, ((l.ends s.other).chan.buffer st).read n = .eof →
        ∃ sent, (l.ends s).sentBeforeEnd = some sent ∧ sent st <+: (l.ends s.other).got st := by
  have sound := Link.Sound.run run
  have flow := sound.flows s
  refine ⟨?_, flow.carries.beginning st, fun n reported => ?_⟩
  · have inOrder := flow.carries.inOrder st
    rw [Flow.arrived, List.append_assoc] at inOrder
    exact ⟨_, inOrder⟩
  · obtain ⟨nothing, closed⟩ := Buffer.read_eof reported
    have ended : (l.flow s).ended = true := by
      cases st with
      | data => exact closed
      | stderr => exact (sound.ends s.other).buffers.symm.trans closed
    cases mark : (l.flow s).mark with
    | none => exact Bool.noConfusion ((flow.streams.unannounced mark).2.symm.trans ended)
    | some sent =>
      refine ⟨sent, mark, ?_⟩
      have all := flow.streams.passed sent mark ended st
      rw [Flow.arrived, show (l.flow s).buffer st = [] from nothing, List.append_nil] at all
      exact all

/-- After two bytes and the end of the stream: the end is reported once they are read. -/
theorem streams_in_order_hi : ∃ l : Link,
    ((l.ends .accepter).chan.buffer .data).read 1 = .eof ∧
      (l.ends .accepter).got .data <+: (l.ends .opener).sent .data ∧
      (l.ends .opener).sent .data <+: (l.ends .opener).written .data ∧
      ∀ n, ((l.ends .accepter).chan.buffer .data).read n = .eof →
        ∃ sent, (l.ends .opener).sentBeforeEnd = some sent ∧
          sent .data <+: (l.ends .accepter).got .data := by
  refine ⟨_, ?_, streams_in_order 0 1 (ReflTransGen.refl.tail
    ⟨.call, .act .opener .call _ _ (.write .data (str "hi") rfl rfl rfl (by decide))⟩ |>.tail
    ⟨.work, .act .opener .work _ _ (.reserve .data (str "hi") _ rfl rfl rfl)⟩ |>.tail
    ⟨.work, .act .opener .work _ _ (.send .data (str "hi") [] rfl rfl)⟩ |>.tail
    ⟨.call, .act .opener .call _ _ (.closeWrite rfl)⟩ |>.tail
    ⟨.work, .act .opener .work _ _ (.sendEOF rfl rfl)⟩ |>.tail
    ⟨.work, .deliver .accepter .work (.data .data (str "hi")) [.eof] _ _ rfl
      (.handle _ _ _ rfl rfl rfl)⟩ |>.tail
    ⟨.work, .deliver .accepter .work .eof [] _ _ rfl (.handle _ _ _ rfl rfl rfl)⟩ |>.tail
    ⟨.work, .act .accepter .work _ _ (.read .data 2 (str "hi") _ rfl rfl (by decide))⟩)
    .opener .data⟩
  rfl

/-! ## Everything arrives -/

/-- Neither side has closed the channel. -/
def Link.Calm (l : Link) : Prop := ∀ s, (l.ends s).chan.sentClose = false

/-- Everything that was written to either side has been read. -/
def Link.Settled (l : Link) : Prop := ∀ s, (l.flow s).Settled

def Link.rank (l : Link) : Nat := (l.flow .opener).rank + (l.flow .accepter).rank + l.budget

theorem Link.rank_eq (l : Link) (s : Side) :
    l.rank = (l.flow s).rank + (l.flow s.other).rank + l.budget := by
  cases s with
  | opener => rfl
  | accepter =>
    simp only [Link.rank, Side.other]
    omega

theorem Link.Sound.no_close (sound : l.Sound) (calm : l.Calm) (s : Side) :
    Flow.Message.close ∉ (l.flow s).forth := by
  intro found
  obtain ⟨p, hp, message⟩ := List.mem_filterMap.mp found
  cases p with
  | close => exact ((sound.closing s).notYet (calm s)).1 hp
  | data | eof | windowAdjust | request | success | failure => cases message

/-- Work on a calm link: nobody leaves, nothing is written, and the end comes nearer. -/
theorem Link.Sound.work (sound : l.Sound) (calm : l.Calm) (h : LinkStep l .work l') :
    l'.Calm ∧ (∀ s, (l'.ends s).written = (l.ends s).written) ∧ l'.rank < l.rank := by
  obtain ⟨s, effect⟩ := h.effect sound
  have other : (l'.ends s.other).chan.sentClose = false := effect.there ▸ calm s.other
  have otherWritten : (l'.ends s.other).written = (l.ends s.other).written := by
    rw [effect.there]
  rw [l'.rank_eq s, l.rank_eq s]
  cases effect.effect with
  | sends work same budget =>
    have falls := (sound.flows s).balanced.rank_lt work
    refine ⟨Side.forall_of s (work.left_eq.trans (calm s)) other,
      Side.forall_of s work.written_eq otherWritten, ?_⟩
    rw [same]
    omega
  | receives same work budget =>
    have falls := (sound.flows s.other).balanced.rank_lt work
    refine ⟨Side.forall_of s ((congrArg Flow.left same).trans (calm s)) other,
      Side.forall_of s (congrArg Flow.written same) otherWritten, ?_⟩
    rw [same]
    omega
  | finishes here announced same budget =>
    refine ⟨Side.forall_of s ((congrArg Flow.left announced).trans here) other,
      Side.forall_of s (congrArg Flow.written announced) otherWritten, ?_⟩
    rw [same, announced, Flow.rank_announce _ rfl]
    omega
  | aside sameF sameG less =>
    refine ⟨Side.forall_of s ((congrArg Flow.left sameF).trans (calm s)) other,
      Side.forall_of s (congrArg Flow.written sameF) otherWritten, ?_⟩
    have := less rfl
    rw [sameF, sameG]
    omega
  | calls call => cases call
  | leaves cause =>
    rcases cause with gone | close
    · exact absurd ((calm s).symm.trans gone) (by decide)
    · exact absurd close (sound.no_close calm s.other)

/-- Where a packet is on the way there is work: it can be handled, or a queue is full. -/
theorem Link.Sound.deliver (sound : l.Sound) (calm : l.Calm) {s : Side} (busy : l.wire s ≠ []) :
    ∃ l', LinkStep l .work l' := by
  obtain ⟨p, rest, first⟩ := List.exists_cons_of_ne_nil busy
  have here : (l.ends s).removed = false := by
    cases h : (l.ends s).removed with
    | false => rfl
    | true => exact absurd ((calm s).symm.trans ((sound.ends s).removed h)) (by decide)
  have good := (sound.ends s).failed
  cases handled : (l.ends s).chan.handlePacket (p.encode (l.ends s).chan.localId) with
  | blocks =>
    rcases Channel.handlePacket_blocks handled with full | full
    · obtain ⟨r, later, queue⟩ :=
        List.exists_cons_of_ne_nil (List.ne_nil_of_length_pos (Nat.lt_of_lt_of_le (by decide) full))
      exact ⟨_, .act s .work _ _ (.takeRequest r later queue)⟩
    · obtain ⟨m, later, queue⟩ :=
        List.exists_cons_of_ne_nil (List.ne_nil_of_length_pos (Nat.lt_of_lt_of_le (by decide) full))
      exact ⟨_, .act s .work _ _ (.takeMsg m later queue)⟩
  | fails err => exact ⟨_, .deliver s .work p rest _ _ first (.handleFail _ err here good handled)⟩
  | goesOn c credit =>
    exact ⟨_, .deliver s .work p rest _ _ first (.handle _ c credit here good handled)⟩
  | removes c => exact ⟨_, .deliver s .work p rest _ _ first (.handleRemove _ c here good handled)⟩
  | closes c =>
    exact ⟨_, .deliver s .work p rest _ _ first (.handleClose _ c here good handled (calm s))⟩

/-- A writer that has credit takes it. -/
theorem Link.Sound.reserve (sound : l.Sound) (calm : l.Calm) {s : Side} {st : Stream}
    {data : Bytes} (reserving : (l.ends s).writer st = .reserving data)
    (credit : 0 < (l.ends s).chan.remoteWin.win.toNat) : ∃ l', LinkStep l .work l' := by
  cases reserved : (l.ends s).chan.remoteWin.reserve
      (minPayloadSize (l.ends s).chan.maxRemotePayload data.length) with
  | none =>
    obtain ⟨used, -⟩ := Window.reserve_eq_none reserved
    omega
  | some r =>
    have stillOpen : r.eof = false := by
      obtain ⟨-, -, same, -⟩ := Window.reserve_eq_some reserved
      cases h : r.eof with
      | false => rfl
      | true =>
        have gone := (sound.ends s).closed (same ▸ h)
        exact absurd ((calm s).symm.trans gone) (by decide)
    exact ⟨_, .act s .work _ _ (.reserve st data r reserving reserved stillOpen)⟩

/-- Until everything is read there is work. -/
theorem Link.Sound.exists_work (sound : l.Sound) (calm : l.Calm) (unsettled : ¬ l.Settled) :
    ∃ l', LinkStep l .work l' := by
  obtain ⟨s, unsettled⟩ := not_forall.mp unsettled
  have pending := (sound.flows s).balanced.exists_pending (calm s) (calm s.other) (by decide)
    grantDue_generous unsettled
  cases pending with
  | forth busy =>
    apply sound.deliver calm (s := s.other)
    rintro idle
    apply busy
    change (l.wire s.other).filterMap _ = _
    rw [idle]
    rfl
  | back busy =>
    apply sound.deliver calm (s := s)
    rintro idle
    apply busy
    change (l.wire s).filterMap _ = _
    rw [idle]
    rfl
  | buffer st some =>
    obtain ⟨b, read⟩ := Buffer.read_of_data some one_ne_zero
    refine ⟨_, .act s.other .work _ _ (.read st 1 _ b (sound.ends s.other).decided read ?_)⟩
    exact fun nothing => (List.take_eq_nil_iff.mp nothing).elim one_ne_zero some
  | counts some =>
    obtain ⟨adj, rest, credits⟩ := List.exists_cons_of_ne_nil (fun nothing => some (by
      change List.map _ (l.ends s.other).credits = []
      rw [nothing]
      rfl) : (l.ends s.other).credits ≠ [])
    exact ⟨_, .act s.other .work _ _ (.credit [] rest adj credits)⟩
  | grants some =>
    obtain ⟨adj, rest, adjusts⟩ := List.exists_cons_of_ne_nil (fun nothing => some (by
      change List.map _ (l.ends s.other).adjusts = []
      rw [nothing]
      rfl) : (l.ends s.other).adjusts ≠ [])
    exact ⟨_, .act s.other .work _ _ (.adjust [] rest adj adjusts (calm s.other))⟩
  | holding st todo data holding =>
    have sending := Writer.of_flow_holding holding
    exact ⟨_, .act s .work _ _ (.send st todo data sending (calm s))⟩
  | waiting st data waiting credit =>
    exact sound.reserve calm (Writer.of_flow_waiting waiting) credit

/-- From any moment on, as long as neither application calls for anything new and neither has
closed the channel: whatever order the goroutines, the mux loops and the wire go on in, and
however much the readers take at a time, all that was written on either side is read on the
other. In particular no writer waits for ever. -/
theorem everything_arrives (openerId accepterId : UInt32)
    (run : ReflTransGen (fun l l' => ∃ why, LinkStep l why l') (openLink openerId accepterId) l)
    (calm : ∀ s, (l.ends s).chan.sentClose = false) :
    Inevitable (fun l l' => LinkStep l .work l')
      (fun l' => ∀ s st, (l'.ends s.other).got st = (l.ends s).written st ∧
        (l'.ends s).writer st = .idle) l := by
  apply inevitable_of_rank
    (fun m => m.Sound ∧ m.Calm ∧ ∀ s, (m.ends s).written = (l.ends s).written) Link.rank
  · rintro m ⟨sound, quiet, written⟩ notYet
    apply sound.exists_work quiet
    intro settled
    apply notYet
    intro s st
    have all := (sound.flows s).carries.settled (settled s) (quiet s) st
    change (m.ends s.other).got st = (m.ends s).written st at all
    exact ⟨by rw [all, written], Writer.of_flow_idle ((settled s).writers st)⟩
  · rintro m m' ⟨sound, quiet, written⟩ step
    obtain ⟨quiet', same, falls⟩ := sound.work quiet step
    exact ⟨⟨sound.step step, quiet', fun s => (same s).trans (written s)⟩, falls⟩
  · exact ⟨Link.Sound.run run, calm, fun _ => rfl⟩

/-- After the opener has been given two bytes to write. -/
theorem everything_arrives_hi : ∃ l : Link, (l.ends .opener).written .data = str "hi" ∧
    Inevitable (fun l l' => LinkStep l .work l')
      (fun l' => ∀ s st, (l'.ends s.other).got st = (l.ends s).written st ∧
        (l'.ends s).writer st = .idle) l :=
  ⟨_, rfl, everything_arrives 0 1 (.single
    ⟨.call, .act .opener .call _ _ (.write .data (str "hi") rfl rfl rfl (by decide))⟩)
    (fun s => by cases s <;> rfl)⟩

end FakeSSH.Ssh
