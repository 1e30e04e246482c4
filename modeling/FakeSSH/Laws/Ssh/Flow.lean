import FakeSSH.Laws.Ssh.Channel
import FakeSSH.Lib.CreditFlow

/-!
# The flows of a channel

Each direction of a channel is a credit flow: `flowOf` reads it off the two ends and the packets
on the way. Every step of an end is a step of one of the two flows that it takes part in, or of
both, or of neither (`Effect`): `act_effect` for the goroutines around the channel and
`handle_effect` for the mux loop. That the loop does not fail rests on the accounts of the
flows: what arrives fits the window, and a grant fits the other's count.
-/

namespace FakeSSH.Ssh

open FakeSSH.Go FakeSSH.Lib

/-! ## Each direction is a credit flow -/

instance : Fintype Stream := ⟨{.data, .stderr}, fun st => by cases st <;> decide⟩

def Writer.flow : Writer → Flow.Writer UInt8
  | .idle => .idle
  | .reserving data => .waiting data
  | .sending todo data => .holding todo data

theorem Writer.of_flow_idle {w : Writer} (h : w.flow = .idle) : w = .idle := by
  cases w <;> cases h
  rfl

theorem Writer.of_flow_waiting {w : Writer} {data : Bytes} (h : w.flow = .waiting data) :
    w = .reserving data := by
  cases w <;> cases h
  rfl

theorem Writer.of_flow_holding {w : Writer} {todo data : Bytes} (h : w.flow = .holding todo data) :
    w = .sending todo data := by
  cases w <;> cases h
  rfl

def Packet.message : Packet → Option (Flow.Message Stream UInt8)
  | .data st todo => some (.data st todo)
  | .eof => some .eof
  | .close => some .close
  | _ => none

def Packet.grant : Packet → Option Nat
  | .windowAdjust n => some n.toNat
  | _ => none

/-- When `adjustWindow` grants. -/
def grantDue (room : Nat) : Bool := decide (3 * 32768 < 2097152 - room ∨ room < 1048576)

theorem grantDue_generous (room : Nat) (h : grantDue room = false) : 0 < room := by
  rw [grantDue, decide_eq_false_iff_not] at h
  omega

/-- The data from one end to the other, with the packets on the way to either. -/
def flowOf (sender receiver : Endpoint) (forth back : List Packet) : Flow Stream UInt8 where
  credit := sender.chan.remoteWin.win.toNat
  writer := Writer.flow ∘ sender.writer
  left := sender.chan.sentClose
  written := sender.written
  sent := sender.sent
  mark := sender.sentBeforeEnd
  forth := forth.filterMap Packet.message
  back := back.filterMap Packet.grant
  room := receiver.chan.myWindow.toNat
  owed := receiver.chan.myConsumed.toNat
  buffer := fun st => (receiver.chan.buffer st).data
  ended := receiver.chan.pending.closed
  counts := receiver.credits.map UInt32.toNat
  grants := receiver.adjusts.map UInt32.toNat
  parted := receiver.chan.sentClose
  got := receiver.got

/-- What holds of an open end, next to the flows. -/
structure Endpoint.Sound (e : Endpoint) : Prop where
  decided : e.chan.decided = true
  incoming : e.chan.maxIncomingPayload = channelMaxPacket
  remote : e.chan.maxRemotePayload = channelMaxPacket
  failed : e.failed = none
  removed : e.removed = true → e.chan.sentClose = true
  closed : e.chan.remoteWin.closed = true → e.chan.sentClose = true
  buffers : e.chan.extPending.closed = e.chan.pending.closed

/-- What is left to do besides the flows. -/
def Endpoint.budget (e : Endpoint) : Nat :=
  (if e.eofDue then 2 else 0) + e.chan.incomingRequests.length + e.chan.msg.length

def Packet.budget : Packet → Nat
  | .request _ => 2
  | .success => 2
  | .failure => 2
  | _ => 0

abbrev FlowWork : Flow Stream UInt8 → Flow Stream UInt8 → Prop :=
  Flow.Work channelMaxPacket.toNat grantDue

abbrev FlowStep : Flow Stream UInt8 → Flow Stream UInt8 → Prop :=
  Flow.Step channelMaxPacket.toNat grantDue

abbrev FlowBalanced : Flow Stream UInt8 → Prop :=
  Flow.Balanced channelMaxPacket.toNat channelWindowSize.toNat grantDue

/-- What a step does to the flow `f` from the end that takes it and the flow `g` to it, and to
what is left besides. -/
inductive Effect (why : Cause) (before after : Nat) (f g f' g' : Flow Stream UInt8) : Prop
  | sends : FlowWork f f' → g' = g → after = before → Effect why before after f g f' g'
  | receives : f' = f → FlowWork g g' → after = before → Effect why before after f g f' g'
  | finishes : f.left = false → f' = f.announce .eof → g' = g → after + 2 = before →
      Effect why before after f g f' g'
  | aside : f' = f → g' = g → (why = .work → after < before) → Effect why before after f g f' g'
  | calls : why = .call → FlowStep f f' → g' = g ∨ FlowStep g g' →
      Effect why before after f g f' g'
  | leaves : f.left = true ∨ .close ∈ g.forth → f' = f ∨ FlowStep f f' → g' = g ∨ FlowStep g g' →
      Effect why before after f g f' g'

theorem Effect.left_mono {why : Cause} {before after : Nat} {f g f' g' : Flow Stream UInt8}
    (h : Effect why before after f g f' g') (gone : f.left = true) : f'.left = true := by
  cases h with
  | sends work => exact work.left_eq.trans gone
  | receives same | aside same => exact same ▸ gone
  | finishes here same => exact same ▸ gone
  | calls _ step => exact step.left_mono gone
  | leaves _ moved =>
    rcases moved with same | step
    · exact same ▸ gone
    · exact step.left_mono gone

/-- A flow takes a step or stays. -/
theorem Effect.moves {why : Cause} {before after : Nat} {f g f' g' : Flow Stream UInt8}
    (h : Effect why before after f g f' g') :
    (f' = f ∨ FlowStep f f') ∧ (g' = g ∨ FlowStep g g') := by
  cases h with
  | sends work same => exact ⟨.inr (.work _ work), .inl same⟩
  | receives same work => exact ⟨.inl same, .inr (.work _ work)⟩
  | finishes here announced same => exact ⟨.inr (announced ▸ .finish here), .inl same⟩
  | aside sameF sameG => exact ⟨.inl sameF, .inl sameG⟩
  | calls _ step moved => exact ⟨.inr step, moved⟩
  | leaves _ movedF movedG => exact ⟨movedF, movedG⟩

/-- What holds of the flows of a channel. -/
structure FlowSound (f : Flow Stream UInt8) : Prop where
  balanced : FlowBalanced f
  carries : f.Carries
  streams : f.Ends

theorem FlowSound.moved {f f' : Flow Stream UInt8} (sound : FlowSound f)
    (h : f' = f ∨ FlowStep f f') : FlowSound f' := by
  rcases h with rfl | step
  · exact sound
  · exact ⟨sound.balanced.step step, sound.carries.step step,
      sound.streams.step sound.carries step⟩

/-- A request is no longer than a packet may be. -/
def Packet.Short : Packet → Prop
  | .request r => ∀ id, ((Packet.request r).encode id).length ≤ maxPacket
  | _ => True

/-- What a step may send: nothing, or one packet before the close. -/
def Sends (e e' : Endpoint) (out : List Packet) : Prop :=
  out = [] ∨ ∃ p, out = [p] ∧ e.chan.sentClose = false ∧
    (p = .close → e'.chan.sentClose = true) ∧ p.Short

theorem flow_next (data : Bytes) :
    (if data = [] then Writer.idle else .reserving data).flow = Flow.Writer.next data := by
  cases data <;> rfl

theorem Channel.data_setBuffer (c : Channel) (b : Buffer) (st : Stream) :
    (fun j => ((c.setBuffer b st).buffer j).data) =
      Function.update (fun j => (c.buffer j).data) st b.data := by
  funext j
  rw [Channel.buffer_setBuffer]
  by_cases h : j = st
  · rw [if_pos h, h, Function.update_self]
  · rw [if_neg h, Function.update_of_ne h]

@[simp] theorem Channel.sentClose_setBuffer (c : Channel) (b : Buffer) (st : Stream) :
    (c.setBuffer b st).sentClose = c.sentClose := by
  cases st <;> rfl

/-- `adjustWindow` touches the window and what is owed. -/
theorem Channel.adjustWindow_fst (c : Channel) (adj : UInt32) :
    ∃ w m, (c.adjustWindow adj).1 = { c with myWindow := w, myConsumed := m } := by
  rw [Channel.adjustWindow]
  split
  · exact ⟨_, _, rfl⟩
  · exact ⟨_, _, rfl⟩

section Acts

variable {e o : Endpoint} {toO toE : List Packet}

theorem effect_reserve {st : Stream} {data : Bytes} {r : Reserved} (sound : e.Sound)
    (balanced : FlowBalanced (flowOf e o toO toE)) (reserving : e.writer st = .reserving data)
    (reserved : e.chan.remoteWin.reserve
      (minPayloadSize e.chan.maxRemotePayload data.length) = some r) (stillOpen : r.eof = false) :
    FlowWork (flowOf e o toO toE) (flowOf { e with
      chan := { e.chan with remoteWin := r.window }
      writer := Function.update e.writer st
        (.sending (data.take r.win.toNat) (data.drop r.win.toNat)) } o toO toE) := by
  have waiting : (flowOf e o toO toE).writer st = .waiting data := by
    change (e.writer st).flow = _
    rw [reserving]
    rfl
  have fits := balanced.writers st
  rw [waiting] at fits
  obtain ⟨sum, most, -, -, positive⟩ := Window.reserve_eq_some reserved
  have least := minPayloadSize_le e.chan.maxRemotePayload data.length
  have nonzero := positive stillOpen (minPayloadSize_ne_zero (by rw [sound.remote]; decide)
    (List.length_pos_of_ne_nil fits).ne')
  rw [sound.remote] at least most
  have credit : r.win.toNat ≤ (flowOf e o toO toE).credit := by
    change _ ≤ e.chan.remoteWin.win.toNat
    omega
  have rest : r.window.win.toNat = (flowOf e o toO toE).credit - r.win.toNat := by
    change _ = e.chan.remoteWin.win.toNat - _
    omega
  have step : FlowWork _ _ := .take st data r.win.toNat waiting nonzero credit (by omega) (by omega)
  rw [← rest] at step
  simp only [flowOf, Function.comp_update]
  exact step

theorem effect_send {st : Stream} {todo data : Bytes} (sending : e.writer st = .sending todo data)
    (here : e.chan.sentClose = false) :
    FlowWork (flowOf e o toO toE) (flowOf { e with
      writer := Function.update e.writer st (if data = [] then .idle else .reserving data)
      sent := Function.update e.sent st (e.sent st ++ todo) } o
      (toO ++ [.data st todo]) toE) := by
  have holding : (flowOf e o toO toE).writer st = .holding todo data := by
    change (e.writer st).flow = _
    rw [sending]
    rfl
  have step : FlowWork _ _ := .send st todo data holding here
  simp only [flowOf, Function.comp_update, flow_next, List.filterMap_append]
  exact step

theorem effect_giveUp {st : Stream} {w : Window} (gone : e.chan.sentClose = true)
    (less : w.win.toNat ≤ e.chan.remoteWin.win.toNat) :
    FlowStep (flowOf e o toO toE) (flowOf { e with
      chan := { e.chan with remoteWin := w }
      writer := Function.update e.writer st .idle } o toO toE) := by
  have step : FlowStep (flowOf e o toO toE) _ := .giveUp st w.win.toNat gone less
  simp only [flowOf, Function.comp_update]
  exact step

theorem effect_read {st : Stream} {n : Nat} {data : Bytes} {b : Buffer}
    (balanced : FlowBalanced (flowOf o e toE toO))
    (hread : (e.chan.buffer st).read n = .got data b) (some : data ≠ []) :
    FlowWork (flowOf o e toE toO) (flowOf o { e with
      chan := e.chan.setBuffer b st
      credits := e.credits ++ [UInt32.ofNat data.length]
      got := Function.update e.got st (e.got st ++ data) } toE toO) := by
  obtain ⟨taken, left, closed⟩ := Buffer.read_got hread
  have buffered : (flowOf o e toE toO).buffer st = data ++ b.data := by
    change (e.chan.buffer st).data = _
    rw [taken, left, List.take_append_drop]
  have length : (UInt32.ofNat data.length).toNat = data.length := by
    apply UInt32.toNat_ofNat_of_lt'
    have held := le_tally List.length (flowOf o e toE toO).buffer st
    have account := balanced.account
    rw [buffered, List.length_append] at held
    rw [toNat_channelWindowSize] at account
    simp only [UInt32.size]
    omega
  have ended : (e.chan.setBuffer b st).pending.closed = e.chan.pending.closed := by
    cases st with
    | data => exact closed
    | stderr => rfl
  have step : FlowWork _ _ := .read st data b.data buffered some
  simp only [flowOf, Channel.data_setBuffer, Channel.myWindow_setBuffer,
    Channel.myConsumed_setBuffer, Channel.sentClose_setBuffer, ended, List.map_append,
    List.map_cons, List.map_nil, length]
  exact step

theorem Channel.grantDue_iff {c : Channel} (payload : c.maxIncomingPayload = channelMaxPacket)
    (within : c.myWindow.toNat ≤ channelWindowSize.toNat) :
    (3 * c.maxIncomingPayload < channelWindowSize - c.myWindow ∨
      c.myWindow < channelWindowSize / 2) ↔ grantDue c.myWindow.toNat = true := by
  have half : (channelWindowSize / 2).toNat = 1048576 := by decide
  have thrice : (3 * channelMaxPacket).toNat = 3 * 32768 := by decide
  rw [payload, UInt32.lt_iff_toNat_lt, UInt32.lt_iff_toNat_lt,
    UInt32.toNat_sub_of_le _ _ (UInt32.le_iff_toNat_le.mpr within), half, thrice,
    toNat_channelWindowSize, grantDue, decide_eq_true_iff]

theorem flowOf_adjustWindow {adj : UInt32} (sound : e.Sound)
    (within : e.chan.myWindow.toNat + e.chan.myConsumed.toNat + adj.toNat ≤
      channelWindowSize.toNat) (positive : 0 < adj.toNat) (credits : List UInt32) :
    flowOf o { e with
      chan := (e.chan.adjustWindow adj).1
      credits := credits
      adjusts :=
        if (e.chan.adjustWindow adj).2 = 0 then e.adjusts
        else e.adjusts ++ [(e.chan.adjustWindow adj).2] } toE toO =
      Flow.count (flowOf o { e with credits := credits } toE toO) grantDue adj.toNat := by
  have due := Channel.grantDue_iff sound.incoming (by omega)
  rw [toNat_channelWindowSize] at within
  have sum : (e.chan.myConsumed + adj).toNat = e.chan.myConsumed.toNat + adj.toNat := by
    rw [UInt32.toNat_add]
    omega
  by_cases grant : grantDue e.chan.myWindow.toNat = true
  · have granted : e.chan.adjustWindow adj = ({ e.chan with
        myConsumed := 0, myWindow := e.chan.myWindow + (e.chan.myConsumed + adj) },
        e.chan.myConsumed + adj) := by
      rw [Channel.adjustWindow, if_pos (due.mpr grant)]
    have window : (e.chan.myWindow + (e.chan.myConsumed + adj)).toNat =
        e.chan.myWindow.toNat + (e.chan.myConsumed.toNat + adj.toNat) := by
      rw [UInt32.toNat_add, sum]
      omega
    have something : e.chan.myConsumed + adj ≠ 0 := by
      intro zero
      rw [zero, UInt32.toNat_zero] at sum
      omega
    have owed : (flowOf o { e with credits := credits } toE toO).owed + adj.toNat ≠ 0 := by
      omega
    rw [granted, if_neg something, Flow.count, if_neg owed, if_pos (show grantDue
      (flowOf o { e with credits := credits } toE toO).room = true from grant)]
    simp only [flowOf, window, UInt32.toNat_zero, List.map_append, List.map_cons, List.map_nil,
      sum]
    rfl
  · have kept : e.chan.adjustWindow adj =
        ({ e.chan with myConsumed := e.chan.myConsumed + adj }, 0) := by
      rw [Channel.adjustWindow, if_neg (mt due.mp grant)]
    rw [kept, if_pos rfl, Flow.count, if_neg (show ¬ grantDue
      (flowOf o { e with credits := credits } toE toO).room = true from grant)]
    simp only [flowOf, sum]
    rfl

theorem effect_credit {before after : List UInt32} {adj : UInt32} (sound : e.Sound)
    (balanced : FlowBalanced (flowOf o e toE toO)) (credits : e.credits = before ++ adj :: after) :
    FlowWork (flowOf o e toE toO) (flowOf o { e with
      chan := (e.chan.adjustWindow adj).1
      credits := before ++ after
      adjusts :=
        if (e.chan.adjustWindow adj).2 = 0 then e.adjusts
        else e.adjusts ++ [(e.chan.adjustWindow adj).2] } toE toO) := by
  have counts : (flowOf o e toE toO).counts =
      before.map UInt32.toNat ++ adj.toNat :: after.map UInt32.toNat := by
    change e.credits.map UInt32.toNat = _
    rw [credits, List.map_append, List.map_cons]
  have positive := balanced.counts adj.toNat (by rw [counts]; simp)
  have account := balanced.account
  rw [counts, weigh_append, weigh_cons, id_eq] at account
  have within : e.chan.myWindow.toNat + e.chan.myConsumed.toNat + adj.toNat ≤
      channelWindowSize.toNat := by
    change e.chan.myWindow.toNat + _ + _ + e.chan.myConsumed.toNat = _ at account
    omega
  rw [flowOf_adjustWindow sound within positive]
  have step : FlowWork _ _ := .count _ _ _ counts
  simp only [flowOf, List.map_append]
  exact step

end Acts

/-! ### Packets that a flow does not see -/

section Aside

variable {sender receiver : Endpoint} {forth back : List Packet} {p : Packet}

theorem flowOf_forth_concat (unseen : p.message = none) :
    flowOf sender receiver (forth ++ [p]) back = flowOf sender receiver forth back := by
  simp only [flowOf, List.filterMap_append, List.filterMap_cons, unseen, List.filterMap_nil,
    List.append_nil]

theorem flowOf_back_concat (unseen : p.grant = none) :
    flowOf sender receiver forth (back ++ [p]) = flowOf sender receiver forth back := by
  simp only [flowOf, List.filterMap_append, List.filterMap_cons, unseen, List.filterMap_nil,
    List.append_nil]

theorem flowOf_forth_cons (unseen : p.message = none) :
    flowOf sender receiver (p :: forth) back = flowOf sender receiver forth back := by
  simp only [flowOf, List.filterMap_cons, unseen]

theorem flowOf_back_cons (unseen : p.grant = none) :
    flowOf sender receiver forth (p :: back) = flowOf sender receiver forth back := by
  simp only [flowOf, List.filterMap_cons, unseen]

end Aside

section Effects

variable {e e' o : Endpoint} {why : Cause} {toO toE out : List Packet}

theorem EndStep.act_effect (sound : e.Sound) (bf : FlowBalanced (flowOf e o toO toE))
    (bg : FlowBalanced (flowOf o e toE toO)) (h : EndStep e why none e' out) :
    Effect why e.budget (e'.budget + weigh Packet.budget out) (flowOf e o toO toE)
      (flowOf o e toE toO) (flowOf e' o (toO ++ out) toE) (flowOf o e' toE (toO ++ out)) := by
  cases h with
  | write st data idle decided sentEOF some =>
    rw [List.append_nil]
    refine .calls rfl ?_ (.inl rfl)
    have nothing : (flowOf e o toO toE).writer st = .idle := by
      change (e.writer st).flow = _
      rw [idle]
      rfl
    have step : FlowStep _ _ := .write st data nothing some
    simp only [flowOf, Function.comp_update]
    exact step
  | reserve st data r reserving reserved stillOpen =>
    rw [List.append_nil]
    exact .sends (effect_reserve sound bf reserving reserved stillOpen) rfl rfl
  | reserveClosed st data r reserving reserved closed =>
    rw [List.append_nil]
    obtain ⟨sum, -, same, -⟩ := Window.reserve_eq_some reserved
    have gone := sound.closed (same ▸ closed)
    exact .leaves (.inl gone) (.inr (effect_giveUp gone (by omega))) (.inl rfl)
  | send st todo data sending here =>
    rw [flowOf_back_concat rfl]
    exact .sends (effect_send sending here) rfl rfl
  | sendLate st todo data sending gone =>
    rw [List.append_nil]
    exact .leaves (.inl gone) (.inr (effect_giveUp gone (Nat.le_refl _))) (.inl rfl)
  | read st n data b decided hread some =>
    rw [List.append_nil]
    have same : flowOf { e with
        chan := e.chan.setBuffer b st
        credits := e.credits ++ [UInt32.ofNat data.length]
        got := Function.update e.got st (e.got st ++ data) } o toO toE = flowOf e o toO toE := by
      cases st <;> rfl
    refine .receives same (effect_read bg hread some) ?_
    cases st <;> rfl
  | credit before after adj credits =>
    rw [List.append_nil]
    refine .receives ?_ (effect_credit sound bg credits) ?_
    · obtain ⟨w, m, same⟩ := e.chan.adjustWindow_fst adj
      rw [same]
      rfl
    · obtain ⟨w, m, same⟩ := e.chan.adjustWindow_fst adj
      rw [same]
      rfl
  | adjust before after adj adjusts here =>
    rw [flowOf_forth_concat rfl]
    refine .receives rfl ?_ rfl
    have grants : (flowOf o e toE toO).grants =
        before.map UInt32.toNat ++ adj.toNat :: after.map UInt32.toNat := by
      change e.adjusts.map UInt32.toNat = _
      rw [adjusts, List.map_append, List.map_cons]
    have step : FlowWork _ _ := .grant _ _ _ grants here
    simp only [flowOf, List.map_append, List.filterMap_append]
    exact step
  | adjustLate before after adj adjusts gone =>
    rw [List.append_nil]
    refine .leaves (.inl gone) (.inl rfl) (.inr ?_)
    have grants : (flowOf o e toE toO).grants =
        before.map UInt32.toNat ++ adj.toNat :: after.map UInt32.toNat := by
      change e.adjusts.map UInt32.toNat = _
      rw [adjusts, List.map_append, List.map_cons]
    have step : FlowStep _ _ := .forget _ _ _ grants gone
    simp only [flowOf, List.map_append]
    exact step
  | closeWrite decided =>
    rw [List.append_nil]
    exact .aside rfl rfl fun never => Cause.noConfusion never
  | sendEOF due here =>
    rw [flowOf_back_concat rfl]
    refine .finishes here ?_ rfl ?_
    · simp only [flowOf, List.filterMap_append]
      rfl
    · simp only [Endpoint.budget, Endpoint.markEnd, due, if_true, Bool.false_eq_true, if_false,
        weigh_cons, weigh_nil, Packet.budget]
      omega
  | sendEOFLate due gone =>
    rw [List.append_nil]
    refine .aside rfl rfl fun _ => ?_
    simp only [Endpoint.budget, due, if_true, Bool.false_eq_true, if_false, weigh_nil]
    omega
  | close decided here =>
    rw [flowOf_back_concat rfl]
    refine .calls rfl ?_ (.inr .part)
    have step : FlowStep (flowOf e o toO toE) _ := .leave here
    simp only [flowOf, List.filterMap_append]
    exact step
  | request r here short =>
    rw [flowOf_back_concat rfl, flowOf_forth_concat rfl]
    exact .aside rfl rfl fun never => Cause.noConfusion never
  | reply ok here =>
    cases ok
    all_goals
      rw [flowOf_back_concat rfl, flowOf_forth_concat rfl]
      exact .aside rfl rfl fun never => Cause.noConfusion never
  | gate waiting =>
    rw [List.append_nil]
    exact .aside rfl rfl fun never => Cause.noConfusion never
  | takeRequest r rest queued =>
    rw [List.append_nil]
    refine .aside rfl rfl fun _ => ?_
    simp only [Endpoint.budget, queued, List.length_cons, weigh_nil]
    omega
  | takeMsg m rest queued =>
    rw [List.append_nil]
    refine .aside rfl rfl fun _ => ?_
    simp only [Endpoint.budget, queued, List.length_cons, weigh_nil]
    omega

/-! ### What arrives -/

variable {packet : Bytes} {c : Channel}

/-- The step that handles a packet with which the loop goes on. -/
theorem EndStep.of_goesOn (h : EndStep e why (some packet) e' out)
    (handled : e.chan.handlePacket packet = .goesOn c 0) :
    why = .work ∧ e' = { e with chan := c } ∧ out = [] := by
  cases h with
  | handle _ c' credit here good hp =>
    rw [handled] at hp
    cases hp
    exact ⟨rfl, rfl, rfl⟩
  | handleRemove _ c' here good hp => rw [handled] at hp; cases hp
  | handleClose _ c' here good hp => rw [handled] at hp; cases hp
  | handleCloseLate _ c' here good hp => rw [handled] at hp; cases hp
  | handleFail _ err here good hp => rw [handled] at hp; cases hp

theorem EndStep.of_closes (h : EndStep e why (some packet) e' out)
    (handled : e.chan.handlePacket packet = .closes c) :
    (e.chan.sentClose = false ∧ e' = { e with chan := c, removed := true }.markEnd ∧
      out = [.close]) ∨
    (e.chan.sentClose = true ∧ e' = { e with chan := c, removed := true } ∧ out = []) := by
  cases h with
  | handle _ c' credit here good hp => rw [handled] at hp; cases hp
  | handleRemove _ c' here good hp => rw [handled] at hp; cases hp
  | handleClose _ c' here good hp first =>
    rw [handled] at hp
    cases hp
    exact .inl ⟨first, rfl, rfl⟩
  | handleCloseLate _ c' here good hp late =>
    rw [handled] at hp
    cases hp
    exact .inr ⟨late, rfl, rfl⟩
  | handleFail _ err here good hp => rw [handled] at hp; cases hp

theorem EndStep.not_blocks (h : EndStep e why (some packet) e' out) :
    e.chan.handlePacket packet ≠ .blocks := by
  intro blocked
  cases h with
  | handle _ c' credit here good hp => rw [blocked] at hp; cases hp
  | handleRemove _ c' here good hp => rw [blocked] at hp; cases hp
  | handleClose _ c' here good hp => rw [blocked] at hp; cases hp
  | handleCloseLate _ c' here good hp => rw [blocked] at hp; cases hp
  | handleFail _ err here good hp => rw [blocked] at hp; cases hp

theorem effect_arrive {st : Stream} {todo : Bytes} (small : todo.length ≤ channelMaxPacket.toNat)
    (fits : todo.length ≤ e.chan.myWindow.toNat) :
    FlowWork (flowOf o e (.data st todo :: toE) toO) (flowOf o { e with
      chan := (e.chan.charge (UInt32.ofNat todo.length)).setBuffer
        ((e.chan.buffer st).write todo) st } toE toO) := by
  rw [toNat_channelMaxPacket] at small
  have length : (UInt32.ofNat todo.length).toNat = todo.length :=
    UInt32.toNat_ofNat_of_lt' (by simp only [UInt32.size]; omega)
  have charged := Channel.toNat_charge (c := e.chan) (n := UInt32.ofNat todo.length)
    (by rw [UInt32.le_iff_toNat_le, length]; exact fits)
  have room : (e.chan.charge (UInt32.ofNat todo.length)).myWindow.toNat =
      e.chan.myWindow.toNat - todo.length := by omega
  have step : FlowWork (flowOf o e (.data st todo :: toE) toO) _ := .arrive st todo _ rfl fits
  simp only [flowOf, Channel.data_setBuffer, Channel.buffer_charge, Buffer.data_write,
    Channel.myWindow_setBuffer, Channel.myConsumed_setBuffer, Channel.sentClose_setBuffer, room]
  cases st <;> exact step

/-- An answer to a request is queued or dropped. -/
theorem EndStep.answer_effect {p : Packet} {id : UInt32} {m : ChannelMsg} (sound : e.Sound)
    (unseen : p.message = none) (grantless : p.grant = none) (weight : p.budget = 2)
    (handled : e.chan.handlePacket (p.encode id) =
      if e.chan.sentRequestPending ∧ e.chan.msg.length < chanSize then
        .goesOn { e.chan with msg := e.chan.msg ++ [m] } 0
      else .goesOn e.chan 0)
    (h : EndStep e why (some (p.encode id)) e' out) :
    e'.Sound ∧ Effect why (e.budget + p.budget) (e'.budget + weigh Packet.budget out)
      (flowOf e o toO (p :: toE)) (flowOf o e (p :: toE) toO)
      (flowOf e' o (toO ++ out) toE) (flowOf o e' toE (toO ++ out)) ∧
      Sends e e' out ∧ (p = .close ∨ e'.removed = e.removed) := by
  split at handled
  · obtain ⟨rfl, rfl, rfl⟩ := h.of_goesOn handled
    rw [List.append_nil, flowOf_forth_cons unseen, flowOf_back_cons grantless, weight]
    refine ⟨⟨sound.1, sound.2, sound.3, sound.4, sound.5, sound.6, sound.7⟩,
      .aside rfl rfl fun _ => ?_, .inl rfl, .inr rfl⟩
    simp only [Endpoint.budget, List.length_append, List.length_cons, List.length_nil, weigh_nil]
    omega
  · obtain ⟨rfl, rfl, rfl⟩ := h.of_goesOn handled
    rw [List.append_nil, flowOf_forth_cons unseen, flowOf_back_cons grantless, weight]
    refine ⟨sound, .aside rfl rfl fun _ => ?_, .inl rfl, .inr rfl⟩
    simp only [Endpoint.budget, weigh_nil]
    omega

/-- What handling a packet of the other end does. -/
theorem EndStep.handle_effect {p : Packet} (id : UInt32) (sound : e.Sound)
    (bf : FlowBalanced (flowOf e o toO (p :: toE)))
    (bg : FlowBalanced (flowOf o e (p :: toE) toO))
    (short : p.Short)
    (h : EndStep e why (some (p.encode id)) e' out) :
    e'.Sound ∧ Effect why (e.budget + p.budget) (e'.budget + weigh Packet.budget out)
      (flowOf e o toO (p :: toE)) (flowOf o e (p :: toE) toO)
      (flowOf e' o (toO ++ out) toE) (flowOf o e' toE (toO ++ out)) ∧
      Sends e e' out ∧ (p = .close ∨ e'.removed = e.removed) := by
  cases p with
  | data st todo =>
    have first : (flowOf o e (.data st todo :: toE) toO).forth =
      .data st todo :: toE.filterMap Packet.message := rfl
    obtain ⟨some, small⟩ := bg.pieces st todo (by rw [first]; exact List.mem_cons_self)
    have fits := bg.fits first
    obtain ⟨rfl, rfl, rfl⟩ :=
      h.of_goesOn (Channel.handlePacket_data id st sound.incoming some small fits)
    rw [List.append_nil, flowOf_back_cons rfl]
    refine ⟨?_, .receives ?_ (effect_arrive small fits) ?_, .inl rfl, .inr rfl⟩
    · cases st <;> exact ⟨sound.1, sound.2, sound.3, sound.4, sound.5, sound.6, sound.7⟩
    · cases st <;> rfl
    · cases st <;> rfl
  | windowAdjust n =>
    have within : e.chan.remoteWin.win.toNat + n.toNat < 0x100000000 := by
      have covered := bf.covered
      have account := bf.account
      have back : (flowOf e o toO (.windowAdjust n :: toE)).back =
        n.toNat :: toE.filterMap Packet.grant := rfl
      rw [Flow.pledged, back, weigh_cons, id_eq] at covered
      change e.chan.remoteWin.win.toNat + _ + _ + _ + _ ≤ _ at covered
      rw [toNat_channelWindowSize] at account
      omega
    obtain ⟨w, added, sum, closed⟩ := Window.add_eq_some within
    have handled := Channel.handlePacket_windowAdjust (c := e.chan) id n
    rw [added] at handled
    obtain ⟨rfl, rfl, rfl⟩ := h.of_goesOn handled
    rw [List.append_nil, flowOf_forth_cons rfl]
    refine ⟨?_, .sends ?_ rfl rfl, .inl rfl, .inr rfl⟩
    · exact ⟨sound.1, sound.2, sound.3, sound.4, sound.5, closed ▸ sound.6, sound.7⟩
    · have step : FlowWork (flowOf e o toO (.windowAdjust n :: toE)) _ := .collect _ _ rfl
      simp only [flowOf, sum]
      exact step
  | eof =>
    obtain ⟨rfl, rfl, rfl⟩ := h.of_goesOn (Channel.handlePacket_eof id)
    rw [List.append_nil, flowOf_back_cons rfl]
    refine ⟨?_, .receives rfl ?_ rfl, .inl rfl, .inr rfl⟩
    · exact ⟨sound.1, sound.2, sound.3, sound.4, sound.5, sound.6, rfl⟩
    · have step : FlowWork (flowOf o e (.eof :: toE) toO) _ := .arriveEof _ rfl
      have same : (fun st => (({ e.chan with
          extPending := e.chan.extPending.eof, pending := e.chan.pending.eof } : Channel).buffer
          st).data) = fun st => (e.chan.buffer st).data := by
        funext st
        cases st <;> rfl
      simp only [flowOf, same]
      exact step
  | close =>
    have arrives : FlowStep (flowOf o e (.close :: toE) toO) _ := .arriveClose _ rfl
    have same : (fun st => (e.chan.close.buffer st).data) =
        fun st => (e.chan.buffer st).data := by
      funext st
      cases st <;> rfl
    rcases h.of_closes (Channel.handlePacket_close id) with
      ⟨first, rfl, rfl⟩ | ⟨late, rfl, rfl⟩
    · rw [flowOf_back_cons rfl, flowOf_back_concat rfl]
      refine ⟨?_, .leaves (.inr List.mem_cons_self) (.inr ?_) (.inr ?_),
        .inr ⟨_, rfl, first, fun _ => rfl, trivial⟩, .inl rfl⟩
      · exact ⟨sound.1, sound.2, sound.3, sound.4, fun _ => rfl, fun _ => rfl, rfl⟩
      · have step : FlowStep (flowOf e o toO toE) _ := .leave first
        simp only [flowOf, List.filterMap_append]
        exact step
      · simp only [flowOf, Endpoint.markEnd, same]
        exact arrives
    · rw [flowOf_back_cons rfl, List.append_nil]
      refine ⟨?_, .leaves (.inl late) (.inl ?_) (.inr ?_), .inl rfl, .inl rfl⟩
      · exact ⟨sound.1, sound.2, sound.3, sound.4, fun _ => rfl, fun _ => rfl, rfl⟩
      · simp only [flowOf, late]
        rfl
      · simp only [flowOf, same]
        exact arrives
  | request r =>
    have handled := Channel.handlePacket_request (c := e.chan) id r (short id)
    split at handled
    · obtain ⟨rfl, rfl, rfl⟩ := h.of_goesOn handled
      rw [List.append_nil, flowOf_forth_cons rfl, flowOf_back_cons rfl]
      refine ⟨⟨sound.1, sound.2, sound.3, sound.4, sound.5, sound.6, sound.7⟩,
        .aside rfl rfl fun _ => ?_, .inl rfl, .inr rfl⟩
      simp only [Endpoint.budget, List.length_append, List.length_cons, List.length_nil, weigh_nil,
        Packet.budget]
      omega
    · exact absurd handled h.not_blocks
  | success => exact h.answer_effect sound rfl rfl rfl (Channel.handlePacket_success id)
  | failure => exact h.answer_effect sound rfl rfl rfl (Channel.handlePacket_failure id)

theorem EndStep.act_sound (sound : e.Sound) (h : EndStep e why none e' out) : e'.Sound := by
  cases h with
  | write | send | sendLate | adjust | adjustLate | closeWrite | sendEOF | sendEOFLate | request |
    reply | gate | takeRequest | takeMsg =>
    exact ⟨sound.1, sound.2, sound.3, sound.4, sound.5, sound.6, sound.7⟩
  | close => exact ⟨sound.1, sound.2, sound.3, sound.4, fun _ => rfl, fun _ => rfl, sound.7⟩
  | reserve st data r reserving reserved | reserveClosed st data r reserving reserved =>
    obtain ⟨-, -, -, closed, -⟩ := Window.reserve_eq_some reserved
    exact ⟨sound.1, sound.2, sound.3, sound.4, sound.5, closed ▸ sound.6, sound.7⟩
  | read st n data b decided hread some =>
    obtain ⟨-, -, closed⟩ := Buffer.read_got hread
    cases st with
    | data =>
      exact ⟨sound.1, sound.2, sound.3, sound.4, sound.5, sound.6, sound.7.trans closed.symm⟩
    | stderr => exact ⟨sound.1, sound.2, sound.3, sound.4, sound.5, sound.6, closed.trans sound.7⟩
  | credit before after adj credits =>
    obtain ⟨w, m, same⟩ := e.chan.adjustWindow_fst adj
    rw [same]
    exact ⟨sound.1, sound.2, sound.3, sound.4, sound.5, sound.6, sound.7⟩

theorem EndStep.act_sends (h : EndStep e why none e' out) : Sends e e' out := by
  cases h with
  | write | reserve | reserveClosed | sendLate | read | credit | adjustLate | closeWrite |
    sendEOFLate | gate | takeRequest | takeMsg => exact .inl rfl
  | send st todo data sending here =>
    exact .inr ⟨_, rfl, here, fun never => Packet.noConfusion never, trivial⟩
  | adjust before after adj adjusts here =>
    exact .inr ⟨_, rfl, here, fun never => Packet.noConfusion never, trivial⟩
  | sendEOF due here =>
    exact .inr ⟨_, rfl, here, fun never => Packet.noConfusion never, trivial⟩
  | close decided here => exact .inr ⟨_, rfl, here, fun _ => rfl, trivial⟩
  | request r here short =>
    exact .inr ⟨_, rfl, here, fun never => Packet.noConfusion never, fun _ => short⟩
  | reply ok here =>
    refine .inr ⟨_, rfl, here, ?_⟩
    cases ok <;> exact ⟨fun never => Packet.noConfusion never, trivial⟩

theorem EndStep.act_removed (h : EndStep e why none e' out) : e'.removed = e.removed := by
  cases h <;> rfl

end Effects

end FakeSSH.Ssh
