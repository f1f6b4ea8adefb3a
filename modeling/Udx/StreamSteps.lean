import Udx.Dialogue
import Udx.EndOfStream

set_option autoImplicit false

/- What a step of a connection does to each of its streams: a call or a frame is
for one of them and leaves the others alone, and closing the connection resets
them all. -/

namespace Udx

/-- A call of the application on the stream `id` that reads, writes or ends it. -/
def Host.Input.names (id : UInt32) : Host.Input → Bool
  | .write _ stream _ _ | .read _ stream _ _ | .closeStream _ stream => stream = id
  | _ => false

/-- A frame that is for no stream. -/
def Frame.aside : Frame → Bool
  | .stream _ | .windowUpdate _ | .resetStream _ | .stopSending _ _ | .streamDataBlocked _ _
  | .connectionClose _ => false
  | _ => true

/-- A step that is for no stream. -/
def Host.Input.aside : Host.Input → Bool
  | .frame _ _ f => f.aside
  | .idleCheck _ | .openStream | .write .. | .read .. | .closeStream .. | .resetStream ..
  | .close .. => false
  | _ => true

theorem Host.Input.names_of_aside {input : Host.Input} (aside : input.aside = true) (id : UInt32) :
    input.names id = false := by
  cases input with
  | write | read | closeStream => cases aside
  | _ => rfl

namespace Stream

/-- The stream is reset or its flow control moves, and nothing is read, written or
received. -/
inductive Tends (s : Stream) : Stream → Prop
  | control (fc : StreamFlowController) : Tends s { s with streamFC := fc }
  | abort (code : UInt32) : Tends s (s.deliverReset code)

theorem tends_refl (s : Stream) : s.Tends s := .control s.streamFC

theorem tends_reset (s : Stream) (code : UInt32) : s.Tends (s.reset code).1 := by
  unfold reset
  split
  · exact s.tends_refl
  · exact .abort code

theorem Tends.ids {s t : Stream} (tends : s.Tends t) : t.ids = s.ids := by
  cases tends <;> rfl

end Stream

namespace Connection

variable {F : Type} [Float64 F]

/-- What a step can do to the stream `id`. -/
inductive Works (c : Connection F) (id : UInt32) : Host.Input → Option Stream → Option Stream → Prop
  | rest {input : Host.Input} (aside : input.names id = false) (s : Option Stream) :
    Works c id input s s
  | tends {input : Host.Input} (aside : input.names id = false) {s t : Stream} (tends : s.Tends t) :
    Works c id input (some s) (some t)
  | opens (fc : StreamFlowController) :
    Works c id .openStream none (some (.fresh id 0 fc false))
  | takes (now : Time) (pkt : Packet) (f : StreamFrame) (s : Stream)
    (found : c.findStream pkt.destinationStreamID pkt.sourceStreamID = some s) :
    Works c id (.frame now pkt (.stream f)) (some s) (some (s.receive f).1)
  | enters (now : Time) (pkt : Packet) (f : StreamFrame) (fc : StreamFlowController)
    (missing : c.findStream pkt.destinationStreamID pkt.sourceStreamID = none)
    (source : pkt.sourceStreamID ≠ 0) :
    Works c id (.frame now pkt (.stream f)) none
      (some ((Stream.fresh id pkt.sourceStreamID fc true).receive f).1)
  | reads (now : Time) (size : Nat) (expired : Bool) (s : Stream)
    (found : c.streams.lookup id = some s) :
    Works c id (.read now id size expired) (some s) (some (s.read size expired).1)
  | writes (now : Time) (entering : Bool) (data : List UInt8) {s t : Stream} {ask : Stream.Ask}
    {granted : Nat} {batch : Stream.Batch}
    (asked : s.writeAsk c.mtu.current data.length = some ask)
    (admitted : c.awaitSendCreditUpTo now ask.first ask.want = some granted)
    (committed : s.writeCommit ask granted data.length = some (t, batch))
    (done : ∃ c', c.writeBatch now id entering data = some (c', batch.granted)) :
    Works c id (.write now id entering data) (some s) (some t)
  | closes (now : Time) (s : Stream) (found : c.streams.lookup id = some s) :
    Works c id (.closeStream now id) (some s) (some s.close.1)

variable {c d : Connection F} {id : UInt32} {input : Host.Input}

theorem works_of_streams (aside : input.names id = false) (same : d.streams = c.streams) :
    c.Works id input (c.streams.lookup id) (d.streams.lookup id) := by
  rw [same]
  exact .rest aside _

theorem works_of_insert {t : Stream} (others : t.id ≠ id → input.names id = false)
    (table : d.streams = c.streams.insert t.id t)
    (here : t.id = id → c.Works id input (c.streams.lookup id) (some t)) :
    c.Works id input (c.streams.lookup id) (d.streams.lookup id) := by
  rw [table]
  by_cases same : id = t.id
  · have worked := here same.symm
    subst same
    rw [AList.lookup_insert]
    exact worked
  · rw [AList.lookup_insert_ne same]
    exact .rest (others (Ne.symm same)) _

theorem works_of_found {s t : Stream} (found : c.streams.lookup s.id = some s)
    (ids : t.ids = s.ids) (others : s.id ≠ id → input.names id = false)
    (table : d.streams = c.streams.insert t.id t)
    (here : s.id = id → c.Works id input (some s) (some t)) :
    c.Works id input (c.streams.lookup id) (d.streams.lookup id) := by
  have key : t.id = s.id := congrArg Prod.fst ids
  refine works_of_insert (key ▸ others) table fun same => ?_
  rw [key] at same
  rw [← same, found, same]
  exact here same

omit [Float64 F] in
theorem streams_sendPacket (c : Connection F) (now : Time) (dst src : UInt32)
    (frames : List Frame) : (c.sendPacket now dst src frames).streams = c.streams :=
  congrArg Endpoint.streams (sends_sendPacket now dst src frames
    fun _ => List.mem_singleton_self (src, dst)).endpoint

omit [Float64 F] in
theorem streams_sendControlTo (c : Connection F) (frames : List Frame) (addr : Addr) :
    (c.sendControlTo frames addr).streams = c.streams := rfl

omit [Float64 F] in
theorem streams_ackTimerFired (c : Connection F) (now : Time) (dst src : UInt32) :
    (c.ackTimerFired now dst src).streams = c.streams := by
  unfold ackTimerFired
  dsimp only
  split
  · rfl
  · rw [streams_sendPacket]
    rfl

omit [Float64 F] in
theorem streams_deliver (c : Connection F) (now : Time) (s : Stream) (f : StreamFrame) :
    (c.deliver now s f).streams = c.streams.insert (s.receive f).1.id (s.receive f).1 :=
  streams_setStream_sendFor now c (s.receive f).1 (s.receive f).2

omit [Float64 F] in
theorem streamFor_opens {localID remoteID : UInt32} {f : StreamFrame}
    (missing : c.findStream localID remoteID = none)
    (opens : remoteID ≠ 0 ∧ (f.isSyn = true ∨ f.data.length > 0)) :
    ∃ d : Connection F,
      c.streamFor localID remoteID f = (d, some (.fresh c.nextStreamID remoteID initialFC true)) ∧
        d.streams = c.streams.insert c.nextStreamID
          (.fresh c.nextStreamID remoteID initialFC true) := by
  rw [streamFor, missing]
  exact ⟨_, if_pos opens, rfl⟩

variable (keyed : c.Keyed)
include keyed

theorem works_handleStreamFrame (absent : c.nextStreamID ∉ c.streams) (now : Time)
    (pkt : Packet) (f : StreamFrame) :
    c.Works id (.frame now pkt (.stream f)) (c.streams.lookup id)
      ((c.handleStreamFrame now pkt f).streams.lookup id) := by
  rw [handleStreamFrame_eq]
  cases found : c.findStream pkt.destinationStreamID pkt.sourceStreamID with
  | some s =>
    rw [streamFor, found]
    exact works_of_found (keyed.lookup_of_findStream found) (s.ids_receive f) (fun _ => rfl)
      (c.streams_deliver now s f) fun _ => .takes now pkt f s found
  | none =>
    by_cases opens : pkt.sourceStreamID ≠ 0 ∧ (f.isSyn = true ∨ f.data.length > 0)
    · obtain ⟨d, enters, entered⟩ := streamFor_opens found opens
      rw [enters]
      let s : Stream := .fresh c.nextStreamID pkt.sourceStreamID initialFC true
      have key : (s.receive f).1.id = c.nextStreamID := congrArg Prod.fst (s.ids_receive f)
      have table : (d.deliver now s f).streams =
          c.streams.insert (s.receive f).1.id (s.receive f).1 := by
        rw [streams_deliver, entered, key]
        exact AList.insert_insert _
      refine works_of_insert (d := d.deliver now s f) (fun _ => rfl) table fun same => ?_
      have next : c.nextStreamID = id := key.symm.trans same
      subst next
      rw [AList.lookup_eq_none.mpr absent]
      exact .enters now pkt f initialFC found opens.1
    · rw [streamFor, found]
      dsimp only
      rw [if_neg opens]
      exact .rest rfl _

theorem works_onStream (aside : input.names id = false) (now : Time) (pkt : Packet)
    {op : Stream → Stream × List Frame} (tends : ∀ s : Stream, s.Tends (op s).1) :
    c.Works id input (c.streams.lookup id) ((c.onStream now pkt op).streams.lookup id) := by
  unfold onStream
  cases found : c.findStream pkt.destinationStreamID pkt.sourceStreamID with
  | none => exact .rest aside _
  | some s =>
    exact works_of_found (keyed.lookup_of_findStream found) (tends s).ids (fun _ => aside)
      (streams_setStream_sendFor now c (op s).1 (op s).2) fun _ => .tends aside (tends s)

/-- Every stream is reset as the connection closes. -/
theorem works_closeInternal (aside : input.names id = false) (now : Time) (code : UInt32)
    (reason : List UInt8) (announce : Bool) :
    c.Works id input (c.streams.lookup id)
      ((c.closeInternal now code reason announce).streams.lookup id) := by
  by_cases closed : c.state = .closed
  · rw [closeInternal_eq, if_pos closed]
    exact .rest aside _
  · cases found : c.streams.lookup id with
    | some s =>
      rw [lookup_closeInternal keyed closed found]
      exact .tends aside (.abort code)
    | none =>
      have restocks := restocks_closeInternal keyed now code reason announce
      have keys := restocks.ids.map Prod.fst
      rw [restocks.keyed.map_fst_ids, keyed.map_fst_ids] at keys
      have absent := AList.lookup_eq_none.mp found
      rw [AList.lookup_eq_none.mpr (mt keys.mem_iff.mp absent)]
      exact .rest aside _

theorem works_handleFrame (absent : c.nextStreamID ∉ c.streams) (now : Time) (pkt : Packet)
    {f : Frame} (other : f.aside = false) :
    c.Works id (.frame now pkt f) (c.streams.lookup id)
      ((Connection.handleFrame now pkt c f).streams.lookup id) := by
  cases f with
  | stream f => exact works_handleStreamFrame keyed absent now pkt f
  | windowUpdate => exact works_onStream keyed rfl now pkt fun s => .control _
  | resetStream code => exact works_onStream keyed rfl now pkt fun s => .abort code
  | stopSending _ code => exact works_onStream keyed rfl now pkt fun s => s.tends_reset code
  | streamDataBlocked => exact works_onStream keyed rfl now pkt fun s => .control _
  | connectionClose => exact works_closeInternal keyed rfl now _ _ _
  | _ => cases other

omit keyed in
theorem streams_handleFrame (c : Connection F) (now : Time) (pkt : Packet) {f : Frame}
    (aside : f.aside = true) : (Connection.handleFrame now pkt c f).streams = c.streams := by
  cases f with
  | ack f => exact congrArg Endpoint.streams (keeps_handleAckFrame now f).endpoint
  | pathChallenge | dataBlocked => exact c.streams_sendPacket now 0 0 _
  | pathResponse data =>
    simp only [Connection.handleFrame, completeMigration]
    cases c.pendingAddr with
    | none => rfl
    | some addr =>
      by_cases answers : data = c.pendingChallenge <;> simp [answers]
  | maxStreams count =>
    unfold Connection.handleFrame
    dsimp only
    split <;> rfl
  | maxData limit =>
    have kept (fc : FlowController) : ({ c with fc := fc } : Connection F).streams = c.streams := rfl
    exact kept (c.fc.updateMaxData (wrap64 limit.toNat))
  | padding | ping | mtuProbe | newConnectionID | retireConnectionID => rfl
  | _ => cases aside

end Connection

namespace Host

open Connection

variable {F : Type} [Float64 F] {h h' : Host F} {input : Input}

theorem streams_step (aside : input.aside = true) (taken : h.step input = some h') :
    h'.conn.streams = h.conn.streams := by
  cases input with
  | arrive now pkt =>
    obtain rfl := Option.some.inj taken
    rfl
  | frame now pkt f =>
    obtain rfl := Option.some.inj taken
    exact h.conn.streams_handleFrame now pkt aside
  | note now pkt =>
    rw [step] at taken
    split at taken
    · cases taken
    · obtain rfl := Option.some.inj taken
      exact Connection.streams_noteReceived
  | observeAddr now addr challenge =>
    obtain rfl := Option.some.inj taken
    show (h.conn.observeAddr now addr challenge).1.streams = _
    unfold Connection.observeAddr
    repeat' split
    all_goals rfl
  | sendChallenge i =>
    simp only [step, Option.bind_eq_bind, Option.bind_eq_some_iff] at taken
    obtain ⟨⟨challenge, addr⟩, present, out⟩ := taken
    obtain rfl := Option.some.inj out
    exact h.conn.streams_sendControlTo _ addr
  | ackTimer now src dst =>
    obtain rfl := Option.some.inj taken
    exact h.conn.streams_ackTimerFired now src dst
  | lossTimer now =>
    obtain rfl := Option.some.inj taken
    exact congrArg Connection.Endpoint.streams (keeps_onLossTimer now).endpoint
  | pto now =>
    obtain rfl := Option.some.inj taken
    exact congrArg Connection.Endpoint.streams (sends_onPtoTimeout now).endpoint
  | flushLost now =>
    obtain rfl := Option.some.inj taken
    exact congrArg Connection.Endpoint.streams (sends_flushLost now).endpoint
  | acceptStream =>
    obtain ⟨out, accepted, rfl⟩ := Option.map_eq_some_iff.mp taken
    obtain ⟨front, rest, -, rfl⟩ := acceptStream_eq_some accepted
    rfl
  | writeBlocked now stream =>
    obtain ⟨c, blocked, rfl⟩ := Option.map_eq_some_iff.mp taken
    obtain ⟨s, -, -, rfl⟩ := writeBlocked_eq_some now blocked
    exact congrArg Connection.Endpoint.streams (sends_sendFor now s _).endpoint
  | ping now =>
    obtain rfl := Option.some.inj taken
    exact h.conn.streams_sendPacket now 0 0 _
  | migrate now newAddr challenge =>
    obtain rfl := Option.some.inj taken
    exact h.conn.streams_sendPacket now 0 0 _
  | answer i =>
    simp only [step, Option.bind_eq_bind, Option.bind_eq_some_iff] at taken
    obtain ⟨⟨challenge, newAddr⟩, waits, c, finished, out⟩ := taken
    obtain rfl := Option.some.inj out
    obtain ⟨resp, answered, rfl⟩ := finishPathMigration_eq_some finished
    dsimp only
    split <;> rfl
  | giveUp i =>
    obtain rfl := Option.some.inj taken
    rfl
  | idleCheck | openStream | write | read | closeStream | resetStream | close => cases aside

/-- A step of a connection is a step of each of its streams. -/
theorem works_step (keyed : h.conn.Keyed) (absent : h.conn.nextStreamID ∉ h.conn.streams)
    (taken : h.step input = some h') (id : UInt32) :
    h.conn.Works id input (h.conn.streams.lookup id) (h'.conn.streams.lookup id) := by
  by_cases aside : input.aside = true
  · exact works_of_streams (input.names_of_aside aside id) (streams_step aside taken)
  cases input with
  | frame now pkt f =>
    obtain rfl := Option.some.inj taken
    exact works_handleFrame keyed absent now pkt (Bool.eq_false_iff.mpr aside)
  | idleCheck now =>
    rw [step, Connection.onIdleCheck] at taken
    obtain rfl := Option.some.inj taken
    dsimp only
    split
    · exact works_closeInternal keyed rfl now _ _ _
    · exact .rest rfl _
  | openStream =>
    obtain rfl := Option.some.inj taken
    dsimp only
    unfold Connection.openStream
    split
    · exact .rest rfl _
    · split
      · exact .rest rfl _
      · refine works_of_insert (t := newStream h.conn.nextStreamID 0 initialFC)
          (fun _ => rfl) rfl fun same => ?_
        have next : h.conn.nextStreamID = id := same
        subst next
        rw [AList.lookup_eq_none.mpr absent]
        exact .opens initialFC
  | write now stream entering data =>
    obtain ⟨out, written, rfl⟩ := Option.map_eq_some_iff.mp taken
    obtain ⟨s, ask, granted, t, batch, found, asked, admitted, committed, rfl⟩ :=
      writeBatch_eq_some now written
    have key := keyed.id_eq found
    refine works_of_found (key ▸ found) (s.ids_writeCommit committed)
      (fun other => decide_eq_false (key ▸ other))
      (congrArg Connection.Endpoint.streams (sends_sendStreamFrames now _ _ _ _ _ _).endpoint) fun same => ?_
    obtain rfl : stream = id := key.symm.trans same
    exact .writes now entering data asked admitted committed ⟨_, written⟩
  | read now stream size expired =>
    obtain ⟨out, read, rfl⟩ := Option.map_eq_some_iff.mp taken
    obtain ⟨s, found, rfl⟩ := read_eq_some now read
    have key := keyed.id_eq found
    refine works_of_found (key ▸ found) (s.ids_read size expired)
      (fun other => decide_eq_false (key ▸ other)) (streams_setStream_sendFor now _ _ _)
      fun same => ?_
    obtain rfl : stream = id := key.symm.trans same
    exact .reads now size expired s found
  | closeStream now stream =>
    obtain ⟨c, called, rfl⟩ := Option.map_eq_some_iff.mp taken
    obtain ⟨s, found, rfl⟩ := callStream_eq_some now called
    have key := keyed.id_eq found
    refine works_of_found (key ▸ found) s.ids_close
      (fun other => decide_eq_false (key ▸ other)) (streams_setStream_sendFor now _ _ _)
      fun same => ?_
    obtain rfl : stream = id := key.symm.trans same
    exact .closes now s found
  | resetStream now stream code =>
    obtain ⟨c, called, rfl⟩ := Option.map_eq_some_iff.mp taken
    obtain ⟨s, found, rfl⟩ := callStream_eq_some now called
    rw [← keyed.id_eq found] at found
    exact works_of_found found (s.ids_reset code) (fun _ => rfl)
      (streams_setStream_sendFor now _ _ _) fun _ => .tends rfl (s.tends_reset code)
  | close now code reason =>
    obtain rfl := Option.some.inj taken
    exact works_closeInternal keyed rfl now code reason true
  | arrive | note | observeAddr | sendChallenge | ackTimer | lossTimer | pto | flushLost
  | acceptStream | writeBlocked | ping | migrate | answer | giveUp => exact absurd rfl aside

end Host

end Udx
