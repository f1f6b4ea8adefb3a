import Mathlib.Logic.Relation
import Udx.LossAndAck

set_option autoImplicit false

/- What a connection does for its peer and its application, as a sequence of a
few kinds of change. Acknowledgments, new streams, changes of address and the
end of the connection are left out: they are what other results are about. -/

namespace Udx

namespace Connection

variable {F : Type} {a b c : Connection F}

/-- The IDs of the streams, the peer's with each. -/
def ids (c : Connection F) : List (UInt32 × UInt32) := c.streams.entries.map fun e => e.2.ids

theorem ids_mem_of_lookup {id : UInt32} {s : Stream} (found : c.streams.lookup id = some s) :
    s.ids ∈ c.ids :=
  List.mem_map_of_mem (Tables.mem_entries_iff.mpr found)

theorem mem_of_findStream {localID remoteID : UInt32} {s : Stream}
    (found : c.findStream localID remoteID = some s) : ∃ e ∈ c.streams.entries, e.2 = s := by
  unfold findStream at found
  split at found
  · rename_i here
    obtain rfl := Option.some.inj found
    exact ⟨⟨localID, _⟩, Tables.mem_entries_iff.mpr here, rfl⟩
  · split at found
    · exact List.mem_map.mp (List.mem_of_find?_eq_some found)
    · cases found

theorem ids_mem_of_findStream {localID remoteID : UInt32} {s : Stream}
    (found : c.findStream localID remoteID = some s) : s.ids ∈ c.ids := by
  obtain ⟨e, member, rfl⟩ := mem_of_findStream found
  exact List.mem_map_of_mem member

theorem ids_mem_setStream (c : Connection F) (s : Stream) : s.ids ∈ (c.setStream s).ids :=
  ids_mem_of_lookup (AList.lookup_insert _)

/-- The connection has begun to close, and has told the peer if `announce`. -/
def announced (c : Connection F) (now : Time) (code : UInt32) (reason : List UInt8)
    (announce : Bool) : Connection F :=
  let c := { c with state := .closing, ackTimer := none, ackPending := 0 }
  if announce then c.sendFrames now [.connectionClose ⟨code, 0, reason⟩] else c

/-- The connection is closed, and its streams are reset. -/
def resetAll (c : Connection F) (code : UInt32) : Connection F :=
  (c.streams.entries.map Sigma.snd).foldl (fun c s => c.setStream (s.deliverReset code))
    { c with state := .closed }

/-- The timers are stopped, and what waited for them is forgotten. -/
def destroyed (c : Connection F) : Connection F :=
  { c with lostTimer := none, lostQueue := [], cc := c.cc.destroy, pm := c.pm.destroy }

theorem closeInternal_eq (now : Time) (code : UInt32) (reason : List UInt8) (announce : Bool) :
    c.closeInternal now code reason announce =
      if c.state = .closed then c
      else ((c.announced now code reason announce).resetAll code).destroyed := rfl

theorem sends_announced (now : Time) (code : UInt32) (reason : List UInt8) (announce : Bool) :
    Sends [] { c with state := .closing, ackTimer := none, ackPending := 0 }
      (c.announced now code reason announce) := by
  unfold announced
  dsimp only
  split
  · exact sends_sendPacket now 0 0 _ fun directed => absurd directed Bool.false_ne_true
  · exact .refl

/-- The next stream is entered in the table. -/
def enter (c : Connection F) (remoteID : UInt32) (state : StreamState) : Connection F :=
  { c with nextStreamID := c.nextStreamID + 2 }.setStream
    { newStream c.nextStreamID remoteID initialFC with state := state }

/-- A STREAM frame's part once its stream is found. -/
def deliver (c : Connection F) (now : Time) (s : Stream) (f : StreamFrame) : Connection F :=
  let (s, out) := if f.data.length > 0 then s.deliverData f.offset.toNat f.data else (s, [])
  let s := if f.isFin then s.deliverFin ((f.offset.toNat + f.data.length) % 2 ^ 64) else s
  (c.setStream s).sendFor now s out

theorem handleStreamFrame_eq (now : Time) (pkt : Packet) (f : StreamFrame) :
    c.handleStreamFrame now pkt f =
      match c.streamFor pkt.destinationStreamID pkt.sourceStreamID f with
      | (c, none) => c
      | (c, some s) => c.deliver now s f := rfl

/-- What is not touched when a connection attends to anything else. -/
structure Core where
  path : Path
  state : ConnectionState
  mtu : MTUDiscovery
  pm : PacketManager
  wire : List Datagram
  bytesSent : Nat
  streams : AList (fun _ : UInt32 => Stream)
  nextStreamID : UInt32
  maxStreams : Nat

def core (c : Connection F) : Core :=
  ⟨c.path, c.state, c.mtu, c.pm, c.wire, c.bytesSent, c.streams, c.nextStreamID, c.maxStreams⟩

inductive Change : Connection F → Connection F → Prop
  | work {a b : Connection F} (keeps : Keeps a.ids a b) (size : a.mtu.Falls b.mtu) : Change a b
  | stream {c : Connection F} (t : Stream) (present : t.ids ∈ c.ids) : Change c (c.setStream t)
  | aside {a b : Connection F} (same : b.core = a.core) : Change a b

def Changes (a b : Connection F) : Prop := Relation.ReflTransGen Change a b

namespace Changes

theorem refl : Changes c c := Relation.ReflTransGen.refl

theorem trans (first : Changes a b) (second : Changes b c) : Changes a c :=
  Relation.ReflTransGen.trans first second

theorem one (change : Change a b) : Changes a b := .single change

theorem aside (same : b.core = a.core) : Changes a b := one (.aside same)

theorem work (keeps : Keeps [] a b) (size : a.mtu.Falls b.mtu) : Changes a b :=
  one (.work (keeps.mono (List.nil_subset _)) size)

theorem sends (sends : Sends [] a b) : Changes a b := work sends.toKeeps sends.size

theorem sendsFor {ids : UInt32 × UInt32} (sends : Sends [ids] a b) (known : ids ∈ a.ids) :
    Changes a b :=
  one (.work (sends.toKeeps.mono (List.cons_subset.mpr ⟨known, List.nil_subset _⟩)) sends.size)

theorem state (changes : Changes a b) : b.state = a.state := by
  induction changes with
  | refl => rfl
  | tail _ change ih =>
    refine Eq.trans ?_ ih
    cases change with
    | work keeps => exact congrArg Endpoint.state keeps.endpoint
    | stream => rfl
    | aside same => exact congrArg Core.state same

end Changes

section

variable (now : Time)

theorem changes_sendPacket (dstStreamID srcStreamID : UInt32) {frames : List Frame}
    (plain : frames.any Frame.directed = false) :
    Changes c (c.sendPacket now dstStreamID srcStreamID frames) :=
  .sends (sends_sendPacket now dstStreamID srcStreamID frames fun directed =>
    absurd (plain.symm.trans directed) Bool.false_ne_true)

theorem changes_sendFrames {frames : List Frame} (plain : frames.any Frame.directed = false) :
    Changes c (c.sendFrames now frames) :=
  changes_sendPacket now 0 0 plain

theorem changes_setStream_sendFor {s t : Stream} (present : s.ids ∈ c.ids) (same : t.ids = s.ids)
    (frames : List Frame) : Changes c ((c.setStream t).sendFor now t frames) :=
  .trans (.one (.stream t (same ▸ present)))
    (.sendsFor (sends_sendFor now t frames) (c.ids_mem_setStream t))

theorem deliver_eq (c : Connection F) (s : Stream) (f : StreamFrame) :
    ∃ (t : Stream) (out : List Frame), t.ids = s.ids ∧
      c.deliver now s f = (c.setStream t).sendFor now t out := by
  refine ⟨_, _, ?_, rfl⟩
  have placed : (if f.data.length > 0 then s.deliverData f.offset.toNat f.data
      else (s, [])).1.ids = s.ids := by
    split
    · exact s.ids_deliverData _ _
    · rfl
  split
  · rw [Stream.ids_deliverFin]
    exact placed
  · exact placed

theorem changes_deliver {s : Stream} (present : s.ids ∈ c.ids) (f : StreamFrame) :
    Changes c (c.deliver now s f) := by
  obtain ⟨t, out, same, delivered⟩ := c.deliver_eq now s f
  rw [delivered]
  exact changes_setStream_sendFor now present same out

theorem streamFor_cases (localID remoteID : UInt32) (f : StreamFrame) :
    (∃ s, c.streamFor localID remoteID f = (c, s) ∧ ∀ t ∈ s, t.ids ∈ c.ids) ∨
      (c.findStream localID remoteID = none ∧ remoteID ≠ 0 ∧ (f.isSyn ∨ f.data.length > 0) ∧
        ∃ c' s, c.streamFor localID remoteID f = (c', some s) ∧
          c'.core = (c.enter remoteID .opened).core ∧ s.ids ∈ c'.ids) := by
  unfold streamFor
  split
  · rename_i s found
    refine .inl ⟨some s, rfl, fun t member => ?_⟩
    obtain rfl := Option.some.inj member
    exact ids_mem_of_findStream found
  · rename_i missing
    split
    · rename_i opens
      exact .inr ⟨missing, opens.1, opens.2, _, _, rfl, rfl, ids_mem_setStream _ _⟩
    · exact .inl ⟨none, rfl, fun _ member => absurd member (by simp)⟩

theorem changes_handleStreamFrame (pkt : Packet) (f : StreamFrame) :
    Changes c (c.handleStreamFrame now pkt f) ∨
      (c.findStream pkt.destinationStreamID pkt.sourceStreamID = none ∧ pkt.sourceStreamID ≠ 0 ∧
        (f.isSyn ∨ f.data.length > 0) ∧
        Changes (c.enter pkt.sourceStreamID .opened) (c.handleStreamFrame now pkt f)) := by
  rw [handleStreamFrame_eq]
  rcases c.streamFor_cases pkt.destinationStreamID pkt.sourceStreamID f with
    ⟨s, found, present⟩ | ⟨missing, source, opens, c', s, found, same, present⟩
  · left
    rw [found]
    cases s with
    | none => exact .refl
    | some s => exact changes_deliver now (present s rfl) f
  · refine .inr ⟨missing, source, opens, ?_⟩
    rw [found]
    exact .trans (.aside same) (changes_deliver now present f)

theorem changes_onStream (pkt : Packet) {op : Stream → Stream × List Frame}
    (same : ∀ s, (op s).1.ids = s.ids) : Changes c (c.onStream now pkt op) := by
  unfold onStream
  split
  · exact .refl
  · rename_i s found
    exact changes_setStream_sendFor now (ids_mem_of_findStream found) (same s) _

theorem changes_noteReceived (pkt : Packet) : Changes c (c.noteReceived now pkt) := by
  unfold noteReceived
  dsimp only
  split
  · refine .trans ?_ (changes_sendPacket now _ _ rfl)
    exact .aside rfl
  · split <;> exact .aside rfl

theorem changes_ackTimerFired (srcStreamID dstStreamID : UInt32) :
    Changes c (c.ackTimerFired now srcStreamID dstStreamID) := by
  unfold ackTimerFired
  dsimp only
  split
  · exact .aside rfl
  · refine .trans ?_ (changes_sendPacket now _ _ rfl)
    exact .aside rfl

theorem acceptStream_eq_some {out : Connection F × UInt32} (accepted : c.acceptStream = some out) :
    ∃ id rest, c.incomingStreams = id :: rest ∧ out = ({ c with incomingStreams := rest }, id) := by
  unfold acceptStream at accepted
  split at accepted
  · cases accepted
  · rename_i id rest front
    exact ⟨id, rest, front, (Option.some.inj accepted).symm⟩

theorem finishPathMigration_eq_some {newAddr : Addr} {challenge : Vector UInt8 8}
    {c' : Connection F} (finished : c.finishPathMigration newAddr challenge = some c') :
    ∃ resp, c.pathChallengeResp = some resp ∧
      c' = if resp ≠ challenge then { c with pathChallengeResp := none }
        else { c with pathChallengeResp := none, remoteAddr := newAddr, addrValidated := true } := by
  unfold finishPathMigration at finished
  split at finished
  · cases finished
  · rename_i resp answered
    exact ⟨resp, answered, (Option.some.inj finished).symm⟩

theorem writeBlocked_eq_some {id : UInt32} {c' : Connection F}
    (blocked : c.writeBlocked now id = some c') :
    ∃ s, c.streams.lookup id = some s ∧ ¬ (s.writeError.isSome ∨ s.streamFC.canSend 1) ∧
      c' = c.sendFor now s [.streamDataBlocked s.id (UInt64.ofInt s.streamFC.maxStreamData)] := by
  simp only [writeBlocked, Option.bind_eq_bind, Option.bind_eq_some_iff] at blocked
  obtain ⟨s, found, blocked⟩ := blocked
  split at blocked
  · cases blocked
  · rename_i waits
    exact ⟨s, found, waits, (Option.some.inj blocked).symm⟩

theorem read_eq_some {id : UInt32} {size : Nat} {expired : Bool}
    {out : Connection F × ReadResult} (read : c.read now id size expired = some out) :
    ∃ s, c.streams.lookup id = some s ∧
      out = ((c.setStream (s.read size expired).1).sendFor now (s.read size expired).1
        (s.read size expired).2.2, (s.read size expired).2.1) := by
  simp only [Connection.read, Option.bind_eq_bind, Option.bind_eq_some_iff] at read
  obtain ⟨s, found, read⟩ := read
  exact ⟨s, found, (Option.some.inj read).symm⟩

theorem callStream_eq_some {id : UInt32} {op : Stream → Stream × List Frame} {c' : Connection F}
    (called : c.callStream now id op = some c') :
    ∃ s, c.streams.lookup id = some s ∧
      c' = (c.setStream (op s).1).sendFor now (op s).1 (op s).2 := by
  simp only [callStream, Option.bind_eq_bind, Option.bind_eq_some_iff] at called
  obtain ⟨s, found, called⟩ := called
  exact ⟨s, found, (Option.some.inj called).symm⟩

theorem changes_acceptStream {out : Connection F × UInt32} (accepted : c.acceptStream = some out) :
    Changes c out.1 := by
  obtain ⟨id, rest, -, rfl⟩ := acceptStream_eq_some accepted
  exact .aside rfl

theorem changes_writeBlocked {id : UInt32} {c' : Connection F}
    (blocked : c.writeBlocked now id = some c') : Changes c c' := by
  obtain ⟨s, found, -, rfl⟩ := writeBlocked_eq_some now blocked
  exact .sendsFor (sends_sendFor now s _) (ids_mem_of_lookup found)

theorem changes_read {id : UInt32} {size : Nat} {expired : Bool}
    {out : Connection F × ReadResult} (read : c.read now id size expired = some out) :
    Changes c out.1 := by
  obtain ⟨s, found, rfl⟩ := read_eq_some now read
  exact changes_setStream_sendFor now (ids_mem_of_lookup found) (s.ids_read size expired) _

theorem changes_callStream {id : UInt32} {op : Stream → Stream × List Frame} {c' : Connection F}
    (same : ∀ s, (op s).1.ids = s.ids) (called : c.callStream now id op = some c') :
    Changes c c' := by
  obtain ⟨s, found, rfl⟩ := callStream_eq_some now called
  exact changes_setStream_sendFor now (ids_mem_of_lookup found) (same s) _

variable [Float64 F]

theorem changes_onLossTimer : Changes c (c.onLossTimer now) :=
  .work (keeps_onLossTimer now) (falls_reportLost now _)

/-- A batch that goes out was asked for, granted and booked. -/
theorem writeBatch_eq_some {id : UInt32} {entering : Bool} {data : List UInt8}
    {out : Connection F × Nat} (written : c.writeBatch now id entering data = some out) :
    ∃ s ask granted t batch, c.streams.lookup id = some s ∧
      s.writeAsk c.mtu.current data.length = some ask ∧
      c.awaitSendCreditUpTo now ask.first ask.want = some granted ∧
      s.writeCommit ask granted data.length = some (t, batch) ∧
      out = ((c.setStream t).sendStreamFrames now t.id t.remoteID (UInt64.ofNat batch.offset)
        (data.take batch.granted) ask.chunkSize batch.isSyn, batch.granted) := by
  simp only [writeBatch, Option.bind_eq_bind, Option.bind_eq_some_iff] at written
  obtain ⟨s, found, written⟩ := written
  split at written
  · cases written
  · simp only [Option.bind_eq_some_iff] at written
    obtain ⟨ask, asked, granted, admitted, ⟨t, batch⟩, committed, sent⟩ := written
    exact ⟨s, ask, granted, t, batch, found, asked, admitted, committed,
      (Option.some.inj sent).symm⟩

theorem changes_writeBatch {id : UInt32} {entering : Bool} {data : List UInt8}
    {out : Connection F × Nat} (written : c.writeBatch now id entering data = some out) :
    Changes c out.1 := by
  obtain ⟨s, ask, granted, t, batch, found, -, -, committed, rfl⟩ := writeBatch_eq_some now written
  have same : t.ids = s.ids := s.ids_writeCommit committed
  exact .trans (.one (.stream t (same ▸ ids_mem_of_lookup found)))
    (.sendsFor (sends_sendStreamFrames now _ _ _ _ _ _) (c.ids_mem_setStream t))

/-- Every frame but those that open streams, acknowledge, move the connection,
raise its stream limit or close it. -/
theorem changes_handleFrame (pkt : Packet) {f : Frame} (stream : ∀ g, f ≠ .stream g)
    (ack : ∀ g, f ≠ .ack g) (response : ∀ data, f ≠ .pathResponse data)
    (limit : ∀ count, f ≠ .maxStreams count) (close : ∀ g, f ≠ .connectionClose g) :
    Changes c (c.handleFrame now pkt f) := by
  cases f with
  | stream g => exact absurd rfl (stream g)
  | ack g => exact absurd rfl (ack g)
  | pathResponse data => exact absurd rfl (response data)
  | maxStreams count => exact absurd rfl (limit count)
  | windowUpdate => exact changes_onStream now pkt fun s => rfl
  | resetStream => exact changes_onStream now pkt fun s => rfl
  | stopSending => exact changes_onStream now pkt fun s => s.ids_reset _
  | streamDataBlocked => exact changes_onStream now pkt fun s => rfl
  | connectionClose g => exact absurd rfl (close g)
  | pathChallenge data =>
    have plain : [Frame.pathResponse data].any Frame.directed = false := rfl
    exact changes_sendFrames now plain
  | dataBlocked =>
    have plain : [Frame.maxData (UInt64.ofInt c.fc.connMaxData)].any Frame.directed = false := rfl
    exact changes_sendFrames now plain
  | maxData limit =>
    have raised (fc : FlowController) : Changes c { c with fc := fc } := .aside rfl
    exact raised _
  | padding | ping | mtuProbe | newConnectionID | retireConnectionID => exact .refl

end

/-- The connection stays on its path: it hands over what it sends to the
address it has, and counts it. -/
structure Delivers (c c' : Connection F) : Prop where
  path : c'.path = c.path
  sent : ∃ sent, c.Handed sent ∧ c'.wire = sent ++ c.wire ∧
    c'.bytesSent = c.bytesSent + wireBytes sent ∧ ProbesSent c.pm c'.pm sent

/-- It validates no datagram size either. -/
structure Serves (c c' : Connection F) : Prop extends Delivers c c' where
  size : c.mtu.Falls c'.mtu

theorem Keeps.delivers {labels : List (UInt32 × UInt32)} (keeps : Keeps labels a b) :
    Delivers a b := by
  obtain ⟨sent, handed, wire, bytes, probes, -⟩ := keeps.sent
  exact ⟨congrArg Endpoint.path keeps.endpoint, sent, handed, wire, bytes, probes⟩

theorem Serves.quiet (path : b.path = a.path) (mtu : b.mtu = a.mtu) (old : a.pm.OldProbes b.pm)
    (wire : b.wire = a.wire) (bytes : b.bytesSent = a.bytesSent) : Serves a b :=
  ⟨⟨path, [], .nil, wire, bytes, .of_old old _⟩, mtu ▸ .refl⟩

theorem Serves.refl : Serves c c := .quiet rfl rfl .refl rfl rfl

theorem Serves.trans (first : Serves a b) (second : Serves b c) : Serves a c := by
  obtain ⟨sent, handed, wire, bytes, probes⟩ := first.sent
  obtain ⟨later, handed', wire', bytes', probes'⟩ := second.sent
  refine ⟨⟨second.path.trans first.path, later ++ sent, handed.append handed' first.path bytes,
    ?_, ?_, probes.append probes'⟩, first.size.trans second.size⟩
  · rw [wire', wire, List.append_assoc]
  · rw [bytes', bytes, wireBytes_append]
    omega

theorem serves_foldl_setStream (streams : List Stream) (op : Stream → Stream) :
    Serves c (streams.foldl (fun c s => c.setStream (op s)) c) := by
  induction streams generalizing c with
  | nil => exact .refl
  | cons s rest ih => exact .trans (b := c.setStream (op s)) (.quiet rfl rfl .refl rfl rfl) ih

theorem Change.serves (change : Change a b) : Serves a b := by
  cases change with
  | work keeps size => exact ⟨keeps.delivers, size⟩
  | stream t => exact .quiet rfl rfl .refl rfl rfl
  | aside same =>
    have pm : b.pm = a.pm := congrArg Core.pm same
    exact .quiet (congrArg Core.path same) (congrArg Core.mtu same) (pm ▸ .refl)
      (congrArg Core.wire same) (congrArg Core.bytesSent same)

theorem Changes.serves (changes : Changes a b) : Serves a b := by
  induction changes with
  | refl => exact .refl
  | tail _ change ih => exact ih.trans change.serves

theorem serves_closeInternal (now : Time) (code : UInt32) (reason : List UInt8)
    (announce : Bool) : Serves c (c.closeInternal now code reason announce) := by
  have told : Serves c (c.announced now code reason announce) := by
    have closing : Serves c { c with state := .closing, ackTimer := none, ackPending := 0 } :=
      .quiet rfl rfl .refl rfl rfl
    unfold announced
    dsimp only
    split
    · exact closing.trans (changes_sendFrames now rfl).serves
    · exact closing
  have reset (c : Connection F) : Serves c (c.resetAll code) :=
    .trans (b := { c with state := .closed }) (.quiet rfl rfl .refl rfl rfl)
      (serves_foldl_setStream _ (Stream.deliverReset · code))
  have destroyed (c : Connection F) : Serves c c.destroyed :=
    .quiet rfl rfl (fun _ member => absurd member List.not_mem_nil) rfl rfl
  rw [closeInternal_eq]
  split
  · exact .refl
  · exact (told.trans (reset _)).trans (destroyed _)

theorem Changes.serves_entered {remoteID : UInt32} {state : StreamState}
    (changes : Changes (a.enter remoteID state) b) : Serves a b :=
  .trans (b := a.enter remoteID state) (.quiet rfl rfl .refl rfl rfl) changes.serves

end Connection

end Udx
