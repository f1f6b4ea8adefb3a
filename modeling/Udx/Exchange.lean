import Udx.AckAgreement
import Udx.AckDuty
import Udx.Coverage
import Udx.Safekeeping
import Udx.Segmenting
import Udx.WindowGate

set_option autoImplicit false

/- One side of an exchange: what each of its turns does to the packets it
answers for, to its streams and to its record of the peer's packets. -/

namespace Udx

open Flight (Moves)

/-- What a side may say outside of STREAM frames and path-MTU probes. It raises no
limit of the peer's streams, and acknowledges only the numbers in `told`. -/
def Frame.Plain (told : List UInt32) : Frame → Prop
  | .stream _ | .maxStreams _ => False
  | .ack f => ∀ n ∈ f.sequences, n ∈ told
  | _ => True

/-- A control packet. -/
structure Packet.Plain (told : List UInt32) (pkt : Packet) : Prop where
  sequence : pkt.sequence = 0
  frame : ∃ f, pkt.frames = [f] ∧ f.Plain told

variable {told more noted : List UInt32} {ends : Stream.Endings}

theorem Frame.Plain.mono {f : Frame} (plain : f.Plain told) (grown : told ⊆ more) :
    f.Plain more := by
  cases f with
  | ack f => exact fun n member => grown (plain n member)
  | stream | maxStreams => exact plain
  | _ => trivial

theorem Packet.Plain.mono {pkt : Packet} (plain : pkt.Plain told) (grown : told ⊆ more) :
    pkt.Plain more := by
  obtain ⟨f, frames, free⟩ := plain.frame
  exact ⟨plain.sequence, f, frames, free.mono grown⟩

theorem Frame.Plain.bearsData {f : Frame} (plain : f.Plain told) : f.bearsData = false := by
  cases f with
  | stream => exact plain.elim
  | _ => rfl

theorem quiet_plain : Flight.CarryNoData (Packet.Plain told) := by
  intro pkt plain
  obtain ⟨f, frames, free⟩ := plain.frame
  refine ⟨?_, fun id sf holds => ?_⟩
  · simp [Packet.elicits, isDataBearing, isNumberedProbe, plain.sequence, frames, free.bearsData]
  · obtain rfl : f = .stream sf := by simpa using frames.symm.trans holds.1
    exact free

namespace Stream

/-- The stream has of its peer's data what it had. -/
structure Retains (s t : Stream) : Prop where
  ids : t.ids = s.ids
  early : t.recvOOO = s.recvOOO
  front : t.recvOffset = s.recvOffset
  finSeen : t.finSeen = s.finSeen
  finalSize : t.finalSize = s.finalSize

/-- Neither side has ended the stream. -/
structure Unended (s : Stream) : Prop where
  finSeen : s.finSeen = false
  state : s.state = .idle ∨ s.state = .opened ∨ s.state = .reset

/-- Nothing has come or gone on the stream. -/
structure Blank (s : Stream) : Prop where
  unended : s.Unended
  early : s.recvOOO = ∅
  front : s.recvOffset = 0
  written : s.bytesWritten = 0

/-- An operation that neither sends nor receives data. The last is of those that
do not end the stream. -/
structure Steady (ends : Endings) (s t : Stream) : Prop extends Retains s t where
  written : t.bytesWritten = s.bytesWritten
  unended : (∀ id offset, ¬ ends id offset) → s.Unended → t.Unended

variable (s : Stream)

theorem steady_refl : Steady ends s s :=
  ⟨⟨rfl, rfl, rfl, rfl, rfl⟩, rfl, fun _ unended => unended⟩

theorem steady_streamFC (fc : StreamFlowController) : Steady ends s { s with streamFC := fc } :=
  ⟨⟨rfl, rfl, rfl, rfl, rfl⟩, rfl, fun _ unended => ⟨unended.finSeen, unended.state⟩⟩

theorem steady_deliverReset (code : UInt32) : Steady ends s (s.deliverReset code) :=
  ⟨⟨rfl, rfl, rfl, rfl, rfl⟩, rfl, fun _ unended => ⟨unended.finSeen, .inr (.inr rfl)⟩⟩

theorem steady_reset (code : UInt32) : Steady ends s (s.reset code).1 := by
  unfold reset
  split
  · exact s.steady_refl
  · exact s.steady_deliverReset code

theorem steady_read (size : Nat) (expired : Bool) : Steady ends s (s.read size expired).1 := by
  have reads := s.reads_read size expired
  generalize s.read size expired = out at reads ⊢
  cases reads with
  | aborted | ended | waits => exact s.steady_refl
  | takes full fc frames books =>
    exact ⟨⟨rfl, rfl, rfl, rfl, rfl⟩, rfl, fun _ unended => ⟨unended.finSeen, unended.state⟩⟩

theorem plain_reset (code : UInt32) : ∀ f ∈ (s.reset code).2, f.Plain told := by
  unfold reset
  split
  · exact List.forall_mem_nil _
  · exact List.forall_mem_singleton.mpr trivial

theorem plain_read (size : Nat) (expired : Bool) :
    ∀ f ∈ (s.read size expired).2.2, f.Plain told := by
  unfold read
  dsimp only
  repeat' split
  all_goals first
    | exact List.forall_mem_nil _
    | exact List.forall_mem_singleton.mpr trivial

/-- Where `Close` ends the stream, if it does. -/
def ending : Option Nat :=
  if s.state = .closed ∨ s.state = .reset then none else some s.bytesWritten

theorem steady_close (allowed : ∀ offset ∈ s.ending, ends s.id offset) :
    Steady ends s s.close.1 := by
  unfold close
  split
  · exact s.steady_refl
  · rename_i live
    have last : ends s.id s.bytesWritten := allowed _ (if_neg live)
    exact ⟨⟨rfl, rfl, rfl, rfl, rfl⟩, rfl, fun never => absurd last (never _ _)⟩

theorem retains_writeCommit {ask : Ask} {granted remaining : Nat} {t : Stream} {batch : Batch}
    (committed : s.writeCommit ask granted remaining = some (t, batch)) :
    s.Retains t ∧ (s.Unended → t.Unended) := by
  obtain ⟨-, -, -, rfl⟩ := s.writeCommit_eq_some committed
  refine ⟨⟨rfl, rfl, rfl, rfl, rfl⟩, fun unended => ⟨unended.finSeen, ?_⟩⟩
  dsimp only
  split
  · exact .inr (.inl rfl)
  · exact unended.state

def receive (f : StreamFrame) : Stream × List Frame :=
  let (s, out) := if f.data.length > 0 then s.deliverData f.offset.toNat f.data else (s, [])
  (if f.isFin then s.deliverFin ((f.offset.toNat + f.data.length) % 2 ^ 64) else s, out)

theorem ids_receive (f : StreamFrame) : (s.receive f).1.ids = s.ids := by
  unfold receive
  dsimp only
  split <;> split
  · rw [ids_deliverFin, ids_deliverData]
  · exact s.ids_deliverFin _
  · exact s.ids_deliverData _ _
  · rfl

theorem plain_receive (f : StreamFrame) : ∀ g ∈ (s.receive f).2, g.Plain told := by
  unfold receive deliverData
  dsimp only
  split
  · split
    · exact plain_reset _ _
    · split <;> exact List.forall_mem_nil _
  · exact List.forall_mem_nil _

theorem fixed_deliverData (offset : Nat) (data : List UInt8) :
    (s.deliverData offset data).1.bytesWritten = s.bytesWritten ∧
      (s.deliverData offset data).1.finalSize = s.finalSize := by
  obtain ⟨_, _, _, _, _, same⟩ := s.sameButBuffers_placeLocked offset data
  unfold deliverData reset
  dsimp only
  rw [same]
  split
  · split <;> exact ⟨rfl, rfl⟩
  · split
    · exact ⟨finishLocked_bytesWritten _, finishLocked_finalSize _⟩
    · exact ⟨rfl, rfl⟩

theorem bytesWritten_receive (f : StreamFrame) :
    (s.receive f).1.bytesWritten = s.bytesWritten := by
  unfold receive deliverFin
  dsimp only
  split <;> split
  · exact (finishLocked_bytesWritten _).trans (s.fixed_deliverData _ _).1
  · exact finishLocked_bytesWritten _
  · exact (s.fixed_deliverData _ _).1
  · rfl

end Stream

namespace Connection

variable {F : Type} {c c' d : Connection F}

/-- How far the data of each stream has been handed out. -/
def written (c : Connection F) (id : UInt32) : Nat :=
  (c.streams.lookup id).elim 0 Stream.bytesWritten

/-- Where `Close` would end the stream. -/
def ending (c : Connection F) (id : UInt32) : Option Nat := (c.streams.lookup id).bind Stream.ending

/-- No stream has more data than its packets could hold. -/
def Bounded (c : Connection F) : Prop := ∀ id, c.written id ≤ maxDatagramSize * c.pm.nextSeq

/-- The table after a turn that receives no data: the streams have what they had,
and one may be new. -/
inductive Stocks (ends : Stream.Endings) (c : Connection F) :
    AList (fun _ : UInt32 => Stream) → Prop
  | same : Stocks ends c c.streams
  | set (s t : Stream) (found : c.streams.lookup t.id = some s) (retains : s.Retains t)
    (unended : (∀ id offset, ¬ ends id offset) → s.Unended → t.Unended) :
    Stocks ends c (c.streams.insert t.id t)
  | new (t : Stream) (absent : c.streams.lookup t.id = none) (blank : t.Blank) :
    Stocks ends c (c.streams.insert t.id t)

theorem Stocks.congr {table : AList (fun _ : UInt32 => Stream)} (stocks : Stocks ends d table)
    (streams : d.streams = c.streams) : Stocks ends c table := by
  cases stocks with
  | same =>
    rw [streams]
    exact .same
  | set s t found =>
    rw [streams] at found ⊢
    exact .set s t found ‹_› ‹_›
  | new t absent =>
    rw [streams] at absent ⊢
    exact .new t absent ‹_›

/-- The table after a STREAM frame: its stream has taken it, or there is none. -/
inductive Receives (c : Connection F) (pkt : Packet) (f : StreamFrame) :
    AList (fun _ : UInt32 => Stream) → Prop
  | none (missing : c.findStream pkt.destinationStreamID pkt.sourceStreamID = none)
    (refused : pkt.sourceStreamID = 0 ∨ f.isSyn = false ∧ f.data = []) : Receives c pkt f c.streams
  | found (s : Stream)
    (found : c.findStream pkt.destinationStreamID pkt.sourceStreamID = some s) :
    Receives c pkt f (c.streams.insert s.id (s.receive f).1)
  | entered (s : Stream)
    (missing : c.findStream pkt.destinationStreamID pkt.sourceStreamID = none)
    (source : pkt.sourceStreamID ≠ 0) (ids : s.ids = (c.nextStreamID, pkt.sourceStreamID))
    (blank : s.Blank) : Receives c pkt f (c.streams.insert s.id (s.receive f).1)

theorem written_congr (same : c'.streams = c.streams) : c'.written = c.written := by
  funext id
  rw [written, written, same]

theorem written_insert {t : Stream} (table : c'.streams = c.streams.insert t.id t) :
    c'.written = Function.update c.written t.id t.bytesWritten := by
  funext id
  rw [written, table]
  by_cases same : id = t.id
  · subst same
    rw [AList.lookup_insert, Function.update_self]
    rfl
  · rw [AList.lookup_insert_ne same, Function.update_of_ne same]
    rfl

theorem written_of_found {s : Stream} {id : UInt32} (found : c.streams.lookup id = some s) :
    c.written id = s.bytesWritten := by
  rw [written, found]
  rfl

theorem written_of_absent {id : UInt32} (absent : c.streams.lookup id = none) :
    c.written id = 0 := by
  rw [written, absent]
  rfl

theorem written_set {t : Stream} (table : c'.streams = c.streams.insert t.id t)
    (same : t.bytesWritten = c.written t.id) : c'.written = c.written := by
  rw [written_insert table, same, Function.update_eq_self]

theorem Bounded.congr (bounded : c.Bounded) (written : c'.written = c.written)
    (next : c.pm.nextSeq ≤ c'.pm.nextSeq) : c'.Bounded := by
  intro id
  rw [written]
  exact Nat.le_trans (bounded id) (Nat.mul_le_mul_left _ next)

theorem Bounded.small (bounded : c.Bounded) (room : c.pm.nextSeq ≤ 2 ^ 32) (id : UInt32) :
    c.written id < 2 ^ 64 := by
  have most := bounded id
  rw [maxDatagramSize] at most
  omega

theorem Keyed.id_eq (keyed : c.Keyed) {id : UInt32} {s : Stream}
    (found : c.streams.lookup id = some s) : s.id = id :=
  keyed ⟨id, s⟩ (Tables.mem_entries_iff.mpr found)

theorem Keyed.lookup_of_findStream (keyed : c.Keyed) {localID remoteID : UInt32} {s : Stream}
    (found : c.findStream localID remoteID = some s) : c.streams.lookup s.id = some s := by
  obtain ⟨e, member, rfl⟩ := mem_of_findStream found
  rw [keyed e member]
  exact Tables.lookup_of_mem e member

/-- The connection has recorded the packets `told` of its peer's. -/
structure Records (told : List UInt32) (c : Connection F) : Prop where
  recvd : c.recvd.Represents told
  pending : c.ackPending ≠ 0 → told ≠ []

theorem Records.congr (records : c.Records told) (recvd : c'.recvd = c.recvd)
    (pending : c'.ackPending = c.ackPending) : c'.Records told := by
  refine ⟨?_, ?_⟩
  · rw [recvd]
    exact records.recvd
  · rw [pending]
    exact records.pending

theorem Keeps.records {labels : List (UInt32 × UInt32)} (keeps : Keeps labels c c')
    (records : c.Records told) : c'.Records told :=
  records.congr (congrArg Endpoint.recvd keeps.endpoint)
    (congrArg Endpoint.ackPending keeps.endpoint)

/-- A turn of one side, of whose packets the peer has noted `noted`, and which has
noted `told` itself. -/
structure Turn (ends : Stream.Endings) (told noted : List UInt32) (c c' : Connection F) : Prop where
  simulated : ∃ debt, Simulated (.exchange ends (Packet.Plain told) noted) c
    { extent := c.written } c' { extent := c'.written, debt := debt }
  next : c.pm.nextSeq ≤ c'.pm.nextSeq
  bounded : c'.Bounded
  records : c'.Records told

/-- A turn that receives no data. -/
structure Own (ends : Stream.Endings) (told noted : List UInt32) (c c' : Connection F) : Prop
    extends Turn ends told noted c c' where
  table : Stocks ends c c'.streams

section

variable {g : Ghost} (now : Time)

theorem plain_packet {f : Frame} (plain : f.Plain told) (c : Connection F)
    (dstStreamID srcStreamID : UInt32) : (c.packet 0 dstStreamID srcStreamID [f]).Plain told :=
  ⟨rfl, f, rfl, plain⟩

theorem simulated_plain {f : Frame} (plain : f.Plain told) (dstStreamID srcStreamID : UInt32) :
    Simulated (.exchange ends (Packet.Plain told) noted) c g
      (c.sendPacket now dstStreamID srcStreamID [f]) g := by
  refine simulated_sendPacket_control now dstStreamID srcStreamID ?_ (plain_packet plain c _ _)
  simp [plain.bearsData]

/-- A frame without data leaves the end of its stream where it is. -/
theorem simulated_bare {sf : StreamFrame} {extent : UInt32 → Nat} (dstStreamID srcStreamID : UInt32)
    (bare : sf.data = []) (bears : (Frame.stream sf).bearsData = true)
    (allowed : sf.isFin = true → ends srcStreamID sf.offset.toNat)
    (start : sf.offset.toNat = extent srcStreamID) :
    Simulated (.exchange ends (Packet.Plain told) noted) c { extent := extent }
      (c.sendPacket now dstStreamID srcStreamID [.stream sf]) { extent := extent } := by
  let x := c.dataCargo dstStreamID srcStreamID [.stream sf]
  have only {other : StreamFrame} (same : x.frames = [.stream other]) : other = sf :=
    (Frame.stream.inj (List.singleton_inj.mp same)).symm
  have formed : x.Formed ends := by
    refine ⟨.data sf rfl rfl, fun other same fin => ?_⟩
    obtain rfl := only same
    exact ⟨allowed fin, bare⟩
  have continues : Flight.Continues extent x := by
    intro other same
    obtain rfl := only same
    refine ⟨start, ?_⟩
    show other.offset.toNat + other.data.length < 2 ^ 64
    rw [bare]
    exact other.offset.toNat_lt
  have still : x.advance extent = extent := by
    show Function.update extent srcStreamID (sf.offset.toNat + sf.data.length) = extent
    rw [bare, List.length_nil, Nat.add_zero, start, Function.update_eq_self]
  have counted : [Frame.stream sf].any Frame.bearsData = true := by rw [List.any_cons, bears]; rfl
  have sent : Simulated (.exchange ends (Packet.Plain told) noted) c { extent := extent }
      (c.sendPacket now dstStreamID srcStreamID [.stream sf]) { extent := x.advance extent } :=
    simulated_sendPacket_data now dstStreamID srcStreamID counted ⟨formed, continues⟩
  rw [still] at sent
  exact sent

theorem simulated_setStream_sendFor (t : Stream) {frames : List Frame}
    (plain : ∀ f ∈ frames, f.Plain told) :
    Simulated (.exchange ends (Packet.Plain told) noted) c g
      ((c.setStream t).sendFor now t frames) g := by
  have replaced : Simulated (.exchange ends (Packet.Plain told) noted) c g (c.setStream t) g :=
    .aside rfl rfl rfl rfl
  refine replaced.trans (sends_sendFor now t frames).next ?_
  exact simulated_sendFor_control now t fun f member =>
    ⟨(plain f member).bearsData, fun c' _ => plain_packet (plain f member) c' _ _⟩

/-- Consecutive data may go out where the stream's data ends. -/
theorem sendable_streamFrames {dstStreamID srcStreamID : UInt32} {size : StreamFrame → Nat}
    {extent : UInt32 → Nat} {offset : UInt64} {isSyn : Bool} {parts : List (List UInt8)}
    (start : offset.toNat = extent srcStreamID)
    (small : offset.toNat + (parts.map List.length).sum < 2 ^ 64) :
    Sendable (.exchange ends (Packet.Plain told) noted) dstStreamID srcStreamID size extent
      (streamFrames false offset isSyn parts) := by
  induction parts generalizing extent offset isSyn with
  | nil => trivial
  | cons data rest ih =>
    rw [List.map_cons, List.sum_cons] at small
    have next : (offset + UInt64.ofNat data.length).toNat = offset.toNat + data.length :=
      toNat_offset_add (by omega)
    refine ⟨⟨⟨.data _ rfl rfl, fun sf frames fin => ?_⟩, fun sf frames => ⟨?_, ?_⟩⟩, ih ?_ ?_⟩
    · obtain rfl := Frame.stream.inj (List.singleton_inj.mp frames)
      cases fin
    · obtain rfl := Frame.stream.inj (List.singleton_inj.mp frames)
      exact start
    · obtain rfl := Frame.stream.inj (List.singleton_inj.mp frames)
      show offset.toNat + data.length < 2 ^ 64
      omega
    · rw [next, Function.update_self]
    · rw [next]
      omega

theorem reach_streamFrames {srcStreamID : UInt32} {extent : UInt32 → Nat} {offset : UInt64}
    {isSyn : Bool} {parts : List (List UInt8)} (start : offset.toNat = extent srcStreamID)
    (small : offset.toNat + (parts.map List.length).sum < 2 ^ 64) :
    reach srcStreamID extent (streamFrames false offset isSyn parts) =
      Function.update extent srcStreamID (offset.toNat + (parts.map List.length).sum) := by
  induction parts generalizing extent offset isSyn with
  | nil =>
    show extent = Function.update extent srcStreamID (offset.toNat + 0)
    rw [Nat.add_zero, start, Function.update_eq_self]
  | cons data rest ih =>
    rw [List.map_cons, List.sum_cons] at small ⊢
    have next : (offset + UInt64.ofNat data.length).toNat = offset.toNat + data.length :=
      toNat_offset_add (by omega)
    show reach srcStreamID (Function.update extent srcStreamID (offset.toNat + data.length)) _ = _
    rw [ih, Function.update_idem, next, Nat.add_assoc]
    · rw [next, Function.update_self]
    · rw [next]
      omega

theorem Turn.after (turn : Turn ends told noted d c') (pm : d.pm = c.pm)
    (queue : d.lostQueue = c.lostQueue) (wire : d.wire = c.wire)
    (inflight : d.cc.inflight = c.cc.inflight) (streams : d.streams = c.streams) :
    Turn ends told noted c c' := by
  obtain ⟨debt, simulated⟩ := turn.simulated
  have first : Simulated (.exchange ends (Packet.Plain told) noted) c { extent := c.written }
      d { extent := c.written } := .aside pm queue wire inflight
  rw [written_congr streams] at simulated
  have next : c.pm.nextSeq ≤ c'.pm.nextSeq := pm ▸ turn.next
  exact ⟨⟨debt, first.trans turn.next simulated⟩, next, turn.bounded, turn.records⟩

theorem Own.after (own : Own ends told noted d c') (pm : d.pm = c.pm)
    (queue : d.lostQueue = c.lostQueue) (wire : d.wire = c.wire)
    (inflight : d.cc.inflight = c.cc.inflight) (streams : d.streams = c.streams) :
    Own ends told noted c c' :=
  ⟨own.toTurn.after pm queue wire inflight streams, own.table.congr streams⟩

/-- What it takes for a turn to be taken. -/
structure Ready (told : List UInt32) (c : Connection F) : Prop where
  keyed : c.Keyed
  bounded : c.Bounded
  records : c.Records told

variable {now} (ready : c.Ready told)

include ready

theorem Ready.steady {debt : Int} (simulated : Simulated (.exchange ends (Packet.Plain told) noted) c
      { extent := c.written } c' { extent := c.written, debt := debt })
    (table : Stocks ends c c'.streams) (written : c'.written = c.written)
    (next : c.pm.nextSeq ≤ c'.pm.nextSeq) (records : c'.Records told) :
    Own ends told noted c c' := by
  refine ⟨⟨⟨debt, ?_⟩, next, ready.bounded.congr written next, records⟩, table⟩
  rw [written]
  exact simulated

theorem Ready.sends {labels : List (UInt32 × UInt32)} {debt : Int} (keeps : Keeps labels c c')
    (simulated : Simulated (.exchange ends (Packet.Plain told) noted) c
      { extent := c.written } c' { extent := c.written, debt := debt }) :
    Own ends told noted c c' := by
  have streams : c'.streams = c.streams := congrArg Endpoint.streams keeps.endpoint
  refine ready.steady simulated ?_ (written_congr streams) keeps.next
    (keeps.records ready.records)
  rw [streams]
  exact .same

theorem Ready.aside (pm : c'.pm = c.pm) (queue : c'.lostQueue = c.lostQueue)
    (wire : c'.wire = c.wire) (inflight : c'.cc.inflight = c.cc.inflight)
    (streams : c'.streams = c.streams) (records : c'.Records told) :
    Own ends told noted c c' := by
  refine ready.steady (.aside pm queue wire inflight) ?_ (written_congr streams)
    (Nat.le_of_eq (congrArg PacketManager.nextSeq pm).symm) records
  rw [streams]
  exact .same

theorem Ready.plain (now : Time) {f : Frame} (plain : f.Plain told)
    (dstStreamID srcStreamID : UInt32) :
    Own ends told noted c (c.sendPacket now dstStreamID srcStreamID [f]) := by
  have sends : Sends [(srcStreamID, dstStreamID)] c
      (c.sendPacket now dstStreamID srcStreamID [f]) :=
    sends_sendPacket now dstStreamID srcStreamID [f] fun _ => List.mem_singleton_self _
  exact ready.sends sends.toKeeps (simulated_plain now plain dstStreamID srcStreamID)

theorem Ready.replaced {labels : List (UInt32 × UInt32)} {s t : Stream}
    (found : c.streams.lookup s.id = some s) (steady : s.Steady ends t)
    (sends : Sends labels (c.setStream t) c')
    (sent : Simulated (.exchange ends (Packet.Plain told) noted) c { extent := c.written }
      c' { extent := c.written }) : Own ends told noted c c' := by
  have id : t.id = s.id := congrArg Prod.fst steady.ids
  have streams : c'.streams = c.streams.insert t.id t := congrArg Endpoint.streams sends.endpoint
  rw [← id] at found
  refine ready.steady sent ?_ ?_ sends.next
    (sends.toKeeps.records (ready.records.congr rfl rfl))
  · rw [streams]
    exact .set s t found steady.toRetains steady.unended
  · exact written_set streams (steady.written.trans (written_of_found found).symm)

theorem Ready.stream {s t : Stream} (found : c.streams.lookup s.id = some s)
    (steady : s.Steady ends t) {frames : List Frame} (plain : ∀ f ∈ frames, f.Plain told) :
    Own ends told noted c ((c.setStream t).sendFor now t frames) :=
  ready.replaced found steady (sends_sendFor now t frames) (simulated_setStream_sendFor now t plain)

theorem Ready.closeStream {id : UInt32} (allowed : ∀ offset ∈ c.ending id, ends id offset)
    (called : c.closeStream now id = some c') (room : c'.pm.nextSeq ≤ 2 ^ 32) :
    Own ends told noted c c' := by
  obtain ⟨s, found, rfl⟩ := callStream_eq_some now called
  rw [Connection.ending, found, ← ready.keyed.id_eq found] at allowed
  rw [← ready.keyed.id_eq found] at found
  have steady := s.steady_close allowed
  by_cases over' : s.state = .closed ∨ s.state = .reset
  · have none : s.close.2 = [] := by rw [Stream.close, if_pos over']
    rw [none]
    exact ready.stream found steady (List.forall_mem_nil _)
  · let fin : StreamFrame := ⟨true, false, UInt64.ofNat s.bytesWritten, []⟩
    have frames : s.close.2 = [.stream fin] := by rw [Stream.close, if_neg over']
    rw [frames] at room ⊢
    have id : s.close.1.id = s.id := congrArg Prod.fst steady.ids
    generalize s.close.1 = t at steady id room ⊢
    have sends : Sends [t.ids] (c.setStream t) ((c.setStream t).sendFor now t [.stream fin]) :=
      sends_sendFor now t _
    have extent : c.written t.id = s.bytesWritten := by
      rw [id]
      exact written_of_found found
    have start : fin.offset.toNat = c.written t.id := by
      have small := ready.bounded.small (Nat.le_trans sends.next room) t.id
      rw [extent] at small ⊢
      exact UInt64.toNat_ofNat_of_lt' small
    have last : ends t.id fin.offset.toNat := by
      rw [start, extent, id]
      exact allowed _ (if_neg over')
    have sent : Simulated (.exchange ends (Packet.Plain told) noted) (c.setStream t)
        { extent := c.written } ((c.setStream t).sendPacket now t.remoteID t.id [.stream fin])
        { extent := c.written } :=
      simulated_bare now t.remoteID t.id rfl rfl (fun _ => last) start
    have aside : Simulated (.exchange ends (Packet.Plain told) noted) c { extent := c.written }
        (c.setStream t) { extent := c.written } := .aside rfl rfl rfl rfl
    exact ready.replaced found steady sends (aside.trans sends.next sent)

variable [Float64 F]

omit ready in
theorem nextSeq_sendStreamFrames (now : Time) (streamID remoteID : UInt32) (offset : UInt64)
    (data : List UInt8) (chunkSize : Nat) (isSyn : Bool) :
    (c.sendStreamFrames now streamID remoteID offset data chunkSize isSyn).pm.nextSeq =
      c.pm.nextSeq + (Chunks.chunks chunkSize data).length := by
  let frames := streamFrames false offset isSyn (Chunks.chunks chunkSize data)
  have emits : Emits remoteID streamID frames c _ _ := emits_batch now c frames
  have count : frames.length = (Chunks.chunks chunkSize data).length := by
    rw [← List.length_map StreamFrame.data, map_data_streamFrames]
  rw [← count]
  exact emits.numbers

omit [Float64 F] ready in
theorem length_le_chunks {chunkSize : Nat} (positive : 0 < chunkSize)
    (top : chunkSize ≤ maxDatagramSize) (data : List UInt8) :
    data.length ≤ maxDatagramSize * (Chunks.chunks chunkSize data).length := by
  have short : (Chunks.chunks chunkSize data).flatten.length ≤
      (Chunks.chunks chunkSize data).length * chunkSize :=
    Chunks.length_le_sum fun part member => (Chunks.length_of_mem_chunks positive member).2
  rw [Chunks.flatten_chunks positive] at short
  rw [Nat.mul_comm]
  exact short.trans (Nat.mul_le_mul_left _ top)

/-- Data of a stream goes out where its data ends, and moves the end. -/
theorem Ready.sendStreamFrames {s t : Stream} {data : List UInt8} {chunkSize : Nat} {isSyn : Bool}
    (found : c.streams.lookup s.id = some s) (retains : s.Retains t)
    (unended : s.Unended → t.Unended) (positive : 0 < chunkSize)
    (top : chunkSize ≤ maxDatagramSize) (grown : t.bytesWritten = s.bytesWritten + data.length)
    (room : ((c.setStream t).sendStreamFrames now t.id t.remoteID (UInt64.ofNat s.bytesWritten)
      data chunkSize isSyn).pm.nextSeq ≤ 2 ^ 32) :
    Own ends told noted c ((c.setStream t).sendStreamFrames now t.id t.remoteID
      (UInt64.ofNat s.bytesWritten) data chunkSize isSyn) := by
  let set := c.setStream t
  let parts := Chunks.chunks chunkSize data
  let after := set.sendStreamFrames now t.id t.remoteID (UInt64.ofNat s.bytesWritten) data
    chunkSize isSyn
  have id : t.id = s.id := congrArg Prod.fst retains.ids
  rw [← id] at found
  have extent : c.written t.id = s.bytesWritten := written_of_found found
  have sum : (parts.map List.length).sum = data.length := sum_length_chunks positive data
  have next : after.pm.nextSeq = c.pm.nextSeq + parts.length :=
    nextSeq_sendStreamFrames now t.id t.remoteID _ data chunkSize isSyn
  have sends : Sends [(t.id, t.remoteID)] set after :=
    sends_sendStreamFrames now t.remoteID t.id _ data chunkSize isSyn
  have total : s.bytesWritten + data.length ≤ maxDatagramSize * after.pm.nextSeq := by
    have before := ready.bounded t.id
    have most : data.length ≤ maxDatagramSize * parts.length := length_le_chunks positive top data
    rw [extent] at before
    rw [next, Nat.mul_add]
    omega
  have small : s.bytesWritten + data.length < 2 ^ 64 := by
    rw [maxDatagramSize] at total
    have few : after.pm.nextSeq ≤ 2 ^ 32 := room
    omega
  have offset : (UInt64.ofNat s.bytesWritten).toNat = s.bytesWritten :=
    UInt64.toNat_ofNat_of_lt' (Nat.lt_of_le_of_lt (Nat.le_add_right _ _) small)
  have streams : after.streams = c.streams.insert t.id t :=
    congrArg Endpoint.streams sends.endpoint
  have written := written_insert streams
  have here : (UInt64.ofNat s.bytesWritten).toNat = c.written t.id := offset.trans extent.symm
  have fits : (UInt64.ofNat s.bytesWritten).toNat + (parts.map List.length).sum < 2 ^ 64 := by
    rw [offset, sum]
    exact small
  have sent : Simulated (.exchange ends (Packet.Plain told) noted) set { extent := c.written } after
      { extent := reach t.id c.written
          (streamFrames false (UInt64.ofNat s.bytesWritten) isSyn parts) } :=
    simulated_sendStreamFrames now t.remoteID t.id _ data chunkSize isSyn
      (sendable_streamFrames here fits)
  rw [reach_streamFrames here fits, offset, sum, ← grown, ← written] at sent
  have replaced : Simulated (.exchange ends (Packet.Plain told) noted) c { extent := c.written }
      set { extent := c.written } := .aside rfl rfl rfl rfl
  refine ⟨⟨⟨0, replaced.trans sends.next sent⟩, sends.next, fun other => ?_,
    sends.toKeeps.records (ready.records.congr rfl rfl)⟩, ?_⟩
  · show after.written other ≤ maxDatagramSize * after.pm.nextSeq
    rw [written, Function.update_apply]
    split
    · rw [grown]
      exact total
    · exact (ready.bounded other).trans (Nat.mul_le_mul_left _ sends.next)
  · rw [streams]
    exact .set s t found retains fun _ => unended

theorem Ready.writeBatch {id : UInt32} {entering : Bool} {data : List UInt8}
    {out : Connection F × Nat} (written : c.writeBatch now id entering data = some out)
    (room : out.1.pm.nextSeq ≤ 2 ^ 32) : Own ends told noted c out.1 := by
  obtain ⟨s, ask, granted, t, batch, found, asked, admitted, committed, rfl⟩ :=
    writeBatch_eq_some now written
  obtain ⟨chunk, positive, enough⟩ := batch_spec now asked admitted committed
  obtain ⟨retains, unended⟩ := s.retains_writeCommit committed
  obtain ⟨-, -, shape, after⟩ := s.writeCommit_eq_some committed
  have start : batch.offset = s.bytesWritten := congrArg Stream.Batch.offset shape
  have top : ask.chunkSize ≤ maxDatagramSize := by
    have top := c.mtu.top
    rw [chunk, Stream.chunkSizeLocked]
    omega
  have grown : t.bytesWritten = s.bytesWritten + (data.take batch.granted).length := by
    rw [List.length_take, Nat.min_eq_left enough]
    exact congrArg Stream.bytesWritten after
  rw [← ready.keyed.id_eq found] at found
  rw [start] at room ⊢
  exact ready.sendStreamFrames found retains unended positive top grown room

omit [Float64 F] ready in
theorem plain_ack (recvd : c.recvd.Represents told) (any : told ≠ []) :
    (Frame.ack (c.takeAckLocked now).2).Plain told := by
  intro n member
  exact ((recvd.mem_sequences_frame_iff (recvd.any.mpr any) _ n).mp member).arrived

omit [Float64 F] in
theorem Ready.acknowledge (any : told ≠ []) (dstStreamID srcStreamID : UInt32) :
    Own ends told noted c (c.acknowledge now dstStreamID srcStreamID) := by
  have cleared : (c.takeAckLocked now).1.Ready told :=
    ⟨ready.keyed, ready.bounded.congr rfl (Nat.le_refl _), ready.records.recvd,
      fun pending => absurd rfl pending⟩
  have sent : Own ends told noted (c.takeAckLocked now).1
      (c.acknowledge now dstStreamID srcStreamID) :=
    cleared.plain now (plain_ack ready.records.recvd any) dstStreamID srcStreamID
  exact sent.after rfl rfl rfl rfl rfl

omit [Float64 F] in
theorem Ready.ackTimerFired (srcStreamID dstStreamID : UInt32) :
    Own ends told noted c (c.ackTimerFired now srcStreamID dstStreamID) := by
  unfold Connection.ackTimerFired
  dsimp only
  split
  · exact ready.aside rfl rfl rfl rfl rfl (ready.records.congr rfl rfl)
  · rename_i pending
    let stopped : Connection F := { c with ackTimer := none }
    have still : stopped.Ready told :=
      ⟨ready.keyed, ready.bounded.congr rfl (Nat.le_refl _), ready.records.congr rfl rfl⟩
    have sent : Own ends told noted stopped (stopped.acknowledge now srcStreamID dstStreamID) :=
      still.acknowledge (ready.records.pending pending) srcStreamID dstStreamID
    exact sent.after rfl rfl rfl rfl rfl

theorem Ready.onPtoTimeout (room : (c.onPtoTimeout now).pm.nextSeq ≤ 2 ^ 32)
    (custody : c.Custody { extent := c.written }) :
    Own ends told noted c (c.onPtoTimeout now) := by
  obtain ⟨debt, simulated, -⟩ := onPtoTimeout_spec
    (r := .exchange ends (Packet.Plain told) noted) now room custody
  exact ready.sends (sends_onPtoTimeout now).toKeeps fun _ _ => simulated

omit [Float64 F] in
theorem Ready.openStream (absent : c.nextStreamID ∉ c.streams) :
    Own ends told noted c c.openStream.1 := by
  unfold Connection.openStream
  split
  · exact ready.aside rfl rfl rfl rfl rfl ready.records
  · split
    · exact ready.aside rfl rfl rfl rfl rfl ready.records
    · let t := newStream c.nextStreamID 0 initialFC
      let entered : Connection F := { c with nextStreamID := c.nextStreamID + 2 }.setStream t
      have missing : c.streams.lookup t.id = none := AList.lookup_eq_none.mpr absent
      have table : entered.streams = c.streams.insert t.id t := rfl
      have simulated : Simulated (.exchange ends (Packet.Plain told) noted) c
          { extent := c.written } entered { extent := c.written } := .aside rfl rfl rfl rfl
      refine ready.steady simulated ?_ (written_set table (written_of_absent missing).symm)
        (Nat.le_refl _) (ready.records.congr rfl rfl)
      exact .new t missing ⟨⟨rfl, .inl rfl⟩, rfl, rfl, rfl⟩

omit [Float64 F] in
theorem Ready.writeBlocked {id : UInt32} (blocked : c.writeBlocked now id = some c') :
    Own ends told noted c c' := by
  obtain ⟨s, -, -, rfl⟩ := writeBlocked_eq_some now blocked
  exact ready.plain now (f := .streamDataBlocked s.id _) trivial s.remoteID s.id

omit [Float64 F] in
theorem Ready.read {id : UInt32} {size : Nat} {expired : Bool} {out : Connection F × ReadResult}
    (read : c.read now id size expired = some out) : Own ends told noted c out.1 := by
  obtain ⟨s, found, rfl⟩ := read_eq_some now read
  rw [← ready.keyed.id_eq found] at found
  exact ready.stream found (s.steady_read size expired) (s.plain_read size expired)

omit [Float64 F] in
theorem Ready.resetStream {id code : UInt32} (called : c.resetStream now id code = some c') :
    Own ends told noted c c' := by
  obtain ⟨s, found, rfl⟩ := callStream_eq_some now called
  rw [← ready.keyed.id_eq found] at found
  exact ready.stream found (s.steady_reset code) (s.plain_reset code)

omit [Float64 F] in
theorem Ready.sendControlTo {frames : List Frame} (plain : (c.packet 0 0 0 frames).Plain told)
    (addr : Addr) : Own ends told noted c (c.sendControlTo frames addr) := by
  have simulated : Simulated (.exchange ends (Packet.Plain told) noted) c
      { extent := c.written } (c.sendControlTo frames addr) { extent := c.written } :=
    .move rfl rfl rfl fun _ => .control _ (c.packet 0 0 0 frames) plain
  exact ready.steady simulated .same (written_congr rfl) (Nat.le_refl _)
    (ready.records.congr rfl rfl)

omit [Float64 F] in
theorem Ready.observeAddr (addr : Option Addr) (challenge : Option (Vector UInt8 8)) :
    Own ends told noted c (c.observeAddr now addr challenge).1 := by
  unfold Connection.observeAddr
  repeat' split
  all_goals exact ready.aside rfl rfl rfl rfl rfl (ready.records.congr rfl rfl)

omit [Float64 F] in
theorem Ready.finishPathMigration {newAddr : Addr} {challenge : Vector UInt8 8}
    (finished : c.finishPathMigration newAddr challenge = some c') :
    Own ends told noted c c' := by
  obtain ⟨resp, -, rfl⟩ := finishPathMigration_eq_some finished
  split <;> exact ready.aside rfl rfl rfl rfl rfl (ready.records.congr rfl rfl)

omit [Float64 F] in
theorem Ready.onStream {pkt : Packet} {op : Stream → Stream × List Frame}
    (steady : ∀ s : Stream, s.Steady ends (op s).1) (plain : ∀ s, ∀ f ∈ (op s).2, f.Plain told) :
    Own ends told noted c (c.onStream now pkt op) := by
  unfold Connection.onStream
  split
  · exact ready.aside rfl rfl rfl rfl rfl ready.records
  · rename_i s found
    exact ready.stream (ready.keyed.lookup_of_findStream found) (steady s) (plain s)

theorem Ready.handleAckFrame {f : AckFrame} (opened : c.state ≠ .closed)
    (honest : ∀ n ∈ f.sequences, n ∈ noted) :
    Own ends told noted c (c.handleAckFrame now f) := by
  refine ready.sends (keeps_handleAckFrame now f)
    (simulated_handleAckFrame now f opened (Int.le_refl 0) honest fun extent x padding probe frames => ?_)
  have none (sf : StreamFrame) : x.frames ≠ [.stream sf] := by
    rw [frames]
    intro same
    cases same
  exact ⟨⟨.probe padding probe frames, fun sf same => absurd same (none sf)⟩,
    fun sf same => absurd same (none sf)⟩

theorem Ready.handleFrame {pkt : Packet} {f : Frame} (plain : f.Plain noted)
    (opened : c.state ≠ .closed) (still : (c.handleFrame now pkt f).state ≠ .closed) :
    Own ends told noted c (c.handleFrame now pkt f) := by
  cases f with
  | stream | maxStreams => exact plain.elim
  | ack f => exact ready.handleAckFrame opened plain
  | windowUpdate | resetStream =>
    refine ready.onStream (fun s => ?_) fun s => List.forall_mem_nil _
    first
      | exact s.steady_streamFC _
      | exact s.steady_deliverReset _
  | maxData limit =>
    have raised (fc : FlowController) : Own ends told noted c { c with fc := fc } :=
      ready.aside rfl rfl rfl rfl rfl (ready.records.congr rfl rfl)
    exact raised _
  | connectionClose => exact absurd (state_closeInternal c now errorNoError [] true) still
  | pathChallenge data => exact ready.plain now (f := .pathResponse data) trivial 0 0
  | pathResponse data =>
    simp only [Connection.handleFrame, completeMigration]
    cases c.pendingAddr with
    | none => exact ready.aside rfl rfl rfl rfl rfl (ready.records.congr rfl rfl)
    | some addr =>
      dsimp only
      by_cases answers : data ≠ c.pendingChallenge
      · rw [if_pos answers]
        exact ready.aside rfl rfl rfl rfl rfl (ready.records.congr rfl rfl)
      · rw [if_neg answers]
        exact ready.aside rfl rfl rfl rfl rfl (ready.records.congr rfl rfl)
  | stopSending _ code => exact ready.onStream (fun s => s.steady_reset code) fun s => s.plain_reset code
  | dataBlocked => exact ready.plain now (f := .maxData _) trivial 0 0
  | streamDataBlocked =>
    exact ready.onStream (fun s => s.steady_streamFC _) fun s => List.forall_mem_singleton.mpr trivial
  | padding | ping | mtuProbe | newConnectionID | retireConnectionID =>
    exact ready.aside rfl rfl rfl rfl rfl ready.records

omit [Float64 F] in
theorem Ready.deliver {s : Stream} {f : StreamFrame}
    (aside : Simulated (.exchange ends (Packet.Plain told) noted) c { extent := c.written } d
      { extent := c.written })
    (next : d.pm.nextSeq = c.pm.nextSeq) (records : d.Records told)
    (written : s.bytesWritten = c.written s.id)
    (table : ∀ t : Stream, d.streams.insert s.id t = c.streams.insert s.id t) :
    Turn ends told noted c (d.deliver now s f) ∧
      (d.deliver now s f).streams = c.streams.insert s.id (s.receive f).1 := by
  let t := (s.receive f).1
  have id : t.id = s.id := congrArg Prod.fst (s.ids_receive f)
  have sends : Sends [t.ids] (d.setStream t) (d.deliver now s f) :=
    sends_sendFor now t (s.receive f).2
  have streams : (d.deliver now s f).streams = c.streams.insert s.id t := by
    refine (congrArg Endpoint.streams sends.endpoint).trans ?_
    show d.streams.insert t.id t = _
    rw [id]
    exact table t
  have still : (d.deliver now s f).written = c.written := by
    have same : t.bytesWritten = c.written t.id := by
      rw [id]
      exact (s.bytesWritten_receive f).trans written
    rw [← id] at streams
    exact written_set streams same
  have later : c.pm.nextSeq ≤ (d.deliver now s f).pm.nextSeq := next ▸ sends.next
  refine ⟨⟨⟨0, ?_⟩, later, ready.bounded.congr still later,
    sends.toKeeps.records (records.congr rfl rfl)⟩, streams⟩
  rw [still]
  exact aside.trans sends.next (simulated_setStream_sendFor now t (s.plain_receive f))

omit [Float64 F] in
/-- A STREAM frame goes to its stream, which may be new. -/
theorem Ready.handleStreamFrame {pkt : Packet} {f : StreamFrame}
    (absent : c.nextStreamID ∉ c.streams) :
    Turn ends told noted c (c.handleStreamFrame now pkt f) ∧
      c.Receives pkt f (c.handleStreamFrame now pkt f).streams := by
  rw [handleStreamFrame_eq, streamFor]
  cases found : c.findStream pkt.destinationStreamID pkt.sourceStreamID with
  | some s =>
    have here := ready.keyed.lookup_of_findStream found
    have taken : Turn ends told noted c (c.deliver now s f) ∧
        (c.deliver now s f).streams = c.streams.insert s.id (s.receive f).1 :=
      ready.deliver (.aside rfl rfl rfl rfl) rfl ready.records (written_of_found here).symm
        fun t => rfl
    refine ⟨taken.1, ?_⟩
    dsimp only
    rw [taken.2]
    exact .found s found
  | none =>
    by_cases opens : pkt.sourceStreamID ≠ 0 ∧ (f.isSyn = true ∨ f.data.length > 0)
    · rw [if_pos opens]
      let s : Stream :=
        { newStream c.nextStreamID pkt.sourceStreamID initialFC with state := .opened }
      let queue := if c.incomingStreams.length < 16 then c.incomingStreams ++ [c.nextStreamID]
        else c.incomingStreams
      let entered : Connection F :=
        { c with
          nextStreamID := c.nextStreamID + 2, streams := c.streams.insert s.id s
          incomingStreams := queue }
      have missing : c.streams.lookup s.id = none := AList.lookup_eq_none.mpr absent
      have taken : Turn ends told noted c (entered.deliver now s f) ∧
          (entered.deliver now s f).streams = c.streams.insert s.id (s.receive f).1 :=
        ready.deliver (.aside rfl rfl rfl rfl) rfl (ready.records.congr rfl rfl)
          (written_of_absent missing).symm fun t => AList.insert_insert _
      refine ⟨taken.1, ?_⟩
      show c.Receives pkt f (entered.deliver now s f).streams
      rw [taken.2]
      exact .entered s found opens.1 rfl ⟨⟨rfl, .inr (.inl rfl)⟩, rfl, rfl, rfl⟩
    · rw [if_neg opens]
      refine ⟨(ready.aside rfl rfl rfl rfl rfl ready.records).toTurn, .none found ?_⟩
      by_cases source : pkt.sourceStreamID = 0
      · exact .inl source
      · refine .inr ⟨Bool.eq_false_iff.mpr fun syn => opens ⟨source, .inl syn⟩, ?_⟩
        exact List.eq_nil_of_length_eq_zero (Nat.eq_zero_of_not_pos fun data =>
          opens ⟨source, .inr data⟩)

omit [Float64 F] in
/-- The packet is recorded, and what is recorded may be acknowledged. -/
theorem Ready.noteReceived (pkt : Packet) :
    Own ends (pkt.sequence :: told) noted c (c.noteReceived now pkt) := by
  have recorded : (c.recorded now pkt).Ready (pkt.sequence :: told) :=
    ⟨ready.keyed, ready.bounded.congr rfl (Nat.le_refl _), ready.records.recvd.add pkt.sequence,
      fun _ => List.cons_ne_nil _ _⟩
  have later : Own ends (pkt.sequence :: told) noted (c.recorded now pkt)
      (c.noteReceived now pkt) := by
    have ways := c.noted_noteReceived now pkt
    generalize c.noteReceived now pkt = c' at ways ⊢
    cases ways with
    | now => exact recorded.acknowledge (List.cons_ne_nil _ _) _ _
    | armed => exact recorded.aside rfl rfl rfl rfl rfl (recorded.records.congr rfl rfl)
    | waits => exact recorded.aside rfl rfl rfl rfl rfl recorded.records
  exact later.after rfl rfl rfl rfl rfl

end

end Connection

/-- A step that is not part of handling a packet. -/
def Host.Input.own : Host.Input → Bool
  | .arrive .. | .frame .. | .note .. => false
  | _ => true

def Host.Input.closes : Host.Input → Bool
  | .closeStream .. => true
  | _ => false

/-- Where the step ends the stream `id`, if it does. -/
def Host.Input.ending {F : Type} (c : Connection F) (id : UInt32) : Host.Input → Option Nat
  | .closeStream _ other => if other = id then c.ending id else none
  | _ => none

namespace Host

open Connection

variable {F : Type} [Float64 F] {h h' : Host F} {input : Input}

theorem own_step (ready : h.conn.Ready told) (own : input.own = true)
    (allowed : ∀ id, ∀ offset ∈ input.ending h.conn id, ends id offset)
    (absent : h.conn.nextStreamID ∉ h.conn.streams)
    (custody : h.conn.Custody { extent := h.conn.written })
    (opened : h.conn.state ≠ .closed) (still : h'.conn.state ≠ .closed)
    (room : h'.conn.pm.nextSeq ≤ 2 ^ 32) (taken : h.step input = some h') :
    Own ends told noted h.conn h'.conn := by
  cases input with
  | arrive | frame | note => cases own
  | observeAddr now addr challenge =>
    obtain rfl := Option.some.inj taken
    exact ready.observeAddr addr challenge
  | sendChallenge i =>
    simp only [step, Option.bind_eq_bind, Option.bind_eq_some_iff] at taken
    obtain ⟨⟨challenge, addr⟩, -, out⟩ := taken
    obtain rfl := Option.some.inj out
    exact ready.sendControlTo (plain_packet (f := .pathChallenge challenge) trivial h.conn 0 0) addr
  | ackTimer now src dst =>
    obtain rfl := Option.some.inj taken
    exact ready.ackTimerFired src dst
  | lossTimer now =>
    obtain rfl := Option.some.inj taken
    exact ready.sends (keeps_onLossTimer now) (simulated_onLossTimer now opened (Int.le_refl 0))
  | pto now =>
    obtain rfl := Option.some.inj taken
    exact ready.onPtoTimeout room custody
  | flushLost now =>
    obtain rfl := Option.some.inj taken
    exact ready.sends (sends_flushLost now).toKeeps (simulated_flushLost now opened)
  | idleCheck now =>
    obtain rfl := Option.some.inj taken
    have idle : h.conn.onIdleCheck now = h.conn := by
      unfold Connection.onIdleCheck
      by_cases expired : h.conn.idleExpired now = true
      · refine absurd ?_ still
        show (h.conn.onIdleCheck now).state = .closed
        rw [Connection.onIdleCheck, if_pos expired]
        exact state_closeInternal _ now _ _ _
      · rw [if_neg expired]
    show Own ends told noted h.conn (h.conn.onIdleCheck now)
    rw [idle]
    exact ready.aside rfl rfl rfl rfl rfl ready.records
  | openStream =>
    obtain rfl := Option.some.inj taken
    exact ready.openStream absent
  | acceptStream =>
    obtain ⟨out, accepted, rfl⟩ := Option.map_eq_some_iff.mp taken
    obtain ⟨id, rest, -, rfl⟩ := acceptStream_eq_some accepted
    exact ready.aside rfl rfl rfl rfl rfl (ready.records.congr rfl rfl)
  | write now id entering data =>
    obtain ⟨out, written, rfl⟩ := Option.map_eq_some_iff.mp taken
    exact ready.writeBatch written room
  | writeBlocked now id =>
    obtain ⟨c, blocked, rfl⟩ := Option.map_eq_some_iff.mp taken
    exact ready.writeBlocked blocked
  | read now id size expired =>
    obtain ⟨out, read, rfl⟩ := Option.map_eq_some_iff.mp taken
    exact ready.read read
  | closeStream now id =>
    obtain ⟨c, called, rfl⟩ := Option.map_eq_some_iff.mp taken
    refine ready.closeStream (fun offset member => allowed id offset ?_) called room
    rw [Input.ending, if_pos rfl]
    exact member
  | resetStream now id code =>
    obtain ⟨c, called, rfl⟩ := Option.map_eq_some_iff.mp taken
    exact ready.resetStream called
  | ping now =>
    obtain rfl := Option.some.inj taken
    exact ready.plain now (f := .ping) trivial 0 0
  | close now code reason =>
    obtain rfl := Option.some.inj taken
    exact absurd (state_closeInternal _ now code reason true) still
  | migrate now newAddr challenge =>
    obtain rfl := Option.some.inj taken
    exact ready.plain now (f := .pathChallenge challenge) trivial 0 0
  | answer i =>
    simp only [step, Option.bind_eq_bind, Option.bind_eq_some_iff] at taken
    obtain ⟨_, -, c, finished, out⟩ := taken
    obtain rfl := Option.some.inj out
    exact ready.finishPathMigration finished
  | giveUp i =>
    obtain rfl := Option.some.inj taken
    exact ready.aside rfl rfl rfl rfl rfl ready.records

end Host

end Udx
