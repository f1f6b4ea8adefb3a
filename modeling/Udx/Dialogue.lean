import Udx.Exchange
import Udx.Routing

set_option autoImplicit false

/- Both sides of an exchange. Each acknowledges only what it has noted of the
other's packets, and sends what it may. -/

namespace Udx

/-- What has been noted once the packet is handled. -/
def Packet.noting (pkt : Packet) (told : List UInt32) : List UInt32 :=
  if pkt.elicits then pkt.sequence :: told else told

theorem Packet.mem_noting {pkt : Packet} {told : List UInt32} {n : UInt32} :
    n ∈ pkt.noting told ↔ n ∈ told ∨ pkt.elicits = true ∧ n = pkt.sequence := by
  unfold noting
  split
  · rename_i elicits
    rw [List.mem_cons, or_comm, and_iff_right elicits]
  · rename_i quiet
    rw [or_iff_left fun noted => quiet noted.1]

theorem Flight.Shaped.maxStreams_not_mem {f : Flight} {ends : Stream.Endings} {told : List UInt32}
    (shaped : f.Shaped (Cargo.Formed ends) (Packet.Plain told)) {pkt : Packet} (sent : pkt ∈ f.wire)
    (count : UInt32) : .maxStreams count ∉ pkt.frames := by
  intro member
  rcases shaped.wire pkt sent with ⟨x, formed, carries⟩ | plain
  · rw [carries.frames] at member
    cases formed.1 with
    | data sf _ single | probe size _ single =>
      rw [single] at member
      cases List.mem_singleton.mp member
  · obtain ⟨g, frames, free⟩ := plain.frame
    rw [frames] at member
    obtain rfl := List.mem_singleton.mp member
    exact free

namespace Connection

variable {F : Type} {ends : Stream.Endings} {told more noted : List UInt32} {c c' d : Connection F}

/-- What the connection answers for between two steps. -/
def outbound (c : Connection F) : Flight := c.flight { extent := c.written }

theorem mem_live_iff {x : Cargo} : x ∈ c.outbound.live ↔
    (∃ e ∈ c.pm.sentPackets.entries, c.pm.cargo e.2 = x) ∨
      ∃ p ∈ c.lostQueue, c.pm.cargo p = x := by
  simp [Flight.live, outbound, flight, PacketManager.tracked]

/-- Of its packets `noted` have been noted by the peer; it may acknowledge `told`. -/
structure Afloat (ends : Stream.Endings) (told noted : List UInt32) (c : Connection F) : Prop where
  custody : c.Custody { extent := c.written }
  ofExchange : c.outbound.OfExchange ends (Packet.Plain told)
  seen : ∀ n ∈ noted, n.toNat < c.pm.nextSeq

theorem Afloat.grow (afloat : c.Afloat ends told noted) (grown : told ⊆ more) :
    c.Afloat ends more noted :=
  ⟨afloat.custody, afloat.ofExchange.relax fun _ plain => plain.mono grown, afloat.seen⟩

/-- One side of an exchange, which has noted `told` of its peer's packets. -/
structure Keeping (ends : Stream.Endings) (told noted : List UInt32) (c : Connection F) : Prop
    extends Ready told c, Afloat ends told noted c

/-- What the moves of an exchange keep was kept on the way from `c` to `c'`. -/
def Secures (ends : Stream.Endings) (told noted : List UInt32) (c c' : Connection F) : Prop :=
  ∀ Inv, Flight.Stable ends (Packet.Plain told) noted Inv → Inv c.outbound → Inv c'.outbound

theorem Secures.trans (first : Secures ends told noted c d) (second : Secures ends more noted d c')
    (grown : told ⊆ more) : Secures ends more noted c c' := fun Inv stable holds =>
  second Inv stable (first Inv (stable.restrict fun _ plain => plain.mono grown) holds)

theorem Turn.afloat (turn : Turn ends told noted c c') (room : c'.pm.nextSeq ≤ 2 ^ 32)
    (afloat : c.Afloat ends told noted) :
    c'.Afloat ends told noted ∧ Secures ends told noted c c' := by
  obtain ⟨debt, simulated⟩ := turn.simulated
  obtain ⟨custody, moves⟩ := simulated room afloat.custody
  obtain ⟨ofExchange, kept⟩ := moves.stable quiet_plain room afloat.ofExchange afloat.seen
  refine ⟨⟨custody, ofExchange.settle 0, fun n member => ?_⟩,
    fun Inv stable holds => stable.settle _ 0 (kept Inv stable holds)⟩
  exact Nat.lt_of_lt_of_le (afloat.seen n member) turn.next

theorem Keyed.insert (keyed : c.Keyed) {id : UInt32} {t : Stream} (own : t.id = id)
    (table : c'.streams = c.streams.insert id t) : c'.Keyed := by
  intro e member
  rw [table] at member
  rcases Tables.mem_of_mem_insert member with rfl | old
  · exact own
  · exact keyed e old

theorem Stocks.keyed (stocks : Stocks ends c c'.streams) (keyed : c.Keyed) : c'.Keyed := by
  generalize shape : c'.streams = table at stocks
  cases stocks with
  | same => exact fun e member => keyed e (shape ▸ member)
  | set s t => exact keyed.insert rfl shape
  | new t => exact keyed.insert rfl shape

theorem Receives.keyed {pkt : Packet} {f : StreamFrame} (receives : Receives c pkt f c'.streams)
    (keyed : c.Keyed) : c'.Keyed := by
  generalize shape : c'.streams = table at receives
  cases receives with
  | none => exact fun e member => keyed e (shape ▸ member)
  | found s | entered s => exact keyed.insert (congrArg Prod.fst (s.ids_receive f)) shape

theorem Receives.congr {pkt q : Packet} {f : StreamFrame}
    {table : AList fun _ : UInt32 => Stream} (receives : Receives d pkt f table)
    (streams : d.streams = c.streams) (next : d.nextStreamID = c.nextStreamID)
    (destination : pkt.destinationStreamID = q.destinationStreamID)
    (source : pkt.sourceStreamID = q.sourceStreamID) : Receives c q f table := by
  have find (localID remoteID : UInt32) : d.findStream localID remoteID =
      c.findStream localID remoteID := by
    unfold findStream
    rw [streams]
  cases receives with
  | none missing refused =>
    rw [streams]
    rw [find, destination, source] at missing
    rw [source] at refused
    exact .none missing refused
  | found s found =>
    rw [streams]
    rw [find, destination, source] at found
    exact .found s found
  | entered s missing nonzero ids blank =>
    rw [streams]
    rw [find, destination, source] at missing
    rw [source] at nonzero
    rw [next, source] at ids
    exact .entered s missing nonzero ids blank

/-- What an act of one side does to its table, and what it has noted after it. What
it handles of the other's packets is `brings`. -/
inductive Alters (ends : Stream.Endings) (brings : Packet → Prop) (told : List UInt32)
    (peer c : Connection F) : List UInt32 → AList (fun _ : UInt32 => Stream) → Prop
  | own {table : AList fun _ : UInt32 => Stream} (stocks : Stocks ends c table) :
    Alters ends brings told peer c told table
  | probe (pkt : Packet) (sent : pkt ∈ peer.outbound.wire) (size : Int)
    (frames : pkt.frames = [.mtuProbe size]) :
    Alters ends brings told peer c (pkt.noting told) c.streams
  | stream {table : AList fun _ : UInt32 => Stream} (pkt : Packet)
    (sent : pkt ∈ peer.outbound.wire) (brought : brings pkt) (f : StreamFrame)
    (frames : pkt.frames = [.stream f]) (receives : Receives c pkt f table) :
    Alters ends brings told peer c (pkt.noting told) table

theorem Alters.seen {brings : Packet → Prop} {peer : Connection F}
    {table : AList fun _ : UInt32 => Stream} (taken : Alters ends brings told peer c more table)
    (numbered : peer.outbound.Numbered)
    (old : ∀ n ∈ told, n.toNat < peer.pm.nextSeq) : ∀ n ∈ more, n.toNat < peer.pm.nextSeq := by
  cases taken with
  | own => exact old
  | probe pkt sent | stream pkt sent =>
    intro n member
    rcases Packet.mem_noting.mp member with before | ⟨elicits, rfl⟩
    · exact old n before
    · exact (numbered.shown pkt sent elicits).1

section

variable [Float64 F] {now : Time} {peer : Connection F} {pkt : Packet}

theorem handlePacket_single {f : Frame} (frames : pkt.frames = [f]) :
    c.handlePacket now pkt =
      if pkt.elicits then ((c.arrive now pkt).handleFrame now pkt f).noteReceived now pkt
      else (c.arrive now pkt).handleFrame now pkt f := by
  rw [AckDuty.handlePacket_of_elicits, handled, frames]
  rfl

omit [Float64 F] in
theorem Ready.arrive (ready : c.Ready told) : (c.arrive now pkt).Ready told :=
  ⟨ready.keyed, ready.bounded.congr rfl (Nat.le_refl _), ready.records.congr rfl rfl⟩

omit [Float64 F] in
theorem streams_noteReceived : (c.noteReceived now pkt).streams = c.streams := by
  have ways := c.noted_noteReceived now pkt
  generalize c.noteReceived now pkt = c' at ways ⊢
  cases ways with
  | now =>
    have sends : Sends [(pkt.destinationStreamID, pkt.sourceStreamID)]
        ((c.recorded now pkt).takeAckLocked now).1
        ((c.recorded now pkt).acknowledge now pkt.sourceStreamID pkt.destinationStreamID) :=
      sends_sendPacket now _ _ _ fun _ => List.mem_singleton_self _
    exact congrArg Endpoint.streams sends.endpoint
  | armed | waits => rfl

omit [Float64 F] in
theorem Turn.noteReceived (turn : Turn ends told noted c d) (keyed : d.Keyed)
    (room : (d.noteReceived now pkt).pm.nextSeq ≤ 2 ^ 32) (afloat : c.Afloat ends told noted) :
    (d.noteReceived now pkt).Keeping ends (pkt.sequence :: told) noted ∧
      Secures ends (pkt.sequence :: told) noted c (d.noteReceived now pkt) := by
  have grown : told ⊆ pkt.sequence :: told := List.subset_cons_self _ _
  have ready : d.Ready told := ⟨keyed, turn.bounded, turn.records⟩
  have own : Own ends (pkt.sequence :: told) noted d (d.noteReceived now pkt) :=
    ready.noteReceived pkt
  obtain ⟨between, first⟩ := turn.afloat (Nat.le_trans own.next room) afloat
  obtain ⟨last, second⟩ := own.toTurn.afloat room (between.grow grown)
  exact ⟨⟨⟨own.table.keyed keyed, own.bounded, own.records⟩, last⟩, first.trans second grown⟩

theorem Turn.handled {f : Frame} (frames : pkt.frames = [f])
    (turn : Turn ends told noted c ((c.arrive now pkt).handleFrame now pkt f))
    (keyed : ((c.arrive now pkt).handleFrame now pkt f).Keyed)
    (room : (c.handlePacket now pkt).pm.nextSeq ≤ 2 ^ 32) (afloat : c.Afloat ends told noted) :
    (c.handlePacket now pkt).Keeping ends (pkt.noting told) noted ∧
      Secures ends (pkt.noting told) noted c (c.handlePacket now pkt) ∧
      (c.handlePacket now pkt).streams = ((c.arrive now pkt).handleFrame now pkt f).streams := by
  rw [handlePacket_single frames] at room ⊢
  unfold Packet.noting
  split at room
  · rename_i elicits
    rw [if_pos elicits, if_pos elicits]
    obtain ⟨keeping, secures⟩ := turn.noteReceived keyed room afloat
    exact ⟨keeping, secures, streams_noteReceived⟩
  · rename_i quiet
    rw [if_neg quiet, if_neg quiet]
    obtain ⟨later, secures⟩ := turn.afloat room afloat
    exact ⟨⟨⟨keyed, turn.bounded, turn.records⟩, later⟩, secures, rfl⟩

/-- One side handles a packet of the other's, however long it was on the wire. -/
theorem Keeping.handlePacket {ends' : Stream.Endings} (keeping : c.Keeping ends told noted)
    (shaped : peer.outbound.Shaped (Cargo.Formed ends') (Packet.Plain noted)) {q : Packet}
    (arrived : { q with wireLen := pkt.wireLen } = pkt) (sent : q ∈ peer.outbound.wire)
    (absent : c.nextStreamID ∉ c.streams) (opened : c.state ≠ .closed)
    (still : (c.handlePacket now pkt).state ≠ .closed)
    (room : (c.handlePacket now pkt).pm.nextSeq ≤ 2 ^ 32) :
    ∃ more, (c.handlePacket now pkt).Keeping ends more noted ∧
      Secures ends more noted c (c.handlePacket now pkt) ∧
      Alters ends (fun q => { q with wireLen := pkt.wireLen } = pkt) told peer c more
        (c.handlePacket now pkt).streams := by
  have frames : pkt.frames = q.frames := by rw [← arrived]
  have same : pkt.noting told = q.noting told := by
    rw [← arrived]
    rfl
  have afloat := keeping.toAfloat
  have ready : (c.arrive now pkt).Ready told := keeping.toReady.arrive
  rcases shaped.wire q sent with ⟨x, formed, carries⟩ | plain
  · cases formed.1 with
    | data f data single =>
      have holds : q.frames = [.stream f] := carries.frames.trans single
      let d := (c.arrive now pkt).handleFrame now pkt (.stream f)
      have taken : Turn ends told noted (c.arrive now pkt) d ∧
          (c.arrive now pkt).Receives pkt f d.streams := ready.handleStreamFrame absent
      have turn : Turn ends told noted c d := taken.1.after rfl rfl rfl rfl rfl
      obtain ⟨after, secures, table⟩ :=
        turn.handled (frames.trans holds) (taken.2.keyed ready.keyed) room afloat
      rw [same] at after secures
      refine ⟨q.noting told, after, secures, ?_⟩
      rw [table]
      refine .stream q sent arrived f holds (taken.2.congr rfl rfl ?_ ?_)
      · rw [← arrived]
      · rw [← arrived]
    | probe size probe single =>
      have holds : q.frames = [.mtuProbe size] := carries.frames.trans single
      let d := (c.arrive now pkt).handleFrame now pkt (.mtuProbe size)
      have own : Own ends told noted c d :=
        keeping.toReady.aside rfl rfl rfl rfl rfl (keeping.records.congr rfl rfl)
      obtain ⟨after, secures, table⟩ :=
        own.toTurn.handled (frames.trans holds) ready.keyed room afloat
      rw [same] at after secures
      refine ⟨q.noting told, after, secures, ?_⟩
      rw [table]
      exact .probe q sent size holds
  · obtain ⟨f, holds, free⟩ := plain.frame
    have quiet : pkt.elicits = false := by
      rw [← arrived]
      exact (quiet_plain q plain).1
    have silent : pkt.noting told = told := by simp [Packet.noting, quiet]
    let d := (c.arrive now pkt).handleFrame now pkt f
    have whole : c.handlePacket now pkt = d := by
      rw [handlePacket_single (frames.trans holds), quiet]
      rfl
    rw [whole] at still
    have own : Own ends told noted c d := (ready.handleFrame free opened still).after rfl rfl rfl rfl rfl
    obtain ⟨after, secures, table⟩ := own.toTurn.handled (frames.trans holds)
      (own.table.keyed keeping.keyed) room afloat
    rw [silent] at after secures
    refine ⟨told, after, secures, ?_⟩
    rw [table]
    exact .own own.table

end

/-- The streams opened are within the limit there was at first. -/
structure Sparse (c : Connection F) : Prop where
  limit : c.maxStreams = initialMaxStreams
  opened : c.opened ≤ initialMaxStreams

theorem Sparse.restock (sparse : c.Sparse) (restocks : Restocks c c') : c'.Sparse := by
  refine ⟨restocks.limit.trans sparse.limit, ?_⟩
  rw [Connection.opened, restocks.ids.countP_eq]
  exact sparse.opened

end Connection

namespace Host

open Connection

variable {F : Type} [Float64 F] {h h' : Host F} {input : Input}

theorem Effect.sparse (effect : Effect h input h') (keyed : h.conn.Keyed)
    (absent : h.conn.nextStreamID ∉ h.conn.streams) (sparse : h.conn.Sparse)
    (other : ∀ now pkt count, input ≠ .frame now pkt (.maxStreams count)) : h'.conn.Sparse := by
  cases effect with
  | serve callers changes => exact sparse.restock (changes.restocks keyed)
  | openStream _ room =>
    have ids := ids_enter absent 0 .idle
    refine ⟨sparse.limit, ?_⟩
    have most : h.conn.opened ≤ h.conn.streams.entries.length :=
      Nat.le_trans List.countP_le_length (Nat.le_of_eq (List.length_map _))
    rw [sparse.limit] at room
    show (h.conn.enter 0 .idle).opened ≤ _
    rw [Connection.opened, ids, List.countP_cons]
    show h.conn.opened + 1 ≤ _
    omega
  | enter now pkt f missing source opens changes =>
    have ids := ids_enter absent pkt.sourceStreamID .opened
    have entered : (h.conn.enter pkt.sourceStreamID .opened).Sparse := by
      refine ⟨sparse.limit, ?_⟩
      rw [Connection.opened, ids, List.countP_cons_of_neg (by simpa using source)]
      exact sparse.opened
    exact entered.restock (changes.restocks (keyed.enter pkt.sourceStreamID .opened))
  | raise now pkt count => exact absurd rfl (other now pkt count)
  | close now code reason announce =>
    exact sparse.restock (restocks_closeInternal keyed now code reason announce)
  | ack now pkt f => exact sparse.restock ((keeps_handleAckFrame now f).restocks keyed)
  | challenge => exact sparse.restock (restocks_sendControlTo keyed _ _)
  | arrive | move | respond | pend | reject | finish => exact ⟨sparse.limit, sparse.opened⟩

end Host

/-- A step of an exchange. A packet is handled at one go. -/
inductive Net.Act where
  | handlePacket (now : Time) (pkt : Packet)
  | own (input : Host.Input)

namespace Net.Act

def closes : Net.Act → Bool
  | .handlePacket .. => false
  | .own input => input.closes

def ending {F : Type} (c : Connection F) (id : UInt32) : Net.Act → Option Nat
  | .handlePacket .. => none
  | .own input => input.ending c id

theorem ending_of_open {F : Type} {c : Connection F} {id : UInt32} (act : Net.Act)
    (ongoing : act.closes = false) : act.ending c id = none := by
  cases act with
  | handlePacket => rfl
  | own input =>
    cases input with
    | closeStream => cases ongoing
    | _ => rfl

/-- The packet is handled, whatever its length was counted as on arrival. -/
def Brings : Net.Act → Packet → Prop
  | .handlePacket _ pkt, sent => { sent with wireLen := pkt.wireLen } = pkt
  | .own _, _ => False

end Net.Act

namespace Net

open Connection

variable {F : Type} [Float64 F] {n n' : Net F} {side : Side}

def act (n : Net F) : Side × Act → Option (Net F)
  | (side, .handlePacket now pkt) => Runs.run step n ((Host.packet now pkt).map (side, ·))
  | (side, .own input) => if input.own then n.step (side, input) else none

/-- What an act is made of. -/
def turnsOf : Side × Act → List (Side × Host.Input)
  | (side, .handlePacket now pkt) => (Host.packet now pkt).map (side, ·)
  | (side, .own input) => [(side, input)]

/-- The turns of the acts of a run. -/
def played (acts : List (Side × Act)) : List (Side × Host.Input) := acts.flatMap turnsOf

theorem run_side {inputs : List Host.Input} (reached : Runs.run step n (inputs.map (side, ·)) = some n') :
    Runs.run Host.step (n.host side) inputs = some (n'.host side) ∧
      n'.host side.other = n.host side.other := by
  induction inputs generalizing n with
  | nil =>
    obtain rfl := Option.some.inj reached
    exact ⟨rfl, rfl⟩
  | cons input rest ih =>
    rw [List.map_cons, Runs.run_cons] at reached
    obtain ⟨mid, taken, later⟩ := Option.bind_eq_some_iff.mp reached
    obtain ⟨-, stepped, still⟩ := step_cases taken
    obtain ⟨after, same⟩ := ih later
    rw [Runs.run_cons, stepped]
    exact ⟨after, same.trans still⟩

theorem act_handlePacket {now : Time} {pkt : Packet}
    (taken : n.act (side, .handlePacket now pkt) = some n') :
    (n.host side.other).sent pkt = true ∧
      n'.conn side = (n.conn side).handlePacket now pkt ∧
      n'.conn side.other = n.conn side.other := by
  obtain ⟨ran, still⟩ := run_side taken
  rw [Host.run_packet] at ran
  have conn := congrArg Host.conn (Option.some.inj ran)
  refine ⟨?_, conn.symm, congrArg Host.conn still⟩
  rw [act, Host.packet, List.cons_append, List.map_cons, Runs.run_cons] at taken
  obtain ⟨mid, first, -⟩ := Option.bind_eq_some_iff.mp taken
  exact (step_cases first).1

/-- Neither side has more streams than it may open. -/
def Sparse (n : Net F) : Prop := ∀ side, (n.conn side).Sparse

omit [Float64 F] in
theorem Sparse.few (sparse : n.Sparse) : n.Few := by
  intro side
  have most := (sparse side).opened
  rw [initialMaxStreams] at most
  omega

theorem Linked.step_sparse {input : Host.Input} (linked : n.Linked) (sparse : n.Sparse)
    (other : ∀ now pkt count, input ≠ .frame now pkt (.maxStreams count))
    (taken : n.step (side, input) = some n') : n'.Linked ∧ n'.Sparse := by
  obtain ⟨-, stepped, still⟩ := step_cases taken
  have here : (n'.conn side).Sparse := (Host.step_effect stepped).sparse (linked side).keyed
    (linked side).absent (sparse side) other
  have there : (n'.conn side.other).Sparse := by
    rw [conn, still]
    exact sparse side.other
  have sparse' : n'.Sparse := Side.forall_of side here there
  exact ⟨linked.step sparse.few sparse'.few taken, sparse'⟩

theorem Linked.run_packet {now : Time} {pkt : Packet} (linked : n.Linked) (sparse : n.Sparse)
    (other : ∀ count, .maxStreams count ∉ pkt.frames)
    (taken : n.act (side, .handlePacket now pkt) = some n') : n'.Linked ∧ n'.Sparse := by
  let Other (_ : Net F) (turn : Side × Host.Input) : Prop :=
    ∀ now pkt count, turn.2 ≠ .frame now pkt (.maxStreams count)
  have each : ∀ turn ∈ (Host.packet now pkt).map (side, ·), ∀ n : Net F, Other n turn := by
    intro turn member n now' pkt' count same
    obtain ⟨input, inside, rfl⟩ := List.mem_map.mp member
    dsimp only at same
    subst same
    simp only [Host.packet, List.cons_append, List.mem_cons, List.mem_append,
      List.mem_map] at inside
    rcases inside with first | ⟨f, present, same⟩ | last
    · cases first
    · cases same
      exact other count present
    · split at last
      · cases last
      · cases List.mem_singleton.mp last
  exact Runs.invariant (fun n => n.Linked ∧ n.Sparse)
    (fun n turn n' holds other taken => holds.1.step_sparse holds.2 other taken)
    ⟨linked, sparse⟩ (Runs.along_of_forall each n) taken

/-- Neither connection is closed or has used up its sequence numbers. -/
def Going (n : Net F) : Prop :=
  ∀ side, (n.conn side).state ≠ .closed ∧ (n.conn side).pm.nextSeq ≤ 2 ^ 32

instance : Decidable n.Going := inferInstanceAs
  (Decidable (∀ side, (n.conn side).state ≠ .closed ∧ (n.conn side).pm.nextSeq ≤ 2 ^ 32))

/-- An exchange, in which each side has noted `told` of the other's packets. -/
structure Exchanged (ends : Side → Stream.Endings) (told : Side → List UInt32)
    (n : Net F) : Prop where
  linked : n.Linked
  sparse : n.Sparse
  keeping : ∀ side, (n.conn side).Keeping (ends side) (told side) (told side.other)

/-- What one act does: the other side stays as it is. -/
structure Acted (ends : Side → Stream.Endings) (told : Side → List UInt32) (side : Side) (act : Act)
    (more : List UInt32) (n n' : Net F) : Prop where
  exchanged : n'.Exchanged ends (Function.update told side more)
  secures : Secures (ends side) more (told side.other) (n.conn side) (n'.conn side)
  taken : Alters (ends side) act.Brings (told side) (n.conn side.other) (n.conn side) more
    (n'.conn side).streams
  still : n'.conn side.other = n.conn side.other

variable {ends : Side → Stream.Endings} {told : Side → List UInt32}

omit [Float64 F] in
theorem Exchanged.next (exchanged : n.Exchanged ends told) {act : Act} {more : List UInt32}
    (linked : n'.Linked) (sparse : n'.Sparse)
    (keeping : (n'.conn side).Keeping (ends side) more (told side.other))
    (secures : Secures (ends side) more (told side.other) (n.conn side) (n'.conn side))
    (taken : Alters (ends side) act.Brings (told side) (n.conn side.other) (n.conn side) more
      (n'.conn side).streams)
    (still : n'.conn side.other = n.conn side.other) : Acted ends told side act more n n' := by
  have peer := exchanged.keeping side.other
  rw [Side.other_other] at peer
  refine ⟨⟨linked, sparse, Side.forall_of side ?_ ?_⟩, secures, taken, still⟩
  · rw [Function.update_self, Function.update_of_ne side.other_ne]
    exact keeping
  · rw [Side.other_other, Function.update_self, Function.update_of_ne side.other_ne, still]
    exact ⟨peer.toReady, peer.custody, peer.ofExchange,
      taken.seen peer.ofExchange.numbered peer.seen⟩

omit [Float64 F] in
theorem Exchanged.widen {ends' : Side → Stream.Endings} (exchanged : n.Exchanged ends told)
    (wider : ∀ side id offset, ends side id offset → ends' side id offset) :
    n.Exchanged ends' told := by
  refine ⟨exchanged.linked, exchanged.sparse, fun side => ?_⟩
  have keeping := exchanged.keeping side
  exact ⟨keeping.toReady, keeping.custody, keeping.ofExchange.widen (wider side), keeping.seen⟩

theorem Exchanged.act (exchanged : n.Exchanged ends told) {act : Act}
    (allowed : ∀ id, ∀ offset ∈ act.ending (n.conn side) id, ends side id offset)
    (going : n.Going) (going' : n'.Going) (taken : n.act (side, act) = some n') :
    ∃ more, Acted ends told side act more n n' := by
  have keeping := exchanged.keeping side
  have absent := (exchanged.linked side).absent
  obtain ⟨opened, -⟩ := going side
  obtain ⟨opened', room⟩ := going' side
  cases act with
  | handlePacket now pkt =>
    obtain ⟨sent, after, still⟩ := act_handlePacket taken
    obtain ⟨d, member, arrived⟩ := Host.sent_iff.mp sent
    have shaped := (exchanged.keeping side.other).ofExchange.shaped
    rw [after] at opened' room
    obtain ⟨more, kept, secures, alters⟩ := keeping.handlePacket shaped arrived
      (List.mem_map_of_mem member) absent opened opened' room
    rw [← after] at kept secures alters
    have none (count : UInt32) : Frame.maxStreams count ∉ pkt.frames := by
      rw [← arrived]
      exact shaped.maxStreams_not_mem (List.mem_map_of_mem member) count
    obtain ⟨linked, sparse⟩ := exchanged.linked.run_packet exchanged.sparse none taken
    exact ⟨more, exchanged.next linked sparse kept secures alters still⟩
  | own input =>
    rw [Net.act] at taken
    split at taken
    · rename_i own
      obtain ⟨-, stepped, still⟩ := step_cases taken
      have turn : Own (ends side) (told side) (told side.other) (n.conn side) (n'.conn side) :=
        Host.own_step keeping.toReady own allowed absent keeping.custody opened opened' room stepped
      obtain ⟨afloat, secures⟩ := turn.toTurn.afloat room keeping.toAfloat
      have other : ∀ now pkt count, input ≠ .frame now pkt (.maxStreams count) := by
        rintro now pkt count rfl
        cases own
      obtain ⟨linked, sparse⟩ := exchanged.linked.step_sparse exchanged.sparse other taken
      exact ⟨told side, exchanged.next linked sparse
        ⟨⟨turn.table.keyed keeping.keyed, turn.bounded, turn.records⟩, afloat⟩ secures
        (.own turn.table) (congrArg Host.conn still)⟩
    · cases taken

theorem keeping_new {ends : Stream.Endings} (localCID remoteCID : ConnectionID) (addr : Addr)
    (dialled : Bool) (now : Time) :
    (Peer.newPeer localCID remoteCID addr dialled now : Peer F).host.conn.Keeping ends [] [] := by
  let c : Connection F := (Peer.newPeer localCID remoteCID addr dialled now).host.conn
  have none (x : Cargo) : x ∉ c.outbound.live := Multiset.notMem_zero x
  have spans (id : UInt32) : c.outbound.spans id = ∅ := by
    refine Set.eq_empty_of_forall_notMem fun span known => ?_
    obtain ⟨sf, ⟨x, alive, -⟩ | ⟨pkt, sent, -⟩, -⟩ := known
    · exact none x alive
    · exact List.not_mem_nil sent
  have nested : c.outbound.Nested := by
    refine ⟨fun x alive => absurd alive (none x), fun id => Nat.two_pow_pos 64,
      fun id span known => ?_,
      fun id => ?_, fun x alive => absurd alive (none x), fun id offset => Nat.zero_le 1⟩
    · rw [spans] at known
      cases known
    · rw [spans]
      exact fun span known => known.elim
  exact {
    keyed := List.forall_mem_nil _
    bounded := fun id => Nat.zero_le _
    records := ⟨RecvTracker.represents_empty, fun pending => absurd rfl pending⟩
    custody := PacketManager.custody_new
    ofExchange := ⟨⟨fun e tracked => absurd tracked (Multiset.notMem_zero e), Multiset.nodup_zero,
      List.forall_mem_nil _⟩, nested, fun x alive => absurd alive (none x), List.forall_mem_nil _⟩
    seen := List.forall_mem_nil _ }

section

variable (cid peerCID : ConnectionID) (addr peerAddr : Addr) (now : Time)

theorem going_start : (start cid peerCID addr peerAddr now : Net F).Going := by
  intro side
  cases side with
  | left =>
    let c : Connection F := (Peer.newPeer cid peerCID peerAddr true now).host.conn
    show (c.sendFrames now [.stream ⟨false, true, 0, []⟩]).state ≠ .closed ∧
      (c.sendFrames now [.stream ⟨false, true, 0, []⟩]).pm.nextSeq ≤ 2 ^ 32
    have same : (c.sendFrames now [.stream ⟨false, true, 0, []⟩]).state = .established :=
      congrArg Connection.Endpoint.state (sends_syn now c).endpoint
    have next : (c.sendFrames now [.stream ⟨false, true, 0, []⟩]).pm.nextSeq = 1 := by
      have counted : [Frame.stream ⟨false, true, 0, []⟩].any Frame.bearsData = true := rfl
      rw [sendFrames, sendPacket, if_pos counted]
      dsimp only
      split <;> rfl
    rw [same, next]
    decide
  | right =>
    refine ⟨fun closed => ?_, Nat.zero_le _⟩
    cases closed

theorem sparse_start : (start cid peerCID addr peerAddr now : Net F).Sparse := by
  intro side
  refine ⟨?_, ?_⟩
  · cases side with
    | left =>
      have sends := sends_syn now (Peer.newPeer cid peerCID peerAddr true now : Peer F).host.conn
      exact congrArg Connection.Endpoint.maxStreams sends.endpoint
    | right => rfl
  · rw [Connection.opened, Connection.ids, streams_start]
    exact Nat.zero_le _

theorem exchanged_start :
    (start cid peerCID addr peerAddr now : Net F).Exchanged ends fun _ => [] := by
  have linked : (start cid peerCID addr peerAddr now : Net F).Linked :=
    linked_start cid peerCID addr peerAddr now
  refine ⟨linked, sparse_start cid peerCID addr peerAddr now, fun side => ?_⟩
  cases side with
  | left =>
    let c : Connection F := (Peer.newPeer cid peerCID peerAddr true now).host.conn
    have new : c.Keeping (ends .left) [] [] := keeping_new cid peerCID peerAddr true now
    have sent : Simulated (.exchange (ends .left) (Packet.Plain []) []) c { extent := c.written }
        (c.sendFrames now [.stream ⟨false, true, 0, []⟩]) { extent := c.written } :=
      simulated_bare now 0 0 rfl rfl (fun fin => by cases fin) rfl
    have own : Own (ends .left) [] [] c (c.sendFrames now [.stream ⟨false, true, 0, []⟩]) :=
      new.toReady.sends (sends_syn now c).toKeeps sent
    exact ⟨⟨(linked .left).keyed, own.bounded, own.records⟩,
      (own.toTurn.afloat (going_start cid peerCID addr peerAddr now .left).2 new.toAfloat).1⟩
  | right => exact keeping_new peerCID cid addr false now

end

end Net

end Udx
