import Udx.Delivery

set_option autoImplicit false

/- How the end of a stream gets to the other side. A FIN is tracked until the other
side has noted its packet, and a stream that has taken it knows where it ends. -/

namespace Udx

def Frame.finishes : Frame → Bool
  | .stream sf => sf.isFin
  | _ => false

def Cargo.finishes (x : Cargo) (id : UInt32) : Bool :=
  x.sourceStreamID = id && x.frames.any Frame.finishes

def Packet.finishes (pkt : Packet) (id : UInt32) : Bool :=
  pkt.sourceStreamID = id && pkt.frames.any Frame.finishes

theorem Cargo.Carries.finishes {x : Cargo} {pkt : Packet} (carries : x.Carries pkt) (id : UInt32) :
    pkt.finishes id = x.finishes id := by
  rw [Packet.finishes, Cargo.finishes, carries.source, carries.frames]

theorem Cargo.finishes_of_stream {x : Cargo} {sf : StreamFrame} (frames : x.frames = [.stream sf])
    (id : UInt32) : x.finishes id = true ↔ x.IsStreamFrame id sf ∧ sf.isFin = true := by
  simp [Cargo.finishes, Cargo.IsStreamFrame, Frame.finishes, frames]

theorem Cargo.Formed.bare {ends : Stream.Endings} {x : Cargo} (formed : x.Formed ends) {id : UInt32}
    (finishes : x.finishes id = true) :
    x.probe = false ∧ ∃ sf, x.IsStreamFrame id sf ∧ ends id sf.offset.toNat ∧ sf.data = [] := by
  cases formed.1 with
  | data sf data frames =>
    obtain ⟨holds, fin⟩ := (finishes_of_stream frames id).mp finishes
    obtain ⟨here, bare⟩ := formed.2 sf frames fin
    exact ⟨data, sf, holds, holds.2 ▸ here, bare⟩
  | probe size probe frames => simp [Cargo.finishes, frames, Frame.finishes] at finishes

namespace Flight

variable {ends : Stream.Endings} {plain : Packet → Prop} {noted : List UInt32} {id : UInt32}

theorem stable_finishes {due held : Prop} : Stable ends plain noted
    (DueIsSafe · noted (fun x => x.finishes id = true) due held) where
  settle _ _ dueIsSafe := ⟨dueIsSafe.safe, dueIsSafe.covered⟩
  move f f' move room ofExchange seen dueIsSafe := by
    refine move.dueIsSafe room seen (fun x alive pieces splits finishes => ?_)
      (fun x alive finishes => ((ofExchange.shaped.live x alive).bare finishes).1) dueIsSafe
    -- only data is cut
    obtain ⟨-, sf, holds, -, bare⟩ := (ofExchange.shaped.live x alive).bare finishes
    obtain ⟨other, limit, size, frames, -, longer, -⟩ := splits
    obtain rfl : other = sf := by simpa using frames.symm.trans holds.1
    rw [bare] at longer
    cases longer

end Flight

namespace Stream

variable {s t : Stream} {sizes : List Nat}

/-- The stream knows its end, which is one of `sizes`. -/
def KnowsEnd (sizes : List Nat) (s : Stream) : Prop := s.finSeen = true ∧ s.finalSize ∈ sizes

instance (sizes : List Nat) (s : Stream) : Decidable (s.KnowsEnd sizes) :=
  inferInstanceAs (Decidable (s.finSeen = true ∧ s.finalSize ∈ sizes))

theorem KnowsEnd.mono {more : List Nat} (known : s.KnowsEnd sizes) (grown : sizes ⊆ more) :
    s.KnowsEnd more :=
  known.imp_right (grown ·)

theorem Retains.known (retains : s.Retains t) (known : s.KnowsEnd sizes) : t.KnowsEnd sizes := by
  rw [KnowsEnd, retains.finSeen, retains.finalSize]
  exact known

theorem known_finishLocked (known : s.KnowsEnd sizes) : s.finishLocked.KnowsEnd sizes := by
  unfold finishLocked
  split
  · exact known
  · exact known

theorem KnowsEnd.deliverData (known : s.KnowsEnd sizes) (offset : Nat) (data : List UInt8) :
    (s.deliverData offset data).1.KnowsEnd sizes := by
  rw [KnowsEnd, s.deliverData_finSeen, (s.fixed_deliverData offset data).2]
  exact known

/-- The end that a FIN has is taken, whatever was known before. -/
theorem known_receive {f : StreamFrame} (fin : f.isFin = true) (bare : f.data = [])
    (here : f.offset.toNat ∈ sizes) : (s.receive f).1.KnowsEnd sizes := by
  unfold receive
  dsimp only
  rw [if_pos fin, bare, List.length_nil, Nat.add_zero, Nat.mod_eq_of_lt f.offset.toNat_lt]
  exact known_finishLocked ⟨rfl, here⟩

theorem KnowsEnd.receive (known : s.KnowsEnd sizes) {f : StreamFrame}
    (formed : f.isFin = true → f.data = [] ∧ f.offset.toNat ∈ sizes) :
    (s.receive f).1.KnowsEnd sizes := by
  by_cases fin : f.isFin = true
  · exact known_receive fin (formed fin).1 (formed fin).2
  · unfold Stream.receive
    dsimp only
    rw [if_neg fin]
    split
    · exact known.deliverData _ _
    · exact known

theorem Counterpart.symm (counterpart : s.Counterpart t) : t.Counterpart s := by
  rcases counterpart with ⟨opened, entered⟩ | ⟨entered, opened⟩
  · exact .inr ⟨entered, opened⟩
  · exact .inl ⟨opened, entered⟩

end Stream

namespace Connection

variable {F : Type} {a b c c' : Connection F} {base peerBase : Nat} {id : UInt32}
  {ends own : Stream.Endings} {brings plain : Packet → Prop} {told more : List UInt32}
    {sizes : List Nat}
  {table : AList fun _ : UInt32 => Stream}

theorem Facing.kept {R : Stream → Stream → Prop} (facing : Facing base peerBase a b)
    (taken : Alters own brings told a b more table) (retains : ∀ s t : Stream, s.Retains t → R s t)
    (receives : ∀ pkt ∈ a.outbound.wire, ∀ f, pkt.frames = [.stream f] → ∀ t : Stream,
      a.Feeds pkt.sourceStreamID t → t.id ≠ 0 → R t (t.receive f).1) : b.Kept R table := by
  have refl (s : Stream) : R s s := retains s s ⟨rfl, rfl, rfl, rfl, rfl⟩
  cases taken with
  | own stocks =>
    cases stocks with
    | same => exact kept_same refl
    | set s t found kept =>
      refine kept_insert refl fun u present => ?_
      obtain rfl := Option.some.inj (found.symm.trans present)
      exact ⟨kept.ids, retains s t kept⟩
    | new t absent =>
      refine kept_insert refl fun u present => ?_
      cases absent.symm.trans present
  | probe => exact kept_same refl
  | stream pkt sent _ f frames received =>
    rcases facing.feeds_of_receives sent frames received with
      ⟨rfl, -, -⟩ | ⟨t, rfl, feeds, named, present⟩
    · exact kept_same refl
    · refine kept_insert refl fun u found => ?_
      rcases present with here | ⟨absent, -⟩
      · obtain rfl := Option.some.inj (here.symm.trans found)
        exact ⟨t.ids_receive f, receives pkt sent f frames t feeds named⟩
      · cases absent.symm.trans found

theorem fin_of_wire (ofExchange : a.outbound.OfExchange ends plain)
    (quiet : Flight.CarryNoData plain)
    {pkt : Packet} (sent : pkt ∈ a.outbound.wire) {f : StreamFrame}
    (frames : pkt.frames = [.stream f]) (fin : f.isFin = true) :
    f.data = [] ∧ ends pkt.sourceStreamID f.offset.toNat := by
  rcases ofExchange.shaped.wire pkt sent with ⟨x, formed, carries⟩ | control
  · obtain ⟨here, bare⟩ := formed.2 f (carries.frames.symm.trans frames) fin
    exact ⟨bare, carries.source ▸ here⟩
  · exact absurd ⟨frames, rfl⟩ ((quiet pkt control).2 _ f)

theorem Facing.known (facing : Facing base peerBase a b)
    (ofExchange : a.outbound.OfExchange ends plain)
    (quiet : Flight.CarryNoData plain) (ended : ∀ offset, ends id offset → offset ∈ sizes)
    (taken : Alters own brings told a b more table) :
    b.Kept (fun s t => a.Feeds id s → s.KnowsEnd sizes → t.KnowsEnd sizes) table := by
  refine facing.kept taken (fun s t retains _ known => retains.known known) ?_
  intro pkt sent f frames t feeds named fed known
  refine known.receive fun fin => ?_
  obtain ⟨bare, here⟩ := fin_of_wire ofExchange quiet sent frames fin
  rw [facing.unique named feeds fed] at here
  exact ⟨bare, ended _ here⟩

/-- A FIN that is noted has been taken, where there was a stream for it. -/
theorem Facing.noted_fin (facing : Facing base peerBase a b)
    (ofExchange : a.outbound.OfExchange ends plain)
    (quiet : Flight.CarryNoData plain) (ended : ∀ offset, ends id offset → offset ∈ sizes)
    (taken : Alters own brings told a b more table)
    (found : ∀ pkt, brings pkt → pkt.finishes id = true →
      b.findStream pkt.destinationStreamID pkt.sourceStreamID ≠ none)
    {n : UInt32} (noted : n ∈ more) (new : n ∉ told) {x : Cargo}
    (tracked : (n, x) ∈ a.outbound.tracked) (finishes : x.finishes id = true) :
    ∃ e ∈ table.entries, a.Feeds id e.2 ∧ e.2.KnowsEnd sizes := by
  cases taken with
  | own => exact absurd noted new
  | probe pkt sent size frames =>
    have carries := carries_of_noting ofExchange.numbered sent noted new tracked
    rw [Cargo.finishes, ← carries.frames, frames] at finishes
    simp [Frame.finishes] at finishes
  | stream pkt sent brought f frames received =>
    have carries := carries_of_noting ofExchange.numbered sent noted new tracked
    obtain ⟨holds, fin⟩ :=
      (Cargo.finishes_of_stream (carries.frames.symm.trans frames) id).mp finishes
    obtain ⟨bare, here⟩ := fin_of_wire ofExchange quiet sent frames fin
    have source : pkt.sourceStreamID = id := carries.source.trans holds.2
    rcases facing.feeds_of_receives sent frames received with
      ⟨rfl, missing, -⟩ | ⟨t, rfl, feeds, -, -⟩
    · exact absurd missing (found pkt brought ((carries.finishes id).trans finishes))
    · rw [source] at here feeds
      exact ⟨⟨t.id, (t.receive f).1⟩, Tables.mem_entries_iff.mpr (AList.lookup_insert _),
        feeds.congr (t.ids_receive f), Stream.known_receive fin bare (ended _ here)⟩

theorem mem_tracked_sendPacket {g : Ghost} {now : Time} {dstStreamID srcStreamID : UInt32}
    {frames : List Frame} (bears : frames.any Frame.bearsData = true) (custody : c.Custody g)
    (room : (c.sendPacket now dstStreamID srcStreamID frames).pm.nextSeq ≤ 2 ^ 32) :
    (UInt32.ofNat c.pm.nextSeq, c.dataCargo dstStreamID srcStreamID frames) ∈
      (c.sendPacket now dstStreamID srcStreamID frames).pm.tracked := by
  rcases registered : c.registerData now dstStreamID srcStreamID frames with ⟨after, pkt⟩
  have number : pkt.sequence = UInt32.ofNat c.pm.nextSeq :=
    (congrArg (fun out => out.2.sequence) registered).symm
  have same : (c.sendPacket now dstStreamID srcStreamID frames).pm = after.pm := by
    simp only [sendPacket, bears, if_true, registered]
    split <;> rfl
  rw [same] at room ⊢
  obtain ⟨-, tracked, -⟩ := registerData_spec (r := .any) now dstStreamID srcStreamID frames trivial
    registered room custody
  rw [tracked, number]
  exact List.mem_cons_self

/-- A stream that `Close` ends has its FIN tracked. -/
theorem finishes_closeStream {now : Time} (called : c.closeStream now id = some c')
    (keyed : c.Keyed) {g : Ghost} (custody : c.Custody g) (room : c'.pm.nextSeq ≤ 2 ^ 32)
    {offset : Nat} (ended : c.ending id = some offset) :
    ∃ x ∈ c'.outbound.live, x.finishes id = true := by
  obtain ⟨s, found, rfl⟩ := callStream_eq_some now called
  rw [ending, found, Option.bind_some, Stream.ending] at ended
  split at ended
  · cases ended
  · rename_i live
    let fin : StreamFrame := ⟨true, false, UInt64.ofNat s.bytesWritten, []⟩
    have frames : s.close.2 = [.stream fin] := by rw [Stream.close, if_neg live]
    have own : s.close.1.id = id := (congrArg Prod.fst s.ids_close).trans (keyed.id_eq found)
    rw [frames] at room ⊢
    have bears : [Frame.stream fin].any Frame.bearsData = true := rfl
    have tracked : (UInt32.ofNat c.pm.nextSeq, (c.setStream s.close.1).dataCargo
        s.close.1.remoteID s.close.1.id [.stream fin]) ∈
        ((c.setStream s.close.1).sendFor now s.close.1 [.stream fin]).pm.tracked :=
      mem_tracked_sendPacket bears (g := g) custody room
    refine ⟨_, Flight.mem_live_of_tracked (Multiset.mem_coe.mpr tracked), ?_⟩
    rw [Cargo.finishes, own]
    simp [dataCargo, Frame.finishes, fin]

end Connection

namespace Net

open Connection

variable {F : Type} [Float64 F] {n n' : Net F} {side actor : Side} {id : UInt32} {act : Act}
  {told : Side → List UInt32} {sizes : List Nat}

/-- `BytesWritten` where the turn closes the stream. -/
def closedAt (n : Net F) (side : Side) (id : UInt32) (turn : Side × Act) : List Nat :=
  if turn.1 = side then (turn.2.ending (n.conn side) id).toList else []

/-- The other side handles a FIN that it has no stream for. -/
def overtaken (n : Net F) (side : Side) (id : UInt32) : Side × Act → Bool
  | (actor, .handlePacket _ pkt) => actor = side.other && pkt.finishes id &&
      ((n.conn actor).findStream pkt.destinationStreamID pkt.sourceStreamID).isNone
  | _ => false

/-- A stream ends where it was closed. -/
def endings (side : Side) (id : UInt32) (sizes : List Nat) : Side → Stream.Endings :=
  fun actor other offset => actor = side → other = id → offset ∈ sizes

/-- The other side's stream knows the end. -/
def Aware (n : Net F) (side : Side) (id : UInt32) (sizes : List Nat) : Prop :=
  ∃ e ∈ (n.conn side.other).streams.entries, (n.conn side).Feeds id e.2 ∧ e.2.KnowsEnd sizes

/-- An exchange in which the stream `id` was closed at `sizes`. Once there is one, a
FIN is on its way, or the other side knows. -/
structure Concluding (told : Side → List UInt32) (side : Side) (id : UInt32) (sizes : List Nat)
    (n : Net F) : Prop where
  exchanged : n.Exchanged (endings side id sizes) told
  dueIsSafe : (n.conn side).outbound.DueIsSafe (told side.other) (fun x => x.finishes id = true)
    (sizes ≠ []) (n.Aware side id sizes)

theorem live_of_closedAt {offset : Nat} (exchanged : n.Exchanged (endings side id sizes) told)
    (going : n'.Going) (taken : n.act (side, act) = some n')
    (ended : act.ending (n.conn side) id = some offset) :
    ∃ x ∈ (n'.conn side).outbound.live, x.finishes id = true := by
  have keeping := exchanged.keeping side
  cases act with
  | handlePacket => cases ended
  | own input =>
    cases input with
    | closeStream now other =>
      rw [Act.ending, Host.Input.ending] at ended
      split at ended
      · rename_i same
        subst same
        have stepped : n.step (side, .closeStream now other) = some n' := taken
        obtain ⟨-, stepped, -⟩ := step_cases stepped
        obtain ⟨c, called, after⟩ := Option.map_eq_some_iff.mp stepped
        have conn : n'.conn side = c := (congrArg Host.conn after).symm
        rw [conn]
        refine finishes_closeStream called keeping.keyed keeping.custody ?_ ended
        rw [← conn]
        exact (going side).2
      · cases ended
    | _ => cases ended

omit [Float64 F] in
theorem Aware.grow {more : List Nat} (aware : n.Aware side id sizes) (grown : sizes ⊆ more)
    (lasts : Lasts (n.conn side) (n'.conn side))
    (still : n'.conn side.other = n.conn side.other) : n'.Aware side id more := by
  obtain ⟨e, member, feeds, known⟩ := aware
  refine ⟨e, ?_, feeds.grow lasts, known.mono grown⟩
  rw [still]
  exact member

theorem Concluding.send (concluding : n.Concluding told side id sizes) (going : n.Going)
    (going' : n'.Going) (taken : n.act (side, act) = some n') :
    ∃ told, n'.Concluding told side id (n.closedAt side id (side, act) ++ sizes) := by
  let more := n.closedAt side id (side, act) ++ sizes
  have grown : sizes ⊆ more := List.subset_append_right _ _
  have wider : n.Exchanged (endings side id more) told :=
    concluding.exchanged.widen fun _ _ _ ends own same => grown (ends own same)
  have allowed : ∀ other, ∀ offset ∈ act.ending (n.conn side) other,
      endings side id more side other offset := by
    rintro other offset ended - rfl
    refine List.mem_append_left _ ?_
    rw [closedAt, if_pos rfl]
    exact Option.mem_toList.mpr ended
  obtain ⟨told', acted⟩ := wider.act allowed going going' taken
  have lasts : Lasts (n.conn side) (n'.conn side) :=
    ((wider.linked.facing side).kept (R := fun _ _ => True) acted.taken (fun _ _ _ => trivial)
      fun _ _ _ _ _ _ _ => trivial).lasts (wider.linked side).keyed
      (acted.exchanged.linked side).keyed
  have aware (before : n.Aware side id sizes) : n'.Aware side id more :=
    before.grow grown lasts acted.still
  have dueIsSafe := acted.secures _ Flight.stable_finishes concluding.dueIsSafe
  refine ⟨_, acted.exchanged, ?_⟩
  rw [Function.update_of_ne side.other_ne]
  refine ⟨fun e member noted finishes => aware (dueIsSafe.safe e member noted finishes),
    fun closed => ?_⟩
  cases ended : act.ending (n.conn side) id with
  | some offset => exact .inl (live_of_closedAt wider going' taken ended)
  | none =>
    rw [closedAt, if_pos rfl, ended] at closed
    exact (dueIsSafe.covered closed).imp_right aware

omit [Float64 F] in
theorem found_of_overtaken (found : n.overtaken side id (side.other, act) = false) {pkt : Packet}
    (brought : act.Brings pkt) (finishes : pkt.finishes id = true) :
    (n.conn side.other).findStream pkt.destinationStreamID pkt.sourceStreamID ≠ none := by
  intro missing
  cases act with
  | own => exact brought
  | handlePacket now arrived =>
    have same : { pkt with wireLen := arrived.wireLen } = arrived := brought
    have here : n.overtaken side id (side.other, .handlePacket now arrived) = true := by
      rw [← same]
      have finishes : Packet.finishes { pkt with wireLen := arrived.wireLen } id = true := finishes
      simp [overtaken, finishes, missing]
    rw [found] at here
    cases here

theorem Concluding.take (concluding : n.Concluding told side id sizes) (going : n.Going)
    (going' : n'.Going) (taken : n.act (side.other, act) = some n')
    (found : n.overtaken side id (side.other, act) = false) :
    ∃ told, n'.Concluding told side id sizes := by
  have exchanged := concluding.exchanged
  obtain ⟨more, acted⟩ := exchanged.act
    (fun _ _ _ same => absurd same side.other_ne) going going' taken
  have facing := exchanged.linked.facing side.other
  have moved := acted.taken
  have still := acted.still
  rw [Side.other_other] at facing moved still
  have ofExchange := (exchanged.keeping side).ofExchange
  have ended (offset : Nat) (ends : endings side id sizes side id offset) : offset ∈ sizes :=
    ends rfl rfl
  have aware (before : n.Aware side id sizes) : n'.Aware side id sizes := by
    obtain ⟨e, member, feeds, known⟩ := before
    obtain ⟨e', member', ids, kept⟩ := facing.known ofExchange quiet_plain ended moved e member
    refine ⟨e', member', ?_, kept feeds known⟩
    rw [still]
    exact feeds.congr ids
  refine ⟨_, acted.exchanged, ?_⟩
  rw [Function.update_self, still]
  refine ⟨fun e member noted finishes => ?_,
    fun closed => (concluding.dueIsSafe.covered closed).imp_right aware⟩
  by_cases old : e.1 ∈ told side.other
  · exact aware (concluding.dueIsSafe.safe e member old finishes)
  · obtain ⟨e', member', feeds, known⟩ := facing.noted_fin ofExchange quiet_plain ended moved
      (fun _ => found_of_overtaken found) noted old member finishes
    exact ⟨e', member', still ▸ feeds, known⟩

end Net

/-- Both sides, and `BytesWritten` at each `Close` of a stream. -/
structure Net.Observed (F : Type) where
  net : Net F
  closed : List Nat := []

namespace Net.Observed

open Connection Net

variable {F : Type} [Float64 F] {o o' : Net.Observed F} {side : Side} {id : UInt32}

def act (side : Side) (id : UInt32) (o : Net.Observed F) (turn : Side × Net.Act) :
    Option (Net.Observed F) :=
  (o.net.act turn).map fun net => ⟨net, o.net.closedAt side id turn ++ o.closed⟩

/-- A stream that was written on and closed has no FIN in a packet any more: where the
other side has its stream, that knows the size at which it was closed. -/
def FinKnown (o : Net.Observed F) (side : Side) (id : UInt32) : Prop :=
  ∀ s ∈ (o.net.conn side).streams.lookup id, 0 < s.bytesWritten → o.closed ≠ [] →
    (∀ e ∈ (o.net.conn side).pm.sentPackets.entries,
      ((o.net.conn side).pm.cargo e.2).finishes id = false) →
    (∀ p ∈ (o.net.conn side).lostQueue, ((o.net.conn side).pm.cargo p).finishes id = false) →
    ∀ e ∈ (o.net.conn side.other).streams.entries, s.Counterpart e.2 → e.2.KnowsEnd o.closed

instance (o : Net.Observed F) (side : Side) (id : UInt32) : Decidable (o.FinKnown side id) :=
  inferInstanceAs (Decidable
    (∀ s ∈ (o.net.conn side).streams.lookup id, 0 < s.bytesWritten → o.closed ≠ [] →
      (∀ e ∈ (o.net.conn side).pm.sentPackets.entries,
        ((o.net.conn side).pm.cargo e.2).finishes id = false) →
      (∀ p ∈ (o.net.conn side).lostQueue, ((o.net.conn side).pm.cargo p).finishes id = false) →
      ∀ e ∈ (o.net.conn side.other).streams.entries, s.Counterpart e.2 → e.2.KnowsEnd o.closed))

omit [Float64 F] in
theorem finKnown_of_concluding {told : Side → List UInt32}
    (concluding : o.net.Concluding told side id o.closed) : o.FinKnown side id := by
  intro s found _ closed tracked waiting e member counterpart
  have found : (o.net.conn side).streams.lookup id = some s := found
  rcases concluding.dueIsSafe.covered closed with ⟨x, alive, finishes⟩ | ⟨e', member', feeds, known⟩
  · rcases mem_live_iff.mp alive with ⟨i, present, rfl⟩ | ⟨p, present, rfl⟩
    · cases (tracked i present).symm.trans finishes
    · cases (waiting p present).symm.trans finishes
  · -- the stream has one counterpart
    obtain ⟨u, present, counterpart'⟩ := feeds
    obtain rfl := Option.some.inj (found.symm.trans present)
    have facing := concluding.exchanged.linked.facing side
    have feeds (e : (_ : UInt32) × Stream) (member : e ∈ (o.net.conn side.other).streams.entries)
        (counterpart : s.Counterpart e.2) : (o.net.conn side.other).Feeds e.1 s :=
      ⟨e.2, Tables.lookup_of_mem e member, counterpart.symm⟩
    have key : e.1 = e'.1 := facing.unique (facing.id_ne_zero (Tables.mem_entries_iff.mpr found))
      (feeds e member counterpart) (feeds e' member' counterpart')
    have lookup := Tables.lookup_of_mem e member
    rw [key, Tables.lookup_of_mem e' member'] at lookup
    rw [← Option.some.inj lookup]
    exact known

theorem concluding_start (cid peerCID : ConnectionID) (addr peerAddr : Addr) (now : Time) :
    (start cid peerCID addr peerAddr now : Net F).Concluding (fun _ => []) side id [] :=
  ⟨exchanged_start cid peerCID addr peerAddr now,
    fun _ _ noted => absurd noted List.not_mem_nil, fun closed => absurd rfl closed⟩

/-- An act of either side keeps what has become of the FIN. -/
theorem concluding_act {turn : Side × Net.Act} {told : Side → List UInt32}
    (concluding : o.net.Concluding told side id o.closed)
    (found : o.net.overtaken side id turn = false) (going : o.net.Going) (going' : o'.net.Going)
    (taken : o.act side id turn = some o') :
    ∃ told, o'.net.Concluding told side id o'.closed := by
  obtain ⟨actor, act⟩ := turn
  obtain ⟨net, acted, rfl⟩ := Option.map_eq_some_iff.mp taken
  rcases actor.eq_or_eq_other side with rfl | rfl
  · exact concluding.send going going' acted
  · have none : o.net.closedAt side id (side.other, act) = [] := if_neg side.other_ne
    show ∃ told, net.Concluding told side id (o.net.closedAt side id (side.other, act) ++ o.closed)
    rw [none]
    exact concluding.take going going' acted found

/-- In every run in which no FIN of the stream is handled without a stream to take it, a FIN
that is neither tracked nor waits is known to the other side's stream. -/
theorem acknowledged_fin_known {cid peerCID : ConnectionID} {addr peerAddr : Addr} {now : Time}
    {acts : List (Side × Net.Act)}
    (along : Runs.Along (act side id) (fun o turn => o.net.overtaken side id turn = false ∧
      ∀ o' ∈ o.act side id turn, o'.net.Going)
      (⟨start cid peerCID addr peerAddr now, []⟩ : Net.Observed F) acts)
    (reached : Runs.run (act side id) (⟨start cid peerCID addr peerAddr now, []⟩ : Net.Observed F) acts =
      some o) : o.FinKnown side id := by
  have kept : o.net.Going ∧ ∃ told, o.net.Concluding told side id o.closed := by
    refine Runs.invariant (fun o => o.net.Going ∧ ∃ told, o.net.Concluding told side id o.closed) ?_
      ⟨going_start cid peerCID addr peerAddr now, _, concluding_start cid peerCID addr peerAddr now⟩
      along reached
    rintro o turn o' ⟨going, told, concluding⟩ ⟨found, later⟩ taken
    have going' := later o' taken
    exact ⟨going', concluding_act concluding found going going' taken⟩
  obtain ⟨-, told, concluding⟩ := kept
  exact finKnown_of_concluding concluding

/-- The FIN comes after the data, and both are acknowledged. -/
def inOrder : List (Side × Net.Act) :=
  farewell ++ [(.right, .handlePacket 0 hello), (.right, .handlePacket 0 goodbye),
    (.left, .handlePacket 0 (met.right.conn.packet 0 1 0 [.ack ⟨2, 0, 2, []⟩]))]

theorem acknowledged_fin_known_inOrder :
    ∃ o, Runs.run (act .left 1) (⟨met, []⟩ : Net.Observed ℚ) inOrder = some o ∧ o.closed = [1] ∧
      (∀ e ∈ (o.net.conn .left).pm.sentPackets.entries,
        ((o.net.conn .left).pm.cargo e.2).finishes 1 = false) ∧
      (o.net.conn .left).lostQueue = [] ∧ (o.net.conn .right).ids = [(2, 1)] ∧
      o.FinKnown .left 1 := by
  have along : Runs.Along (act .left 1) (fun o turn => o.net.overtaken .left 1 turn = false ∧
      ∀ o' ∈ o.act .left 1 turn, o'.net.Going) (⟨met, []⟩ : Net.Observed ℚ) inOrder := by
    decide +kernel
  have ends : (Runs.run (act .left 1) (⟨met, []⟩ : Net.Observed ℚ) inOrder).any (fun o =>
      decide (o.closed = [1] ∧ (∀ e ∈ (o.net.conn .left).pm.sentPackets.entries,
        ((o.net.conn .left).pm.cargo e.2).finishes 1 = false) ∧
        (o.net.conn .left).lostQueue = [] ∧ (o.net.conn .right).ids = [(2, 1)])) = true := by
    decide +kernel
  obtain ⟨o, reached, ends⟩ := Runs.reaches_of_any ends
  obtain ⟨closed, tracked, waiting, ids⟩ := of_decide_eq_true ends
  exact ⟨o, reached, closed, tracked, waiting, ids, acknowledged_fin_known along reached⟩

/-- The FIN comes first and is acknowledged, and the data after it. -/
def overtaking : List (Side × Net.Act) :=
  farewell ++ [(.right, .handlePacket 0 goodbye),
    (.left, .handlePacket 0 (met.right.conn.packet 0 1 0 [.ack ⟨2, 0, 1, []⟩])),
    (.right, .handlePacket 0 hello)]

theorem fin_forgotten_overtaking :
    ∃ o, Runs.run (act .left 1) (⟨met, []⟩ : Net.Observed ℚ) overtaking = some o ∧
      Runs.Along (act .left 1) (fun o turn => ∀ o' ∈ o.act .left 1 turn,
        o'.net.Going ∧ o'.net.Unreset .left 1) (⟨met, []⟩ : Net.Observed ℚ) overtaking ∧
      ¬ o.FinKnown .left 1 := by
  have along : Runs.Along (act .left 1) (fun o turn => ∀ o' ∈ o.act .left 1 turn,
      o'.net.Going ∧ o'.net.Unreset .left 1) (⟨met, []⟩ : Net.Observed ℚ) overtaking := by
    decide +kernel
  have ends : (Runs.run (act .left 1) (⟨met, []⟩ : Net.Observed ℚ) overtaking).any (fun o =>
      decide (¬ o.FinKnown .left 1)) = true := by
    decide +kernel
  obtain ⟨o, reached, ends⟩ := Runs.reaches_of_any ends
  exact ⟨o, reached, along, of_decide_eq_true ends⟩

end Net.Observed

end Udx
