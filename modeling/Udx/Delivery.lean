import Udx.Dialogue

set_option autoImplicit false

/- What one side has written, the other has, or it is still on its way: no byte of a
stream that is not ended is ever lost. -/

namespace Udx

open Spans

namespace Stream

variable {s t : Stream} {family more : Set Span}

/-- What has come on the stream is in order, whether it has ended or not. -/
structure InPlace (family : Set Span) (s : Stream) : Prop where
  ordered : s.Ordered family
  idle : s.recvOOO.lookup s.recvOffset = none

/-- And it has not ended. -/
structure Intact (family : Set Span) (s : Stream) : Prop extends InPlace family s where
  unended : s.Unended

theorem Ordered.mono (ordered : s.Ordered family) (grown : family ⊆ more) : s.Ordered more :=
  ⟨fun start chunk found => (ordered.early start chunk found).imp_right (grown ·), ordered.clear⟩

theorem InPlace.mono (inPlace : s.InPlace family) (grown : family ⊆ more) : s.InPlace more :=
  ⟨inPlace.ordered.mono grown, inPlace.idle⟩

theorem Ordered.congr (ordered : s.Ordered family) (early : t.recvOOO = s.recvOOO)
    (front : t.recvOffset = s.recvOffset) : t.Ordered family := by
  refine ⟨?_, ?_⟩
  · rw [early]
    exact ordered.early
  · rw [early, front]
    exact ordered.clear

theorem InPlace.congr (inPlace : s.InPlace family) (early : t.recvOOO = s.recvOOO)
    (front : t.recvOffset = s.recvOffset) : t.InPlace family := by
  refine ⟨inPlace.ordered.congr early front, ?_⟩
  rw [early, front]
  exact inPlace.idle

theorem Retains.has (retains : s.Retains t) {offset : Nat} (has : s.Has offset) :
    t.Has offset := by
  rw [Has, retains.early, retains.front]
  exact has

theorem Blank.inPlace (blank : s.Blank) : s.InPlace family := by
  have none (start : Nat) : s.recvOOO.lookup start = none := by
    rw [blank.early]
    rfl
  refine ⟨⟨fun start chunk found => ?_, fun start chunk found => ?_⟩, none _⟩
  · cases (none start).symm.trans found
  · cases (none start).symm.trans found

/-- What a STREAM frame leaves of a stream that is `P`; one that is `live` has its data. -/
structure Absorbs (P : Set Span → Stream → Prop) (live : Stream → Prop) (family : Set Span)
    (s : Stream) (f : StreamFrame) (t : Stream) : Prop where
  kept : P family t
  advances : Advances s t
  holds : live t →
    (∀ chunk, s.recvOOO.lookup f.offset.toNat = some chunk → f.data.length ≤ chunk.length) →
      ∀ x ∈ f.span, t.Has x

/-- The data of a frame goes in, and a FIN beside it changes nothing of that. -/
theorem store_receive (f : StreamFrame) : (s.receive f).1.store =
    if f.data.length > 0 then (s.placeLocked f.offset.toNat f.data).1.store else s.store := by
  have ended (u : Stream) (size : Nat) : (u.deliverFin size).store = u.store := store_finishLocked
  unfold receive
  dsimp only
  split <;> split
  · rw [ended, store_deliverData]
  · exact ended _ _
  · exact store_deliverData _ _
  · rfl

theorem InPlace.receive (inPlace : s.InPlace family) (laminar : Span.Laminar family)
    (small : ∀ c ∈ family, c.stop < 2 ^ 64) {f : StreamFrame} (member : f.span ∈ family) :
    Absorbs InPlace (fun s => s.flowControlViolation = false) family s f (s.receive f).1 := by
  have stored := s.store_receive f
  generalize (s.receive f).1 = t at stored ⊢
  split at stored
  · rename_i nonempty
    have takes := takes_placeLocked laminar small inPlace.ordered inPlace.idle member nonempty
    generalize (s.placeLocked f.offset.toNat f.data).1 = u at takes stored
    have early : t.recvOOO = u.recvOOO := congrArg Store.recvOOO stored
    have front : t.recvOffset = u.recvOffset := congrArg Store.recvOffset stored
    have flag : t.flowControlViolation = u.flowControlViolation :=
      congrArg Store.flowControlViolation stored
    refine ⟨InPlace.congr ⟨takes.ordered, takes.idle⟩ early front, ⟨?_, ?_⟩,
      fun live longer x inside => ?_⟩
    · rw [front]
      exact takes.advances.front
    · rw [early, front]
      exact takes.advances.kept
    · rcases takes.holds with broken | holds
      · rw [← flag, live] at broken
        cases broken
      · rw [Has, early, front]
        exact holds longer x inside.1 inside.2
  · rename_i empty
    have early : t.recvOOO = s.recvOOO := congrArg Store.recvOOO stored
    have front : t.recvOffset = s.recvOffset := congrArg Store.recvOffset stored
    refine ⟨inPlace.congr early front, ⟨front.ge, fun start chunk found => .inl ?_⟩,
      fun _ _ x inside => absurd (Nat.lt_of_le_of_lt inside.1 inside.2) ?_⟩
    · rw [early]
      exact found
    · show ¬ f.offset.toNat < f.offset.toNat + f.data.length
      omega

/-- A stream that has not ended goes on, or it is over its limit and reset. -/
theorem Unended.deliverData (unended : s.Unended) (offset : Nat) (data : List UInt8) :
    (s.deliverData offset data).1.Unended ∧
      ((s.placeLocked offset data).1.flowControlViolation = true →
        (s.deliverData offset data).1.state = .reset) := by
  obtain ⟨_, _, _, _, _, same⟩ := s.sameButBuffers_placeLocked offset data
  have placed : (s.placeLocked offset data).1.state = s.state := by rw [same]
  have unseen : (s.placeLocked offset data).1.finSeen = false := by
    rw [same]
    exact unended.finSeen
  rw [deliverData_unended unended.finSeen]
  split
  · have over' : ((s.placeLocked offset data).1.reset errorFlowControlError).1.state = .reset := by
      unfold reset
      split
      · rename_i stopped
        rw [placed] at stopped ⊢
        rcases unended.state with idle | opened | reset
        · rw [idle] at stopped
          exact absurd stopped (by decide)
        · rw [opened] at stopped
          exact absurd stopped (by decide)
        · exact reset
      · rfl
    have kept : ((s.placeLocked offset data).1.reset errorFlowControlError).1.finSeen = false := by
      unfold reset
      split <;> exact unseen
    exact ⟨⟨kept, .inr (.inr over')⟩, fun _ => over'⟩
  · rename_i kept
    refine ⟨⟨unseen, ?_⟩, fun broken => absurd broken kept⟩
    rw [placed]
    exact unended.state

theorem Intact.receive (intact : s.Intact family) (laminar : Span.Laminar family)
    (small : ∀ c ∈ family, c.stop < 2 ^ 64) {f : StreamFrame} (member : f.span ∈ family)
    (plain : f.isFin = false) :
    Absorbs Intact (fun s => s.state ≠ .reset) family s f (s.receive f).1 := by
  obtain ⟨kept, advances, holds⟩ := intact.toInPlace.receive laminar small member
  have received : (s.receive f).1 =
      if f.data.length > 0 then (s.deliverData f.offset.toNat f.data).1 else s := by
    unfold Stream.receive
    dsimp only
    rw [plain, if_neg Bool.false_ne_true]
    split <;> rfl
  have flag := congrArg Store.flowControlViolation (s.store_deliverData f.offset.toNat f.data)
  obtain ⟨unended, reset⟩ := intact.unended.deliverData f.offset.toNat f.data
  split at received
  · refine ⟨⟨kept, received ▸ unended⟩, advances, fun live => holds ?_⟩
    rw [received] at live ⊢
    exact Bool.eq_false_iff.mpr fun broken => live (reset (flag.symm.trans broken))
  · rename_i empty
    refine ⟨⟨kept, received.symm ▸ intact.unended⟩, advances, fun _ _ x inside =>
      absurd (Nat.lt_of_le_of_lt inside.1 inside.2) ?_⟩
    show ¬ f.offset.toNat < f.offset.toNat + f.data.length
    omega

/-- A stream stays `P`, whatever its side does with it and whatever comes on it. Its
own side may end it at `own`, and the other at `far`. -/
structure Upheld (own far : Endings) (P : Set Span → Stream → Prop) (live : Stream → Prop) :
    Prop where
  ordered : ∀ {family : Set Span} {s : Stream}, P family s → s.Ordered family
  mono : ∀ {family more : Set Span} {s : Stream}, P family s → family ⊆ more → P more s
  blank : ∀ {family : Set Span} {s : Stream}, s.Blank → P family s
  retains : ∀ {family : Set Span} {s t : Stream}, s.Retains t →
    ((∀ id offset, ¬ own id offset) → s.Unended → t.Unended) → P family s → P family t
  receive : ∀ {family : Set Span} {s : Stream} {f : StreamFrame}, P family s →
    Span.Laminar family → (∀ c ∈ family, c.stop < 2 ^ 64) → f.span ∈ family →
    (f.isFin = true → ∃ id, far id f.offset.toNat) → Absorbs P live family s f (s.receive f).1

theorem upheld_intact : Upheld .never .never Intact fun s => s.state ≠ .reset where
  ordered intact := intact.ordered
  mono intact grown := ⟨intact.toInPlace.mono grown, intact.unended⟩
  blank blank := ⟨blank.inPlace, blank.unended⟩
  retains retains unended intact :=
    ⟨intact.toInPlace.congr retains.early retains.front,
      unended (fun _ _ => not_false) intact.unended⟩
  receive intact laminar small member ends :=
    intact.receive laminar small member (Bool.eq_false_iff.mpr fun fin => (ends fin).choose_spec)

end Stream

theorem Flight.OfExchange.ends_of_isFin {f : Flight} {ends : Stream.Endings} {plain : Packet → Prop}
    (ofExchange : f.OfExchange ends plain) (quiet : CarryNoData plain) {pkt : Packet}
    (sent : pkt ∈ f.wire)
    {id : UInt32} {sf : StreamFrame} (holds : pkt.IsStreamFrame id sf) (fin : sf.isFin = true) :
    ∃ id, ends id sf.offset.toNat := by
  rcases ofExchange.shaped.wire pkt sent with ⟨x, formed, carries⟩ | control
  · exact ⟨_, (formed.2 sf (carries.isStreamFrame.mp holds).1 fin).1⟩
  · exact absurd holds ((quiet pkt control).2 id sf)

instance (s t : Stream) : Decidable (s.Counterpart t) := inferInstanceAs
  (Decidable (s.remoteID = 0 ∧ t.remoteID = s.id ∨ s.remoteID = t.id ∧ t.remoteID = 0))

theorem Stream.Counterpart.congr_left {s u t : Stream} (counterpart : s.Counterpart t)
    (same : u.ids = s.ids) : u.Counterpart t := by
  obtain ⟨id, remoteID⟩ := Prod.mk.inj same
  rw [Stream.Counterpart, id, remoteID]
  exact counterpart

namespace Connection

variable {F : Type} {a a' b : Connection F} {base peerBase : Nat} {t u : Stream} {id : UInt32}

/-- What goes out on the stream `id` is for `t`. -/
def Feeds (a : Connection F) (id : UInt32) (t : Stream) : Prop :=
  ∃ s, a.streams.lookup id = some s ∧ s.Counterpart t

/-- Streams stay, under the IDs they have. -/
def Lasts (a a' : Connection F) : Prop :=
  ∀ id s, a.streams.lookup id = some s → ∃ s', a'.streams.lookup id = some s' ∧ s'.ids = s.ids

/-- The spans of the frames that have gone out for `t`. -/
def brought (a : Connection F) (t : Stream) : Set Span :=
  { c | ∃ id, a.Feeds id t ∧ ∃ pkt ∈ a.outbound.wire, ∃ sf, pkt.IsStreamFrame id sf ∧ sf.span = c }

theorem Feeds.congr (feeds : a.Feeds id t) (same : u.ids = t.ids) : a.Feeds id u := by
  obtain ⟨s, found, counterpart⟩ := feeds
  exact ⟨s, found, counterpart.congr same⟩

theorem Feeds.grow (feeds : a.Feeds id t) (lasts : Lasts a a') : a'.Feeds id t := by
  obtain ⟨s, found, counterpart⟩ := feeds
  obtain ⟨s', found', same⟩ := lasts id s found
  exact ⟨s', found', counterpart.congr_left same⟩

theorem brought_congr (same : u.ids = t.ids) : a.brought u = a.brought t := by
  ext c
  constructor
  · rintro ⟨id, feeds, sent⟩
    exact ⟨id, feeds.congr same.symm, sent⟩
  · rintro ⟨id, feeds, sent⟩
    exact ⟨id, feeds.congr same, sent⟩

theorem brought_mono (lasts : Lasts a a') (wire : ∀ pkt ∈ a.outbound.wire, pkt ∈ a'.outbound.wire) :
    a.brought t ⊆ a'.brought t := by
  rintro c ⟨id, feeds, pkt, sent, holds⟩
  exact ⟨id, feeds.grow lasts, pkt, wire pkt sent, holds⟩

/-- Either side's table in view of the other's. -/
structure Facing (base peerBase : Nat) (a b : Connection F) : Prop where
  sender : PairsStreams base b a
  receiver : PairsStreams peerBase a b
  positive : 0 < base
  positive' : 0 < peerBase

namespace Facing

variable (facing : Facing base peerBase a b)
include facing

theorem unique (named : t.id ≠ 0) {other : UInt32} (feeds : a.Feeds id t)
    (feeds' : a.Feeds other t) : id = other := by
  obtain ⟨s, found, counterpart⟩ := feeds
  obtain ⟨u, found', counterpart'⟩ := feeds'
  have member := Tables.mem_entries_iff.mpr found
  have member' := Tables.mem_entries_iff.mpr found'
  have key := facing.sender.keyed.id_eq found
  have key' := facing.sender.keyed.id_eq found'
  have nonzero := facing.sender.id_ne_zero facing.positive (List.mem_map_of_mem member)
  have nonzero' := facing.sender.id_ne_zero facing.positive (List.mem_map_of_mem member')
  rcases counterpart with ⟨-, remote⟩ | ⟨own, remote⟩ <;>
    rcases counterpart' with ⟨-, remote'⟩ | ⟨own', remote'⟩
  · rw [← key, ← key', ← remote, ← remote']
  · exact absurd (remote.symm.trans remote') nonzero
  · exact absurd (remote'.symm.trans remote) nonzero'
  · have same := facing.sender.remote_unique member member' (own ▸ named) (own.trans own'.symm)
    exact congrArg Sigma.fst same

theorem brought_subset (named : t.id ≠ 0) (feeds : a.Feeds id t) :
    a.brought t ⊆ a.outbound.spans id := by
  rintro c ⟨other, feeds', pkt, sent, sf, holds, rfl⟩
  rw [facing.unique named feeds feeds']
  exact Flight.mem_spans_of_wire sent holds

theorem laminar_brought (nested : a.outbound.Nested) (named : t.id ≠ 0) :
    Span.Laminar (a.brought t) := by
  rintro c ⟨id, feeds, sent⟩ d other
  have within := facing.brought_subset named feeds
  exact nested.laminar id c (within ⟨id, feeds, sent⟩) d (within other)

theorem small_brought (nested : a.outbound.Nested) (named : t.id ≠ 0) :
    ∀ c ∈ a.brought t, c.stop < 2 ^ 64 := by
  rintro c ⟨id, feeds, sent⟩
  have within := facing.brought_subset named feeds ⟨id, feeds, sent⟩
  exact Nat.lt_of_le_of_lt (nested.bounded id c within) (nested.small id)

theorem id_ne_zero {e : (_ : UInt32) × Stream} (member : e ∈ b.streams.entries) : e.2.id ≠ 0 :=
  facing.receiver.id_ne_zero facing.positive' (List.mem_map_of_mem member)

theorem named {label : UInt32 × UInt32} (known : label ∈ a.ids) :
    ∃ s, a.streams.lookup label.1 = some s ∧ s.ids = label := by
  obtain ⟨e, member, rfl⟩ := List.mem_map.mp known
  refine ⟨e.2, ?_, rfl⟩
  show a.streams.lookup e.2.id = _
  rw [facing.sender.keyed e member]
  exact Tables.lookup_of_mem e member

theorem feeds_of_found {pkt : Packet}
    (label : (pkt.sourceStreamID, pkt.destinationStreamID) ∈ a.ids ∨
      (pkt.sourceStreamID, pkt.destinationStreamID) = (0, 0))
    (found : b.findStream pkt.destinationStreamID pkt.sourceStreamID = some t) :
    a.Feeds pkt.sourceStreamID t := by
  have known : (pkt.sourceStreamID, pkt.destinationStreamID) ∈ a.ids := by
    refine label.resolve_right fun zero => ?_
    obtain ⟨source, destination⟩ := Prod.mk.inj zero
    rw [findStream, source, destination, facing.receiver.lookup_zero facing.positive'] at found
    cases found
  obtain ⟨s, here, ids⟩ := facing.named known
  obtain ⟨source, destination⟩ := Prod.mk.inj ids
  refine ⟨s, here, facing.sender.counterpart facing.receiver facing.positive' ?_ ?_⟩
  · exact List.mem_map_of_mem (Tables.mem_entries_iff.mpr here)
  · rw [source, destination]
    exact found

theorem feeds_of_missing {pkt : Packet}
    (label : (pkt.sourceStreamID, pkt.destinationStreamID) ∈ a.ids ∨
      (pkt.sourceStreamID, pkt.destinationStreamID) = (0, 0))
    (missing : b.findStream pkt.destinationStreamID pkt.sourceStreamID = none)
    (source : pkt.sourceStreamID ≠ 0) (remote : t.remoteID = pkt.sourceStreamID) :
    a.Feeds pkt.sourceStreamID t := by
  obtain ⟨s, here, ids⟩ := facing.named (label.resolve_right fun zero =>
    source (congrArg Prod.fst zero))
  obtain ⟨own, destination⟩ := Prod.mk.inj ids
  refine ⟨s, here, .inl ⟨?_, remote.trans own.symm⟩⟩
  refine facing.sender.opener facing.receiver
    (List.mem_map_of_mem (Tables.mem_entries_iff.mpr here)) ?_
  rw [own, destination]
  exact missing

/-- A STREAM frame goes to the stream that its sender's feeds, if it is taken at all. -/
theorem feeds_of_receives {pkt : Packet} {f : StreamFrame} (sent : pkt ∈ a.outbound.wire)
    (frames : pkt.frames = [.stream f]) {table : AList fun _ : UInt32 => Stream}
    (receives : Receives b pkt f table) :
    (table = b.streams ∧
      b.findStream pkt.destinationStreamID pkt.sourceStreamID = none ∧
      (pkt.sourceStreamID = 0 ∨ f.isSyn = false ∧ f.data = [])) ∨
      ∃ t, table = b.streams.insert t.id (t.receive f).1 ∧ a.Feeds pkt.sourceStreamID t ∧
        t.id ≠ 0 ∧ (b.streams.lookup t.id = some t ∨ b.streams.lookup t.id = none ∧ t.Blank) := by
  obtain ⟨d, member, rfl⟩ := List.mem_map.mp sent
  have directed : d.packet.frames.any Frame.directed = true := by
    rw [frames]
    rfl
  have label := facing.sender.labels.wire d member directed
  cases receives with
  | none missing refused => exact .inl ⟨rfl, missing, refused⟩
  | found t found =>
    obtain ⟨e, inside, rfl⟩ := mem_of_findStream found
    exact .inr ⟨e.2, rfl, facing.feeds_of_found label found, facing.id_ne_zero inside,
      .inl (facing.receiver.keyed.lookup_of_findStream found)⟩
  | entered t missing source ids blank =>
    obtain ⟨id, remote⟩ := Prod.mk.inj ids
    have absent : b.streams.lookup t.id = none := by
      rw [id]
      exact AList.lookup_eq_none.mpr facing.receiver.absent
    refine .inr ⟨t, rfl, facing.feeds_of_missing label missing source remote, ?_,
      .inr ⟨absent, blank⟩⟩
    intro zero
    have next := facing.receiver.next
    rw [← id, zero, UInt32.toNat_zero] at next
    have := facing.positive'
    omega

end Facing

/-- Streams stay, under their IDs, each related to what it was. -/
def Kept (R : Stream → Stream → Prop) (b : Connection F)
    (table : AList fun _ : UInt32 => Stream) : Prop :=
  ∀ e ∈ b.streams.entries, ∃ e' ∈ table.entries, e'.2.ids = e.2.ids ∧ R e.2 e'.2

/-- What an act of `b` leaves of what `a` brought it, where a stream stays `P` and has what
comes while it is `live`. -/
structure Delivered (P : Set Span → Stream → Prop) (live : Stream → Prop) (a b : Connection F)
    (told more : List UInt32) (table : AList fun _ : UInt32 => Stream) : Prop where
  each : ∀ e ∈ table.entries, P (a.brought e.2) e.2
  kept : b.Kept (fun s t => ∀ offset, s.Has offset → t.Has offset) table
  noted : ∀ n ∈ more, n ∉ told → ∀ x, (n, x) ∈ a.outbound.tracked → ∀ id offset,
    x.bears id offset = true →
      ∃ e ∈ table.entries, a.Feeds id e.2 ∧ (live e.2 → e.2.Has offset)

section Table

variable {R : Stream → Stream → Prop} {table : AList fun _ : UInt32 => Stream} {key : UInt32}

theorem Kept.lasts (kept : b.Kept R a.streams) (keyed : b.Keyed) (keyed' : a.Keyed) :
    Lasts b a := by
  intro id s found
  obtain ⟨e, member, ids, -⟩ := kept ⟨id, s⟩ (Tables.mem_entries_iff.mpr found)
  have key : e.1 = id :=
    (keyed' e member).symm.trans ((congrArg Prod.fst ids).trans (keyed.id_eq found))
  exact ⟨e.2, key ▸ Tables.lookup_of_mem e member, ids⟩

theorem kept_same (refl : ∀ s, R s s) : b.Kept R b.streams :=
  fun e member => ⟨e, member, rfl, refl e.2⟩

theorem kept_insert (refl : ∀ s, R s s)
    (own : ∀ s, b.streams.lookup key = some s → t.ids = s.ids ∧ R s t) :
    b.Kept R (b.streams.insert key t) := by
  intro e member
  by_cases same : e.1 = key
  · subst same
    exact ⟨⟨e.1, t⟩, Tables.mem_entries_iff.mpr (AList.lookup_insert _),
      own e.2 (Tables.lookup_of_mem e member)⟩
  · refine ⟨e, Tables.mem_entries_iff.mpr ?_, rfl, refl e.2⟩
    rw [AList.lookup_insert_ne same]
    exact Tables.lookup_of_mem e member

theorem forall_insert {P : Set Span → Stream → Prop} (here : P (a.brought t) t)
    (old : ∀ e ∈ table.entries, P (a.brought e.2) e.2) :
    ∀ e ∈ (table.insert key t).entries, P (a.brought e.2) e.2 := by
  intro e member
  rcases Tables.mem_of_mem_insert member with rfl | before
  · exact here
  · exact old e before

end Table

variable {told more : List UInt32} {plain brings : Packet → Prop}
    {table : AList fun _ : UInt32 => Stream}

section Upheld

variable {own far : Stream.Endings} {P : Set Span → Stream → Prop} {live : Stream → Prop}
  (upheld : Stream.Upheld own far P live) (each : ∀ e ∈ b.streams.entries, P (a.brought e.2) e.2)
include upheld each

theorem Stocks.delivered (stocks : Stocks own b table) : Delivered P live a b told told table := by
  cases stocks with
  | same =>
    exact ⟨each, kept_same fun _ _ has => has, fun n member new => absurd member new⟩
  | set s t found retains unended =>
    have member := Tables.mem_entries_iff.mpr found
    refine ⟨forall_insert ?_ each, kept_insert (fun _ _ has => has) fun u found' => ?_,
      fun n member new => absurd member new⟩
    · rw [brought_congr retains.ids]
      exact upheld.retains retains unended (each _ member)
    · obtain rfl := Option.some.inj (found.symm.trans found')
      exact ⟨retains.ids, fun offset has => retains.has has⟩
  | new t absent blank =>
    refine ⟨forall_insert (upheld.blank blank) each,
      kept_insert (fun _ _ has => has) fun u found => ?_, fun n member new => absurd member new⟩
    cases absent.symm.trans found

end Upheld

theorem carries_of_noting {pkt : Packet} (numbered : a.outbound.Numbered)
    (sent : pkt ∈ a.outbound.wire) {n : UInt32} (noted : n ∈ pkt.noting told) (new : n ∉ told)
    {x : Cargo} (tracked : (n, x) ∈ a.outbound.tracked) : x.Carries pkt := by
  obtain ⟨elicits, rfl⟩ := (Packet.mem_noting.mp noted).resolve_left new
  exact (numbered.shown pkt sent elicits).2 x tracked

theorem Facing.delivered {own far : Stream.Endings} {P : Set Span → Stream → Prop}
    {live : Stream → Prop}
    (upheld : Stream.Upheld own far P live) (facing : Facing base peerBase a b)
    (ofExchange : a.outbound.OfExchange far plain) (quiet : Flight.CarryNoData plain)
    (empty : a.outbound.extent 0 = 0) (each : ∀ e ∈ b.streams.entries, P (a.brought e.2) e.2)
    (taken : Alters own brings told a b more table) : Delivered P live a b told more table := by
  cases taken with
  | own stocks => exact stocks.delivered upheld each
  | probe pkt sent size frames =>
    refine ⟨each, kept_same fun _ _ has => has, ?_⟩
    intro n noted new x tracked id offset bears
    have carries := carries_of_noting ofExchange.numbered sent noted new tracked
    rw [Cargo.bears, ← carries.frames, frames] at bears
    simp at bears
  | stream pkt sent _ f frames receives =>
    have ends := ofExchange.ends_of_isFin quiet sent ⟨frames, rfl⟩
    have span (n : UInt32) (noted : n ∈ pkt.noting told) (new : n ∉ told) (x : Cargo)
        (tracked : (n, x) ∈ a.outbound.tracked) (id : UInt32) (offset : Nat)
        (bears : x.bears id offset = true) :
        x ∈ a.outbound.live ∧ x.IsStreamFrame id f ∧ pkt.sourceStreamID = id ∧ offset ∈ f.span := by
      have carries := carries_of_noting ofExchange.numbered sent noted new tracked
      obtain ⟨holds, inside⟩ :=
        (Cargo.bears_of_stream (carries.frames.symm.trans frames) id offset).mp bears
      exact ⟨Flight.mem_live_of_tracked tracked, holds, carries.source.trans holds.2, inside⟩
    rcases facing.feeds_of_receives sent frames receives with
      ⟨rfl, -, refused⟩ | ⟨t, rfl, feeds, named, present⟩
    · refine ⟨each, kept_same fun _ _ has => has, ?_⟩
      intro n noted new x tracked id offset bears
      obtain ⟨alive, holds, rfl, inside⟩ := span n noted new x tracked id offset bears
      have bounded := ofExchange.nested.bounded _ _ (Flight.mem_spans_of_live alive holds)
      have inside' : f.offset.toNat ≤ offset ∧ offset < f.offset.toNat + f.data.length := inside
      rcases refused with zero | ⟨-, none⟩
      · rw [zero, empty] at bounded
        have stop : f.offset.toNat + f.data.length ≤ 0 := bounded
        omega
      · rw [none, List.length_nil] at inside'
        omega
    · have known : f.span ∈ a.brought t := ⟨_, feeds, pkt, sent, f, ⟨frames, rfl⟩, rfl⟩
      have before : P (a.brought t) t := by
        rcases present with found | ⟨-, blank⟩
        · exact each ⟨t.id, t⟩ (Tables.mem_entries_iff.mpr found)
        · exact upheld.blank blank
      have absorbs := upheld.receive before (facing.laminar_brought ofExchange.nested named)
        (facing.small_brought ofExchange.nested named) known ends
      have ids := t.ids_receive f
      refine ⟨forall_insert ?_ each, kept_insert (fun _ _ has => has) fun u found => ?_, ?_⟩
      · rw [brought_congr ids]
        exact absorbs.kept
      · rcases present with here | ⟨absent, -⟩
        · obtain rfl := Option.some.inj (here.symm.trans found)
          exact ⟨ids, fun offset has => absorbs.advances.has (upheld.ordered absorbs.kept) has⟩
        · cases absent.symm.trans found
      · intro n noted new x tracked id offset bears
        obtain ⟨alive, holds, rfl, inside⟩ := span n noted new x tracked id offset bears
        refine ⟨⟨t.id, (t.receive f).1⟩, Tables.mem_entries_iff.mpr (AList.lookup_insert _),
          feeds.congr ids, fun live => absorbs.holds live (fun chunk held => ?_) offset inside⟩
        -- what went out at the same offset and is held covers the packet's piece
        obtain ⟨filled, went⟩ := (upheld.ordered before).early _ _ held
        have inside' : f.offset.toNat ≤ offset ∧ offset < f.offset.toNat + f.data.length := inside
        have within := ofExchange.nested.finest x alive _ f holds _
          (facing.brought_subset named feeds went) f.offset.toNat
          ⟨Nat.le_refl _, show _ < f.offset.toNat + f.data.length by omega⟩
          ⟨Nat.le_refl _, show _ < f.offset.toNat + chunk.length by omega⟩
        have stop : f.offset.toNat + f.data.length ≤ f.offset.toNat + chunk.length := within.2
        omega

end Connection

theorem Flight.Secured.mono {f : Flight} {id : UInt32} {noted : List UInt32}
    {held more : Nat → Prop}
    (secured : f.Secured id noted held) (grown : ∀ offset, held offset → more offset) :
    f.Secured id noted more :=
  fun offset =>
    ⟨fun e member reported bears => grown offset ((secured offset).safe e member reported bears),
      fun below => ((secured offset).covered below).imp_right (grown offset)⟩

namespace Net

open Connection

variable {F : Type} [Float64 F] {n n' : Net F} {side actor : Side} {id : UInt32}
  {told : Side → List UInt32}

def Unreset (n : Net F) (side : Side) (id : UInt32) : Prop :=
  ∀ s ∈ (n.conn side).streams.lookup id, s.state ≠ .reset ∧
    ∀ e ∈ (n.conn side.other).streams.entries, s.Counterpart e.2 → e.2.state ≠ .reset

/-- The other side has the byte. -/
def Held (n : Net F) (side : Side) (id : UInt32) (offset : Nat) : Prop :=
  ∃ e ∈ (n.conn side.other).streams.entries, (n.conn side).Feeds id e.2 ∧ e.2.Has offset

omit [Float64 F] in
theorem Linked.facing (linked : n.Linked) (side : Side) :
    Facing side.other.base side.base (n.conn side.other) (n.conn side) := by
  have positive (side : Side) : 0 < side.base := by cases side <;> decide
  have there := linked side.other
  rw [Side.other_other] at there
  exact ⟨there, linked side, positive _, positive _⟩

/-- An exchange in which every stream is `P`, and the bytes of the stream `id` are on their
way or the other side has them. -/
structure Ferried (P : Set Span → Stream → Prop) (ends : Side → Stream.Endings)
    (told : Side → List UInt32) (side : Side) (id : UInt32) (n : Net F) : Prop where
  exchanged : n.Exchanged ends told
  each : ∀ side, ∀ e ∈ (n.conn side).streams.entries, P ((n.conn side.other).brought e.2) e.2
  secured : (n.conn side).outbound.Secured id (told side.other) (n.Held side id)

section Ferried

variable {P : Set Span → Stream → Prop} {live : Stream → Prop} {ends : Side → Stream.Endings}
  (upheld : ∀ side : Side, Stream.Upheld (ends side) (ends side.other) P live)
include upheld

omit [Float64 F] in
/-- What an act leaves of what the other side brought. -/
theorem Ferried.delivered {act : Act} {more : List UInt32} (ferried : n.Ferried P ends told side id)
    (acted : Acted ends told actor act more n n') :
    Delivered P live (n.conn actor.other) (n.conn actor) (told actor) more (n'.conn actor).streams := by
  have facing := ferried.exchanged.linked.facing actor
  refine facing.delivered (upheld actor) (ferried.exchanged.keeping actor.other).ofExchange quiet_plain ?_
    (ferried.each actor) acted.taken
  exact written_of_absent (facing.sender.lookup_zero facing.positive)

omit [Float64 F] in
theorem Ferried.next {act : Act} {more : List UInt32} (ferried : n.Ferried P ends told side id)
    (acted : Acted ends told actor act more n n')
    (alive : ∀ s ∈ (n'.conn side).streams.lookup id,
      ∀ e ∈ (n'.conn side.other).streams.entries, s.Counterpart e.2 → live e.2) :
    n'.Ferried P ends (Function.update told actor more) side id := by
  have delivered := ferried.delivered upheld acted
  have still := acted.still
  have lasts : Lasts (n.conn actor) (n'.conn actor) :=
    delivered.kept.lasts (ferried.exchanged.linked actor).keyed (acted.exchanged.linked actor).keyed
  have wire (pkt : Packet) (sent : pkt ∈ (n.conn actor).outbound.wire) :
      pkt ∈ (n'.conn actor).outbound.wire :=
    acted.secures _ (Flight.stable_wire pkt) sent
  refine ⟨acted.exchanged, Side.forall_of actor ?_ ?_, ?_⟩
  · rw [still]
    exact delivered.each
  · rw [still, Side.other_other]
    have before := ferried.each actor.other
    rw [Side.other_other] at before
    exact fun e member => (upheld actor).mono (before e member) (brought_mono lasts wire)
  · rcases actor.eq_or_eq_other side with rfl | rfl
    · -- the sender acts
      rw [Function.update_of_ne actor.other_ne]
      have secured := acted.secures _ Flight.stable_secured ferried.secured
      refine secured.mono fun offset ⟨e, member, feeds, has⟩ => ⟨e, ?_, feeds.grow lasts, has⟩
      rw [still]
      exact member
    · -- the receiver acts
      rw [Side.other_other] at delivered still
      rw [Function.update_self, still]
      have grown (offset : Nat) (held : n.Held side id offset) : n'.Held side id offset := by
        obtain ⟨e, member, feeds, has⟩ := held
        obtain ⟨e', member', ids, more⟩ := delivered.kept e member
        refine ⟨e', member', ?_, more offset has⟩
        rw [still]
        exact feeds.congr ids
      refine fun offset => ⟨fun e member noted bears => ?_,
        (ferried.secured.mono grown offset).covered⟩
      by_cases old : e.1 ∈ told side.other
      · exact grown offset ((ferried.secured offset).safe e member old bears)
      · obtain ⟨e', member', feeds, has⟩ := delivered.noted e.1 noted old e.2 member id offset bears
        obtain ⟨s, found, counterpart⟩ := feeds
        rw [← still] at found
        exact ⟨e', member', ⟨s, found, counterpart⟩, has (alive s found e' member' counterpart)⟩

end Ferried

instance (n : Net F) (side : Side) (id : UInt32) : Decidable (n.Unreset side id) := inferInstanceAs
  (Decidable (∀ s ∈ (n.conn side).streams.lookup id, s.state ≠ .reset ∧
    ∀ e ∈ (n.conn side.other).streams.entries, s.Counterpart e.2 → e.2.state ≠ .reset))

theorem ferried_start (P : Set Span → Stream → Prop) (ends : Side → Stream.Endings)
    (cid peerCID : ConnectionID) (addr peerAddr : Addr) (now : Time) :
    (start cid peerCID addr peerAddr now : Net F).Ferried P ends (fun _ => []) side id := by
  have none (side : Side) : ((start cid peerCID addr peerAddr now : Net F).conn side).streams = ∅ :=
    streams_start cid peerCID addr peerAddr now side
  refine ⟨exchanged_start cid peerCID addr peerAddr now, fun side e member => ?_,
    fun offset => ⟨fun e member noted => absurd noted List.not_mem_nil, fun below => ?_⟩⟩
  · rw [none] at member
    cases member
  · have empty : ((start cid peerCID addr peerAddr now : Net F).conn side).written id = 0 :=
      written_of_absent (by rw [none]; rfl)
    have below : offset < ((start cid peerCID addr peerAddr now : Net F).conn side).written id := below
    rw [empty] at below
    cases below

/-- In every run without ends in which the stream is not reset, what has been written on
it is in a packet that is tracked or waits, or the other side has it. -/
theorem no_byte_lost {cid peerCID : ConnectionID} {addr peerAddr : Addr} {now : Time}
    {acts : List (Side × Act)}
    (along : Runs.Along act (fun n turn => turn.2.closes = false ∧
      ∀ n' ∈ n.act turn, n'.Going ∧ n'.Unreset side id)
      (start cid peerCID addr peerAddr now : Net F) acts)
    (reached : Runs.run act (start cid peerCID addr peerAddr now : Net F) acts = some n)
    {s : Stream} (found : (n.conn side).streams.lookup id = some s) {offset : Nat}
    (below : offset < s.bytesWritten) :
    (∃ e ∈ (n.conn side).pm.sentPackets.entries,
      ((n.conn side).pm.cargo e.2).bears id offset = true) ∨
    (∃ p ∈ (n.conn side).lostQueue, ((n.conn side).pm.cargo p).bears id offset = true) ∨
    ∃ e ∈ (n.conn side.other).streams.entries, s.Counterpart e.2 ∧ e.2.Has offset := by
  have kept : n.Going ∧ ∃ told, n.Ferried Stream.Intact (fun _ => .never) told side id := by
    refine Runs.invariant (fun n => n.Going ∧
      ∃ told, n.Ferried Stream.Intact (fun _ => .never) told side id) ?_
      ⟨going_start cid peerCID addr peerAddr now, _,
        ferried_start Stream.Intact _ cid peerCID addr peerAddr now⟩ along reached
    rintro n ⟨actor, act⟩ n' ⟨going, told, ferried⟩ ⟨open', later⟩ taken
    obtain ⟨going', unreset⟩ := later n' taken
    have ongoing : ∀ id, ∀ offset ∈ act.ending (n.conn actor) id, Stream.Endings.never id offset := by
      intro id offset member
      rw [act.ending_of_open open'] at member
      cases member
    obtain ⟨more, acted⟩ := ferried.exchanged.act ongoing going going' taken
    exact ⟨going', _, ferried.next (fun _ => Stream.upheld_intact) acted
      fun s found => (unreset s found).2⟩
  obtain ⟨-, told, ferried⟩ := kept
  have extent : offset < (n.conn side).written id := by
    rw [written_of_found found]
    exact below
  rcases (ferried.secured offset).covered extent with ⟨x, alive, bears⟩ | ⟨e, member, feeds, has⟩
  · rcases mem_live_iff.mp alive with ⟨e, member, rfl⟩ | ⟨p, member, rfl⟩
    · exact .inl ⟨e, member, bears⟩
    · exact .inr (.inl ⟨p, member, bears⟩)
  · obtain ⟨u, present, counterpart⟩ := feeds
    obtain rfl := Option.some.inj (found.symm.trans present)
    exact .inr (.inr ⟨e, member, counterpart, has⟩)

/-- The first byte of the first stream that the dialler opens. -/
def hello : Packet := met.left.conn.packet 1 0 1 [.stream ⟨false, true, 0, [7]⟩]

def goodbye : Packet := met.left.conn.packet 2 0 1 [.stream ⟨true, false, 1, []⟩]

/-- The dialler opens a stream, writes a byte on it and closes it. -/
def farewell : List (Side × Act) :=
  [(.left, .own .openStream), (.left, .own (.write 0 1 true [7])),
    (.left, .own (.closeStream 0 1))]

/-- The dialler opens a stream and writes on it, and what it wrote is acknowledged. -/
def handedOver : List (Side × Act) :=
  let noted := met.right.conn.packet 0 1 0 [.ack ⟨1, 0, 1, []⟩]
  [(.left, .own .openStream), (.left, .own (.write 0 1 true [7])), (.right, .handlePacket 0 hello),
    (.left, .handlePacket 0 noted)]

theorem no_byte_lost_handedOver : ∃ n s, Runs.run act met handedOver = some n ∧
    (n.conn .left).streams.lookup 1 = some s ∧ 0 < s.bytesWritten ∧
    (n.conn .left).pm.sentPackets.lookup 1 = none ∧ (n.conn .left).lostQueue = [] ∧
    ((∃ e ∈ (n.conn .left).pm.sentPackets.entries,
      ((n.conn .left).pm.cargo e.2).bears 1 0 = true) ∨
    (∃ p ∈ (n.conn .left).lostQueue, ((n.conn .left).pm.cargo p).bears 1 0 = true) ∨
    ∃ e ∈ (n.conn .right).streams.entries, s.Counterpart e.2 ∧ e.2.Has 0) := by
  have along : Runs.Along act (fun n turn => turn.2.closes = false ∧
      ∀ n' ∈ n.act turn, n'.Going ∧ n'.Unreset .left 1) met handedOver := by
    decide +kernel
  have ends : (Runs.run act met handedOver).any (fun n =>
      decide (((n.conn .left).streams.lookup 1).any (fun s => 0 < s.bytesWritten) ∧
        (n.conn .left).pm.sentPackets.lookup 1 = none ∧ (n.conn .left).lostQueue = [])) = true := by
    decide +kernel
  obtain ⟨n, reached, ends⟩ := Runs.reaches_of_any ends
  obtain ⟨written, tracked, waiting⟩ := of_decide_eq_true ends
  obtain ⟨s, found, positive⟩ := (Option.any_eq_true _ _).mp written
  have below : 0 < s.bytesWritten := of_decide_eq_true positive
  exact ⟨n, s, reached, found, below, tracked, waiting, no_byte_lost along reached found below⟩

end Net

end Udx
