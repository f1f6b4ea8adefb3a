import Mathlib.Data.List.Perm.Subperm
import Udx.Network

set_option autoImplicit false

/- Which stream a frame reaches. A stream that one side opens goes out under
its own ID and the destination 0, for the opener never learns its peer's ID; the
peer finds its counterpart by scanning for that ID, and answers under both. -/

namespace Udx

namespace Stream

/-- One of the two was opened by its side, and the other entered for it. -/
def Counterpart (s t : Stream) : Prop :=
  s.remoteID = 0 ∧ t.remoteID = s.id ∨ s.remoteID = t.id ∧ t.remoteID = 0

variable {s t u : Stream}

theorem Counterpart.congr (counterpart : Counterpart s t) (same : u.ids = t.ids) :
    Counterpart s u := by
  obtain ⟨id, remoteID⟩ := Prod.mk.inj same
  rw [Counterpart, id, remoteID]
  exact counterpart

end Stream

namespace Connection

variable {F : Type} {a b c : Connection F} {known : UInt32 × UInt32 → Prop}

/-- What is for a stream goes out, and waits to go out again, under known IDs. -/
structure Labels (c : Connection F) (known : UInt32 × UInt32 → Prop) : Prop where
  held : ∀ p, (c.pm.cargo p).Addressed known
  wire : ∀ d ∈ c.wire, d.packet.Addressed known

theorem Labels.congr (labels : a.Labels known) (cargo : b.pm.cargo = a.pm.cargo)
    (wire : b.wire = a.wire) : b.Labels known := by
  refine ⟨?_, ?_⟩
  · rw [cargo]
    exact labels.held
  · rw [wire]
    exact labels.wire

theorem Labels.sendControlTo (labels : c.Labels known) {frames : List Frame}
    (control : frames.any Frame.directed = false) (addr : Addr) :
    (c.sendControlTo frames addr).Labels known := by
  have cargo : (c.sendControlTo frames addr).pm.cargo = c.pm.cargo := rfl
  refine ⟨?_, ?_⟩
  · rw [cargo]
    exact labels.held
  · rw [wire_sendControlTo]
    refine List.forall_mem_cons.mpr ⟨fun directed => ?_, labels.wire⟩
    cases control.symm.trans directed

theorem Labels.mono {more : UInt32 × UInt32 → Prop} (labels : c.Labels known)
    (grown : ∀ label, known label → more label) : c.Labels more :=
  ⟨fun p directed => grown _ (labels.held p directed),
    fun d member directed => grown _ (labels.wire d member directed)⟩

theorem Keeps.labels {listed : List (UInt32 × UInt32)} (keeps : Keeps listed a b)
    (all : ∀ label ∈ listed, known label) (labels : a.Labels known) : b.Labels known := by
  obtain ⟨sent, -, wire, -, -, labelled⟩ := keeps.sent
  obtain ⟨held, late⟩ := labelled known all labels.held
  refine ⟨held, ?_⟩
  rw [wire]
  exact List.forall_mem_append.mpr ⟨late, labels.wire⟩

theorem Changes.labels (keyed : a.Keyed) (changes : Changes a b)
    (all : ∀ label ∈ a.ids, known label) (labels : a.Labels known) : b.Labels known := by
  induction changes with
  | refl => exact labels
  | @tail b c before change ih =>
    cases change with
    | work keeps =>
      have same : b.ids.Perm a.ids := (Changes.restocks keyed before).ids
      exact keeps.labels (fun label member => all label (same.mem_iff.mp member)) ih
    | stream t => exact ih.congr rfl rfl
    | aside core =>
      exact ih.congr (congrArg PacketManager.cargo (congrArg Core.pm core))
        (congrArg Core.wire core)

theorem labels_closeInternal (labels : c.Labels known) (now : Time) (code : UInt32)
    (reason : List UInt8) (announce : Bool) :
    (c.closeInternal now code reason announce).Labels known := by
  have told : (c.announced now code reason announce).Labels known :=
    (sends_announced now code reason announce).toKeeps.labels (List.forall_mem_nil _)
      (labels.congr rfl rfl)
  have folded (streams : List Stream) (d : Connection F) (labels : d.Labels known) :
      (streams.foldl (fun c s => c.setStream (s.deliverReset code)) d).Labels known := by
    induction streams generalizing d with
    | nil => exact labels
    | cons s rest ih => exact ih _ (labels.congr rfl rfl)
  rw [closeInternal_eq]
  split
  · exact labels
  · have reset : ((c.announced now code reason announce).resetAll code).Labels known :=
      folded _ _ (told.congr rfl rfl)
    exact reset.congr rfl rfl

def opened (c : Connection F) : Nat := c.ids.countP fun ids => ids.2 = 0

/-- A stream of the table for each stream of the peer's at most, and only for
those there are. -/
structure Matched (peer ids : List (UInt32 × UInt32)) : Prop where
  remote : ∀ x ∈ ids, ∀ y ∈ ids, x.2 ≠ 0 → x.2 = y.2 → x = y
  mirrored : ∀ x ∈ ids, x.2 ≠ 0 → (x.2, 0) ∈ peer

theorem Matched.length_le {peer ids : List (UInt32 × UInt32)} (matched : Matched peer ids)
    (nodup : ids.Nodup) :
    ids.length ≤ ids.countP (fun x => x.2 = 0) + peer.countP fun x => x.2 = 0 := by
  let entered := ids.filter fun x => ¬ x.2 = 0
  let waiting := peer.filter fun x => x.2 = 0
  have distinct : (entered.map Prod.snd).Nodup := by
    refine (nodup.filter _).map_on fun x first y second same => ?_
    obtain ⟨there, nonzero⟩ := List.mem_filter.mp first
    exact matched.remote x there y (List.mem_filter.mp second).1 (of_decide_eq_true nonzero) same
  have inside : entered.map Prod.snd ⊆ waiting.map Prod.fst := by
    intro id member
    obtain ⟨x, first, rfl⟩ := List.mem_map.mp member
    obtain ⟨there, nonzero⟩ := List.mem_filter.mp first
    have mirror := matched.mirrored x there (of_decide_eq_true nonzero)
    exact List.mem_map.mpr ⟨(x.2, 0), List.mem_filter.mpr ⟨mirror, rfl⟩, rfl⟩
  have fewer := (List.subperm_of_subset distinct inside).length_le
  rw [List.length_map, List.length_map] at fewer
  have whole := List.length_eq_countP_add_countP (fun x : UInt32 × UInt32 => x.2 = 0) (l := ids)
  rw [List.countP_eq_length_filter, List.countP_eq_length_filter] at *
  simp only [entered, waiting] at fewer
  simp only [decide_not, decide_eq_true_eq] at fewer whole ⊢
  omega

/-- How the table of one side stands to its peer's: its IDs are `base` and on by
twos, and what is for a stream goes out under the IDs of one. The initiator's
SYN is for none. -/
structure PairsStreams (base : Nat) (peer c : Connection F) : Prop where
  keyed : c.Keyed
  next : c.nextStreamID.toNat = base + 2 * c.ids.length
  numbered : ∀ x ∈ c.ids, ∃ k < c.ids.length, x.1.toNat = base + 2 * k
  matched : Matched peer.ids c.ids
  labels : c.Labels fun label => label ∈ c.ids ∨ label = (0, 0)

theorem Keyed.map_fst_ids (keyed : c.Keyed) : c.ids.map Prod.fst = c.streams.entries.keys := by
  rw [Connection.ids, List.map_map]
  exact List.map_congr_left fun e member => keyed e member

theorem Keyed.nodup_ids (keyed : c.Keyed) : c.ids.Nodup := by
  have keys : (c.ids.map Prod.fst).Nodup := by
    rw [keyed.map_fst_ids]
    exact c.streams.nodupKeys
  exact keys.of_map _

theorem Keyed.not_mem (keyed : c.Keyed) {id : UInt32} (absent : ∀ x ∈ c.ids, x.1 ≠ id) :
    id ∉ c.streams := by
  intro present
  have listed : id ∈ c.ids.map Prod.fst := by
    rw [keyed.map_fst_ids]
    exact present
  obtain ⟨x, member, same⟩ := List.mem_map.mp listed
  exact absent x member same

theorem ids_enter (absent : c.nextStreamID ∉ c.streams) (remoteID : UInt32) (state : StreamState) :
    (c.enter remoteID state).ids = (c.nextStreamID, remoteID) :: c.ids := by
  rw [Connection.ids, enter, setStream]
  show (c.streams.insert c.nextStreamID _).entries.map _ = _
  rw [AList.entries_insert_of_notMem absent]
  rfl

section

variable {base : Nat} {peer peer' : Connection F}

theorem PairsStreams.absent (pairs : PairsStreams base peer c) : c.nextStreamID ∉ c.streams := by
  refine pairs.keyed.not_mem fun x member same => ?_
  obtain ⟨k, below, number⟩ := pairs.numbered x member
  have next := pairs.next
  rw [← same] at next
  omega

theorem PairsStreams.restock (pairs : PairsStreams base peer a) (restocks : Restocks a b)
    (labels : b.Labels fun label => label ∈ a.ids ∨ label = (0, 0)) : PairsStreams base peer b := by
  have same := restocks.ids
  have length := same.length_eq
  refine ⟨restocks.keyed, ?_, fun x member => ?_, ⟨fun x first y second => ?_, fun x member => ?_⟩,
    labels.mono fun label known => known.imp_left same.mem_iff.mpr⟩
  · rw [restocks.next, length]
    exact pairs.next
  · rw [length]
    exact pairs.numbered x (same.mem_iff.mp member)
  · exact pairs.matched.remote x (same.mem_iff.mp first) y (same.mem_iff.mp second)
  · exact pairs.matched.mirrored x (same.mem_iff.mp member)

theorem PairsStreams.grow (pairs : PairsStreams base peer c) (grown : peer.ids ⊆ peer'.ids) :
    PairsStreams base peer' c :=
  ⟨pairs.keyed, pairs.next, pairs.numbered,
    ⟨pairs.matched.remote, fun x member nonzero => grown (pairs.matched.mirrored x member nonzero)⟩,
    pairs.labels⟩

theorem Matched.cons {peer ids : List (UInt32 × UInt32)} (matched : Matched peer ids)
    {x : UInt32 × UInt32} (new : x.2 ≠ 0 → (∀ y ∈ ids, y.2 ≠ x.2) ∧ (x.2, 0) ∈ peer) :
    Matched peer (x :: ids) := by
  refine ⟨fun y first z second nonzero same => ?_, fun y member nonzero => ?_⟩
  · rcases List.mem_cons.mp first with rfl | old <;> rcases List.mem_cons.mp second with rfl | there
    · rfl
    · exact absurd same.symm ((new nonzero).1 z there)
    · exact absurd same ((new (same ▸ nonzero)).1 y old)
    · exact matched.remote y old z there nonzero same
  · rcases List.mem_cons.mp member with rfl | old
    · exact (new nonzero).2
    · exact matched.mirrored y old nonzero

theorem PairsStreams.enter (pairs : PairsStreams base peer c) {remoteID : UInt32}
    (state : StreamState)
    (room : base + 2 * c.ids.length + 2 < 2 ^ 32)
    (new : remoteID ≠ 0 → (∀ y ∈ c.ids, y.2 ≠ remoteID) ∧ (remoteID, 0) ∈ peer.ids) :
    PairsStreams base peer (c.enter remoteID state) := by
  have ids := ids_enter pairs.absent remoteID state
  have next : (c.enter remoteID state).nextStreamID.toNat = base + 2 * (c.ids.length + 1) := by
    show (c.nextStreamID + 2).toNat = _
    rw [UInt32.toNat_add, pairs.next]
    exact Nat.mod_eq_of_lt (by simpa using room)
  refine ⟨pairs.keyed.enter remoteID state, ?_, fun x member => ?_, ?_, ?_⟩
  · rw [ids, List.length_cons, next]
  · rw [ids] at member ⊢
    rw [List.length_cons]
    rcases List.mem_cons.mp member with rfl | old
    · exact ⟨c.ids.length, Nat.lt_succ_self _, pairs.next⟩
    · obtain ⟨k, below, number⟩ := pairs.numbered x old
      exact ⟨k, Nat.lt_succ_of_lt below, number⟩
  · rw [ids]
    exact pairs.matched.cons new
  · have labels : (c.enter remoteID state).Labels fun label => label ∈ c.ids ∨ label = (0, 0) :=
      pairs.labels.congr rfl rfl
    rw [ids]
    exact labels.mono fun label known => known.imp_left (List.mem_cons_of_mem _)

end

/-- What a frame for a stream does to the table: nothing, or it replaces the
stream it finds, or it enters one for the packet's source. -/
inductive Lands (c : Connection F) (pkt : Packet) : AList (fun _ : UInt32 => Stream) → Prop
  | nowhere : Lands c pkt c.streams
  | found (s t : Stream)
    (found : c.findStream pkt.destinationStreamID pkt.sourceStreamID = some s)
    (same : t.ids = s.ids) : Lands c pkt (c.streams.insert t.id t)
  | entered (t : Stream)
    (missing : c.findStream pkt.destinationStreamID pkt.sourceStreamID = none)
    (source : pkt.sourceStreamID ≠ 0) (ids : t.ids = (c.nextStreamID, pkt.sourceStreamID)) :
    Lands c pkt (c.streams.insert t.id t)

section

variable (now : Time) (pkt : Packet)

theorem streams_setStream_sendFor (c : Connection F) (t : Stream) (frames : List Frame) :
    ((c.setStream t).sendFor now t frames).streams = c.streams.insert t.id t :=
  congrArg Endpoint.streams (sends_sendFor now t frames).endpoint

theorem lands_onStream {op : Stream → Stream × List Frame} (same : ∀ s, (op s).1.ids = s.ids) :
    Lands c pkt (c.onStream now pkt op).streams := by
  unfold onStream
  split
  · exact .nowhere
  · rename_i s found
    rw [streams_setStream_sendFor]
    exact .found s _ found (same s)

theorem lands_handleStreamFrame (f : StreamFrame) :
    Lands c pkt (c.handleStreamFrame now pkt f).streams := by
  rw [handleStreamFrame_eq, streamFor]
  cases found : c.findStream pkt.destinationStreamID pkt.sourceStreamID with
  | some s =>
    obtain ⟨t, out, same, delivered⟩ := c.deliver_eq now s f
    dsimp only
    rw [delivered, streams_setStream_sendFor]
    exact .found s t found same
  | none =>
    by_cases opens : pkt.sourceStreamID ≠ 0 ∧ (f.isSyn = true ∨ f.data.length > 0)
    · rw [if_pos opens]
      let new : Stream :=
        { newStream c.nextStreamID pkt.sourceStreamID initialFC with state := .opened }
      let queue := if c.incomingStreams.length < 16 then c.incomingStreams ++ [c.nextStreamID]
        else c.incomingStreams
      let entered : Connection F :=
        { c with
          nextStreamID := c.nextStreamID + 2, streams := c.streams.insert new.id new
          incomingStreams := queue }
      obtain ⟨t, out, same, delivered⟩ := entered.deliver_eq now new f
      show Lands c pkt (entered.deliver now new f).streams
      rw [delivered, streams_setStream_sendFor]
      show Lands c pkt ((c.streams.insert new.id new).insert t.id t)
      have id : t.id = new.id := congrArg Prod.fst same
      rw [id, AList.insert_insert, ← id]
      exact .entered t found opens.1 same
    · rw [if_neg opens]
      exact .nowhere

theorem lands_handleFrame [Float64 F] {f : Frame} (directed : f.directed = true) :
    Lands c pkt (c.handleFrame now pkt f).streams := by
  cases f with
  | stream f => exact lands_handleStreamFrame now pkt f
  | windowUpdate | resetStream | streamDataBlocked => exact lands_onStream now pkt fun s => rfl
  | stopSending _ code => exact lands_onStream now pkt fun s => s.ids_reset code
  | ack | maxData | connectionClose | pathChallenge | pathResponse | maxStreams | dataBlocked
  | padding | ping | mtuProbe | newConnectionID | retireConnectionID => cases directed

end

section

variable {base peerBase : Nat} {peer : Connection F} {s t : Stream}

theorem PairsStreams.id_ne_zero (pairs : PairsStreams base peer c) (positive : 0 < base)
    {x : UInt32 × UInt32} (member : x ∈ c.ids) : x.1 ≠ 0 := by
  obtain ⟨k, -, number⟩ := pairs.numbered x member
  intro zero
  rw [zero, UInt32.toNat_zero] at number
  omega

theorem PairsStreams.lookup_zero (pairs : PairsStreams base peer c) (positive : 0 < base) :
    c.streams.lookup 0 = none :=
  AList.lookup_eq_none.mpr (pairs.keyed.not_mem fun _ => pairs.id_ne_zero positive)

/-- Two entries for one stream of the peer's are the same. -/
theorem PairsStreams.remote_unique (pairs : PairsStreams base peer c)
    {x y : (_ : UInt32) × Stream} (first : x ∈ c.streams.entries) (second : y ∈ c.streams.entries)
    (nonzero : x.2.remoteID ≠ 0) (same : x.2.remoteID = y.2.remoteID) : x = y := by
  have ids := pairs.matched.remote x.2.ids (List.mem_map_of_mem first) y.2.ids
    (List.mem_map_of_mem second) nonzero same
  have key : x.1 = y.1 :=
    (pairs.keyed x first).symm.trans ((congrArg Prod.fst ids).trans (pairs.keyed y second))
  have found := Tables.lookup_of_mem x first
  rw [key, Tables.lookup_of_mem y second] at found
  exact Sigma.ext key (heq_of_eq (Option.some.inj found).symm)

theorem PairsStreams.reorder (pairs : PairsStreams base peer c)
    {table : AList (fun _ : UInt32 => Stream)}
    (perm : table.entries.Perm c.streams.entries) :
    PairsStreams base peer { c with streams := table } := by
  refine pairs.restock ⟨fun e member => ?_, perm.map _, rfl, rfl⟩ (pairs.labels.congr rfl rfl)
  exact pairs.keyed e (perm.mem_iff.mp member)

theorem PairsStreams.mirror (sender : PairsStreams base peer c)
    (receiver : PairsStreams peerBase c peer)
    (present : s.ids ∈ c.ids) (entered : s.remoteID ≠ 0) :
    ∃ t, peer.streams.lookup s.remoteID = some t ∧ t.ids = (s.remoteID, 0) := by
  have mirrored := sender.matched.mirrored s.ids present entered
  obtain ⟨e, member, ids⟩ := List.mem_map.mp mirrored
  refine ⟨e.2, ?_, ids⟩
  have key : e.1 = s.remoteID := (receiver.keyed e member).symm.trans (congrArg Prod.fst ids)
  rw [← key]
  exact Tables.lookup_of_mem e member

/-- What is sent for a stream finds its counterpart, or nothing. -/
theorem PairsStreams.counterpart (sender : PairsStreams base peer c)
    (receiver : PairsStreams peerBase c peer)
    (positive : 0 < peerBase) (present : s.ids ∈ c.ids)
    (found : peer.findStream s.remoteID s.id = some t) : s.Counterpart t := by
  unfold findStream at found
  by_cases opened : s.remoteID = 0
  · rw [opened, receiver.lookup_zero positive] at found
    dsimp only at found
    split at found
    · have fits := List.find?_some found
      exact .inl ⟨opened, of_decide_eq_true fits⟩
    · cases found
  · obtain ⟨u, here, ids⟩ := sender.mirror receiver present opened
    rw [here] at found
    obtain rfl := Option.some.inj found
    exact .inr ⟨(congrArg Prod.fst ids).symm, congrArg Prod.snd ids⟩

/-- Only what goes out for a stream its side opened can find nothing. -/
theorem PairsStreams.opener (sender : PairsStreams base peer c)
    (receiver : PairsStreams peerBase c peer)
    (present : s.ids ∈ c.ids) (missing : peer.findStream s.remoteID s.id = none) :
    s.remoteID = 0 := by
  by_contra entered
  obtain ⟨u, here, -⟩ := sender.mirror receiver present entered
  unfold findStream at missing
  rw [here] at missing
  cases missing

/-- The streams that `pkt` touches of a table are counterparts of `s`. -/
structure Touches (s : Stream) (before after : AList (fun _ : UInt32 => Stream)) : Prop where
  new : ∀ e ∈ after.entries, e ∈ before.entries ∨ s.Counterpart e.2
  old : ∀ e ∈ before.entries, e ∈ after.entries ∨ s.Counterpart e.2

theorem PairsStreams.touches (sender : PairsStreams base peer c)
    (receiver : PairsStreams peerBase c peer)
    (positive : 0 < peerBase) (present : s.ids ∈ c.ids) {pkt : Packet}
    (label : (pkt.sourceStreamID, pkt.destinationStreamID) = s.ids)
    {after : AList (fun _ : UInt32 => Stream)} (lands : Lands peer pkt after) :
    Touches s peer.streams after := by
  obtain ⟨source, destination⟩ := Prod.mk.inj label
  have replaced {t : Stream} (counterpart : s.Counterpart t)
      (clash : ∀ e ∈ peer.streams.entries, e.1 = t.id → s.Counterpart e.2) :
      Touches s peer.streams (peer.streams.insert t.id t) := by
    refine ⟨fun e member => ?_, fun e member => ?_⟩
    · rcases Tables.mem_of_mem_insert member with rfl | old
      · exact .inr counterpart
      · exact .inl old
    · by_cases same : e.1 = t.id
      · exact .inr (clash e member same)
      · refine .inl (Tables.mem_entries_iff.mpr ?_)
        rw [AList.lookup_insert_ne same]
        exact Tables.lookup_of_mem e member
  cases lands with
  | nowhere => exact ⟨fun e member => .inl member, fun e member => .inl member⟩
  | found u t found same =>
    rw [source, destination] at found
    have here := sender.counterpart receiver positive present found
    refine replaced (here.congr same) fun e member key => ?_
    obtain ⟨e', member', rfl⟩ := mem_of_findStream found
    have twin : e.1 = e'.1 :=
      key.trans ((congrArg Prod.fst same).trans (receiver.keyed e' member'))
    have lookup := Tables.lookup_of_mem e member
    rw [twin, Tables.lookup_of_mem e' member'] at lookup
    rw [← Option.some.inj lookup]
    exact here
  | entered t missing nonzero ids =>
    rw [source, destination] at missing
    obtain ⟨id, remoteID⟩ := Prod.mk.inj ids
    have opener := sender.opener receiver present missing
    refine replaced (.inl ⟨opener, remoteID.trans source⟩) fun e member key => ?_
    have listed : e.1 ∈ peer.streams := List.mem_keys_of_mem member
    rw [key, id] at listed
    exact absurd listed receiver.absent

theorem Lands.untouched (pairs : PairsStreams base peer c) (positive : 0 < base) {pkt : Packet}
    (label : (pkt.sourceStreamID, pkt.destinationStreamID) = (0, 0))
    {after : AList (fun _ : UInt32 => Stream)} (lands : Lands c pkt after) :
    after = c.streams := by
  obtain ⟨source, destination⟩ := Prod.mk.inj label
  cases lands with
  | nowhere => rfl
  | found u t found =>
    unfold findStream at found
    rw [source, destination, pairs.lookup_zero positive] at found
    cases found
  | entered t missing nonzero => exact absurd source nonzero

end

end Connection

namespace Host

open Connection

variable {F : Type} [Float64 F] {h h' : Host F} {input : Input} {base peerBase : Nat}
  {peer : Connection F}

omit [Float64 F] in
/-- A stream that a packet of the peer's enters is new, and the peer opened it. -/
theorem new_of_missing (pairs : PairsStreams base peer h.conn)
    (other : PairsStreams peerBase h.conn peer)
    {pkt : Packet} (label : (pkt.sourceStreamID, pkt.destinationStreamID) ∈ peer.ids)
    (missing : h.conn.findStream pkt.destinationStreamID pkt.sourceStreamID = none)
    (source : pkt.sourceStreamID ≠ 0) :
    (∀ y ∈ h.conn.ids, y.2 ≠ pkt.sourceStreamID) ∧ (pkt.sourceStreamID, 0) ∈ peer.ids := by
  obtain ⟨e, member, ids⟩ := List.mem_map.mp label
  obtain ⟨id, remoteID⟩ := Prod.mk.inj ids
  have opener : e.2.remoteID = 0 := by
    refine other.opener pairs (List.mem_map_of_mem member) ?_
    rw [id, remoteID]
    exact missing
  refine ⟨fun y present same => ?_, ?_⟩
  · obtain ⟨x, inside, rfl⟩ := List.mem_map.mp present
    unfold findStream at missing
    split at missing
    · cases missing
    · rw [if_pos source, List.find?_eq_none] at missing
      exact missing x.2 (List.mem_map_of_mem inside) (decide_eq_true same)
  · rw [← remoteID, opener] at label
    exact label

theorem Effect.pairsStreams (effect : Effect h input h') (pairs : PairsStreams base peer h.conn)
    (small : base ≤ 2) (few : h'.conn.opened < 2 ^ 30) (fewer : peer.opened < 2 ^ 30)
    (new : ∀ now pkt f, input = .frame now pkt (.stream f) →
      h.conn.findStream pkt.destinationStreamID pkt.sourceStreamID = none →
      pkt.sourceStreamID ≠ 0 →
      (∀ y ∈ h.conn.ids, y.2 ≠ pkt.sourceStreamID) ∧ (pkt.sourceStreamID, 0) ∈ peer.ids) :
    PairsStreams base peer h'.conn ∧ h.conn.ids ⊆ h'.conn.ids := by
  have keyed := pairs.keyed
  have restocked {c : Connection F} (restocks : Restocks h.conn c)
      (labels : c.Labels fun label => label ∈ h.conn.ids ∨ label = (0, 0)) :
      PairsStreams base peer c ∧ h.conn.ids ⊆ c.ids :=
    ⟨pairs.restock restocks labels, restocks.ids.symm.subset⟩
  have entered {remoteID : UInt32} {state : StreamState} {c : Connection F}
      (new : remoteID ≠ 0 →
        (∀ y ∈ h.conn.ids, y.2 ≠ remoteID) ∧ (remoteID, 0) ∈ peer.ids)
      (changes : (h.conn.enter remoteID state).Changes c) (few : c.opened < 2 ^ 30) :
      PairsStreams base peer c ∧ h.conn.ids ⊆ c.ids := by
    have ids := ids_enter pairs.absent remoteID state
    have key := keyed.enter remoteID state
    have restocks := changes.restocks key
    have nodup := key.nodup_ids
    rw [ids] at nodup
    have length := (pairs.matched.cons (x := (h.conn.nextStreamID, remoteID)) new).length_le nodup
    have room : base + 2 * h.conn.ids.length + 2 < 2 ^ 32 := by
      rw [Connection.opened, restocks.ids.countP_eq, ids] at few
      rw [List.length_cons] at length
      rw [Connection.opened] at fewer
      omega
    have entered := pairs.enter state room new
    refine ⟨entered.restock restocks (changes.labels key (fun _ => .inl) entered.labels), ?_⟩
    refine List.Subset.trans ?_ restocks.ids.symm.subset
    rw [ids]
    exact List.subset_cons_self _ _
  cases effect with
  | serve callers changes =>
    exact restocked (changes.restocks keyed)
      (changes.labels keyed (fun _ => .inl) pairs.labels)
  | openStream => exact entered (fun nonzero => absurd rfl nonzero) .refl few
  | enter now pkt f missing source _ changes =>
    exact entered (new now pkt f rfl missing) changes few
  | close now code reason announce =>
    exact restocked (restocks_closeInternal keyed now code reason announce)
      (labels_closeInternal pairs.labels now code reason announce)
  | ack now pkt f =>
    have keeps := keeps_handleAckFrame (c := h.conn) now f
    exact restocked (keeps.restocks keyed)
      (keeps.labels (List.forall_mem_nil _) pairs.labels)
  | challenge i challenge addr =>
    exact restocked (restocks_sendControlTo keyed _ _) (pairs.labels.sendControlTo rfl addr)
  | raise | arrive | move | respond | pend | reject | finish =>
    exact ⟨⟨keyed, pairs.next, pairs.numbered, pairs.matched, pairs.labels.congr rfl rfl⟩,
      List.Subset.refl _⟩

end Host

/-- The initiator's IDs are the odd ones. -/
def Net.Side.base : Net.Side → Nat
  | .left => 1
  | .right => 2

namespace Net

open Connection

variable {F : Type} [Float64 F] {n n' : Net F} {side : Side}

def conn (n : Net F) (side : Side) : Connection F := (n.host side).conn

/-- Neither side has opened 2^30 streams. -/
def Few (n : Net F) : Prop := ∀ side, (n.conn side).opened < 2 ^ 30

instance : Decidable n.Few := inferInstanceAs (Decidable (∀ side, (n.conn side).opened < 2 ^ 30))

/-- The two tables stand to each other as they should. -/
def Linked (n : Net F) : Prop := ∀ side, PairsStreams side.base (n.conn side.other) (n.conn side)

omit [Float64 F] in
/-- What a side sent for a stream has the IDs of one of its streams, or is the SYN. -/
theorem Linked.sent (linked : n.Linked) {pkt : Packet} (sent : (n.host side).sent pkt = true)
    (directed : pkt.frames.any Frame.directed = true) :
    (pkt.sourceStreamID, pkt.destinationStreamID) ∈ (n.conn side).ids ∨
      (pkt.sourceStreamID, pkt.destinationStreamID) = (0, 0) := by
  obtain ⟨d, member, same⟩ := Host.sent_iff.mp sent
  rw [← same] at directed ⊢
  exact (linked side).labels.wire d member directed

theorem Linked.step {turn : Side × Host.Input} (linked : n.Linked) (few : n.Few) (few' : n'.Few)
    (taken : n.step turn = some n') : n'.Linked := by
  obtain ⟨side, input⟩ := turn
  obtain ⟨arrives, stepped, still⟩ := step_cases taken
  have peer : n'.conn side.other = n.conn side.other := congrArg Host.conn still
  have back : PairsStreams side.other.base (n.conn side) (n.conn side.other) := by
    have := linked side.other
    rwa [conn, Side.other_other] at this
  obtain ⟨pairs, grown⟩ := (Host.step_effect stepped).pairsStreams (linked side)
    (by cases side <;> decide) (few' side) (few side.other) fun now pkt f input missing source => by
      subst input
      obtain ⟨sent, member⟩ := Bool.and_eq_true_iff.mp arrives
      have directed : pkt.frames.any Frame.directed = true :=
        List.any_eq_true.mpr ⟨_, of_decide_eq_true member, rfl⟩
      have label := (linked.sent sent directed).resolve_right fun zero =>
        source (congrArg Prod.fst zero)
      exact Host.new_of_missing (linked side) back label missing source
  have here : PairsStreams side.base (n'.conn side.other) (n'.conn side) := by
    rw [peer]
    exact pairs
  have there : PairsStreams side.other.base (n'.conn side.other.other) (n'.conn side.other) := by
    rw [peer, conn, Side.other_other]
    exact back.grow grown
  exact Side.forall_of side here there

omit [Float64 F] in
theorem pairsStreams_new {base : Nat} {peer c : Connection F} (streams : c.streams = ∅)
    (next : c.nextStreamID.toNat = base)
    (labels : c.Labels fun label => label = (0, 0)) : PairsStreams base peer c := by
  have none : c.ids = [] := by
    rw [Connection.ids, streams]
    rfl
  have empty {P : UInt32 × UInt32 → Prop} : ∀ x ∈ c.ids, P x := by
    rw [none]
    exact List.forall_mem_nil _
  refine ⟨fun e member => ?_, ?_, empty, ⟨empty, empty⟩, labels.mono fun _ => .inr⟩
  · rw [streams] at member
    cases member
  · rw [next, none]
    rfl

section

variable (cid peerCID : ConnectionID) (addr peerAddr : Addr) (now : Time)

omit [Float64 F] in
theorem sends_syn (c : Connection F) :
    Sends [(0, 0)] c (c.sendFrames now [.stream ⟨false, true, 0, []⟩]) :=
  sends_sendPacket now 0 0 _ fun _ => List.mem_singleton.mpr rfl

theorem streams_start (side : Side) :
    ((start cid peerCID addr peerAddr now : Net F).conn side).streams = ∅ := by
  cases side with
  | left =>
    have sends := sends_syn now (Peer.newPeer cid peerCID peerAddr true now : Peer F).host.conn
    exact congrArg Connection.Endpoint.streams sends.endpoint
  | right => rfl

theorem linked_start : (start cid peerCID addr peerAddr now : Net F).Linked := by
  have silent (cid peerCID : ConnectionID) (addr : Addr) (dialled : Bool) :
      (Peer.newPeer cid peerCID addr dialled now : Peer F).host.conn.Labels
        fun label => label = (0, 0) :=
    ⟨(fun p directed => by cases directed), List.forall_mem_nil _⟩
  intro side
  have none := streams_start cid peerCID addr peerAddr now (F := F) side
  cases side with
  | left =>
    have sends := sends_syn now (Peer.newPeer cid peerCID peerAddr true now : Peer F).host.conn
    exact pairsStreams_new none
      (congrArg UInt32.toNat (congrArg Connection.Endpoint.nextStreamID sends.endpoint))
      (sends.toKeeps.labels (fun _ => List.mem_singleton.mp) (silent cid peerCID peerAddr true))
  | right => exact pairsStreams_new none rfl (silent peerCID cid addr false)

theorem few_start : (start cid peerCID addr peerAddr now : Net F).Few := by
  intro side
  rw [Connection.opened, Connection.ids, streams_start]
  decide

end

/-- A packet for `s` is handled by a counterpart of `s`, or by no stream. -/
structure Reaches (s : Stream) (peer : Connection F) (pkt : Packet) : Prop where
  found : ∀ t, peer.findStream pkt.destinationStreamID pkt.sourceStreamID = some t →
    s.Counterpart t
  touched : ∀ now f, f.directed = true →
    Touches s peer.streams (peer.handleFrame now pkt f).streams

/-- One side's table, and where what it sends goes in the other's. -/
structure Routed (n : Net F) (side : Side) : Prop where
  distinct : ((n.conn side).streams.entries.map fun e => e.2.id).Nodup
  parity : ∀ e ∈ (n.conn side).streams.entries, e.2.id.toNat % 2 = side.base % 2
  remote : ∀ x ∈ (n.conn side).streams.entries, ∀ y ∈ (n.conn side).streams.entries,
    x.2.remoteID ≠ 0 → x.2.remoteID = y.2.remoteID → x = y
  counterpart : ∀ e ∈ (n.conn side).streams.entries, e.2.remoteID = 0 →
    ∀ x ∈ (n.conn side.other).streams.entries, ∀ y ∈ (n.conn side.other).streams.entries,
      e.2.Counterpart x.2 → e.2.Counterpart y.2 → x = y
  frames : ∀ pkt, (n.host side).sent pkt = true → pkt.frames.any Frame.directed = true →
    ∀ table : AList fun _ : UInt32 => Stream,
      table.entries.Perm (n.conn side.other).streams.entries →
      let peer : Connection F := { n.conn side.other with streams := table }
      (∃ e ∈ (n.conn side).streams.entries,
        (pkt.sourceStreamID, pkt.destinationStreamID) = e.2.ids ∧ Reaches e.2 peer pkt) ∨
      -- the SYN of the connection
      (pkt.sourceStreamID, pkt.destinationStreamID) = (0, 0) ∧
        ∀ now f, f.directed = true → (peer.handleFrame now pkt f).streams = table

theorem Linked.routed (linked : n.Linked) (side : Side) : n.Routed side := by
  have here := linked side
  have there : PairsStreams side.other.base (n.conn side) (n.conn side.other) := by
    have := linked side.other
    rwa [conn, Side.other_other] at this
  have positive (side : Side) : 0 < side.base := by cases side <;> decide
  refine ⟨?_, fun e member => ?_, fun x first y second => here.remote_unique first second,
    fun e member opened x first y second one other => ?_,
    fun pkt sent directed table perm => ?_⟩
  · have keys := (n.conn side).streams.nodupKeys
    rw [List.NodupKeys, ← here.keyed.map_fst_ids, Connection.ids, List.map_map] at keys
    exact keys
  · obtain ⟨k, -, number⟩ := here.numbered e.2.ids (List.mem_map_of_mem member)
    have id : e.2.id.toNat = side.base + 2 * k := number
    omega
  · have nonzero := here.id_ne_zero (positive side) (List.mem_map_of_mem member)
    have points {z : (_ : UInt32) × Stream} (inside : z ∈ (n.conn side.other).streams.entries)
        (counterpart : e.2.Counterpart z.2) : z.2.remoteID = e.2.id := by
      rcases counterpart with ⟨-, remote⟩ | ⟨own, -⟩
      · exact remote
      · refine absurd ?_ (there.id_ne_zero (positive side.other) (List.mem_map_of_mem inside))
        exact own.symm.trans opened
    have remote := points first one
    exact there.remote_unique first second (remote ▸ nonzero) (remote.trans (points second other).symm)
  · have pairs := there.reorder perm
    rcases linked.sent sent directed with known | none
    · obtain ⟨e, member, ids⟩ := List.mem_map.mp known
      have sender : PairsStreams side.base { n.conn side.other with streams := table } (n.conn side) :=
        here.grow (perm.symm.map _).subset
      refine .inl ⟨e, member, ids.symm, fun t found => ?_, fun now f aimed => ?_⟩
      · refine sender.counterpart pairs (positive side.other) (List.mem_map_of_mem member) ?_
        obtain ⟨id, remoteID⟩ := Prod.mk.inj ids
        rw [id, remoteID]
        exact found
      · exact sender.touches pairs (positive side.other) (List.mem_map_of_mem member) ids.symm
          (lands_handleFrame now pkt aimed)
    · exact .inr ⟨none, fun now f aimed =>
        (lands_handleFrame now pkt aimed).untouched pairs (positive side.other) none⟩

/-- In every run, what a side sends for one of its streams goes to that stream's
counterpart or to no stream, whatever order the table is in. -/
theorem frames_reach_counterpart {cid peerCID : ConnectionID} {addr peerAddr : Addr} {now : Time}
    {turns : List (Side × Host.Input)}
    (few : Runs.Along step (fun n turn => ∀ n' ∈ n.step turn, n'.Few)
      (start cid peerCID addr peerAddr now : Net F) turns)
    (reached : Runs.run step (start cid peerCID addr peerAddr now : Net F) turns = some n)
    (side : Side) : n.Routed side := by
  have linked := Runs.invariant (fun n => n.Few ∧ n.Linked)
    (fun n turn n' holds later taken => ⟨later n' taken, holds.2.step holds.1 (later n' taken) taken⟩)
    ⟨few_start cid peerCID addr peerAddr now, linked_start cid peerCID addr peerAddr now⟩ few reached
  exact linked.2.routed side

/-- A dialled connection and its dialler, their clocks at zero. -/
def met : Net ℚ := start ⟨[], Nat.zero_le _⟩ ⟨[], Nat.zero_le _⟩ "dialler" "dialled" 0

/-- The dialler opens a stream and writes, and is answered on it. -/
def greeting : List (Side × Host.Input) :=
  let hello := met.left.conn.packet 1 0 1 [.stream ⟨false, true, 0, [7]⟩]
  let answer := met.right.conn.packet 0 1 2 [.stream ⟨false, false, 0, [8]⟩]
  [(.left, .openStream), (.left, .write 0 1 true [7])] ++
    (Host.packet 0 hello).map (Side.right, ·) ++
    [(.right, .write 0 2 true [8])] ++ (Host.packet 0 answer).map (Side.left, ·)

theorem frames_reach_counterpart_greeting :
    ∃ n, Runs.run step met greeting = some n ∧
      (n.conn .left).ids = [(1, 0)] ∧ (n.conn .right).ids = [(2, 1)] ∧ ∀ side, n.Routed side := by
  have few : Runs.Along step (fun n turn => ∀ n' ∈ n.step turn, n'.Few) met greeting := by
    decide +kernel
  have ids : (Runs.run step met greeting).any (fun n =>
      decide ((n.conn .left).ids = [(1, 0)] ∧ (n.conn .right).ids = [(2, 1)])) = true := by
    decide +kernel
  obtain ⟨n, reached, ids⟩ := Runs.reaches_of_any ids
  obtain ⟨left, right⟩ := of_decide_eq_true ids
  exact ⟨n, reached, left, right, frames_reach_counterpart few reached⟩

end Net

end Udx
