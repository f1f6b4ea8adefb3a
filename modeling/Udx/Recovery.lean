import Udx.InFlight

set_option autoImplicit false

namespace Udx

open Flight (Move Moves)

namespace Flight

/-- `later` tracks what `f` tracks, and packets it numbered since. -/
structure Since (f later : Flight) : Prop where
  next : f.next ≤ later.next
  tracked : ∀ e ∈ later.tracked,
    e ∈ f.tracked ∨ ∃ k, f.next ≤ k ∧ k < later.next ∧ e.1 = UInt32.ofNat k

namespace Since

variable {f later : Flight}

theorem refl : Since f f := ⟨Nat.le_refl _, fun _ => .inl⟩

theorem number (since : Since f later) (x : Cargo) : Since f (later.number x) := by
  refine ⟨Nat.le_succ_of_le since.next, fun e member => ?_⟩
  rcases Multiset.mem_cons.mp member with rfl | old
  · exact .inr ⟨later.next, since.next, Nat.lt_succ_self _, rfl⟩
  · rcases since.tracked e old with held | ⟨k, low, high, same⟩
    · exact .inl held
    · exact .inr ⟨k, low, Nat.lt_succ_of_lt high, same⟩

theorem fewer (since : Since f later) {rest : Multiset (UInt32 × Cargo)} {e : UInt32 × Cargo}
    (present : later.tracked = e ::ₘ rest) {g : Flight} (next : g.next = later.next)
    (tracked : g.tracked = rest) : Since f g := by
  refine ⟨next ▸ since.next, fun other member => ?_⟩
  rw [next]
  exact since.tracked other (present ▸ Multiset.mem_cons_of_mem (tracked ▸ member))

theorem move {r : Rules} {g : Flight} (since : Since f later) (move : Move r later g) :
    Since f g := by
  cases move with
  | send x | probe x | resend x => exact ⟨(since.number x).next, (since.number x).tracked⟩
  | ack n x rest present | lose n x rest present | lapse n x rest present =>
    exact since.fewer present rfl rfl
  | split | book | land | emit | control => exact ⟨since.next, since.tracked⟩

end Since

theorem Moves.since {r : Rules} {f later : Flight} (moves : Moves r f later) : Since f later :=
  moves.keep (fun _ _ move since => since.move move) .refl

end Flight

namespace Connection

variable {F : Type} {e : Int} {a b c : Connection F} {g g' : Ghost}

theorem mem_tracked_since {r : Flight.Rules} (moves : Moves r (a.flight g) (b.flight g'))
    (room : b.pm.nextSeq ≤ 2 ^ 32) {entry : UInt32 × Cargo} (member : entry ∈ b.pm.tracked) :
    entry ∈ a.pm.tracked ∨ a.pm.nextSeq ≤ entry.1.toNat := by
  rcases moves.since.tracked entry (Multiset.mem_coe.mpr member) with old | ⟨k, low, high, same⟩
  · exact .inl (Multiset.mem_coe.mp old)
  · refine .inr ?_
    rw [same, UInt32.toNat_ofNat_of_lt' (Nat.lt_of_lt_of_le high room)]
    exact low

/-- The data packets tracked are numbered above `e`. -/
def Above (c : Connection F) (e : Int) : Prop :=
  ∀ entry ∈ c.pm.tracked, entry.2.probe = false → e < entry.1.toNat

instance (c : Connection F) (e : Int) : Decidable (c.Above e) := by
  unfold Above
  infer_instance

theorem Above.since {r : Flight.Rules} (above : a.Above e) (begun : e < a.pm.nextSeq)
    (moves : Moves r (a.flight g) (b.flight g')) (room : b.pm.nextSeq ≤ 2 ^ 32) : b.Above e := by
  intro entry member data
  rcases mem_tracked_since moves room member with old | new
  · exact above entry old data
  · omega

end Connection

/-- Data is declared lost: the connection as loss detection leaves it, and the
packets, oldest first. -/
structure Connection.Declaration (F : Type) where
  now : Time
  conn : Connection F
  oldest : Ptr
  rest : List Ptr

/-- Where an event looks for losses, and with which time threshold. -/
structure Connection.Watch (F : Type) where
  now : Time
  conn : Connection F
  delay : Int

namespace Connection.Declaration

variable {F : Type} (d : Connection.Declaration F)

def data : List Ptr := d.oldest :: d.rest

def sequences : List UInt32 := d.data.map fun p => (d.conn.pm.heap p).sequence

/-- `onCongestionEvent` finds no recovery under way, and contracts the window. -/
def Contracts : Prop := d.conn.cc.inRecovery = false

instance : Decidable d.Contracts := inferInstanceAs (Decidable (_ = _))

variable [Float64 F]

/-- The controller told of the loss. -/
def signalled : CongestionController F :=
  d.conn.cc.onPacketLost d.now (Connection.totalSize d.conn.pm d.data) d.conn.pm.lastSentSeq

/-- `onPersistentCongestion` runs. -/
def Collapses : Prop :=
  d.conn.persistent d.signalled d.oldest (d.data.getLastD d.oldest) = true

instance : Decidable d.Collapses := inferInstanceAs (Decidable (_ = _))

theorem lostSignal_eq (spared : ¬ d.Collapses) :
    d.conn.lostSignal d.now d.oldest d.data = d.signalled := by
  unfold Connection.lostSignal
  exact if_neg spared

end Connection.Declaration

namespace Connection.Watch

variable {F : Type} [Float64 F] (w : Connection.Watch F)

def detected : PacketManager × List Ptr := w.conn.pm.detectLostLocked w.now w.delay

def declaration : Option (Connection.Declaration F) :=
  match Connection.lostData w.detected.1 w.detected.2 with
  | [] => none
  | oldest :: rest => some ⟨w.now, { w.conn with pm := w.detected.1 }, oldest, rest⟩

def reported : Connection F := w.conn.reportLost w.now w.detected

variable {w} {d : Connection.Declaration F}

omit [Float64 F] in
theorem declaration_eq (declared : w.declaration = some d) :
    d.now = w.now ∧ d.conn = { w.conn with pm := w.detected.1 } ∧
      d.data = Connection.lostData w.detected.1 w.detected.2 := by
  unfold declaration at declared
  split at declared
  · cases declared
  · rename_i oldest rest lost
    obtain rfl := Option.some.inj declared
    exact ⟨rfl, rfl, lost.symm⟩

/-- Either no data is lost and the congestion controller is not told, or it is
told of a declaration and the queue is flushed. -/
theorem reported_cases (w : Connection.Watch F) :
    w.declaration = none ∧ w.reported.cc = w.conn.cc ∨
      ∃ d mtu, w.declaration = some d ∧
        w.reported = (d.conn.queueLost d.now mtu d.oldest d.data).flushLost d.now := by
  unfold reported Connection.reportLost
  dsimp only
  split
  · obtain ⟨mtu, -, ⟨none, report⟩ | ⟨oldest, rest, some, report⟩⟩ :=
      ({ w.conn with pm := w.detected.1 } : Connection F).onPacketsLost_cases w.now w.detected.2
    · refine .inl ⟨?_, by rw [report]⟩
      rw [declaration, none]
    · refine .inr ⟨⟨w.now, { w.conn with pm := w.detected.1 }, oldest, rest⟩, mtu, ?_, ?_⟩
      · rw [declaration, some]
      · rw [report, some]
        rfl
  · rename_i empty
    refine .inl ⟨?_, rfl⟩
    rw [declaration, List.length_eq_zero_iff.mp (Nat.eq_zero_of_not_pos empty)]
    rfl

omit [Float64 F] in
/-- What is declared lost was tracked, as data, under the sequence it shows. -/
theorem mem_tracked_of_declared {g : Connection.Ghost} (custody : w.conn.Custody g)
    (declared : w.declaration = some d) {n : UInt32} (member : n ∈ d.sequences) :
    ∃ x : Cargo, x.probe = false ∧ (n, x) ∈ w.conn.pm.tracked := by
  obtain ⟨-, conn, data⟩ := declaration_eq declared
  obtain ⟨-, tracked, -, heap⟩ :=
    PacketManager.Custody.detectLostLocked custody w.now w.delay rfl
  obtain ⟨p, inside, rfl⟩ := List.mem_map.mp member
  rw [data, Connection.lostData, List.mem_filter] at inside
  have same : d.conn.pm.heap = w.conn.pm.heap := by rw [conn]; exact heap
  have held : w.detected.1.heap = w.conn.pm.heap := heap
  refine ⟨w.conn.pm.cargo p, ?_, ?_⟩
  · have probe := inside.2
    rw [held] at probe
    simpa [PacketManager.cargo] using probe
  · rw [same]
    refine tracked.symm.subset (List.mem_append_left _ (List.mem_map.mpr ⟨p, inside.1, rfl⟩))

/-- A loss that contracts the window begins a recovery up to the last packet
sent. -/
theorem recovery_of_contracts (declared : w.declaration = some d) (contracts : d.Contracts)
    (spared : ¬ d.Collapses) :
    w.reported.cc.inRecovery = true ∧ w.reported.cc.recoveryEndSeq = d.conn.pm.lastSentSeq := by
  rcases w.reported_cases with ⟨none, -⟩ | ⟨d', mtu, same, report⟩
  · rw [none] at declared
    cases declared
  · obtain rfl : d' = d := Option.some.inj (same.symm.trans declared)
    rw [report, (Connection.sends_flushLost d'.now).inRecovery,
      (Connection.sends_flushLost d'.now).recoveryEndSeq, Connection.queueLost,
      d'.lostSignal_eq spared]
    exact d'.conn.cc.onPacketLost_of_not_inRecovery contracts _ _ _

theorem recovery_of_inRecovery (inside : w.conn.cc.inRecovery = true)
    (spared : ∀ d, w.declaration = some d → ¬ d.Collapses) :
    w.reported.cc.inRecovery = true ∧
      w.reported.cc.recoveryEndSeq = w.conn.cc.recoveryEndSeq := by
  rcases w.reported_cases with ⟨-, same⟩ | ⟨d, mtu, declared, report⟩
  · rw [same]
    exact ⟨inside, rfl⟩
  · have conn := (declaration_eq declared).2.1
    have cc : d.conn.cc = w.conn.cc := by rw [conn]
    rw [report, (Connection.sends_flushLost d.now).inRecovery,
      (Connection.sends_flushLost d.now).recoveryEndSeq, Connection.queueLost,
      d.lostSignal_eq (spared d declared), Connection.Declaration.signalled, cc,
      w.conn.cc.onPacketLost_of_inRecovery inside]
    exact ⟨inside, rfl⟩

end Connection.Watch

namespace Connection

variable {F : Type} [Float64 F] {e : Int} {a b c : Connection F} {event : Event} {w : Watch F}
  {labels : List (UInt32 × UInt32)}

/-- Where an event looks for losses. An ACK does so once the window has been
credited, if it acknowledges anything. -/
def watch (c : Connection F) : Event → Option (Watch F)
  | .ack now f =>
    if (c.pm.handleAckFrame now f).2.length > 0 then
      some ⟨now, c.credited now f, (c.credited now f).lossDelay⟩
    else none
  | .lossTimer now => some ⟨now, c.timedOut, c.lossDelay⟩
  | _ => none

def declares (c : Connection F) (event : Event) : Option (Declaration F) :=
  (c.watch event).bind Watch.declaration

/-- The flight moves on from one step to the next, as long as numbers do not
repeat. -/
def FlightAdvances (a b : Connection F) : Prop :=
  b.pm.nextSeq ≤ 2 ^ 32 → a.Custody ground →
    b.Custody ground ∧ ∃ g, Moves .any (a.flight ground) (b.flight g)

omit [Float64 F] in
theorem Simulated.advances (simulated : Simulated .any a ground b ground) : FlightAdvances a b :=
  fun room custody => ⟨(simulated room custody).1, ground, (simulated room custody).2⟩

theorem advances_handle (opened : c.state ≠ .closed) : FlightAdvances c (c.handle event) := by
  intro room custody
  obtain ⟨extent, debt, kept, moves, -⟩ := c.handle_spec event opened room custody
  exact ⟨kept, _, moves⟩

/-- An event that does not look for losses only sends. -/
theorem sends_of_unwatched (unwatched : c.watch event = none) :
    ∃ labels, Sends labels c (c.handle event) := by
  cases event with
  | sendPacket now dst src frames =>
    exact ⟨[(src, dst)], sends_sendPacket now dst src frames fun _ => List.mem_singleton_self _⟩
  | sendStreamFrames now id remoteID offset data chunkSize isSyn =>
    exact ⟨_, sends_sendStreamFrames now remoteID id offset data chunkSize isSyn⟩
  | probeMTU now => exact ⟨_, sends_probeMTU now⟩
  | ack now f =>
    simp only [watch, ite_eq_right_iff, reduceCtorEq, imp_false] at unwatched
    rw [handle, handleAckFrame_eq, if_neg unwatched]
    exact ⟨[], keeps_acknowledged now f, rfl, rfl, .refl⟩
  | lossTimer now => cases unwatched
  | pto now => exact ⟨_, sends_onPtoTimeout now⟩
  | flushLost now => exact ⟨_, sends_flushLost now⟩
  | blackhole now =>
    exact ⟨[], .quiet rfl rfl rfl rfl, rfl, rfl, MTUDiscovery.falls_blackholeLocked now⟩

/-- What an event does before it looks for losses, and after. -/
structure Looks (c : Connection F) (event : Event) (w : Watch F) : Prop where
  opened : w.conn.state = c.state
  next : w.conn.pm.nextSeq = c.pm.nextSeq
  numbers : c.pm.Numbers w.conn.pm
  recoveryEndSeq : w.conn.cc.recoveryEndSeq = c.cc.recoveryEndSeq
  before : FlightAdvances c w.conn
  after : Sends [] w.reported (c.handle event)
  onwards : w.reported.state ≠ .closed → FlightAdvances w.reported (c.handle event)

theorem looks_of_watch (watched : c.watch event = some w) : Looks c event w := by
  cases event with
  | ack now f =>
    simp only [watch, Option.ite_none_right_eq_some, Option.some.injEq] at watched
    obtain ⟨some, rfl⟩ := watched
    have after : c.handle (.ack now f) =
        (((c.credited now f).detectLostPackets now).flushLost now).probeMTU now := by
      rw [handle, handleAckFrame_eq, if_pos some]
      rfl
    refine ⟨rfl, (c.pm.nextSeq_handleAckFrame now f).1, (keeps_credited now f).numbers,
      CongestionController.recoveryEndSeq_onPacketAcked .., ?_, ?_, fun opened => ?_⟩
    · exact (simulated_credited now f (Int.le_refl 0) fun _ _ => trivial).advances
    · rw [after]
      exact (sends_flushLost now).trans (sends_probeMTU now)
    · rw [after]
      exact ((simulated_flushLost now opened).trans (sends_probeMTU now).next
        (simulated_probeMTU now fun _ _ _ _ _ => trivial)).advances
  | lossTimer now =>
    obtain rfl := Option.some.inj watched
    refine ⟨rfl, rfl, .same rfl rfl, rfl, simulated_timedOut.advances, ?_, fun _ => ?_⟩
    · rw [handle, onLossTimer_eq]
      exact .refl
    · rw [handle, onLossTimer_eq]
      exact Simulated.refl.advances
  | sendPacket | sendStreamFrames | probeMTU | pto | flushLost | blackhole => cases watched

/-- A loss of packets numbered up to `e` finds a recovery under way: the window
contracted at `e` or later, or nothing that old is tracked any more. -/
structure AbsorbsLoss (c : Connection F) (e : Int) : Prop where
  custody : c.Custody ground
  begun : e < c.pm.nextSeq
  recovery : c.Above e ∨ c.cc.inRecovery = true ∧ e ≤ c.cc.recoveryEndSeq

namespace AbsorbsLoss

omit [Float64 F] in
theorem sends (absorbs : a.AbsorbsLoss e) (sends : Sends labels a b) (advances : FlightAdvances a b)
    (room : b.pm.nextSeq ≤ 2 ^ 32) : b.AbsorbsLoss e := by
  obtain ⟨kept, _, moves⟩ := advances room absorbs.custody
  have next := sends.next
  have begun := absorbs.begun
  refine ⟨kept, by omega, ?_⟩
  rcases absorbs.recovery with above | inside
  · exact .inl (above.since begun moves room)
  · rw [sends.inRecovery, sends.recoveryEndSeq]
    exact .inr inside

theorem reported (absorbs : w.conn.AbsorbsLoss e) (opened : w.conn.state ≠ .closed)
    (spared : ∀ d, w.declaration = some d → ¬ d.Collapses)
    (room : w.reported.pm.nextSeq ≤ 2 ^ 32) : w.reported.AbsorbsLoss e := by
  have simulated : Simulated .any w.conn ground w.reported ground :=
    simulated_reportLost w.now opened (Int.le_refl 0) w.delay
  obtain ⟨kept, moves⟩ := simulated room absorbs.custody
  have keeps : Keeps [] w.conn w.reported := keeps_reportLost w.now w.delay
  have next := keeps.next
  have begun := absorbs.begun
  refine ⟨kept, by omega, ?_⟩
  rcases absorbs.recovery with above | ⟨inside, far⟩
  · exact .inl (above.since begun moves room)
  · obtain ⟨still, same⟩ := Watch.recovery_of_inRecovery inside spared
    exact .inr ⟨still, same ▸ far⟩

omit [Float64 F] in
theorem not_contracts (absorbs : w.conn.AbsorbsLoss e) {d : Declaration F}
    (declared : w.declaration = some d) (old : ∀ n ∈ d.sequences, (n.toNat : Int) ≤ e) :
    ¬ d.Contracts := by
  intro contracts
  rcases absorbs.recovery with above | ⟨inside, -⟩
  · have member : (d.conn.pm.heap d.oldest).sequence ∈ d.sequences := List.mem_cons_self
    obtain ⟨x, data, tracked⟩ := Watch.mem_tracked_of_declared absorbs.custody declared member
    exact absurd (above _ tracked data) (Int.not_lt.mpr (old _ member))
  · have same : d.conn.cc = w.conn.cc := by rw [(Watch.declaration_eq declared).2.1]
    rw [Declaration.Contracts, same, inside] at contracts
    cases contracts

end AbsorbsLoss

/-- The largest sequence of the ACK is one it names, of a packet still tracked. -/
def ReportsLargest (c : Connection F) (f : AckFrame) : Prop :=
  f.largestAcked ∈ f.sequences ∧ (c.pm.sentPackets.lookup f.largestAcked).isSome = true

instance (c : Connection F) (f : AckFrame) : Decidable (c.ReportsLargest f) :=
  inferInstanceAs (Decidable (_ ∧ _))

/-- An ACK that ends a recovery names every data packet tracked from before it. -/
def Cleared (c : Connection F) : Event → Prop
  | .ack _ f =>
    c.cc.inRecovery = true ∧ c.cc.recoveryEndSeq < f.largestAcked.toNat ∧ c.ReportsLargest f →
      ∀ entry ∈ c.pm.tracked, entry.2.probe = false → entry.1.toNat ≤ c.cc.recoveryEndSeq →
        entry.1 ∈ f.sequences
  | _ => True

instance (c : Connection F) (event : Event) : Decidable (c.Cleared event) := by
  cases event <;> (unfold Cleared; infer_instance)

omit [Float64 F] in
theorem reportsLargest_of_tally {now : Time} {f : AckFrame} (custody : c.Custody ground)
    (found : (c.ackTally now f).largest.isSome = true) : c.ReportsLargest f := by
  rcases exists_of_largest found with none | ⟨p, acked, same⟩
  · cases none
  · obtain ⟨named, tracked⟩ := custody.named_of_acked acked
    rw [show ((c.pm.handleAckFrame now f).1.heap p).sequence = f.largestAcked from same] at *
    exact ⟨named, Option.isSome_of_mem tracked⟩

/-- A recovery that ends before losses are looked for leaves no data from before
it tracked. -/
theorem Cleared.above (cleared : c.Cleared event) (custody : c.Custody ground)
    (watched : c.watch event = some w) (inside : c.cc.inRecovery = true)
    (left : w.conn.cc.inRecovery = false) : w.conn.Above c.cc.recoveryEndSeq := by
  cases event with
  | ack now f =>
    simp only [watch, Option.ite_none_right_eq_some, Option.some.injEq] at watched
    obtain ⟨-, rfl⟩ := watched
    obtain ⟨new, past⟩ := CongestionController.recovery_ends_of_onPacketAcked _ inside left
    have names := cleared ⟨inside, past, reportsLargest_of_tally custody new⟩
    obtain ⟨-, gone, -, -, tracked⟩ := PacketManager.Custody.handleAckFrame custody now f
    intro entry member data
    have before : entry ∈ c.pm.tracked := tracked.mem_iff.mpr (List.mem_append_right _ member)
    by_contra old
    exact PacketManager.not_named_of_tracked member (names entry before data (Int.not_lt.mp old))
  | lossTimer now =>
    obtain rfl := Option.some.inj watched
    cases inside.symm.trans left
  | sendPacket | sendStreamFrames | probeMTU | pto | flushLost | blackhole => cases watched

def NoCollapse (c : Connection F) (event : Event) : Prop := ∀ d ∈ c.declares event, ¬ d.Collapses

instance (c : Connection F) (event : Event) : Decidable (c.NoCollapse event) := by
  unfold NoCollapse
  infer_instance

theorem AbsorbsLoss.watched (absorbs : c.AbsorbsLoss e) (watched : c.watch event = some w)
    (cleared : c.Cleared event) (room : c.pm.nextSeq ≤ 2 ^ 32) : w.conn.AbsorbsLoss e := by
  have at' := looks_of_watch watched
  obtain ⟨kept, _, moves⟩ := at'.before (at'.next ▸ room) absorbs.custody
  refine ⟨kept, by rw [at'.next]; exact absorbs.begun, ?_⟩
  rcases absorbs.recovery with above | ⟨inside, far⟩
  · exact .inl (above.since absorbs.begun moves (at'.next ▸ room))
  · cases still : w.conn.cc.inRecovery with
    | true => exact .inr ⟨rfl, at'.recoveryEndSeq ▸ far⟩
    | false =>
      have above := cleared.above absorbs.custody watched inside still
      exact .inl fun entry member data => Int.lt_of_le_of_lt far (above entry member data)

theorem AbsorbsLoss.handle (absorbs : c.AbsorbsLoss e) (opened : c.state ≠ .closed)
    (cleared : c.Cleared event) (spared : c.NoCollapse event)
    (room : (c.handle event).pm.nextSeq ≤ 2 ^ 32) : (c.handle event).AbsorbsLoss e := by
  cases watched : c.watch event with
  | none =>
    obtain ⟨labels, sends⟩ := sends_of_unwatched watched
    exact absorbs.sends sends (advances_handle opened) room
  | some w =>
    have at' := looks_of_watch watched
    obtain ⟨_, keeps⟩ := c.keeps_handle event
    have found := absorbs.watched watched cleared (Nat.le_trans keeps.next room)
    have opened : w.conn.state ≠ .closed := at'.opened ▸ opened
    have spared : ∀ d, w.declaration = some d → ¬ d.Collapses := fun d declared =>
      spared d (by rw [declares, watched]; exact declared)
    have told := found.reported opened spared (Nat.le_trans at'.after.next room)
    have state : w.reported.state = w.conn.state :=
      congrArg Endpoint.state (keeps_reportLost w.now w.delay).endpoint
    exact told.sends at'.after (at'.onwards (state ▸ opened)) room

/-- A contraction absorbs the losses of what has been sent so far. -/
theorem absorbsLoss_of_contracts (custody : c.Custody ground) (opened : c.state ≠ .closed)
    (last : c.pm.lastSentSeq < c.pm.nextSeq) {d : Declaration F}
    (declared : c.declares event = some d) (contracts : d.Contracts) (spared : ¬ d.Collapses)
    (room : (c.handle event).pm.nextSeq ≤ 2 ^ 32) :
    (c.handle event).AbsorbsLoss d.conn.pm.lastSentSeq := by
  obtain ⟨w, watched, declared⟩ := Option.bind_eq_some_iff.mp declared
  have at' := looks_of_watch watched
  have opened : w.conn.state ≠ .closed := at'.opened ▸ opened
  have keeps : Keeps [] w.conn w.reported := keeps_reportLost w.now w.delay
  have told : w.reported.pm.nextSeq ≤ 2 ^ 32 := Nat.le_trans at'.after.next room
  have found : w.conn.Custody ground := (at'.before (Nat.le_trans keeps.next told) custody).1
  have simulated : Simulated .any w.conn ground w.reported ground :=
    simulated_reportLost w.now opened (Int.le_refl 0) w.delay
  have conn := (Watch.declaration_eq declared).2.1
  have below : d.conn.pm.lastSentSeq < w.reported.pm.nextSeq := by
    have detected : w.conn.pm.Numbers w.detected.1 := .detectLostLocked w.now w.delay
    have below := detected.last (at'.numbers.last last)
    have same : w.detected.1.nextSeq = w.conn.pm.nextSeq :=
      (PacketManager.Custody.detectLostLocked found w.now w.delay rfl).2.2.1
    have next := keeps.next
    rw [conn]
    show w.detected.1.lastSentSeq < _
    omega
  obtain ⟨inside, far⟩ := Watch.recovery_of_contracts declared contracts spared
  have begins : w.reported.AbsorbsLoss d.conn.pm.lastSentSeq :=
    ⟨(simulated told found).1, below, .inr ⟨inside, far.ge⟩⟩
  have state : w.reported.state = w.conn.state := congrArg Endpoint.state keeps.endpoint
  exact begins.sends at'.after (at'.onwards (state ▸ opened)) room

/-- An open connection whose last sequence has been allocated, and which keeps
its packets apart as long as numbers do not repeat. -/
structure Orderly (c : Connection F) : Prop where
  opened : c.state ≠ .closed
  last : c.pm.lastSentSeq < c.pm.nextSeq
  custody : c.pm.nextSeq ≤ 2 ^ 32 → c.Custody ground

theorem Orderly.step (orderly : c.Orderly) (taken : c.step event = some b) : b.Orderly := by
  obtain rfl := Option.some.inj taken
  obtain ⟨_, keeps⟩ := c.keeps_handle event
  refine ⟨?_, keeps.numbers.last orderly.last, fun room => ?_⟩
  · rw [show (c.handle event).state = c.state from congrArg Endpoint.state keeps.endpoint]
    exact orderly.opened
  · exact (advances_handle orderly.opened room
      (orderly.custody (Nat.le_trans keeps.next room))).1

theorem orderly_new (localCID remoteCID : ConnectionID) (addr : Addr)
    (isInitiator validated : Bool) (now : Time) :
    (newConnection localCID remoteCID addr isInitiator validated now : Connection F).Orderly :=
  ⟨by simp [newConnection], by simp [newConnection], fun _ => PacketManager.custody_new⟩

/-- From a contraction on, as long as every recovery ends cleared and the window
does not collapse, old losses stay absorbed. -/
theorem absorbsLoss_of_run {events : List Event} (opened : a.state ≠ .closed)
    (absorbs : a.pm.nextSeq ≤ 2 ^ 32 → a.AbsorbsLoss e)
    (cleared : Runs.Along step Cleared a events) (spared : Runs.Along step NoCollapse a events)
    (reached : Runs.run step a events = some b) (few : b.pm.nextSeq ≤ 2 ^ 32) :
    b.AbsorbsLoss e := by
  refine (Runs.invariant (fun c => c.state ≠ .closed ∧ (c.pm.nextSeq ≤ 2 ^ 32 → c.AbsorbsLoss e))
    ?_ ⟨opened, absorbs⟩ (cleared.and spared) reached).2 few
  intro c event c' holds permitted taken
  obtain rfl := Option.some.inj taken
  obtain ⟨_, keeps⟩ := c.keeps_handle event
  refine ⟨?_, fun room => ?_⟩
  · rw [show (c.handle event).state = c.state from congrArg Endpoint.state keeps.endpoint]
    exact holds.1
  · exact (holds.2 (Nat.le_trans keeps.next room)).handle holds.1 permitted.1 permitted.2 room

/-- In every run in which recoveries end cleared and numbers do not repeat, a
loss of packets that were sent by the time of a contraction does not contract the
window again, unless persistent congestion came in between. -/
theorem contracts_once {localCID remoteCID : ConnectionID} {addr : Addr}
    {isInitiator validated : Bool} {start : Time} {before between : List Event}
    {first second : Event} {c₁ c₂ : Connection F} {d₁ d₂ : Declaration F}
    (reached : Runs.run step (newConnection localCID remoteCID addr isInitiator validated start)
      before = some c₁)
    (declared : c₁.declares first = some d₁) (contracts : d₁.Contracts)
    (cleared : Runs.Along step Cleared c₁ (first :: (between ++ [second])))
    (spared : Runs.Along step NoCollapse c₁ (first :: between))
    (later : Runs.run step c₁ (first :: between) = some c₂) (few : c₂.pm.nextSeq ≤ 2 ^ 32)
    (redeclared : c₂.declares second = some d₂)
    (old : ∀ n ∈ d₂.sequences, (n.toNat : Int) ≤ d₁.conn.pm.lastSentSeq) : ¬ d₂.Contracts := by
  have orderly : c₁.Orderly :=
    Runs.invariant_of_forall Orderly (fun _ _ _ => Orderly.step) (orderly_new ..) reached
  have next : (c₁.handle first).Orderly := orderly.step rfl
  have onwards : Runs.run step (c₁.handle first) between = some c₂ := later
  obtain ⟨cleared, last⟩ := (cleared.2 _ rfl).append onwards
  obtain ⟨_, keeps⟩ := c₁.keeps_handle first
  have begins : (c₁.handle first).pm.nextSeq ≤ 2 ^ 32 →
      (c₁.handle first).AbsorbsLoss d₁.conn.pm.lastSentSeq := fun room =>
    absorbsLoss_of_contracts (orderly.custody (Nat.le_trans keeps.next room)) orderly.opened
      orderly.last declared contracts (spared.1 d₁ declared) room
  have absorbs := absorbsLoss_of_run next.opened begins cleared (spared.2 _ rfl) onwards few
  obtain ⟨w, watched, redeclared⟩ := Option.bind_eq_some_iff.mp redeclared
  exact (absorbs.watched watched last.1 few).not_contracts redeclared old

def fivePackets : Event := .sendStreamFrames 0 1 0 0 [0, 1, 2, 3, 4] 1 true

/-- The peer has packet 3, so that packet 0 is lost and goes out again as 5. An
ACK of 5 ends the recovery and declares 1 and 2 lost, which were sent before it
began. -/
theorem reordered_contracts_twice :
    ∃ c₁ c₂ d₁ d₂, Runs.run step fresh [fivePackets] = some c₁ ∧
      c₁.declares (received [3]) = some d₁ ∧ d₁.Contracts ∧
      Runs.Along step NoCollapse c₁ [received [3]] ∧
      Runs.run step c₁ [received [3]] = some c₂ ∧ c₂.pm.nextSeq ≤ 2 ^ 32 ∧
      c₂.declares (received [3, 5]) = some d₂ ∧
      (∀ n ∈ d₂.sequences, (n.toNat : Int) ≤ d₁.conn.pm.lastSentSeq) ∧ d₂.Contracts ∧
      d₂.signalled.cwnd < d₂.conn.cc.cwnd := by
  have twice : (Runs.run step fresh [fivePackets]).any (fun c₁ =>
      (c₁.declares (received [3])).any fun d₁ =>
      (Runs.run step c₁ [received [3]]).any fun c₂ =>
      (c₂.declares (received [3, 5])).any fun d₂ => decide (
        d₁.Contracts ∧ Runs.Along step NoCollapse c₁ [received [3]] ∧ c₂.pm.nextSeq ≤ 2 ^ 32 ∧
          (d₂.sequences.all fun n => (n.toNat : Int) ≤ d₁.conn.pm.lastSentSeq) = true ∧
          d₂.Contracts ∧ d₂.signalled.cwnd < d₂.conn.cc.cwnd)) = true := by decide +kernel
  obtain ⟨c₁, reached, twice⟩ := (Option.any_eq_true _ _).mp twice
  obtain ⟨d₁, declared, twice⟩ := (Option.any_eq_true _ _).mp twice
  obtain ⟨c₂, later, twice⟩ := (Option.any_eq_true _ _).mp twice
  obtain ⟨d₂, redeclared, twice⟩ := (Option.any_eq_true _ _).mp twice
  obtain ⟨contracts, spared, few, old, again, less⟩ := of_decide_eq_true twice
  exact ⟨c₁, c₂, d₁, d₂, reached, declared, contracts, spared, later, few, redeclared,
    fun n member => of_decide_eq_true (List.all_eq_true.mp old n member), again, less⟩

/-- An ACK of 4 declares packet 1 lost while the recovery lasts. -/
theorem contracts_once_lasting :
    ∃ c₁ c₂ d₁ d₂, Runs.run step fresh [fivePackets] = some c₁ ∧
      c₁.declares (received [3]) = some d₁ ∧ d₁.Contracts ∧
      Runs.run step c₁ [received [3]] = some c₂ ∧ c₂.declares (received [3, 4]) = some d₂ ∧
      ¬ d₂.Contracts := by
  have once : (Runs.run step fresh [fivePackets]).any (fun c₁ =>
      (c₁.declares (received [3])).any fun d₁ =>
      (Runs.run step c₁ [received [3]]).any fun c₂ =>
      (c₂.declares (received [3, 4])).any fun d₂ => decide (
        d₁.Contracts ∧ Runs.Along step Cleared c₁ [received [3], received [3, 4]] ∧
          Runs.Along step NoCollapse c₁ [received [3]] ∧ c₂.pm.nextSeq ≤ 2 ^ 32 ∧
          (d₂.sequences.all fun n => (n.toNat : Int) ≤ d₁.conn.pm.lastSentSeq) = true)) = true := by
    decide +kernel
  obtain ⟨c₁, reached, once⟩ := (Option.any_eq_true _ _).mp once
  obtain ⟨d₁, declared, once⟩ := (Option.any_eq_true _ _).mp once
  obtain ⟨c₂, later, once⟩ := (Option.any_eq_true _ _).mp once
  obtain ⟨d₂, redeclared, once⟩ := (Option.any_eq_true _ _).mp once
  obtain ⟨contracts, cleared, spared, few, old⟩ := of_decide_eq_true once
  exact ⟨c₁, c₂, d₁, d₂, reached, declared, contracts, later, redeclared,
    contracts_once reached declared contracts cleared spared later few redeclared
      fun n member => of_decide_eq_true (List.all_eq_true.mp old n member)⟩

end Connection

end Udx
