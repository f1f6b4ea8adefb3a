import Udx.Resending

set_option autoImplicit false

namespace Udx

open Flight (Move Moves)

namespace Connection

variable {F : Type} {r : Flight.Rules} {a b c : Connection F} {g : Ghost}

/-- The probes among lost packets report to the path search; the data is kept
in order. -/
theorem foldl_sortLost (pm : PacketManager) (now : Time) (countLarge : Bool) (lost : List Ptr)
    (acc : MTUDiscovery × List Ptr) :
    (lost.foldl (sortLost pm now countLarge) acc).2 =
      acc.2 ++ lost.filter fun p => !(pm.heap p).probe := by
  induction lost generalizing acc with
  | nil => simp
  | cons p rest ih =>
    rw [List.foldl_cons, ih]
    by_cases probe : (pm.heap p).probe = true
    · simp [sortLost, probe]
    · simp [sortLost, probe]

theorem sum_booked (pm : PacketManager) (ps : List Ptr) :
    (ps.map fun p => (pm.cargo p).booked).sum =
      totalSize pm (ps.filter fun p => !(pm.heap p).probe) := by
  induction ps with
  | nil => rfl
  | cons p rest ih =>
    rw [List.map_cons, List.sum_cons, ih]
    by_cases probe : (pm.heap p).probe = true
    · simp [totalSize, probe, Cargo.booked, PacketManager.cargo]
    · simp [totalSize, probe, Cargo.booked, PacketManager.cargo]

theorem falls_foldl_sortLost (pm : PacketManager) (now : Time) (countLarge : Bool)
    (lost : List Ptr) (acc : MTUDiscovery × List Ptr) :
    acc.1.Falls (lost.foldl (sortLost pm now countLarge) acc).1 := by
  induction lost generalizing acc with
  | nil => exact .refl
  | cons p rest ih =>
    refine .trans ?_ (ih _)
    unfold sortLost
    dsimp only
    split
    · exact MTUDiscovery.falls_onProbeLost _
    · split
      · exact MTUDiscovery.falls_onDataLost now _
      · exact .refl

section Loss

variable [Float64 F] (now : Time)

/-- The data among lost packets. -/
def lostData (pm : PacketManager) (lost : List Ptr) : List Ptr :=
  lost.filter fun p => !(pm.heap p).probe

/-- The congestion signal of lost data, the oldest first. -/
def lostSignal (c : Connection F) (oldest : Ptr) (data : List Ptr) : CongestionController F :=
  let cc := c.cc.onPacketLost now (totalSize c.pm data) c.pm.lastSentSeq
  if c.persistent cc oldest (data.getLastD oldest) then cc.onPersistentCongestion else cc

theorem inflight_lostSignal (c : Connection F) (oldest : Ptr) (data : List Ptr) :
    (c.lostSignal now oldest data).inflight = (c.cc.land (totalSize c.pm data)).inflight := by
  unfold lostSignal
  dsimp only
  split
  · rw [CongestionController.inflight_onPersistentCongestion,
      CongestionController.inflight_onPacketLost]
  · exact CongestionController.inflight_onPacketLost ..

/-- The connection with lost data out of flight and in the queue. -/
def queueLost (c : Connection F) (mtu : MTUDiscovery) (oldest : Ptr) (data : List Ptr) :
    Connection F :=
  { c with
    mtu := mtu, cc := c.lostSignal now oldest data, lostQueue := c.lostQueue ++ data }

/-- Lost probes only report to the path search; lost data is queued too, and
the queue flushed. -/
theorem onPacketsLost_cases (c : Connection F) (lost : List Ptr) :
    ∃ mtu, c.mtu.Falls mtu ∧
      ((lostData c.pm lost = [] ∧ c.onPacketsLost now lost = { c with mtu := mtu }) ∨
        ∃ oldest rest, lostData c.pm lost = oldest :: rest ∧ c.onPacketsLost now lost =
          (c.queueLost now mtu oldest (lostData c.pm lost)).flushLost now) := by
  have sorted := foldl_sortLost c.pm now (!c.ackedLarge) lost (c.mtu, [])
  rw [List.nil_append] at sorted
  refine ⟨(lost.foldl (sortLost c.pm now (!c.ackedLarge)) (c.mtu, [])).1,
    falls_foldl_sortLost c.pm now (!c.ackedLarge) lost (c.mtu, []), ?_⟩
  unfold onPacketsLost lostData
  dsimp only
  rw [sorted]
  split
  · rename_i none
    exact .inl ⟨none, rfl⟩
  · rename_i oldest rest some
    exact .inr ⟨oldest, rest, some, rfl⟩

theorem keeps_queueLost (mtu : MTUDiscovery) (oldest : Ptr) (data : List Ptr) :
    Keeps [] c (c.queueLost now mtu oldest data) := .quiet rfl rfl rfl rfl

/-- Lost packets in hand leave the flight and join the queue. -/
theorem simulated_queueLost (mtu : MTUDiscovery) (oldest : Ptr) {data hand : List Ptr}
    (held : g.hand = data ++ hand) (owed : (totalSize c.pm data : Int) ≤ g.debt) :
    Simulated r c g (c.queueLost now mtu oldest data)
      { g with hand := hand, debt := g.debt - totalSize c.pm data } := by
  let landed : Connection F := { c with cc := c.lostSignal now oldest data }
  have lands : Simulated r c g landed { g with debt := g.debt - totalSize c.pm data } :=
    .land owed rfl rfl rfl (c.inflight_lostSignal now oldest _)
  have joins : Simulated r landed { g with debt := g.debt - totalSize c.pm data }
      (c.queueLost now mtu oldest data)
      { g with hand := hand, debt := g.debt - totalSize c.pm data } :=
    simulated_regroup (by rw [held, ← List.append_assoc]; rfl) rfl rfl rfl
  exact lands.trans (Nat.le_refl _) joins

theorem keeps_onPacketsLost (lost : List Ptr) : Keeps [] c (c.onPacketsLost now lost) := by
  obtain ⟨mtu, -, ⟨-, same⟩ | ⟨oldest, -, -, same⟩⟩ := c.onPacketsLost_cases now lost
  · rw [same]
    exact .quiet rfl rfl rfl rfl
  · rw [same]
    exact (keeps_queueLost now mtu oldest _).trans (sends_flushLost now).toKeeps

theorem falls_onPacketsLost (lost : List Ptr) : c.mtu.Falls (c.onPacketsLost now lost).mtu := by
  obtain ⟨mtu, falls, ⟨-, same⟩ | ⟨oldest, -, -, same⟩⟩ := c.onPacketsLost_cases now lost
  · rw [same]
    exact falls
  · rw [same]
    exact falls.trans (sends_flushLost now).size

theorem simulated_onPacketsLost (lost hand : List Ptr) (opened : c.state ≠ .closed)
    (held : g.hand = lostData c.pm lost ++ hand)
    (owed : (totalSize c.pm (lostData c.pm lost) : Int) ≤ g.debt) :
    Simulated r c g (c.onPacketsLost now lost)
      { g with hand := hand, debt := g.debt - totalSize c.pm (lostData c.pm lost) } := by
  obtain ⟨mtu, -, ⟨none, same⟩ | ⟨oldest, -, -, same⟩⟩ := c.onPacketsLost_cases now lost
  · have settled : ({ g with
        hand := hand, debt := g.debt - totalSize c.pm (lostData c.pm lost) } : Ghost) = g := by
      rw [none] at held ⊢
      rw [show hand = g.hand from held.symm]
      simp [totalSize]
    rw [same, settled]
    exact .aside rfl rfl rfl rfl
  · rw [same]
    exact (simulated_queueLost now mtu oldest held owed).trans (sends_flushLost now).next
      (simulated_flushLost now opened)

omit [Float64 F] in
theorem detectLostLocked_spec {pm : PacketManager} {lost : List Ptr} {delay : Int}
    (detected : c.pm.detectLostLocked now delay = (pm, lost)) (custody : c.Custody g) :
    let taken : Connection F := { c with pm := pm }
    let g' := { g with
      hand := lostData c.pm lost ++ g.hand
      debt := g.debt + totalSize c.pm (lostData c.pm lost) }
    (taken.Custody g' ∧ Moves r (c.flight g) (taken.flight g')) ∧ pm.heap = c.pm.heap := by
  intro taken g'
  obtain ⟨kept, tracked, next, heap⟩ :=
    PacketManager.Custody.detectLostLocked custody now delay detected
  have cargo : pm.cargo = c.pm.cargo := by
    funext p
    rw [PacketManager.cargo, heap]
    rfl
  have back : (lostData c.pm lost ++ (c.lostQueue ++ g.hand)).Perm
      (c.lostQueue ++ (lostData c.pm lost ++ g.hand)) := by
    rw [← List.append_assoc, ← List.append_assoc]
    exact List.perm_append_comm.append_right _
  refine ⟨⟨kept.perm back, ?_⟩, heap⟩
  set gone := lost.map fun p => ((c.pm.heap p).sequence, c.pm.cargo p)
  have moves := Moves.loses (r := r) (c.flight g) gone ↑pm.tracked
    ((Multiset.coe_eq_coe.mpr tracked).trans (Multiset.coe_add _ _).symm)
  have bytes : (gone.map fun e => e.2.booked).sum = totalSize c.pm (lostData c.pm lost) := by
    rw [List.map_map]
    exact sum_booked c.pm lost
  have data : ((gone.map Prod.snd).filter fun x => !x.probe) =
      (lostData c.pm lost).map c.pm.cargo := by
    rw [List.map_map, List.filter_map]
    rfl
  have moved : taken.flight g' =
      { c.flight g with
        tracked := ↑pm.tracked
        waiting := ↑((gone.map Prod.snd).filter fun x => !x.probe) + (c.flight g).waiting
        debt := g.debt + ((gone.map fun e => e.2.booked).sum : Nat) } := by
    have waiting : ((((c.lostQueue ++ (lostData c.pm lost ++ g.hand)).map c.pm.cargo :
        List Cargo)) : Multiset Cargo) =
        ↑((lostData c.pm lost).map c.pm.cargo) + ↑((c.lostQueue ++ g.hand).map c.pm.cargo) := by
      rw [← Multiset.coe_eq_coe.mpr (back.map c.pm.cargo), List.map_append, Multiset.coe_add]
    rw [bytes, data]
    simp only [flight, ← waiting, g']
    rw [show taken.pm.nextSeq = c.pm.nextSeq from next,
      show taken.pm.cargo = c.pm.cargo from cargo]
  rw [moved]
  exact moves

omit [Float64 F] in
theorem cargo_detectLostLocked (pm : PacketManager) (delay : Int) :
    (pm.detectLostLocked now delay).1.cargo = pm.cargo := by
  have forgets : ∀ (ps : List Ptr) (pm : PacketManager),
      (ps.foldl PacketManager.forget pm).cargo = pm.cargo := by
    intro ps
    induction ps with
    | nil => exact fun _ => rfl
    | cons p rest ih => exact fun pm => ih (pm.forget p)
  unfold PacketManager.detectLostLocked
  split
  · rfl
  · exact forgets _ _

theorem keeps_reportLost (delay : Int) :
    Keeps [] c (c.reportLost now (c.pm.detectLostLocked now delay)) := by
  have taken : Keeps [] c { c with pm := (c.pm.detectLostLocked now delay).1 } :=
    .manage (.detectLostLocked now delay) (.detectLostLocked now delay)
      (cargo_detectLostLocked now c.pm delay)
  unfold reportLost
  dsimp only
  split
  · exact taken.trans (keeps_onPacketsLost now _)
  · exact taken

theorem falls_reportLost (detected : PacketManager × List Ptr) :
    c.mtu.Falls (c.reportLost now detected).mtu := by
  unfold reportLost
  dsimp only
  split
  · exact falls_onPacketsLost (c := { c with pm := detected.1 }) now _
  · exact .refl

omit [Float64 F] in
theorem taken_spec {pm : PacketManager} {lost : List Ptr} {delay : Int}
    (detected : c.pm.detectLostLocked now delay = (pm, lost)) (solvent : 0 ≤ g.debt) :
    let g' := { g with
      hand := lostData c.pm lost ++ g.hand
      debt := g.debt + totalSize c.pm (lostData c.pm lost) }
    (Simulated r c g { c with pm := pm } g') ∧
      (c.Custody g → lostData pm lost = lostData c.pm lost ∧
        (totalSize pm (lostData pm lost) : Int) ≤ g'.debt ∧
        g'.debt - totalSize pm (lostData pm lost) = g.debt) := by
  intro g'
  refine ⟨fun _ custody => (detectLostLocked_spec now detected custody).1, fun custody => ?_⟩
  have heap := (detectLostLocked_spec (r := r) now detected custody).2
  have same : lostData pm lost = lostData c.pm lost := by rw [lostData, lostData, heap]
  have size : totalSize pm (lostData pm lost) = totalSize c.pm (lostData c.pm lost) := by
    rw [totalSize, totalSize, heap, same]
  simp only [size, g']
  exact ⟨same, Int.le_add_of_nonneg_left solvent, add_sub_cancel_right _ _⟩

theorem simulated_reportLost (opened : c.state ≠ .closed) (solvent : 0 ≤ g.debt) (delay : Int) :
    Simulated r c g (c.reportLost now (c.pm.detectLostLocked now delay)) g := by
  intro room custody
  rcases detected : c.pm.detectLostLocked now delay with ⟨pm, lost⟩
  obtain ⟨taken, facts⟩ := taken_spec (r := r) now detected solvent
  obtain ⟨same, owed, settled⟩ := facts custody
  rw [detected] at room
  unfold reportLost at room ⊢
  dsimp only at room ⊢
  split at room
  · rename_i some
    rw [if_pos some]
    have joins := simulated_onPacketsLost (r := r) (c := { c with pm := pm })
      (g := { g with
        hand := lostData c.pm lost ++ g.hand
        debt := g.debt + totalSize c.pm (lostData c.pm lost) }) now lost g.hand opened
      (by rw [same]) owed
    rw [settled] at joins
    exact taken.trans (keeps_onPacketsLost now lost).next joins room custody
  · rename_i none
    rw [if_neg none]
    have empty : lost = [] := List.length_eq_zero_iff.mp (by omega)
    subst empty
    simpa [lostData, totalSize] using taken room custody

/-- Nothing but probes was lost, or the queue was flushed. -/
theorem flushed_reportLost (opened : c.state ≠ .closed) (solvent : 0 ≤ g.debt) (delay : Int)
    (room : (c.reportLost now (c.pm.detectLostLocked now delay)).pm.nextSeq ≤ 2 ^ 32)
    (custody : c.Custody g) :
    (∃ pm mtu, c.reportLost now (c.pm.detectLostLocked now delay) =
        { c with pm := pm, mtu := mtu }) ∨
      (c.reportLost now (c.pm.detectLostLocked now delay)).Flushed := by
  rcases detected : c.pm.detectLostLocked now delay with ⟨pm, lost⟩
  obtain ⟨taken, facts⟩ := taken_spec (r := .any) now detected solvent
  obtain ⟨same, owed, -⟩ := facts custody
  rw [detected] at room
  unfold reportLost at room ⊢
  dsimp only at room ⊢
  split at room
  · rename_i some
    rw [if_pos some]
    obtain ⟨mtu, -, ⟨-, report⟩ | ⟨oldest, -, -, report⟩⟩ :=
      ({ c with pm := pm } : Connection F).onPacketsLost_cases now lost
    · exact .inl ⟨pm, mtu, report⟩
    · rw [report] at room ⊢
      have queue : Simulated .any { c with pm := pm } _ _ _ :=
        simulated_queueLost (c := { c with pm := pm }) now mtu oldest (by rw [same]) owed
      have keeps := keeps_queueLost (c := { c with pm := pm }) now mtu oldest (lostData pm lost)
      have flush := sends_flushLost
        (c := ({ c with pm := pm } : Connection F).queueLost now mtu oldest (lostData pm lost)) now
      obtain ⟨kept, -⟩ := taken.trans keeps.next queue (Nat.le_trans flush.next room) custody
      exact .inr (flushed_flushLost now opened room kept)
  · rename_i none
    rw [if_neg none]
    exact .inl ⟨pm, c.mtu, rfl⟩

theorem keeps_detectLostPackets : Keeps [] c (c.detectLostPackets now) := keeps_reportLost now _

theorem simulated_detectLostPackets (opened : c.state ≠ .closed) (solvent : 0 ≤ g.debt) :
    Simulated r c g (c.detectLostPackets now) g :=
  simulated_reportLost now opened solvent _

/-- The manager as the loss timer finds it. -/
def timedOut (c : Connection F) : Connection F :=
  { c with pm := { c.pm with ackBeforeLoss := c.pm.lastAckTime } }

theorem onLossTimer_eq (c : Connection F) :
    c.onLossTimer now =
      c.timedOut.reportLost now (c.timedOut.pm.detectLostLocked now c.lossDelay) := rfl

theorem keeps_onLossTimer : Keeps [] c (c.onLossTimer now) := by
  rw [onLossTimer_eq]
  have start : Keeps [] c c.timedOut :=
    .manage (.same rfl rfl) (.fewer (List.Subset.refl _) rfl) rfl
  exact start.trans (keeps_reportLost now _)

omit [Float64 F] in
theorem simulated_timedOut : Simulated r c g c.timedOut g :=
  .asideManager rfl rfl rfl rfl rfl rfl rfl

theorem simulated_onLossTimer (opened : c.state ≠ .closed) (solvent : 0 ≤ g.debt) :
    Simulated r c g (c.onLossTimer now) g := by
  rw [onLossTimer_eq]
  exact simulated_timedOut.trans (keeps_reportLost now _).next
    (simulated_reportLost (c := c.timedOut) now opened solvent _)

end Loss

section Probe

variable (now : Time)

/-- The packet manager's record of a path-MTU probe sent now. -/
def probeCargo (c : Connection F) (size : { size : Nat // size ≤ maxDatagramSize }) : Cargo :=
  let pkt := c.probePacket (UInt32.ofNat c.pm.nextSeq) size
  { size := (marshalPacket pkt).length, frames := pkt.frames, probe := true
    fits := fun _ => c.length_probePacket_le _ size.property }

theorem sendProbe_eq (c : Connection F) (size : { size : Nat // size ≤ maxDatagramSize }) :
    c.sendProbe now size =
      ({ c with pm := c.pm.nextSequence.1 }.track now (UInt32.ofNat c.pm.nextSeq)
        (c.probeCargo size)).put false (c.probePacket (UInt32.ofNat c.pm.nextSeq) size) := rfl

theorem sends_track_put {x : Cargo} {pkt : Packet}
    (sequence : pkt.sequence = UInt32.ofNat c.pm.nextSeq) (frames : pkt.frames = x.frames)
    (size : (marshalPacket pkt).length = x.size)
    (plain : x.frames.any Frame.directed = false) :
    Sends [] c (({ c with pm := c.pm.nextSequence.1 }.track now (UInt32.ofNat c.pm.nextSeq) x).put
      false pkt) := by
  refine ⟨⟨rfl, .send rfl (c.pm.lastSentSeq_track now _), [⟨pkt, c.remoteAddr, false⟩],
    .cons .nil rfl (fun checked => absurd checked Bool.false_ne_true), rfl, rfl,
    fun e member _ => ?_, fun known _ held => ⟨fun p => ?_, ?_⟩⟩, rfl, rfl, .inl rfl⟩
  · by_cases new : e.2 = c.pm.nextPtr
    · refine .inr ⟨_, List.mem_singleton_self _, ?_⟩
      rw [new]
      simpa [Shows, put, track, PacketManager.new, PacketManager.sendPacket, PacketManager.modify,
        PacketManager.nextSequence] using ⟨sequence, frames, size⟩
    · exact .inl (PacketManager.tracksAs_track new member)
  · simp only [put, track, PacketManager.nextSequence, PacketManager.cargo_sendPacket]
    rcases PacketManager.cargo_new_cases _ _ p with fresh | old
    · rw [fresh]
      exact fun directed => absurd (plain.symm.trans directed) Bool.false_ne_true
    · rw [old]
      exact held p
  · refine List.forall_mem_singleton.mpr fun directed => ?_
    rw [frames, plain] at directed
    cases directed

theorem sends_sendProbe (size : { size : Nat // size ≤ maxDatagramSize }) :
    Sends [] c (c.sendProbe now size) := by
  rw [sendProbe_eq]
  exact sends_track_put now rfl rfl rfl rfl

theorem simulated_sendProbe
    (allowed : ∀ extent (x : Cargo) padding, x.probe = true → x.frames = [.mtuProbe padding] →
      r.sends extent x) (size : { size : Nat // size ≤ maxDatagramSize }) :
    Simulated r c g (c.sendProbe now size) g := by
  let pkt := c.probePacket (UInt32.ofNat c.pm.nextSeq) size
  let x := c.probeCargo size
  let numbered : Connection F :=
    { c with pm := c.pm.nextSequence.1 }.track now (UInt32.ofNat c.pm.nextSeq) x
  have first : numbered.pm.nextSeq ≤ 2 ^ 32 → c.Custody g →
      (numbered.Custody g ∧ Moves r (c.flight g) (numbered.flight g)) ∧
        (pkt.sequence, x) ∈ numbered.pm.tracked := by
    intro room custody
    obtain ⟨kept, tracked, flight⟩ :=
      track_spec (a := c) (b := numbered) (x := x) rfl rfl rfl room custody g.extent
    refine ⟨⟨kept, ?_⟩, tracked ▸ List.mem_cons_self⟩
    rw [flight]
    exact .single (.probe _ x rfl (allowed _ x _ rfl rfl))
  rw [sendProbe_eq]
  exact .andThen first (Nat.le_refl _) fun present => simulated_emit present ⟨rfl, rfl, rfl⟩

theorem sends_probeMTU : Sends [] c (c.probeMTU now) := by
  have searched : Sends [] c { c with mtu := (c.mtu.nextProbe now).1 } :=
    ⟨.quiet rfl rfl rfl rfl, rfl, rfl, MTUDiscovery.falls_nextProbe now⟩
  unfold probeMTU
  split
  · exact .refl
  · dsimp only
    split
    · exact searched
    · exact searched.trans (sends_sendProbe now _)

theorem simulated_probeMTU
    (allowed : ∀ extent (x : Cargo) padding, x.probe = true → x.frames = [.mtuProbe padding] →
      r.sends extent x) :
    Simulated r c g (c.probeMTU now) g := by
  unfold probeMTU
  split
  · exact .refl
  · dsimp only
    split
    · exact .aside rfl rfl rfl rfl
    · exact Simulated.trans (b := { c with mtu := (c.mtu.nextProbe now).1 })
        (.aside rfl rfl rfl rfl) (sends_sendProbe now _).next (simulated_sendProbe now allowed _)

end Probe

theorem bytes_foldl_tallyAcked (pm : PacketManager) (largestAcked : UInt32) (acked : List Ptr)
    (tally : AckTally) :
    (acked.foldl (tallyAcked pm largestAcked) tally).bytes =
      tally.bytes + (acked.map fun p => (pm.cargo p).booked).sum := by
  induction acked generalizing tally with
  | nil => simp
  | cons p rest ih =>
    have one : (tallyAcked pm largestAcked tally p).bytes =
        tally.bytes + (pm.cargo p).booked := by
      unfold tallyAcked Cargo.booked PacketManager.cargo
      dsimp only
      repeat' split
      all_goals rfl
    rw [List.foldl_cons, ih, one, List.map_cons, List.sum_cons, Nat.add_assoc]

theorem exists_of_largest {pm : PacketManager} {largestAcked : UInt32} {acked : List Ptr}
    {tally : AckTally} (found : (acked.foldl (tallyAcked pm largestAcked) tally).largest.isSome) :
    tally.largest.isSome ∨ ∃ p ∈ acked, (pm.heap p).sequence = largestAcked := by
  induction acked generalizing tally with
  | nil => exact .inl found
  | cons p rest ih =>
    rcases ih found with now | ⟨q, later, same⟩
    · by_cases same : (pm.heap p).sequence = largestAcked
      · exact .inr ⟨p, List.mem_cons_self, same⟩
      · have before : (tallyAcked pm largestAcked tally p).largest = tally.largest := by
          unfold tallyAcked
          dsimp only
          rw [if_neg same]
          repeat' split
          all_goals rfl
        exact .inl (before ▸ now)
    · exact .inr ⟨q, List.mem_cons_of_mem _ later, same⟩

/-- The size an acknowledgment leaves is the one before, or that of a probe
acknowledged. -/
theorem current_foldl_tallyAcked (pm : PacketManager) (largestAcked : UInt32) (acked : List Ptr)
    (tally : AckTally) :
    (acked.foldl (tallyAcked pm largestAcked) tally).mtu.current = tally.mtu.current ∨
      ∃ p ∈ acked, (pm.cargo p).probe = true ∧
        (acked.foldl (tallyAcked pm largestAcked) tally).mtu.current = (pm.cargo p).size := by
  induction acked generalizing tally with
  | nil => exact .inl rfl
  | cons p rest ih =>
    have one : (tallyAcked pm largestAcked tally p).mtu.current = tally.mtu.current ∨
        (pm.cargo p).probe = true ∧
          (tallyAcked pm largestAcked tally p).mtu.current = (pm.cargo p).size := by
      have same : (if (pm.heap p).sequence = largestAcked then { tally with largest := some p }
          else tally).mtu = tally.mtu := by
        split <;> rfl
      unfold tallyAcked
      dsimp only
      split
      · rename_i probe
        rw [same]
        rcases MTUDiscovery.current_onProbeAcked (m := tally.mtu) ((pm.heap p).fits probe) with
          still | raised
        · exact .inl still
        · exact .inr ⟨probe, raised⟩
      · split
        · rw [MTUDiscovery.current_onDataAcked, same]
          exact .inl rfl
        · rw [same]
          exact .inl rfl
    rcases ih (tallyAcked pm largestAcked tally p) with still | ⟨q, later, probe, size⟩
    · rw [List.foldl_cons, still]
      rcases one with same | ⟨probe, size⟩
      · exact .inl same
      · exact .inr ⟨p, List.mem_cons_self, probe, size⟩
    · exact .inr ⟨q, List.mem_cons_of_mem _ later, probe, size⟩

section Ack

variable [Float64 F] (now : Time) (f : AckFrame)

/-- The connection once the manager has taken the acknowledged packets. -/
def acknowledged (c : Connection F) : Connection F :=
  { c with pm := (c.pm.handleAckFrame now f).1 }

def ackTally (c : Connection F) : AckTally :=
  (c.pm.handleAckFrame now f).2.foldl
    (tallyAcked (c.acknowledged now f).pm f.largestAcked) { mtu := c.mtu }

/-- The connection once the window has been credited. -/
def credited (c : Connection F) : Connection F :=
  let tally := c.ackTally now f
  let c := c.acknowledged now f
  let sentTime := (tally.largest.map fun p => (c.pm.heap p).sentTime).getD 0
  { c with
    mtu := tally.mtu
    ackedLarge := tally.large
    cc := c.cc.onPacketAcked now tally.bytes sentTime (f.ackDelay.toNat * millisecond)
      tally.largest.isSome f.largestAcked.toNat }

/-- The lost packets that an acknowledgment reveals, and the queue flushed. -/
def reflushed (c : Connection F) : Connection F :=
  ((c.credited now f).detectLostPackets now).flushLost now

theorem handleAckFrame_eq (c : Connection F) :
    c.handleAckFrame now f =
      if (c.pm.handleAckFrame now f).2.length > 0 then
        (c.reflushed now f).probeMTU now
      else c.acknowledged now f := by
  simp only [handleAckFrame, reflushed, credited, ackTally, acknowledged]

omit [Float64 F] in
theorem keeps_acknowledged : Keeps [] c (c.acknowledged now f) :=
  .manage (.handleAckFrame now f) (.handleAckFrame now f)
    (c.pm.cargo_handleAckFrame now f)

theorem keeps_credited : Keeps [] c (c.credited now f) :=
  (keeps_acknowledged now f).trans (.quiet rfl rfl rfl rfl)

theorem keeps_reflushed : Keeps [] c (c.reflushed now f) :=
  ((keeps_credited now f).trans (keeps_detectLostPackets now)).trans
    (sends_flushLost now).toKeeps

theorem keeps_handleAckFrame : Keeps [] c (c.handleAckFrame now f) := by
  rw [handleAckFrame_eq]
  split
  · exact (keeps_reflushed now f).trans (sends_probeMTU now).toKeeps
  · exact keeps_acknowledged now f

/-- An ACK changes the datagram size to that of a tracked probe it names, or
lets it fall back. -/
theorem current_handleAckFrame :
    c.mtu.Falls (c.handleAckFrame now f).mtu ∨
      ∃ n ∈ f.sequences, ∃ p, c.pm.sentPackets.lookup n = some p ∧ (c.pm.heap p).probe = true ∧
        (c.pm.heap p).size = (c.handleAckFrame now f).mtu.current := by
  rw [handleAckFrame_eq]
  split
  · have later : (c.credited now f).mtu.Falls ((c.reflushed now f).probeMTU now).mtu :=
      ((falls_reportLost now _).trans (sends_flushLost now).size).trans (sends_probeMTU now).size
    rcases later with still | small
    · rcases current_foldl_tallyAcked (c.acknowledged now f).pm f.largestAcked
        (c.pm.handleAckFrame now f).2 { mtu := c.mtu } with same | ⟨p, acked, probe, size⟩
      · exact .inl (.inl (still.trans same))
      · have taken := acked
        rw [PacketManager.handleAckFrame_acked, PacketManager.mem_foldl_take] at taken
        obtain ⟨n, named, found⟩ := taken.resolve_left List.not_mem_nil
        have cargo : (c.acknowledged now f).pm.cargo p = c.pm.cargo p :=
          congrFun (c.pm.cargo_handleAckFrame now f) p
        rw [cargo] at probe size
        exact .inr ⟨n, named, p, found, probe, (still.trans size).symm⟩
    · exact .inl (.inr small)
  · exact .inl .refl

omit [Float64 F] in
/-- Acknowledged packets leave the table; their bytes are owed. -/
theorem acknowledged_spec (reported : ∀ n ∈ f.sequences, r.acks n) :
    Simulated r c g (c.acknowledged now f)
      { g with debt := g.debt + (c.ackTally now f).bytes } := by
  intro _ custody
  obtain ⟨kept, gone, acked, named, tracked⟩ :=
    PacketManager.Custody.handleAckFrame custody now f
  have cargo := c.pm.cargo_handleAckFrame now f
  have bytes : (c.ackTally now f).bytes =
      (gone.map fun e => (c.pm.cargo e.2).booked).sum := by
    rw [ackTally, bytes_foldl_tallyAcked, acked, List.map_map, Nat.zero_add]
    simp only [acknowledged, cargo]
    rfl
  refine ⟨kept, ?_⟩
  have moves := Moves.acks (r := r) (c.flight g) (gone.map fun e => (e.1, c.pm.cargo e.2))
    ↑(c.acknowledged now f).pm.tracked
    ((Multiset.coe_eq_coe.mpr tracked).trans (Multiset.coe_add _ _).symm) (by
      intro e member
      obtain ⟨entry, inside, rfl⟩ := List.mem_map.mp member
      exact reported _ (named entry inside))
  rw [List.map_map] at moves
  have moved : (c.acknowledged now f).flight
      { g with debt := g.debt + (c.ackTally now f).bytes } =
      { c.flight g with
        tracked := ↑(c.acknowledged now f).pm.tracked
        debt := g.debt + (c.ackTally now f).bytes } := by
    rw [flight, show (c.acknowledged now f).pm.cargo = c.pm.cargo from cargo,
      show (c.acknowledged now f).pm.nextSeq = c.pm.nextSeq from
        (c.pm.nextSeq_handleAckFrame now f).1]
    rfl
  rw [moved, bytes]
  exact moves

/-- The window is credited with the bytes owed for the packets acknowledged. -/
theorem simulated_credited (solvent : 0 ≤ g.debt) (reported : ∀ n ∈ f.sequences, r.acks n) :
    Simulated r c g (c.credited now f) g := by
  have lands : Simulated r (c.acknowledged now f)
      { g with debt := g.debt + (c.ackTally now f).bytes } (c.credited now f)
      { g with debt := g.debt + (c.ackTally now f).bytes - (c.ackTally now f).bytes } :=
    .land (Int.le_add_of_nonneg_left solvent) rfl rfl rfl
      (CongestionController.inflight_onPacketAcked ..)
  rw [add_sub_cancel_right] at lands
  exact (acknowledged_spec now f reported).trans (Nat.le_refl _) lands

theorem simulated_detected (opened : c.state ≠ .closed) (solvent : 0 ≤ g.debt)
    (reported : ∀ n ∈ f.sequences, r.acks n) :
    Simulated r c g ((c.credited now f).detectLostPackets now) g :=
  (simulated_credited now f solvent reported).trans (keeps_detectLostPackets now).next
    (simulated_detectLostPackets now opened solvent)

theorem opened_detected (opened : c.state ≠ .closed) :
    ((c.credited now f).detectLostPackets now).state ≠ .closed := by
  have lost : Keeps [] (c.credited now f) ((c.credited now f).detectLostPackets now) :=
    keeps_detectLostPackets now
  rwa [show ((c.credited now f).detectLostPackets now).state = c.state from
    congrArg Endpoint.state lost.endpoint]

theorem simulated_reflushed (opened : c.state ≠ .closed) (solvent : 0 ≤ g.debt)
    (reported : ∀ n ∈ f.sequences, r.acks n) : Simulated r c g (c.reflushed now f) g :=
  (simulated_detected now f opened solvent reported).trans (sends_flushLost now).next
    (simulated_flushLost now (opened_detected now f opened))

theorem simulated_handleAckFrame (opened : c.state ≠ .closed) (solvent : 0 ≤ g.debt)
    (reported : ∀ n ∈ f.sequences, r.acks n)
    (allowed : ∀ extent (x : Cargo) padding, x.probe = true → x.frames = [.mtuProbe padding] →
      r.sends extent x) :
    Simulated r c g (c.handleAckFrame now f) g := by
  rw [handleAckFrame_eq]
  split
  · exact (simulated_reflushed now f opened solvent reported).trans (sends_probeMTU now).next
      (simulated_probeMTU now allowed)
  · rename_i none
    have taken := acknowledged_spec (c := c) (g := g) now f reported
    have empty : (c.pm.handleAckFrame now f).2 = [] := List.length_eq_zero_iff.mp (by omega)
    have zero : (c.ackTally now f).bytes = 0 := by rw [ackTally, empty]; rfl
    rw [zero, Nat.cast_zero, add_zero] at taken
    exact taken

end Ack

end Connection

end Udx
