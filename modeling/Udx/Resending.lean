import Udx.ConnectionFlight

set_option autoImplicit false

namespace Udx

open Flight (Move Moves)

namespace Connection

variable {F : Type} {r : Flight.Rules} {a b c : Connection F} {g : Ghost}

theorem pieceSize_eq (c : Connection F) (x : Cargo) (frame : StreamFrame) (isFin isSyn : Bool)
    (offset : UInt64) :
    c.pieceSize x frame = c.pieceSize x ⟨isFin, isSyn, offset, []⟩ + frame.data.length := by
  simp only [pieceSize, length_marshalPacket, Packet.headerLen, Packet.framesLen, packet,
    List.map_cons, List.map_nil, List.sum_cons, List.sum_nil, Frame.len, List.length_nil]
  omega

theorem pieceSize_pos (c : Connection F) (x : Cargo) (frame : StreamFrame) :
    0 < c.pieceSize x frame := by
  rw [pieceSize, length_marshalPacket, Packet.headerLen]
  omega

/-- The data of a packet the path no longer carries can be cut at `limit`, into
pieces that it does. -/
structure Oversized (c : Connection F) (x : Cargo) (sf : StreamFrame) (limit : Nat) : Prop where
  frames : x.frames = [.stream sf]
  positive : 0 < limit
  long : limit < sf.data.length
  fits : limit + c.pieceSize x ⟨false, sf.isSyn, sf.offset, []⟩ = c.mtu.current
  large : c.mtu.current < x.size

structure Cut (c : Connection F) (p : Ptr) (sf : StreamFrame) (limit : Nat)
    (out : Connection F × List Ptr) : Prop extends Oversized c (c.pm.cargo p) sf limit where
  allocated : allocate (c.pm.heap p) { c with pm := c.pm.drop p }
    (streamFrames sf.isFin sf.offset sf.isSyn (Chunks.chunks limit sf.data)) = out

theorem Oversized.fitToPath {p : Ptr} {sf : StreamFrame} {limit : Nat}
    (oversized : Oversized c (c.pm.cargo p) sf limit) : Cut c p sf limit (c.fitToPath p) := by
  have frames : (c.pm.heap p).frames = [.stream sf] := oversized.frames
  have large : c.mtu.current < (c.pm.heap p).size := oversized.large
  have fits : limit + c.pieceSize (c.pm.heap p).toCargo ⟨false, sf.isSyn, sf.offset, []⟩ =
    c.mtu.current := oversized.fits
  have long := oversized.long
  have positive := oversized.positive
  refine ⟨oversized, ?_⟩
  have limit_eq : ((c.mtu.current : Int) -
      c.pieceSize (c.pm.heap p).toCargo ⟨false, sf.isSyn, sf.offset, []⟩).toNat = limit := by omega
  unfold Connection.fitToPath fitTo
  dsimp only
  rw [if_neg (by omega), frames]
  dsimp only
  rw [if_neg (by omega), limit_eq]

theorem fitToPath_cases (c : Connection F) (p : Ptr) :
    c.fitToPath p = (c, [p]) ∨ ∃ sf limit, Cut c p sf limit (c.fitToPath p) := by
  unfold fitToPath fitTo
  dsimp only
  split
  · exact .inl rfl
  · rename_i large
    split
    · rename_i sf frames
      split
      · exact .inl rfl
      · rename_i cut
        rw [not_or] at cut
        refine .inr ⟨sf, _, ⟨frames, by omega, by omega, ?_, Nat.lt_of_not_le large⟩, rfl⟩
        rw [PacketManager.cargo]
        omega
    · exact .inl rfl

theorem allocate_spec (pkt : SentPacket) (held : List Ptr) {frames : List StreamFrame}
    {c : Connection F} {out : Connection F × List Ptr} (allocated : allocate pkt c frames = out) :
    (∃ pm, out.1 = { c with pm := pm }) ∧ out.1.pm.nextSeq = c.pm.nextSeq ∧
      out.1.pm.sentPackets = c.pm.sentPackets ∧
      (∀ q < c.pm.nextPtr, out.1.pm.heap q = c.pm.heap q) ∧ out.2.length = frames.length ∧
      (c.pm.Custody held → out.1.pm.Custody (out.2 ++ held) ∧
        out.2.map out.1.pm.cargo =
          frames.map fun frame => pkt.piece (c.pieceSize pkt.toCargo frame) frame) := by
  induction frames generalizing c out held with
  | nil =>
    subst allocated
    exact ⟨⟨c.pm, rfl⟩, rfl, rfl, fun _ _ => rfl, rfl, fun custody => ⟨custody, rfl⟩⟩
  | cons frame rest ih =>
    set first : SentPacket :=
      { toCargo := pkt.piece (c.pieceSize pkt.toCargo frame) frame
        firstSentTime := pkt.firstSentTime, retransmitCount := pkt.retransmitCount }
    rcases later : allocate pkt { c with pm := (c.pm.new first).1 } rest with ⟨last, qs⟩
    have split : allocate pkt c (frame :: rest) = (last, c.pm.nextPtr :: qs) := by
      rw [allocate]
      show (let out := allocate pkt { c with pm := (c.pm.new first).1 } rest
        (out.1, c.pm.nextPtr :: out.2)) = _
      rw [later]
    obtain rfl := split.symm.trans allocated
    obtain ⟨⟨pm, only⟩, next, table, heap, length, spec⟩ := ih (c.pm.nextPtr :: held) later
    refine ⟨⟨pm, only⟩, next, table, fun q inside => ?_, congrArg (· + 1) length,
      fun custody => ?_⟩
    · rw [heap q (Nat.lt_succ_of_lt inside)]
      exact Function.update_of_ne (Nat.ne_of_lt inside) _ _
    · obtain ⟨kept, new⟩ := spec (custody.new first rfl rfl)
      refine ⟨kept.perm List.perm_middle, ?_⟩
      have self : last.pm.cargo c.pm.nextPtr = first.toCargo :=
        (congrArg SentPacket.toCargo (heap _ (Nat.lt_succ_self _))).trans (c.pm.cargo_new first)
      rw [List.map_cons, List.map_cons, new, self]
      rfl

namespace Cut

variable {p : Ptr} {sf : StreamFrame} {limit : Nat} {out : Connection F × List Ptr}
  (cut : Cut c p sf limit out)
include cut

theorem one_lt_length : 1 < out.2.length := by
  obtain ⟨-, -, -, -, length, -⟩ := allocate_spec (c.pm.heap p) [] cut.allocated
  have several := Chunks.one_lt_length_chunks cut.positive cut.long
  rwa [length, ← List.length_map (f := StreamFrame.data), map_data_streamFrames]

/-- The pieces a packet is cut into are a split of its cargo. -/
theorem splits :
    (c.pm.cargo p).Splits
      ((streamFrames sf.isFin sf.offset sf.isSyn (Chunks.chunks limit sf.data)).map fun frame =>
        (c.pm.cargo p).piece (c.pieceSize (c.pm.cargo p) frame) frame) := by
  refine ⟨sf, limit, _, cut.frames, cut.positive, cut.long, rfl, fun y member => ?_⟩
  obtain ⟨frame, inside, rfl⟩ := List.mem_map.mp member
  have short := (Chunks.length_of_mem_chunks cut.positive (data_of_mem_streamFrames inside)).2
  have fits := cut.fits
  have large := cut.large
  have size := c.pieceSize_eq (c.pm.cargo p) frame false sf.isSyn sf.offset
  dsimp only [Cargo.piece]
  exact ⟨c.pieceSize_pos (c.pm.cargo p) frame, by omega⟩

end Cut

theorem simulated_regroup {hand : List Ptr}
    (moved : (a.lostQueue ++ g.hand).Perm (b.lostQueue ++ hand)) (pm : b.pm = a.pm)
    (wire : b.wire = a.wire) (inflight : b.cc.inflight = a.cc.inflight) :
    Simulated r a g b { g with hand := hand } := by
  intro _ custody
  have same : b.flight { g with hand := hand } = a.flight g := by
    simp only [flight]
    rw [pm, wire, inflight, Multiset.coe_eq_coe.mpr (moved.map a.pm.cargo)]
  refine ⟨?_, same ▸ .refl⟩
  rw [Custody, pm]
  exact PacketManager.Custody.perm custody moved

theorem renumber_spec {now : Time} {p : Ptr} {hand : List Ptr} (held : g.hand = p :: hand)
    (pm : b.pm = a.pm.renumber now p) (queue : b.lostQueue = a.lostQueue)
    (wire : b.wire = a.wire) (inflight : b.cc.inflight = a.cc.inflight)
    (room : b.pm.nextSeq ≤ 2 ^ 32) (custody : a.Custody g) :
    let g' := { g with hand := hand, debt := g.debt - (a.pm.cargo p).size }
    (b.Custody g' ∧ Moves r (a.flight g) (b.flight g')) ∧
      (UInt32.ofNat a.pm.nextSeq, b.pm.cargo p) ∈ b.pm.tracked ∧ b.pm.cargo = a.pm.cargo ∧
      b.pm.outstanding = p :: a.pm.outstanding := by
  intro g'
  have front : (a.lostQueue ++ g.hand).Perm (p :: (a.lostQueue ++ hand)) := by
    rw [held]
    exact List.perm_middle
  have custody' : a.pm.Custody (p :: (a.lostQueue ++ hand)) :=
    PacketManager.Custody.perm custody front
  rw [pm] at room
  obtain ⟨kept, tracked, outstanding⟩ := custody'.renumber now rfl room
  rw [← pm] at kept tracked outstanding
  have data : (a.pm.cargo p).probe = false := custody'.data p List.mem_cons_self
  have cargo : b.pm.cargo = a.pm.cargo := by
    rw [pm]
    exact funext fun q => a.pm.renumber_cargo now p q
  have next : b.pm.nextSeq = a.pm.nextSeq + 1 := by rw [pm]; rfl
  refine ⟨⟨?_, .single ?_⟩, ?_, cargo, outstanding⟩
  · rw [Custody, queue]
    exact kept
  · have waits : (a.flight g).waiting = a.pm.cargo p ::ₘ ↑((a.lostQueue ++ hand).map a.pm.cargo) :=
      Multiset.coe_eq_coe.mpr (front.map a.pm.cargo)
    have moved : b.flight g' =
        { (a.flight g).number (a.pm.cargo p) with
          waiting := ↑((a.lostQueue ++ hand).map a.pm.cargo)
          debt := g.debt - (a.pm.cargo p).size } := by
      rw [flight, cargo, tracked, queue, wire, inflight, next]
      rfl
    rw [moved]
    exact .resend _ _ _ data waits
  · rw [tracked, cargo]
    exact List.mem_cons_self

theorem simulated_retransmitPacket {p : Ptr} {seq : UInt32}
    (present : (seq, c.pm.cargo p) ∈ c.pm.tracked) :
    Simulated r c g (c.retransmitPacket p seq) g :=
  simulated_emit present ⟨rfl, rfl, rfl⟩

theorem sends_retransmitPacket (p : Ptr) (seq : UInt32) : Sends [] c (c.retransmitPacket p seq) :=
  sends_put _ (fun checked => absurd checked Bool.false_ne_true) fun _ _ held => held p

theorem sends_resend (now : Time) (p : Ptr) :
    Sends [] c { c with pm := (c.pm.resend now p).1 } :=
  .manage (.resend now p) (.resend now p) (c.pm.cargo_resend now p)

theorem sends_new {labels : List (UInt32 × UInt32)} (pkt : SentPacket) (data : pkt.probe = false)
    (listed : Listed labels pkt.destinationStreamID pkt.sourceStreamID pkt.frames) :
    Sends labels c { c with pm := (c.pm.new pkt).1 } := by
  refine ⟨⟨rfl, .same rfl rfl, [], .nil, rfl, rfl, .of_old (.new data) _, fun known all held =>
    ⟨fun q => ?_, fun _ member => absurd member List.not_mem_nil⟩⟩, rfl, rfl, .inl rfl⟩
  rcases c.pm.cargo_new_cases pkt q with fresh | old
  · rw [fresh]
    exact fun directed => all _ (listed directed)
  · rw [old]
    exact held q

theorem sends_allocate (pkt : SentPacket) (frames : List StreamFrame) :
    Sends [(pkt.sourceStreamID, pkt.destinationStreamID)] c (allocate pkt c frames).1 := by
  induction frames generalizing c with
  | nil => exact .refl
  | cons frame rest ih =>
    refine .trans ?_ ih
    exact sends_new _ rfl fun _ => List.mem_singleton_self _

theorem Cut.sends {p : Ptr} {sf : StreamFrame} {limit : Nat} {out : Connection F × List Ptr}
    (cut : Cut c p sf limit out) : Sends [] c out.1 := by
  rw [← cut.allocated]
  refine Sends.relabel (.trans (.manage (.drop p) (.drop p) (c.pm.cargo_drop p))
    (sends_allocate _ _)) (List.forall_mem_singleton.mpr ⟨p, ?_, rfl⟩)
  rw [cut.frames]
  rfl

theorem Cut.spec {p : Ptr} {sf : StreamFrame} {limit : Nat} {out : Connection F × List Ptr}
    (cut : Cut c p sf limit out) {hand : List Ptr} (held : g.hand = p :: hand)
    (dropped : a.pm = c.pm.drop p) (cargo : a.pm.cargo p = c.pm.cargo p)
    (pm : b.pm = out.1.pm) (queue : b.lostQueue = a.lostQueue) (wire : b.wire = a.wire)
    (inflight : b.cc.inflight = a.cc.inflight) (custody : a.Custody g) :
    let g' := { g with hand := out.2 ++ hand }
    b.Custody g' ∧ Moves r (a.flight g) (b.flight g') := by
  intro g'
  have front : (a.lostQueue ++ g.hand).Perm (p :: (a.lostQueue ++ hand)) := by
    rw [held]
    exact List.perm_middle
  have custody' : a.pm.Custody (p :: (a.lostQueue ++ hand)) :=
    PacketManager.Custody.perm custody front
  obtain ⟨-, next, table, heap, -, spec⟩ :=
    allocate_spec (c.pm.heap p) (a.lostQueue ++ hand) cut.allocated
  simp only [← dropped, ← pm] at next table heap spec
  have released := custody'.release (List.sublist_cons_self p _)
  obtain ⟨kept, new⟩ := spec released
  have same : ∀ q ∈ a.pm.pointers (a.lostQueue ++ hand), b.pm.cargo q = a.pm.cargo q :=
    fun q member => congrArg SentPacket.toCargo (heap q (released.allocated q member))
  have tracked : b.pm.tracked = a.pm.tracked := PacketManager.tracked_congr _ table same
  have old : (a.lostQueue ++ hand).map b.pm.cargo = (a.lostQueue ++ hand).map a.pm.cargo :=
    List.map_congr_left fun q member => same q (PacketManager.mem_pointers_of_held member)
  have back : (out.2 ++ (a.lostQueue ++ hand)).Perm (b.lostQueue ++ (out.2 ++ hand)) := by
    rw [queue, ← List.append_assoc, ← List.append_assoc]
    exact List.perm_append_comm.append_right hand
  refine ⟨kept.perm back, .single ?_⟩
  have waits : (a.flight g).waiting = c.pm.cargo p ::ₘ ↑((a.lostQueue ++ hand).map a.pm.cargo) := by
    rw [← cargo]
    exact Multiset.coe_eq_coe.mpr (front.map a.pm.cargo)
  have moved : b.flight g' =
      { a.flight g with
        waiting := ↑((streamFrames sf.isFin sf.offset sf.isSyn
          (Chunks.chunks limit sf.data)).map fun frame =>
            (c.pm.cargo p).piece (c.pieceSize (c.pm.cargo p) frame) frame) +
          ↑((a.lostQueue ++ hand).map a.pm.cargo) } := by
    rw [flight, wire, inflight, tracked, next, ← Multiset.coe_eq_coe.mpr (back.map b.pm.cargo),
      List.map_append, old, new, ← Multiset.coe_add]
    rfl
  rw [moved]
  exact .split _ _ _ _ waits cut.splits

theorem Cut.simulated {p : Ptr} {rest : List Ptr} {sf : StreamFrame} {limit : Nat}
    {out : Connection F × List Ptr} (cut : Cut c p sf limit out) (queue : c.lostQueue = p :: rest) :
    Simulated r c g { out.1 with lostQueue := out.2 ++ rest } g := by
  intro room custody
  obtain ⟨⟨pm, only⟩, -⟩ := allocate_spec (c.pm.heap p) [] cut.allocated
  have drop : c.pm.drop p = c.pm :=
    PacketManager.Custody.drop_held custody (by rw [queue]; exact List.mem_cons_self)
  have taken : Simulated r c g { c with lostQueue := rest } { g with hand := p :: g.hand } :=
    simulated_regroup (by rw [queue]; exact List.perm_middle.symm) rfl rfl rfl
  have split : Simulated r { c with lostQueue := rest } { g with hand := p :: g.hand }
      { out.1 with lostQueue := rest } { g with hand := out.2 ++ g.hand } := fun _ custody =>
    cut.spec (a := { c with lostQueue := rest }) (b := { out.1 with lostQueue := rest }) rfl
      drop.symm rfl rfl rfl (by rw [only]) (by rw [only]) custody
  have back : Simulated r { out.1 with lostQueue := rest } { g with hand := out.2 ++ g.hand }
      { out.1 with lostQueue := out.2 ++ rest } g :=
    simulated_regroup (by
      rw [← List.append_assoc]
      exact List.perm_append_comm.append_right _) rfl rfl rfl
  exact taken.trans cut.sends.next (split.trans (Nat.le_refl _) back) room custody

section Flush

variable [Float64 F] (now : Time)

/-- The packet at the head of the queue has gone out again and is booked
again. -/
def flushed (c : Connection F) (p : Ptr) (rest : List Ptr) (pm : PacketManager) (seq : UInt32) :
    Connection F :=
  let size := (pm.heap p).size
  let cc := c.cc.onPacketSent now size
  { c with
    lostQueue := rest, pm := pm
    cc := { cc with pacer := cc.pacer.onPacketSent now size } }.retransmitPacket p seq

/-- A round of the loop after which it goes on. -/
inductive Round (c : Connection F) (p : Ptr) (rest : List Ptr) : Connection F → Prop
  | skipped (acked : (c.pm.heap p).isAcked = true) : Round c p rest { c with lostQueue := rest }
  | split (sf : StreamFrame) (limit : Nat) (out : Connection F × List Ptr)
      (cut : Cut c p sf limit out) : Round c p rest { out.1 with lostQueue := out.2 ++ rest }
  | refused (probe : (c.pm.heap p).probe = true) : Round c p rest { c with lostQueue := rest }
  | sent (pm : PacketManager) (seq : UInt32) (resent : c.pm.resend now p = (pm, some seq))
      (window : c.cc.canSend (c.pm.heap p).size = true) :
      Round c p rest (c.flushed now p rest pm seq)

/-- The loop stops before the head of the queue. -/
inductive Halt (c : Connection F) (p : Ptr) : Connection F → Prop
  | paced (wait : c.cc.pacer.timeUntilSend now > 0) :
      Halt c p { c with lostTimer := some (now + c.cc.pacer.timeUntilSend now) }
  | full (window : c.cc.canSend (c.pm.heap p).size = false) : Halt c p c

theorem flushLoop_cons {p : Ptr} {rest : List Ptr} (queue : c.lostQueue = p :: rest)
    (opened : c.state ≠ .closed) (fuel : Nat) :
    (∃ c', Round now c p rest c' ∧ flushLoop now (fuel + 1) c = flushLoop now fuel c') ∨
      Halt now c p (flushLoop now (fuel + 1) c) := by
  rw [flushLoop, queue]
  dsimp only
  rw [if_neg opened]
  split
  · rename_i acked
    exact .inl ⟨_, .skipped acked, rfl⟩
  · rename_i unacked
    have unacked : (c.pm.heap p).isAcked = false := by simpa using unacked
    generalize fit : (if (c.pm.heap p).size > c.mtu.current then c.fitToPath p else (c, [p])) = out
    have cases : out = (c, [p]) ∨ ∃ sf limit, Cut c p sf limit out := by
      rw [← fit]
      split
      · exact c.fitToPath_cases p
      · exact .inl rfl
    rcases cases with rfl | ⟨sf, limit, cut⟩
    · dsimp only [List.length_singleton]
      rw [if_neg (Nat.lt_irrefl 1)]
      split
      · rename_i wait
        exact .inr (.paced wait)
      · split
        · rename_i closed
          exact .inr (.full (by simpa using closed))
        · rename_i window
          by_cases probe : (c.pm.heap p).probe = true
          · rw [PacketManager.resend_eq, if_pos (.inr probe)]
            exact .inl ⟨_, .refused probe, rfl⟩
          · have data : (c.pm.heap p).probe = false := by simpa using probe
            have resent := PacketManager.resend_eq c.pm now p
            rw [if_neg (by simp [unacked, data])] at resent
            rw [resent]
            exact .inl ⟨_, .sent _ _ resent (by simpa using window), rfl⟩
    · rw [if_pos cut.one_lt_length]
      exact .inl ⟨_, .split sf limit out cut, rfl⟩

variable {now}

theorem Round.sends {p : Ptr} {rest : List Ptr} {c' : Connection F}
    (round : Round now c p rest c') : Sends [] c c' := by
  cases round with
  | skipped | refused => exact .quiet rfl rfl rfl rfl rfl rfl rfl
  | split sf limit out cut => exact cut.sends.trans (.quiet rfl rfl rfl rfl rfl rfl rfl)
  | sent pm seq resent =>
    have renumbered := sends_resend (c := c) now p
    rw [resent] at renumbered
    refine .trans ?_ (sends_retransmitPacket p seq)
    exact renumbered.trans (.quiet rfl rfl rfl rfl rfl rfl rfl)

theorem simulated_flushed {p : Ptr} {rest : List Ptr} (queue : c.lostQueue = p :: rest) :
    Simulated r c g
      (c.flushed now p rest (c.pm.renumber now p) (UInt32.ofNat c.pm.nextSeq)) g := by
  have size : ((c.pm.renumber now p).heap p).size = (c.pm.cargo p).size :=
    congrArg Cargo.size (c.pm.renumber_cargo now p p)
  let taken : Connection F := { c with lostQueue := rest }
  let numbered : Connection F := { taken with pm := c.pm.renumber now p }
  have dequeued : Simulated r c g taken { g with hand := p :: g.hand } :=
    simulated_regroup (by rw [queue]; exact List.perm_middle.symm) rfl rfl rfl
  refine dequeued.trans (Nat.le_succ _) (.andThen (b := numbered)
    (renumber_spec rfl rfl rfl rfl rfl) (Nat.le_refl _) fun present => ?_)
  have booked : Simulated r (numbered.retransmitPacket p (UInt32.ofNat c.pm.nextSeq))
      { g with debt := g.debt - (c.pm.cargo p).size }
      (c.flushed now p rest (c.pm.renumber now p) (UInt32.ofNat c.pm.nextSeq)) _ :=
    .book (c.pm.cargo p).size rfl rfl rfl (by rw [← size]; rfl)
  rw [sub_add_cancel] at booked
  exact (simulated_retransmitPacket present.1).trans (Nat.le_refl _) booked

theorem Round.simulated {p : Ptr} {rest : List Ptr} {c' : Connection F}
    (round : Round now c p rest c') (queue : c.lostQueue = p :: rest) : Simulated r c g c' g := by
  intro room custody
  have member : p ∈ c.lostQueue ++ g.hand := by rw [queue]; exact List.mem_cons_self
  cases round with
  | skipped acked =>
    have := PacketManager.Custody.unacked custody p (PacketManager.mem_pointers_of_held member)
    rw [this] at acked
    cases acked
  | refused probe =>
    have := PacketManager.Custody.data custody p member
    rw [this] at probe
    cases probe
  | split sf limit out cut => exact cut.simulated queue room custody
  | sent pm seq resent =>
    have := (PacketManager.Custody.resend_held custody now member).symm.trans resent
    obtain ⟨rfl, rfl⟩ : c.pm.renumber now p = pm ∧ UInt32.ofNat c.pm.nextSeq = seq := by
      simpa using this
    exact simulated_flushed queue room custody

theorem Halt.sends {p : Ptr} {c' : Connection F} (halt : Halt now c p c') : Sends [] c c' := by
  cases halt with
  | paced => exact .quiet rfl rfl rfl rfl rfl rfl rfl
  | full => exact .refl

theorem Halt.simulated {p : Ptr} {c' : Connection F} (halt : Halt now c p c') :
    Simulated r c g c' g := by
  cases halt with
  | paced => exact .aside rfl rfl rfl rfl
  | full => exact .refl

variable (now)

theorem sends_flushLoop (fuel : Nat) : Sends [] c (flushLoop now fuel c) := by
  induction fuel generalizing c with
  | zero => exact .refl
  | succ fuel ih =>
    rcases queue : c.lostQueue with _ | ⟨p, rest⟩
    · rw [flushLoop, queue]
      exact .refl
    · by_cases closed : c.state = .closed
      · rw [flushLoop, queue]
        dsimp only
        rw [if_pos closed]
        exact .quiet rfl rfl rfl rfl rfl rfl rfl
      · rcases flushLoop_cons now queue closed fuel with ⟨c', round, same⟩ | halt
        · rw [same]
          exact round.sends.trans ih
        · exact halt.sends

theorem simulated_flushLoop (opened : c.state ≠ .closed) (fuel : Nat) :
    Simulated r c g (flushLoop now fuel c) g := by
  induction fuel generalizing c with
  | zero => exact .refl
  | succ fuel ih =>
    rcases queue : c.lostQueue with _ | ⟨p, rest⟩
    · rw [flushLoop, queue]
      exact .refl
    · rcases flushLoop_cons now queue opened fuel with ⟨c', round, same⟩ | halt
      · have opened : c'.state ≠ .closed := by
          rwa [show c'.state = c.state from congrArg Endpoint.state round.sends.endpoint]
        rw [same]
        exact (round.simulated queue).trans (sends_flushLoop now fuel).next (ih opened)
      · exact halt.simulated

/-- How many rounds the queue can keep the loop going. -/
def queueRounds (c : Connection F) : Nat :=
  (c.lostQueue.map fun p => (c.pm.cargo p).dataLen ^ 2 + 1).sum

/-- Every round shortens what is before the loop: a packet leaves the queue, or
its data is cut. -/
theorem Round.queueRounds_lt {p : Ptr} {rest : List Ptr} {c' : Connection F}
    (round : Round now c p rest c') (queue : c.lostQueue = p :: rest) (custody : c.Custody g) :
    c'.queueRounds < c.queueRounds := by
  have before : c.queueRounds = (c.pm.cargo p).dataLen ^ 2 + 1 +
      (rest.map fun q => (c.pm.cargo q).dataLen ^ 2 + 1).sum := by
    rw [queueRounds, queue, List.map_cons, List.sum_cons]
  rw [before]
  have member : p ∈ c.lostQueue ++ g.hand := by rw [queue]; exact List.mem_cons_self
  cases round with
  | skipped | refused =>
    simp only [queueRounds]
    omega
  | sent pm seq resent =>
    have := (PacketManager.Custody.resend_held custody now member).symm.trans resent
    obtain ⟨rfl, -⟩ : c.pm.renumber now p = pm ∧ UInt32.ofNat c.pm.nextSeq = seq := by
      simpa using this
    have same : (c.flushed now p rest (c.pm.renumber now p) seq).queueRounds =
        (rest.map fun q => (c.pm.cargo q).dataLen ^ 2 + 1).sum := by
      simp only [queueRounds, ← c.pm.renumber_cargo now p]
      rfl
    omega
  | split sf limit out cut =>
    have drop : c.pm.drop p = c.pm := PacketManager.Custody.drop_held custody member
    obtain ⟨-, -, -, heap, -, spec⟩ := allocate_spec (c.pm.heap p) [] cut.allocated
    rw [drop] at heap spec
    obtain ⟨-, new⟩ := spec (PacketManager.Custody.release custody (List.nil_sublist _))
    have old : rest.map (fun q => (out.1.pm.cargo q).dataLen ^ 2 + 1) =
        rest.map fun q => (c.pm.cargo q).dataLen ^ 2 + 1 := by
      refine List.map_congr_left fun q later => ?_
      have inside : q < c.pm.nextPtr := PacketManager.Custody.allocated custody q
        (PacketManager.mem_pointers_of_held (List.mem_append_left _ (by
          rw [queue]
          exact List.mem_cons_of_mem p later)))
      rw [PacketManager.cargo, heap q inside]
      rfl
    have pieces : (out.2.map fun q => (out.1.pm.cargo q).dataLen ^ 2 + 1) =
        (Chunks.chunks limit sf.data).map fun piece => piece.length ^ 2 + 1 := by
      rw [← map_data_streamFrames sf.isFin sf.isSyn sf.offset (Chunks.chunks limit sf.data)]
      have := congrArg (List.map fun x : Cargo => x.dataLen ^ 2 + 1) new
      rw [List.map_map, List.map_map] at this
      rw [List.map_map]
      exact this
    have shrinks := Chunks.sum_sq_succ_le (Chunks.one_lt_length_chunks cut.positive cut.long)
      fun piece inside => (Chunks.length_of_mem_chunks cut.positive inside).1
    rw [Chunks.flatten_chunks cut.positive] at shrinks
    have whole : (c.pm.cargo p).dataLen = sf.data.length := by
      rw [Cargo.dataLen, cut.frames]
    simp only [queueRounds, List.map_append, List.sum_append]
    rw [pieces, old, whole]
    omega

/-- The loop can do no more now: the queue is empty, the pacer has a timer
running, or the window is closed to the packet at its head. -/
def Flushed (c : Connection F) : Prop :=
  c.lostQueue = [] ∨ c.lostTimer.isSome = true ∨
    ∃ p ∈ c.lostQueue, c.cc.canSend (c.pm.heap p).size = false

theorem flushed_flushLoop {fuel : Nat} (opened : c.state ≠ .closed)
    (enough : c.queueRounds < fuel) (room : (flushLoop now fuel c).pm.nextSeq ≤ 2 ^ 32)
    (custody : c.Custody g) : (flushLoop now fuel c).Flushed := by
  induction fuel generalizing c with
  | zero => exact absurd enough (Nat.not_lt_zero _)
  | succ fuel ih =>
    rcases queue : c.lostQueue with _ | ⟨p, rest⟩
    · rw [flushLoop, queue]
      exact .inl queue
    · rcases flushLoop_cons now queue opened fuel with ⟨c', round, same⟩ | halt
      · rw [same] at room ⊢
        have keeps := round.sends
        have opened' : c'.state ≠ .closed := by
          rwa [show c'.state = c.state from congrArg Endpoint.state keeps.endpoint]
        have fewer := round.queueRounds_lt now queue custody
        have later := (sends_flushLoop (c := c') now fuel).next
        obtain ⟨kept, -⟩ := round.simulated (r := .any) queue
          (Nat.le_trans later room) custody
        exact ih opened' (by omega) room kept
      · generalize flushLoop now (fuel + 1) c = last at halt
        cases halt with
        | paced => exact .inr (.inl rfl)
        | full window => exact .inr (.inr ⟨p, by rw [queue]; exact List.mem_cons_self, window⟩)

theorem sends_flushLost : Sends [] c (c.flushLost now) :=
  Sends.trans (b := { c with lostTimer := none }) (.quiet rfl rfl rfl rfl rfl rfl rfl)
    (sends_flushLoop now _)

/-- The loop has rounds enough to end on its own. -/
theorem flushed_flushLost (opened : c.state ≠ .closed)
    (room : (c.flushLost now).pm.nextSeq ≤ 2 ^ 32) (custody : c.Custody g) :
    (c.flushLost now).Flushed :=
  flushed_flushLoop (c := { c with lostTimer := none }) now opened (Nat.lt_succ_self _) room custody

theorem simulated_flushLost (opened : c.state ≠ .closed) :
    Simulated r c g (c.flushLost now) g :=
  Simulated.trans (b := { c with lostTimer := none }) (.aside rfl rfl rfl rfl)
    (sends_flushLoop now _).next (simulated_flushLoop (c := { c with lostTimer := none }) now opened _)

end Flush

theorem sends_fitToPath (p : Ptr) : Sends [] c (c.fitToPath p).1 := by
  rcases c.fitToPath_cases p with whole | ⟨sf, limit, cut⟩
  · rw [whole]
    exact .refl
  · exact cut.sends

theorem drop_spec {p : Ptr} (member : p ∈ c.pm.outstanding) (data : (c.pm.heap p).probe = false)
    (custody : c.Custody g) :
    let dropped : Connection F := { c with pm := c.pm.drop p }
    let g' := { g with hand := p :: g.hand, debt := g.debt + (c.pm.cargo p).size }
    (dropped.Custody g' ∧ Moves r (c.flight g) (dropped.flight g')) ∧
      c.pm.outstanding.Perm (p :: dropped.pm.outstanding) ∧ dropped.pm.cargo = c.pm.cargo := by
  intro dropped g'
  obtain ⟨e, inside, rfl⟩ := List.mem_map.mp member
  obtain ⟨kept, tracked, outstanding⟩ :=
    PacketManager.Custody.drop custody (PacketManager.Custody.tracks custody inside) data
  have cargo : dropped.pm.cargo = c.pm.cargo := by
    show (c.pm.drop e.2).cargo = _
    unfold PacketManager.drop
    split <;> rfl
  refine ⟨⟨kept.perm List.perm_middle.symm, .single ?_⟩, outstanding, cargo⟩
  have moved : dropped.flight g' =
      { c.flight g with
        tracked := ↑dropped.pm.tracked
        waiting := c.pm.cargo e.2 ::ₘ (c.flight g).waiting
        debt := g.debt + (c.pm.cargo e.2).size } := by
    have waiting : (((c.lostQueue ++ e.2 :: g.hand).map c.pm.cargo : List Cargo) : Multiset Cargo) =
        c.pm.cargo e.2 ::ₘ ↑((c.lostQueue ++ g.hand).map c.pm.cargo) :=
      Multiset.coe_eq_coe.mpr (List.perm_middle.map c.pm.cargo)
    simp only [flight, g', cargo, ← waiting]
    rw [show dropped.pm.nextSeq = c.pm.nextSeq from c.pm.nextSeq_drop e.2]
  rw [moved]
  exact .lose _ _ _ _ (Multiset.coe_eq_coe.mpr tracked) data

/-- Whether a packet stays whole depends on what it carries and on the path. -/
theorem fitToPath_congr {p : Ptr} (endpoint : b.endpoint = a.endpoint) (mtu : b.mtu = a.mtu)
    (cargo : b.pm.cargo p = a.pm.cargo p) (whole : a.fitToPath p = (a, [p])) :
    b.fitToPath p = (b, [p]) := by
  rcases b.fitToPath_cases p with same | ⟨sf, limit, cut⟩
  · exact same
  · have size : ∀ x frame, b.pieceSize x frame = a.pieceSize x frame := by
      intro x frame
      have remote : b.remoteCID = a.remoteCID := congrArg Endpoint.remoteCID endpoint
      have here : b.localCID = a.localCID := congrArg Endpoint.localCID endpoint
      rw [pieceSize, pieceSize, packet, packet, remote, here]
    have oversized : Oversized a (a.pm.cargo p) sf limit := by
      obtain ⟨frames, positive, long, fits, large⟩ := cut.toOversized
      rw [cargo] at frames fits large
      rw [mtu] at fits large
      exact ⟨frames, positive, long, (size _ _) ▸ fits, large⟩
    have several := oversized.fitToPath.one_lt_length
    rw [whole] at several
    exact absurd several (Nat.lt_irrefl 1)

theorem mtu_fitToPath (p : Ptr) : (c.fitToPath p).1.mtu = c.mtu := by
  rcases c.fitToPath_cases p with whole | ⟨sf, limit, cut⟩
  · rw [whole]
  · obtain ⟨⟨pm, only⟩, -⟩ := allocate_spec (c.pm.heap p) [] cut.allocated
    rw [only]

/-- The black-hole fall-back at the head of `onPTO`. -/
def blackholed (c : Connection F) (now : Time) : Connection F :=
  if c.cc.ptoCount ≥ blackholePTOs then { c with mtu := c.mtu.blackholeLocked now } else c

theorem sends_blackholed (now : Time) : Sends [] c (c.blackholed now) := by
  unfold blackholed
  split
  · exact ⟨.quiet rfl rfl rfl rfl, rfl, rfl, MTUDiscovery.falls_blackholeLocked now⟩
  · exact .refl

theorem simulated_blackholed (now : Time) : Simulated r c g (c.blackholed now) g := by
  unfold blackholed
  split
  · exact .aside rfl rfl rfl rfl
  · exact .refl

section Pto

variable [Float64 F] (now : Time)

/-- One packet's part in `onPTO`. -/
def ptoProbe (c : Connection F) (p : Ptr) : Connection F :=
  (c.fitToPath p).2.foldl (resendProbe now) (c.fitToPath p).1

theorem onPTO_eq (c : Connection F) :
    c.onPTO now =
      ((c.blackholed now).pm.oldestUnacked ptoProbes).foldl (ptoProbe now) (c.blackholed now) := rfl

theorem sends_resendProbe (p : Ptr) : Sends [] c (resendProbe now c p) := by
  have renumbered := sends_resend (c := c) now p
  unfold resendProbe
  split <;> rename_i resent <;> rw [resent] at renumbered
  · exact renumbered
  · rename_i pm seq
    exact (renumbered.trans (sends_retransmitPacket p seq)).trans
      (.quiet rfl rfl rfl rfl rfl rfl rfl)

theorem sends_ptoProbe (p : Ptr) : Sends [] c (ptoProbe now c p) :=
  (sends_fitToPath p).trans (.foldl (fun _ q => sends_resendProbe now q) _)

theorem resendProbe_spec {p : Ptr} {hand : List Ptr} (held : g.hand = p :: hand)
    (room : (resendProbe now c p).pm.nextSeq ≤ 2 ^ 32) (custody : c.Custody g) :
    let after := resendProbe now c p
    let g' := { g with hand := hand, debt := g.debt - (c.pm.cargo p).size }
    (after.Custody g' ∧ Moves r (c.flight g) (after.flight g')) ∧
      after.pm.cargo = c.pm.cargo ∧ after.pm.outstanding = p :: c.pm.outstanding := by
  have member : p ∈ c.lostQueue ++ g.hand := by
    rw [held]
    exact List.mem_append_right _ List.mem_cons_self
  have resent := PacketManager.Custody.resend_held custody now member
  simp only [resendProbe, resent] at room ⊢
  obtain ⟨⟨kept, moves⟩, present, cargo, outstanding⟩ :=
    renumber_spec (r := r) (a := c) (b := { c with pm := c.pm.renumber now p }) held rfl rfl rfl rfl
      room custody
  obtain ⟨kept, emitted⟩ := simulated_retransmitPacket (r := r) present room kept
  exact ⟨⟨kept, moves.trans emitted⟩, cargo, outstanding⟩

theorem foldl_resendProbe_spec {ps hand : List Ptr} (held : g.hand = ps ++ hand)
    (room : (ps.foldl (resendProbe now) c).pm.nextSeq ≤ 2 ^ 32) (custody : c.Custody g) :
    let after := ps.foldl (resendProbe now) c
    let g' := { g with
      hand := hand, debt := g.debt - ((ps.map fun p => (c.pm.cargo p).size).sum : Nat) }
    (after.Custody g' ∧ Moves r (c.flight g) (after.flight g')) ∧
      after.pm.cargo = c.pm.cargo ∧ c.pm.outstanding ⊆ after.pm.outstanding := by
  induction ps generalizing c g with
  | nil =>
    have same : ({ g with hand := hand, debt := g.debt - ((0 : Nat) : Int) } : Ghost) = g := by
      rw [show hand = g.hand from held.symm]
      simp
    simp only [List.map_nil, List.sum_nil, List.foldl_nil, same]
    exact ⟨⟨custody, .refl⟩, trivial, List.Subset.refl _⟩
  | cons p rest ih =>
    have later : Sends [] (resendProbe now c p) (rest.foldl (resendProbe now) (resendProbe now c p)) :=
      .foldl (fun _ q => sends_resendProbe now q) rest
    obtain ⟨⟨kept, moves⟩, cargo, outstanding⟩ :=
      resendProbe_spec (r := r) now held (Nat.le_trans later.next room) custody
    obtain ⟨⟨kept, after⟩, cargo', grown⟩ := ih rfl room kept
    simp only [cargo] at kept after cargo'
    simp only [List.map_cons, List.sum_cons, List.foldl_cons, Nat.cast_add, ← sub_sub]
    refine ⟨⟨kept, moves.trans after⟩, cargo', ?_⟩
    rw [outstanding] at grown
    exact fun q member => grown (List.mem_cons_of_mem p member)

/-- One packet goes out as a probe, whole or in pieces. Whole, it is booked as
before. -/
theorem ptoProbe_spec {p : Ptr} (member : p ∈ c.pm.outstanding)
    (data : (c.pm.heap p).probe = false)
    (room : (ptoProbe now c p).pm.nextSeq ≤ 2 ^ 32) (custody : c.Custody g) :
    let after := ptoProbe now c p
    ∃ debt, (after.Custody { g with debt := debt } ∧
        Moves r (c.flight g) (after.flight { g with debt := debt })) ∧
      (c.fitToPath p = (c, [p]) → debt = g.debt) ∧
      ∀ q ∈ c.pm.outstanding, q ≠ p →
        q ∈ after.pm.outstanding ∧ after.pm.cargo q = c.pm.cargo q := by
  intro after
  obtain ⟨⟨kept, moves⟩, outstanding, cargo⟩ := drop_spec (r := r) member data custody
  set dropped : Connection F := { c with pm := c.pm.drop p } with dropped_eq
  have others : ∀ q ∈ c.pm.outstanding, q ≠ p → q ∈ dropped.pm.outstanding := fun q inside other =>
    (List.mem_cons.mp (outstanding.mem_iff.mp inside)).resolve_left other
  rcases c.fitToPath_cases p with whole | ⟨sf, limit, cut⟩
  · have held : p ∈ dropped.lostQueue ++ p :: g.hand :=
      List.mem_append_right _ List.mem_cons_self
    have unacked : (c.pm.heap p).isAcked = false :=
      PacketManager.Custody.unacked custody p (List.mem_append_left _ member)
    have resent : after = resendProbe now dropped p := by
      have late := PacketManager.Custody.resend_held kept now held
      have early := PacketManager.resend_eq c.pm now p
      rw [if_neg (by simp [unacked, data])] at early
      simp only [after, ptoProbe, whole, List.foldl_cons, List.foldl_nil, resendProbe, early, late]
      rfl
    obtain ⟨⟨kept, probed⟩, same, grown⟩ :=
      resendProbe_spec (r := r) now rfl (resent ▸ room) kept
    rw [← resent] at kept probed same grown
    rw [cargo, add_sub_cancel_right] at kept probed
    refine ⟨g.debt, ⟨kept, moves.trans probed⟩, fun _ => rfl, fun q inside other => ?_⟩
    rw [same, grown, cargo]
    exact ⟨List.mem_cons_of_mem p (others q inside other), rfl⟩
  · obtain ⟨⟨pm, only⟩, -, table, heap, -⟩ := allocate_spec (c.pm.heap p) [] cut.allocated
    obtain ⟨split, pieces⟩ := cut.spec (r := r) (a := dropped) (b := (c.fitToPath p).1) rfl rfl
      (congrFun cargo p) rfl (by rw [only]) (by rw [only]) (by rw [only]) kept
    obtain ⟨⟨last, probed⟩, same, grown⟩ := foldl_resendProbe_spec (r := r) now rfl room split
    refine ⟨_, ⟨last, moves.trans (pieces.trans probed)⟩, fun whole => ?_, fun q inside other => ?_⟩
    · have := cut.one_lt_length
      rw [whole] at this
      exact absurd this (Nat.lt_irrefl 1)
    · have there : q ∈ (c.fitToPath p).1.pm.outstanding := by
        rw [PacketManager.outstanding, table]
        exact others q inside other
      refine ⟨grown there, ?_⟩
      have before : dropped.pm.cargo q = c.pm.cargo q := congrFun cargo q
      rw [← before]
      show (ptoProbe now c p).pm.cargo q = _
      rw [ptoProbe, same]
      exact congrArg SentPacket.toCargo (heap q
        (kept.allocated q (List.mem_append_left _ (others q inside other))))

theorem mtu_resendProbe (p : Ptr) : (resendProbe now c p).mtu = c.mtu := by
  unfold resendProbe
  split <;> rfl

theorem mtu_foldl_resendProbe (ps : List Ptr) : (ps.foldl (resendProbe now) c).mtu = c.mtu := by
  induction ps generalizing c with
  | nil => rfl
  | cons p rest ih => exact ih.trans (mtu_resendProbe now p)

theorem foldl_ptoProbe_spec {ps : List Ptr} (apart : ps.Nodup)
    (tracked : ∀ p ∈ ps, p ∈ c.pm.outstanding ∧ (c.pm.heap p).probe = false)
    (room : (ps.foldl (ptoProbe now) c).pm.nextSeq ≤ 2 ^ 32) (custody : c.Custody g) :
    let after := ps.foldl (ptoProbe now) c
    ∃ debt, (after.Custody { g with debt := debt } ∧
        Moves r (c.flight g) (after.flight { g with debt := debt })) ∧
      ((∀ p ∈ ps, c.fitToPath p = (c, [p])) → debt = g.debt) := by
  induction ps generalizing c g with
  | nil => exact ⟨g.debt, ⟨custody, .refl⟩, fun _ => rfl⟩
  | cons p rest ih =>
    have later : Sends [] (ptoProbe now c p) (rest.foldl (ptoProbe now) (ptoProbe now c p)) :=
      .foldl (fun _ q => sends_ptoProbe now q) rest
    obtain ⟨here, data⟩ := tracked p List.mem_cons_self
    obtain ⟨first, ⟨kept, moves⟩, whole, others⟩ :=
      ptoProbe_spec (r := r) now here data (Nat.le_trans later.next room) custody
    have different : ∀ q ∈ rest, q ≠ p := fun q member =>
      ne_of_mem_of_not_mem member (List.nodup_cons.mp apart).1
    have still : ∀ q ∈ rest, q ∈ (ptoProbe now c p).pm.outstanding ∧
        ((ptoProbe now c p).pm.heap q).probe = false := by
      intro q member
      obtain ⟨there, plain⟩ := tracked q (List.mem_cons_of_mem p member)
      obtain ⟨there, cargo⟩ := others q there (different q member)
      exact ⟨there, (congrArg Cargo.probe cargo).trans plain⟩
    obtain ⟨last, ⟨kept, after⟩, wholes⟩ := ih (List.nodup_cons.mp apart).2 still room kept
    refine ⟨last, ⟨kept, moves.trans after⟩, fun fit => ?_⟩
    refine (wholes fun q member => ?_).trans (whole (fit p List.mem_cons_self))
    have cargo := (others q (tracked q (List.mem_cons_of_mem p member)).1 (different q member)).2
    refine fitToPath_congr (sends_ptoProbe now p).endpoint ?_ cargo
      (fit q (List.mem_cons_of_mem p member))
    exact (mtu_foldl_resendProbe now _).trans (mtu_fitToPath p)

theorem tracked_of_oldestUnacked (pm : PacketManager) (n : Nat) :
    ∀ p ∈ pm.oldestUnacked n, p ∈ pm.outstanding ∧ (pm.heap p).probe = false := by
  intro p member
  have member := List.mem_of_mem_take member
  rw [PacketManager.sortBySequence, List.mem_insertionSort, List.mem_filter] at member
  exact ⟨member.1, by simpa using member.2⟩

theorem nodup_oldestUnacked {pm : PacketManager} (apart : pm.outstanding.Nodup) (n : Nat) :
    (pm.oldestUnacked n).Nodup := by
  refine (List.take_sublist n _).nodup ?_
  exact (List.perm_insertionSort _ _).nodup_iff.mpr (apart.filter _)

/-- No packet of the next probe timeout has to be cut. -/
def ptoFits (c : Connection F) : Bool :=
  let c := { c with cc := c.cc.ptoFired }.blackholed now
  (c.pm.oldestUnacked ptoProbes).all fun p => (c.fitToPath p).2.length = 1

theorem sends_onPTO : Sends [] c (c.onPTO now) :=
  (sends_blackholed now).trans (.foldl (fun _ p => sends_ptoProbe now p) _)

theorem sends_onPtoTimeout : Sends [] c (c.onPtoTimeout now) := by
  have fired : Sends [] c { c with cc := c.cc.ptoFired } := .quiet rfl rfl rfl rfl rfl rfl rfl
  have rearmed (d : Connection F) : Sends [] d { d with cc := d.cc.ptoRearm now } :=
    .quiet rfl rfl rfl rfl (CongestionController.inRecovery_ptoRearm _ now)
      (CongestionController.recoveryEndSeq_ptoRearm _ now) rfl
  exact fired.trans ((sends_onPTO now).trans (rearmed _))

/-- A probe timeout leaves the booking as it was if no packet is cut. -/
theorem onPtoTimeout_spec (room : (c.onPtoTimeout now).pm.nextSeq ≤ 2 ^ 32)
    (custody : c.Custody g) :
    let after := c.onPtoTimeout now
    ∃ debt, (after.Custody { g with debt := debt } ∧
        Moves r (c.flight g) (after.flight { g with debt := debt })) ∧
      (c.ptoFits now = true → debt = g.debt) := by
  intro after
  let fired : Connection F := { c with cc := c.cc.ptoFired }
  have start : Simulated r c g (fired.blackholed now) g :=
    Simulated.trans (b := fired) (.aside rfl rfl rfl rfl) (sends_blackholed now).next
      (simulated_blackholed now)
  have probes : Sends [] (fired.blackholed now) (fired.onPTO now) :=
    .foldl (fun _ p => sends_ptoProbe now p) _
  obtain ⟨kept, before⟩ := start (Nat.le_trans probes.next room) custody
  obtain ⟨debt, ⟨kept, moves⟩, whole⟩ := foldl_ptoProbe_spec (r := r) now
    (nodup_oldestUnacked (List.Nodup.of_append_left kept.apart) ptoProbes)
    (tracked_of_oldestUnacked _ _) room kept
  have rearm (d : Connection F) : Simulated r d { g with debt := debt }
      { d with cc := d.cc.ptoRearm now } { g with debt := debt } :=
    .aside rfl rfl rfl (CongestionController.inflight_ptoRearm _ now)
  obtain ⟨kept, rearmed⟩ := rearm (fired.onPTO now) room kept
  refine ⟨debt, ⟨kept, before.trans (moves.trans rearmed)⟩, fun fits => whole fun p member => ?_⟩
  rcases (fired.blackholed now).fitToPath_cases p with same | ⟨sf, limit, cut⟩
  · exact same
  · have one := List.all_eq_true.mp fits p member
    have several := cut.one_lt_length
    rw [of_decide_eq_true one] at several
    exact absurd several (Nat.lt_irrefl 1)

end Pto

end Connection

end Udx
