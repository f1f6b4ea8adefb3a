import Udx.Flight
import Udx.Lib.Tables

set_option autoImplicit false

namespace Udx

/- Who has which packet. The manager's table and the packets held outside it,
in the lost queue or in the hand of a running step, share no packet, and every
tracked packet knows the number it is tracked under. -/

namespace PacketManager

variable (pm : PacketManager) (held : List Ptr)

def cargo (p : Ptr) : Cargo := (pm.heap p).toCargo

def tracked : List (UInt32 × Cargo) := pm.sentPackets.entries.map fun e => (e.1, pm.cargo e.2)

def outstanding : List Ptr := pm.sentPackets.entries.map Sigma.snd

def pointers : List Ptr := pm.outstanding ++ held

structure Custody : Prop where
  keyed : ∀ e ∈ pm.sentPackets.entries, (pm.heap e.2).sequence = e.1
  numbered : ∀ e ∈ pm.sentPackets.entries, e.1.toNat < pm.nextSeq
  apart : (pm.pointers held).Nodup
  allocated : ∀ p ∈ pm.pointers held, p < pm.nextPtr
  unacked : ∀ p ∈ pm.pointers held, (pm.heap p).isAcked = false
  data : ∀ p ∈ held, (pm.heap p).probe = false

variable {pm held}

theorem mem_pointers_of_mem {e : (_ : UInt32) × Ptr} (member : e ∈ pm.sentPackets.entries) :
    e.2 ∈ pm.pointers held :=
  List.mem_append_left _ (List.mem_map_of_mem member)

theorem mem_pointers_of_held {p : Ptr} (member : p ∈ held) : p ∈ pm.pointers held :=
  List.mem_append_right _ member

theorem tracked_congr (held : List Ptr) {pm' : PacketManager}
    (table : pm'.sentPackets = pm.sentPackets)
    (heap : ∀ p ∈ pm.pointers held, pm'.cargo p = pm.cargo p) : pm'.tracked = pm.tracked := by
  rw [tracked, tracked, table]
  refine List.map_congr_left fun e member => ?_
  rw [heap _ (mem_pointers_of_mem member)]

/-- The packet under a fresh number, as `resend` leaves it. -/
def renumber (pm : PacketManager) (now : Time) (p : Ptr) : PacketManager :=
  let newSeq := UInt32.ofNat pm.nextSeq
  let pm := pm.modify p fun pkt =>
    { pkt with
      sequence := newSeq, retransmitCount := pkt.retransmitCount + 1, sentTime := now
      firstSentTime := pkt.firstSentTime <|> some now }
  { pm with
    nextSeq := pm.nextSeq + 1
    lastSentSeq := newSeq.toNat
    sentPackets := pm.sentPackets.insert newSeq p }

section Renumber

variable (pm) (now : Time) (p q : Ptr)

theorem resend_eq :
    pm.resend now p =
      if (pm.heap p).isAcked ∨ (pm.heap p).probe then (pm, none)
      else ((pm.drop p).renumber now p, some (UInt32.ofNat (pm.drop p).nextSeq)) := rfl

theorem nextSeq_drop : (pm.drop p).nextSeq = pm.nextSeq := by
  unfold drop
  split <;> rfl

theorem renumber_nextSeq : (pm.renumber now p).nextSeq = pm.nextSeq + 1 := rfl

theorem renumber_sentPackets :
    (pm.renumber now p).sentPackets = pm.sentPackets.insert (UInt32.ofNat pm.nextSeq) p := rfl

theorem renumber_heap_of_ne {q : Ptr} (other : q ≠ p) :
    (pm.renumber now p).heap q = pm.heap q :=
  Function.update_of_ne other _ _

theorem renumber_sequence : ((pm.renumber now p).heap p).sequence = UInt32.ofNat pm.nextSeq := by
  simp [renumber, modify]

theorem renumber_isAcked : ((pm.renumber now p).heap q).isAcked = (pm.heap q).isAcked := by
  by_cases same : q = p <;> simp [renumber, modify, same]

theorem renumber_cargo : (pm.renumber now p).cargo q = pm.cargo q := by
  by_cases same : q = p <;> simp [renumber, modify, cargo, same]

theorem cargo_drop : (pm.drop p).cargo = pm.cargo := by
  unfold drop
  split <;> rfl

theorem cargo_resend : (pm.resend now p).1.cargo = pm.cargo := by
  rw [resend_eq]
  split
  · rfl
  · funext q
    rw [renumber_cargo, cargo_drop]

end Renumber

theorem cargo_new (pm : PacketManager) (pkt : SentPacket) :
    (pm.new pkt).1.cargo pm.nextPtr = pkt.toCargo :=
  congrArg SentPacket.toCargo (Function.update_self ..)

theorem cargo_new_cases (pm : PacketManager) (pkt : SentPacket) (p : Ptr) :
    (pm.new pkt).1.cargo p = pkt.toCargo ∨ (pm.new pkt).1.cargo p = pm.cargo p := by
  by_cases same : p = pm.nextPtr
  · exact .inl (same ▸ pm.cargo_new pkt)
  · exact .inr (congrArg SentPacket.toCargo (Function.update_of_ne same _ _))

theorem lastSentSeq_track (pm : PacketManager) (now : Time) (pkt : SentPacket) :
    (({ pm with nextSeq := pm.nextSeq + 1 }.new pkt).1.sendPacket now pm.nextPtr).lastSentSeq =
      (pkt.sequence.toNat : Int) := by
  simp [PacketManager.new, PacketManager.sendPacket, modify]

theorem cargo_sendPacket (pm : PacketManager) (now : Time) (p : Ptr) :
    (pm.sendPacket now p).cargo = pm.cargo := by
  funext q
  by_cases same : q = p <;> simp [sendPacket, modify, cargo, same]

theorem custody_new : Custody {} [] := by
  refine ⟨?_, ?_, ?_, ?_, ?_, ?_⟩ <;> simp [pointers, outstanding]

namespace Custody

variable (custody : pm.Custody held)
include custody

theorem perm {held' : List Ptr} (same : held.Perm held') : pm.Custody held' := by
  have pointers : (pm.pointers held).Perm (pm.pointers held') := same.append_left _
  exact {
    keyed := custody.keyed
    numbered := custody.numbered
    apart := pointers.nodup_iff.mp custody.apart
    allocated := fun p member => custody.allocated p (pointers.mem_iff.mpr member)
    unacked := fun p member => custody.unacked p (pointers.mem_iff.mpr member)
    data := fun p member => custody.data p (same.mem_iff.mpr member) }

theorem release {fewer : List Ptr} (sub : fewer.Sublist held) : pm.Custody fewer := by
  have pointers : (pm.pointers fewer).Sublist (pm.pointers held) := sub.append_left _
  exact {
    keyed := custody.keyed
    numbered := custody.numbered
    apart := pointers.nodup custody.apart
    allocated := fun p member => custody.allocated p (pointers.mem member)
    unacked := fun p member => custody.unacked p (pointers.mem member)
    data := fun p member => custody.data p (sub.mem member) }

theorem congr {pm' : PacketManager} (table : pm'.sentPackets = pm.sentPackets)
    (heap : ∀ p ∈ pm.pointers held, pm'.heap p = pm.heap p)
    (next : pm.nextSeq ≤ pm'.nextSeq) (ptr : pm.nextPtr ≤ pm'.nextPtr) : pm'.Custody held := by
  have pointers : pm'.pointers held = pm.pointers held := by
    rw [pointers, pointers, outstanding, outstanding, table]
  refine ⟨?_, ?_, pointers ▸ custody.apart, ?_, ?_, ?_⟩
  · intro e member
    rw [table] at member
    rw [heap _ (mem_pointers_of_mem member)]
    exact custody.keyed e member
  · intro e member
    rw [table] at member
    exact Nat.lt_of_lt_of_le (custody.numbered e member) next
  · intro p member
    exact Nat.lt_of_lt_of_le (custody.allocated p (pointers ▸ member)) ptr
  · intro p member
    rw [pointers] at member
    rw [heap p member]
    exact custody.unacked p member
  · intro p member
    rw [heap p (mem_pointers_of_held member)]
    exact custody.data p member

theorem not_mem {n : UInt32} (fresh : pm.nextSeq ≤ n.toNat) : n ∉ pm.sentPackets := by
  intro present
  obtain ⟨p, found⟩ := AList.lookup_isSome.mpr present |> Option.isSome_iff_exists.mp
  have := custody.numbered ⟨n, p⟩ (Tables.mem_entries_iff.mpr found)
  dsimp only at this
  omega

theorem new_notMem : pm.nextPtr ∉ pm.pointers held := fun member =>
  Nat.lt_irrefl _ (custody.allocated _ member)

/-- A packet that nobody has enters the table under the next number. -/
theorem insert {pm' : PacketManager} {p : Ptr} {n : UInt32} (absent : p ∉ pm.pointers held)
    (key : n.toNat = pm.nextSeq) (next : pm'.nextSeq = pm.nextSeq + 1)
    (table : pm'.sentPackets = pm.sentPackets.insert n p) (inside : p < pm'.nextPtr)
    (ptr : pm.nextPtr ≤ pm'.nextPtr) (others : ∀ q, q ≠ p → pm'.heap q = pm.heap q)
    (sequence : (pm'.heap p).sequence = n) (unacked : (pm'.heap p).isAcked = false) :
    pm'.Custody held ∧ pm'.tracked = (n, pm'.cargo p) :: pm.tracked ∧
      pm'.outstanding = p :: pm.outstanding := by
  have entries : pm'.sentPackets.entries = ⟨n, p⟩ :: pm.sentPackets.entries := by
    rw [table]
    exact AList.entries_insert_of_notMem (custody.not_mem key.ge)
  have outstanding : pm'.outstanding = p :: pm.outstanding := by
    simp only [outstanding, entries, List.map_cons]
  have pointers : pm'.pointers held = p :: pm.pointers held := by
    simp only [pointers, outstanding, List.cons_append]
  have heap : ∀ q ∈ pm.pointers held, pm'.heap q = pm.heap q := fun q member =>
    others q fun same => absent (same ▸ member)
  refine ⟨⟨?_, ?_, ?_, ?_, ?_, ?_⟩, ?_, outstanding⟩
  · intro e member
    rw [entries] at member
    rcases List.mem_cons.mp member with rfl | member
    · exact sequence
    · rw [heap _ (mem_pointers_of_mem member)]
      exact custody.keyed e member
  · intro e member
    rw [entries] at member
    rw [next]
    rcases List.mem_cons.mp member with rfl | member
    · exact Nat.lt_succ_of_le key.le
    · exact Nat.lt_succ_of_lt (custody.numbered e member)
  · rw [pointers]
    exact custody.apart.cons absent
  · intro q member
    rw [pointers] at member
    rcases List.mem_cons.mp member with rfl | member
    · exact inside
    · exact Nat.lt_of_lt_of_le (custody.allocated q member) ptr
  · intro q member
    rw [pointers] at member
    rcases List.mem_cons.mp member with rfl | member
    · exact unacked
    · rw [heap q member]
      exact custody.unacked q member
  · intro q member
    rw [heap q (mem_pointers_of_held member)]
    exact custody.data q member
  · rw [tracked, entries, List.map_cons, tracked]
    congr 1
    refine List.map_congr_left fun e member => ?_
    rw [cargo, cargo, heap _ (mem_pointers_of_mem member)]

theorem tracks {e : (_ : UInt32) × Ptr} (member : e ∈ pm.sentPackets.entries) :
    pm.tracks e.2 = true := by
  rw [PacketManager.tracks, custody.keyed e member, Tables.lookup_of_mem e member]
  exact decide_eq_true rfl

theorem not_tracks {p : Ptr} (member : p ∈ held) : pm.tracks p = false := by
  rw [PacketManager.tracks, decide_eq_false_iff_not]
  intro found
  have tabled : p ∈ pm.sentPackets.entries.map Sigma.snd :=
    List.mem_map.mpr ⟨⟨_, p⟩, Tables.mem_entries_iff.mpr found, rfl⟩
  exact List.disjoint_of_nodup_append custody.apart tabled member

theorem head_notMem {p : Ptr} {rest : List Ptr} (held_eq : held = p :: rest) :
    p ∉ pm.pointers rest := by
  have apart := custody.apart
  rw [held_eq, pointers, List.perm_middle.nodup_iff] at apart
  exact (List.nodup_cons.mp apart).1

theorem erase (pm' : PacketManager) {n : UInt32} {p : Ptr}
    (found : pm.sentPackets.lookup n = some p)
    (table : pm'.sentPackets = pm.sentPackets.erase n) (next : pm'.nextSeq = pm.nextSeq)
    (ptr : pm'.nextPtr = pm.nextPtr) (others : ∀ q, q ≠ p → pm'.heap q = pm.heap q) :
    pm'.Custody held ∧ p ∉ pm'.pointers held ∧
      pm.tracked.Perm ((n, pm.cargo p) :: pm'.tracked) ∧
      pm.outstanding.Perm (p :: pm'.outstanding) := by
  have entries : pm.sentPackets.entries.Perm (⟨n, p⟩ :: pm'.sentPackets.entries) :=
    table ▸ Tables.perm_erase found
  have outstanding : pm.outstanding.Perm (p :: pm'.outstanding) := by
    simpa only [PacketManager.outstanding, List.map_cons] using entries.map Sigma.snd
  have pointers : (pm.pointers held).Perm (p :: pm'.pointers held) := by
    simpa only [PacketManager.pointers, List.cons_append] using outstanding.append_right held
  have apart := pointers.nodup_iff.mp custody.apart
  have absent := (List.nodup_cons.mp apart).1
  have inside : ∀ q ∈ pm'.pointers held, q ∈ pm.pointers held := fun q member =>
    pointers.mem_iff.mpr (List.mem_cons_of_mem p member)
  have heap : ∀ q ∈ pm'.pointers held, pm'.heap q = pm.heap q := fun q member =>
    others q fun same => absent (same ▸ member)
  refine ⟨⟨?_, ?_, (List.nodup_cons.mp apart).2, ?_, ?_, ?_⟩, absent, ?_, outstanding⟩
  · intro e member
    rw [heap _ (mem_pointers_of_mem member)]
    exact custody.keyed e (entries.mem_iff.mpr (List.mem_cons_of_mem _ member))
  · intro e member
    rw [next]
    exact custody.numbered e (entries.mem_iff.mpr (List.mem_cons_of_mem _ member))
  · intro q member
    rw [ptr]
    exact custody.allocated q (inside q member)
  · intro q member
    rw [heap q member]
    exact custody.unacked q (inside q member)
  · intro q member
    rw [heap q (mem_pointers_of_held member)]
    exact custody.data q member
  · refine (entries.map fun e => (e.1, pm.cargo e.2)).trans ?_
    rw [List.map_cons, tracked]
    refine .cons _ (.of_eq (List.map_congr_left fun e member => ?_))
    rw [PacketManager.cargo, PacketManager.cargo, heap _ (mem_pointers_of_mem member)]

theorem pickUp {p : Ptr} (absent : p ∉ pm.pointers held) (inside : p < pm.nextPtr)
    (unacked : (pm.heap p).isAcked = false) (data : (pm.heap p).probe = false) :
    pm.Custody (p :: held) := by
  have pointers : (p :: pm.pointers held).Perm (pm.pointers (p :: held)) := List.perm_middle.symm
  refine ⟨custody.keyed, custody.numbered, ?_, ?_, ?_, ?_⟩
  · exact pointers.nodup_iff.mp (custody.apart.cons absent)
  · intro q member
    rcases List.mem_cons.mp (pointers.mem_iff.mpr member) with rfl | member
    · exact inside
    · exact custody.allocated q member
  · intro q member
    rcases List.mem_cons.mp (pointers.mem_iff.mpr member) with rfl | member
    · exact unacked
    · exact custody.unacked q member
  · intro q member
    rcases List.mem_cons.mp member with rfl | member
    · exact data
    · exact custody.data q member

theorem forget {p : Ptr} (tracks : pm.tracks p = true) :
    (pm.forget p).Custody held ∧ p ∉ (pm.forget p).pointers held ∧
      pm.tracked.Perm (((pm.heap p).sequence, pm.cargo p) :: (pm.forget p).tracked) ∧
      pm.outstanding.Perm (p :: (pm.forget p).outstanding) :=
  custody.erase _ (of_decide_eq_true tracks) rfl rfl rfl fun _ _ => rfl

theorem drop {p : Ptr} (tracks : pm.tracks p = true) (data : (pm.heap p).probe = false) :
    (pm.drop p).Custody (p :: held) ∧
      pm.tracked.Perm (((pm.heap p).sequence, pm.cargo p) :: (pm.drop p).tracked) ∧
      pm.outstanding.Perm (p :: (pm.drop p).outstanding) := by
  obtain ⟨kept, absent, tracked, outstanding⟩ := custody.forget tracks
  have member : p ∈ pm.pointers held :=
    mem_pointers_of_mem (Tables.mem_entries_iff.mpr (of_decide_eq_true tracks))
  rw [PacketManager.drop, if_pos tracks]
  exact ⟨kept.pickUp absent (custody.allocated p member) (custody.unacked p member) data,
    tracked, outstanding⟩

/-- A packet of the hand goes out again under the next number. -/
theorem renumber (now : Time) {p : Ptr} {rest : List Ptr} (held_eq : held = p :: rest)
    (room : pm.nextSeq < 2 ^ 32) :
    (pm.renumber now p).Custody rest ∧
      (pm.renumber now p).tracked = (UInt32.ofNat pm.nextSeq, pm.cargo p) :: pm.tracked ∧
      (pm.renumber now p).outstanding = p :: pm.outstanding := by
  have member : p ∈ pm.pointers held := mem_pointers_of_held (held_eq ▸ List.mem_cons_self)
  have released := custody.release (held_eq ▸ List.sublist_cons_self p rest)
  obtain ⟨kept, tracked, outstanding⟩ := released.insert (custody.head_notMem held_eq)
    (UInt32.toNat_ofNat_of_lt' room) (renumber_nextSeq pm now p) (renumber_sentPackets pm now p)
    (custody.allocated p member) (Nat.le_refl _)
    (fun q other => renumber_heap_of_ne pm now p other) (renumber_sequence pm now p)
    ((renumber_isAcked pm now p p).trans (custody.unacked p member))
  exact ⟨kept, by rw [tracked, renumber_cargo], outstanding⟩

theorem drop_held {p : Ptr} (member : p ∈ held) : pm.drop p = pm := by
  rw [PacketManager.drop, custody.not_tracks member]
  rfl

theorem resend_held (now : Time) {p : Ptr} (member : p ∈ held) :
    pm.resend now p = (pm.renumber now p, some (UInt32.ofNat pm.nextSeq)) := by
  rw [resend_eq, custody.drop_held member, if_neg (by
    simp [custody.unacked p (mem_pointers_of_held member), custody.data p member])]

theorem new (pkt : SentPacket) (unacked : pkt.isAcked = false) (data : pkt.probe = false) :
    (pm.new pkt).1.Custody ((pm.new pkt).2 :: held) := by
  have absent := custody.new_notMem
  have heap : ∀ p ∈ pm.pointers held, (pm.new pkt).1.heap p = pm.heap p := fun p member =>
    Function.update_of_ne (ne_of_mem_of_not_mem member absent) _ _
  have kept : (pm.new pkt).1.Custody held :=
    custody.congr rfl heap (Nat.le_refl _) (Nat.le_succ _)
  have self : (pm.new pkt).1.heap pm.nextPtr = pkt := Function.update_self ..
  exact kept.pickUp absent (Nat.lt_succ_self _)
    ((congrArg SentPacket.isAcked self).trans unacked)
    ((congrArg (fun pkt : SentPacket => pkt.probe) self).trans data)

theorem sendPacket_new (now : Time) (pkt : SentPacket) (room : pm.nextSeq < 2 ^ 32)
    (sequence : pkt.sequence = UInt32.ofNat pm.nextSeq) (unacked : pkt.isAcked = false)
    (pm' : PacketManager)
    (sent : pm' = ({ pm with nextSeq := pm.nextSeq + 1 }.new pkt).1.sendPacket now pm.nextPtr) :
    pm'.Custody held ∧ pm'.tracked = (UInt32.ofNat pm.nextSeq, pkt.toCargo) :: pm.tracked ∧
      held.map pm'.cargo = held.map pm.cargo := by
  have others : ∀ q, q ≠ pm.nextPtr → pm'.heap q = pm.heap q := fun q other => by
    rw [sent]
    simp [PacketManager.sendPacket, PacketManager.new, modify, other]
  have self : pm'.heap pm.nextPtr =
      { pkt with sentTime := now, firstSentTime := pkt.firstSentTime <|> some now } := by
    rw [sent]
    simp [PacketManager.sendPacket, PacketManager.new, modify]
  have table : pm'.sentPackets = pm.sentPackets.insert (UInt32.ofNat pm.nextSeq) pm.nextPtr := by
    rw [sent]
    simp [PacketManager.sendPacket, PacketManager.new, modify, sequence]
  obtain ⟨kept, tracked, -⟩ := custody.insert custody.new_notMem
    (UInt32.toNat_ofNat_of_lt' room) (by rw [sent]; rfl) table
    (by rw [sent]; exact Nat.lt_succ_self _) (by rw [sent]; exact Nat.le_succ _)
    others (by rw [self]; exact sequence) (by rw [self]; exact unacked)
  refine ⟨kept, by rw [tracked, cargo, self], List.map_congr_left fun q member => ?_⟩
  rw [cargo, cargo, others q
    (ne_of_mem_of_not_mem (mem_pointers_of_held member) custody.new_notMem)]

end Custody

theorem Custody.take {acc : PacketManager × List Ptr} (custody : acc.1.Custody held)
    (seq : UInt32) :
    (PacketManager.take acc seq).1.Custody held ∧
      ∃ gone : List Ptr, (PacketManager.take acc seq).2 = acc.2 ++ gone ∧
        acc.1.tracked.Perm (gone.map (fun p => (seq, acc.1.cargo p)) ++
          (PacketManager.take acc seq).1.tracked) := by
  unfold PacketManager.take
  split
  · exact ⟨custody, [], by simp, by simp⟩
  · rename_i p found
    obtain ⟨kept, -, tracked, -⟩ := custody.erase { acc.1.modify p fun pkt =>
      { pkt with isAcked := true } with sentPackets := acc.1.sentPackets.erase seq }
      found rfl rfl rfl fun q other => Function.update_of_ne other _ _
    exact ⟨kept, [p], rfl, tracked⟩

theorem cargo_take (acc : PacketManager × List Ptr) (seq : UInt32) :
    (PacketManager.take acc seq).1.cargo = acc.1.cargo := by
  funext q
  unfold PacketManager.take
  split
  · rfl
  · rename_i p _
    by_cases same : q = p <;> simp [modify, cargo, same]

theorem cargo_foldl_take (seqs : List UInt32) (acc : PacketManager × List Ptr) :
    (seqs.foldl PacketManager.take acc).1.cargo = acc.1.cargo := by
  induction seqs generalizing acc with
  | nil => rfl
  | cons seq rest ih => exact (ih _).trans (cargo_take acc seq)

theorem cargo_handleAckFrame (pm : PacketManager) (now : Time) (frame : AckFrame) :
    (pm.handleAckFrame now frame).1.cargo = pm.cargo := by
  funext p
  rw [cargo, handleAckFrame_heap]
  exact congrFun (cargo_foldl_take frame.sequences (pm, [])) p

theorem sequence_foldl_take (seqs : List UInt32) (acc : PacketManager × List Ptr) (q : Ptr) :
    ((seqs.foldl PacketManager.take acc).1.heap q).sequence = (acc.1.heap q).sequence := by
  induction seqs generalizing acc with
  | nil => rfl
  | cons seq rest ih =>
    refine (ih _).trans ?_
    unfold PacketManager.take
    split
    · rfl
    · rename_i p _
      by_cases same : q = p <;> simp [modify, same]

/-- A packet newly acknowledged was tracked under its number, which the ACK names. -/
theorem Custody.named_of_acked {pm : PacketManager} (custody : pm.Custody held) {now : Time}
    {frame : AckFrame} {p : Ptr} (acked : p ∈ (pm.handleAckFrame now frame).2) :
    ((pm.handleAckFrame now frame).1.heap p).sequence ∈ frame.sequences ∧
      pm.sentPackets.lookup ((pm.handleAckFrame now frame).1.heap p).sequence = some p := by
  rw [handleAckFrame_acked, mem_foldl_take] at acked
  rcases acked with none | ⟨seq, named, found⟩
  · cases none
  · have number : (pm.heap p).sequence = seq :=
      custody.keyed ⟨seq, p⟩ (AList.mem_lookup_iff.mp found)
    rw [handleAckFrame_heap, sequence_foldl_take, number]
    exact ⟨named, found⟩

/-- An ACK leaves nothing tracked that it names. -/
theorem not_named_of_tracked {pm : PacketManager} {now : Time} {frame : AckFrame}
    {entry : UInt32 × Cargo} (member : entry ∈ (pm.handleAckFrame now frame).1.tracked) :
    entry.1 ∉ frame.sequences := by
  obtain ⟨e, listed, rfl⟩ := List.mem_map.mp member
  intro named
  have found := AList.mem_lookup_iff.mpr listed
  rw [handleAckFrame_sentPackets, lookup_foldl_take, if_pos named] at found
  cases found

theorem Custody.foldl_take (acc : PacketManager × List Ptr) (custody : acc.1.Custody held)
    (seqs : List UInt32) :
    (seqs.foldl PacketManager.take acc).1.Custody held ∧
      ∃ gone : List (UInt32 × Ptr), (seqs.foldl PacketManager.take acc).2 =
          acc.2 ++ gone.map Prod.snd ∧ (∀ e ∈ gone, e.1 ∈ seqs) ∧
        acc.1.tracked.Perm (gone.map (fun e => (e.1, acc.1.cargo e.2)) ++
          (seqs.foldl PacketManager.take acc).1.tracked) := by
  induction seqs generalizing acc with
  | nil => exact ⟨custody, [], by simp, by simp, by simp⟩
  | cons seq rest ih =>
    obtain ⟨kept, first, taken, tracked⟩ := custody.take seq
    obtain ⟨kept, later, takenLater, named, trackedLater⟩ := ih _ kept
    rw [cargo_take] at trackedLater
    refine ⟨kept, first.map (fun p => (seq, p)) ++ later, ?_, ?_, ?_⟩
    · rw [List.foldl_cons, takenLater, taken]
      simp [Function.comp_def]
    · intro e member
      rcases List.mem_append.mp member with now | after
      · obtain ⟨p, -, rfl⟩ := List.mem_map.mp now
        exact List.mem_cons_self
      · exact List.mem_cons_of_mem _ (named e after)
    · rw [List.foldl_cons, List.map_append, List.append_assoc, List.map_map]
      exact tracked.trans (trackedLater.append_left _)

theorem nextSeq_foldl_take (seqs : List UInt32) (acc : PacketManager × List Ptr) :
    (seqs.foldl PacketManager.take acc).1.nextSeq = acc.1.nextSeq ∧
      (seqs.foldl PacketManager.take acc).1.nextPtr = acc.1.nextPtr := by
  induction seqs generalizing acc with
  | nil => exact ⟨rfl, rfl⟩
  | cons seq rest ih =>
    have one : (PacketManager.take acc seq).1.nextSeq = acc.1.nextSeq ∧
        (PacketManager.take acc seq).1.nextPtr = acc.1.nextPtr := by
      unfold PacketManager.take
      split <;> exact ⟨rfl, rfl⟩
    exact ⟨(ih _).1.trans one.1, (ih _).2.trans one.2⟩

theorem nextSeq_handleAckFrame (pm : PacketManager) (now : Time) (frame : AckFrame) :
    (pm.handleAckFrame now frame).1.nextSeq = pm.nextSeq ∧
      (pm.handleAckFrame now frame).1.nextPtr = pm.nextPtr := by
  have taken := nextSeq_foldl_take frame.sequences (pm, [])
  unfold handleAckFrame
  dsimp only
  split <;> exact taken

theorem Custody.handleAckFrame {pm : PacketManager} (custody : pm.Custody held) (now : Time)
    (frame : AckFrame) :
    (pm.handleAckFrame now frame).1.Custody held ∧
      ∃ gone : List (UInt32 × Ptr), (pm.handleAckFrame now frame).2 = gone.map Prod.snd ∧
        (∀ e ∈ gone, e.1 ∈ frame.sequences) ∧
        pm.tracked.Perm (gone.map (fun e => (e.1, pm.cargo e.2)) ++
          (pm.handleAckFrame now frame).1.tracked) := by
  obtain ⟨kept, gone, taken, named, tracked⟩ :=
    Custody.foldl_take (pm, []) custody frame.sequences
  have table := pm.handleAckFrame_sentPackets now frame
  have heap := pm.handleAckFrame_heap now frame
  have same : (pm.handleAckFrame now frame).1.cargo =
      (frame.sequences.foldl PacketManager.take (pm, [])).1.cargo :=
    (cargo_handleAckFrame pm now frame).trans (cargo_foldl_take frame.sequences (pm, [])).symm
  have next := nextSeq_handleAckFrame pm now frame
  have before := nextSeq_foldl_take frame.sequences (pm, [])
  refine ⟨?_, gone, ?_, named, ?_⟩
  · exact kept.congr table (fun p _ => congrFun heap p) (before.1.trans next.1.symm).le
      (before.2.trans next.2.symm).le
  · rw [handleAckFrame_acked, taken]
    rfl
  · rw [tracked_congr held table fun p _ => congrFun same p]
    exact tracked

theorem Custody.forgets {pm : PacketManager} (custody : pm.Custody held) {ps : List Ptr}
    (apart : ps.Nodup) (tracks : ∀ p ∈ ps, pm.tracks p = true) :
    (ps.foldl PacketManager.forget pm).Custody (ps.filter (fun p => !(pm.heap p).probe) ++ held) ∧
      pm.tracked.Perm (ps.map (fun p => ((pm.heap p).sequence, pm.cargo p)) ++
        (ps.foldl PacketManager.forget pm).tracked) ∧
      (ps.foldl PacketManager.forget pm).nextSeq = pm.nextSeq ∧
        (ps.foldl PacketManager.forget pm).heap = pm.heap := by
  induction ps generalizing pm held with
  | nil => exact ⟨custody, .refl _, rfl, rfl⟩
  | cons p rest ih =>
    have here := tracks p List.mem_cons_self
    have member : p ∈ pm.pointers held :=
      mem_pointers_of_mem (Tables.mem_entries_iff.mpr (of_decide_eq_true here))
    obtain ⟨kept, absent, tracked, -⟩ := custody.forget here
    have still : ∀ q ∈ rest, (pm.forget p).tracks q = true := by
      intro q later
      have other : (pm.heap q).sequence ≠ (pm.heap p).sequence := by
        intro same
        have found := of_decide_eq_true (tracks q (List.mem_cons_of_mem p later))
        rw [same, of_decide_eq_true here] at found
        exact (List.nodup_cons.mp apart).1 (Option.some.inj found ▸ later)
      have found := of_decide_eq_true (tracks q (List.mem_cons_of_mem p later))
      exact decide_eq_true ((AList.lookup_erase_ne other).trans found)
    have nodup := (List.nodup_cons.mp apart).2
    rw [List.foldl_cons, List.map_cons, List.cons_append]
    by_cases probe : (pm.heap p).probe = true
    · obtain ⟨done, later, next, heap⟩ := ih kept nodup still
      refine ⟨?_, tracked.trans (later.cons _), next, heap⟩
      rwa [List.filter_cons_of_neg (by simp [probe])]
    · have data : (pm.heap p).probe = false := by simpa using probe
      have held := kept.pickUp absent (custody.allocated p member) (custody.unacked p member) data
      obtain ⟨done, later, next, heap⟩ := ih held nodup still
      refine ⟨?_, tracked.trans (later.cons _), next, heap⟩
      rw [List.filter_cons_of_pos (by simp [data])]
      exact done.perm List.perm_middle

theorem foldl_lossScan (pm : PacketManager) (now : Time) (delay : Int)
    (entries : List ((_ : UInt32) × Ptr)) (acc : List Ptr × Option Time) :
    ∃ lost : List ((_ : UInt32) × Ptr), lost.Sublist entries ∧
      (entries.foldl (pm.lossScan now delay) acc).1 = acc.1 ++ lost.map Sigma.snd := by
  induction entries generalizing acc with
  | nil => exact ⟨[], .refl _, by simp⟩
  | cons e rest ih =>
    obtain ⟨lost, sub, scanned⟩ := ih (pm.lossScan now delay acc e)
    rw [List.foldl_cons, scanned]
    have one : (pm.lossScan now delay acc e).1 = acc.1 ∨
        (pm.lossScan now delay acc e).1 = acc.1 ++ [e.2] := by
      unfold lossScan
      dsimp only
      split
      · exact .inl rfl
      · split
        · exact .inr rfl
        · split <;> exact .inl rfl
    rcases one with same | grown
    · exact ⟨lost, sub.cons e, by rw [same]⟩
    · exact ⟨e :: lost, sub.cons_cons e, by rw [grown]; simp⟩

/-- Loss detection takes packets out of the table and hands them over; the
probes among them are let go. -/
theorem Custody.detectLostLocked {pm : PacketManager} (custody : pm.Custody held) (now : Time)
    (delay : Int) {pm' : PacketManager} {lost : List Ptr}
    (detected : pm.detectLostLocked now delay = (pm', lost)) :
    pm'.Custody (lost.filter (fun p => !(pm.heap p).probe) ++ held) ∧
      pm.tracked.Perm (lost.map (fun p => ((pm.heap p).sequence, pm.cargo p)) ++ pm'.tracked) ∧
      pm'.nextSeq = pm.nextSeq ∧ pm'.heap = pm.heap := by
  unfold PacketManager.detectLostLocked at detected
  split at detected
  · obtain ⟨rfl, rfl⟩ := Prod.mk.inj detected
    exact ⟨custody.congr rfl (fun _ _ => rfl) (Nat.le_refl _) (Nat.le_refl _), .refl _, rfl, rfl⟩
  · obtain ⟨entries, sub, scanned⟩ :=
      pm.foldl_lossScan now delay pm.sentPackets.entries ([], none)
    rw [List.nil_append] at scanned
    have apart : (entries.map Sigma.snd).Nodup :=
      (sub.map Sigma.snd).nodup (List.Nodup.of_append_left custody.apart)
    have tracks : ∀ p ∈ entries.map Sigma.snd, pm.tracks p = true := by
      intro p member
      obtain ⟨e, inside, rfl⟩ := List.mem_map.mp member
      exact custody.tracks (sub.mem inside)
    have untimed : { pm with lossTimer := none }.Custody held :=
      custody.congr rfl (fun _ _ => rfl) (Nat.le_refl _) (Nat.le_refl _)
    obtain ⟨kept, tracked, next, heap⟩ := untimed.forgets apart tracks
    rw [← scanned] at kept tracked next heap
    obtain ⟨rfl, rfl⟩ := Prod.mk.inj detected
    set ps := (pm.sentPackets.entries.foldl (pm.lossScan now delay) ([], none)).1
    have sorted : ((ps.foldl PacketManager.forget { pm with lossTimer := none }).sortBySequence ps).Perm ps :=
      List.perm_insertionSort _ _
    refine ⟨?_, tracked.trans ((sorted.map _).symm.append_right _), next, heap⟩
    exact (kept.perm ((sorted.filter _).symm.append_right held)).congr rfl (fun _ _ => rfl)
      (Nat.le_refl _) (Nat.le_refl _)

end PacketManager

end Udx
