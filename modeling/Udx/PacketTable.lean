import Udx.Custody
import Udx.Lib.Runs
import Udx.LossDetection

set_option autoImplicit false

namespace Udx

/- The packet manager under any interleaving of its calls. Each call runs under
the manager's lock; a sender draws a number and registers the packet under it in
two calls, and what loss detection returns is handed to the connection after the
lock is released. -/

structure Ledger.Transmission where
  number : UInt32
  packet : Ptr
  time : Time
deriving DecidableEq

/-- A packet manager with its callers and its history: the numbers drawn and not
yet used, every transmission, the losses on their way to the connection, and the
packets declared lost and handed over, with the numbers they were tracked
under. -/
structure Ledger where
  pm : PacketManager := {}
  drawn : List UInt32 := []
  sent : List Ledger.Transmission := []
  reports : List (List (Ptr × UInt32)) := []
  declared : List (Ptr × UInt32) := []
  handed : List (Ptr × UInt32) := []

namespace Ledger

inductive Step where
  | nextSequence
  | sendPacket (i : Nat) (now : Time) (cargo : Cargo)
  | handleAckFrame (now : Time) (frame : AckFrame)
  | detectLostPackets (now : Time) (delay : Int)
  | onLossTimer (now : Time) (delay : Int)
  | onPacketsLost (i : Nat)
  | resend (now : Time) (p : Ptr)
  | drop (p : Ptr)
  | oldestUnacked (n : Nat)

def Registered (l : Ledger) (p : Ptr) : Prop := p ∈ l.sent.map Transmission.packet

instance (l : Ledger) (p : Ptr) : Decidable (l.Registered p) := inferInstanceAs (Decidable (_ ∈ _))

/-- Loss detection has returned; the callback runs later, if there is a loss to
report. -/
def declare (l : Ledger) (detected : PacketManager × List Ptr) : Ledger :=
  let report := detected.2.map fun p => (p, (detected.1.heap p).sequence)
  { l with
    pm := detected.1
    reports := if report.length > 0 then l.reports ++ [report] else l.reports
    declared := l.declared ++ report }

def step (l : Ledger) : Step → Option Ledger
  | .nextSequence =>
    let (pm, seq) := l.pm.nextSequence
    some { l with pm := pm, drawn := l.drawn ++ [seq] }
  | .sendPacket i now cargo =>
    match l.drawn[i]? with
    | none => none
    | some seq =>
      let (pm, p) := l.pm.new { toCargo := cargo, sequence := seq }
      some { l with
        pm := pm.sendPacket now p
        drawn := l.drawn.eraseIdx i
        sent := ⟨seq, p, now⟩ :: l.sent }
  | .handleAckFrame now frame => some { l with pm := (l.pm.handleAckFrame now frame).1 }
  | .detectLostPackets now delay => some (l.declare (l.pm.detectLostLocked now delay))
  | .onLossTimer now delay => some (l.declare (l.pm.onLossTimer now delay))
  | .onPacketsLost i =>
    match l.reports[i]? with
    | none => none
    | some report =>
      some { l with reports := l.reports.eraseIdx i, handed := l.handed ++ report }
  | .resend now p =>
    if l.Registered p then
      match l.pm.resend now p with
      | (pm, none) => some { l with pm := pm }
      | (pm, some seq) => some { l with pm := pm, sent := ⟨seq, p, now⟩ :: l.sent }
    else none
  | .drop p => if l.Registered p then some { l with pm := l.pm.drop p } else none
  | .oldestUnacked _ => some l

end Ledger

namespace PacketManager

/-- Every tracked packet is unacknowledged and was put out, when it says, under
the number it is tracked under. -/
structure Tabled (pm : PacketManager) (sent : List Ledger.Transmission) : Prop where
  keyed : pm.Keyed
  unacked : ∀ s p, pm.sentPackets.lookup s = some p → (pm.heap p).isAcked = false
  put : ∀ s p, pm.sentPackets.lookup s = some p → ⟨s, p, (pm.heap p).sentTime⟩ ∈ sent

theorem heap_drop (pm : PacketManager) (p : Ptr) : (pm.drop p).heap = pm.heap := by
  unfold drop
  split <;> rfl

theorem nextPtr_drop (pm : PacketManager) (p : Ptr) : (pm.drop p).nextPtr = pm.nextPtr := by
  unfold drop
  split <;> rfl

theorem mem_of_mem_drop (pm : PacketManager) (p : Ptr) {s : UInt32}
    (inside : s ∈ (pm.drop p).sentPackets) : s ∈ pm.sentPackets := by
  unfold drop at inside
  split at inside
  · exact (AList.mem_erase.mp inside).2
  · exact inside

theorem sentPackets_track (pm : PacketManager) (now : Time) (pkt : SentPacket) :
    ((pm.new pkt).1.sendPacket now pm.nextPtr).sentPackets =
      pm.sentPackets.insert pkt.sequence pm.nextPtr := by
  simp [sendPacket, modify, new]

/-- A packet that was acknowledged or is a probe does not go out again; any
other does, under the next number. -/
theorem resend_cases (pm : PacketManager) (now : Time) (p : Ptr) :
    (((pm.heap p).isAcked = true ∨ (pm.heap p).probe = true) ∧ pm.resend now p = (pm, none)) ∨
      ((pm.heap p).isAcked = false ∧ (pm.heap p).probe = false ∧ pm.resend now p =
        ((pm.drop p).renumber now p, some (UInt32.ofNat (pm.drop p).nextSeq))) := by
  rw [resend_eq]
  split
  · rename_i final
    exact .inl ⟨final, rfl⟩
  · rename_i live
    obtain ⟨unacked, data⟩ := not_or.mp live
    exact .inr ⟨by simpa using unacked, by simpa using data, rfl⟩

/-- An ACK leaves the packets alone that it does not take. -/
theorem heap_foldl_take {seqs : List UInt32} {acc : PacketManager × List Ptr} {p : Ptr}
    (untaken : ∀ s ∈ seqs, acc.1.sentPackets.lookup s ≠ some p) :
    (seqs.foldl take acc).1.heap p = acc.1.heap p := by
  induction seqs generalizing acc with
  | nil => rfl
  | cons seq rest ih =>
    rw [List.foldl_cons, ih]
    · unfold take
      split
      · rfl
      · rename_i q found
        have other : p ≠ q := fun same => untaken seq List.mem_cons_self (same ▸ found)
        exact Function.update_of_ne other _ _
    · intro s member found
      rw [lookup_take] at found
      split at found
      · cases found
      · exact untaken s (List.mem_cons_of_mem _ member) found

namespace Tabled

variable {pm pm' : PacketManager} {sent : List Ledger.Transmission}

theorem fewer (tabled : pm.Tabled sent)
    (left : ∀ s p, pm'.sentPackets.lookup s = some p →
      pm.sentPackets.lookup s = some p ∧ pm'.heap p = pm.heap p) : pm'.Tabled sent := by
  refine ⟨fun s p found => ?_, fun s p found => ?_, fun s p found => ?_⟩
  · obtain ⟨old, same⟩ := left s p found
    rw [same]
    exact tabled.keyed s p old
  · obtain ⟨old, same⟩ := left s p found
    rw [same]
    exact tabled.unacked s p old
  · obtain ⟨old, same⟩ := left s p found
    rw [same]
    exact tabled.put s p old

theorem insert (tabled : pm.Tabled sent) {n : UInt32} {p : Ptr} {now : Time}
    (absent : ∀ s, pm.sentPackets.lookup s ≠ some p)
    (table : pm'.sentPackets = pm.sentPackets.insert n p)
    (others : ∀ q, q ≠ p → pm'.heap q = pm.heap q) (sequence : (pm'.heap p).sequence = n)
    (unacked : (pm'.heap p).isAcked = false) (time : (pm'.heap p).sentTime = now) :
    pm'.Tabled (⟨n, p, now⟩ :: sent) := by
  have cases : ∀ s q, pm'.sentPackets.lookup s = some q →
      s = n ∧ q = p ∨ pm.sentPackets.lookup s = some q ∧ pm'.heap q = pm.heap q := by
    intro s q found
    rw [table] at found
    by_cases new : s = n
    · rw [new, AList.lookup_insert, Option.some.injEq] at found
      exact .inl ⟨new, found.symm⟩
    · rw [AList.lookup_insert_ne new] at found
      refine .inr ⟨found, others q fun same => absent s ?_⟩
      rw [found, same]
  refine ⟨fun s q found => ?_, fun s q found => ?_, fun s q found => ?_⟩
  · rcases cases s q found with ⟨rfl, rfl⟩ | ⟨old, same⟩
    · exact sequence
    · rw [same]
      exact tabled.keyed s q old
  · rcases cases s q found with ⟨rfl, rfl⟩ | ⟨old, same⟩
    · exact unacked
    · rw [same]
      exact tabled.unacked s q old
  · rcases cases s q found with ⟨rfl, rfl⟩ | ⟨old, same⟩
    · rw [time]
      exact List.mem_cons_self
    · rw [same]
      exact List.mem_cons_of_mem _ (tabled.put s q old)

theorem forget (tabled : pm.Tabled sent) (p : Ptr) : (pm.forget p).Tabled sent := by
  refine tabled.fewer fun s q found => ⟨?_, rfl⟩
  rw [PacketManager.forget] at found
  by_cases same : s = (pm.heap p).sequence
  · rw [same, AList.lookup_erase] at found
    cases found
  · rwa [AList.lookup_erase_ne same] at found

theorem drop (tabled : pm.Tabled sent) (p : Ptr) : (pm.drop p).Tabled sent := by
  unfold PacketManager.drop
  split
  · exact tabled.forget p
  · exact tabled

theorem not_tracked_drop (tabled : pm.Tabled sent) (p : Ptr) (s : UInt32) :
    (pm.drop p).sentPackets.lookup s ≠ some p := by
  intro found
  unfold PacketManager.drop at found
  split at found
  · rw [PacketManager.forget] at found
    by_cases same : s = (pm.heap p).sequence
    · rw [same, AList.lookup_erase] at found
      cases found
    · rw [AList.lookup_erase_ne same] at found
      exact same (tabled.keyed s p found).symm
  · rename_i untracked
    refine untracked (decide_eq_true ?_)
    rw [tabled.keyed s p found]
    exact found

theorem sendPacket (tabled : pm.Tabled sent) {pkt : SentPacket} (unacked : pkt.isAcked = false)
    (allocated : ∀ s p, pm.sentPackets.lookup s = some p → p < pm.nextPtr) (now : Time) :
    ((pm.new pkt).1.sendPacket now pm.nextPtr).Tabled
      (⟨pkt.sequence, pm.nextPtr, now⟩ :: sent) := by
  refine tabled.insert (fun s found => absurd (allocated s _ found) (Nat.lt_irrefl _))
    (pm.sentPackets_track now pkt) ?_ ?_ ?_ ?_
  · intro q other
    simp [PacketManager.sendPacket, PacketManager.modify, PacketManager.new, other]
  · simp [PacketManager.sendPacket, PacketManager.modify, PacketManager.new]
  · simpa [PacketManager.sendPacket, PacketManager.modify, PacketManager.new] using unacked
  · simp [PacketManager.sendPacket, PacketManager.modify, PacketManager.new]

theorem handleAckFrame (tabled : pm.Tabled sent) (now : Time) (frame : AckFrame) :
    (pm.handleAckFrame now frame).1.Tabled sent := by
  refine tabled.fewer fun s p found => ?_
  rw [handleAckFrame_sentPackets, lookup_foldl_take] at found
  split at found
  · cases found
  · rename_i unnamed
    refine ⟨found, ?_⟩
    rw [handleAckFrame_heap, heap_foldl_take]
    -- A number the frame names holds another packet.
    intro t named taken
    obtain rfl : t = s := (tabled.keyed t p taken).symm.trans (tabled.keyed s p found)
    exact unnamed named

theorem detectLostLocked (tabled : pm.Tabled sent) (now : Time) (delay : Int) :
    (pm.detectLostLocked now delay).1.Tabled sent := by
  refine tabled.fewer fun s p found => ?_
  rw [lookup_detectLostLocked tabled.keyed, Option.filter_eq_some_iff] at found
  exact ⟨found.1, by rw [heap_detectLostLocked]⟩

theorem renumber (tabled : pm.Tabled sent) {p : Ptr}
    (absent : ∀ s, pm.sentPackets.lookup s ≠ some p) (unacked : (pm.heap p).isAcked = false)
    (now : Time) :
    (pm.renumber now p).Tabled (⟨UInt32.ofNat pm.nextSeq, p, now⟩ :: sent) := by
  apply tabled.insert absent (pm.renumber_sentPackets now p)
  · exact fun q other => pm.renumber_heap_of_ne now p other
  · exact pm.renumber_sequence now p
  · rw [pm.renumber_isAcked now p p]
    exact unacked
  · simp [PacketManager.renumber, PacketManager.modify]

end Tabled

end PacketManager

namespace Ledger

inductive Effect (l : Ledger) : Ledger → Prop
  | idle : Effect l l
  | draw : Effect l { l with
      pm := { l.pm with nextSeq := l.pm.nextSeq + 1 }
      drawn := l.drawn ++ [UInt32.ofNat l.pm.nextSeq] }
  | send (i : Nat) (seq : UInt32) (now : Time) (cargo : Cargo) (drawn : l.drawn[i]? = some seq) :
    Effect l { l with
      pm := (l.pm.new { toCargo := cargo, sequence := seq }).1.sendPacket now l.pm.nextPtr
      drawn := l.drawn.eraseIdx i
      sent := ⟨seq, l.pm.nextPtr, now⟩ :: l.sent }
  | ack (now : Time) (frame : AckFrame) :
    Effect l { l with pm := (l.pm.handleAckFrame now frame).1 }
  | declare (stamp : Option Time) (now : Time) (delay : Int) :
    Effect l (l.declare ({ l.pm with ackBeforeLoss := stamp }.detectLostLocked now delay))
  | report (i : Nat) (lost : List (Ptr × UInt32)) (waits : l.reports[i]? = some lost) :
    Effect l { l with reports := l.reports.eraseIdx i, handed := l.handed ++ lost }
  | resend (now : Time) (p : Ptr) (registered : l.Registered p)
    (unacked : (l.pm.heap p).isAcked = false) (data : (l.pm.heap p).probe = false) :
    Effect l { l with
      pm := (l.pm.drop p).renumber now p
      sent := ⟨UInt32.ofNat l.pm.nextSeq, p, now⟩ :: l.sent }
  | drop (p : Ptr) (registered : l.Registered p) : Effect l { l with pm := l.pm.drop p }

theorem step_effect {l l' : Ledger} {i : Step} (taken : l.step i = some l') : Effect l l' := by
  cases i with
  | nextSequence =>
    obtain rfl := Option.some.inj taken
    exact .draw
  | sendPacket i now cargo =>
    simp only [step] at taken
    split at taken
    · cases taken
    · rename_i seq drawn
      obtain rfl := Option.some.inj taken
      exact .send i seq now cargo drawn
  | handleAckFrame now frame =>
    obtain rfl := Option.some.inj taken
    exact .ack now frame
  | detectLostPackets now delay =>
    obtain rfl := Option.some.inj taken
    exact .declare l.pm.ackBeforeLoss now delay
  | onLossTimer now delay =>
    obtain rfl := Option.some.inj taken
    exact .declare l.pm.lastAckTime now delay
  | onPacketsLost i =>
    simp only [step] at taken
    split at taken
    · cases taken
    · rename_i lost waits
      obtain rfl := Option.some.inj taken
      exact .report i lost waits
  | resend now p =>
    simp only [step] at taken
    split at taken
    · rename_i registered
      rcases l.pm.resend_cases now p with ⟨-, refused⟩ | ⟨unacked, data, again⟩
      · rw [refused] at taken
        obtain rfl := Option.some.inj taken
        exact .idle
      · rw [again, l.pm.nextSeq_drop p] at taken
        obtain rfl := Option.some.inj taken
        exact .resend now p registered unacked data
    · cases taken
  | drop p =>
    simp only [step] at taken
    split at taken
    · rename_i registered
      obtain rfl := Option.some.inj taken
      exact .drop p registered
    · cases taken
  | oldestUnacked n =>
    obtain rfl := Option.some.inj taken
    exact .idle

/-- The numbers in use. -/
def numbers (l : Ledger) : List UInt32 := l.drawn ++ l.sent.map Transmission.number

structure Consistent (l : Ledger) : Prop where
  tabled : l.pm.Tabled l.sent
  distinct : l.numbers.Nodup
  below : ∀ n ∈ l.numbers, n.toNat < l.pm.nextSeq
  allocated : ∀ t ∈ l.sent, t.packet < l.pm.nextPtr
  gone : ∀ d ∈ l.declared, d.2 ∉ l.pm.sentPackets
  logged : ∀ d ∈ l.declared, ∃ time, ⟨d.2, d.1, time⟩ ∈ l.sent
  once : (l.declared.map Prod.snd).Nodup
  settled : (l.handed ++ l.reports.flatten).Perm l.declared

variable {l l' : Ledger}

theorem Consistent.fewer (consistent : l.Consistent) {pm : PacketManager}
    (tabled : pm.Tabled l.sent) (next : l.pm.nextSeq ≤ pm.nextSeq)
    (pointers : l.pm.nextPtr ≤ pm.nextPtr)
    (less : ∀ s, s ∈ pm.sentPackets → s ∈ l.pm.sentPackets) :
    Consistent { l with pm := pm } :=
  ⟨tabled, consistent.distinct, fun n used => Nat.lt_of_lt_of_le (consistent.below n used) next,
    fun t member => Nat.lt_of_lt_of_le (consistent.allocated t member) pointers,
    fun d member inside => consistent.gone d member (less _ inside),
    consistent.logged, consistent.once, consistent.settled⟩

/-- A packet goes out under a number that no earlier transmission had. -/
theorem Consistent.transmit (consistent : l.Consistent) {pm : PacketManager} {t : Transmission}
    {drawn : List UInt32} (tabled : pm.Tabled (t :: l.sent))
    (used : (drawn ++ t.number :: l.sent.map Transmission.number).Nodup)
    (below : ∀ n ∈ drawn ++ t.number :: l.sent.map Transmission.number, n.toNat < pm.nextSeq)
    (allocated : t.packet < pm.nextPtr) (pointers : l.pm.nextPtr ≤ pm.nextPtr)
    (less : ∀ s, s ∈ pm.sentPackets → s = t.number ∨ s ∈ l.pm.sentPackets) :
    Consistent { l with pm := pm, drawn := drawn, sent := t :: l.sent } := by
  refine ⟨tabled, used, below, ?_, ?_, ?_, consistent.once, consistent.settled⟩
  · intro u member
    rcases List.mem_cons.mp member with rfl | old
    · exact allocated
    · exact Nat.lt_of_lt_of_le (consistent.allocated u old) pointers
  · intro d member inside
    rcases less _ inside with new | old
    · obtain ⟨time, logged⟩ := consistent.logged d member
      have earlier : d.2 ∈ l.sent.map Transmission.number := List.mem_map_of_mem logged
      have fresh := (List.nodup_cons.mp (List.Nodup.of_append_right used)).1
      exact fresh (new ▸ earlier)
    · exact consistent.gone d member old
  · intro d member
    obtain ⟨time, logged⟩ := consistent.logged d member
    exact ⟨time, List.mem_cons_of_mem _ logged⟩

/-- Loss detection moves packets from the table into a report. -/
theorem Consistent.declare (consistent : l.Consistent) (now : Time) (delay : Int) :
    (l.declare (l.pm.detectLostLocked now delay)).Consistent := by
  have keyed := consistent.tabled.keyed
  have tabled := consistent.tabled.detectLostLocked now delay
  have heap : (l.pm.detectLostLocked now delay).1.heap = l.pm.heap :=
    PacketManager.heap_detectLostLocked
  have next : (l.pm.detectLostLocked now delay).1.nextSeq = l.pm.nextSeq := by
    rw [PacketManager.detectLostLocked_fst_eq]
  have pointers : (l.pm.detectLostLocked now delay).1.nextPtr = l.pm.nextPtr := by
    rw [PacketManager.detectLostLocked_fst_eq]
  have less : ∀ s, s ∈ (l.pm.detectLostLocked now delay).1.sentPackets → s ∈ l.pm.sentPackets := by
    intro s inside
    obtain ⟨p, found⟩ := Option.isSome_iff_exists.mp (AList.lookup_isSome.mpr inside)
    rw [PacketManager.lookup_detectLostLocked keyed, Option.filter_eq_some_iff] at found
    exact AList.lookup_isSome.mp (Option.isSome_iff_exists.mpr ⟨p, found.1⟩)
  have lost : ∀ p ∈ (l.pm.detectLostLocked now delay).2,
      l.pm.sentPackets.lookup (l.pm.heap p).sequence = some p ∧
        (l.pm.heap p).sequence ∉ (l.pm.detectLostLocked now delay).1.sentPackets := by
    intro p member
    obtain ⟨s, found, tardy⟩ := PacketManager.mem_detectLostLocked_iff.mp member
    rw [keyed s p found]
    refine ⟨found, fun inside => ?_⟩
    rw [← AList.lookup_isSome, PacketManager.lookup_detectLostLocked keyed, found,
      Option.filter_some, if_neg (by simpa using tardy)] at inside
    cases inside
  have ordered := @PacketManager.pairwise_detectLostLocked l.pm now delay keyed
  generalize l.pm.detectLostLocked now delay = detected at *
  have base := consistent.fewer tabled next.ge pointers.ge less
  refine ⟨tabled, base.distinct, base.below, base.allocated, ?_, ?_, ?_, ?_⟩
  · intro d member
    rcases List.mem_append.mp member with old | new
    · exact base.gone d old
    · obtain ⟨p, inside, rfl⟩ := List.mem_map.mp new
      dsimp only
      rw [heap]
      exact (lost p inside).2
  · intro d member
    rcases List.mem_append.mp member with old | new
    · exact consistent.logged d old
    · obtain ⟨p, inside, rfl⟩ := List.mem_map.mp new
      dsimp only
      rw [heap]
      exact ⟨_, consistent.tabled.put _ p (lost p inside).1⟩
  · rw [Ledger.declare, List.map_append, List.map_map]
    simp only [Function.comp_def, heap]
    refine List.nodup_append.mpr ⟨consistent.once, ordered.imp UInt32.ne_of_lt, ?_⟩
    intro n old m new same
    obtain ⟨d, declared, rfl⟩ := List.mem_map.mp old
    obtain ⟨p, inside, rfl⟩ := List.mem_map.mp new
    refine consistent.gone d declared ?_
    rw [same]
    exact AList.lookup_isSome.mp (Option.isSome_iff_exists.mpr ⟨p, (lost p inside).1⟩)
  · unfold Ledger.declare
    dsimp only
    split
    · rw [List.flatten_append, List.flatten_singleton, ← List.append_assoc]
      exact consistent.settled.append_right _
    · rename_i none
      rw [List.length_eq_zero_iff.mp (Nat.eq_zero_of_not_pos none), List.append_nil]
      exact consistent.settled

theorem Consistent.fresh (consistent : l.Consistent) (few : l.pm.nextSeq < 2 ^ 32) :
    UInt32.ofNat l.pm.nextSeq ∉ l.numbers ∧
      ∀ n ∈ UInt32.ofNat l.pm.nextSeq :: l.numbers, n.toNat < l.pm.nextSeq + 1 := by
  have number : (UInt32.ofNat l.pm.nextSeq).toNat = l.pm.nextSeq :=
    UInt32.toNat_ofNat_of_lt' few
  refine ⟨fun used => ?_, fun n member => ?_⟩
  · have below := consistent.below _ used
    rw [number] at below
    exact Nat.lt_irrefl _ below
  · rcases List.mem_cons.mp member with rfl | old
    · rw [number]
      exact Nat.lt_succ_self _
    · exact Nat.lt_succ_of_lt (consistent.below n old)

theorem Consistent.step {i : Step} (consistent : l.Consistent) (taken : l.step i = some l')
    (few : l'.pm.nextSeq ≤ 2 ^ 32) : l'.Consistent := by
  cases step_effect taken with
  | idle => exact consistent
  | draw =>
    obtain ⟨fresh, below⟩ := consistent.fresh few
    have used : (l.drawn ++ [UInt32.ofNat l.pm.nextSeq] ++ l.sent.map Transmission.number).Perm
        (UInt32.ofNat l.pm.nextSeq :: l.numbers) := by
      rw [List.append_assoc]
      exact List.perm_middle
    refine ⟨consistent.tabled.fewer fun _ _ found => ⟨found, rfl⟩,
      used.nodup_iff.mpr (List.nodup_cons.mpr ⟨fresh, consistent.distinct⟩),
      fun n member => below n (used.mem_iff.mp member), consistent.allocated, consistent.gone,
      consistent.logged, consistent.once, consistent.settled⟩
  | send i seq now cargo drawn =>
    have perm : l.drawn.Perm (seq :: l.drawn.eraseIdx i) := by
      obtain ⟨inside, rfl⟩ := List.getElem?_eq_some_iff.mp drawn
      exact (List.getElem_cons_eraseIdx_perm inside).symm
    have used : (l.drawn.eraseIdx i ++ seq :: l.sent.map Transmission.number).Perm l.numbers :=
      List.perm_middle.trans (perm.symm.append_right _)
    refine consistent.transmit ?_ (used.nodup_iff.mpr consistent.distinct) ?_ ?_ ?_ ?_
    · refine consistent.tabled.sendPacket rfl (fun s p found => ?_) now
      exact consistent.allocated _ (consistent.tabled.put s p found)
    · exact fun n member => consistent.below n (used.mem_iff.mp member)
    · exact Nat.lt_succ_self _
    · exact Nat.le_succ _
    · intro s inside
      rw [PacketManager.sentPackets_track] at inside
      exact (AList.mem_insert _).mp inside
  | ack now frame =>
    obtain ⟨next, pointers⟩ := l.pm.nextSeq_handleAckFrame now frame
    refine consistent.fewer (consistent.tabled.handleAckFrame now frame) next.ge pointers.ge ?_
    intro s inside
    rw [← AList.lookup_isSome, PacketManager.handleAckFrame_sentPackets,
      PacketManager.lookup_foldl_take] at inside
    split at inside
    · cases inside
    · exact AList.lookup_isSome.mp inside
  | declare stamp now delay =>
    have stamped : Consistent { l with pm := { l.pm with ackBeforeLoss := stamp } } :=
      consistent.fewer (consistent.tabled.fewer fun _ _ found => ⟨found, rfl⟩) (Nat.le_refl _)
        (Nat.le_refl _) fun _ inside => inside
    exact stamped.declare now delay
  | report i lost waits =>
    refine ⟨consistent.tabled, consistent.distinct, consistent.below, consistent.allocated,
      consistent.gone, consistent.logged, consistent.once, ?_⟩
    have perm : l.reports.Perm (lost :: l.reports.eraseIdx i) := by
      obtain ⟨inside, rfl⟩ := List.getElem?_eq_some_iff.mp waits
      exact (List.getElem_cons_eraseIdx_perm inside).symm
    rw [List.append_assoc]
    exact (perm.flatten.symm.append_left l.handed).trans consistent.settled
  | resend now p registered unacked data =>
    have next : (l.pm.drop p).nextSeq = l.pm.nextSeq := l.pm.nextSeq_drop p
    obtain ⟨fresh, below⟩ := consistent.fresh (next ▸ few)
    have used : (l.drawn ++ UInt32.ofNat l.pm.nextSeq :: l.sent.map Transmission.number).Perm
        (UInt32.ofNat l.pm.nextSeq :: l.numbers) := List.perm_middle
    obtain ⟨u, logged, rfl⟩ := List.mem_map.mp registered
    have tabled := (consistent.tabled.drop u.packet).renumber
      (consistent.tabled.not_tracked_drop u.packet) (by rw [l.pm.heap_drop]; exact unacked) now
    rw [next] at tabled
    refine consistent.transmit tabled
      (used.nodup_iff.mpr (List.nodup_cons.mpr ⟨fresh, consistent.distinct⟩)) ?_ ?_ ?_ ?_
    · intro n member
      rw [PacketManager.renumber_nextSeq, next]
      exact below n (used.mem_iff.mp member)
    · exact Nat.lt_of_lt_of_le (consistent.allocated u logged) (l.pm.nextPtr_drop u.packet).ge
    · exact (l.pm.nextPtr_drop u.packet).ge
    · intro s inside
      rw [PacketManager.renumber_sentPackets, AList.mem_insert, next] at inside
      exact inside.imp_right (l.pm.mem_of_mem_drop u.packet)
  | drop p registered =>
    exact consistent.fewer (consistent.tabled.drop p) (l.pm.nextSeq_drop p).ge
      (l.pm.nextPtr_drop p).ge fun s => l.pm.mem_of_mem_drop p

theorem consistent_new : Consistent {} :=
  ⟨⟨nofun, nofun, nofun⟩, List.nodup_nil, nofun, nofun, nofun, nofun, List.nodup_nil, .refl _⟩

/-- How often a packet has gone out, and under which numbers. -/
def transmissions (l : Ledger) (p : Ptr) : List Transmission :=
  l.sent.filter fun t => t.packet = p

/-- The packet was acknowledged or is a path-MTU probe. -/
def Final (l : Ledger) (p : Ptr) : Prop :=
  l.Registered p ∧ ((l.pm.heap p).isAcked = true ∨ (l.pm.heap p).probe = true)

/-- A packet that is final stays so and does not go out again. -/
structure StaysFinal (l l' : Ledger) (p : Ptr) : Prop where
  final : l'.Final p
  same : l'.transmissions p = l.transmissions p

theorem Final.rests {p : Ptr} (final : l.Final p)
    (acked : (l.pm.heap p).isAcked = true → (l'.pm.heap p).isAcked = true)
    (probe : (l'.pm.heap p).probe = (l.pm.heap p).probe)
    (sent : l'.sent = l.sent ∨ ∃ t, l'.sent = t :: l.sent ∧ t.packet ≠ p) : StaysFinal l l' p := by
  have still : (l'.pm.heap p).isAcked = true ∨ (l'.pm.heap p).probe = true := by
    rw [probe]
    exact final.2.imp_left acked
  rcases sent with same | ⟨t, grown, other⟩
  · refine ⟨⟨?_, still⟩, ?_⟩
    · rw [Registered, same]
      exact final.1
    · rw [transmissions, same, transmissions]
  · refine ⟨⟨?_, still⟩, ?_⟩
    · rw [Registered, grown]
      exact List.mem_cons_of_mem _ final.1
    · rw [transmissions, grown, List.filter_cons_of_neg (by simpa using other), transmissions]

theorem Final.rests_of_heap {p : Ptr} (final : l.Final p) (heap : l'.pm.heap p = l.pm.heap p)
    (sent : l'.sent = l.sent ∨ ∃ t, l'.sent = t :: l.sent ∧ t.packet ≠ p) : StaysFinal l l' p :=
  final.rests (fun acked => by rw [heap]; exact acked) (by rw [heap]) sent

theorem Final.step {p : Ptr} {i : Step} (final : l.Final p) (consistent : l.Consistent)
    (taken : l.step i = some l') : StaysFinal l l' p := by
  cases step_effect taken with
  | idle | draw | report => exact final.rests_of_heap rfl (.inl rfl)
  | send i seq now cargo drawn =>
    obtain ⟨t, logged, rfl⟩ := List.mem_map.mp final.1
    have other : t.packet ≠ l.pm.nextPtr := Nat.ne_of_lt (consistent.allocated t logged)
    refine final.rests_of_heap ?_ (.inr ⟨_, rfl, other.symm⟩)
    simp [PacketManager.sendPacket, PacketManager.modify, PacketManager.new, other]
  | ack now frame =>
    refine final.rests (fun acked => ?_) ?_ (.inl rfl)
    · rw [PacketManager.handleAckFrame_heap, PacketManager.isAcked_foldl_take]
      exact .inl acked
    · exact congrArg Cargo.probe (congrFun (l.pm.cargo_handleAckFrame now frame) p)
  | declare stamp now delay =>
    exact final.rests_of_heap (congrFun PacketManager.heap_detectLostLocked p) (.inl rfl)
  | resend now q registered unacked data =>
    have other : p ≠ q := by
      rintro rfl
      rcases final.2 with acked | probe
      · exact Bool.false_ne_true (unacked.symm.trans acked)
      · exact Bool.false_ne_true (data.symm.trans probe)
    refine final.rests_of_heap ?_ (.inr ⟨_, rfl, other.symm⟩)
    rw [PacketManager.renumber_heap_of_ne _ _ _ other, PacketManager.heap_drop]
  | drop q registered =>
    exact final.rests_of_heap (congrFun (l.pm.heap_drop q) p) (.inl rfl)

theorem nextSeq_le_of_step {i : Step} (taken : l.step i = some l') :
    l.pm.nextSeq ≤ l'.pm.nextSeq := by
  cases step_effect taken with
  | idle | send | report => exact Nat.le_refl _
  | draw => exact Nat.le_succ _
  | ack now frame => exact (PacketManager.Numbers.handleAckFrame now frame).next
  | declare stamp now delay =>
    exact (PacketManager.Numbers.detectLostLocked (a := { l.pm with ackBeforeLoss := stamp }) now
      delay).next
  | resend now p =>
    rw [PacketManager.renumber_nextSeq, PacketManager.nextSeq_drop]
    exact Nat.le_succ _
  | drop p => exact (l.pm.nextSeq_drop p).ge

/-- What holds as long as numbers do not repeat. -/
theorem consistent_of_run {steps : List Step} (start : l.pm.nextSeq ≤ 2 ^ 32 → l.Consistent)
    (reached : Runs.run step l steps = some l') : l'.pm.nextSeq ≤ 2 ^ 32 → l'.Consistent := by
  refine Runs.invariant_of_forall (fun l => l.pm.nextSeq ≤ 2 ^ 32 → l.Consistent) ?_ start reached
  intro l i l' holds taken few
  exact (holds (Nat.le_trans (nextSeq_le_of_step taken) few)).step taken few

/-- A packet that is final in a state stays so in every later one. -/
theorem rests_of_run {p : Ptr} {steps : List Step} (consistent : l.Consistent)
    (final : l.Final p) (reached : Runs.run step l steps = some l')
    (few : l'.pm.nextSeq ≤ 2 ^ 32) : StaysFinal l l' p := by
  refine (Runs.invariant_of_forall (fun t => t.pm.nextSeq ≤ 2 ^ 32 → t.Consistent ∧ StaysFinal l t p)
    ?_ (fun _ => ⟨consistent, final, rfl⟩) reached few).2
  intro t i t' holds taken few
  obtain ⟨consistent, rests⟩ := holds (Nat.le_trans (nextSeq_le_of_step taken) few)
  have next := rests.final.step consistent taken
  exact ⟨consistent.step taken few, next.final, next.same.trans rests.same⟩

/-- In every run of a packet manager whose numbers do not repeat, the table holds
each unacknowledged packet under the number it was last put out under, no number
is used twice, a packet that was acknowledged or is a probe takes no further
number, and each loss is handed over once. -/
theorem table_consistent {steps : List Step} (reached : Runs.run step {} steps = some l)
    (few : l.pm.nextSeq ≤ 2 ^ 32) :
    (∀ k p, l.pm.sentPackets.lookup k = some p →
      (l.pm.heap p).sequence = k ∧ k.toNat < l.pm.nextSeq ∧ (l.pm.heap p).isAcked = false ∧
        ⟨k, p, (l.pm.heap p).sentTime⟩ ∈ l.sent) ∧
      (∀ k k' p, l.pm.sentPackets.lookup k = some p → l.pm.sentPackets.lookup k' = some p →
        k = k') ∧
      (l.sent.map Transmission.number).Nodup ∧
      (∀ p more l', l.Final p → Runs.run step l more = some l' → l'.pm.nextSeq ≤ 2 ^ 32 →
        l'.transmissions p = l.transmissions p) ∧
      (l.declared.map Prod.snd).Nodup ∧ (l.handed ++ l.reports.flatten).Perm l.declared ∧
      ∀ d ∈ l.declared, ∃ time, ⟨d.2, d.1, time⟩ ∈ l.sent := by
  have consistent := consistent_of_run (fun _ => consistent_new) reached few
  have tabled := consistent.tabled
  refine ⟨fun k p found => ?_, fun k k' p found found' => ?_,
    List.Nodup.of_append_right consistent.distinct, ?_, consistent.once, consistent.settled,
    consistent.logged⟩
  · have put := tabled.put k p found
    have used : k ∈ l.numbers := List.mem_append_right _ (List.mem_map_of_mem put)
    exact ⟨tabled.keyed k p found, consistent.below k used, tabled.unacked k p found, put⟩
  · exact (tabled.keyed k p found).symm.trans (tabled.keyed k' p found')
  · intro p more l' final later few
    exact (rests_of_run consistent final later few).same

/-- Five packets and a probe, two of them registered out of turn; packet 4 is
acknowledged, 0 and 1 are declared lost, and 0 goes out again before the
connection is told. -/
def outOfTurn : List Step :=
  let blank : Cargo := { fits := blank_fits }
  [.nextSequence, .nextSequence, .sendPacket 1 0 blank, .sendPacket 0 0 blank, .nextSequence,
    .sendPacket 0 0 { probe := true, fits := fun _ => Nat.zero_le _ }, .nextSequence,
    .sendPacket 0 0 blank, .nextSequence, .sendPacket 0 0 blank,
    .handleAckFrame 1 ⟨4, 0, 1, []⟩, .detectLostPackets 1 lossTimerGranularity, .resend 1 1,
    .onPacketsLost 0, .resend 2 4, .drop 3]

theorem table_consistent_outOfTurn :
    ∃ l, Runs.run step {} outOfTurn = some l ∧ l.pm.nextSeq = 6 ∧
      l.declared = [(1, 0), (0, 1)] ∧ l.handed = [(1, 0), (0, 1)] ∧
      ∀ k p, l.pm.sentPackets.lookup k = some p → (l.pm.heap p).sequence = k := by
  have runs : (Runs.run step {} outOfTurn).any (fun l => decide (l.pm.nextSeq = 6 ∧
      l.declared = [(1, 0), (0, 1)] ∧ l.handed = [(1, 0), (0, 1)])) = true := by decide +kernel
  obtain ⟨l, reached, test⟩ := Runs.reaches_of_any runs
  obtain ⟨next, declared, handed⟩ := of_decide_eq_true test
  have few : l.pm.nextSeq ≤ 2 ^ 32 := by rw [next]; decide
  exact ⟨l, reached, next, declared, handed,
    fun k p found => ((table_consistent reached few).1 k p found).1⟩

end Ledger

end Udx
