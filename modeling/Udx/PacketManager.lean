import Mathlib.Data.List.AList
import Mathlib.Data.List.Sort
import Udx.Frame
import Udx.Lib.Tables

set_option autoImplicit false

namespace Udx

/-- Nanoseconds on the connection's clock. The zero `time.Time` is `none` where
the source tests for it. -/
abbrev Time := Int

/-- The identity of a sent packet, which the source compares and shares: a
packet keeps it while it moves from number to number. -/
abbrev Ptr := Nat

/-- What a packet carries, fixed when it is first sent. A path-MTU probe is no
larger than the largest datagram. -/
structure Cargo where
  size : Nat := 0
  frames : List Frame := []
  destinationStreamID : UInt32 := 0
  sourceStreamID : UInt32 := 0
  probe : Bool := false
  fits : probe = true → size ≤ maxDatagramSize := by nofun
deriving DecidableEq

/-- How much stream data a packet of one STREAM frame carries. -/
def Cargo.dataLen (cargo : Cargo) : Nat :=
  match cargo.frames with
  | [.stream sf] => sf.data.length
  | _ => 0

/-- A packet that was sent and awaits acknowledgment, under the number it was
last sent under. -/
structure SentPacket extends Cargo where
  sequence : UInt32 := 0
  sentTime : Time := 0
  firstSentTime : Option Time := none
  isAcked : Bool := false
  retransmitCount : Nat := 0
deriving DecidableEq

/-- The sent packets awaiting acknowledgment, keyed by their current number,
and the packets themselves. `nextSeq` counts every number allocated; the number
on the wire is its residue modulo `2 ^ 32`. -/
structure PacketManager where
  nextSeq : Nat := 0
  lastSentSeq : Int := -1
  sentPackets : AList (fun _ : UInt32 => Ptr) := ∅
  largestAcked : Int := -1
  lastAckTime : Option Time := none
  ackBeforeLoss : Option Time := none
  lossTimer : Option Time := none
  heap : Ptr → SentPacket := fun _ => {}
  nextPtr : Ptr := 0

theorem blank_fits : false = true → 0 ≤ maxDatagramSize := nofun

/-- The sequences of one range, `count` of them down from `top`. -/
def rangeDown (top : Int) (count : UInt32) : List UInt32 :=
  (List.range count.toNat).map fun i : Nat => UInt32.ofInt (top - i)

/-- The sequences of the additional ranges, below `current`. -/
def rangesDown : Int → List AckRange → List UInt32
  | _, [] => []
  | current, r :: rest =>
    let rangeEnd := current - r.gap.toNat
    rangeDown rangeEnd r.ackRangeLength ++
      rangesDown (rangeEnd - r.ackRangeLength.toNat) rest

/-- Every sequence the frame acknowledges, in the order the reader visits them. -/
def AckFrame.sequences (frame : AckFrame) : List UInt32 :=
  (List.range frame.firstAckRangeLength.toNat).map
      (fun i => frame.largestAcked - UInt32.ofNat i) ++
    rangesDown (frame.largestAcked.toNat - frame.firstAckRangeLength.toNat) frame.ackRanges

namespace PacketManager

def nextSequence (pm : PacketManager) : PacketManager × UInt32 :=
  ({ pm with nextSeq := pm.nextSeq + 1 }, UInt32.ofNat pm.nextSeq)

def new (pm : PacketManager) (pkt : SentPacket) : PacketManager × Ptr :=
  ({ pm with heap := Function.update pm.heap pm.nextPtr pkt, nextPtr := pm.nextPtr + 1 },
    pm.nextPtr)

def modify (pm : PacketManager) (p : Ptr) (f : SentPacket → SentPacket) : PacketManager :=
  { pm with heap := Function.update pm.heap p (f (pm.heap p)) }

def sendPacket (pm : PacketManager) (now : Time) (p : Ptr) : PacketManager :=
  let pm := pm.modify p fun pkt =>
    { pkt with sentTime := now, firstSentTime := pkt.firstSentTime <|> some now }
  let seq := (pm.heap p).sequence
  { pm with lastSentSeq := seq.toNat, sentPackets := pm.sentPackets.insert seq p }

def take (acc : PacketManager × List Ptr) (seq : UInt32) : PacketManager × List Ptr :=
  match acc.1.sentPackets.lookup seq with
  | none => acc
  | some p =>
    ({ acc.1.modify p fun pkt => { pkt with isAcked := true } with
        sentPackets := acc.1.sentPackets.erase seq }, acc.2 ++ [p])

/-- Processes an ACK and returns the packets it newly acknowledged. -/
def handleAckFrame (pm : PacketManager) (now : Time) (frame : AckFrame) :
    PacketManager × List Ptr :=
  let (pm, acked) := frame.sequences.foldl take (pm, [])
  if acked.length > 0 then
    ({ pm with
        ackBeforeLoss := pm.lastAckTime
        lastAckTime := some now
        largestAcked := if (frame.largestAcked.toNat : Int) > pm.largestAcked
          then frame.largestAcked.toNat else pm.largestAcked }, acked)
  else (pm, acked)

theorem handleAckFrame_sentPackets (pm : PacketManager) (now : Time) (frame : AckFrame) :
    (pm.handleAckFrame now frame).1.sentPackets =
      (frame.sequences.foldl take (pm, [])).1.sentPackets := by
  unfold handleAckFrame
  dsimp only
  split <;> rfl

theorem handleAckFrame_heap (pm : PacketManager) (now : Time) (frame : AckFrame) :
    (pm.handleAckFrame now frame).1.heap = (frame.sequences.foldl take (pm, [])).1.heap := by
  unfold handleAckFrame
  dsimp only
  split <;> rfl

theorem handleAckFrame_acked (pm : PacketManager) (now : Time) (frame : AckFrame) :
    (pm.handleAckFrame now frame).2 = (frame.sequences.foldl take (pm, [])).2 := by
  unfold handleAckFrame
  dsimp only
  split <;> rfl

/-- One outstanding packet's part in loss detection: lost, or waiting to become
old enough. -/
def lossScan (pm : PacketManager) (now : Time) (delay : Int)
    (acc : List Ptr × Option Time) (entry : (_ : UInt32) × Ptr) : List Ptr × Option Time :=
  if (entry.1.toNat : Int) > pm.largestAcked then acc
  else
    let behind := pm.largestAcked - entry.1.toNat
    let due := (pm.heap entry.2).sentTime + delay
    if behind ≥ lossReorderThreshold ∨ ¬ now < due then (acc.1 ++ [entry.2], acc.2)
    else
      match acc.2 with
      | none => (acc.1, some due)
      | some nextLoss => (acc.1, if due < nextLoss then some due else some nextLoss)

def forget (pm : PacketManager) (p : Ptr) : PacketManager :=
  { pm with sentPackets := pm.sentPackets.erase (pm.heap p).sequence }

def sortBySequence (pm : PacketManager) (ps : List Ptr) : List Ptr :=
  ps.insertionSort fun p q => (pm.heap p).sequence ≤ (pm.heap q).sequence

/-- Declares lost what is far enough behind the largest acknowledged or old
enough, and arms the loss timer for the oldest of what is not. -/
def detectLostLocked (pm : PacketManager) (now : Time) (delay : Int) :
    PacketManager × List Ptr :=
  if pm.largestAcked < 0 then ({ pm with lossTimer := none }, [])
  else
    let (lost, nextLoss) := pm.sentPackets.entries.foldl (pm.lossScan now delay) ([], none)
    let pm := lost.foldl forget { pm with lossTimer := none }
    let lossTimer := nextLoss.map fun due => now + max (due - now) lossTimerGranularity
    ({ pm with lossTimer := lossTimer }, pm.sortBySequence lost)

/-- The loss timer's run of loss detection. -/
def onLossTimer (pm : PacketManager) (now : Time) (delay : Int) : PacketManager × List Ptr :=
  { pm with ackBeforeLoss := pm.lastAckTime }.detectLostLocked now delay

/-- Whether the table holds this very packet under its number. -/
def tracks (pm : PacketManager) (p : Ptr) : Bool :=
  pm.sentPackets.lookup (pm.heap p).sequence = some p

/-- Gives a packet a fresh number and tracks it there, unless it was
acknowledged or is a probe. -/
def resend (pm : PacketManager) (now : Time) (p : Ptr) : PacketManager × Option UInt32 :=
  if (pm.heap p).isAcked ∨ (pm.heap p).probe then (pm, none)
  else
    let pm := if pm.tracks p then pm.forget p else pm
    let newSeq := UInt32.ofNat pm.nextSeq
    let pm := pm.modify p fun pkt =>
      { pkt with
        sequence := newSeq, retransmitCount := pkt.retransmitCount + 1, sentTime := now
        firstSentTime := pkt.firstSentTime <|> some now }
    ({ pm with
        nextSeq := pm.nextSeq + 1
        lastSentSeq := newSeq.toNat
        sentPackets := pm.sentPackets.insert newSeq p }, some newSeq)

/-- Up to `n` outstanding packets that are not probes, lowest sequence first. -/
def oldestUnacked (pm : PacketManager) (n : Nat) : List Ptr :=
  (pm.sortBySequence ((pm.sentPackets.entries.map Sigma.snd).filter
    fun p => !(pm.heap p).probe)).take n

/-- Forgets a tracked packet that is being replaced by others. -/
def drop (pm : PacketManager) (p : Ptr) : PacketManager :=
  if pm.tracks p then pm.forget p else pm

/-- Stops the loss timer and forgets every packet. -/
def destroy (pm : PacketManager) : PacketManager :=
  { pm with lossTimer := none, sentPackets := ∅ }

section Take

variable (acc : PacketManager × List Ptr) (seqs : List UInt32)

theorem lookup_take (seq s : UInt32) :
    (take acc seq).1.sentPackets.lookup s =
      if s = seq then none else acc.1.sentPackets.lookup s := by
  unfold take
  split <;> rename_i found
  · split
    · rename_i same
      rw [same, found]
    · rfl
  · split
    · rename_i same
      rw [same]
      exact AList.lookup_erase seq _
    · rename_i other
      exact AList.lookup_erase_ne other

theorem mem_take (seq : UInt32) (p : Ptr) :
    p ∈ (take acc seq).2 ↔ p ∈ acc.2 ∨ acc.1.sentPackets.lookup seq = some p := by
  unfold take
  split <;> rename_i found
  · simp [found]
  · simp [found, eq_comm]

theorem isAcked_take (seq : UInt32) (p : Ptr) :
    ((take acc seq).1.heap p).isAcked = true ↔
      (acc.1.heap p).isAcked = true ∨ acc.1.sentPackets.lookup seq = some p := by
  unfold take
  split <;> rename_i found
  · simp [found]
  · rename_i q
    by_cases same : p = q
    · simp [modify, same, found]
    · simp [modify, same, found, Ne.symm same]

theorem lookup_foldl_take (s : UInt32) :
    (seqs.foldl take acc).1.sentPackets.lookup s =
      if s ∈ seqs then none else acc.1.sentPackets.lookup s := by
  induction seqs generalizing acc with
  | nil => simp
  | cons seq rest ih =>
    rw [List.foldl_cons, ih, lookup_take]
    by_cases later : s ∈ rest <;> by_cases same : s = seq <;> simp [later, same]

theorem taken_cons (seq : UInt32) (p : Ptr) :
    (acc.1.sentPackets.lookup seq = some p ∨
        ∃ s ∈ seqs, (take acc seq).1.sentPackets.lookup s = some p) ↔
      ∃ s ∈ seq :: seqs, acc.1.sentPackets.lookup s = some p := by
  simp only [List.mem_cons, exists_eq_or_imp, lookup_take]
  by_cases found : acc.1.sentPackets.lookup seq = some p
  · simp [found]
  · refine or_congr_right (exists_congr fun s => and_congr_right fun _ => ?_)
    split
    · rename_i same
      rw [same]
      exact iff_of_false (by simp) found
    · rfl

theorem mem_foldl_take (p : Ptr) :
    p ∈ (seqs.foldl take acc).2 ↔
      p ∈ acc.2 ∨ ∃ s ∈ seqs, acc.1.sentPackets.lookup s = some p := by
  induction seqs generalizing acc with
  | nil => simp
  | cons seq rest ih => rw [List.foldl_cons, ih, mem_take, or_assoc, taken_cons]

theorem isAcked_foldl_take (p : Ptr) :
    ((seqs.foldl take acc).1.heap p).isAcked = true ↔
      (acc.1.heap p).isAcked = true ∨ ∃ s ∈ seqs, acc.1.sentPackets.lookup s = some p := by
  induction seqs generalizing acc with
  | nil => simp
  | cons seq rest ih => rw [List.foldl_cons, ih, isAcked_take, or_assoc, taken_cons]

end Take

/-- Numbers are only ever allocated, and the last one sent is one of them. -/
structure Numbers (a b : PacketManager) : Prop where
  next : a.nextSeq ≤ b.nextSeq
  last : a.lastSentSeq < a.nextSeq → b.lastSentSeq < b.nextSeq

namespace Numbers

variable {a b c : PacketManager}

theorem same (next : b.nextSeq = a.nextSeq) (last : b.lastSentSeq = a.lastSentSeq) :
    Numbers a b :=
  ⟨next.ge, fun below => by rw [next, last]; exact below⟩

theorem refl : Numbers a a := same rfl rfl

theorem trans (first : Numbers a b) (second : Numbers b c) : Numbers a c :=
  ⟨Nat.le_trans first.next second.next, fun below => second.last (first.last below)⟩

theorem send (next : b.nextSeq = a.nextSeq + 1)
    (last : b.lastSentSeq = (UInt32.ofNat a.nextSeq).toNat) : Numbers a b := by
  refine ⟨Nat.le_trans (Nat.le_succ _) next.ge, fun _ => ?_⟩
  have below : (UInt32.ofNat a.nextSeq).toNat ≤ a.nextSeq := Nat.mod_le _ _
  omega

theorem forgets (ps : List Ptr) : Numbers a (ps.foldl forget a) := by
  induction ps generalizing a with
  | nil => exact refl
  | cons p rest ih =>
    have first : Numbers a (a.forget p) := same rfl rfl
    exact first.trans ih

theorem drop (p : Ptr) : Numbers a (a.drop p) := by
  unfold PacketManager.drop
  split
  · exact same rfl rfl
  · exact refl

theorem resend (now : Time) (p : Ptr) : Numbers a (a.resend now p).1 := by
  unfold PacketManager.resend
  split
  · exact refl
  · exact (drop p).trans (send rfl rfl)

theorem detectLostLocked (now : Time) (delay : Int) :
    Numbers a (a.detectLostLocked now delay).1 := by
  unfold PacketManager.detectLostLocked
  split
  · exact same rfl rfl
  · have quiet : Numbers a { a with lossTimer := none } := same rfl rfl
    exact (quiet.trans (forgets _)).trans (same rfl rfl)

theorem take (acc : PacketManager × List Ptr) (seq : UInt32) :
    Numbers acc.1 (PacketManager.take acc seq).1 := by
  unfold PacketManager.take
  split
  · exact refl
  · exact same rfl rfl

theorem handleAckFrame (now : Time) (frame : AckFrame) :
    Numbers a (a.handleAckFrame now frame).1 := by
  have taken (seqs : List UInt32) (acc : PacketManager × List Ptr) :
      Numbers acc.1 (seqs.foldl PacketManager.take acc).1 := by
    induction seqs generalizing acc with
    | nil => exact refl
    | cons seq rest ih => exact (take acc seq).trans (ih _)
  have all := taken frame.sequences (a, [])
  unfold PacketManager.handleAckFrame
  dsimp only
  split
  · exact all.trans (same rfl rfl)
  · exact all

end Numbers

/-- The entry is in the table, for the packet as it is in `pkt`. -/
def TracksAs (pm : PacketManager) (e : (_ : UInt32) × Ptr) (pkt : SentPacket) : Prop :=
  e ∈ pm.sentPackets.entries ∧ pkt.toCargo = (pm.heap e.2).toCargo ∧
    pkt.sequence = (pm.heap e.2).sequence

/-- A fresh packet takes a number and is tracked; the others stay as they are. -/
theorem tracksAs_track {pm : PacketManager} {now : Time} {pkt : SentPacket}
    {e : (_ : UInt32) × Ptr} (other : e.2 ≠ pm.nextPtr)
    (member : e ∈ (({ pm with nextSeq := pm.nextSeq + 1 }.new pkt).1.sendPacket now
      pm.nextPtr).sentPackets.entries) :
    pm.TracksAs e ((({ pm with nextSeq := pm.nextSeq + 1 }.new pkt).1.sendPacket now
      pm.nextPtr).heap e.2) := by
  have same : (({ pm with nextSeq := pm.nextSeq + 1 }.new pkt).1.sendPacket now
      pm.nextPtr).heap e.2 = pm.heap e.2 := by
    simp [PacketManager.new, PacketManager.sendPacket, modify, other]
  rcases Tables.mem_of_mem_insert member with rfl | old
  · exact absurd rfl other
  · exact ⟨old, by rw [same], by rw [same]⟩

/-- Every path-MTU probe that `b` tracks was tracked by `a`. -/
def OldProbes (a b : PacketManager) : Prop :=
  ∀ e ∈ b.sentPackets.entries, (b.heap e.2).probe = true → a.TracksAs e (b.heap e.2)

namespace OldProbes

variable {a b c : PacketManager}

theorem refl : OldProbes a a := fun _ member _ => ⟨member, rfl, rfl⟩

theorem trans (first : OldProbes a b) (second : OldProbes b c) : OldProbes a c := by
  intro e member probe
  obtain ⟨old, cargo, sequence⟩ := second e member probe
  obtain ⟨older, cargo', sequence'⟩ := first e old (cargo ▸ probe)
  exact ⟨older, cargo.trans cargo', sequence.trans sequence'⟩

theorem fewer (table : b.sentPackets.entries ⊆ a.sentPackets.entries) (heap : b.heap = a.heap) :
    OldProbes a b :=
  fun _ member _ => ⟨table member, by rw [heap], by rw [heap]⟩

theorem forget (p : Ptr) : OldProbes a (a.forget p) :=
  fewer (List.kerase_sublist _ _).subset rfl

theorem forgets (ps : List Ptr) : OldProbes a (ps.foldl PacketManager.forget a) := by
  induction ps generalizing a with
  | nil => exact refl
  | cons p rest ih => exact (forget p).trans ih

theorem drop (p : Ptr) : OldProbes a (a.drop p) := by
  unfold PacketManager.drop
  split
  · exact forget p
  · exact refl

theorem write (p : Ptr) (data : (b.heap p).probe = false)
    (table : ∀ e ∈ b.sentPackets.entries, e.2 ≠ p → e ∈ a.sentPackets.entries)
    (heap : ∀ q, q ≠ p → b.heap q = a.heap q) : OldProbes a b := by
  intro e member probe
  have other : e.2 ≠ p := by
    intro same
    rw [same, data] at probe
    cases probe
  exact ⟨table e member other, by rw [heap e.2 other], by rw [heap e.2 other]⟩

theorem new {pkt : SentPacket} (data : pkt.probe = false) : OldProbes a (a.new pkt).1 :=
  write a.nextPtr (by simpa [PacketManager.new] using data) (fun _ member _ => member)
    fun q other => by simp [PacketManager.new, other]

theorem track {now : Time} {pkt : SentPacket} (data : pkt.probe = false) :
    OldProbes a (({ a with nextSeq := a.nextSeq + 1 }.new pkt).1.sendPacket now a.nextPtr) := by
  intro e member probe
  refine tracksAs_track (fun same => ?_) member
  rw [same] at probe
  simp [PacketManager.new, PacketManager.sendPacket, modify, data] at probe

theorem resend (now : Time) (p : Ptr) : OldProbes a (a.resend now p).1 := by
  unfold PacketManager.resend
  split
  · exact refl
  · rename_i refused
    rw [not_or] at refused
    refine (drop p).trans (write p ?_ (fun e member other => ?_) fun q other => ?_)
    · have data : (a.heap p).probe = false := by simpa using refused.2
      dsimp only
      split <;> simpa [modify, PacketManager.forget] using data
    · rcases Tables.mem_of_mem_insert member with rfl | old
      · exact absurd rfl other
      · exact old
    · simp [modify, other, PacketManager.drop]

theorem detectLostLocked (now : Time) (delay : Int) :
    OldProbes a (a.detectLostLocked now delay).1 := by
  have disarmed (lossTimer : Option Time) : OldProbes a { a with lossTimer := lossTimer } :=
    fewer (List.Subset.refl _) rfl
  unfold PacketManager.detectLostLocked
  split
  · exact disarmed none
  · exact ((disarmed none).trans (forgets _)).trans (fewer (List.Subset.refl _) rfl)

theorem take (acc : PacketManager × List Ptr) (seq : UInt32) :
    OldProbes acc.1 (PacketManager.take acc seq).1 := by
  unfold PacketManager.take
  split
  · exact refl
  · rename_i p found
    have same (q : Ptr) : (Function.update acc.1.heap p
        { acc.1.heap p with isAcked := true } q).toCargo = (acc.1.heap q).toCargo ∧
        (Function.update acc.1.heap p
          { acc.1.heap p with isAcked := true } q).sequence = (acc.1.heap q).sequence := by
      by_cases here : q = p
      · rw [here, Function.update_self]
        exact ⟨rfl, rfl⟩
      · rw [Function.update_of_ne here]
        exact ⟨rfl, rfl⟩
    exact fun e member _ => ⟨(List.kerase_sublist _ _).subset member, same e.2⟩

theorem foldl_take (acc : PacketManager × List Ptr) (seqs : List UInt32) :
    OldProbes acc.1 (seqs.foldl PacketManager.take acc).1 := by
  induction seqs generalizing acc with
  | nil => exact refl
  | cons seq rest ih => exact (take acc seq).trans (ih _)

theorem handleAckFrame (now : Time) (frame : AckFrame) :
    OldProbes a (a.handleAckFrame now frame).1 := by
  have taken := foldl_take (a, []) frame.sequences
  unfold PacketManager.handleAckFrame
  dsimp only
  split
  · exact taken.trans (fewer (List.Subset.refl _) rfl)
  · exact taken

end OldProbes

end PacketManager

/-- How long a packet must have been outstanding before age alone marks it
lost. -/
def lossDelay (smoothedRtt latestRtt : Int) : Int :=
  let rtt := if latestRtt > smoothedRtt then latestRtt else smoothedRtt
  max ((rtt * lossTimeThresholdNumerator).tdiv lossTimeThresholdDenominator) lossTimerGranularity

end Udx
