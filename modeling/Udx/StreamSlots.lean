import Udx.StreamSteps

set_option autoImplicit false

/- The slots of the stream table. A stream that has finished keeps its slot, so the
count is that of the active streams as long as no step finishes or resets one. -/

namespace Udx

namespace Stream

def Active (s : Stream) : Prop := s.state ≠ .closed ∧ s.state ≠ .reset

instance (s : Stream) : Decidable s.Active := inferInstanceAs (Decidable (_ ∧ _))

/-- The frame's data comes early, was not there yet, and is more than the
out-of-order buffer has room for. -/
def Overflows (s : Stream) (f : StreamFrame) : Prop :=
  0 < f.data.length ∧ s.recvOffset < (f.offset.toNat + f.data.length) % 2 ^ 64 ∧
    s.recvOffset < f.offset.toNat ∧ f.offset.toNat ∉ s.recvOOO ∧
    maxStreamRecvOOO < s.oooBytes + f.data.length

/-- With the frame's data in place the delivered bytes reach the end of the stream,
which this frame gives or an earlier one gave. -/
def Completes (s : Stream) (f : StreamFrame) : Prop :=
  let out := s.placeLocked f.offset.toNat f.data
  s.finReceived = false ∧
    (f.isFin = true ∧ (f.offset.toNat + f.data.length) % 2 ^ 64 ≤ out.1.recvOffset ∨
      s.finSeen = true ∧ 0 < out.2 ∧ s.finalSize ≤ out.1.recvOffset)

/-- The frame neither breaks the stream's limits nor completes the peer's side of
one that is closed on this side. -/
def StaysUp (s : Stream) (f : StreamFrame) : Prop :=
  ¬ s.Overflows f ∧ (s.state = .halfClosedLocal → ¬ s.Completes f)

instance (s : Stream) (f : StreamFrame) : Decidable (s.Overflows f) :=
  inferInstanceAs (Decidable (_ ∧ _))

instance (s : Stream) (f : StreamFrame) : Decidable (s.Completes f) :=
  inferInstanceAs (Decidable (_ ∧ (_ ∨ _)))

instance (s : Stream) (f : StreamFrame) : Decidable (s.StaysUp f) :=
  inferInstanceAs (Decidable (_ ∧ (_ → _)))

variable {s : Stream} {f : StreamFrame}

theorem violation_placeLocked_iff {offset : Nat} {data : List UInt8}
    (lawful : s.flowControlViolation = false) :
    (s.placeLocked offset data).1.flowControlViolation = true ↔
      s.recvOffset < (offset + data.length) % 2 ^ 64 ∧ s.recvOffset < offset ∧
        offset ∉ s.recvOOO ∧ maxStreamRecvOOO < s.oooBytes + data.length := by
  have placed := s.placed_placeLocked offset data
  generalize s.placeLocked offset data = out at placed ⊢
  have fair : s.flowControlViolation ≠ true := by rw [lawful]; exact Bool.false_ne_true
  cases placed with
  | known behind => exact iff_of_false fair fun excess => absurd behind (Nat.not_le.mpr excess.1)
  | held ahead present => exact iff_of_false fair fun excess => excess.2.2.1 present
  | excess beyond ahead absent over' => exact iff_of_true rfl ⟨beyond, ahead, absent, over'⟩
  | early beyond ahead absent room =>
    exact iff_of_false fair fun excess => absurd excess.2.2.2 (Int.not_lt.mpr room)
  | next beyond begun =>
    refine iff_of_false ?_ fun excess => absurd excess.2.1 (Nat.not_lt.mpr begun)
    dsimp only
    rwa [violation_release]

theorem placeLocked_nil (offset : Nat) :
    (s.placeLocked offset []).1.recvOffset = s.recvOffset ∧ (s.placeLocked offset []).2 = 0 := by
  have placed := s.placed_placeLocked offset []
  generalize s.placeLocked offset [] = out at placed ⊢
  cases placed with
  | known | held | excess | early => exact ⟨rfl, rfl⟩
  | next beyond begun =>
    have := Nat.mod_le (offset + ([] : List UInt8).length) (2 ^ 64)
    exact absurd beyond (Nat.not_lt.mpr (this.trans begun))

def Finishing (s : Stream) : Prop :=
  s.finSeen = true ∧ s.finReceived = false ∧ s.finalSize ≤ s.recvOffset

theorem finishLocked_of_finishing (finishing : s.Finishing) :
    s.finishLocked = { s with
      finReceived := true
      state := if s.state = .halfClosedLocal then .closed else .halfClosedRemote } := by
  obtain ⟨seen, unfinished, reached⟩ := finishing
  exact if_neg (by simp [seen, unfinished, reached])

theorem finishLocked_of_not_finishing (runs : ¬ s.Finishing) : s.finishLocked = s := by
  refine if_pos ?_
  by_contra ends
  refine runs ?_
  simpa [Finishing, and_assoc] using ends

theorem active_finishLocked (active : s.Active) :
    s.finishLocked.Active ↔ (s.state = .halfClosedLocal → ¬ s.Finishing) := by
  by_cases ends : s.Finishing
  · rw [finishLocked_of_finishing ends]
    by_cases half : s.state = .halfClosedLocal
    · exact iff_of_false (fun active => active.1 (if_pos half)) fun runs => runs half ends
    · refine iff_of_true ?_ fun same => absurd same half
      simp [Active, half]
  · rw [finishLocked_of_not_finishing ends]
    exact iff_of_true active fun _ => ends

theorem recvOffset_placeLocked_early {offset : Nat} (ahead : s.recvOffset < offset)
    (data : List UInt8) : (s.placeLocked offset data).1.recvOffset = s.recvOffset := by
  have placed := s.placed_placeLocked offset data
  generalize s.placeLocked offset data = out at placed ⊢
  cases placed with
  | known | held | excess | early => rfl
  | next _ begun => exact absurd ahead (Nat.not_lt.mpr begun)

/-- The stream with the frame's data in place, before its FIN is looked at. -/
def fed (s : Stream) (f : StreamFrame) : Stream :=
  if 0 < f.data.length then (s.deliverData f.offset.toNat f.data).1 else s

theorem receive_fed :
    (s.receive f).1 =
      if f.isFin then (s.fed f).deliverFin ((f.offset.toNat + f.data.length) % 2 ^ 64)
      else s.fed f := by
  unfold receive fed
  by_cases some' : 0 < f.data.length
  · simp only [some', ↓reduceIte]
  · simp only [some', ↓reduceIte]

/-- Data that overflows resets the stream, short of the frame's end. -/
theorem fed_of_overflows (active : s.Active) (lawful : s.flowControlViolation = false)
    (overflows : s.Overflows f) :
    (s.fed f).state = .reset ∧
      (s.fed f).recvOffset < (f.offset.toNat + f.data.length) % 2 ^ 64 := by
  obtain ⟨some', beyond, ahead, excess⟩ := overflows
  have broken := (violation_placeLocked_iff lawful).mpr ⟨beyond, ahead, excess⟩
  have reach := recvOffset_placeLocked_early ahead f.data
  obtain ⟨_, _, _, _, _, same⟩ := s.sameButBuffers_placeLocked f.offset.toNat f.data
  have state := congrArg Stream.state same
  rw [fed, if_pos some', deliverData]
  dsimp only
  rw [if_pos broken, reset, if_neg (by rw [state]; exact not_or.mpr active)]
  exact ⟨rfl, by dsimp only; omega⟩

/-- Other data is put in its place, which may end the peer's side. -/
theorem fed_of_not_overflows (lawful : s.flowControlViolation = false)
    (fits : ¬ s.Overflows f) :
    (s.fed f).flowControlViolation = false ∧
      (s.fed f).recvOffset = (s.placeLocked f.offset.toNat f.data).1.recvOffset ∧
      ((s.fed f).state, (s.fed f).finReceived) =
        if 0 < (s.placeLocked f.offset.toNat f.data).2 ∧ s.finSeen = true ∧
            s.finReceived = false ∧
            s.finalSize ≤ (s.placeLocked f.offset.toNat f.data).1.recvOffset then
          (if s.state = .halfClosedLocal then .closed else .halfClosedRemote, true)
        else (s.state, s.finReceived) := by
  by_cases some' : 0 < f.data.length
  · have legal : (s.placeLocked f.offset.toNat f.data).1.flowControlViolation = false := by
      rw [Bool.eq_false_iff]
      exact fun broken => fits ⟨some', (violation_placeLocked_iff lawful).mp broken⟩
    rw [fed, if_pos some', deliverData]
    obtain ⟨_, _, _, _, _, same⟩ := s.sameButBuffers_placeLocked f.offset.toNat f.data
    generalize s.placeLocked f.offset.toNat f.data = out at same legal ⊢
    obtain ⟨placed, accepted⟩ := out
    dsimp only at same legal
    subst same
    dsimp only at legal ⊢
    rw [if_neg (by simp [legal])]
    by_cases counts : 0 < accepted
    · rw [if_pos counts]
      dsimp only
      generalize placed : ({ s with
        recvBuf := _, recvOOO := _, recvOffset := _, oooBytes := _, flowControlViolation := _
        streamFC := _ } : Stream) = t
      have finishing : t.Finishing ↔ s.finSeen = true ∧ s.finReceived = false ∧
          s.finalSize ≤ t.recvOffset := by
        rw [← placed]
        rfl
      by_cases ends : t.Finishing
      · rw [finishLocked_of_finishing ends]
        subst placed
        exact ⟨legal, rfl, (if_pos ⟨counts, finishing.mp ends⟩).symm⟩
      · rw [finishLocked_of_not_finishing ends]
        subst placed
        exact ⟨legal, rfl, (if_neg fun all => ends (finishing.mpr all.2)).symm⟩
    · rw [if_neg counts]
      exact ⟨legal, rfl, (if_neg fun all => counts all.1).symm⟩
  · have none : f.data = [] := List.length_eq_zero_iff.mp (by omega)
    obtain ⟨reach, accepted⟩ := s.placeLocked_nil f.offset.toNat
    rw [fed, if_neg some', none, reach, accepted]
    exact ⟨lawful, rfl, (if_neg fun all => absurd all.1 (Nat.lt_irrefl 0)).symm⟩

theorem violation_receive : (s.receive f).1.flowControlViolation = (s.fed f).flowControlViolation := by
  rw [receive_fed]
  split
  · unfold deliverFin finishLocked
    split <;> rfl
  · rfl

/-- A frame keeps an active stream active exactly if it spares it. -/
theorem active_receive (active : s.Active) (lawful : s.flowControlViolation = false) :
    (s.receive f).1.Active ↔ s.StaysUp f := by
  rw [receive_fed]
  by_cases overflows : s.Overflows f
  · obtain ⟨state, short⟩ := fed_of_overflows active lawful overflows
    refine iff_of_false (fun active => active.2 ?_) fun spared => spared.1 overflows
    split
    · have runs : ¬ ({ s.fed f with
          finSeen := true
          finalSize := (f.offset.toNat + f.data.length) % 2 ^ 64 } : Stream).Finishing :=
        fun finishing => absurd finishing.2.2 (Nat.not_le.mpr short)
      rw [deliverFin, finishLocked_of_not_finishing runs]
      exact state
    · exact state
  · obtain ⟨-, reach, both⟩ := fed_of_not_overflows lawful overflows
    rw [StaysUp, and_iff_right overflows, Completes]
    rw [← reach] at both ⊢
    split at both
    · -- the data itself ends the peer's side, and a FIN finds it ended
      rename_i first
      obtain ⟨state, fin⟩ := Prod.mk.inj both
      obtain ⟨accepted, seen, unfinished, whole⟩ := first
      have same : (if f.isFin then (s.fed f).deliverFin ((f.offset.toNat + f.data.length) % 2 ^ 64)
          else s.fed f).state = (s.fed f).state := by
        split
        · rw [deliverFin, finishLocked_of_not_finishing]
          exact fun finishing => Bool.false_ne_true (finishing.2.1.symm.trans fin)
        · rfl
      rw [Active, same, state]
      by_cases half : s.state = .halfClosedLocal
      · simp [half, unfinished, seen, accepted, whole]
      · simp [half]
    · rename_i first
      obtain ⟨state, fin⟩ := Prod.mk.inj both
      have quiet : ¬ (s.finReceived = false ∧ s.finSeen = true ∧
          0 < (s.placeLocked f.offset.toNat f.data).2 ∧ s.finalSize ≤ (s.fed f).recvOffset) :=
        fun all => first ⟨all.2.2.1, all.2.1, all.1, all.2.2.2⟩
      have active : (s.fed f).Active := by rwa [Active, state]
      split
      · rename_i isFin
        have ending : ({ s.fed f with
          finSeen := true
          finalSize := (f.offset.toNat + f.data.length) % 2 ^ 64 } : Stream).Active := active
        refine (active_finishLocked ending).trans ?_
        simp only [Finishing, state, fin, isFin, true_and]
        constructor
        · rintro runs half ⟨unfinished, whole | rest⟩
          · exact runs half ⟨unfinished, whole⟩
          · exact quiet ⟨unfinished, rest⟩
        · exact fun runs half ends => runs half ⟨ends.1, .inl ends.2⟩
      · rename_i isFin
        refine iff_of_true active fun _ completes => ?_
        rcases completes with ⟨unfinished, ⟨ends, -⟩ | all⟩
        · exact isFin ends
        · exact quiet ⟨unfinished, all⟩

theorem lawful_receive (active : s.Active) (lawful : s.flowControlViolation = false)
    (still : (s.receive f).1.Active) : (s.receive f).1.flowControlViolation = false := by
  rw [violation_receive]
  exact (fed_of_not_overflows lawful ((active_receive active lawful).mp still).1).1

end Stream

namespace Connection

variable {F : Type} {c d : Connection F}

def streamCount (c : Connection F) : Nat := c.streams.entries.length

def activeStreams (c : Connection F) : Nat := c.streams.entries.countP fun e => e.2.Active

/-- On an open connection `openStream` refuses just where the table is full. -/
theorem openStream_refuses_iff (opened : c.state ≠ .closed ∧ c.state ≠ .closing) :
    c.openStream.2 = none ↔ c.maxStreams ≤ c.streamCount := by
  unfold openStream
  rw [if_neg (not_or.mpr opened)]
  split
  · rename_i full
    exact ⟨fun _ => full, fun _ => rfl⟩
  · rename_i room
    exact ⟨nofun, fun full => absurd full room⟩

/-- The count is that of the active streams, and an open connection has no room for
another stream only where as many as it may have are active. -/
def CountsActive (c : Connection F) : Prop :=
  c.streamCount = c.activeStreams ∧
    (c.state ≠ .closed ∧ c.state ≠ .closing → c.openStream.2 = none →
      c.maxStreams ≤ c.activeStreams)

theorem countsActive_iff :
    c.CountsActive ↔ ∀ e ∈ c.streams.entries, e.2.Active := by
  constructor
  · rintro ⟨count, -⟩ e member
    exact of_decide_eq_true (List.countP_eq_length.mp count.symm e member)
  · intro active
    have count : c.streamCount = c.activeStreams :=
      (List.countP_eq_length.mpr fun e member => decide_eq_true (active e member)).symm
    refine ⟨count, fun opened refused => ?_⟩
    rw [← count]
    exact (openStream_refuses_iff opened).mp refused

/-- Every stream is active, and none has broken a limit. -/
def AllActive (c : Connection F) : Prop :=
  ∀ e ∈ c.streams.entries, e.2.Active ∧ e.2.flowControlViolation = false

theorem AllActive.countsActive (all : c.AllActive) : c.CountsActive :=
  countsActive_iff.mpr fun e member => (all e member).1

theorem AllActive.of_lookup (all : c.AllActive) {id : UInt32} {s : Stream}
    (found : c.streams.lookup id = some s) : s.Active ∧ s.flowControlViolation = false :=
  all _ (Tables.mem_entries_iff.mpr found)

theorem AllActive.congr (all : c.AllActive) (same : d.streams = c.streams) : d.AllActive := by
  rw [AllActive, same]
  exact all

theorem AllActive.insert (all : c.AllActive) {t : Stream}
    (table : d.streams = c.streams.insert t.id t)
    (lawful : t.Active → t.flowControlViolation = false) :
    (d.AllActive ↔ t.Active) ∧ (d.CountsActive ↔ t.Active) := by
  have entries : d.streams.entries = ⟨t.id, t⟩ :: (c.streams.erase t.id).entries := by
    rw [table]
    exact AList.entries_insert
  have others : ∀ e ∈ (c.streams.erase t.id).entries, e.2.Active ∧
    e.2.flowControlViolation = false :=
    fun e member => all e ((List.kerase_sublist _ _).subset member)
  rw [countsActive_iff, AllActive, entries]
  refine ⟨⟨fun all => (all _ List.mem_cons_self).1, fun active => ?_⟩,
    ⟨fun all => all _ List.mem_cons_self, fun active => ?_⟩⟩
  · exact List.forall_mem_cons.mpr ⟨⟨active, lawful active⟩, others⟩
  · exact List.forall_mem_cons.mpr ⟨active, fun e member => (others e member).1⟩

section

variable (keyed : c.Keyed) (all : c.AllActive)
include keyed all

theorem AllActive.closeInternal (now : Time) (code : UInt32) (reason : List UInt8)
    (announce : Bool) :
    ((c.closeInternal now code reason announce).AllActive ↔
        c.state = .closed ∨ c.streams.entries = []) ∧
      ((c.closeInternal now code reason announce).CountsActive ↔
        c.state = .closed ∨ c.streams.entries = []) := by
  by_cases closed : c.state = .closed
  · rw [closeInternal_eq, if_pos closed]
    exact ⟨iff_of_true all (.inl closed), iff_of_true all.countsActive (.inl closed)⟩
  by_cases empty : c.streams.entries = []
  · have none : (c.closeInternal now code reason announce).streams.entries = [] := by
      rw [← List.length_eq_zero_iff, (restocks_closeInternal keyed now code reason announce).length,
        empty]
      rfl
    have kept : (c.closeInternal now code reason announce).AllActive := fun e member =>
      absurd member (by rw [none]; exact List.not_mem_nil)
    exact ⟨iff_of_true kept (.inr empty), iff_of_true kept.countsActive (.inr empty)⟩
  · obtain ⟨e, member⟩ := List.exists_mem_of_ne_nil _ empty
    have found := lookup_closeInternal keyed closed (Tables.lookup_of_mem e member) now code reason
      announce
    have last : ¬ (c.closeInternal now code reason announce).CountsActive := fun counts =>
      (countsActive_iff.mp counts _ (Tables.mem_entries_iff.mpr found)).2 rfl
    have neither := not_or.mpr ⟨closed, empty⟩
    exact ⟨iff_of_false (fun kept => last kept.countsActive) neither, iff_of_false last neither⟩

theorem AllActive.onStream (now : Time) (pkt : Packet) {op : Stream → Stream × List Frame}
    {kept : Prop}
    (found : ∀ s, c.findStream pkt.destinationStreamID pkt.sourceStreamID = some s → s.Active →
      s.flowControlViolation = false →
        ((op s).1.Active ↔ kept) ∧ (op s).1.flowControlViolation = false)
    (missing : c.findStream pkt.destinationStreamID pkt.sourceStreamID = none → kept) :
    ((c.onStream now pkt op).AllActive ↔ kept) ∧ ((c.onStream now pkt op).CountsActive ↔ kept) := by
  unfold Connection.onStream
  cases here : c.findStream pkt.destinationStreamID pkt.sourceStreamID with
  | none => exact ⟨iff_of_true all (missing here), iff_of_true all.countsActive (missing here)⟩
  | some s =>
    obtain ⟨active, lawful⟩ := all.of_lookup (keyed.lookup_of_findStream here)
    obtain ⟨keeps, legal⟩ := found s here active lawful
    obtain ⟨table, counts⟩ := all.insert (streams_setStream_sendFor now c (op s).1 (op s).2)
      fun _ => legal
    exact ⟨table.trans keeps, counts.trans keeps⟩

theorem AllActive.handleStreamFrame (now : Time) (pkt : Packet) (f : StreamFrame) :
    ((c.handleStreamFrame now pkt f).AllActive ↔
        ∀ s ∈ (c.streamFor pkt.destinationStreamID pkt.sourceStreamID f).2, s.StaysUp f) ∧
      ((c.handleStreamFrame now pkt f).CountsActive ↔
        ∀ s ∈ (c.streamFor pkt.destinationStreamID pkt.sourceStreamID f).2, s.StaysUp f) := by
  rw [handleStreamFrame_eq]
  cases found : c.findStream pkt.destinationStreamID pkt.sourceStreamID with
  | some s =>
    rw [streamFor, found]
    obtain ⟨active, lawful⟩ := all.of_lookup (keyed.lookup_of_findStream found)
    obtain ⟨table, counts⟩ := all.insert (c.streams_deliver now s f) (s.lawful_receive active lawful)
    have spared := s.active_receive active lawful (f := f)
    simp only [Option.mem_some_iff, forall_eq']
    exact ⟨table.trans spared, counts.trans spared⟩
  | none =>
    by_cases opens : pkt.sourceStreamID ≠ 0 ∧ (f.isSyn = true ∨ f.data.length > 0)
    · obtain ⟨d, enters, entered⟩ := streamFor_opens found opens
      rw [enters]
      have active : (Stream.fresh c.nextStreamID pkt.sourceStreamID initialFC true).Active :=
        ⟨StreamState.noConfusion, StreamState.noConfusion⟩
      have all := (all.insert entered fun _ => rfl).1.mpr active
      obtain ⟨table, counts⟩ :=
        all.insert (d.streams_deliver now _ f) (Stream.lawful_receive active rfl)
      have spared := Stream.active_receive active rfl (f := f)
      simp only [Option.mem_some_iff, forall_eq']
      exact ⟨table.trans spared, counts.trans spared⟩
    · rw [streamFor, found]
      dsimp only
      rw [if_neg opens]
      have none : ∀ s ∈ (none : Option Stream), s.StaysUp f := fun s member => by cases member
      exact ⟨iff_of_true all none, iff_of_true all.countsActive none⟩

end

end Connection

namespace Host

open Connection

variable {F : Type} [Float64 F] {h h' : Host F} {input : Input}

/-- The step finishes no stream and resets none. -/
def Spares (h : Host F) : Input → Prop
  | .frame _ pkt (.stream f) =>
    ∀ s ∈ (h.conn.streamFor pkt.destinationStreamID pkt.sourceStreamID f).2, s.StaysUp f
  | .frame _ pkt (.resetStream _) | .frame _ pkt (.stopSending _ _) =>
    h.conn.findStream pkt.destinationStreamID pkt.sourceStreamID = none
  | .frame _ _ (.connectionClose _) | .close .. =>
    h.conn.state = .closed ∨ h.conn.streams.entries = []
  | .idleCheck now => h.conn.idleExpired now = true → h.conn.streams.entries = []
  | .closeStream _ id => ∀ s ∈ h.conn.streams.lookup id, s.state ≠ .halfClosedRemote
  | .resetStream _ id _ => h.conn.streams.lookup id = none
  | _ => True

instance (h : Host F) (input : Input) : Decidable (h.Spares input) := by
  unfold Spares
  split <;> infer_instance

omit [Float64 F] in
theorem spares_of_aside (aside : input.aside = true) : h.Spares input := by
  cases input with
  | frame now pkt f =>
    cases f with
    | stream | resetStream | stopSending | connectionClose => cases aside
    | _ => trivial
  | idleCheck | closeStream | resetStream | close => cases aside
  | _ => trivial

/-- A step keeps all streams active exactly if it spares them. -/
theorem allActive_step (keyed : h.conn.Keyed) (all : h.conn.AllActive)
    (taken : h.step input = some h') :
    (h'.conn.AllActive ↔ h.Spares input) ∧ (h'.conn.CountsActive ↔ h.Spares input) := by
  -- what replaces one stream by another that is as active
  have steady {t : Stream} (table : h'.conn.streams = h.conn.streams.insert t.id t) {kept : Prop}
      (active : t.Active ↔ kept) (lawful : t.flowControlViolation = false) :
      (h'.conn.AllActive ↔ kept) ∧ (h'.conn.CountsActive ↔ kept) := by
    obtain ⟨table, counts⟩ := all.insert table fun _ => lawful
    exact ⟨table.trans active, counts.trans active⟩
  have still (same : h'.conn.streams = h.conn.streams) {kept : Prop} (spares : kept) :
      (h'.conn.AllActive ↔ kept) ∧ (h'.conn.CountsActive ↔ kept) :=
    ⟨iff_of_true (all.congr same) spares, iff_of_true (all.congr same).countsActive spares⟩
  by_cases aside : input.aside = true
  · exact still (streams_step aside taken) (spares_of_aside aside)
  cases input with
  | frame now pkt f =>
    obtain rfl := Option.some.inj taken
    cases f with
    | stream f => exact all.handleStreamFrame keyed now pkt f
    | windowUpdate wire =>
      exact all.onStream keyed now pkt
        (fun s _ active lawful => ⟨iff_of_true active trivial, lawful⟩) fun _ => trivial
    | streamDataBlocked _ _ =>
      exact all.onStream keyed now pkt
        (fun s _ active lawful => ⟨iff_of_true active trivial, lawful⟩) fun _ => trivial
    | resetStream code =>
      exact all.onStream keyed now pkt
        (fun s found active lawful => ⟨iff_of_false (fun still => still.2 rfl)
          fun none => Option.some_ne_none s (found.symm.trans none), lawful⟩) id
    | stopSending _ code =>
      refine all.onStream keyed now pkt (fun s found active lawful => ?_) id
      have reset : (s.reset code).1 = { s with state := .reset, resetCode := code } := by
        rw [Stream.reset, if_neg (not_or.mpr active)]
      rw [reset]
      exact ⟨iff_of_false (fun still => still.2 rfl)
        fun none => Option.some_ne_none s (found.symm.trans none), lawful⟩
    | connectionClose _ => exact all.closeInternal keyed now _ _ _
    | _ => exact absurd rfl aside
  | idleCheck now =>
    obtain rfl := Option.some.inj taken
    by_cases expired : h.conn.idleExpired now = true
    · have opened : h.conn.state ≠ .closed := by
        intro closed
        rw [Connection.idleExpired, if_pos (.inr closed)] at expired
        cases expired
      have closes : h.conn.onIdleCheck now =
        h.conn.closeInternal now errorConnectionTimeout [] false := if_pos expired
      have spares : h.conn.state = .closed ∨ h.conn.streams.entries = [] ↔
          h.Spares (.idleCheck now) :=
        ⟨fun either _ => either.resolve_left opened, fun empty => .inr (empty expired)⟩
      rw [closes, ← spares]
      exact all.closeInternal keyed now errorConnectionTimeout [] false
    · have same : h.conn.onIdleCheck now = h.conn := if_neg expired
      exact still (congrArg Connection.streams same) fun due => absurd due expired
  | openStream =>
    obtain rfl := Option.some.inj taken
    by_cases refused : h.conn.openStream.1 = h.conn
    · exact still (congrArg Connection.streams refused) trivial
    · refine steady (t := newStream h.conn.nextStreamID 0 initialFC) ?_
        (iff_of_true ⟨StreamState.noConfusion, StreamState.noConfusion⟩ trivial) rfl
      unfold Connection.openStream at refused ⊢
      split at refused
      · exact absurd rfl refused
      · rw [if_neg ‹_›]
        split at refused
        · exact absurd rfl refused
        · rw [if_neg ‹_›]
          rfl
  | write now id entering data =>
    obtain ⟨out, written, rfl⟩ := Option.map_eq_some_iff.mp taken
    obtain ⟨s, ask, granted, t, batch, found, asked, admitted, committed, rfl⟩ :=
      writeBatch_eq_some now written
    obtain ⟨active, lawful⟩ := all.of_lookup found
    obtain ⟨-, -, -, after⟩ := s.writeCommit_eq_some committed
    refine steady (t := t) (congrArg Connection.Endpoint.streams
      (sends_sendStreamFrames now _ _ _ _ _ _).endpoint) (iff_of_true ?_ trivial) ?_
    · rw [after]
      by_cases syn : batch.isSyn = true
      · exact ⟨by simp [syn], by simp [syn]⟩
      · simpa [syn, Stream.Active] using active
    · rw [after]
      exact lawful
  | read now id size expired =>
    obtain ⟨out, read, rfl⟩ := Option.map_eq_some_iff.mp taken
    obtain ⟨s, found, rfl⟩ := read_eq_some now read
    obtain ⟨active, lawful⟩ := all.of_lookup found
    have reads := s.reads_read size expired
    refine steady (streams_setStream_sendFor now _ _ _) (iff_of_true ?_ trivial) ?_
    · rwa [Stream.Active, s.state_read]
    · generalize s.read size expired = out at reads ⊢
      cases reads <;> exact lawful
  | closeStream now id =>
    obtain ⟨c, called, rfl⟩ := Option.map_eq_some_iff.mp taken
    obtain ⟨s, found, rfl⟩ := callStream_eq_some now called
    obtain ⟨active, lawful⟩ := all.of_lookup found
    have closes : s.close.1 =
        { s with state := if s.state = .halfClosedRemote then .closed else .halfClosedLocal } := by
      rw [Stream.close, if_neg (not_or.mpr active)]
    have spares : s.close.1.Active ↔ h.Spares (.closeStream now id) := by
      rw [closes, Spares, found]
      simp only [Option.mem_some_iff, forall_eq']
      by_cases half : s.state = .halfClosedRemote
      · exact iff_of_false (fun still => still.1 (if_pos half)) (not_not.mpr half)
      · exact iff_of_true ⟨by simp [half], by simp [half]⟩ half
    exact steady (streams_setStream_sendFor now _ _ _) spares (by rw [closes]; exact lawful)
  | resetStream now id code =>
    obtain ⟨c, called, rfl⟩ := Option.map_eq_some_iff.mp taken
    obtain ⟨s, found, rfl⟩ := callStream_eq_some now called
    obtain ⟨active, lawful⟩ := all.of_lookup found
    have resets : (s.reset code).1 = { s with state := .reset, resetCode := code } := by
      rw [Stream.reset, if_neg (not_or.mpr active)]
    refine steady (streams_setStream_sendFor now _ _ _) (iff_of_false ?_ ?_)
      (by rw [resets]; exact lawful)
    · rw [resets]
      exact fun still => still.2 rfl
    · exact fun none => Option.some_ne_none s (found.symm.trans none)
  | close now code reason =>
    obtain rfl := Option.some.inj taken
    exact all.closeInternal keyed now code reason true
  | arrive | note | observeAddr | sendChallenge | ackTimer | lossTimer | pto | flushLost
  | acceptStream | writeBlocked | ping | migrate | answer | giveUp => exact absurd rfl aside

/-- No step frees a slot of the table. -/
theorem streamCount_le_step {input : Input} (keyed : h.conn.Keyed)
    (taken : h.step input = some h') : h.conn.streamCount ≤ h'.conn.streamCount := by
  cases step_effect taken with
  | serve callers changes => exact (changes.restocks keyed).length.ge
  | openStream => exact h.conn.length_le_enter 0 .idle
  | enter now pkt f _ _ _ changes =>
    exact (h.conn.length_le_enter _ _).trans (changes.restocks (keyed.enter _ _)).length.ge
  | close now code reason announce =>
    exact (Connection.restocks_closeInternal keyed now code reason announce).length.ge
  | ack now pkt f => exact ((Connection.keeps_handleAckFrame now f).restocks keyed).length.ge
  | challenge => exact (Connection.restocks_sendControlTo keyed _ _).length.ge
  | raise | arrive | move | respond | pend | reject | finish => exact Nat.le_refl _

/-- Nor does a run: what has finished goes on counting. -/
theorem streamCount_le_run {inputs : List Input} (keyed : h.conn.Keyed)
    (reached : Runs.run step h inputs = some h') :
    h.conn.streamCount ≤ h'.conn.streamCount := by
  refine (Runs.invariant_of_forall
    (fun t => t.conn.Keyed ∧ h.conn.streamCount ≤ t.conn.streamCount) ?_
    ⟨keyed, Nat.le_refl _⟩ reached).2
  intro t input t' holds taken
  exact ⟨keyed_step holds.1 taken, holds.2.trans (streamCount_le_step holds.1 taken)⟩

/-- Where the step is refused there is no stream for it to end. -/
theorem spares_of_refused (refused : h.step input = none) : h.Spares input := by
  cases input with
  | frame | idleCheck | close => cases refused
  | closeStream now id =>
    intro s found
    rw [step, Option.map_eq_none_iff, Connection.closeStream, callStream, found] at refused
    cases refused
  | resetStream now id code =>
    show h.conn.streams.lookup id = none
    cases found : h.conn.streams.lookup id with
    | none => rfl
    | some s =>
      rw [step, Option.map_eq_none_iff, Connection.resetStream, callStream, found] at refused
      cases refused
  | _ => trivial

/-- Along a run from a new connection the count is that of the active streams, and a
stream is refused only for active ones, exactly as long as no step finishes or resets
a stream: no run ever takes one out of the table. -/
theorem streamCount_eq_active_iff (localCID remoteCID : ConnectionID) (addr : Addr)
    (isInitiator validated : Bool) (start : Time) (inputs : List Input) :
    let fresh : Host F := newHost localCID remoteCID addr isInitiator validated start
    ((∀ before, before <+: inputs → ∀ h, Runs.run step fresh before = some h →
        h.conn.CountsActive) ↔ Runs.Along step Spares fresh inputs) ∧
      ∀ h h' later, Runs.run step fresh inputs = some h → Runs.run step h later = some h' →
        h.conn.streamCount ≤ h'.conn.streamCount := by
  intro fresh
  have keyed : fresh.conn.Keyed := fun _ member => absurd member List.not_mem_nil
  have reachable {h : Host F} {done : List Input} (reached : Runs.run step fresh done = some h) :
      h.conn.Keyed :=
    Runs.invariant_of_forall (fun h => h.conn.Keyed) (fun _ _ _ => keyed_step) keyed reached
  refine ⟨?_, fun h h' later reached further => streamCount_le_run (reachable reached) further⟩
  have exact (h : Host F) (input : Input) (h' : Host F) (good : h.conn.Keyed ∧ h.conn.AllActive)
      (_ : True) (taken : h.step input = some h') :
      h'.conn.Keyed ∧ h'.conn.AllActive ↔ h.Spares input := by
    rw [and_iff_right (keyed_step good.1 taken)]
    exact (allActive_step good.1 good.2 taken).1
  rw [← Runs.always_iff_along exact (fun _ _ => spares_of_refused) (Runs.along_true _ _)
    ⟨keyed, fun _ member => absurd member List.not_mem_nil⟩]
  constructor
  · -- what counts as active all the way has been so by active streams
    intro counts before
    induction before using List.reverseRecOn with
    | nil =>
      intro _ h reached
      obtain rfl := Option.some.inj reached
      exact ⟨keyed, fun _ member => absurd member List.not_mem_nil⟩
    | append_singleton before input ih =>
      intro front h reached
      have now := counts _ front h reached
      have key := reachable reached
      rw [Runs.run_append] at reached
      obtain ⟨mid, earlier, taken⟩ := Option.bind_eq_some_iff.mp reached
      rw [Runs.run_cons] at taken
      obtain ⟨last, stepped, done⟩ := Option.bind_eq_some_iff.mp taken
      obtain rfl := Option.some.inj done
      have good := ih ((List.prefix_append _ _).trans front) mid earlier
      obtain ⟨table, active⟩ := allActive_step good.1 good.2 stepped
      exact ⟨key, table.mpr (active.mp now)⟩
  · exact fun good before front h reached => (good before front h reached).2.countsActive

/-- The peer opens a stream, the application another, and closes its side of the
first. -/
theorem streamCount_eq_active_syn :
    ∃ h, Runs.run step listener (packet 0 synPacket ++ [.openStream, .closeStream 0 2]) = some h ∧
      h.conn.streamCount = 2 ∧ h.conn.streamCount = h.conn.activeStreams := by
  have spares : Runs.Along step Spares listener
      (packet 0 synPacket ++ [.openStream, .closeStream 0 2]) := by decide +kernel
  have counts := ((streamCount_eq_active_iff _ _ _ _ _ _ _).1.mpr spares _ (List.prefix_refl _))
  have two : (Runs.run step listener (packet 0 synPacket ++ [.openStream, .closeStream 0 2])).any
      (fun h => h.conn.streamCount = 2) = true := by decide +kernel
  obtain ⟨h, reached, two⟩ := Runs.reaches_of_any two
  exact ⟨h, reached, of_decide_eq_true two, (counts h reached).1⟩

/-- The application opens every stream it may and resets them all. -/
def spent : List Input :=
  List.replicate initialMaxStreams .openStream ++
    (List.range initialMaxStreams).map fun i => .resetStream 0 (.ofNat (2 * i + 2)) 0

/-- No stream is active, and the connection is open, but there is no room for
another stream. -/
theorem spent_refuses :
    ∃ h, Runs.run step listener spent = some h ∧
      h.conn.streamCount = initialMaxStreams ∧ h.conn.activeStreams = 0 ∧
      h.conn.state ≠ .closed ∧ h.conn.state ≠ .closing ∧ h.conn.openStream.2 = none := by
  have refuses : (Runs.run step listener spent).any (fun h =>
      decide (h.conn.streamCount = initialMaxStreams ∧ h.conn.activeStreams = 0 ∧
        h.conn.state ≠ .closed ∧ h.conn.state ≠ .closing ∧ h.conn.openStream.2 = none)) =
      true := by
    decide +kernel
  obtain ⟨h, reached, refuses⟩ := Runs.reaches_of_any refuses
  exact ⟨h, reached, of_decide_eq_true refuses⟩

end Host

end Udx
