import Udx.Transfer

set_option autoImplicit false

namespace Udx

open Spans

theorem map_span_streamFrames (isFin isSyn : Bool) (offset : UInt64) (parts : List (List UInt8))
    (small : offset.toNat + (parts.map List.length).sum < 2 ^ 64) :
    (streamFrames isFin offset isSyn parts).map StreamFrame.span =
      Span.tile offset.toNat (parts.map List.length) := by
  induction parts generalizing offset isSyn with
  | nil => rfl
  | cons data rest ih =>
    rw [List.map_cons, List.sum_cons] at small
    have next : (offset + UInt64.ofNat data.length).toNat = offset.toNat + data.length :=
      toNat_offset_add (by omega)
    rw [streamFrames, List.map_cons, List.map_cons, Span.tile, ih _ _ (by rw [next]; omega), next]
    rfl

/-- Where a frame of the cut data stands in it: the FIN is on the last, the SYN on the
first. -/
theorem cut_of_mem_streamFrames {isFin isSyn : Bool} {offset : UInt64}
    {parts : List (List UInt8)} (small : offset.toNat + parts.flatten.length < 2 ^ 64)
    {f : StreamFrame} (member : f ∈ streamFrames isFin offset isSyn parts) :
    ∃ front back, parts.flatten = front ++ (f.data ++ back) ∧
      f.offset.toNat = offset.toNat + front.length ∧
      (f.isFin = true → isFin = true ∧ back = []) ∧
      (f.isSyn = true → isSyn = true ∧ front = []) ∧
      ((∀ part ∈ parts, part ≠ []) → front = [] → f.isSyn = isSyn) := by
  induction parts generalizing offset isSyn with
  | nil => cases member
  | cons data rest ih =>
    rw [List.flatten_cons, List.length_append] at small
    rw [streamFrames] at member
    rcases List.mem_cons.mp member with rfl | later
    · refine ⟨[], rest.flatten, rfl, rfl, fun fin => ?_, fun syn => ⟨syn, rfl⟩, fun _ _ => rfl⟩
      obtain ⟨ends, last⟩ := Bool.and_eq_true_iff.mp fin
      obtain rfl := List.isEmpty_iff.mp last
      exact ⟨ends, rfl⟩
    · have next : (offset + UInt64.ofNat data.length).toNat = offset.toNat + data.length :=
        toNat_offset_add (by omega)
      obtain ⟨front, back, cut, start, fin, syn, -⟩ := ih (by rw [next]; omega) later
      refine ⟨data ++ front, back, ?_, ?_, fin, fun marked => ?_, fun full none => ?_⟩
      · rw [List.flatten_cons, cut, List.append_assoc]
      · rw [start, next, List.length_append, Nat.add_assoc]
      · exact absurd (syn marked).1 Bool.false_ne_true
      · exact absurd (List.append_eq_nil_iff.mp none).1 (full data List.mem_cons_self)

theorem sum_length_chunks {limit : Nat} (positive : 0 < limit) (data : List UInt8) :
    ((Chunks.chunks limit data).map List.length).sum = data.length := by
  rw [← List.length_flatten, Chunks.flatten_chunks positive]

/-- A packet of one STREAM frame, or a path-MTU probe. -/
inductive Cargo.Single (x : Cargo) : Prop
  | data (sf : StreamFrame) (data : x.probe = false) (frames : x.frames = [.stream sf])
  | probe (size : Int) (probe : x.probe = true) (frames : x.frames = [.mtuProbe size])

theorem Cargo.Single.isStreamFrame_of_bears {x : Cargo} (single : x.Single) {id : UInt32}
    {offset : Nat}
    (bears : x.bears id offset = true) :
    ∃ sf, x.IsStreamFrame id sf ∧ offset ∈ sf.span ∧ x.probe = false := by
  cases single with
  | data sf data frames =>
    obtain ⟨holds, inside⟩ := (Cargo.bears_of_stream frames id offset).mp bears
    exact ⟨sf, holds, inside, data⟩
  | probe size probe frames => simp [Cargo.bears, frames] at bears

theorem Cargo.IsStreamFrame.bears {x : Cargo} {id : UInt32} {sf : StreamFrame}
    (holds : x.IsStreamFrame id sf)
    (offset : Nat) : x.bears id offset = true ↔ offset ∈ sf.span :=
  (Cargo.bears_of_stream holds.1 id offset).trans (and_iff_right holds)

namespace Cargo.Splits

variable {x : Cargo} {pieces : List Cargo} {sf : StreamFrame}

theorem spans (splits : x.Splits pieces) {id : UInt32} (holds : x.IsStreamFrame id sf)
    (small : sf.span.stop < 2 ^ 64) :
    ∃ (frames : List StreamFrame) (lengths : List Nat) (size : StreamFrame → Nat),
      pieces = frames.map (fun frame => x.piece (size frame) frame) ∧
      frames.map StreamFrame.span = Span.tile sf.offset.toNat lengths ∧
      lengths.sum = sf.data.length := by
  obtain ⟨whole, limit, size, frames, positive, -, parts, -⟩ := splits
  obtain rfl : whole = sf := by simpa using frames.symm.trans holds.1
  have sum := sum_length_chunks positive whole.data
  exact ⟨_, _, size, parts, map_span_streamFrames _ _ _ _ (by rw [sum]; exact small), sum⟩

theorem single_of_mem (splits : x.Splits pieces) {y : Cargo} (member : y ∈ pieces) : y.Single := by
  obtain ⟨whole, limit, size, -, -, -, rfl, -⟩ := splits
  obtain ⟨frame, -, rfl⟩ := List.mem_map.mp member
  exact .data frame rfl rfl

/-- Each byte of the whole is in one piece. -/
theorem countP_bears (splits : x.Splits pieces) {id : UInt32} (holds : x.IsStreamFrame id sf)
    (small : sf.span.stop < 2 ^ 64) (other : UInt32) (offset : Nat) :
    pieces.countP (fun y => y.bears other offset) = if x.bears other offset then 1 else 0 := by
  obtain ⟨frames, lengths, size, rfl, tiles, sum⟩ := splits.spans holds small
  have each : ∀ frame : StreamFrame, (x.piece (size frame) frame).bears other offset =
      (decide (id = other) && decide (offset ∈ frame.span)) := by
    intro frame
    simp [Cargo.bears, Cargo.piece, holds.2]
  have count := congrArg (List.countP fun s => decide (offset ∈ s)) tiles
  rw [List.countP_map, Span.countP_tile, sum] at count
  rw [List.countP_map]
  simp only [Function.comp_def, each, Cargo.bears_of_stream holds.1, Cargo.IsStreamFrame,
    holds.1, holds.2]
  by_cases same : id = other
  · simp only [same, decide_true, Bool.true_and, true_and]
    exact count
  · simp [same]

end Cargo.Splits

namespace Flight

/-- The STREAM frame is in a packet that is alive or was sent. -/
def Known (f : Flight) (id : UInt32) (sf : StreamFrame) : Prop :=
  (∃ x ∈ f.live, x.IsStreamFrame id sf) ∨ ∃ pkt ∈ f.wire, pkt.IsStreamFrame id sf

def spans (f : Flight) (id : UInt32) : Set Span := { c | ∃ sf, f.Known id sf ∧ sf.span = c }

/-- A stream's data was cut ever finer; the packets alive have the finest
pieces, and no byte twice. -/
structure Nested (f : Flight) : Prop where
  single : ∀ x ∈ f.live, x.Single
  small : ∀ id, f.extent id < 2 ^ 64
  bounded : ∀ id, ∀ c ∈ f.spans id, c.stop ≤ f.extent id
  laminar : ∀ id, Span.Laminar (f.spans id)
  finest : ∀ x ∈ f.live, ∀ id sf, x.IsStreamFrame id sf → Span.Finest (f.spans id) sf.span
  once : ∀ id offset, f.live.countP (fun x => x.bears id offset) ≤ 1

variable {r : Rules} {f f' : Flight}

theorem mem_spans_of_live {x : Cargo} (member : x ∈ f.live) {id : UInt32} {sf : StreamFrame}
    (holds : x.IsStreamFrame id sf) : sf.span ∈ f.spans id :=
  ⟨sf, .inl ⟨x, member, holds⟩, rfl⟩

theorem mem_spans_of_wire {pkt : Packet} (sent : pkt ∈ f.wire) {id : UInt32} {sf : StreamFrame}
    (holds : pkt.IsStreamFrame id sf) : sf.span ∈ f.spans id :=
  ⟨sf, .inr ⟨pkt, sent, holds⟩, rfl⟩

theorem Nested.shrink (nested : f.Nested) (live : f'.live ≤ f.live)
    (known : ∀ id sf, f'.Known id sf → f.Known id sf) (extent : f'.extent = f.extent) :
    f'.Nested := by
  have fewer : ∀ id, f'.spans id ⊆ f.spans id := fun id c ⟨sf, here, span⟩ =>
    ⟨sf, known id sf here, span⟩
  refine ⟨fun x member => nested.single x (Multiset.mem_of_le live member), ?_, ?_,
    fun id => (nested.laminar id).mono (fewer id), ?_, fun id offset => ?_⟩
  · exact extent ▸ nested.small
  · exact fun id c member => extent ▸ nested.bounded id c (fewer id member)
  · exact fun x member id sf holds =>
      (nested.finest x (Multiset.mem_of_le live member) id sf holds).mono (fewer id)
  · exact Nat.le_trans (Multiset.countP_le_of_le _ live) (nested.once id offset)

/-- A packet that brings new data brings what follows the stream's data. -/
def Continues (extent : UInt32 → Nat) (x : Cargo) : Prop :=
  ∀ sf, x.frames = [.stream sf] →
    sf.offset.toNat = extent x.sourceStreamID ∧ sf.span.stop < 2 ^ 64

theorem Known.of_grow {x : Cargo} (live : f'.live = x ::ₘ f.live) (wire : f'.wire = f.wire)
    {id : UInt32} {sf : StreamFrame} (known : f'.Known id sf) :
    x.IsStreamFrame id sf ∨ f.Known id sf := by
  rcases known with ⟨y, member, holds⟩ | ⟨pkt, sent, holds⟩
  · rw [live] at member
    rcases Multiset.mem_cons.mp member with rfl | old
    · exact .inl holds
    · exact .inr (.inl ⟨y, old, holds⟩)
  · exact .inr (.inr ⟨pkt, wire ▸ sent, holds⟩)

theorem Nested.countP_eq_zero (nested : f.Nested) {id : UInt32} {offset : Nat}
    (past : f.extent id ≤ offset) : f.live.countP (fun x => x.bears id offset) = 0 := by
  rw [Multiset.countP_eq_zero]
  intro x member bears
  obtain ⟨sf, holds, inside, -⟩ := (nested.single x member).isStreamFrame_of_bears bears
  have bound := nested.bounded id _ (mem_spans_of_live member holds)
  have := inside.2
  omega

theorem Nested.probe (nested : f.Nested) {x : Cargo} {size : Int} (probe : x.probe = true)
    (frames : x.frames = [.mtuProbe size]) (live : f'.live = x ::ₘ f.live)
    (wire : f'.wire = f.wire) (extent : f'.extent = f.extent) : f'.Nested := by
  have none : ∀ {id sf}, ¬ x.IsStreamFrame id sf := by
    intro id sf holds
    have := frames.symm.trans holds.1
    simp at this
  have fewer : ∀ id, f'.spans id ⊆ f.spans id := fun id c ⟨sf, here, span⟩ =>
    ⟨sf, (here.of_grow live wire).resolve_left none, span⟩
  refine ⟨fun y member => ?_, extent ▸ nested.small,
    fun id c member => extent ▸ nested.bounded id c (fewer id member),
    fun id => (nested.laminar id).mono (fewer id), fun y member id sf holds => ?_,
    fun id offset => ?_⟩
  · rw [live] at member
    rcases Multiset.mem_cons.mp member with rfl | old
    · exact .probe size probe frames
    · exact nested.single y old
  · rw [live] at member
    rcases Multiset.mem_cons.mp member with rfl | old
    · exact absurd holds none
    · exact (nested.finest y old id sf holds).mono (fewer id)
  · have idle : x.bears id offset = false := by simp [Cargo.bears, frames]
    rw [live, Multiset.countP_cons, idle]
    exact nested.once id offset

theorem Nested.send (nested : f.Nested) {x : Cargo} {sf : StreamFrame} (data : x.probe = false)
    (frames : x.frames = [.stream sf]) (continues : Continues f.extent x)
    (live : f'.live = x ::ₘ f.live) (wire : f'.wire = f.wire)
    (extent : f'.extent = x.advance f.extent) : f'.Nested := by
  obtain ⟨start, small⟩ := continues sf frames
  have extent : f'.extent = Function.update f.extent x.sourceStreamID sf.span.stop := by
    rw [extent, Cargo.advance, frames]
    rfl
  have ended : ∀ c ∈ f.spans x.sourceStreamID, c.stop ≤ sf.span.start := fun c member =>
    (nested.bounded _ c member).trans start.ge
  have only : ∀ id, ∀ c ∈ f'.spans id,
      (id = x.sourceStreamID ∧ c = sf.span) ∨ c ∈ f.spans id := by
    rintro id c ⟨frame, here, rfl⟩
    rcases here.of_grow live wire with new | old
    · have same := frames.symm.trans new.1
      simp only [List.cons.injEq, Frame.stream.injEq, and_true] at same
      exact .inl ⟨new.2.symm, same ▸ rfl⟩
    · exact .inr ⟨frame, old, rfl⟩
  have here : ∀ c ∈ f'.spans x.sourceStreamID, c = sf.span ∨ c ∈ f.spans x.sourceStreamID :=
    fun c member => (only _ c member).imp_left And.right
  have there : ∀ id, id ≠ x.sourceStreamID → f'.spans id ⊆ f.spans id :=
    fun id distinct c member => (only id c member).resolve_left fun both => distinct both.1
  refine ⟨fun y member => ?_, fun id => ?_, fun id c member => ?_, fun id => ?_,
    fun y member id frame holds => ?_, fun id offset => ?_⟩
  · rw [live] at member
    rcases Multiset.mem_cons.mp member with rfl | old
    · exact .data sf data frames
    · exact nested.single y old
  · rw [extent, Function.update_apply]
    split
    · exact small
    · exact nested.small id
  · rw [extent, Function.update_apply]
    rcases only id c member with ⟨rfl, rfl⟩ | old
    · rw [if_pos rfl]
    · have bound := nested.bounded id c old
      split
      · rename_i same
        have : f.extent x.sourceStreamID ≤ sf.span.stop := start ▸ Nat.le_add_right _ _
        rw [same] at bound
        omega
      · exact bound
  · by_cases same : id = x.sourceStreamID
    · subst same
      exact (nested.laminar _).beyond ended here
    · exact (nested.laminar id).mono (there id same)
  · rw [live] at member
    rcases Multiset.mem_cons.mp member with rfl | old
    · have same := frames.symm.trans holds.1
      simp only [List.cons.injEq, Frame.stream.injEq, and_true] at same
      obtain rfl := same
      obtain rfl := holds.2
      exact Span.finest_beyond ended here
    · by_cases same : id = x.sourceStreamID
      · subst same
        exact (nested.finest y old _ frame holds).beyond (ended _ (mem_spans_of_live old holds)) here
      · exact (nested.finest y old id frame holds).mono (there id same)
  · rw [live, Multiset.countP_cons]
    split
    · rename_i bears
      obtain ⟨⟨-, rfl⟩, inside⟩ := (Cargo.bears_of_stream frames id offset).mp bears
      rw [nested.countP_eq_zero (start ▸ inside.1)]
    · exact nested.once id offset

theorem Cargo.IsStreamFrame.unique {x : Cargo} {id other : UInt32} {sf frame : StreamFrame}
    (here : x.IsStreamFrame id sf) (there : x.IsStreamFrame other frame) :
    id = other ∧ sf = frame := by
  have same := here.1.symm.trans there.1
  simp only [List.cons.injEq, Frame.stream.injEq, and_true] at same
  exact ⟨here.2.symm.trans there.2, same⟩

theorem Nested.cut (nested : f.Nested) {x : Cargo} {pieces : List Cargo} {rest : Multiset Cargo}
    (splits : x.Splits pieces) (before : f.live = x ::ₘ rest) (after : f'.live = ↑pieces + rest)
    (wire : f'.wire = f.wire) (extent : f'.extent = f.extent) : f'.Nested := by
  have alive : x ∈ f.live := before ▸ Multiset.mem_cons_self _ _
  have others : ∀ y ∈ rest, y ∈ f.live := fun y member =>
    before ▸ Multiset.mem_cons_of_mem member
  obtain ⟨sf, -, -, frames, -⟩ := id splits
  have whole : x.IsStreamFrame x.sourceStreamID sf := ⟨frames, rfl⟩
  generalize x.sourceStreamID = src at whole
  have stop : sf.span.stop ≤ f.extent src := nested.bounded src _ (mem_spans_of_live alive whole)
  have small := Nat.lt_of_le_of_lt stop (nested.small src)
  obtain ⟨cuts, lengths, size, made, tiles, sum⟩ := splits.spans whole small
  have cutOf : ∀ y ∈ pieces, ∃ frame ∈ cuts, y.IsStreamFrame src frame := by
    intro y member
    rw [made] at member
    obtain ⟨frame, part, rfl⟩ := List.mem_map.mp member
    exact ⟨frame, part, rfl, whole.2⟩
  have within : ∀ p ∈ cuts.map StreamFrame.span, p.Within sf.span := by
    intro p member
    rw [tiles] at member
    have inside := Span.within_of_mem_tile member
    rwa [sum] at inside
  have apart : (cuts.map StreamFrame.span).Pairwise Span.Apart := tiles ▸ Span.apart_tile _ _
  have only : ∀ id, ∀ c ∈ f'.spans id,
      (id = src ∧ c ∈ cuts.map StreamFrame.span) ∨ c ∈ f.spans id := by
    rintro id c ⟨frame, ⟨y, member, holds⟩ | ⟨pkt, sent, holds⟩, rfl⟩
    · rw [after] at member
      rcases Multiset.mem_add.mp member with piece | old
      · obtain ⟨part, cut, has⟩ := cutOf y piece
        obtain ⟨rfl, rfl⟩ := Cargo.IsStreamFrame.unique holds has
        exact .inl ⟨rfl, List.mem_map_of_mem cut⟩
      · exact .inr (mem_spans_of_live (others y old) holds)
    · exact .inr (mem_spans_of_wire (wire ▸ sent) holds)
  have here : ∀ c ∈ f'.spans src, c ∈ cuts.map StreamFrame.span ∨ c ∈ f.spans src :=
    fun c member => (only _ c member).imp_left And.right
  have there : ∀ id, id ≠ src → f'.spans id ⊆ f.spans id :=
    fun id distinct c member => (only id c member).resolve_left fun both => distinct both.1
  have finest := nested.finest x alive src sf whole
  refine ⟨fun y member => ?_, extent ▸ nested.small, fun id c member => ?_, fun id => ?_,
    fun y member id frame holds => ?_, fun id offset => ?_⟩
  · rw [after] at member
    rcases Multiset.mem_add.mp member with piece | old
    · exact splits.single_of_mem piece
    · exact nested.single y (others y old)
  · rw [extent]
    rcases only id c member with ⟨rfl, piece⟩ | old
    · exact Nat.le_trans (within c piece).2 stop
    · exact nested.bounded id c old
  · by_cases same : id = src
    · subst same
      exact (nested.laminar _).cut finest within apart here
    · exact (nested.laminar id).mono (there id same)
  · rw [after] at member
    rcases Multiset.mem_add.mp member with piece | old
    · obtain ⟨part, cut, has⟩ := cutOf y piece
      obtain ⟨rfl, rfl⟩ := Cargo.IsStreamFrame.unique holds has
      exact finest.piece within apart here (List.mem_map_of_mem cut)
    · have other := nested.finest y (others y old) id frame holds
      by_cases same : id = src
      · subst same
        refine other.aside (fun offset inside shared => ?_) within here
        -- A byte of both would be alive twice.
        have once := nested.once id offset
        rw [before, Multiset.countP_cons, if_pos ((whole.bears offset).mpr shared)] at once
        have twice : 0 < rest.countP (fun x => x.bears id offset) :=
          Multiset.countP_pos.mpr ⟨y, old, (holds.bears offset).mpr inside⟩
        omega
      · exact other.mono (there id same)
  · have once := nested.once id offset
    have counts := splits.countP_bears whole small id offset
    rw [before, Multiset.countP_cons] at once
    rw [after, Multiset.countP_add, Multiset.coe_countP]
    simp only [Bool.decide_eq_true, counts]
    omega

/-- What moves must respect for a stream's data to stay in order. -/
structure KeepsStreamOrder (r : Rules) (f : Flight) : Prop where
  single : ∀ x, r.sends f.extent x → x.Single
  continues : ∀ x, r.sends f.extent x → Continues f.extent x
  quiet : ∀ pkt, r.controls pkt → ∀ id sf, ¬ pkt.IsStreamFrame id sf

theorem Effect.nested (effect : Effect r f f') (orderly : KeepsStreamOrder r f)
    (nested : f.Nested) :
    f'.Nested := by
  cases effect with
  | grow x allowed live wire extent =>
    cases orderly.single x allowed with
    | data sf data frames =>
      rw [data, if_neg (by simp)] at extent
      exact nested.send data frames (orderly.continues x allowed) live wire extent
    | probe size probe frames =>
      rw [probe, if_pos rfl] at extent
      exact nested.probe probe frames live wire extent
  | stay live wire extent =>
    exact nested.shrink live.le (fun id sf known => by rwa [Known, live, wire] at known) extent
  | shed n x present gone live wire extent =>
    refine nested.shrink (live ▸ Multiset.le_cons_self _ _) (fun id sf known => ?_) extent
    rcases known with ⟨y, member, holds⟩ | ⟨pkt, sent, holds⟩
    · exact .inl ⟨y, live ▸ Multiset.mem_cons_of_mem member, holds⟩
    · exact .inr ⟨pkt, wire ▸ sent, holds⟩
  | cut x pieces rest splits before after wire extent =>
    exact nested.cut splits before after wire extent
  | put pkt origin live wire extent =>
    refine nested.shrink live.le (fun id sf known => ?_) extent
    rcases known with ⟨y, member, holds⟩ | ⟨sent, member, holds⟩
    · exact .inl ⟨y, live ▸ member, holds⟩
    · rw [wire] at member
      rcases List.mem_cons.mp member with rfl | old
      · rcases origin with ⟨x, here, carries⟩ | allowed
        · exact .inl ⟨x, here, carries.isStreamFrame.mp holds⟩
        · exact absurd holds (orderly.quiet sent allowed id sf)
      · exact .inr ⟨sent, old, holds⟩

end Flight

end Udx
