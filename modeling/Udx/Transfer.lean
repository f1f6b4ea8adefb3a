import Mathlib.Data.Multiset.Count
import Udx.Flight
import Udx.Lib.Spans

set_option autoImplicit false

namespace Udx

open Spans

/- What a flight keeps of the packets it once sent, whatever it does: numbers
name one packet each, and the data of a stream stays with the packets that are
tracked or wait until the peer has it. -/

/-- The stream offsets a STREAM frame covers. -/
def StreamFrame.span (sf : StreamFrame) : Span :=
  ⟨sf.offset.toNat, sf.offset.toNat + sf.data.length⟩

/-- The packet is one STREAM frame of the stream. -/
def Cargo.IsStreamFrame (x : Cargo) (id : UInt32) (sf : StreamFrame) : Prop :=
  x.frames = [.stream sf] ∧ x.sourceStreamID = id

def Packet.IsStreamFrame (pkt : Packet) (id : UInt32) (sf : StreamFrame) : Prop :=
  pkt.frames = [.stream sf] ∧ pkt.sourceStreamID = id

theorem Cargo.Carries.isStreamFrame {x : Cargo} {pkt : Packet} (carries : x.Carries pkt)
    {id : UInt32}
    {sf : StreamFrame} : pkt.IsStreamFrame id sf ↔ x.IsStreamFrame id sf := by
  rw [Packet.IsStreamFrame, Cargo.IsStreamFrame, carries.frames, carries.source]

/-- A STREAM frame of the packet carries the byte of the stream. -/
def Cargo.bears (x : Cargo) (id : UInt32) (offset : Nat) : Bool :=
  x.sourceStreamID = id && x.frames.any fun
    | .stream sf => offset ∈ sf.span
    | _ => false

theorem Cargo.bears_of_stream {x : Cargo} {sf : StreamFrame} (frames : x.frames = [.stream sf])
    (id : UInt32) (offset : Nat) :
    x.bears id offset = true ↔ x.IsStreamFrame id sf ∧ offset ∈ sf.span := by
  simp [Cargo.bears, Cargo.IsStreamFrame, frames]

/-- A packet whose arrival is acknowledged. -/
def Packet.elicits (pkt : Packet) : Bool := isDataBearing pkt || isNumberedProbe pkt

namespace Flight

/-- The packets that are tracked or wait. -/
def live (f : Flight) : Multiset Cargo := f.tracked.map Prod.snd + f.waiting

theorem mem_live_of_tracked {f : Flight} {e : UInt32 × Cargo} (member : e ∈ f.tracked) :
    e.2 ∈ f.live :=
  Multiset.mem_add.mpr (.inl (Multiset.mem_map_of_mem _ member))

/-- A number below `next` was given to one packet. -/
structure Numbered (f : Flight) : Prop where
  below : ∀ e ∈ f.tracked, e.1.toNat < f.next
  distinct : (f.tracked.map Prod.fst).Nodup
  shown : ∀ pkt ∈ f.wire, pkt.elicits = true →
    pkt.sequence.toNat < f.next ∧ ∀ x, (pkt.sequence, x) ∈ f.tracked → x.Carries pkt

variable {r : Rules} {f f' : Flight}

/-- A move tracks one more packet under the next number, or some packets fewer. -/
theorem Move.tracked_cases (move : Move r f f') :
    (f'.tracked ≤ f.tracked ∧ f'.next = f.next) ∨
      ∃ x, f'.tracked = (UInt32.ofNat f.next, x) ::ₘ f.tracked ∧ f'.next = f.next + 1 := by
  cases move with
  | send x | probe x | resend x => exact .inr ⟨x, rfl, rfl⟩
  | ack n x rest present | lose n x rest present | lapse n x rest present =>
    exact .inl ⟨present ▸ Multiset.le_cons_self rest _, rfl⟩
  | split | book | land | emit | control => exact .inl ⟨le_rfl, rfl⟩

theorem Move.next_le (move : Move r f f') : f.next ≤ f'.next := by
  rcases move.tracked_cases with ⟨-, same⟩ | ⟨x, -, more⟩ <;> omega

theorem Move.mem_tracked (move : Move r f f') (room : f'.next ≤ 2 ^ 32) {e : UInt32 × Cargo}
    (member : e ∈ f'.tracked) : e ∈ f.tracked ∨ e.1.toNat = f.next := by
  rcases move.tracked_cases with ⟨fewer, -⟩ | ⟨x, more, next⟩
  · exact .inl (Multiset.mem_of_le fewer member)
  · rw [more] at member
    rcases Multiset.mem_cons.mp member with rfl | old
    · exact .inr (Nat.mod_eq_of_lt (by omega))
    · exact .inl old

/-- The wire only gains packets: tracked ones under their number, and
unnumbered ones. -/
theorem Move.mem_wire (move : Move r f f') {pkt : Packet} (member : pkt ∈ f'.wire) :
    pkt ∈ f.wire ∨ (∃ x, (pkt.sequence, x) ∈ f.tracked ∧ x.Carries pkt ∧ f'.tracked = f.tracked) ∨
      r.controls pkt := by
  cases move with
  | emit sent x present carries =>
    rcases List.mem_cons.mp member with rfl | old
    · exact .inr (.inl ⟨x, present, carries, rfl⟩)
    · exact .inl old
  | control sent allowed =>
    rcases List.mem_cons.mp member with rfl | old
    · exact .inr (.inr allowed)
    · exact .inl old
  | _ => exact .inl member

theorem Move.wire_subset (move : Move r f f') {pkt : Packet} (member : pkt ∈ f.wire) :
    pkt ∈ f'.wire := by
  cases move with
  | emit | control => exact List.mem_cons_of_mem _ member
  | _ => exact member

theorem Numbered.unique (numbered : f.Numbered) {n : UInt32} {x y : Cargo}
    (here : (n, x) ∈ f.tracked) (there : (n, y) ∈ f.tracked) : x = y := by
  have := Multiset.inj_on_of_nodup_map numbered.distinct (n, x) here (n, y) there rfl
  exact congrArg Prod.snd this

theorem Move.numbered (move : Move r f f') (quiet : ∀ pkt, r.controls pkt → pkt.elicits = false)
    (room : f'.next ≤ 2 ^ 32) (numbered : f.Numbered) : f'.Numbered := by
  have later := move.next_le
  refine ⟨fun e member => ?_, ?_, fun pkt sent elicits => ?_⟩
  · rcases move.tracked_cases with ⟨fewer, -⟩ | ⟨x, more, next⟩
    · exact Nat.lt_of_lt_of_le (numbered.below e (Multiset.mem_of_le fewer member)) later
    · rcases move.mem_tracked room member with old | fresh
      · exact Nat.lt_of_lt_of_le (numbered.below e old) later
      · omega
  · rcases move.tracked_cases with ⟨fewer, -⟩ | ⟨x, more, next⟩
    · exact Multiset.nodup_of_le (Multiset.map_le_map fewer) numbered.distinct
    · rw [more, Multiset.map_cons, Multiset.nodup_cons]
      refine ⟨fun used => ?_, numbered.distinct⟩
      obtain ⟨e, old, same⟩ := Multiset.mem_map.mp used
      have below := numbered.below e old
      rw [same, UInt32.toNat_ofNat', Nat.mod_eq_of_lt (by omega)] at below
      omega
  · rcases move.mem_wire sent with old | ⟨x, present, carries, same⟩ | control
    · obtain ⟨below, agrees⟩ := numbered.shown pkt old elicits
      refine ⟨Nat.lt_of_lt_of_le below later, fun x member => ?_⟩
      rcases move.mem_tracked room member with was | fresh
      · exact agrees x was
      · exact absurd fresh (by dsimp only; omega)
    · refine ⟨Nat.lt_of_lt_of_le (numbered.below _ present) later, fun y member => ?_⟩
      rw [same] at member
      rwa [numbered.unique member present]
    · rw [quiet pkt control] at elicits
      cases elicits

inductive Effect (r : Rules) (f f' : Flight) : Prop
  | grow (x : Cargo) (allowed : r.sends f.extent x) (live : f'.live = x ::ₘ f.live)
      (wire : f'.wire = f.wire)
      (extent : f'.extent = if x.probe then f.extent else x.advance f.extent)
  | stay (live : f'.live = f.live) (wire : f'.wire = f.wire) (extent : f'.extent = f.extent)
  | shed (n : UInt32) (x : Cargo) (present : (n, x) ∈ f.tracked)
      (gone : r.acks n ∨ x.probe = true) (live : f.live = x ::ₘ f'.live)
      (wire : f'.wire = f.wire) (extent : f'.extent = f.extent)
  | cut (x : Cargo) (pieces : List Cargo) (rest : Multiset Cargo) (splits : x.Splits pieces)
      (before : f.live = x ::ₘ rest) (after : f'.live = ↑pieces + rest)
      (wire : f'.wire = f.wire) (extent : f'.extent = f.extent)
  | put (pkt : Packet) (origin : (∃ x ∈ f.live, x.Carries pkt) ∨ r.controls pkt)
      (live : f'.live = f.live) (wire : f'.wire = pkt :: f.wire) (extent : f'.extent = f.extent)

theorem Move.effect (move : Move r f f') : Effect r f f' := by
  cases move with
  | send x data allowed =>
    exact .grow x allowed (by simp [live, number]) rfl (by simp [data])
  | probe x probe allowed =>
    exact .grow x allowed (by simp [live, number]) rfl (by simp [probe, number])
  | resend x rest data waits =>
    exact .stay (by simp [live, number, waits, Multiset.add_cons]) rfl rfl
  | ack n x rest present reported =>
    exact .shed n x (present ▸ Multiset.mem_cons_self _ _) (.inl reported)
      (by simp [live, present]) rfl rfl
  | lose n x rest present data =>
    exact .stay (by simp [live, present, Multiset.add_cons]) rfl rfl
  | lapse n x rest present probe =>
    exact .shed n x (present ▸ Multiset.mem_cons_self _ _) (.inr probe)
      (by simp [live, present]) rfl rfl
  | split x pieces rest waits splits =>
    refine .cut x pieces (f.tracked.map Prod.snd + rest) splits ?_ ?_ rfl rfl
    · rw [live, waits, Multiset.add_cons]
    · exact add_left_comm _ _ _
  | book | land => exact .stay rfl rfl rfl
  | emit pkt x present carries =>
    exact .put pkt (.inl ⟨x, mem_live_of_tracked present, carries⟩) rfl rfl rfl
  | control pkt allowed => exact .put pkt (.inr allowed) rfl rfl rfl

/-- Every packet alive is well formed, and so is every packet on the wire that
is not a plain control packet. -/
structure Shaped (f : Flight) (formed : Cargo → Prop) (plain : Packet → Prop) : Prop where
  live : ∀ x ∈ f.live, formed x
  wire : ∀ pkt ∈ f.wire, (∃ x, formed x ∧ x.Carries pkt) ∨ plain pkt

theorem Effect.shaped {formed : Cargo → Prop} {plain : Packet → Prop} (effect : Effect r f f')
    (sends : ∀ x, r.sends f.extent x → formed x)
    (splits : ∀ x pieces, x.Splits pieces → formed x → ∀ y ∈ pieces, formed y)
    (controls : ∀ pkt, r.controls pkt → plain pkt) (shaped : f.Shaped formed plain) :
    f'.Shaped formed plain := by
  cases effect with
  | grow x allowed live wire =>
    refine ⟨fun y member => ?_, wire ▸ shaped.wire⟩
    rw [live] at member
    rcases Multiset.mem_cons.mp member with rfl | old
    · exact sends y allowed
    · exact shaped.live y old
  | stay live wire => exact ⟨live ▸ shaped.live, wire ▸ shaped.wire⟩
  | shed n x present gone live wire =>
    exact ⟨fun y member => shaped.live y (live ▸ Multiset.mem_cons_of_mem member),
      wire ▸ shaped.wire⟩
  | cut x pieces rest split before after wire =>
    refine ⟨fun y member => ?_, wire ▸ shaped.wire⟩
    rw [after] at member
    rcases Multiset.mem_add.mp member with piece | old
    · exact splits x pieces split (shaped.live x (before ▸ Multiset.mem_cons_self _ _)) y piece
    · exact shaped.live y (before ▸ Multiset.mem_cons_of_mem old)
  | put pkt origin live wire =>
    refine ⟨live ▸ shaped.live, fun sent member => ?_⟩
    rw [wire] at member
    rcases List.mem_cons.mp member with rfl | old
    · rcases origin with ⟨x, here, carries⟩ | allowed
      · exact .inl ⟨x, shaped.live x here, carries⟩
      · exact .inr (controls sent allowed)
    · exact shaped.wire sent old

/-- Something that packets bring, and pieces of a packet with it, stays with a
packet alive until an acknowledgment says that the peer has it. -/
theorem Effect.covered {has : Cargo → Prop} {held : Prop} (effect : Effect r f f')
    (splits : ∀ x ∈ f.live, ∀ pieces, x.Splits pieces → has x → ∃ y ∈ pieces, has y)
    (acked : ∀ e ∈ f.tracked, r.acks e.1 → has e.2 → held)
    (data : ∀ x ∈ f.live, has x → x.probe = false)
    (covered : (∃ x ∈ f.live, has x) ∨ held) : (∃ x ∈ f'.live, has x) ∨ held := by
  rcases covered with ⟨x, member, here⟩ | done
  swap
  · exact .inr done
  cases effect with
  | grow y allowed live => exact .inl ⟨x, live ▸ Multiset.mem_cons_of_mem member, here⟩
  | stay live | put pkt origin live => exact .inl ⟨x, live ▸ member, here⟩
  | shed n y present gone live =>
    rw [live] at member
    rcases Multiset.mem_cons.mp member with rfl | old
    · rcases gone with reported | probe
      · exact .inr (acked (n, x) present reported here)
      · rw [data x (mem_live_of_tracked present) here] at probe
        cases probe
    · exact .inl ⟨x, old, here⟩
  | cut y pieces rest split before after =>
    have alive := member
    rw [before] at member
    rcases Multiset.mem_cons.mp member with rfl | old
    · obtain ⟨z, piece, there⟩ := splits x alive pieces split here
      exact .inl ⟨z, after ▸ Multiset.mem_add.mpr (.inl piece), there⟩
    · exact .inl ⟨x, after ▸ Multiset.mem_add.mpr (.inr old), here⟩

/-- Tracked packets whose number was reported brought what they bear. -/
theorem Move.safe {kept : Cargo → Prop} {added : List UInt32} (move : Move r f f')
    (room : f'.next ≤ 2 ^ 32) (seen : ∀ n ∈ added, n.toNat < f.next)
    (safe : ∀ e ∈ f.tracked, e.1 ∈ added → kept e.2) :
    ∀ e ∈ f'.tracked, e.1 ∈ added → kept e.2 := by
  intro e member reported
  rcases move.mem_tracked room member with old | fresh
  · exact safe e old reported
  · have := seen e.1 reported
    omega

end Flight

end Udx
