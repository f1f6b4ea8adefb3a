import Mathlib.Algebra.BigOperators.Group.Multiset.Basic
import Mathlib.Logic.Relation
import Udx.Connection

set_option autoImplicit false

namespace Udx

theorem map_data_streamFrames (isFin isSyn : Bool) (offset : UInt64)
    (pieces : List (List UInt8)) :
    (streamFrames isFin offset isSyn pieces).map StreamFrame.data = pieces := by
  induction pieces generalizing offset isSyn with
  | nil => rfl
  | cons data rest ih => rw [streamFrames, List.map_cons, ih]

theorem data_of_mem_streamFrames {isFin isSyn : Bool} {offset : UInt64}
    {pieces : List (List UInt8)} {frame : StreamFrame}
    (member : frame ∈ streamFrames isFin offset isSyn pieces) : frame.data ∈ pieces :=
  map_data_streamFrames isFin isSyn offset pieces ▸ List.mem_map_of_mem member

theorem isFin_of_mem_streamFrames {isFin isSyn : Bool} {offset : UInt64}
    {parts : List (List UInt8)} {sf : StreamFrame}
    (member : sf ∈ streamFrames isFin offset isSyn parts) (fin : sf.isFin = true) :
    isFin = true := by
  induction parts generalizing offset isSyn with
  | nil => cases member
  | cons data rest ih =>
    rcases List.mem_cons.mp member with rfl | later
    · exact (Bool.and_eq_true_iff.mp fin).1
    · exact ih later

theorem isFin_streamFrames {isSyn : Bool} {offset : UInt64} {parts : List (List UInt8)}
    {sf : StreamFrame} (member : sf ∈ streamFrames false offset isSyn parts) : sf.isFin = false :=
  eq_false_of_ne_true fun fin => Bool.false_ne_true (isFin_of_mem_streamFrames member fin)

/- What a connection has sent and not heard of, by value: the packets it
tracks under their numbers, the lost ones that wait to go out again, and what it
handed to the socket. The packets a step holds in its hand between the two count
as waiting. -/

/-- What the packet counts for in flight. A path-MTU probe is never booked. -/
def Cargo.booked (x : Cargo) : Nat := if x.probe then 0 else x.size

/-- A packet on the wire shows what the cargo holds. -/
structure Cargo.Carries (x : Cargo) (pkt : Packet) : Prop where
  frames : pkt.frames = x.frames
  destination : pkt.destinationStreamID = x.destinationStreamID
  source : pkt.sourceStreamID = x.sourceStreamID

/-- One STREAM frame of `x` in a packet of its own. -/
def Cargo.piece (x : Cargo) (size : Nat) (frame : StreamFrame) : Cargo :=
  { size := size, frames := [.stream frame], destinationStreamID := x.destinationStreamID
    sourceStreamID := x.sourceStreamID }

/-- The pieces are the data of `x` cut at `limit`, each in a smaller packet. -/
def Cargo.Splits (x : Cargo) (pieces : List Cargo) : Prop :=
  ∃ (sf : StreamFrame) (limit : Nat) (size : StreamFrame → Nat),
    x.frames = [.stream sf] ∧ 0 < limit ∧ limit < sf.data.length ∧
      pieces = (streamFrames sf.isFin sf.offset sf.isSyn (Chunks.chunks limit sf.data)).map
        (fun frame => x.piece (size frame) frame) ∧
      ∀ y ∈ pieces, 0 < y.size ∧ y.size ≤ x.size

/-- `extent` is how far each stream's data has been handed out, `debt` what the
bytes in flight count beyond the packets tracked while a step is under way. -/
structure Flight where
  next : Nat
  tracked : Multiset (UInt32 × Cargo)
  waiting : Multiset Cargo
  extent : UInt32 → Nat
  wire : List Packet
  inflight : Int
  debt : Int

/-- How far the streams reach once `x` is out. -/
def Cargo.advance (x : Cargo) (extent : UInt32 → Nat) : UInt32 → Nat :=
  match x.frames with
  | [.stream sf] =>
    Function.update extent x.sourceStreamID (sf.offset.toNat + sf.data.length)
  | _ => extent

/-- What a step may acknowledge, what it may send for the first time, and which
unnumbered packets it may send. -/
structure Flight.Rules where
  acks : UInt32 → Prop
  sends : (UInt32 → Nat) → Cargo → Prop
  controls : Packet → Prop

/-- Anything may be acknowledged and sent. -/
def Flight.Rules.any : Flight.Rules := ⟨fun _ => True, fun _ _ => True, fun _ => True⟩

namespace Flight

/-- The flight with one more packet tracked, under the next number. -/
def number (f : Flight) (x : Cargo) : Flight :=
  { f with next := f.next + 1, tracked := (UInt32.ofNat f.next, x) ::ₘ f.tracked }

inductive Move (r : Rules) : Flight → Flight → Prop
  | send (f : Flight) (x : Cargo) (data : x.probe = false) (allowed : r.sends f.extent x) :
      Move r f { f.number x with extent := x.advance f.extent, debt := f.debt - x.size }
  | probe (f : Flight) (x : Cargo) (probe : x.probe = true) (allowed : r.sends f.extent x) :
      Move r f (f.number x)
  | resend (f : Flight) (x : Cargo) (rest : Multiset Cargo) (data : x.probe = false)
      (waits : f.waiting = x ::ₘ rest) :
      Move r f { f.number x with waiting := rest, debt := f.debt - x.size }
  | ack (f : Flight) (n : UInt32) (x : Cargo) (rest : Multiset (UInt32 × Cargo))
      (present : f.tracked = (n, x) ::ₘ rest) (reported : r.acks n) :
      Move r f { f with tracked := rest, debt := f.debt + x.booked }
  | lose (f : Flight) (n : UInt32) (x : Cargo) (rest : Multiset (UInt32 × Cargo))
      (present : f.tracked = (n, x) ::ₘ rest) (data : x.probe = false) :
      Move r f
        { f with tracked := rest, waiting := x ::ₘ f.waiting, debt := f.debt + x.size }
  | lapse (f : Flight) (n : UInt32) (x : Cargo) (rest : Multiset (UInt32 × Cargo))
      (present : f.tracked = (n, x) ::ₘ rest) (probe : x.probe = true) :
      Move r f { f with tracked := rest }
  | split (f : Flight) (x : Cargo) (pieces : List Cargo) (rest : Multiset Cargo)
      (waits : f.waiting = x ::ₘ rest) (splits : x.Splits pieces) :
      Move r f { f with waiting := ↑pieces + rest }
  | book (f : Flight) (bytes : Nat) :
      Move r f { f with inflight := f.inflight + bytes, debt := f.debt + bytes }
  | land (f : Flight) (bytes : Nat) (owed : bytes ≤ f.debt) :
      Move r f
        { f with
          inflight := if f.inflight - bytes < 0 then 0 else f.inflight - bytes
          debt := f.debt - bytes }
  | emit (f : Flight) (pkt : Packet) (x : Cargo) (present : (pkt.sequence, x) ∈ f.tracked)
      (carries : x.Carries pkt) :
      Move r f { f with wire := pkt :: f.wire }
  | control (f : Flight) (pkt : Packet) (allowed : r.controls pkt) :
      Move r f { f with wire := pkt :: f.wire }

abbrev Moves (r : Rules) : Flight → Flight → Prop := Relation.ReflTransGen (Move r)

section Sequences

variable {r : Rules} (f : Flight)

theorem Moves.register (x : Cargo) (data : x.probe = false) (allowed : r.sends f.extent x) :
    Moves r f
      { f.number x with extent := x.advance f.extent, inflight := f.inflight + x.size } := by
  have booked := Move.book (r := r)
    { f.number x with extent := x.advance f.extent, debt := f.debt - x.size } x.size
  simp only [sub_add_cancel] at booked
  exact .head (.send f x data allowed) (.single booked)

theorem Moves.acks (gone : List (UInt32 × Cargo)) (rest : Multiset (UInt32 × Cargo))
    (present : f.tracked = ↑gone + rest) (reported : ∀ e ∈ gone, r.acks e.1) :
    Moves r f
      { f with tracked := rest, debt := f.debt + ((gone.map fun e => e.2.booked).sum : Nat) } := by
  induction gone generalizing f with
  | nil =>
    simp only [Multiset.coe_nil, zero_add] at present
    simp only [← present, List.map_nil, List.sum_nil, Nat.cast_zero, add_zero]
    exact .refl
  | cons e later ih =>
    have first := Move.ack f e.1 e.2 (↑later + rest) 
      (by rw [present, ← Multiset.cons_coe, Multiset.cons_add])
      (reported e List.mem_cons_self)
    refine .head first ?_
    have := ih { f with tracked := ↑later + rest, debt := f.debt + e.2.booked } rfl
      fun e member => reported e (List.mem_cons_of_mem _ member)
    simpa only [List.map_cons, List.sum_cons, Nat.cast_add, add_assoc] using this

theorem Moves.loses (gone : List (UInt32 × Cargo)) (rest : Multiset (UInt32 × Cargo))
    (present : f.tracked = ↑gone + rest) :
    Moves r f
      { f with
        tracked := rest
        waiting := ↑((gone.map Prod.snd).filter fun x => !x.probe) + f.waiting
        debt := f.debt + ((gone.map fun e => e.2.booked).sum : Nat) } := by
  induction gone generalizing f with
  | nil =>
    simp only [Multiset.coe_nil, zero_add] at present
    simp only [← present, List.map_nil, List.sum_nil, Nat.cast_zero, add_zero, List.filter_nil,
      Multiset.coe_nil, zero_add]
    exact .refl
  | cons e later ih =>
    have present : f.tracked = (e.1, e.2) ::ₘ (↑later + rest) := by
      rw [present, ← Multiset.cons_coe, Multiset.cons_add]
    by_cases probe : e.2.probe = true
    · refine .head (Move.lapse f e.1 e.2 _ present probe) ?_
      have := ih { f with tracked := ↑later + rest } rfl
      simpa [Cargo.booked, probe] using this
    · have data : e.2.probe = false := by simpa using probe
      refine .head (Move.lose f e.1 e.2 _ present data) ?_
      have := ih { f with
        tracked := ↑later + rest, waiting := e.2 ::ₘ f.waiting, debt := f.debt + e.2.size } rfl
      simpa [Cargo.booked, data, add_assoc, ← Multiset.cons_coe] using this

end Sequences

/-- What every move keeps, every sequence of moves keeps. -/
theorem Moves.keep {r : Rules} {Inv : Flight → Prop} {f f' : Flight} (moves : Moves r f f')
    (step : ∀ g g', Move r g g' → Inv g → Inv g') (holds : Inv f) : Inv f' := by
  induction moves with
  | refl => exact holds
  | tail _ move ih => exact step _ _ move ih

/-- The bytes of the tracked packets that count. -/
def booked (f : Flight) : Nat := (f.tracked.map fun e => e.2.booked).sum

@[simp] theorem booked_number (f : Flight) (x : Cargo) :
    (f.number x).booked = x.booked + f.booked := by
  simp [booked, number]

/-- Bytes in flight are the bytes tracked, but for the debt of the running
step. -/
def Balanced (f : Flight) : Prop := f.inflight = f.booked + f.debt

theorem Move.balanced {r : Rules} {f f' : Flight} (move : Move r f f') (holds : f.Balanced) :
    f'.Balanced := by
  unfold Balanced at holds ⊢
  cases move with
  | send x data | resend x rest data =>
    have : ({ f.number x with
        waiting := f.waiting, extent := f.extent, debt := f.debt - x.size } : Flight).booked =
        x.size + f.booked := by
      rw [show x.size = x.booked by simp [Cargo.booked, data]]
      exact f.booked_number x
    have total : (({ f.number x with
        waiting := f.waiting, extent := f.extent, debt := f.debt - x.size } : Flight).booked : Int) =
        x.size + f.booked := by
      rw [this, Nat.cast_add]
    show f.inflight = _ + (f.debt - x.size)
    exact (by omega : f.inflight = ((x.size : Int) + f.booked) + (f.debt - x.size)).trans
      (congrArg (· + (f.debt - (x.size : Int))) total.symm)
  | probe x probe =>
    rw [booked_number, show x.booked = 0 by simp [Cargo.booked, probe], Nat.zero_add]
    exact holds
  | ack n x rest present =>
    simp only [booked, present, Multiset.map_cons, Multiset.sum_cons] at holds ⊢
    omega
  | lose n x rest present data =>
    simp only [booked, present, Multiset.map_cons, Multiset.sum_cons, Cargo.booked, data] at holds ⊢
    simp only [Bool.false_eq_true, if_false] at holds
    omega
  | lapse n x rest present probe =>
    simp only [booked, present, Multiset.map_cons, Multiset.sum_cons, Cargo.booked,
      probe] at holds ⊢
    simp only [if_true] at holds
    omega
  | split | emit | control => exact holds
  | book bytes =>
    simp only [booked] at holds ⊢
    omega
  | land bytes owed =>
    simp only [booked] at holds ⊢
    split <;> omega

end Flight

end Udx
