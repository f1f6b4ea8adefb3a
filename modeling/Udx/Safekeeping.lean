import Udx.StreamSpans

set_option autoImplicit false

/- What a flight keeps for its peer. A byte that was written is in a packet that
is tracked or waits, until the peer has noted the number of a packet with it; and
what the peer has noted it was brought. -/

namespace Udx

/-- Where streams may end: the stream at the offset. -/
abbrev Stream.Endings := UInt32 → Nat → Prop

def Stream.Endings.never : Stream.Endings := fun _ _ => False

/-- A FIN is in a packet of its own, and is where the stream may end. -/
def Cargo.EndsBare (x : Cargo) (ends : Stream.Endings) : Prop :=
  ∀ sf, x.frames = [.stream sf] → sf.isFin = true →
    ends x.sourceStreamID sf.offset.toNat ∧ sf.data = []

/-- A packet that is sent and tracked. -/
def Cargo.Formed (ends : Stream.Endings) (x : Cargo) : Prop := x.Single ∧ x.EndsBare ends

namespace Cargo.Splits

variable {x : Cargo} {pieces : List Cargo}

theorem formed {ends : Stream.Endings} (splits : x.Splits pieces) (formed : x.Formed ends) :
    ∀ y ∈ pieces, y.Formed ends := by
  intro y member
  refine ⟨splits.single_of_mem member, fun sf frames fin => ?_⟩
  obtain ⟨whole, limit, size, single, -, longer, rfl, -⟩ := splits
  obtain ⟨frame, piece, rfl⟩ := List.mem_map.mp member
  obtain ⟨rfl⟩ : frame = sf := by simpa [Cargo.piece] using frames
  have empty := (formed.2 whole single (isFin_of_mem_streamFrames piece fin)).2
  rw [empty] at longer
  cases longer

theorem bears_piece (splits : x.Splits pieces) {id : UInt32} {sf : StreamFrame}
    (holds : x.IsStreamFrame id sf) (small : sf.span.stop < 2 ^ 64) {offset : Nat}
    (bears : x.bears id offset = true) : ∃ y ∈ pieces, y.bears id offset = true := by
  have count := splits.countP_bears holds small id offset
  rw [bears, if_pos rfl] at count
  exact List.countP_pos_iff.mp (count ▸ Nat.one_pos)

end Cargo.Splits

/-- The rules of an exchange in which the peer has noted `noted`: only that is
acknowledged, new data follows what went before, and control packets are
`plain`. -/
def Flight.Rules.exchange (ends : Stream.Endings) (plain : Packet → Prop) (noted : List UInt32) :
    Flight.Rules where
  acks n := n ∈ noted
  sends extent x := x.Formed ends ∧ Flight.Continues extent x
  controls := plain

namespace Flight

variable {ends : Stream.Endings} {plain : Packet → Prop} {noted : List UInt32} {f f' : Flight}

/-- Control packets carry no stream data and are not acknowledged. -/
def CarryNoData (plain : Packet → Prop) : Prop :=
  ∀ pkt, plain pkt → pkt.elicits = false ∧ ∀ id sf, ¬ pkt.IsStreamFrame id sf

/-- The packets of an exchange, and the numbers they have. -/
structure OfExchange (f : Flight) (ends : Stream.Endings) (plain : Packet → Prop) : Prop where
  numbered : f.Numbered
  nested : f.Nested
  shaped : f.Shaped (Cargo.Formed ends) plain

theorem Move.ofExchange (move : Move (.exchange ends plain noted) f f') (quiet : CarryNoData plain)
    (room : f'.next ≤ 2 ^ 32) (ofExchange : f.OfExchange ends plain) :
    f'.OfExchange ends plain := by
  have orderly : KeepsStreamOrder (.exchange ends plain noted) f :=
    ⟨fun x allowed => allowed.1.1, fun x allowed => allowed.2,
      fun pkt allowed => (quiet pkt allowed).2⟩
  refine ⟨move.numbered (fun pkt allowed => (quiet pkt allowed).1) room ofExchange.numbered,
    move.effect.nested orderly ofExchange.nested, ?_⟩
  exact move.effect.shaped (fun x allowed => allowed.1) (fun x pieces splits => splits.formed)
    (fun pkt allowed => allowed) ofExchange.shaped

/-- What is due is in a packet that is alive, or it is with the peer, which has what
is in the packets it noted. -/
structure DueIsSafe (f : Flight) (noted : List UInt32) (has : Cargo → Prop) (due held : Prop) :
    Prop where
  safe : ∀ e ∈ f.tracked, e.1 ∈ noted → has e.2 → held
  covered : due → (∃ x ∈ f.live, has x) ∨ held

theorem Move.dueIsSafe {has : Cargo → Prop} {due held : Prop}
    (move : Move (.exchange ends plain noted) f f') (room : f'.next ≤ 2 ^ 32)
    (seen : ∀ n ∈ noted, n.toNat < f.next)
    (splits : ∀ x ∈ f.live, ∀ pieces, x.Splits pieces → has x → ∃ y ∈ pieces, has y)
    (data : ∀ x ∈ f.live, has x → x.probe = false) (dueIsSafe : f.DueIsSafe noted has due held) :
    f'.DueIsSafe noted has due held := by
  let kept (x : Cargo) : Prop := has x → held
  have safe : ∀ e ∈ f.tracked, e.1 ∈ noted → kept e.2 := dueIsSafe.safe
  exact ⟨move.safe room seen safe,
    fun owed => move.effect.covered splits safe data (dueIsSafe.covered owed)⟩

/-- The peer has what it noted, of the stream `id`, and the rest of what was
written is still here. -/
def Secured (f : Flight) (id : UInt32) (noted : List UInt32) (held : Nat → Prop) : Prop :=
  ∀ offset, f.DueIsSafe noted (fun x => x.bears id offset = true) (offset < f.extent id) (held offset)

variable {id : UInt32} {held : Nat → Prop}

theorem Nested.bears_piece (nested : f.Nested) {x : Cargo} (alive : x ∈ f.live)
    {pieces : List Cargo} (splits : x.Splits pieces) {offset : Nat}
    (bears : x.bears id offset = true) : ∃ y ∈ pieces, y.bears id offset = true := by
  obtain ⟨sf, holds, -, -⟩ := (nested.single x alive).isStreamFrame_of_bears bears
  have stop := nested.bounded id _ (mem_spans_of_live alive holds)
  exact splits.bears_piece holds (Nat.lt_of_le_of_lt stop (nested.small id)) bears

theorem Move.secured (move : Move (.exchange ends plain noted) f f') (room : f'.next ≤ 2 ^ 32)
    (nested : f.Nested) (seen : ∀ n ∈ noted, n.toNat < f.next)
    (secured : f.Secured id noted held) : f'.Secured id noted held := by
  intro offset
  have dueIsSafe := move.dueIsSafe room seen
    (fun x alive pieces splits => nested.bears_piece alive splits)
    (fun x alive bears => by
      obtain ⟨sf, -, -, data⟩ := (nested.single x alive).isStreamFrame_of_bears bears
      exact data)
    (secured offset)
  refine ⟨dueIsSafe.safe, fun below => ?_⟩
  by_cases old : offset < f.extent id
  · exact dueIsSafe.covered old
  · cases move.effect with
    | grow x allowed live wire extent =>
      rw [extent] at below
      cases allowed.1.1 with
      | probe size probe frames =>
        rw [if_pos probe] at below
        exact absurd below old
      | data sf data frames =>
        have none : ¬ x.probe = true := by simp [data]
        rw [if_neg none, Cargo.advance, frames] at below
        dsimp only at below
        by_cases own : id = x.sourceStreamID
        · subst own
          rw [Function.update_self] at below
          have start := (allowed.2 sf frames).1
          refine .inl ⟨x, live ▸ Multiset.mem_cons_self _ _, ?_⟩
          refine (Cargo.bears_of_stream frames _ offset).mpr ⟨⟨frames, rfl⟩, ?_, below⟩
          show sf.offset.toNat ≤ offset
          omega
        · rw [Function.update_of_ne own] at below
          exact absurd below old
    | stay _ _ extent | shed _ _ _ _ _ _ extent | cut _ _ _ _ _ _ _ extent
    | put _ _ _ _ extent =>
      rw [extent] at below
      exact absurd below old

/-- What the moves of an exchange keep, whatever is owed in between. -/
structure Stable (ends : Stream.Endings) (plain : Packet → Prop) (noted : List UInt32)
    (Inv : Flight → Prop) : Prop where
  settle : ∀ f debt, Inv f → Inv { f with debt := debt }
  move : ∀ f f', Move (.exchange ends plain noted) f f' → f'.next ≤ 2 ^ 32 →
    f.OfExchange ends plain → (∀ n ∈ noted, n.toNat < f.next) → Inv f → Inv f'

theorem Moves.stable (moves : Moves (.exchange ends plain noted) f f') (quiet : CarryNoData plain)
    (room : f'.next ≤ 2 ^ 32) (ofExchange : f.OfExchange ends plain)
    (seen : ∀ n ∈ noted, n.toNat < f.next) :
    f'.OfExchange ends plain ∧ ∀ Inv, Stable ends plain noted Inv → Inv f → Inv f' := by
  let Kept (g : Flight) : Prop := g.next ≤ 2 ^ 32 → f.next ≤ g.next ∧ g.OfExchange ends plain ∧
    ∀ Inv, Stable ends plain noted Inv → Inv f → Inv g
  have step (g g' : Flight) (move : Move (.exchange ends plain noted) g g') (holds : Kept g) :
      Kept g' := by
    intro room
    have next := move.next_le
    obtain ⟨later, ofExchange, kept⟩ := holds (Nat.le_trans next room)
    refine ⟨Nat.le_trans later next, move.ofExchange quiet room ofExchange,
      fun Inv stable start => ?_⟩
    exact stable.move g g' move room ofExchange
      (fun n member => Nat.lt_of_lt_of_le (seen n member) later) (kept Inv stable start)
  have start : Kept f := fun _ => ⟨Nat.le_refl _, ofExchange, fun Inv stable start => start⟩
  exact (moves.keep step start room).2

theorem stable_secured : Stable ends plain noted (Secured · id noted held) where
  settle _ _ secured offset := ⟨(secured offset).safe, (secured offset).covered⟩
  move _ _ move room ofExchange seen secured := move.secured room ofExchange.nested seen secured

theorem stable_wire (pkt : Packet) : Stable ends plain noted (fun f => pkt ∈ f.wire) where
  settle _ _ sent := sent
  move _ _ move _ _ _ sent := move.wire_subset sent

variable {more : Packet → Prop}

theorem Move.relax (move : Move (.exchange ends plain noted) f f')
    (weaker : ∀ pkt, plain pkt → more pkt) : Move (.exchange ends more noted) f f' := by
  cases move with
  | send x data allowed => exact .send f x data allowed
  | probe x probe allowed => exact .probe f x probe allowed
  | resend x rest data waits => exact .resend f x rest data waits
  | ack n x rest present reported => exact .ack f n x rest present reported
  | lose n x rest present data => exact .lose f n x rest present data
  | lapse n x rest present probe => exact .lapse f n x rest present probe
  | split x pieces rest waits splits => exact .split f x pieces rest waits splits
  | book bytes => exact .book f bytes
  | land bytes owed => exact .land f bytes owed
  | emit pkt x present carries => exact .emit f pkt x present carries
  | control pkt allowed => exact .control f pkt (weaker pkt allowed)

theorem OfExchange.relax (ofExchange : f.OfExchange ends plain)
    (weaker : ∀ pkt, plain pkt → more pkt) :
    f.OfExchange ends more :=
  ⟨ofExchange.numbered, ofExchange.nested, ofExchange.shaped.live,
    fun pkt sent => (ofExchange.shaped.wire pkt sent).imp_right (weaker pkt)⟩

theorem OfExchange.widen {ends' : Stream.Endings} (ofExchange : f.OfExchange ends plain)
    (wider : ∀ id offset, ends id offset → ends' id offset) : f.OfExchange ends' plain := by
  have formed (x : Cargo) (formed : x.Formed ends) : x.Formed ends' :=
    ⟨formed.1, fun sf frames fin => (formed.2 sf frames fin).imp_left (wider _ _)⟩
  refine ⟨ofExchange.numbered, ofExchange.nested,
    fun x alive => formed x (ofExchange.shaped.live x alive),
    fun pkt sent => (ofExchange.shaped.wire pkt sent).imp_left ?_⟩
  exact fun ⟨x, whole, carries⟩ => ⟨x, formed x whole, carries⟩

theorem Stable.restrict {Inv : Flight → Prop} (stable : Stable ends more noted Inv)
    (weaker : ∀ pkt, plain pkt → more pkt) : Stable ends plain noted Inv :=
  ⟨stable.settle, fun f f' move room ofExchange =>
    stable.move f f' (move.relax weaker) room (ofExchange.relax weaker)⟩

theorem OfExchange.settle (ofExchange : f.OfExchange ends plain) (debt : Int) :
    { f with debt := debt }.OfExchange ends plain :=
  ⟨⟨ofExchange.numbered.below, ofExchange.numbered.distinct, ofExchange.numbered.shown⟩,
    ⟨ofExchange.nested.single, ofExchange.nested.small, ofExchange.nested.bounded,
      ofExchange.nested.laminar,
      ofExchange.nested.finest, ofExchange.nested.once⟩,
    ofExchange.shaped.live, ofExchange.shaped.wire⟩

end Flight

end Udx
