import Udx.FinDelivery
import Udx.HeldChunks
import Udx.Integrity
import Udx.StreamLifecycle

set_option autoImplicit false

/- A transfer that has come to rest is complete. Once nothing that a side tracks or
waits to send again carries data of a stream, the other side has all that was written
on it, in order; and once no FIN of it is on its way either, reading ends with EOF. -/

namespace Udx

open Spans

/-- A stream may end anywhere. -/
def Stream.Endings.always : Stream.Endings := fun _ _ => True

def Frame.loaded : Frame → Bool
  | .stream sf => !sf.data.isEmpty
  | _ => false

def Cargo.loaded (x : Cargo) (id : UInt32) : Bool :=
  x.sourceStreamID = id && x.frames.any Frame.loaded

theorem Cargo.loaded_of_bears {x : Cargo} {id : UInt32} {offset : Nat}
    (bears : x.bears id offset = true) : x.loaded id = true := by
  obtain ⟨own, inside⟩ := Bool.and_eq_true_iff.mp bears
  obtain ⟨f, member, here⟩ := List.any_eq_true.mp inside
  refine Bool.and_eq_true_iff.mpr ⟨own, List.any_eq_true.mpr ⟨f, member, ?_⟩⟩
  cases f with
  | stream sf =>
    have within : sf.offset.toNat ≤ offset ∧ offset < sf.offset.toNat + sf.data.length :=
      of_decide_eq_true here
    rw [Frame.loaded, Bool.not_eq_true', List.isEmpty_eq_false_iff]
    intro empty
    rw [empty, List.length_nil] at within
    omega
  | _ => cases here

namespace Stream

variable {s t : Stream} {family more : Set Span}

theorem upheld_inPlace (own far : Endings) :
    Upheld own far InPlace fun s => s.flowControlViolation = false where
  ordered inPlace := inPlace.ordered
  mono inPlace grown := inPlace.mono grown
  blank blank := blank.inPlace
  retains retains _ inPlace := inPlace.congr retains.early retains.front
  receive inPlace laminar small member _ := inPlace.receive laminar small member

theorem InPlace.front (inPlace : s.InPlace family) {size : Nat}
    (all : ∀ offset, offset < size → s.Has offset) : size ≤ s.recvOffset := by
  by_contra short
  rw [Nat.not_le] at short
  rcases all s.recvOffset short with behind | ⟨start, chunk, found, after, before, -⟩
  · exact Nat.lt_irrefl _ behind
  · obtain rfl := Nat.le_antisymm before after
    cases inPlace.idle.symm.trans found

/-- The end is taken note of once everything before it is there. -/
def Punctual (s : Stream) : Prop :=
  s.flowControlViolation = true ∨ (s.complete = true → s.finReceived = true)

theorem punctual_finishLocked : s.finishLocked.Punctual := by
  refine .inr fun complete => ?_
  rw [finishLocked_complete] at complete
  rw [finishLocked_finReceived, complete, Bool.or_true]

theorem Punctual.deliverData (punctual : s.Punctual) (offset : Nat) (data : List UInt8) :
    (s.deliverData offset data).1.Punctual := by
  obtain ⟨_, _, _, _, _, same⟩ := s.sameButBuffers_placeLocked offset data
  have fin := congrArg Stream.finReceived same
  have seen := congrArg Stream.finSeen same
  have size := congrArg Stream.finalSize same
  have still : (s.placeLocked offset data).2 = 0 →
      (s.placeLocked offset data).1.recvOffset = s.recvOffset := placeLocked_rejected
  have broken := fun violated => violated_placeLocked (s := s) violated offset data
  unfold Stream.deliverData
  generalize s.placeLocked offset data = out at fin seen size still broken ⊢
  dsimp only at fin seen size
  dsimp only
  split
  · rename_i violated
    refine .inl ?_
    unfold reset
    split <;> exact violated
  · rename_i lawful
    split
    · exact punctual_finishLocked
    · rename_i rejected
      refine .inr fun complete => ?_
      rw [Stream.complete, seen, size, still (by omega)] at complete
      rw [fin]
      exact punctual.resolve_left (fun violated => lawful (broken violated)) complete

/-- Kept by all that can be done to a stream. -/
structure Lasting (P : Stream → Prop) : Prop where
  fresh : ∀ id remoteID fc accepted, P (.fresh id remoteID fc accepted)
  tends : ∀ {s t : Stream}, s.Tends t → P s → P t
  receive : ∀ {s : Stream} (f : StreamFrame), P s → P (s.receive f).1
  read : ∀ {s : Stream} (size : Nat) (expired : Bool), P s → P (s.read size expired).1
  write : ∀ {s t : Stream} {ask : Ask} {granted remaining : Nat} {batch : Batch},
    s.writeCommit ask granted remaining = some (t, batch) → P s → P t
  close : ∀ {s : Stream}, P s → P s.close.1

theorem lasting_punctual : Lasting Punctual where
  fresh _ _ _ _ := .inr fun complete => by cases complete
  tends tends punctual := by
    cases tends with
    | control | abort => exact punctual
  receive {s} f punctual := by
    unfold receive
    dsimp only
    split <;> split
    · exact punctual_finishLocked
    · exact punctual_finishLocked
    · exact punctual.deliverData _ _
    · exact punctual
  read {s} size expired punctual := by
    have reads := s.reads_read size expired
    generalize s.read size expired = out at reads ⊢
    cases reads with
    | aborted | ended | waits | takes => exact punctual
  write {s t ask granted remaining batch} committed punctual := by
    obtain ⟨-, -, -, rfl⟩ := s.writeCommit_eq_some committed
    exact punctual
  close {s} punctual := by
    unfold close
    split <;> exact punctual

end Stream

namespace Connection

variable {F : Type} {c : Connection F}

/-- No packet that is tracked or waits to go out again has what is asked for. -/
def Clear (c : Connection F) (test : Cargo → Bool) : Prop :=
  (∀ e ∈ c.pm.sentPackets.entries, test (c.pm.cargo e.2) = false) ∧
    ∀ p ∈ c.lostQueue, test (c.pm.cargo p) = false

instance (test : Cargo → Bool) : Decidable (c.Clear test) := inferInstanceAs (Decidable (_ ∧ _))

theorem Clear.mono {test other : Cargo → Bool} (clear : c.Clear test)
    (implied : ∀ x, test x = false → other x = false) : c.Clear other :=
  ⟨fun e member => implied _ (clear.1 e member), fun p member => implied _ (clear.2 p member)⟩

theorem Clear.not_live {test : Cargo → Bool} (clear : c.Clear test) {x : Cargo}
    (alive : x ∈ c.outbound.live) : test x = false := by
  rcases mem_live_iff.mp alive with ⟨e, member, rfl⟩ | ⟨p, member, rfl⟩
  · exact clear.1 e member
  · exact clear.2 p member

theorem Works.lasting [Float64 F] {P : Stream → Prop} (lasting : Stream.Lasting P) {id : UInt32}
    {input : Host.Input} {s t : Option Stream} (works : c.Works id input s t)
    (before : ∀ u ∈ s, P u) :
    ∀ u ∈ t, P u := by
  rintro u ⟨⟩
  cases works with
  | rest => exact before u rfl
  | tends _ tends => exact lasting.tends tends (before _ rfl)
  | opens fc => exact lasting.fresh id 0 fc false
  | takes _ _ f => exact lasting.receive f (before _ rfl)
  | enters _ pkt f fc => exact lasting.receive f (lasting.fresh id pkt.sourceStreamID fc true)
  | reads _ size expired => exact lasting.read size expired (before _ rfl)
  | writes _ _ _ _ _ committed => exact lasting.write committed (before _ rfl)
  | closes => exact lasting.close (before _ rfl)

end Connection

namespace Net

open Connection

variable {F : Type} [Float64 F] {n n' : Net F} {side : Side} {id far : UInt32}

/-- What all that can be done to a stream keeps holds of every stream of a run. -/
theorem lasting_run {start : Net F} (begins : start.Begins) {turns : List (Side × Host.Input)}
    (reached : Runs.run step start turns = some n) (finite : start.Finite turns)
    {P : Stream → Prop} (lasting : Stream.Lasting P) (side : Side) (id : UInt32) :
    ∀ t ∈ (n.conn side).streams.lookup id, P t := by
  have first (side : Side) (id : UInt32) : ∀ t ∈ (start.conn side).streams.lookup id, P t := by
    obtain ⟨cid, peerCID, addr, peerAddr, dialled, accepted, rfl⟩ := begins
    rw [streams_opening]
    exact fun t found => by cases found
  refine Runs.trace_invariant (fun turns (n : Net F) => start.Finite turns →
    ∀ side id, ∀ t ∈ (n.conn side).streams.lookup id, P t) (fun _ => first) ?_
    (Runs.along_true start turns) reached finite side id
  rintro turns n ⟨actor, input⟩ n' reached before - taken finite
  have earlier : start.Finite turns := fun side id =>
    (written_grows start turns [(actor, input)] side id).length_le.trans_lt (finite side id)
  obtain ⟨-, stepped, still⟩ := step_cases taken
  have placed := (faithful_run begins reached earlier).linked actor
  refine Side.forall_of actor (fun id => ?_) ?_
  · exact (Host.works_step placed.keyed placed.absent stepped id).lasting lasting
      (before earlier actor id)
  · rw [conn, still]
    exact before earlier actor.other

theorem run_turnsOf {act : Side × Act} (taken : n.act act = some n') :
    Runs.run step n (turnsOf act) = some n' := by
  obtain ⟨side, act⟩ := act
  cases act with
  | handlePacket now pkt => exact taken
  | own input =>
    rw [Net.act] at taken
    split at taken
    · rw [turnsOf, Runs.run_cons, taken]
      rfl
    · cases taken

theorem run_played {acts : List (Side × Act)} (reached : Runs.run act n acts = some n') :
    Runs.run step n (played acts) = some n' := by
  induction acts generalizing n with
  | nil => exact reached
  | cons act rest ih =>
    rw [Runs.run_cons] at reached
    obtain ⟨mid, taken, later⟩ := Option.bind_eq_some_iff.mp reached
    rw [played, List.flatMap_cons, Runs.run_append, run_turnsOf taken]
    exact ih later

/-- The stream that the other side has for `id` is not over its limit. -/
def Unbroken (n : Net F) (side : Side) (id : UInt32) : Prop :=
  ∀ s ∈ (n.conn side).streams.lookup id, ∀ e ∈ (n.conn side.other).streams.entries,
    s.Counterpart e.2 → e.2.flowControlViolation = false

instance (n : Net F) (side : Side) (id : UInt32) : Decidable (n.Unbroken side id) := inferInstanceAs
  (Decidable (∀ s ∈ (n.conn side).streams.lookup id, ∀ e ∈ (n.conn side.other).streams.entries,
    s.Counterpart e.2 → e.2.flowControlViolation = false))

theorem unbroken_start (cid peerCID : ConnectionID) (addr peerAddr : Addr) (now : Time) :
    (start cid peerCID addr peerAddr now : Net F).Unbroken side id := by
  intro s found
  rw [streams_start] at found
  cases found

theorem ferried_act {told : Side → List UInt32} {turn : Side × Act}
    (ferried : n.Ferried Stream.InPlace (fun _ => .always) told side id) (going : n.Going)
    (going' : n'.Going) (unbroken : n'.Unbroken side id) (taken : n.act turn = some n') :
    ∃ told, n'.Ferried Stream.InPlace (fun _ => .always) told side id := by
  obtain ⟨more, acted⟩ := ferried.exchanged.act (fun _ _ _ => trivial) going going' taken
  exact ⟨_, ferried.next (fun _ => Stream.upheld_inPlace _ _) acted unbroken⟩

omit [Float64 F] in
theorem Linked.counterpart_unique (linked : n.Linked) {s t : Stream}
    (found : (n.conn side).streams.lookup id = some s)
    (there : (n.conn side.other).streams.lookup far = some t) (counterpart : s.Counterpart t)
    {e : (_ : UInt32) × Stream} (member : e ∈ (n.conn side.other).streams.entries)
    (counterpart' : s.Counterpart e.2) : e.2 = t := by
  have facing := linked.facing side
  have present := Tables.lookup_of_mem e member
  have key : e.1 = far := facing.unique (facing.id_ne_zero (Tables.mem_entries_iff.mpr found))
    ⟨e.2, present, counterpart'.symm⟩ ⟨t, there, counterpart.symm⟩
  rw [key] at present
  exact Option.some.inj (present.symm.trans there)

omit [Float64 F] in
/-- Nothing of the stream is on its way: its counterpart has all of it. -/
theorem Ferried.recvOffset_ge {told : Side → List UInt32} {ends : Side → Stream.Endings}
    (ferried : n.Ferried Stream.InPlace ends told side id) {s t : Stream}
    (found : (n.conn side).streams.lookup id = some s)
    (there : (n.conn side.other).streams.lookup far = some t) (counterpart : s.Counterpart t)
    (rest : (n.conn side).Clear (·.loaded id)) : s.bytesWritten ≤ t.recvOffset := by
  refine (ferried.each side.other ⟨far, t⟩ (Tables.mem_entries_iff.mpr there)).front ?_
  intro offset below
  have extent : offset < (n.conn side).written id := by
    rw [written_of_found found]
    exact below
  rcases (ferried.secured offset).covered extent with ⟨x, alive, bears⟩ | ⟨e, member, feeds, has⟩
  · cases (rest.not_live alive).symm.trans (Cargo.loaded_of_bears bears)
  · obtain ⟨u, present, counterpart'⟩ := feeds
    obtain rfl := Option.some.inj (found.symm.trans present)
    rw [← ferried.exchanged.linked.counterpart_unique found there counterpart member counterpart']
    exact has

omit [Float64 F] in
theorem Faithful.all_delivered {wrote returned : Side → UInt32 → List UInt8}
    {ended : Side → UInt32 → List Nat} (faithful : Faithful wrote returned ended n) {s t : Stream}
    (found : (n.conn side).streams.lookup id = some s)
    (there : (n.conn side.other).streams.lookup far = some t) (counterpart : s.Counterpart t)
    (reached : s.bytesWritten ≤ t.recvOffset) :
    returned side.other far ++ t.recvBuf = wrote side id ∧ t.recvOffset = s.bytesWritten := by
  have hears := faithful.hears side.other far t there
  rw [Side.other_other] at hears
  obtain ⟨held, -, -, -⟩ := hears.fed id ⟨s, found, counterpart⟩
  have count : s.bytesWritten = (wrote side id).length := by
    rw [← faithful.written, written_of_found found]
  have front : returned side.other far ++ t.recvBuf = (wrote side id).take t.recvOffset := held.front
  have inside : t.recvOffset ≤ (wrote side id).length := held.inside
  refine ⟨?_, by omega⟩
  rw [front, List.take_of_length_le (by omega)]

omit [Float64 F] in
/-- Something was written and nothing of it is on its way: the other side has the
stream. -/
theorem Ferried.exists_counterpart {told : Side → List UInt32} {ends : Side → Stream.Endings}
    (ferried : n.Ferried Stream.InPlace ends told side id) {s : Stream}
    (found : (n.conn side).streams.lookup id = some s)
    (rest : (n.conn side).Clear (·.loaded id)) (some : 0 < s.bytesWritten) :
    ∃ far t, (n.conn side.other).streams.lookup far = Option.some t ∧ s.Counterpart t := by
  have extent : 0 < (n.conn side).written id := by
    rw [written_of_found found]
    exact some
  rcases (ferried.secured 0).covered extent with ⟨x, alive, bears⟩ | ⟨e, member, feeds, -⟩
  · cases (rest.not_live alive).symm.trans (Cargo.loaded_of_bears bears)
  · obtain ⟨u, present, counterpart⟩ := feeds
    obtain rfl := Option.some.inj (found.symm.trans present)
    exact ⟨e.1, e.2, Tables.lookup_of_mem e member, counterpart⟩

/-- In every run in which the receiving stream keeps within its limit, and at every moment
at which no packet that is tracked or waits has data of the stream, the other side has a
counterpart if anything was written, and what it has read of it and what waits there to be
read is all that was written. -/
theorem rest_delivers_all {cid peerCID : ConnectionID} {addr peerAddr : Addr} {now : Time}
    {acts : List (Side × Act)}
    (along : Runs.Along act (fun n turn => ∀ n' ∈ n.act turn, n'.Going ∧ n'.Unbroken side id)
      (start cid peerCID addr peerAddr now : Net F) acts)
    (reached : Runs.run act (start cid peerCID addr peerAddr now : Net F) acts = some n)
    (finite : (start cid peerCID addr peerAddr now : Net F).Finite (played acts)) {s : Stream}
    (found : (n.conn side).streams.lookup id = some s)
    (rest : (n.conn side).Clear (·.loaded id)) :
    (0 < s.bytesWritten →
      ∃ far t, (n.conn side.other).streams.lookup far = some t ∧ s.Counterpart t) ∧
    ∀ far t, (n.conn side.other).streams.lookup far = some t → s.Counterpart t →
      (start cid peerCID addr peerAddr now : Net F).read (played acts) side.other far ++ t.recvBuf =
          (start cid peerCID addr peerAddr now : Net F).written (played acts) side id ∧
        t.recvOffset = s.bytesWritten := by
  have kept : n.Going ∧ ∃ told, n.Ferried Stream.InPlace (fun _ => .always) told side id := by
    refine Runs.invariant (fun n => n.Going ∧
      ∃ told, n.Ferried Stream.InPlace (fun _ => .always) told side id) ?_
      ⟨going_start cid peerCID addr peerAddr now, _,
        ferried_start Stream.InPlace _ cid peerCID addr peerAddr now⟩ along reached
    rintro n turn n' ⟨going, told, ferried⟩ later taken
    obtain ⟨going', unbroken⟩ := later n' taken
    exact ⟨going', ferried_act ferried going going' unbroken taken⟩
  obtain ⟨-, told, ferried⟩ := kept
  have faithful := faithful_run (begins_start cid peerCID addr peerAddr now) (run_played reached) finite
  exact ⟨ferried.exists_counterpart found rest, fun far t there counterpart =>
    faithful.all_delivered found there counterpart
      (ferried.recvOffset_ge found there counterpart rest)⟩

/-- At the end of the handed-over byte nothing is on its way, and it is there. -/
theorem rest_delivers_all_handedOver :
    met.written (played handedOver) .left 1 = [7] ∧
      ∃ n far t, Runs.run act met handedOver = some n ∧
        (n.conn .right).streams.lookup far = some t ∧
        met.read (played handedOver) .right far ++ t.recvBuf =
          met.written (played handedOver) .left 1 := by
  have along : Runs.Along act (fun n turn => ∀ n' ∈ n.act turn, n'.Going ∧ n'.Unbroken .left 1)
      met handedOver := by
    decide +kernel
  have streams : (Runs.run act met handedOver).any (fun n =>
      ((n.conn .left).streams.lookup 1).any fun s =>
        decide (0 < s.bytesWritten ∧ (n.conn .left).Clear (·.loaded 1))) = true := by
    decide +kernel
  obtain ⟨n, reached, streams⟩ := Runs.reaches_of_any streams
  obtain ⟨s, here, streams⟩ := (Option.any_eq_true _ _).mp streams
  obtain ⟨wrote, rest⟩ := of_decide_eq_true streams
  obtain ⟨exists', delivered⟩ :=
    rest_delivers_all along reached (finite_of_given (by decide +kernel)) here rest
  obtain ⟨far, t, there, counterpart⟩ := exists' wrote
  exact ⟨by decide +kernel, n, far, t, reached, there, (delivered far t there counterpart).1⟩

end Net

namespace Net.Observed

open Connection Net

variable {F : Type} [Float64 F] {o : Net.Observed F} {side : Side} {id far : UInt32}

theorem run_net {start : Net.Observed F} {acts : List (Side × Net.Act)}
    (reached : Runs.run (act side id) start acts = some o) :
    Runs.run Net.act start.net acts = some o.net := by
  induction acts generalizing start with
  | nil =>
    obtain rfl := Option.some.inj reached
    rfl
  | cons turn rest ih =>
    rw [Runs.run_cons] at reached
    obtain ⟨mid, taken, later⟩ := Option.bind_eq_some_iff.mp reached
    obtain ⟨net, acted, rfl⟩ := Option.map_eq_some_iff.mp taken
    rw [Runs.run_cons, acted]
    exact ih later

/-- In every run in which no FIN of the stream is handled without a stream to take it: once the
stream has been closed after everything that was written, and neither data nor a FIN of it is
tracked or waits, a reader that has emptied its buffer has read all that was written, and reads
EOF next. -/
theorem rest_reaches_eof {cid peerCID : ConnectionID} {addr peerAddr : Addr} {now : Time}
    {acts : List (Side × Net.Act)}
    (along : Runs.Along (act side id) (fun o turn => o.net.overtaken side id turn = false ∧
      ∀ o' ∈ o.act side id turn, o'.net.Going ∧ o'.net.Unbroken side id)
      (⟨start cid peerCID addr peerAddr now, []⟩ : Net.Observed F) acts)
    (reached : Runs.run (act side id) (⟨start cid peerCID addr peerAddr now, []⟩ : Net.Observed F) acts =
      some o)
    (finite : (start cid peerCID addr peerAddr now : Net F).Finite (played acts)) {s t : Stream}
    (found : (o.net.conn side).streams.lookup id = some s)
    (there : (o.net.conn side.other).streams.lookup far = some t) (counterpart : s.Counterpart t)
    (rest : (o.net.conn side).Clear fun x => x.loaded id || x.finishes id)
    (closed : o.closed ≠ []) (last : ∀ size ∈ o.closed, size = s.bytesWritten)
    (live : t.state ≠ .reset) (emptied : t.recvBuf = []) (later : Time) (size : Nat)
    (expired : Bool) :
    (start cid peerCID addr peerAddr now : Net F).read (played acts) side.other far =
        (start cid peerCID addr peerAddr now : Net F).written (played acts) side id ∧
      ∃ c, (o.net.conn side.other).read later far size expired = some (c, .eof) := by
  have kept : o.net.Going ∧ o.net.Unbroken side id ∧
      (∃ told, o.net.Concluding told side id o.closed) ∧
      ∃ told, o.net.Ferried Stream.InPlace (fun _ => .always) told side id := by
    refine Runs.invariant (fun o => o.net.Going ∧ o.net.Unbroken side id ∧
      (∃ told, o.net.Concluding told side id o.closed) ∧
      ∃ told, o.net.Ferried Stream.InPlace (fun _ => .always) told side id) ?_
      ⟨going_start cid peerCID addr peerAddr now, unbroken_start cid peerCID addr peerAddr now,
        ⟨_, concluding_start cid peerCID addr peerAddr now⟩, _,
        ferried_start Stream.InPlace _ cid peerCID addr peerAddr now⟩ along reached
    rintro o turn o' ⟨going, -, ⟨told, concluding⟩, told', ferried⟩ ⟨found, later⟩ taken
    obtain ⟨going', unbroken⟩ := later o' taken
    have concluding' := concluding_act concluding found going going' taken
    obtain ⟨net, acted, rfl⟩ := Option.map_eq_some_iff.mp taken
    exact ⟨going', unbroken, concluding', ferried_act ferried going going' unbroken acted⟩
  obtain ⟨-, unbroken, ⟨told, concluding⟩, told', ferried⟩ := kept
  have begins := begins_start (F := F) cid peerCID addr peerAddr now
  have ran := run_played (run_net reached)
  have arrived := ferried.recvOffset_ge found there counterpart
    (rest.mono fun x none => (Bool.or_eq_false_iff.mp none).1)
  obtain ⟨whole, front⟩ :=
    (faithful_run begins ran finite).all_delivered found there counterpart arrived
  rw [emptied, List.append_nil] at whole
  refine ⟨whole, ?_⟩
  have known : t.KnowsEnd o.closed := by
    rcases concluding.dueIsSafe.covered closed with ⟨x, alive, finishes⟩ | ⟨e, member, feeds, known⟩
    · cases (Bool.or_eq_false_iff.mp (rest.not_live alive)).2.symm.trans finishes
    · obtain ⟨u, present, counterpart'⟩ := feeds
      obtain rfl := Option.some.inj (found.symm.trans present)
      rw [← ferried.exchanged.linked.counterpart_unique found there counterpart member counterpart']
      exact known
  have complete : t.complete = true := by
    have final := last _ known.2
    rw [Stream.complete, known.1, Bool.true_and, decide_eq_true_eq]
    omega
  have lawful := unbroken s found ⟨far, t⟩ (Tables.mem_entries_iff.mpr there) counterpart
  have ended : t.finReceived = true :=
    (lasting_run begins ran finite Stream.lasting_punctual side.other far t there).resolve_left
      (fun violated => by cases violated.symm.trans lawful) complete
  have eof : (t.read size expired).2.1 = .eof := by
    simp [Stream.read, emptied, live, ended]
  simp only [Connection.read, there, Option.bind_eq_bind, Option.bind_some, eof]
  exact ⟨_, rfl⟩

/-- The dialler writes a byte and closes, both are acknowledged, and its peer reads. -/
theorem rest_reaches_eof_inOrder :
    let acts := inOrder ++ [(.right, .own (.read 0 2 10 false))]
    met.written (played acts) .left 1 = [7] ∧
      ∃ o c, Runs.run (act .left 1) (⟨met, []⟩ : Net.Observed ℚ) acts = some o ∧
        met.read (played acts) .right 2 = met.written (played acts) .left 1 ∧
        (o.net.conn .right).read 0 2 10 false = some (c, .eof) := by
  intro acts
  have along : Runs.Along (act .left 1) (fun o turn => o.net.overtaken .left 1 turn = false ∧
      ∀ o' ∈ o.act .left 1 turn, o'.net.Going ∧ o'.net.Unbroken .left 1)
      (⟨met, []⟩ : Net.Observed ℚ) acts := by
    decide +kernel
  have streams : (Runs.run (act .left 1) (⟨met, []⟩ : Net.Observed ℚ) acts).any (fun o =>
      ((o.net.conn .left).streams.lookup 1).any fun s =>
        ((o.net.conn .right).streams.lookup 2).any fun t =>
          decide (s.Counterpart t ∧
            (o.net.conn .left).Clear (fun x => x.loaded 1 || x.finishes 1) ∧ o.closed ≠ [] ∧
            (∀ size ∈ o.closed, size = s.bytesWritten) ∧ t.state ≠ .reset ∧ t.recvBuf = [])) =
      true := by
    decide +kernel
  obtain ⟨o, reached, streams⟩ := Runs.reaches_of_any streams
  obtain ⟨s, here, streams⟩ := (Option.any_eq_true _ _).mp streams
  obtain ⟨t, there, streams⟩ := (Option.any_eq_true _ _).mp streams
  obtain ⟨counterpart, rest, closed, last, live, emptied⟩ := of_decide_eq_true streams
  obtain ⟨whole, c, ended⟩ := rest_reaches_eof along reached (finite_of_given (by decide +kernel))
    here there counterpart rest closed last live emptied 0 10 false
  exact ⟨by decide +kernel, o, c, reached, whole, ended⟩

end Net.Observed

end Udx
