import Udx.Host

set_option autoImplicit false

/- The stream table. A stream stays where it was entered, under its own ID, and
keeps the two IDs it was entered with. Streams enter by `OpenStream`, which
looks at the limit, and by STREAM frames, which do not. -/

namespace Udx

namespace Connection

variable {F : Type} {a b c : Connection F}

def Keyed (c : Connection F) : Prop := ∀ e ∈ c.streams.entries, e.2.id = e.1

theorem Keyed.lookup (keyed : c.Keyed) {s : Stream} (present : s.ids ∈ c.ids) :
    ∃ t, c.streams.lookup s.id = some t ∧ t.ids = s.ids := by
  obtain ⟨e, member, same⟩ := List.mem_map.mp present
  have key : s.id = e.1 := (congrArg Prod.fst same).symm.trans (keyed e member)
  exact ⟨e.2, key ▸ Tables.lookup_of_mem e member, same⟩

theorem Keyed.setStream (keyed : c.Keyed) (t : Stream) : (c.setStream t).Keyed := by
  intro e member
  rcases Tables.mem_of_mem_insert member with rfl | old
  · rfl
  · exact keyed e old

/-- The same streams, whatever has become of them. -/
structure Restocks (c c' : Connection F) : Prop where
  keyed : c'.Keyed
  ids : c'.ids.Perm c.ids
  next : c'.nextStreamID = c.nextStreamID
  limit : c'.maxStreams = c.maxStreams

theorem Restocks.length (restocks : Restocks a b) :
    b.streams.entries.length = a.streams.entries.length := by
  have := restocks.ids.length_eq
  rwa [Connection.ids, Connection.ids, List.length_map, List.length_map] at this

theorem Restocks.trans (first : Restocks a b) (second : Restocks b c) : Restocks a c :=
  ⟨second.keyed, second.ids.trans first.ids, second.next.trans first.next,
    second.limit.trans first.limit⟩

section

variable (keyed : a.Keyed)
include keyed

theorem Restocks.refl : Restocks a a := ⟨keyed, .refl _, rfl, rfl⟩

theorem Restocks.same (streams : b.streams = a.streams) (next : b.nextStreamID = a.nextStreamID)
    (limit : b.maxStreams = a.maxStreams) : Restocks a b := by
  refine ⟨?_, ?_, next, limit⟩
  · rw [Keyed, streams]
    exact keyed
  · rw [Connection.ids, streams]
    exact .refl _

theorem Keeps.restocks {labels : List (UInt32 × UInt32)} (keeps : Keeps labels a b) :
    Restocks a b :=
  .same keyed (congrArg Endpoint.streams keeps.endpoint)
    (congrArg Endpoint.nextStreamID keeps.endpoint) (congrArg Endpoint.maxStreams keeps.endpoint)

theorem restocks_setStream {t : Stream} (present : t.ids ∈ a.ids) : Restocks a (a.setStream t) := by
  refine ⟨keyed.setStream t, ?_, rfl, rfl⟩
  obtain ⟨s, found, same⟩ := keyed.lookup present
  have before : a.ids.Perm (s.ids :: (a.streams.erase t.id).entries.map fun e => e.2.ids) :=
    (Tables.perm_erase found).map fun e : (_ : UInt32) × Stream => e.2.ids
  rw [same] at before
  have after : (a.setStream t).ids =
      t.ids :: (a.streams.erase t.id).entries.map fun e => e.2.ids := by
    rw [Connection.ids, setStream, AList.entries_insert]
    rfl
  rw [after]
  exact before.symm

theorem restocks_foldl_deliverReset (code : UInt32) {streams : List Stream}
    (present : ∀ s ∈ streams, s.ids ∈ a.ids) :
    Restocks a (streams.foldl (fun c s => c.setStream (s.deliverReset code)) a) := by
  induction streams generalizing a with
  | nil => exact .refl keyed
  | cons s rest ih =>
    obtain ⟨here, later⟩ := List.forall_mem_cons.mp present
    have first : Restocks a (a.setStream (s.deliverReset code)) := restocks_setStream keyed here
    exact first.trans (ih first.keyed fun t member => first.ids.symm.subset (later t member))

theorem restocks_resetAll (code : UInt32) : Restocks a (a.resetAll code) := by
  have closed : Restocks a { a with state := .closed } := .same keyed rfl rfl rfl
  refine closed.trans (restocks_foldl_deliverReset closed.keyed code fun s member => ?_)
  obtain ⟨e, inside, rfl⟩ := List.mem_map.mp member
  exact List.mem_map_of_mem inside

theorem restocks_sendControlTo (frames : List Frame) (addr : Addr) :
    Restocks a (a.sendControlTo frames addr) := .same keyed rfl rfl rfl

theorem Change.restocks (change : Change a b) : Restocks a b := by
  cases change with
  | work keeps => exact keeps.restocks keyed
  | stream t present => exact restocks_setStream keyed present
  | aside same =>
    exact .same keyed (congrArg Core.streams same) (congrArg Core.nextStreamID same)
      (congrArg Core.maxStreams same)

theorem Changes.restocks (changes : Changes a b) : Restocks a b := by
  induction changes with
  | refl => exact .refl keyed
  | tail _ change ih => exact ih.trans (change.restocks ih.keyed)

theorem restocks_announced (now : Time) (code : UInt32) (reason : List UInt8)
    (announce : Bool) : Restocks a (a.announced now code reason announce) := by
  have closing : Restocks a { a with state := .closing, ackTimer := none, ackPending := 0 } :=
    .same keyed rfl rfl rfl
  exact closing.trans ((sends_announced now code reason announce).toKeeps.restocks closing.keyed)

theorem restocks_closeInternal (now : Time) (code : UInt32) (reason : List UInt8)
    (announce : Bool) : Restocks a (a.closeInternal now code reason announce) := by
  have told := restocks_announced keyed now code reason announce
  have reset := told.trans (restocks_resetAll told.keyed code)
  rw [closeInternal_eq]
  split
  · exact .refl keyed
  · exact reset.trans (.same reset.keyed rfl rfl rfl)

end

theorem Keyed.enter (keyed : c.Keyed) (remoteID : UInt32) (state : StreamState) :
    (c.enter remoteID state).Keyed :=
  Keyed.setStream (c := { c with nextStreamID := c.nextStreamID + 2 }) keyed _

theorem length_enter_le (c : Connection F) (remoteID : UInt32) (state : StreamState) :
    (c.enter remoteID state).streams.entries.length ≤ c.streams.entries.length + 1 := by
  rw [Connection.enter, setStream, AList.entries_insert]
  exact Nat.succ_le_succ (List.kerase_sublist _ _).length_le

theorem length_le_enter (c : Connection F) (remoteID : UInt32) (state : StreamState) :
    c.streams.entries.length ≤ (c.enter remoteID state).streams.entries.length :=
  Tables.length_le_insert

end Connection

namespace Host

variable {F : Type} [Float64 F] {h h' : Host F}

theorem keyed_step {input : Input} (keyed : h.conn.Keyed) (taken : h.step input = some h') :
    h'.conn.Keyed := by
  cases step_effect taken with
  | serve callers changes => exact (changes.restocks keyed).keyed
  | openStream => exact keyed.enter 0 .idle
  | enter now pkt f _ _ _ changes => exact (changes.restocks (keyed.enter _ _)).keyed
  | close now code reason announce =>
    exact (Connection.restocks_closeInternal keyed now code reason announce).keyed
  | ack now pkt f => exact ((Connection.keeps_handleAckFrame now f).restocks keyed).keyed
  | challenge => exact (Connection.restocks_sendControlTo keyed _ _).keyed
  | raise | arrive | move | respond | pend | reject | finish => exact keyed

def Opens (h : Host F) (pkt : Packet) (f : StreamFrame) : Prop :=
  h.conn.findStream pkt.destinationStreamID pkt.sourceStreamID = none ∧ pkt.sourceStreamID ≠ 0 ∧
    (f.isSyn ∨ f.data.length > 0)

/-- The peer opens a stream only while the table has room. -/
def Invited (h : Host F) : Input → Prop
  | .frame _ pkt (.stream f) =>
    h.Opens pkt f → h.conn.streams.entries.length < h.conn.maxStreams
  | _ => True

instance (h : Host F) (pkt : Packet) (f : StreamFrame) : Decidable (h.Opens pkt f) :=
  inferInstanceAs (Decidable (_ ∧ _))

instance (h : Host F) : (input : Input) → Decidable (h.Invited input)
  | .frame _ pkt f =>
    match f with
    | .stream f => inferInstanceAs (Decidable (h.Opens pkt f → _ < _))
    | .padding | .ping | .ack _ | .windowUpdate _ | .maxData _ | .resetStream _ | .stopSending _ _
    | .connectionClose _ | .maxStreams _ | .newConnectionID _ | .retireConnectionID _
    | .pathChallenge _ | .pathResponse _ | .mtuProbe _ | .dataBlocked _
    | .streamDataBlocked _ _ => inferInstanceAs (Decidable True)
  | .arrive .. | .note .. | .observeAddr .. | .sendChallenge _ | .ackTimer .. | .lossTimer _
  | .pto _ | .flushLost _ | .idleCheck _ | .openStream | .acceptStream | .write .. | .writeBlocked ..
  | .read .. | .closeStream .. | .resetStream .. | .ping _ | .close .. | .migrate .. | .answer _
  | .giveUp _ => inferInstanceAs (Decidable True)

/-- The stream limit once the input is handled. -/
def raised (limit : Nat) : Input → Nat
  | .frame _ _ (.maxStreams count) => max limit count.toNat
  | _ => limit

theorem raised_eq {limit : Nat} {input : Input}
    (other : ∀ now pkt count, input ≠ .frame now pkt (.maxStreams count)) :
    raised limit input = limit := by
  unfold raised
  split
  · exact absurd rfl (other _ _ _)
  · rfl

/-- What holds of the stream table after the inputs. Only MAX_STREAMS frames
have raised its limit. -/
structure Stocked (inputs : List Input) (h : Host F) : Prop where
  keyed : h.conn.Keyed
  within : h.conn.streams.entries.length ≤ h.conn.maxStreams
  limit : h.conn.maxStreams = inputs.foldl raised initialMaxStreams

omit [Float64 F] in
theorem Stocked.restock {inputs : List Input} (stocked : Stocked inputs h)
    {input : Input} (other : ∀ now pkt count, input ≠ .frame now pkt (.maxStreams count))
    (restocks : h.conn.Restocks h'.conn) : Stocked (inputs ++ [input]) h' := by
  refine ⟨restocks.keyed, ?_, ?_⟩
  · rw [restocks.length, restocks.limit]
    exact stocked.within
  · rw [restocks.limit, stocked.limit, List.foldl_append]
    exact (raised_eq other).symm

omit [Float64 F] in
/-- A stream is entered where there is room, and the connection goes on. -/
theorem Stocked.enter {inputs : List Input} (stocked : Stocked inputs h)
    {input : Input} (other : ∀ now pkt count, input ≠ .frame now pkt (.maxStreams count))
    (room : h.conn.streams.entries.length < h.conn.maxStreams) {remoteID : UInt32}
    {state : StreamState} (changes : (h.conn.enter remoteID state).Changes h'.conn) :
    Stocked (inputs ++ [input]) h' := by
  have restocks := changes.restocks (stocked.keyed.enter remoteID state)
  refine ⟨restocks.keyed, ?_, ?_⟩
  · rw [restocks.length, restocks.limit]
    exact Nat.le_trans (h.conn.length_enter_le remoteID state) room
  · rw [restocks.limit, List.foldl_append]
    exact stocked.limit.trans (raised_eq other).symm

theorem Stocked.raise {inputs : List Input} (stocked : Stocked inputs h) (now : Time)
    (pkt : Packet) (count : UInt32) :
    Stocked (inputs ++ [.frame now pkt (.maxStreams count)])
      { h with conn := h.conn.handleFrame now pkt (.maxStreams count) } := by
  have within := stocked.within
  unfold Connection.handleFrame
  dsimp only
  split
  · rename_i more
    refine ⟨stocked.keyed, Nat.le_trans within (Nat.le_of_lt more), ?_⟩
    rw [List.foldl_append, ← stocked.limit]
    exact (Nat.max_eq_right (Nat.le_of_lt more)).symm
  · rename_i less
    refine ⟨stocked.keyed, within, ?_⟩
    rw [List.foldl_append, ← stocked.limit]
    exact (Nat.max_eq_left (Nat.le_of_not_lt less)).symm

theorem Stocked.step {inputs : List Input} {input : Input} (stocked : Stocked inputs h)
    (invited : h.Invited input) (taken : h.step input = some h') :
    Stocked (inputs ++ [input]) h' := by
  by_cases raise : ∃ now pkt count, input = .frame now pkt (.maxStreams count)
  · obtain ⟨now, pkt, count, rfl⟩ := raise
    obtain rfl := Option.some.inj taken
    exact stocked.raise now pkt count
  have other : ∀ now pkt count, input ≠ .frame now pkt (.maxStreams count) :=
    fun now pkt count same => raise ⟨now, pkt, count, same⟩
  have keyed := stocked.keyed
  cases step_effect taken with
  | serve callers changes => exact stocked.restock other (changes.restocks keyed)
  | openStream opened room => exact stocked.enter other room .refl
  | enter now pkt f missing source opens changes =>
    exact stocked.enter other (invited ⟨missing, source, opens⟩) changes
  | raise now pkt count => exact absurd rfl (other now pkt count)
  | ack now pkt f =>
    exact stocked.restock other ((Connection.keeps_handleAckFrame now f).restocks keyed)
  | close now code reason announce =>
    exact stocked.restock other (Connection.restocks_closeInternal keyed now code reason announce)
  | challenge => exact stocked.restock other (Connection.restocks_sendControlTo keyed _ _)
  | arrive | move | respond | pend | reject | finish =>
    exact stocked.restock other (.same keyed rfl rfl rfl)

/-- In every run in which the peer opens streams only while the table has room,
the table stays within its limit, which only MAX_STREAMS frames have raised. -/
theorem streams_le_maxStreams {localCID remoteCID : ConnectionID} {addr : Addr}
    {isInitiator validated : Bool} {start : Time} {inputs : List Input}
    (invited : Runs.Along step Invited
      (newHost localCID remoteCID addr isInitiator validated start : Host F) inputs)
    (reached : Runs.run step (newHost localCID remoteCID addr isInitiator validated start) inputs =
      some h) :
    h.conn.streams.entries.length ≤ h.conn.maxStreams ∧
      h.conn.maxStreams = inputs.foldl raised initialMaxStreams := by
  have stocked : Stocked inputs h :=
    Runs.trace_invariant Stocked ⟨fun _ member => absurd member List.not_mem_nil,
      Nat.zero_le _, rfl⟩
      (fun _ _ _ _ _ stocked => stocked.step) invited reached
  exact ⟨stocked.within, stocked.limit⟩

def listener : Host ℚ := newHost ⟨[], Nat.zero_le _⟩ ⟨[], Nat.zero_le _⟩ "peer" false true 0

/-- The peer's first packet on its first stream. -/
def synPacket : Packet := listener.conn.packet 0 0 1 [.stream ⟨false, true, 0, [7]⟩]

theorem streams_le_maxStreams_syn :
    Runs.Along step Invited listener (packet 0 synPacket) ∧
      ∃ h, Runs.run step listener (packet 0 synPacket) = some h ∧
        h.conn.streams.entries.length ≤ h.conn.maxStreams ∧
        h.conn.maxStreams = (packet 0 synPacket).foldl raised initialMaxStreams := by
  have invited : Runs.Along step Invited listener (packet 0 synPacket) := by decide +kernel
  exact ⟨invited, _, rfl, streams_le_maxStreams invited rfl⟩

/-- The application opens every stream it may; then the peer opens one. -/
def crowded : List Input := List.replicate initialMaxStreams .openStream ++ packet 0 synPacket

theorem crowded_exceeds :
    ∃ h, Runs.run step listener crowded = some h ∧
      ¬ h.conn.streams.entries.length ≤ h.conn.maxStreams := by
  have exceeds : (Runs.run step listener crowded).any (fun h =>
      decide (¬ h.conn.streams.entries.length ≤ h.conn.maxStreams)) = true := by
    decide +kernel
  obtain ⟨h, reached, exceeds⟩ := Runs.reaches_of_any exceeds
  exact ⟨h, reached, of_decide_eq_true exceeds⟩

end Host

end Udx
