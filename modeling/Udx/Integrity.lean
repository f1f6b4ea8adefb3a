import Udx.Delivery
import Udx.Speech
import Udx.StreamSteps

set_option autoImplicit false

/- What a connection hands its application is what the peer's wrote, whatever the
network and either side do: what has been read of a stream is the front of what was
written on it, and the end is reported only once all has been read that was written
before it. -/

namespace Udx

open Slices

/-- Frames cut from what stands in `bytes` stand there, and the one with the FIN ends
where all of it ends. -/
theorem slice_of_mem_streamFrames {bytes : List UInt8} (small : bytes.length < 2 ^ 64)
    {isFin isSyn : Bool} {offset : UInt64} {parts : List (List UInt8)}
    (slice : Slice bytes offset.toNat parts.flatten) {f : StreamFrame}
    (member : f ∈ streamFrames isFin offset isSyn parts) :
    Slice bytes f.offset.toNat f.data ∧ (f.isFin = true → isFin = true ∧
      f.offset.toNat + f.data.length = offset.toNat + parts.flatten.length) := by
  have within := slice.within
  obtain ⟨front, back, cut, start, fin, -⟩ := cut_of_mem_streamFrames (by omega) member
  rw [cut] at slice
  refine ⟨?_, fun ends => ⟨(fin ends).1, ?_⟩⟩
  · rw [start]
    exact slice.right.left
  · rw [start, cut, (fin ends).2, List.append_nil, List.length_append, Nat.add_assoc]

/-- The data of a packet stands in what was written on its stream, and a FIN where
it was ended; it does not raise the number of streams. -/
structure Packet.Quotes (wrote : UInt32 → List UInt8) (ended : UInt32 → List Nat)
    (pkt : Packet) : Prop where
  data : ∀ sf, .stream sf ∈ pkt.frames → Slice (wrote pkt.sourceStreamID) sf.offset.toNat sf.data
  ends : ∀ sf, .stream sf ∈ pkt.frames → sf.isFin = true →
    sf.offset.toNat + sf.data.length ∈ ended pkt.sourceStreamID
  limits : ∀ count, .maxStreams count ∉ pkt.frames

namespace Packet.Quotes

variable {wrote more : UInt32 → List UInt8} {ended later : UInt32 → List Nat}
  {localCID remoteCID : ConnectionID} {seq dst src : UInt32}

theorem mono {pkt : Packet} (quotes : pkt.Quotes wrote ended)
    (grown : ∀ id, wrote id <+: more id) (closed : ∀ id, ended id ⊆ later id) :
    pkt.Quotes more later :=
  ⟨fun sf member => (quotes.data sf member).mono (grown _),
    fun sf member fin => closed _ (quotes.ends sf member fin), quotes.limits⟩

theorem of_stream {sf : StreamFrame} (stands : Slice (wrote src) sf.offset.toNat sf.data)
    (ends : sf.isFin = true → sf.offset.toNat + sf.data.length ∈ ended src) :
    (Stamp.between localCID remoteCID seq dst src [.stream sf]).Quotes wrote ended := by
  refine ⟨fun g member => ?_, fun g member => ?_, fun count member => ?_⟩
  · obtain rfl := Frame.stream.inj (List.mem_singleton.mp member)
    exact stands
  · obtain rfl := Frame.stream.inj (List.mem_singleton.mp member)
    exact ends
  · cases List.mem_singleton.mp member

theorem of_control {f : Frame} (control : ∀ sf, f ≠ .stream sf)
    (limits : ∀ count, f ≠ .maxStreams count) :
    (Stamp.between localCID remoteCID seq dst src [f]).Quotes wrote ended :=
  ⟨fun sf member => absurd (List.mem_singleton.mp member).symm (control sf),
    fun sf member => absurd (List.mem_singleton.mp member).symm (control sf),
    fun count member => absurd (List.mem_singleton.mp member).symm (limits count)⟩

theorem stream {sf : StreamFrame}
    (quotes : (Stamp.between localCID remoteCID seq dst src [.stream sf]).Quotes wrote ended) :
    Slice (wrote src) sf.offset.toNat sf.data ∧
      (sf.isFin = true → sf.offset.toNat + sf.data.length ∈ ended src) :=
  ⟨quotes.data sf (List.mem_singleton_self _), quotes.ends sf (List.mem_singleton_self _)⟩

theorem tolerates (small : ∀ id, (wrote id).length < 2 ^ 64) :
    (Stamp.between localCID remoteCID).Tolerates (Packet.Quotes wrote ended) where
  blank seq := ⟨nofun, nofun, nofun⟩
  control {f} control seq dst src := by
    cases f with
    | stream | maxStreams => exact control.elim
    | _ => exact of_control nofun nofun
  pieces {seq dst src sf limit} quotes positive long piece member seq' := by
    obtain ⟨stands, ends⟩ := quotes.stream
    rw [← Chunks.flatten_chunks positive sf.data] at stands
    obtain ⟨cut, last⟩ := slice_of_mem_streamFrames (small src) stands member
    refine of_stream cut fun fin => ?_
    obtain ⟨whole, stop⟩ := last fin
    rw [stop, Chunks.flatten_chunks positive]
    exact ends whole
  probes _ _ seq := of_control nofun nofun

end Packet.Quotes

namespace Stream

/-- The stream without what it knows of its end. -/
def endless (s : Stream) : Stream :=
  { s with finSeen := false, finReceived := false, state := .opened }

theorem release_endless (fuel : Nat) (s : Stream) :
    release fuel s.endless = (release fuel s).endless := by
  induction fuel generalizing s with
  | zero => rfl
  | succ fuel ih =>
    cases found : s.recvOOO.lookup s.recvOffset with
    | none =>
      have found' : s.endless.recvOOO.lookup s.endless.recvOffset = none := found
      rw [release, release, found, found']
    | some chunk =>
      have found' : s.endless.recvOOO.lookup s.endless.recvOffset = some chunk := found
      rw [release, release, found, found']
      exact ih { s with
        recvOOO := s.recvOOO.erase s.recvOffset
        oooBytes := s.oooBytes - chunk.length
        recvBuf := s.recvBuf ++ chunk
        recvOffset := (s.recvOffset + chunk.length) % 2 ^ 64 }

theorem placeLocked_endless (s : Stream) (offset : Nat) (data : List UInt8) :
    (s.endless.placeLocked offset data).1 = (s.placeLocked offset data).1.endless := by
  have appended (rest : List UInt8) :
      release s.recvOOO.entries.length { s.endless with
        recvBuf := s.recvBuf ++ rest, recvOffset := (offset + data.length) % 2 ^ 64 } =
        (release s.recvOOO.entries.length { s with
          recvBuf := s.recvBuf ++ rest
          recvOffset := (offset + data.length) % 2 ^ 64 }).endless :=
    release_endless _ { s with
      recvBuf := s.recvBuf ++ rest, recvOffset := (offset + data.length) % 2 ^ 64 }
  unfold placeLocked
  dsimp only
  rw [show s.endless.recvOffset = s.recvOffset from rfl,
    show s.endless.recvOOO = s.recvOOO from rfl, show s.endless.oooBytes = s.oooBytes from rfl]
  by_cases known : (offset + data.length) % 2 ^ 64 ≤ s.recvOffset
  · rw [if_pos known, if_pos known]
  · rw [if_neg known, if_neg known]
    by_cases begun : offset < s.recvOffset
    · rw [if_pos begun, if_neg (Nat.lt_irrefl _), if_neg (Nat.lt_irrefl _)]
      exact appended _
    · rw [if_neg begun]
      dsimp only
      split
      · split
        · rfl
        · split <;> rfl
      · exact appended _

/-- The stream against what its peer wrote and where it ended it: what was read and
what waits to be read is the front of it, and an end it has heard of is one of the
peer's. -/
structure Mirrors (bytes : List UInt8) (ends : List Nat) (s : Stream) (returned : List UInt8) :
    Prop where
  held : Reassembles bytes s.endless returned
  final : s.finSeen = true → s.finalSize ∈ ends
  complete : s.finReceived = true → ∃ final ∈ ends, final ≤ s.recvOffset
  closed : s.state = .closed ∨ s.state = .halfClosedRemote → s.finReceived = true

theorem Reassembles.of_store {bytes returned : List UInt8} {s t : Stream}
    (holds : Reassembles bytes s.endless returned) (same : t.store = s.store) :
    Reassembles bytes t.endless returned := by
  have buf : t.recvBuf = s.recvBuf := congrArg Store.recvBuf same
  have early : t.recvOOO = s.recvOOO := congrArg Store.recvOOO same
  have front : t.recvOffset = s.recvOffset := congrArg Store.recvOffset same
  refine ⟨?_, ?_, ?_, nofun, nofun, holds.notClosed⟩
  · show returned ++ t.recvBuf = bytes.take t.recvOffset
    rw [buf, front]
    exact holds.front
  · show t.recvOffset ≤ _
    rw [front]
    exact holds.inside
  · show ∀ offset chunk, t.recvOOO.lookup offset = some chunk → _
    rw [early]
    exact holds.early

theorem Reassembles.mono {bytes more returned : List UInt8} {s : Stream}
    (holds : Reassembles bytes s.endless returned) (grown : bytes <+: more) :
    Reassembles more s.endless returned := by
  obtain ⟨rest, rfl⟩ := grown
  have inside := holds.inside
  refine ⟨?_, ?_, fun offset chunk found => (holds.early offset chunk found).append rest, nofun,
    nofun, holds.notClosed⟩
  · rw [holds.front, List.take_append_of_le_length inside]
  · rw [List.length_append]
    omega

namespace Mirrors

variable {bytes more returned : List UInt8} {ends later : List Nat} {s t : Stream}

theorem mono (mirrors : Mirrors bytes ends s returned) (grown : bytes <+: more)
    (closed : ends ⊆ later) : Mirrors more later s returned := by
  refine ⟨mirrors.held.mono grown, fun seen => closed (mirrors.final seen), fun done => ?_,
    mirrors.closed⟩
  obtain ⟨final, member, reached⟩ := mirrors.complete done
  exact ⟨final, closed member, reached⟩

theorem fresh (id remoteID : UInt32) (fc : StreamFlowController) (accepted : Bool) :
    Mirrors bytes ends (.fresh id remoteID fc accepted) [] := by
  have held : Reassembles bytes (Stream.fresh id remoteID fc true).endless [] :=
    reassembles_fresh id remoteID fc true
  refine ⟨held.of_store rfl, nofun, nofun, ?_⟩
  cases accepted <;> rintro (closed | closed) <;> cases closed

theorem tends (mirrors : Mirrors bytes ends s returned) (tends : s.Tends t) :
    Mirrors bytes ends t returned := by
  cases tends with
  | control fc =>
    exact ⟨mirrors.held.of_store rfl, mirrors.final, mirrors.complete, mirrors.closed⟩
  | abort code =>
    refine ⟨mirrors.held.of_store rfl, mirrors.final, mirrors.complete, ?_⟩
    rintro (closed | closed) <;> cases closed

theorem finishLocked (mirrors : Mirrors bytes ends s returned) :
    Mirrors bytes ends s.finishLocked returned := by
  have held := mirrors.held.of_store s.store_finishLocked
  unfold Stream.finishLocked at held ⊢
  split
  · exact mirrors
  · rename_i ready
    simp only [Bool.or_eq_true, Bool.not_eq_true', decide_eq_true_eq, not_or, not_lt,
      Bool.not_eq_false] at ready
    obtain ⟨⟨seen, -⟩, reached⟩ := ready
    exact ⟨mirrors.held.of_store rfl, mirrors.final,
      fun _ => ⟨s.finalSize, mirrors.final seen, reached⟩, fun _ => rfl⟩

theorem placeLocked (mirrors : Mirrors bytes ends s returned) (small : bytes.length < 2 ^ 64)
    {offset : Nat} {data : List UInt8} (slice : Slice bytes offset data) :
    Mirrors bytes ends (s.placeLocked offset data).1 returned := by
  have held := mirrors.held.placeLocked small slice
  rw [placeLocked_endless] at held
  have before := congrArg List.length mirrors.held.front
  have after := congrArg List.length held.front
  rw [List.length_append, List.length_take, Nat.min_eq_left mirrors.held.inside] at before
  rw [List.length_append, List.length_take, Nat.min_eq_left held.inside] at after
  have grown := (s.recvBuf_placeLocked offset data).length_le
  have front : s.recvOffset ≤ (s.placeLocked offset data).1.recvOffset := by
    change returned.length + s.recvBuf.length = s.recvOffset at before
    change returned.length + (s.placeLocked offset data).1.recvBuf.length =
      (s.placeLocked offset data).1.recvOffset at after
    omega
  obtain ⟨_, _, _, _, _, same⟩ := s.sameButBuffers_placeLocked offset data
  have fin : (s.placeLocked offset data).1.finSeen = s.finSeen := by rw [same]
  have size : (s.placeLocked offset data).1.finalSize = s.finalSize := by rw [same]
  have done : (s.placeLocked offset data).1.finReceived = s.finReceived := by rw [same]
  have state : (s.placeLocked offset data).1.state = s.state := by rw [same]
  refine ⟨held, ?_, ?_, ?_⟩
  · rw [fin, size]
    exact mirrors.final
  · rw [done]
    intro received
    obtain ⟨final, member, reached⟩ := mirrors.complete received
    exact ⟨final, member, reached.trans front⟩
  · rw [state, done]
    exact mirrors.closed

theorem deliverData (mirrors : Mirrors bytes ends s returned) (small : bytes.length < 2 ^ 64)
    {offset : Nat} {data : List UInt8} (slice : Slice bytes offset data) :
    Mirrors bytes ends (s.deliverData offset data).1 returned := by
  have placed := mirrors.placeLocked small slice
  unfold Stream.deliverData
  dsimp only
  split
  · exact placed.tends (tends_reset _ _)
  · split
    · exact finishLocked (placed.tends (.control _))
    · exact placed

theorem deliverFin (mirrors : Mirrors bytes ends s returned) {finalSize : Nat}
    (ended : finalSize ∈ ends) : Mirrors bytes ends (s.deliverFin finalSize) returned := by
  apply finishLocked
  exact ⟨mirrors.held.of_store rfl, fun _ => ended, mirrors.complete, mirrors.closed⟩

theorem receive (mirrors : Mirrors bytes ends s returned) (small : bytes.length < 2 ^ 64)
    {f : StreamFrame} (slice : Slice bytes f.offset.toNat f.data)
    (ended : f.isFin = true → f.offset.toNat + f.data.length ∈ ends) :
    Mirrors bytes ends (s.receive f).1 returned := by
  have within := slice.within
  have stop : (f.offset.toNat + f.data.length) % 2 ^ 64 = f.offset.toNat + f.data.length :=
    Nat.mod_eq_of_lt (by omega)
  unfold Stream.receive
  dsimp only
  rw [stop]
  split <;> split
  · exact (mirrors.deliverData small slice).deliverFin (ended ‹_›)
  · exact mirrors.deliverFin (ended ‹_›)
  · exact mirrors.deliverData small slice
  · exact mirrors

theorem read (mirrors : Mirrors bytes ends s returned) (size : Nat) (expired : Bool) :
    Mirrors bytes ends (s.read size expired).1
      (returned ++ ReadResult.returned (s.read size expired).2.1) := by
  have reads := s.reads_read size expired
  generalize s.read size expired = out at reads ⊢
  cases reads with
  | aborted | ended =>
    rw [show ReadResult.returned _ = [] from rfl, List.append_nil]
    exact mirrors
  | waits =>
    have none : ReadResult.returned (if expired then .deadlineExceeded else .blocked) = [] := by
      cases expired <;> rfl
    dsimp only
    rw [none, List.append_nil]
    exact mirrors
  | takes full fc frames books =>
    have front : (returned ++ s.recvBuf.take size) ++ s.recvBuf.drop (s.recvBuf.take size).length =
        bytes.take s.recvOffset := by
      have whole : returned ++ s.recvBuf = bytes.take s.recvOffset := mirrors.held.front
      rw [← whole, List.append_assoc, List.length_take, List.take_eq_take_min,
        List.take_append_drop]
    exact ⟨⟨front, mirrors.held.inside, mirrors.held.early, nofun, nofun, mirrors.held.notClosed⟩,
      mirrors.final, mirrors.complete, mirrors.closed⟩

theorem writeCommit (mirrors : Mirrors bytes ends s returned) {ask : Ask}
    {granted remaining : Nat} {batch : Batch}
    (committed : s.writeCommit ask granted remaining = some (t, batch)) :
    Mirrors bytes ends t returned := by
  obtain ⟨-, -, -, rfl⟩ := s.writeCommit_eq_some committed
  refine ⟨mirrors.held.of_store rfl, mirrors.final, mirrors.complete, ?_⟩
  dsimp only
  split
  · rintro (closed | closed) <;> cases closed
  · exact mirrors.closed

theorem close (mirrors : Mirrors bytes ends s returned) :
    Mirrors bytes ends s.close.1 returned := by
  unfold Stream.close
  split
  · exact mirrors
  · refine ⟨mirrors.held.of_store rfl, mirrors.final, mirrors.complete, ?_⟩
    dsimp only
    split
    · rename_i remote
      exact fun _ => mirrors.closed (.inr remote)
    · rintro (closed | closed) <;> cases closed

/-- What was read is the front of what was written. -/
theorem front_read (mirrors : Mirrors bytes ends s returned) : returned <+: bytes := by
  have front : returned ++ s.recvBuf = bytes.take s.recvOffset := mirrors.held.front
  have first : returned <+: bytes.take s.recvOffset := ⟨s.recvBuf, front⟩
  have whole : bytes.take s.recvOffset <+: bytes := bytes.take_prefix s.recvOffset
  exact first.trans whole

/-- The end is reported once all has been read that was written before one. -/
theorem eof (mirrors : Mirrors bytes ends s returned) {size : Nat} {expired : Bool}
    (ended : (s.read size expired).2.1 = .eof) : ∃ final ∈ ends, bytes.take final <+: returned := by
  have reads := s.reads_read size expired
  generalize s.read size expired = out at reads ended
  cases reads with
  | aborted | takes => cases ended
  | waits =>
    cases expired <;> cases ended
  | ended empty live over' =>
    have done : s.finReceived = true := over'.elim (fun fin => fin) fun closed => mirrors.closed (.inl closed)
    obtain ⟨final, member, reached⟩ := mirrors.complete done
    refine ⟨final, member, ?_⟩
    have front : returned ++ s.recvBuf = bytes.take s.recvOffset := mirrors.held.front
    rw [empty, List.append_nil] at front
    rw [front]
    exact List.take_prefix_take_left reached

end Mirrors

end Stream

/-- How much a write is given. -/
def Host.Input.given : Host.Input → Nat
  | .write _ _ _ data => data.length
  | _ => 0

namespace Connection

variable {F : Type} [Float64 F]

def wrote (c : Connection F) (id : UInt32) : Host.Input → List UInt8
  | .write now stream entering data =>
    if stream = id then (c.writeBatch now stream entering data).elim [] fun out => data.take out.2
    else []
  | _ => []

theorem length_wrote_le (c : Connection F) (id : UInt32) (input : Host.Input) :
    (c.wrote id input).length ≤ input.given := by
  cases input with
  | write now stream entering data =>
    rw [wrote]
    split
    · cases c.writeBatch now stream entering data with
      | none => exact Nat.zero_le _
      | some out => exact List.length_take_le' _ _
    · exact Nat.zero_le _
  | _ => exact Nat.zero_le _

def returned (c : Connection F) (id : UInt32) : Host.Input → List UInt8
  | .read now stream size expired =>
    if stream = id then (c.read now stream size expired).elim [] fun out => out.2.returned else []
  | _ => []

def ended (c : Connection F) (id : UInt32) : Host.Input → List Nat
  | .closeStream _ stream => if stream = id then (c.ending stream).toList else []
  | _ => []

variable {c : Connection F} {id : UInt32} {input : Host.Input} {s t : Option Stream}

theorem silent_of_aside (aside : input.names id = false) :
    c.wrote id input = [] ∧ c.returned id input = [] ∧ c.ended id input = [] := by
  cases input with
  | write | read | closeStream =>
    have other := of_decide_eq_false aside
    simp [wrote, returned, ended, other]
  | _ => exact ⟨rfl, rfl, rfl⟩

theorem Works.bytesWritten (works : c.Works id input s t) :
    t.elim 0 Stream.bytesWritten = s.elim 0 Stream.bytesWritten + (c.wrote id input).length := by
  cases works with
  | rest aside => rw [(silent_of_aside aside).1, List.length_nil, Nat.add_zero]
  | tends aside tends =>
    rw [(silent_of_aside aside).1]
    cases tends <;> rfl
  | opens fc => rfl
  | takes now pkt f s => exact s.bytesWritten_receive f
  | enters now pkt f fc => exact Stream.bytesWritten_receive _ f
  | reads now size expired s =>
    have steady : Stream.Steady .never s (s.read size expired).1 := s.steady_read size expired
    exact steady.written
  | closes now s =>
    show s.close.1.bytesWritten = s.bytesWritten
    unfold Stream.close
    split <;> rfl
  | @writes now entering data s t ask granted batch asked admitted committed done =>
    obtain ⟨c', done⟩ := done
    obtain ⟨-, -, enough⟩ := batch_spec now asked admitted committed
    obtain ⟨-, -, -, rfl⟩ := s.writeCommit_eq_some committed
    simp only [wrote, done, ↓reduceIte, Option.elim_some, List.length_take, Nat.min_eq_left enough]

theorem Works.ids {u : Stream} (works : c.Works id input (some u) t) :
    ∃ v, t = some v ∧ v.ids = u.ids := by
  cases works with
  | rest => exact ⟨_, rfl, rfl⟩
  | tends aside tends => exact ⟨_, rfl, tends.ids⟩
  | takes now pkt f => exact ⟨_, rfl, Stream.ids_receive _ f⟩
  | reads now size expired => exact ⟨_, rfl, Stream.ids_read _ size expired⟩
  | closes => exact ⟨_, rfl, Stream.ids_close _⟩
  | writes now entering data asked admitted committed =>
    exact ⟨_, rfl, Stream.ids_writeCommit _ committed⟩

theorem Works.none (works : c.Works id input s none) : s = none ∧ input.names id = false := by
  cases works with
  | rest aside => exact ⟨rfl, aside⟩

/-- What `t` has read and holds against what the streams of `a` that feed it wrote;
one that none feeds has heard nothing. -/
structure Hears (a : Connection F) (wrote : UInt32 → List UInt8) (ended : UInt32 → List Nat)
    (t : Stream) (returned : List UInt8) : Prop where
  fed : ∀ source, a.Feeds source t → t.Mirrors (wrote source) (ended source) returned
  unfed : (∀ source, ¬ a.Feeds source t) → t.Mirrors [] [] returned

namespace Hears

variable {a a' : Connection F} {wrote wrote' : UInt32 → List UInt8}
  {ended ended' : UInt32 → List Nat} {u v : Stream} {returned returned' : List UInt8}

omit [Float64 F] in
theorem map (hears : a.Hears wrote ended u returned) (ids : v.ids = u.ids)
    (step : ∀ bytes ends, u.Mirrors bytes ends returned → v.Mirrors bytes ends returned') :
    a.Hears wrote ended v returned' :=
  ⟨fun source feeds => step _ _ (hears.fed source (feeds.congr ids.symm)),
    fun none => step _ _ (hears.unfed fun source feeds => none source (feeds.congr ids))⟩

omit [Float64 F] in
theorem grow (hears : a.Hears wrote ended u returned) (lasts : a.Lasts a')
    (unique : ∀ x y, a'.Feeds x u → a'.Feeds y u → x = y)
    (written : ∀ id, wrote id <+: wrote' id) (closed : ∀ id, ended id ⊆ ended' id) :
    a'.Hears wrote' ended' u returned := by
  refine ⟨fun source feeds => ?_, fun none => ?_⟩
  · by_cases fed : ∃ x, a.Feeds x u
    · obtain ⟨x, before⟩ := fed
      obtain rfl := unique x source (before.grow lasts) feeds
      exact (hears.fed x before).mono (written x) (closed x)
    · exact (hears.unfed (not_exists.mp fed)).mono List.nil_prefix (List.nil_subset _)
  · exact hears.unfed fun source feeds => none source (feeds.grow lasts)

end Hears

end Connection

namespace Net

open Connection

variable {F : Type} [Float64 F] {n n' : Net F}

/-- What has been written, read and ended on each side's streams, against the state. -/
structure Faithful (wrote returned : Side → UInt32 → List UInt8)
    (ended : Side → UInt32 → List Nat) (n : Net F) : Prop where
  linked : n.Linked
  sparse : n.Sparse
  written : ∀ side id, (n.conn side).written id = (wrote side id).length
  speaks : ∀ side, (n.conn side).Speaks (.between (n.conn side).localCID (n.conn side).remoteCID)
    (Packet.Quotes (wrote side) (ended side))
  silent : ∀ side id, (n.conn side).streams.lookup id = none → returned side id = []
  hears : ∀ side id t, (n.conn side).streams.lookup id = some t →
    (n.conn side.other).Hears (wrote side.other) (ended side.other) t (returned side id)

/-- A side's record goes on by what its step gives out. -/
structure Logs {α : Type} (side : Side) (emit : UInt32 → List α)
    (log log' : Side → UInt32 → List α) : Prop where
  here : ∀ id, log' side id = log side id ++ emit id
  there : log' side.other = log side.other

variable {side : Side} {input : Host.Input} {wrote wrote' returned returned' : Side → UInt32 → List UInt8}
  {ended ended' : Side → UInt32 → List Nat}

omit [Float64 F] in
theorem Logs.grows {α : Type} {emit : UInt32 → List α} {log log' : Side → UInt32 → List α}
    (logs : Logs side emit log log') (id : UInt32) : log side id <+: log' side id := by
  rw [logs.here]
  exact List.prefix_append _ _

namespace Faithful

theorem utters (faithful : Faithful wrote returned ended n)
    (writes : Logs side (fun id => (n.conn side).wrote id input) wrote wrote')
    (closes : Logs side (fun id => (n.conn side).ended id input) ended ended')
    (small : ∀ id, (wrote' side id).length < 2 ^ 64) :
    (n.conn side).Utters (.between (n.conn side).localCID (n.conn side).remoteCID)
      (Packet.Quotes (wrote' side) (ended' side)) input := by
  have keyed := (faithful.linked side).keyed
  cases input with
  | write now id entering data =>
    intro s ask granted t batch found asked admitted committed done f member seq
    obtain ⟨c', done⟩ := done
    obtain ⟨-, positive, -⟩ := batch_spec now asked admitted committed
    obtain ⟨-, -, shape, -⟩ := s.writeCommit_eq_some committed
    have start : batch.offset = (wrote side id).length := by
      rw [← faithful.written, written_of_found found]
      exact congrArg Stream.Batch.offset shape
    have key : t.id = id :=
      (congrArg Prod.fst (s.ids_writeCommit committed)).trans (keyed.id_eq found)
    have grown : wrote' side id = wrote side id ++ data.take batch.granted := by
      rw [writes.here]
      simp only [Connection.wrote, done, ↓reduceIte, Option.elim_some]
    have bound := small id
    rw [grown, List.length_append] at bound
    have offset : (UInt64.ofNat batch.offset).toNat = (wrote side id).length := by
      rw [start]
      exact UInt64.toNat_ofNat_of_lt' (show _ < 2 ^ 64 by omega)
    have stands : Slice (wrote' side id) (UInt64.ofNat batch.offset).toNat
        (Chunks.chunks ask.chunkSize (data.take batch.granted)).flatten := by
      rw [Chunks.flatten_chunks positive, offset, grown]
      exact .of_append _ _
    obtain ⟨cut, last⟩ := slice_of_mem_streamFrames (small id) stands member
    rw [key]
    exact .of_stream cut fun fin => absurd (last fin).1 Bool.false_ne_true
  | closeStream now id =>
    intro s found opened unreset seq
    have key := keyed.id_eq found
    have final : s.bytesWritten = (wrote side id).length := by
      rw [← faithful.written, written_of_found found]
    have bound := (writes.grows id).length_le.trans_lt (small id)
    have offset : (UInt64.ofNat s.bytesWritten).toNat = s.bytesWritten :=
      UInt64.toNat_ofNat_of_lt' (show _ < 2 ^ 64 by omega)
    have ending : (n.conn side).ended id (.closeStream now id) = [s.bytesWritten] := by
      simp [Connection.ended, Connection.ending, Stream.ending, found, opened, unreset]
    rw [key]
    refine .of_stream ⟨?_, rfl⟩ fun _ => ?_
    · have := (writes.grows id).length_le
      show (UInt64.ofNat s.bytesWritten).toNat + 0 ≤ _
      omega
    · rw [closes.here, ending]
      show (UInt64.ofNat s.bytesWritten).toNat + 0 ∈ _
      rw [offset]
      simp
  | close now code reason =>
    exact fun seq => .of_control (fun sf same => by cases same) fun count same => by cases same
  | _ => trivial

omit [Float64 F] in
/-- What arrives of the other side's data stands in what was written there, and
goes to the stream it was written for. -/
theorem arrived (faithful : Faithful wrote returned ended n) {now : Time} {pkt : Packet}
    {f : StreamFrame} (arrives : n.arrives side (.frame now pkt (.stream f)) = true) :
    Slice (wrote side.other pkt.sourceStreamID) f.offset.toNat f.data ∧
      (f.isFin = true → f.offset.toNat + f.data.length ∈ ended side.other pkt.sourceStreamID) ∧
      ((pkt.sourceStreamID, pkt.destinationStreamID) ∈ (n.conn side.other).ids ∨
        (pkt.sourceStreamID, pkt.destinationStreamID) = (0, 0)) := by
  obtain ⟨sent, inside⟩ := Bool.and_eq_true_iff.mp arrives
  have member := of_decide_eq_true inside
  have directed : pkt.frames.any Frame.directed = true := List.any_eq_true.mpr ⟨_, member, rfl⟩
  have label := faithful.linked.sent sent directed
  obtain ⟨d, wire, same⟩ := Host.sent_iff.mp sent
  have quotes := (faithful.speaks side.other).wire d wire
  rw [← same] at member label ⊢
  exact ⟨quotes.data f member, quotes.ends f member, label⟩

omit [Float64 F] in
theorem unraised (faithful : Faithful wrote returned ended n)
    (arrives : n.arrives side input = true) (now : Time) (pkt : Packet) (count : UInt32) :
    input ≠ .frame now pkt (.maxStreams count) := by
  rintro rfl
  obtain ⟨sent, inside⟩ := Bool.and_eq_true_iff.mp arrives
  obtain ⟨d, wire, same⟩ := Host.sent_iff.mp sent
  have member := of_decide_eq_true inside
  rw [← same] at member
  exact ((faithful.speaks side.other).wire d wire).limits count member

theorem hears_own (faithful : Faithful wrote returned ended n)
    (small : ∀ id, (wrote side.other id).length < 2 ^ 64) (arrives : n.arrives side input = true)
    {id : UInt32} {u : Stream} (named : u.id ≠ 0)
    (works : (n.conn side).Works id input ((n.conn side).streams.lookup id) (some u)) :
    (n.conn side.other).Hears (wrote side.other) (ended side.other) u
      (returned side id ++ (n.conn side).returned id input) := by
  have old := faithful.hears side id
  have silent := faithful.silent side id
  have facing := faithful.linked.facing side
  -- The stream that feeds `u` is the packet's source.
  have taken {now : Time} {pkt : Packet} {f : StreamFrame} {s : Stream}
      (arrives : n.arrives side (.frame now pkt (.stream f)) = true) (ids : u.ids = s.ids)
      (feeds : (n.conn side.other).Feeds pkt.sourceStreamID u)
      (before : s.Mirrors (wrote side.other pkt.sourceStreamID)
        (ended side.other pkt.sourceStreamID) (returned side id))
      (received : u = (s.receive f).1) :
      (n.conn side.other).Hears (wrote side.other) (ended side.other) u (returned side id) := by
    obtain ⟨stands, fin, -⟩ := faithful.arrived arrives
    have after := before.receive (small _) stands fin
    rw [← received] at after
    refine ⟨fun source feeds' => ?_, fun none => absurd feeds (none _)⟩
    obtain rfl := facing.unique named feeds feeds'
    exact after
  generalize (n.conn side).streams.lookup id = before at works old silent
  cases works with
  | rest aside =>
    rw [(silent_of_aside aside).2.1, List.append_nil]
    exact old u rfl
  | tends aside tends =>
    rw [(silent_of_aside aside).2.1, List.append_nil]
    exact (old _ rfl).map tends.ids fun bytes ends mirrors => mirrors.tends tends
  | opens fc =>
    rw [silent rfl]
    exact ⟨fun source _ => .fresh id 0 fc false, fun _ => .fresh id 0 fc false⟩
  | takes now pkt f s found =>
    have feeds := facing.feeds_of_found (faithful.arrived arrives).2.2 found
    have ids := s.ids_receive f
    rw [show (n.conn side).returned id (.frame now pkt (.stream f)) = [] from rfl, List.append_nil]
    exact taken arrives ids (feeds.congr ids) ((old s rfl).fed _ feeds) rfl
  | enters now pkt f fc missing source =>
    have ids := (Stream.fresh id pkt.sourceStreamID fc true).ids_receive f
    have feeds := facing.feeds_of_missing (t := .fresh id pkt.sourceStreamID fc true)
      (faithful.arrived arrives).2.2 missing source rfl
    rw [show (n.conn side).returned id (.frame now pkt (.stream f)) = [] from rfl, List.append_nil]
    refine taken arrives ids (feeds.congr ids) ?_ rfl
    rw [silent rfl]
    exact .fresh id pkt.sourceStreamID fc true
  | reads now size expired s found =>
    have result : (n.conn side).returned id (.read now id size expired) =
        (s.read size expired).2.1.returned := by
      simp [Connection.returned, Connection.read, found]
    rw [result]
    exact (old s rfl).map (s.ids_read size expired) fun bytes ends mirrors =>
      mirrors.read size expired
  | closes now s =>
    rw [show (n.conn side).returned id (.closeStream now id) = [] from rfl, List.append_nil]
    exact (old s rfl).map s.ids_close fun bytes ends mirrors => mirrors.close
  | @writes now entering data s t ask granted batch asked admitted committed =>
    rw [show (n.conn side).returned id (.write now id entering data) = [] from rfl, List.append_nil]
    exact (old s rfl).map (s.ids_writeCommit committed) fun bytes ends mirrors =>
      mirrors.writeCommit committed

theorem step (faithful : Faithful wrote returned ended n)
    (taken : n.step (side, input) = some n')
    (writes : Logs side (fun id => (n.conn side).wrote id input) wrote wrote')
    (reads : Logs side (fun id => (n.conn side).returned id input) returned returned')
    (closes : Logs side (fun id => (n.conn side).ended id input) ended ended')
    (small : ∀ side id, (wrote' side id).length < 2 ^ 64) :
    Faithful wrote' returned' ended' n' := by
  obtain ⟨arrives, stepped, still⟩ := step_cases taken
  obtain ⟨linked', sparse'⟩ :=
    faithful.linked.step_sparse faithful.sparse (faithful.unraised arrives) taken
  have peer : n'.conn side.other = n.conn side.other := congrArg Host.conn still
  have placed := faithful.linked side
  have works := Host.works_step placed.keyed placed.absent stepped
  change ∀ id, (n.conn side).Works id input ((n.conn side).streams.lookup id)
    ((n'.conn side).streams.lookup id) at works
  have lasts : (n.conn side).Lasts (n'.conn side) := by
    intro id s found
    have work := works id
    rw [found] at work
    exact work.ids
  refine ⟨linked', sparse', ?_, ?_, ?_, ?_⟩
  · refine Side.forall_of side (fun id => ?_) ?_
    · rw [Connection.written, (works id).bytesWritten, writes.here, List.length_append]
      rw [← faithful.written side id, Connection.written]
    · rw [peer, writes.there]
      exact faithful.written side.other
  · refine Side.forall_of side ?_ ?_
    · have quoted := (faithful.speaks side).mono fun pkt (quotes : pkt.Quotes _ _) =>
        quotes.mono (fun id => writes.grows id) fun id => (closes.grows id).subset
      have speaks := Host.speaks_step (Packet.Quotes.tolerates (small side)) quoted
        (faithful.utters writes closes (small side)) stepped
      exact speaks.between
    · rw [peer, writes.there, closes.there]
      exact faithful.speaks side.other
  · refine Side.forall_of side (fun id none => ?_) ?_
    · have work := works id
      rw [none] at work
      obtain ⟨missing, aside⟩ := work.none
      rw [reads.here, faithful.silent side id missing, (silent_of_aside aside).2.1]
      rfl
    · rw [peer, reads.there]
      exact faithful.silent side.other
  · refine Side.forall_of side (fun id u found => ?_) (fun id u found => ?_)
    · have work := works id
      rw [found] at work
      rw [peer, writes.there, closes.there, reads.here]
      refine faithful.hears_own (fun id => ?_) arrives ?_ work
      · have := small side.other id
        rwa [writes.there] at this
      · exact (linked'.facing side).id_ne_zero (Tables.mem_entries_iff.mpr found)
    · rw [peer] at found
      have facing := linked'.facing side.other
      rw [Side.other_other] at facing ⊢
      have hears := faithful.hears side.other id u found
      rw [Side.other_other] at hears
      rw [reads.there]
      refine hears.grow lasts (fun x y => facing.unique ?_) (fun id => writes.grows id)
        fun id => (closes.grows id).subset
      exact facing.id_ne_zero (Tables.mem_entries_iff.mpr (by rw [peer]; exact found))

omit [Float64 F] in
/-- What has been read of a stream is the front of what was written on its
counterpart, and nothing if it has none. -/
theorem front (faithful : Faithful wrote returned ended n) {id : UInt32} {t : Stream}
    (found : (n.conn side).streams.lookup id = some t) :
    (∀ source s, (n.conn side.other).streams.lookup source = some s → s.Counterpart t →
      returned side id <+: wrote side.other source) ∧
    ((∀ source s, (n.conn side.other).streams.lookup source = some s → ¬ s.Counterpart t) →
      returned side id = []) := by
  have hears := faithful.hears side id t found
  refine ⟨fun source s lookup counterpart => ?_, fun alone => ?_⟩
  · exact (hears.fed source ⟨s, lookup, counterpart⟩).front_read
  · refine List.prefix_nil.mp (hears.unfed fun source feeds => ?_).front_read
    obtain ⟨s, lookup, counterpart⟩ := feeds
    exact alone source s lookup counterpart

end Faithful

def inputs (side : Side) (turns : List (Side × Host.Input)) : List Host.Input :=
  turns.filterMap fun turn => if turn.1 = side then some turn.2 else none

theorem inputs_append_here (side : Side) (turns : List (Side × Host.Input)) (input : Host.Input) :
    inputs side (turns ++ [(side, input)]) = inputs side turns ++ [input] := by
  simp [inputs, List.filterMap_append]

theorem inputs_append_other (side : Side) (turns : List (Side × Host.Input)) (input : Host.Input) :
    inputs side.other (turns ++ [(side, input)]) = inputs side.other turns := by
  simp [inputs, List.filterMap_append, (Side.other_ne side).symm]

/-- Each side of a run has its own run. -/
theorem run_inputs {start : Net F} {turns : List (Side × Host.Input)}
    (reached : Runs.run step start turns = some n) (side : Side) :
    Runs.run Host.step (start.host side) (inputs side turns) = some (n.host side) := by
  refine Runs.trace_invariant (fun turns n => ∀ side,
    Runs.run Host.step (start.host side) (inputs side turns) = some (n.host side))
    (fun side => rfl) ?_ (Runs.along_true start turns) reached side
  rintro turns n ⟨actor, input⟩ n' - runs - taken
  obtain ⟨-, stepped, still⟩ := step_cases taken
  refine Side.forall_of actor ?_ ?_
  · rw [inputs_append_here]
    exact Runs.run_append_singleton (runs actor) stepped
  · rw [inputs_append_other, still]
    exact runs actor.other

def written (start : Net F) (turns : List (Side × Host.Input)) (side : Side) (id : UInt32) :
    List UInt8 :=
  Runs.output Host.step (fun h => h.conn.wrote id) (start.host side) (inputs side turns)

def read (start : Net F) (turns : List (Side × Host.Input)) (side : Side) (id : UInt32) :
    List UInt8 :=
  Runs.output Host.step (fun h => h.conn.returned id) (start.host side) (inputs side turns)

/-- How much had been written each time it was closed. -/
def closedAfter (start : Net F) (turns : List (Side × Host.Input)) (side : Side) (id : UInt32) :
    List Nat :=
  Runs.output Host.step (fun h => h.conn.ended id) (start.host side) (inputs side turns)

theorem logs_output {α : Type} (emit : Connection F → UInt32 → Host.Input → List α) {start : Net F}
    {turns : List (Side × Host.Input)} (reached : Runs.run step start turns = some n) (side : Side)
    (input : Host.Input) :
    Logs side (fun id => emit (n.conn side) id input)
      (fun side id => Runs.output Host.step (fun h => emit h.conn id) (start.host side)
        (inputs side turns))
      (fun actor id => Runs.output Host.step (fun h => emit h.conn id) (start.host actor)
        (inputs actor (turns ++ [(side, input)]))) := by
  refine ⟨fun id => ?_, ?_⟩
  · rw [inputs_append_here]
    exact Runs.output_append_singleton (run_inputs reached side)
  · rw [inputs_append_other]

theorem written_grows (start : Net F) (before after : List (Side × Host.Input)) (side : Side)
    (id : UInt32) : start.written before side id <+: start.written (before ++ after) side id := by
  rw [written, written, inputs, inputs, List.filterMap_append]
  exact Runs.output_grows _ _ _

/-- An end was set by a `Close`, after what had been written by then. -/
theorem mem_closedAfter {start : Net F} {turns : List (Side × Host.Input)}
    (reached : Runs.run step start turns = some n) {side : Side} {id : UInt32} {final : Nat}
    (member : final ∈ start.closedAfter turns side id) :
    ∃ before now after mid, turns = before ++ (side, .closeStream now id) :: after ∧
      Runs.run step start before = some mid ∧ (mid.conn side).written id = final := by
  refine Runs.trace_invariant (fun turns _ => final ∈ start.closedAfter turns side id →
    ∃ before now after mid, turns = before ++ (side, .closeStream now id) :: after ∧
      Runs.run step start before = some mid ∧ (mid.conn side).written id = final)
    nofun ?_ (Runs.along_true start turns) reached member
  rintro turns n ⟨actor, input⟩ n' reached ih - - member
  have old (member : final ∈ start.closedAfter turns side id) : ∃ before now after mid,
      turns ++ [(actor, input)] = before ++ (side, .closeStream now id) :: after ∧
        Runs.run step start before = some mid ∧ (mid.conn side).written id = final := by
    obtain ⟨before, now, after, mid, rfl, earlier⟩ := ih member
    exact ⟨before, now, after ++ [(actor, input)], mid, by simp, earlier⟩
  have logs := logs_output Connection.ended reached actor input
  rcases side.eq_or_eq_other actor with rfl | rfl
  · rw [closedAfter, logs.here] at member
    rcases List.mem_append.mp member with before | new
    · exact old before
    · cases input with
      | closeStream now stream =>
        rw [Connection.ended] at new
        split at new
        · rename_i same
          subst same
          obtain ⟨s, found, ending⟩ := Option.bind_eq_some_iff.mp (Option.mem_toList.mp new)
          refine ⟨turns, now, [], n, rfl, reached, ?_⟩
          rw [written_of_found found]
          unfold Stream.ending at ending
          split at ending
          · cases ending
          · exact Option.some.inj ending
        · cases new
      | _ => cases new
  · rw [closedAfter, inputs_append_other] at member
    exact old member

/-- The initiator has sent its SYN, and the peer accepts it at a time of its own. -/
def opening (cid peerCID : ConnectionID) (addr peerAddr : Addr) (dialled accepted : Time) :
    Net F where
  left := (start cid peerCID addr peerAddr dialled).left
  right := (start cid peerCID addr peerAddr accepted).right

section

variable (cid peerCID : ConnectionID) (addr peerAddr : Addr) (dialled accepted : Time)

theorem conn_opening_left :
    (opening cid peerCID addr peerAddr dialled accepted : Net F).conn .left =
      (start cid peerCID addr peerAddr dialled : Net F).conn .left := by
  unfold opening
  rfl

theorem conn_opening_right :
    (opening cid peerCID addr peerAddr dialled accepted : Net F).conn .right =
      (start cid peerCID addr peerAddr accepted : Net F).conn .right := by
  unfold opening
  rfl

theorem streams_opening (side : Side) :
    ((opening cid peerCID addr peerAddr dialled accepted : Net F).conn side).streams = ∅ := by
  cases side with
  | left =>
    rw [conn_opening_left]
    exact streams_start cid peerCID addr peerAddr dialled .left
  | right =>
    rw [conn_opening_right]
    exact streams_start cid peerCID addr peerAddr accepted .right

theorem linked_opening : (opening cid peerCID addr peerAddr dialled accepted : Net F).Linked := by
  have none {c : Connection F} (empty : c.streams = ∅) (d : Connection F) : c.ids ⊆ d.ids := by
    rw [Connection.ids, empty]
    exact List.nil_subset _
  intro side
  cases side with
  | left =>
    rw [conn_opening_left]
    exact (linked_start cid peerCID addr peerAddr dialled .left).grow
      (none (streams_start cid peerCID addr peerAddr dialled .right) _)
  | right =>
    rw [conn_opening_right]
    exact (linked_start cid peerCID addr peerAddr accepted .right).grow
      (none (streams_start cid peerCID addr peerAddr accepted .left) _)

theorem sparse_opening : (opening cid peerCID addr peerAddr dialled accepted : Net F).Sparse := by
  intro side
  cases side with
  | left =>
    rw [conn_opening_left]
    exact sparse_start cid peerCID addr peerAddr dialled .left
  | right =>
    rw [conn_opening_right]
    exact sparse_start cid peerCID addr peerAddr accepted .right

theorem faithful_opening :
    Faithful (fun _ _ => []) (fun _ _ => []) (fun _ _ => [])
      (opening cid peerCID addr peerAddr dialled accepted : Net F) := by
  have tolerates {localCID remoteCID : ConnectionID} :
      (Packet.Stamp.between localCID remoteCID).Tolerates
        (Packet.Quotes (fun _ => []) fun _ => []) := Packet.Quotes.tolerates fun _ => by simp
  have empty := streams_opening cid peerCID addr peerAddr dialled accepted (F := F)
  refine ⟨linked_opening cid peerCID addr peerAddr dialled accepted,
    sparse_opening cid peerCID addr peerAddr dialled accepted, ?_, ?_, fun _ _ _ => rfl, ?_⟩
  · intro side id
    rw [Connection.written, empty]
    rfl
  · intro side
    cases side with
    | left =>
      rw [conn_opening_left]
      have new : (Peer.newPeer cid peerCID peerAddr true dialled : Peer F).host.conn.Speaks
          (.between cid peerCID) (Packet.Quotes (fun _ => []) fun _ => []) :=
        speaks_new tolerates rfl rfl rfl rfl
      have blank (seq : UInt32) :
          (Packet.Stamp.between cid peerCID seq 0 0 [.stream ⟨false, true, 0, []⟩]).Quotes
            (fun _ => []) fun _ => [] :=
        .of_stream ⟨Nat.le_refl 0, rfl⟩ fun fin => absurd fin Bool.false_ne_true
      exact (new.sendPacket dialled 0 0 blank).between
    | right =>
      rw [conn_opening_right]
      have new : (Peer.newPeer peerCID cid addr false accepted : Peer F).host.conn.Speaks
          (.between peerCID cid) (Packet.Quotes (fun _ => []) fun _ => []) :=
        speaks_new tolerates rfl rfl rfl rfl
      exact new.between
  · intro side id t found
    rw [empty] at found
    cases found

end

/-- A dialled connection and its acceptor, before anything has reached either. -/
def Begins (start : Net F) : Prop :=
  ∃ cid peerCID addr peerAddr dialled accepted,
    start = opening cid peerCID addr peerAddr dialled accepted

/-- No stream of the run has had 2^64 bytes written. -/
def Finite (start : Net F) (turns : List (Side × Host.Input)) : Prop :=
  ∀ side id, (written start turns side id).length < 2 ^ 64

theorem begins_start (cid peerCID : ConnectionID) (addr peerAddr : Addr) (now : Time) :
    (start cid peerCID addr peerAddr now : Net F).Begins :=
  ⟨cid, peerCID, addr, peerAddr, now, now, by unfold opening; rfl⟩

theorem finite_of_given {start : Net F} {turns : List (Side × Host.Input)}
    (little : (turns.map fun turn => turn.2.given).sum < 2 ^ 64) : start.Finite turns := by
  intro side id
  have own : ((inputs side turns).map Host.Input.given).sum ≤
      (turns.map fun turn => turn.2.given).sum := by
    clear little
    induction turns with
    | nil => exact Nat.le_refl 0
    | cons turn rest ih =>
      rw [inputs, List.filterMap_cons, List.map_cons, List.sum_cons]
      split
      · exact Nat.le_add_left_of_le ih
      · rename_i input named
        obtain rfl : turn.2 = input := by
          split at named
          · exact Option.some.inj named
          · cases named
        exact Nat.add_le_add_left ih _
  refine Nat.lt_of_le_of_lt (Nat.le_trans ?_ own) little
  exact Runs.length_output_le (fun h input => h.conn.length_wrote_le id input) _ _

section

variable {start : Net F} (begins : start.Begins) {turns : List (Side × Host.Input)}
  (reached : Runs.run step start turns = some n) (finite : start.Finite turns)

include begins reached finite

theorem faithful_run :
    Faithful (written start turns) (read start turns) (closedAfter start turns) n := by
  have first : Faithful (written start []) (read start []) (closedAfter start []) start := by
    obtain ⟨cid, peerCID, addr, peerAddr, dialled, accepted, rfl⟩ := begins
    exact faithful_opening cid peerCID addr peerAddr dialled accepted
  refine Runs.trace_invariant (fun turns (n : Net F) => start.Finite turns →
      Faithful (written start turns) (read start turns) (closedAfter start turns) n)
    (fun _ => first) ?_ (Runs.along_true start turns) reached finite
  rintro turns n ⟨side, input⟩ n' reached before - taken finite
  have writes := logs_output Connection.wrote reached side input
  have earlier : start.Finite turns := by
    refine Side.forall_of side (fun id => ?_) (fun id => ?_)
    · exact (writes.grows id).length_le.trans_lt (finite side id)
    · have := finite side.other id
      rwa [written, ← inputs_append_other side turns input]
  exact (before earlier).step taken writes
    (logs_output Connection.returned reached side input)
    (logs_output Connection.ended reached side input) finite

/-- Whatever the network does, what a side has read of a stream is the front of what
the other side wrote on its counterpart, and of a stream that has none it has read
nothing. -/
theorem read_prefix_written (side : Side) {id : UInt32} {t : Stream}
    (found : (n.conn side).streams.lookup id = some t) :
    (∀ source s, (n.conn side.other).streams.lookup source = some s → s.Counterpart t →
      start.read turns side id <+: start.written turns side.other source) ∧
    ((∀ source s, (n.conn side.other).streams.lookup source = some s → ¬ s.Counterpart t) →
      start.read turns side id = []) :=
  (faithful_run begins reached finite).front found

/-- A read reports the end of a stream only after the other side closed its
counterpart, and once all that was written before has been read. -/
theorem eof_after_close (side : Side) {id : UInt32} {now : Time} {size : Nat} {expired : Bool}
    {c : Connection F} (ended : (n.conn side).read now id size expired = some (c, .eof)) :
    ∃ before closing after source s t, turns = before ++ (side.other, .closeStream closing source) :: after ∧
      (n.conn side).streams.lookup id = some t ∧
      (n.conn side.other).streams.lookup source = some s ∧ s.Counterpart t ∧
      start.written before side.other source <+: start.read turns side id := by
  have faithful := faithful_run begins reached finite
  obtain ⟨t, found, out⟩ := read_eq_some now ended
  have eof : (t.read size expired).2.1 = .eof := (congrArg Prod.snd out).symm
  have hears := faithful.hears side id t found
  by_cases fed : ∃ source, (n.conn side.other).Feeds source t
  · obtain ⟨source, s, there, counterpart⟩ := fed
    obtain ⟨final, member, whole⟩ := (hears.fed source ⟨s, there, counterpart⟩).eof eof
    obtain ⟨before, closing, after, mid, split, earlier, written⟩ := mem_closedAfter reached member
    refine ⟨before, closing, after, source, s, t, split, found, there, counterpart, ?_⟩
    subst split
    -- What had been written by then is counted by the stream.
    have first := written_grows start before ((side.other, .closeStream closing source) :: after)
    have count := (faithful_run begins earlier fun side id =>
      (first side id).length_le.trans_lt (finite side id)).written side.other source
    rw [written] at count
    rwa [count, List.prefix_iff_eq_take.mp (first side.other source) |>.symm] at whole
  · obtain ⟨final, member, -⟩ := (hears.unfed (not_exists.mp fed)).eof eof
    cases member

end

/-- The dialler opens a stream, writes and closes it, and its peer reads. -/
def farewellRead : List (Side × Host.Input) :=
  played (farewell ++ [(.right, .handlePacket 0 hello), (.right, .handlePacket 0 goodbye),
    (.right, .own (.read 0 2 10 false))])

theorem finite_farewell : met.Finite farewellRead := finite_of_given (by decide +kernel)

theorem counterpart_farewell :
    ∃ n s t, Runs.run step met farewellRead = some n ∧ (n.conn .left).streams.lookup 1 = some s ∧
      (n.conn .right).streams.lookup 2 = some t ∧ s.Counterpart t ∧
      (t.read 10 false).2.1 = .eof := by
  have streams : (Runs.run step met farewellRead).any (fun n =>
      ((n.conn .left).streams.lookup 1).any fun s =>
        ((n.conn .right).streams.lookup 2).any fun t =>
          decide (s.Counterpart t ∧ (t.read 10 false).2.1 = .eof)) = true := by
    decide +kernel
  obtain ⟨n, reached, streams⟩ := Runs.reaches_of_any streams
  obtain ⟨s, here, streams⟩ := (Option.any_eq_true _ _).mp streams
  obtain ⟨t, there, streams⟩ := (Option.any_eq_true _ _).mp streams
  obtain ⟨counterpart, ended⟩ := of_decide_eq_true streams
  exact ⟨n, s, t, reached, here, there, counterpart, ended⟩

theorem read_prefix_written_farewell :
    met.read farewellRead .right 2 = [7] ∧ met.written farewellRead .left 1 = [7] ∧
      met.read farewellRead .right 2 <+: met.written farewellRead .left 1 := by
  obtain ⟨n, s, t, reached, here, there, counterpart, -⟩ := counterpart_farewell
  exact ⟨by decide +kernel, by decide +kernel,
    (read_prefix_written (begins_start _ _ _ _ _) reached finite_farewell .right
      there).1 1 s here counterpart⟩

theorem eof_after_close_farewell :
    ∃ n c, Runs.run step met farewellRead = some n ∧
      (n.conn .right).read 0 2 10 false = some (c, .eof) ∧
      ∃ before closing after source, farewellRead = before ++ (.left, .closeStream closing source) :: after ∧
        met.written before .left source <+: met.read farewellRead .right 2 := by
  obtain ⟨n, s, t, reached, here, there, -, ended⟩ := counterpart_farewell
  have read : ∃ c, (n.conn .right).read 0 2 10 false = some (c, .eof) := by
    simp only [Connection.read, there, Option.bind_eq_bind, Option.bind_some, ended]
    exact ⟨_, rfl⟩
  obtain ⟨c, read⟩ := read
  obtain ⟨before, closing, after, source, -, -, split, -, -, -, whole⟩ :=
    eof_after_close (begins_start _ _ _ _ _) reached finite_farewell .right read
  exact ⟨n, c, reached, read, before, closing, after, source, split, whole⟩

end Net

end Udx
