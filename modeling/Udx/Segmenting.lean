import Udx.WindowGate

set_option autoImplicit false

/- The two loops that cut stream data into frames: the one that sends it, and the
one that re-chunks a packet the path no longer carries. -/

namespace Udx

namespace Connection

variable {F : Type}

/-- The packets that carry the frames, from the number `seq` on. -/
def numbered (c : Connection F) (dstStreamID srcStreamID : UInt32) :
    Nat → List StreamFrame → List Packet
  | _, [] => []
  | seq, frame :: rest =>
    c.packet (UInt32.ofNat seq) dstStreamID srcStreamID [.stream frame] ::
      numbered c dstStreamID srcStreamID (seq + 1) rest

/-- What is kept of a data packet until it is acknowledged. -/
def kept (c : Connection F) (dstStreamID srcStreamID : UInt32) (frame : StreamFrame) : Cargo :=
  { size := c.frameSize dstStreamID srcStreamID frame, frames := [.stream frame]
    destinationStreamID := dstStreamID, sourceStreamID := srcStreamID }

/-- The frames have been given the next numbers, tracked and booked in order;
`out` are the packets that may go out. -/
structure Emits (dstStreamID srcStreamID : UInt32) (frames : List StreamFrame)
    (c c' : Connection F) (out : List Packet) : Prop where
  numbers : c'.pm.nextSeq = c.pm.nextSeq + frames.length
  pointers : c'.pm.nextPtr = c.pm.nextPtr + frames.length
  table : c'.pm.sentPackets = (List.range frames.length).foldl
    (fun table i => table.insert (UInt32.ofNat (c.pm.nextSeq + i)) (c.pm.nextPtr + i))
    c.pm.sentPackets
  older : ∀ p < c.pm.nextPtr, c'.pm.cargo p = c.pm.cargo p
  cargo : (List.range' c.pm.nextPtr frames.length).map c'.pm.cargo =
    frames.map (c.kept dstStreamID srcStreamID)
  sent : out.Sublist (c.numbered dstStreamID srcStreamID c.pm.nextSeq frames)
  all : c.addrValidated = true → out = c.numbered dstStreamID srcStreamID c.pm.nextSeq frames
  rest : c'.localCID = c.localCID ∧ c'.remoteCID = c.remoteCID ∧
    c'.addrValidated = c.addrValidated ∧ c'.remoteAddr = c.remoteAddr ∧ c'.wire = c.wire

variable {dstStreamID srcStreamID : UInt32} {c c' c'' : Connection F}

theorem numbered_append (seq : Nat) (frames : List StreamFrame) (frame : StreamFrame) :
    c.numbered dstStreamID srcStreamID seq (frames ++ [frame]) =
      c.numbered dstStreamID srcStreamID seq frames ++
        [c.packet (UInt32.ofNat (seq + frames.length)) dstStreamID srcStreamID
          [.stream frame]] := by
  induction frames generalizing seq with
  | nil => rfl
  | cons first rest ih =>
    rw [List.cons_append, numbered, ih, numbered, List.length_cons, List.cons_append,
      Nat.add_right_comm, Nat.add_assoc]

theorem Emits.append {frames : List StreamFrame} {frame : StreamFrame} {out next : List Packet}
    (first : Emits dstStreamID srcStreamID frames c c' out)
    (last : Emits dstStreamID srcStreamID [frame] c' c'' next) :
    Emits dstStreamID srcStreamID (frames ++ [frame]) c c'' (out ++ next) := by
  obtain ⟨localCID, remoteCID, validated, addr, wire⟩ := first.rest
  have packets : c'.numbered dstStreamID srcStreamID c'.pm.nextSeq [frame] =
      [c.packet (UInt32.ofNat (c.pm.nextSeq + frames.length)) dstStreamID srcStreamID
        [.stream frame]] := by
    simp only [numbered, packet, localCID, remoteCID, first.numbers]
  have same : c'.kept dstStreamID srcStreamID = c.kept dstStreamID srcStreamID := by
    funext frame
    simp only [kept, frameSize, packet, localCID, remoteCID]
  have length : (frames ++ [frame]).length = frames.length + 1 := List.length_append
  refine ⟨?_, ?_, ?_, fun p old => ?_, ?_, ?_, fun valid => ?_, ?_⟩
  · rw [last.numbers, first.numbers, length]
    rfl
  · rw [last.pointers, first.pointers, length]
    rfl
  · rw [last.table, first.table, length, List.range_succ, List.foldl_append, first.numbers,
      first.pointers]
    rfl
  · rw [last.older p (first.pointers ▸ Nat.lt_of_lt_of_le old (Nat.le_add_right _ _)),
      first.older p old]
  · have cargo := last.cargo
    rw [first.pointers, same, List.length_singleton, List.range'_one] at cargo
    have earlier : (List.range' c.pm.nextPtr frames.length).map c''.pm.cargo =
        (List.range' c.pm.nextPtr frames.length).map c'.pm.cargo := by
      refine List.map_congr_left fun p member => last.older p ?_
      rw [first.pointers]
      exact (List.mem_range'_1.mp member).2
    rw [length, List.range'_concat, List.map_append, List.map_append, earlier, first.cargo,
      Nat.one_mul, cargo]
  · have later := last.sent
    rw [packets] at later
    rw [numbered_append]
    exact first.sent.append later
  · rw [numbered_append, first.all valid, last.all (validated.trans valid), packets]
  · obtain ⟨localCID', remoteCID', validated', addr', wire'⟩ := last.rest
    exact ⟨localCID'.trans localCID, remoteCID'.trans remoteCID, validated'.trans validated,
      addr'.trans addr, wire'.trans wire⟩

variable [Float64 F]

theorem emits_prepareDataPacket (now : Time) (c : Connection F) (frame : StreamFrame) :
    Emits dstStreamID srcStreamID [frame] c
      (c.prepareDataPacket now dstStreamID srcStreamID [.stream frame]).1
      (c.prepareDataPacket now dstStreamID srcStreamID [.stream frame]).2.toList := by
  have cargo := c.dataCargo_stream dstStreamID srcStreamID frame
  -- whether the packet is limited or not, it is tracked
  have tracked : (c.prepareDataPacket now dstStreamID srcStreamID [.stream frame]).1.pm =
      ({ c.pm with nextSeq := c.pm.nextSeq + 1 }.new
        { toCargo := c.kept dstStreamID srcStreamID frame
          sequence := UInt32.ofNat c.pm.nextSeq }).1.sendPacket now c.pm.nextPtr := by
    rw [kept, ← cargo]
    unfold prepareDataPacket
    dsimp only
    split <;> rfl
  refine ⟨?_, ?_, ?_, fun p old => ?_, ?_, ?_, fun valid => ?_, ?_⟩
  · rw [tracked]
    rfl
  · rw [tracked]
    rfl
  · rw [tracked]
    simp [PacketManager.sendPacket, PacketManager.modify, PacketManager.new]
  · rw [tracked, PacketManager.cargo_sendPacket]
    exact congrArg SentPacket.toCargo (Function.update_of_ne (Nat.ne_of_lt old) _ _)
  · show [_] = [_]
    rw [tracked, PacketManager.cargo_sendPacket]
    exact congrArg (fun x => [x]) (PacketManager.cargo_new _ _)
  · unfold prepareDataPacket
    dsimp only
    split
    · exact List.nil_sublist _
    · exact List.Sublist.refl _
  · unfold prepareDataPacket
    dsimp only
    rw [if_neg]
    · rfl
    · simp [limited, registerData, track, valid]
  · unfold prepareDataPacket
    dsimp only
    split <;> exact ⟨rfl, rfl, rfl, rfl, rfl⟩

theorem emits_batch (now : Time) (c : Connection F) (frames : List StreamFrame) :
    Emits dstStreamID srcStreamID frames c
      (frames.foldl (batch now dstStreamID srcStreamID) (c, [])).1
      (frames.foldl (batch now dstStreamID srcStreamID) (c, [])).2 := by
  induction frames using List.reverseRecOn with
  | nil =>
    exact ⟨rfl, rfl, rfl, fun _ _ => rfl, rfl, List.Sublist.refl _, fun _ => rfl, rfl,
      rfl, rfl, rfl,
      rfl⟩
  | append_singleton frames frame ih =>
    rw [List.foldl_append]
    exact ih.append (emits_prepareDataPacket now _ frame)

omit [Float64 F]

/-- The packet fits, is not a single STREAM frame, or has a header that alone does
not fit. -/
def StaysWhole (c : Connection F) (limit : Nat) (p : Ptr) : Prop :=
  (c.pm.heap p).size ≤ limit ∨ (∀ sf, (c.pm.heap p).frames ≠ [.stream sf]) ∨
    ∃ sf, (c.pm.heap p).frames = [.stream sf] ∧
      limit ≤ c.pieceSize (c.pm.heap p).toCargo ⟨false, sf.isSyn, sf.offset, []⟩

theorem StaysWhole.fitTo {limit : Nat} {p : Ptr} (stays : c.StaysWhole limit p) :
    c.fitTo limit p = (c, [p]) := by
  unfold Connection.fitTo
  dsimp only
  split
  · rfl
  · rename_i large
    split
    · rename_i sf frames
      obtain ⟨sf', frames', header⟩ := (stays.resolve_left large).resolve_left
        fun other => other sf frames
      obtain rfl : sf' = sf := by
        rw [frames'] at frames
        cases frames
        rfl
      exact if_pos (.inl (by omega))
    · rfl

end Connection

end Udx
