import Mathlib.Data.List.Nodup
import Udx.Connection

set_option autoImplicit false

/- Writing several datagrams at once. Where the socket allows it they go out in
batches; the kernel may take fewer than it is offered, and the rest is offered
again. -/

namespace Udx.BatchConn

/-- A datagram and where it goes. -/
structure Message (α : Type) where
  buffer : α
  addr : Addr
deriving DecidableEq

/-- What the batch call answers when it is offered some datagrams: how many the
kernel took of the first, without or with an error. -/
inductive Reply (offered : Nat) where
  | wrote (n : Fin (offered + 1))
  | failed (n : Fin (offered + 1))

/-- What the calls of a socket answer, each one in turn. -/
structure Socket where
  writeBatch : Nat → (offered : Nat) → Reply offered
  writeTo : Nat → Bool

/-- `batch` is false where there is no batching on the socket, `batchWrites` on an
IPv6 or dual-stack one. -/
structure DatagramIO where
  batch : Bool
  batchWrites : Bool

/-- What was handed to the kernel, in order, what the batch calls returned that did
not fail, and whether an error was returned in the end. -/
structure Written (α : Type) where
  handed : List (Message α) := []
  counts : List Nat := []
  error : Bool := false

variable {α : Type}

namespace Socket

variable (socket : Socket)

/-- One datagram per call, up to the first error. -/
def writeEach (addr : Addr) : Nat → List α → Written α
  | _, [] => {}
  | call, b :: rest =>
    if socket.writeTo call then
      let out := writeEach addr (call + 1) rest
      { out with handed := ⟨b, addr⟩ :: out.handed }
    else { error := true }

/-- The loop of `writeAll`: `ms` is what is left to offer of `bufs`. `none` stands
for a loop that is still going when the fuel is used up. -/
def writeBatches (bufs : List α) (addr : Addr) : Nat → Nat → List (Message α) → Option (Written α)
  | _, _, [] => some {}
  | 0, _, _ :: _ => none
  | fuel + 1, call, m :: rest =>
    let ms := m :: rest
    match socket.writeBatch call ms.length with
    | .failed n =>
      let out := socket.writeEach addr 0 (bufs.drop (bufs.length - ms.length))
      some { out with handed := ms.take n ++ out.handed }
    | .wrote n =>
      let step := if n.val ≤ 0 then 1 else n.val
      (writeBatches bufs addr fuel (call + 1) (ms.drop step)).map fun out =>
        { out with handed := ms.take n ++ out.handed, counts := n.val :: out.counts }

/-- Sends every buffer to `addr`, several per call where it can. -/
def writeAll (io : DatagramIO) (fuel : Nat) (bufs : List α) (addr : Addr) : Option (Written α) :=
  if !io.batch || !io.batchWrites || bufs.length = 1 then some (socket.writeEach addr 0 bufs)
  else socket.writeBatches bufs addr fuel 0 (bufs.map (⟨·, addr⟩))

end Socket

section

variable [DecidableEq α] {xs ys : List α}

theorem eraseDups_of_nodup (distinct : xs.Nodup) : xs.eraseDups = xs := by
  induction xs with
  | nil => rfl
  | cons x rest ih =>
    obtain ⟨absent, distinct⟩ := List.nodup_cons.mp distinct
    have kept : rest.filter (fun y => !y == x) = rest := by
      rw [List.filter_eq_self]
      intro y member
      simpa using fun same : y = x => absent (same ▸ member)
    rw [List.eraseDups_cons, kept, ih distinct]

theorem eraseDups_append_of_nodup (distinct : xs.Nodup) :
    (xs ++ ys).eraseDups = xs ++ (ys.filter (· ∉ xs)).eraseDups := by
  have others : ys.removeAll xs = ys.filter (· ∉ xs) := by
    rw [List.removeAll]
    refine List.filter_congr fun y _ => ?_
    simp
  rw [List.eraseDups_append, eraseDups_of_nodup distinct, others]

end

/-- How the datagrams `ms` came to the kernel: none before one that precedes it, and
all of them unless a call took none. -/
structure Delivers (ms : List (Message α)) (out : Written α) [DecidableEq α] : Prop where
  ordered : out.handed.eraseDups.Sublist ms
  all : (∀ m ∈ ms, m ∈ out.handed) ↔ 0 ∉ out.counts
  error : out.error = false

namespace Socket

variable {socket : Socket} (succeeds : ∀ call, socket.writeTo call = true)

include succeeds

theorem writeEach_eq (addr : Addr) (call : Nat) (bufs : List α) :
    socket.writeEach addr call bufs = { handed := bufs.map (⟨·, addr⟩) } := by
  induction bufs generalizing call with
  | nil => rfl
  | cons b rest ih => rw [writeEach, if_pos (succeeds call), ih, List.map_cons]

variable [DecidableEq α] {bufs : List α} {addr : Addr} {ms : List (Message α)}

omit succeeds in
theorem Delivers.batch {n step : Nat} {out : Written α}
    (size : step = if n ≤ 0 then 1 else n) (some : ms ≠ []) (distinct : ms.Nodup)
    (rest : Delivers (ms.drop step) out) :
    Delivers ms { out with handed := ms.take n ++ out.handed, counts := n :: out.counts } := by
  have further : n ≤ step := by
    rw [size]
    split <;> omega
  have apart := List.disjoint_take_drop distinct further
  have later : ∀ m ∈ out.handed, m ∈ ms.drop step := fun m member =>
    rest.ordered.subset (List.mem_eraseDups.mpr member)
  refine ⟨?_, ⟨fun all => ?_, fun none m member => ?_⟩, rest.error⟩
  · have others : out.handed.filter (· ∉ ms.take n) = out.handed := by
      rw [List.filter_eq_self]
      intro m member
      exact decide_eq_true fun first => apart first (later m member)
    have whole : (ms.take n ++ ms.drop step).Sublist (ms.take n ++ ms.drop n) :=
      (List.drop_sublist_drop_left ms further).append_left _
    rw [List.take_append_drop] at whole
    rw [eraseDups_append_of_nodup (distinct.sublist (List.take_sublist _ _)), others]
    exact (rest.ordered.append_left _).trans whole
  · rw [List.mem_cons, not_or]
    constructor
    · -- The datagram that was passed over is not offered again.
      rintro rfl
      obtain ⟨m, tail, rfl⟩ := List.exists_cons_of_ne_nil some
      have handed := all m List.mem_cons_self
      rw [List.take_zero, List.nil_append] at handed
      have again := later m handed
      rw [size, if_pos (Nat.le_refl 0)] at again
      exact (List.nodup_cons.mp distinct).1 again
    · refine rest.all.mp fun m member => ?_
      rcases List.mem_append.mp (all m (List.mem_of_mem_drop member)) with first | after
      · exact absurd member (apart first)
      · exact after
  · rw [List.mem_cons, not_or] at none
    have same : step = n := by
      rw [size, if_neg (by omega)]
    rw [← List.take_append_drop n ms] at member
    rcases List.mem_append.mp member with first | after
    · exact List.mem_append_left _ first
    · exact List.mem_append_right _ (rest.all.mpr none.2 m (same ▸ after))

omit succeeds in
theorem Delivers.again (n : Nat) (distinct : ms.Nodup) :
    Delivers ms { handed := ms.take n ++ ms } := by
  refine ⟨?_, iff_of_true (fun m member => List.mem_append_right _ member) List.not_mem_nil, rfl⟩
  have apart := List.disjoint_take_drop distinct (Nat.le_refl n)
  have first : (ms.take n).filter (· ∉ ms.take n) = [] := by
    rw [List.filter_eq_nil_iff]
    exact fun m member absent => of_decide_eq_true absent member
  have rest : (ms.drop n).filter (· ∉ ms.take n) = ms.drop n := by
    rw [List.filter_eq_self]
    exact fun m member => decide_eq_true fun taken => apart taken member
  have others : ms.filter (· ∉ ms.take n) = ms.drop n := by
    conv_lhs => rw [← List.take_append_drop n ms, List.filter_append]
    rw [List.take_append_drop, first, rest, List.nil_append]
  rw [eraseDups_append_of_nodup (distinct.sublist (List.take_sublist _ _)), others,
    eraseDups_of_nodup (distinct.sublist (List.drop_sublist _ _)), List.take_append_drop]

omit succeeds [DecidableEq α] in
theorem left_drop {step : Nat} (within : step ≤ ms.length)
    (left : (bufs.drop (bufs.length - ms.length)).map (⟨·, addr⟩) = ms) :
    (bufs.drop (bufs.length - (ms.drop step).length)).map (⟨·, addr⟩) = ms.drop step := by
  have short : ms.length ≤ bufs.length := by
    have length := congrArg List.length left
    rw [List.length_map, List.length_drop] at length
    omega
  have place : bufs.length - (ms.drop step).length = bufs.length - ms.length + step := by
    rw [List.length_drop]
    omega
  rw [place, ← List.drop_drop, List.map_drop, left]

/-- The loop ends after at most as many rounds as there are datagrams. -/
theorem delivers_writeBatches {fuel call : Nat} (enough : ms.length ≤ fuel)
    (left : (bufs.drop (bufs.length - ms.length)).map (⟨·, addr⟩) = ms) (distinct : ms.Nodup) :
    ∃ out, socket.writeBatches bufs addr fuel call ms = some out ∧ Delivers ms out := by
  have nothing : Delivers ([] : List (Message α)) {} := ⟨List.Sublist.refl _, by simp, rfl⟩
  induction fuel generalizing call ms with
  | zero =>
    obtain rfl := List.eq_nil_of_length_eq_zero (Nat.le_zero.mp enough)
    exact ⟨{}, rfl, nothing⟩
  | succ fuel ih =>
    cases ms with
    | nil => exact ⟨{}, rfl, nothing⟩
    | cons m rest =>
      rw [writeBatches]
      dsimp only
      cases socket.writeBatch call (m :: rest).length with
      | failed n =>
        rw [writeEach_eq succeeds, left]
        exact ⟨_, rfl, Delivers.again n distinct⟩
      | wrote n =>
        let step := if n.val ≤ 0 then 1 else n.val
        have positive : 0 < step := by
          show 0 < if n.val ≤ 0 then 1 else n.val
          split <;> omega
        have within : step ≤ (m :: rest).length := by
          show (if n.val ≤ 0 then 1 else n.val) ≤ _
          split
          · exact Nat.succ_le_succ (Nat.zero_le _)
          · exact Nat.le_of_lt_succ n.isLt
        have fewer : ((m :: rest).drop step).length ≤ fuel := by
          rw [List.length_drop]
          omega
        have next : ∃ out, socket.writeBatches bufs addr fuel (call + 1) ((m :: rest).drop step) =
            some out ∧ Delivers ((m :: rest).drop step) out :=
          ih fewer (left_drop within left) (distinct.sublist (List.drop_sublist _ _))
        obtain ⟨out, reached, delivers⟩ := next
        refine ⟨_, ?_, Delivers.batch rfl (List.cons_ne_nil _ _) distinct delivers⟩
        show (socket.writeBatches bufs addr fuel (call + 1) ((m :: rest).drop step)).map _ = _
        rw [reached]
        rfl

theorem delivers_writeAll (io : DatagramIO) {fuel : Nat} (enough : bufs.length ≤ fuel)
    (distinct : bufs.Nodup) :
    ∃ out, socket.writeAll io fuel bufs addr = some out ∧ Delivers (bufs.map (⟨·, addr⟩)) out := by
  have messages : (bufs.map fun b => (⟨b, addr⟩ : Message α)).Nodup :=
    distinct.map fun a b same => congrArg Message.buffer same
  unfold writeAll
  split
  · rw [writeEach_eq succeeds]
    exact ⟨_, rfl, Delivers.again 0 messages⟩
  · refine delivers_writeBatches succeeds ?_ ?_ messages
    · rw [List.length_map]
      exact enough
    · rw [List.length_map, Nat.sub_self, List.drop_zero]

/-- Where single writes succeed, `writeAll` returns and hands the buffers over in order.
It hands over every one exactly if no batch call took none of those it was offered: then
the first of them is passed over. The buffers are told apart by their places. -/
theorem writeAll_complete_iff (io : DatagramIO) (bufs : List (List UInt8)) (addr : Addr)
    {fuel : Nat} (enough : bufs.length ≤ fuel) :
    ∃ out, socket.writeAll io fuel bufs.zipIdx addr = some out ∧ out.error = false ∧
      out.handed.eraseDups.Sublist (bufs.zipIdx.map (⟨·, addr⟩)) ∧
      ((∀ b ∈ bufs.zipIdx, ⟨b, addr⟩ ∈ out.handed) ↔ 0 ∉ out.counts) := by
  have places : bufs.zipIdx.Nodup := by
    refine List.Nodup.of_map Prod.snd ?_
    rw [List.zipIdx_map_snd]
    exact List.nodup_range'
  have length : bufs.zipIdx.length ≤ fuel := by
    rw [List.length_zipIdx]
    exact enough
  have sent : ∃ out, socket.writeAll io fuel bufs.zipIdx addr = some out ∧
      Delivers (bufs.zipIdx.map (⟨·, addr⟩)) out := delivers_writeAll succeeds io length places
  obtain ⟨out, written, delivers⟩ := sent
  refine ⟨out, written, delivers.error, delivers.ordered, ?_⟩
  rw [← delivers.all, List.forall_mem_map]

omit succeeds

/-- A socket that takes one datagram, and then fails. -/
def faltering : Socket where
  writeBatch call _ := if call = 0 then .wrote 1 else .failed 0
  writeTo _ := true

theorem writeAll_complete_iff_faltering :
    let bufs : List (List UInt8) := [[7], [8], [9]]
    ∃ out, faltering.writeAll ⟨true, true⟩ 3 bufs.zipIdx "peer" = some out ∧
      0 ∉ out.counts ∧ ∀ b ∈ bufs.zipIdx, ⟨b, "peer"⟩ ∈ out.handed := by
  intro bufs
  have succeeds : ∀ call, faltering.writeTo call = true := fun _ => rfl
  obtain ⟨out, written, -, -, complete⟩ :=
    writeAll_complete_iff succeeds ⟨true, true⟩ bufs "peer" (Nat.le_refl 3)
  have counts : 0 ∉ out.counts := by
    obtain rfl := Option.some.inj written
    decide
  exact ⟨out, written, counts, complete.mpr counts⟩

/-- A socket that at first takes none of what it is offered, and then everything. -/
def slow : Socket where
  writeBatch call offered := .wrote (if call = 0 then 0 else Fin.last offered)
  writeTo _ := true

theorem writeAll_passes_over :
    let bufs : List (List UInt8) := [[7], [8]]
    ∃ out, slow.writeAll ⟨true, true⟩ 2 bufs.zipIdx "peer" = some out ∧
      ⟨([7], 0), "peer"⟩ ∉ out.handed ∧ ∀ call, slow.writeTo call = true :=
  ⟨_, rfl, by decide, fun _ => rfl⟩

end Socket

end Udx.BatchConn
