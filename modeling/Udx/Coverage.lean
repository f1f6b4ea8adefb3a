import Mathlib.Order.Bounds.Basic
import Mathlib.Tactic.IntervalCases
import Udx.Reception
import Udx.StreamReassembly

set_option autoImplicit false

/- How far the delivered bytes reach, against what has arrived. An early chunk
is held under its start, so a chunk that starts where a shorter one is held is
dropped, and a chunk that the delivered bytes have run into is never taken up. What
this costs is told byte by byte, from the state before each chunk. -/

namespace Udx

open Slices Spans

namespace Stream

/-- Bytes of the peer's and the offset they start at. -/
structure Chunk where
  offset : Nat
  data : List UInt8
deriving DecidableEq

namespace Chunk

def span (c : Chunk) : Span := ⟨c.offset, c.offset + c.data.length⟩

def Covered (chunks : List Chunk) (x : Nat) : Prop := ∃ c ∈ chunks, x ∈ c.span

instance (chunks : List Chunk) (x : Nat) : Decidable (Covered chunks x) :=
  inferInstanceAs (Decidable (∃ c ∈ chunks, x ∈ c.span))

def totalSize (chunks : List Chunk) : Nat := (chunks.map fun c => c.data.length).sum

theorem totalSize_append (first second : List Chunk) :
    totalSize (first ++ second) = totalSize first + totalSize second := by
  rw [totalSize, List.map_append, List.sum_append]
  rfl

theorem totalSize_singleton (c : Chunk) : totalSize [c] = c.data.length := Nat.add_zero _

theorem Covered.mono {chunks more : List Chunk} (fewer : chunks ⊆ more) {x : Nat}
    (covered : Covered chunks x) : Covered more x := by
  obtain ⟨c, member, inside⟩ := covered
  exact ⟨c, fewer member, inside⟩

end Chunk

open Chunk (Covered totalSize totalSize_append totalSize_singleton)

def deliverAll (s : Stream) (chunks : List Chunk) : Stream :=
  chunks.foldl (fun s c => (s.deliverData c.offset c.data).1) s

/-- The byte is in a chunk held that starts at `n` or later. -/
def HeldFrom (s : Stream) (n x : Nat) : Prop :=
  ∃ e ∈ s.recvOOO.entries, n ≤ e.1 ∧ e.1 ≤ x ∧ x < e.1 + e.2.length

instance (s : Stream) (n x : Nat) : Decidable (s.HeldFrom n x) :=
  inferInstanceAs (Decidable (∃ e ∈ s.recvOOO.entries, n ≤ e.1 ∧ e.1 ≤ x ∧ x < e.1 + e.2.length))

/-- The end of a row of held chunks from `n` on, each starting where the one before
it ends. -/
def rowEnd : Nat → AList (fun _ : Nat => List UInt8) → Nat → Nat
  | 0, _, n => n
  | fuel + 1, held, n =>
    match held.lookup n with
    | none => n
    | some data => rowEnd fuel (held.erase n) (n + data.length)

/-- How far the delivered bytes come with a chunk that starts among them. -/
def reach (s : Stream) (c : Chunk) : Nat :=
  if c.span.stop ≤ s.recvOffset then s.recvOffset
  else rowEnd s.recvOOO.entries.length s.recvOOO c.span.stop

/-- The chunk costs the stream nothing of the byte `x`: if the chunk is early and
another is held at its start, the byte is held already, and if it brings the
delivered bytes on into a held chunk, the byte is before their end or is held in one
they have not run into. -/
def Keeps (s : Stream) (x : Nat) (c : Chunk) : Prop :=
  if c.offset ≤ s.recvOffset then
    s.reach c ≤ x → s.HeldFrom s.recvOffset x → s.HeldFrom (s.reach c) x
  else c.offset ∈ s.recvOOO → x ∈ c.span → s.HeldFrom s.recvOffset x

instance (s : Stream) (x : Nat) (c : Chunk) : Decidable (s.Keeps x c) := by
  unfold Keeps
  infer_instance

/-- None of the chunks costs the stream anything of the byte. -/
def KeepsAll (x : Nat) : Stream → List Chunk → Prop
  | _, [] => True
  | s, c :: rest => s.Keeps x c ∧ KeepsAll x (s.deliverData c.offset c.data).1 rest

/-- From one of the chunks that bring it on, the byte is kept. -/
def Retained (s : Stream) (chunks : List Chunk) (x : Nat) : Prop :=
  ∃ before c rest, chunks = before ++ c :: rest ∧ x ∈ c.span ∧
    KeepsAll x (s.deliverAll before) (c :: rest)

instance decidableKeepsAll (x : Nat) :
    (s : Stream) → (chunks : List Chunk) → Decidable (KeepsAll x s chunks)
  | _, [] => isTrue trivial
  | s, c :: rest =>
    have := decidableKeepsAll x (s.deliverData c.offset c.data).1 rest
    inferInstanceAs (Decidable (_ ∧ _))

/-- What a stream holds of its peer's bytes. -/
structure Store where
  recvBuf : List UInt8
  recvOOO : AList (fun _ : Nat => List UInt8)
  recvOffset : Nat
  oooBytes : Int
  flowControlViolation : Bool

def store (s : Stream) : Store :=
  ⟨s.recvBuf, s.recvOOO, s.recvOffset, s.oooBytes, s.flowControlViolation⟩

variable {s t : Stream} {chunks done : List Chunk} {c : Chunk} {x : Nat}

theorem store_finishLocked : s.finishLocked.store = s.store := by
  unfold finishLocked
  split <;> rfl

theorem store_deliverData (offset : Nat) (data : List UInt8) :
    (s.deliverData offset data).1.store = (s.placeLocked offset data).1.store := by
  unfold deliverData
  dsimp only
  split
  · unfold reset
    split <;> rfl
  · split
    · exact store_finishLocked
    · rfl

theorem has_iff : s.Has x ↔ x < s.recvOffset ∨ s.HeldFrom s.recvOffset x := by
  refine or_congr_right ⟨?_, ?_⟩
  · rintro ⟨start, chunk, found, inside⟩
    exact ⟨⟨start, chunk⟩, Tables.mem_entries_iff.mpr found, inside⟩
  · rintro ⟨⟨start, chunk⟩, member, inside⟩
    exact ⟨start, chunk, Tables.mem_entries_iff.mp member, inside⟩

theorem HeldFrom.mono {n m : Nat} (held : s.HeldFrom n x) (earlier : m ≤ n)
    (more : s.recvOOO.entries ⊆ t.recvOOO.entries) : t.HeldFrom m x := by
  obtain ⟨e, member, from', inside⟩ := held
  exact ⟨e, more member, earlier.trans from', inside⟩

/-- Offsets of held chunks do not wrap. -/
def Unwrapped (s : Stream) : Prop := ∀ e ∈ s.recvOOO.entries, e.1 + e.2.length < 2 ^ 64

/-- What the release loop does: it goes to the end of the row, through bytes that are
held, and leaves what starts there or later. -/
structure Releases (fuel : Nat) (s t : Stream) : Prop where
  front : t.recvOffset = rowEnd fuel s.recvOOO s.recvOffset
  further : s.recvOffset ≤ t.recvOffset
  filled : ∀ x, s.recvOffset ≤ x → x < t.recvOffset → s.HeldFrom s.recvOffset x
  later : ∀ n x, t.recvOffset ≤ n → (t.HeldFrom n x ↔ s.HeldFrom n x)

theorem releases_release (unwrapped : s.Unwrapped) (fuel : Nat) :
    Releases fuel s (release fuel s) := by
  have still : Releases 0 s s :=
    ⟨rfl, Nat.le_refl _, fun x above below => absurd below (Nat.not_lt.mpr above),
      fun n x _ => Iff.rfl⟩
  induction fuel generalizing s with
  | zero => exact still
  | succ fuel ih =>
    rw [release]
    cases found : s.recvOOO.lookup s.recvOffset with
    | none => exact ⟨by rw [rowEnd, found], still.further, still.filled, still.later⟩
    | some chunk =>
      have entry := Tables.mem_entries_iff.mpr found
      have stop : (s.recvOffset + chunk.length) % 2 ^ 64 = s.recvOffset + chunk.length :=
        Nat.mod_eq_of_lt (unwrapped _ entry)
      dsimp only
      rw [stop]
      generalize next : ({ s with
        recvOOO := s.recvOOO.erase s.recvOffset
        oooBytes := s.oooBytes - chunk.length
        recvBuf := s.recvBuf ++ chunk
        recvOffset := s.recvOffset + chunk.length } : Stream) = t
      have offset : t.recvOffset = s.recvOffset + chunk.length := by rw [← next]
      have table : t.recvOOO = s.recvOOO.erase s.recvOffset := by rw [← next]
      have fewer : t.recvOOO.entries ⊆ s.recvOOO.entries := by
        rw [table]
        exact (List.kerase_sublist _ _).subset
      have rest := ih (s := t) (fun e member => unwrapped e (fewer member))
        ⟨rfl, Nat.le_refl _, fun x above below => absurd below (Nat.not_lt.mpr above),
          fun n x _ => Iff.rfl⟩
      have further := rest.further
      refine ⟨?_, by omega, fun x above below => ?_, fun n x ahead => ?_⟩
      · rw [rowEnd, found]
        dsimp only
        rw [← table, ← offset]
        exact rest.front
      · by_cases inside : x < t.recvOffset
        · exact ⟨_, entry, Nat.le_refl _, above, by dsimp only; omega⟩
        · exact (rest.filled x (Nat.le_of_not_lt inside) below).mono (by omega) fewer
      · refine (rest.later n x ahead).trans ⟨fun held => held.mono (Nat.le_refl n) fewer, ?_⟩
        rintro ⟨e, member, from', inside⟩
        refine ⟨e, ?_, from', inside⟩
        rw [Tables.mem_entries_iff] at member ⊢
        rw [table, AList.lookup_erase_ne]
        · exact member
        · -- the chunk just released ends before `n`
          intro same
          rw [same, found, Option.some.injEq] at member
          rw [← member] at inside
          omega

/-- Placing a chunk, byte by byte: those the stream had and those of the chunk, as
far as the chunk keeps them. -/
theorem has_placeLocked_iff (unwrapped : s.Unwrapped) (small : c.span.stop < 2 ^ 64)
    (room : s.oooBytes + c.data.length ≤ maxStreamRecvOOO) :
    (s.placeLocked c.offset c.data).1.Has x ↔ (s.Has x ∨ x ∈ c.span) ∧ s.Keeps x c := by
  have stop : (c.offset + c.data.length) % 2 ^ 64 = c.offset + c.data.length :=
    Nat.mod_eq_of_lt small
  have inside : x ∈ c.span ↔ c.offset ≤ x ∧ x < c.offset + c.data.length := Iff.rfl
  have placed := s.placed_placeLocked c.offset c.data
  generalize s.placeLocked c.offset c.data = out at placed ⊢
  rw [has_iff, has_iff]
  cases placed with
  | known behind =>
    rw [stop] at behind
    have keeps : s.Keeps x c := by
      have same : s.reach c = s.recvOffset := if_pos behind
      rw [Keeps, if_pos (by omega), same]
      exact fun _ held => held
    rw [and_iff_left keeps]
    dsimp only
    refine ⟨.inl, fun has => has.elim (fun has => has) fun own => .inl ?_⟩
    have := inside.mp own
    omega
  | held ahead present =>
    have keeps : s.Keeps x c ↔ (x ∈ c.span → s.HeldFrom s.recvOffset x) := by
      rw [Keeps, if_neg (Nat.not_le.mpr ahead)]
      exact forall_prop_of_true present
    rw [keeps]
    constructor
    · refine fun has => ⟨.inl has, fun own => has.resolve_left fun before => ?_⟩
      have := inside.mp own
      exact absurd before (Nat.not_lt.mpr (ahead.le.trans this.1))
    · rintro ⟨has | own, kept⟩
      · exact has
      · exact .inr (kept own)
  | excess beyond ahead absent over' => exact absurd over' (Int.not_lt.mpr room)
  | early beyond ahead absent =>
    have keeps : s.Keeps x c := by
      rw [Keeps, if_neg (Nat.not_le.mpr ahead)]
      exact fun present => absurd present absent
    have entries : (s.recvOOO.insert c.offset c.data).entries =
        ⟨c.offset, c.data⟩ :: s.recvOOO.entries := AList.entries_insert_of_notMem absent
    rw [and_iff_left keeps, or_assoc]
    refine or_congr_right ?_
    unfold HeldFrom
    dsimp only
    rw [entries, List.exists_mem_cons_iff, or_comm]
    refine or_congr_right ?_
    rw [inside]
    exact and_iff_right ahead.le
  | next beyond begun =>
    rw [stop] at beyond
    have ahead : s.reach c = rowEnd s.recvOOO.entries.length s.recvOOO (c.offset + c.data.length) :=
      if_neg (Nat.not_le.mpr beyond)
    have keeps : s.Keeps x c ↔
        (s.reach c ≤ x → s.HeldFrom s.recvOffset x → s.HeldFrom (s.reach c) x) := by
      rw [Keeps, if_pos begun]
    rw [stop]
    generalize placed : ({ s with
      recvBuf := s.recvBuf ++ c.data.drop (s.recvOffset - c.offset)
      recvOffset := c.offset + c.data.length } : Stream) = t
    have table : t.recvOOO = s.recvOOO := by rw [← placed]
    have front : t.recvOffset = c.offset + c.data.length := by rw [← placed]
    have held (n y : Nat) : t.HeldFrom n y ↔ s.HeldFrom n y := by rw [HeldFrom, table]; rfl
    have releases := releases_release (s := t) (by rw [Unwrapped, table]; exact unwrapped)
      s.recvOOO.entries.length
    generalize release s.recvOOO.entries.length t = u at releases ⊢
    have reached : u.recvOffset = s.reach c := by rw [releases.front, ahead, table, front]
    have further := releases.further
    rw [releases.later _ _ (Nat.le_refl _), held, keeps, reached]
    constructor
    · rintro (before | later)
      · refine ⟨?_, fun after => absurd before (Nat.not_lt.mpr after)⟩
        by_cases own : x < t.recvOffset
        · by_cases old : x < s.recvOffset
          · exact .inl (.inl old)
          · exact .inr (inside.mpr (by omega))
        · have filled := (held _ _).mp (releases.filled x (Nat.le_of_not_lt own) (reached ▸ before))
          exact .inl (.inr (filled.mono (by omega) fun _ member => member))
      · exact ⟨.inl (.inr (later.mono (by omega) fun _ member => member)), fun _ _ => later⟩
    · rintro ⟨(old | has) | own, kept⟩
      · exact .inl (by omega)
      · by_cases before : x < s.reach c
        · exact .inl before
        · exact .inr (kept (Nat.le_of_not_lt before) has)
      · have := inside.mp own
        exact .inl (by omega)

theorem violation_placeLocked {offset : Nat} {data : List UInt8}
    (room : s.oooBytes + data.length ≤ maxStreamRecvOOO) (intact : s.flowControlViolation = false) :
    (s.placeLocked offset data).1.flowControlViolation = false := by
  have placed := s.placed_placeLocked offset data
  generalize s.placeLocked offset data = out at placed ⊢
  cases placed with
  | known | held | early => exact intact
  | excess beyond ahead absent over' => exact absurd over' (Int.not_lt.mpr room)
  | next => exact (violation_release _ _).trans intact

/-- Everything the stream has was in the chunks delivered. -/
structure Drawn (done : List Chunk) (s : Stream) : Prop where
  front : ∀ x, x < s.recvOffset → Covered done x
  held : ∀ start data, s.recvOOO.lookup start = some data → ⟨start, data⟩ ∈ done
  few : s.oooBytes ≤ totalSize done

theorem Drawn.release (drawn : Drawn done s) (fuel : Nat) : Drawn done (release fuel s) := by
  induction fuel generalizing s with
  | zero => exact drawn
  | succ fuel ih =>
    rw [Stream.release]
    split
    · exact drawn
    · rename_i data found
      have here := drawn.held _ _ found
      refine ih ⟨fun x before => ?_, fun start other lookup => ?_, ?_⟩
      · by_cases old : x < s.recvOffset
        · exact drawn.front x old
        · have wrapped := Nat.mod_le (s.recvOffset + data.length) (2 ^ 64)
          refine ⟨_, here, Nat.le_of_not_lt old, ?_⟩
          exact Nat.lt_of_lt_of_le before wrapped
      · by_cases same : start = s.recvOffset
        · rw [same, AList.lookup_erase] at lookup
          cases lookup
        · exact drawn.held start other (by rwa [AList.lookup_erase_ne same] at lookup)
      · have := drawn.few
        dsimp only
        omega

theorem Drawn.more (drawn : Drawn done s) (c : Chunk) : Drawn (done ++ [c]) s := by
  refine ⟨fun x before => (drawn.front x before).mono (List.subset_append_left _ _),
    fun start data found => List.mem_append_left _ (drawn.held start data found), ?_⟩
  have := drawn.few
  rw [totalSize_append]
  omega

theorem Drawn.placeLocked (drawn : Drawn done s) :
    Drawn (done ++ [c]) (s.placeLocked c.offset c.data).1 := by
  have placed := s.placed_placeLocked c.offset c.data
  have more := drawn.more c
  have last : c ∈ done ++ [c] := List.mem_append_right _ (List.mem_singleton_self c)
  generalize s.placeLocked c.offset c.data = out at placed ⊢
  cases placed with
  | known | held => exact more
  | excess => exact ⟨more.front, more.held, more.few⟩
  | early =>
    refine ⟨more.front, fun start data found => ?_, ?_⟩
    · by_cases same : start = c.offset
      · rw [same, AList.lookup_insert, Option.some.injEq] at found
        rw [same, ← found]
        exact last
      · exact more.held start data (by rwa [AList.lookup_insert_ne same] at found)
    · have := drawn.few
      rw [totalSize_append, totalSize_singleton]
      dsimp only
      omega
  | next beyond begun =>
    apply Drawn.release
    refine ⟨fun x before => ?_, more.held, more.few⟩
    by_cases old : x < s.recvOffset
    · exact more.front x old
    · have wrapped := Nat.mod_le (c.offset + c.data.length) (2 ^ 64)
      refine ⟨c, last, ?_, Nat.lt_of_lt_of_le before wrapped⟩
      show c.offset ≤ x
      omega

/-- What holds of a stream that has been given the chunks `done`. -/
structure Gathers (done : List Chunk) (s : Stream) : Prop where
  idle : s.recvOOO.lookup s.recvOffset = none
  drawn : Drawn done s
  intact : s.flowControlViolation = false

theorem Gathers.congr (gathers : Gathers done s) (same : t.store = s.store) : Gathers done t := by
  have early : t.recvOOO = s.recvOOO := congrArg Store.recvOOO same
  have front : t.recvOffset = s.recvOffset := congrArg Store.recvOffset same
  have bytes : t.oooBytes = s.oooBytes := congrArg Store.oooBytes same
  refine ⟨?_, ⟨?_, ?_, ?_⟩, ?_⟩
  · rw [early, front]
    exact gathers.idle
  · rw [front]
    exact gathers.drawn.front
  · rw [early]
    exact gathers.drawn.held
  · rw [bytes]
    exact gathers.drawn.few
  · exact (congrArg Store.flowControlViolation same).trans gathers.intact

theorem Gathers.room (gathers : Gathers done s)
    (room : totalSize (done ++ [c]) ≤ maxStreamRecvOOO) :
    s.oooBytes + c.data.length ≤ maxStreamRecvOOO := by
  have := gathers.drawn.few
  rw [totalSize_append, totalSize_singleton] at room
  omega

theorem Gathers.unwrapped (gathers : Gathers done s) (small : ∀ c ∈ done, c.span.stop < 2 ^ 64) :
    s.Unwrapped := fun e member =>
  small _ (gathers.drawn.held e.1 e.2 (Tables.mem_entries_iff.mp member))

theorem Gathers.deliverData (gathers : Gathers done s)
    (room : totalSize (done ++ [c]) ≤ maxStreamRecvOOO) :
    Gathers (done ++ [c]) (s.deliverData c.offset c.data).1 := by
  refine Gathers.congr ⟨?_, gathers.drawn.placeLocked,
    violation_placeLocked (gathers.room room) gathers.intact⟩ (store_deliverData c.offset c.data)
  have placed := s.placed_placeLocked c.offset c.data
  generalize s.placeLocked c.offset c.data = out at placed ⊢
  cases placed with
  | known | held | excess => exact gathers.idle
  | early beyond ahead =>
    dsimp only
    rw [AList.lookup_insert_ne (Nat.ne_of_lt ahead)]
    exact gathers.idle
  | next => exact lookup_release (Nat.le_refl _)

theorem gathers_fresh (id remoteID : UInt32) (fc : StreamFlowController) (accepted : Bool) :
    Gathers [] (fresh id remoteID fc accepted) := by
  refine ⟨rfl, ⟨?_, ?_, Int.le_refl 0⟩, rfl⟩
  · exact fun x before => absurd before (Nat.not_lt_zero x)
  · intro start data found
    cases (show (fresh id remoteID fc accepted).recvOOO.lookup start = none from rfl).symm.trans found

theorem has_deliverData_iff (gathers : Gathers done s)
    (small : ∀ d ∈ done ++ [c], d.span.stop < 2 ^ 64)
    (room : totalSize (done ++ [c]) ≤ maxStreamRecvOOO) :
    (s.deliverData c.offset c.data).1.Has x ↔ (s.Has x ∨ x ∈ c.span) ∧ s.Keeps x c := by
  have same := store_deliverData (s := s) c.offset c.data
  have early := congrArg Store.recvOOO same
  have front := congrArg Store.recvOffset same
  dsimp only [store] at early front
  rw [← has_placeLocked_iff (gathers.unwrapped fun d old => small d (List.mem_append_left _ old))
    (small c (List.mem_append_right _ (List.mem_singleton_self c))) (gathers.room room),
    Has, Has, early, front]

/-- What a run keeps, byte by byte: what the stream had and was kept, and what came
with a chunk and was kept from there on. -/
theorem has_deliverAll_iff {rest : List Chunk} (gathers : Gathers done s)
    (small : ∀ d ∈ done ++ rest, d.span.stop < 2 ^ 64)
    (room : totalSize (done ++ rest) ≤ maxStreamRecvOOO) :
    Gathers (done ++ rest) (s.deliverAll rest) ∧
      ((s.deliverAll rest).Has x ↔ s.Has x ∧ KeepsAll x s rest ∨ s.Retained rest x) := by
  induction rest generalizing done s with
  | nil =>
    rw [List.append_nil]
    refine ⟨gathers, ?_⟩
    have none : ¬ s.Retained [] x := fun ⟨before, c, rest, split, _⟩ =>
      List.append_ne_nil_of_right_ne_nil before (List.cons_ne_nil c rest) split.symm
    rw [or_iff_left none]
    exact (and_iff_left trivial).symm
  | cons c rest ih =>
    have whole : done ++ c :: rest = done ++ [c] ++ rest := by
      rw [List.append_assoc, List.singleton_append]
    rw [whole] at small room ⊢
    have fits : totalSize (done ++ [c]) ≤ maxStreamRecvOOO := by
      rw [totalSize_append] at room
      omega
    have first := has_deliverData_iff (x := x) gathers
      (fun d member => small d (List.mem_append_left _ member)) fits
    obtain ⟨last, later⟩ := ih (gathers.deliverData fits) small room
    refine ⟨last, later.trans ?_⟩
    rw [first]
    constructor
    · rintro (⟨⟨has | own, kept⟩, all⟩ | ⟨before, d, after, rfl, own, all⟩)
      · exact .inl ⟨has, kept, all⟩
      · exact .inr ⟨[], c, rest, rfl, own, kept, all⟩
      · exact .inr ⟨c :: before, d, after, rfl, own, all⟩
    · rintro (⟨has, kept, all⟩ | ⟨before, d, after, split, own, all⟩)
      · exact .inl ⟨⟨.inl has, kept⟩, all⟩
      · cases before with
        | nil =>
          obtain ⟨rfl, rfl⟩ := List.cons.inj split
          exact .inl ⟨⟨.inr own, all.1⟩, all.2⟩
        | cons e before =>
          obtain ⟨rfl, rfl⟩ := List.cons.inj split
          exact .inr ⟨before, d, after, rfl, own, all⟩

/-- A stream has delivered up to the first byte it was not given, unless that byte
is one it was given and no longer has. -/
theorem Gathers.isGreatest_iff (gathers : Gathers done s) :
    IsGreatest { n | ∀ x, x < n → Covered done x } s.recvOffset ↔
      (Covered done s.recvOffset → s.Has s.recvOffset) := by
  constructor
  · intro greatest covered
    refine absurd (greatest.2 fun x before => ?_) (Nat.not_succ_le_self s.recvOffset)
    rcases Nat.lt_succ_iff_lt_or_eq.mp before with earlier | rfl
    · exact gathers.drawn.front x earlier
    · exact covered
  · refine fun has => ⟨gathers.drawn.front, fun n covered => ?_⟩
    by_contra short
    rcases has (covered _ (Nat.lt_of_not_le short)) with
      before | ⟨start, data, found, ahead, after, -⟩
    · exact Nat.lt_irrefl _ before
    · rw [Nat.le_antisymm after ahead, gathers.idle] at found
      cases found

theorem Reassembles.deliverAll {bytes : List UInt8} (small : bytes.length < 2 ^ 64)
    (holds : Reassembles bytes s []) (slices : ∀ c ∈ chunks, Slice bytes c.offset c.data) :
    Reassembles bytes (s.deliverAll chunks) [] := by
  induction chunks generalizing s with
  | nil => exact holds
  | cons c rest ih =>
    obtain ⟨here, later⟩ := List.forall_mem_cons.mp slices
    exact ih (holds.deliverData small here) later

section

variable (id remoteID : UInt32) (fc : StreamFlowController) (accepted : Bool) {bytes : List UInt8}

/-- What waits to be read is the front of the sender's bytes. Those beyond the
reach of an offset do not matter. -/
theorem recvBuf_deliverAll (slices : ∀ c ∈ chunks, Slice bytes c.offset c.data)
    (small : ∀ c ∈ chunks, c.span.stop < 2 ^ 64) :
    ((fresh id remoteID fc accepted).deliverAll chunks).recvBuf =
      bytes.take ((fresh id remoteID fc accepted).deliverAll chunks).recvOffset := by
  have short : (bytes.take (2 ^ 64 - 1)).length < 2 ^ 64 := by
    rw [List.length_take]
    omega
  have holds := (reassembles_fresh id remoteID fc accepted).deliverAll short
    fun c member => (slices c member).take (Nat.le_sub_one_of_lt (small c member))
  have inside := holds.inside
  have front := holds.front
  rw [List.length_take] at inside
  rwa [List.nil_append, List.take_take, Nat.min_eq_left (by omega)] at front

/-- Chunks of one byte sequence in any order. The stream still has exactly the bytes
that were kept since some chunk brought them, and the delivered bytes reach to the
first one that never came, unless they end at one that came and was not kept. Where
every byte was kept, another order that keeps them all leaves the same to read. -/
theorem recvOffset_isGreatest_covered (slices : ∀ c ∈ chunks, Slice bytes c.offset c.data)
    (small : ∀ c ∈ chunks, c.span.stop < 2 ^ 64) (room : totalSize chunks ≤ maxStreamRecvOOO) :
    let s := fresh id remoteID fc accepted
    (∀ x, (s.deliverAll chunks).Has x ↔ s.Retained chunks x) ∧
      (IsGreatest { n | ∀ x, x < n → Covered chunks x } (s.deliverAll chunks).recvOffset ↔
        (Covered chunks (s.deliverAll chunks).recvOffset →
          s.Retained chunks (s.deliverAll chunks).recvOffset)) ∧
      ((∀ x, Covered chunks x → s.Retained chunks x) →
        IsGreatest { n | ∀ x, x < n → Covered chunks x } (s.deliverAll chunks).recvOffset ∧
          ∀ order, order.Perm chunks → (∀ x, Covered chunks x → s.Retained order x) →
            (s.deliverAll order).recvBuf = (s.deliverAll chunks).recvBuf) := by
  intro s
  have start : Gathers [] s := gathers_fresh id remoteID fc accepted
  have nothing (x : Nat) : ¬ s.Has x := by
    rintro (before | ⟨first, data, found, -⟩)
    · exact absurd before (Nat.not_lt_zero x)
    · cases (show s.recvOOO.lookup first = none from rfl).symm.trans found
  -- whatever the order, the stream has what was kept, and all of it is delivered in order
  have each (order : List Chunk) (perm : order.Perm chunks) :
      Gathers order (s.deliverAll order) ∧
        ∀ x, (s.deliverAll order).Has x ↔ s.Retained order x := by
    have few : totalSize order ≤ maxStreamRecvOOO := by
      rw [totalSize, (perm.map fun c : Chunk => c.data.length).sum_nat]
      exact room
    have within : ∀ c ∈ order, c.span.stop < 2 ^ 64 := fun c member => small c (perm.subset member)
    refine ⟨(has_deliverAll_iff (x := 0) start within few).1, fun x => ?_⟩
    rw [(has_deliverAll_iff start within few).2, or_iff_right fun had => nothing x had.1]
  have greatest (order : List Chunk) (perm : order.Perm chunks)
      (kept : ∀ x, Covered chunks x → s.Retained order x) :
      IsGreatest { n | ∀ x, x < n → Covered chunks x } (s.deliverAll order).recvOffset := by
    obtain ⟨gathers, has⟩ := each order perm
    have same : { n | ∀ x, x < n → Covered order x } = { n | ∀ x, x < n → Covered chunks x } := by
      ext n
      exact ⟨fun all x before => (all x before).mono perm.subset,
        fun all x before => (all x before).mono perm.symm.subset⟩
    exact same ▸ gathers.isGreatest_iff.mpr fun covered =>
      (has _).mpr (kept _ (covered.mono perm.subset))
  obtain ⟨gathers, has⟩ := each chunks (.refl _)
  refine ⟨has, ?_, fun kept => ⟨greatest chunks (.refl _) kept, ?_⟩⟩
  · rw [gathers.isGreatest_iff, has]
  intro order perm kept'
  have front := (greatest order perm kept').unique (greatest chunks (.refl _) kept)
  rw [recvBuf_deliverAll id remoteID fc accepted (fun c member => slices c (perm.subset member))
    fun c member => small c (perm.subset member), front,
    recvBuf_deliverAll id remoteID fc accepted slices small]

end

/-- A packet of two bytes between its two pieces: its second byte is dropped, and
comes again before the bytes up to it are delivered. -/
theorem recvOffset_isGreatest_covered_pieces :
    let chunks : List Chunk := [⟨1, [2]⟩, ⟨1, [2, 3]⟩, ⟨2, [3]⟩, ⟨0, [1]⟩]
    let s := fresh 1 0 (newStreamFlowController 65536 65536) true
    (∀ x, Covered chunks x → s.Retained chunks x) ∧
      IsGreatest { n | ∀ x, x < n → Covered chunks x } (s.deliverAll chunks).recvOffset ∧
      (s.deliverAll chunks).recvOffset = 3 := by
  intro chunks s
  have slices : ∀ c ∈ chunks, Slice [1, 2, 3] c.offset c.data := by
    simp only [chunks, List.forall_mem_cons, List.not_mem_nil, false_implies, implies_true,
      and_true]
    exact ⟨⟨by decide, rfl⟩, ⟨by decide, rfl⟩, ⟨by decide, rfl⟩, ⟨by decide, rfl⟩⟩
  have kept : ∀ x, Covered chunks x → s.Retained chunks x := by
    rintro x ⟨c, member, inside⟩
    have stops : ∀ c ∈ chunks, c.span.stop ≤ 3 := by decide
    have below : x < 3 := inside.2.trans_le (stops c member)
    interval_cases x
    · exact ⟨[⟨1, [2]⟩, ⟨1, [2, 3]⟩, ⟨2, [3]⟩], _, [], rfl, by decide, by decide⟩
    · exact ⟨[], _, _, rfl, by decide, by decide⟩
    · exact ⟨[⟨1, [2]⟩, ⟨1, [2, 3]⟩], _, _, rfl, by decide, by decide⟩
  exact ⟨kept, ((recvOffset_isGreatest_covered 1 0 _ true slices (by decide) (by decide)).2.2
    kept).1, by decide⟩

/-- A chunk that starts where a shorter one is held is dropped, and one that the
delivered bytes run into is never taken up. The other way round all three bytes
are delivered. -/
theorem misaligned_stranded :
    let s := fresh 1 0 (newStreamFlowController 65536 65536) true
    let chunks : List Chunk := [⟨1, [2]⟩, ⟨1, [2, 3]⟩, ⟨0, [1]⟩]
    let straddling : List Chunk := [⟨1, [2, 3]⟩, ⟨0, [1, 2]⟩]
    (∀ c ∈ chunks ++ straddling, Slice [1, 2, 3] c.offset c.data) ∧
      (∀ x, x < 3 → Covered chunks x ∧ Covered straddling x) ∧
      (s.deliverAll chunks).recvOffset = 2 ∧
      (s.deliverAll [⟨1, [2, 3]⟩, ⟨1, [2]⟩, ⟨0, [1]⟩]).recvOffset = 3 ∧
      (s.deliverAll straddling).recvOffset = 2 ∧
      (s.deliverAll straddling.reverse).recvOffset = 3 := by
  intro s chunks straddling
  refine ⟨?_, by decide, by decide, by decide, by decide, by decide⟩
  simp only [chunks, straddling, List.cons_append, List.nil_append, List.forall_mem_cons,
    List.not_mem_nil, false_implies, implies_true, and_true]
  exact ⟨⟨by decide, rfl⟩, ⟨by decide, rfl⟩, ⟨by decide, rfl⟩, ⟨by decide, rfl⟩, ⟨by decide, rfl⟩⟩

end Stream

end Udx
