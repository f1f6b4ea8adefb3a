import Mathlib.Algebra.Order.Ring.Nat
import Mathlib.Data.List.Basic
import Mathlib.Data.List.Induction

set_option autoImplicit false

namespace Bytes

/-- `width` bytes of `value`, most significant first. Higher digits are cut. -/
def bigEndian : Nat → Nat → List UInt8
  | 0, _ => []
  | width + 1, value => bigEndian width (value / 256) ++ [UInt8.ofNat value]

/-- The number a byte sequence denotes, most significant byte first. -/
def toNat (bytes : List UInt8) : Nat :=
  bytes.foldl (fun total byte => total * 256 + byte.toNat) 0

@[simp] theorem length_bigEndian (width value : Nat) :
    (bigEndian width value).length = width := by
  induction width generalizing value with
  | zero => rfl
  | succ width ih => simp [bigEndian, ih]

theorem toNat_snoc (bytes : List UInt8) (byte : UInt8) :
    toNat (bytes ++ [byte]) = toNat bytes * 256 + byte.toNat := by
  simp [toNat]

theorem toNat_bigEndian (width value : Nat) :
    toNat (bigEndian width value) = value % 256 ^ width := by
  induction width generalizing value with
  | zero => simp [bigEndian, toNat, Nat.mod_one]
  | succ width ih =>
    rw [bigEndian, toNat_snoc, ih, UInt8.toNat_ofNat', Nat.pow_succ' (n := width),
      Nat.mod_mul]
    omega

/-- Writing back a number read from `bytes` gives the bytes. -/
theorem bigEndian_toNat (bytes : List UInt8) : bigEndian bytes.length (toNat bytes) = bytes := by
  induction bytes using List.reverseRecOn with
  | nil => rfl
  | append_singleton bytes byte ih =>
    have small : byte.toNat < 256 := byte.toNat_lt
    have high : (toNat bytes * 256 + byte.toNat) / 256 = toNat bytes := by omega
    have low : UInt8.ofNat (toNat bytes * 256 + byte.toNat) = byte := by
      rw [← UInt8.toNat_inj, UInt8.toNat_ofNat']
      omega
    rw [List.length_append, List.length_singleton, bigEndian, toNat_snoc, high, low, ih]

theorem toNat_lt (bytes : List UInt8) : toNat bytes < 256 ^ bytes.length := by
  have digits := toNat_bigEndian bytes.length (toNat bytes)
  rw [bigEndian_toNat] at digits
  rw [digits]
  exact Nat.mod_lt _ (Nat.pow_pos (by decide))

/-- Writes into a buffer of fixed size, each an offset and the bytes copied
there. Bytes that fall past the end of the buffer are not copied. -/
abbrev Write := Nat × List UInt8

def copyAt (buf : List UInt8) (write : Write) : List UInt8 :=
  buf.take write.1 ++ write.2.take (buf.length - write.1) ++ buf.drop (write.1 + write.2.length)

/-- A zeroed buffer of `size` bytes after the writes, in order. -/
def fill (size : Nat) (writes : List Write) : List UInt8 :=
  writes.foldl copyAt (List.replicate size 0)

/-- Each write starts where the one before it ended, and the last ends at
`size`. -/
def Tiles (size : Nat) : Nat → List Write → Prop
  | start, [] => start = size
  | start, (offset, bytes) :: rest => offset = start ∧ Tiles size (start + bytes.length) rest

theorem Tiles.length {size start : Nat} {writes : List Write} (tiles : Tiles size start writes) :
    start + (writes.flatMap Prod.snd).length = size := by
  induction writes generalizing start with
  | nil => simpa [Tiles] using tiles
  | cons write rest ih =>
    have tail := ih tiles.2
    simp only [List.flatMap_cons, List.length_append]
    omega

theorem copyAt_blank (written bytes : List UInt8) (blank : Nat) (fits : bytes.length ≤ blank) :
    copyAt (written ++ List.replicate blank 0) (written.length, bytes) =
      written ++ bytes ++ List.replicate (blank - bytes.length) 0 := by
  simp only [copyAt, List.take_left, List.length_append, List.length_replicate,
    Nat.add_sub_cancel_left, List.take_of_length_le fits]
  rw [List.drop_append, List.drop_eq_nil_of_le (by omega), List.nil_append,
    List.drop_replicate, Nat.add_sub_cancel_left]

theorem foldl_copyAt (size : Nat) (written : List UInt8) (writes : List Write)
    (tiles : Tiles size written.length writes) :
    writes.foldl copyAt (written ++ List.replicate (size - written.length) 0) =
      written ++ writes.flatMap Prod.snd := by
  induction writes generalizing written with
  | nil =>
    have full : written.length = size := tiles
    simp [full]
  | cons write rest ih =>
    obtain ⟨offset, bytes⟩ := write
    obtain ⟨start, tail⟩ := tiles
    have room := tail.length
    subst start
    have next := ih (written ++ bytes) (by simpa using tail)
    rw [List.foldl_cons, copyAt_blank _ _ _ (by omega), List.flatMap_cons, ← List.append_assoc,
      ← next, List.length_append, Nat.sub_add_eq]

/-- Writes that tile the buffer leave exactly their concatenation in it. -/
theorem fill_tiles {size : Nat} {writes : List Write} (tiles : Tiles size 0 writes) :
    fill size writes = writes.flatMap Prod.snd := by
  simpa [fill] using foldl_copyAt size [] writes (by simpa using tiles)

theorem drop_field {data field rest : List UInt8} {offset next : Nat}
    (suffix : data.drop offset = field ++ rest) (past : next = offset + field.length) :
    data.drop next = rest := by
  rw [past, ← List.drop_drop, suffix, List.drop_left]

theorem drop_byte {data rest : List UInt8} {offset : Nat} {byte : UInt8}
    (suffix : data.drop offset = byte :: rest) : data.drop (offset + 1) = rest := by
  rw [← List.drop_drop, suffix, List.drop_one, List.tail_cons]

/-- The bytes with the bits `mask` names, position by position, set to zero.
Two sequences equal under a mask have one length and differ only there. -/
def clear (mask : Nat → UInt8) (bytes : List UInt8) : List UInt8 :=
  bytes.mapIdx fun i byte => byte &&& ~~~ mask i

@[simp] theorem length_clear (mask : Nat → UInt8) (bytes : List UInt8) :
    (clear mask bytes).length = bytes.length :=
  List.length_mapIdx

theorem clear_append (mask : Nat → UInt8) (front back : List UInt8) :
    clear mask (front ++ back) =
      clear mask front ++ clear (fun i => mask (i + front.length)) back :=
  List.mapIdx_append

theorem clear_congr {mask other : Nat → UInt8} {bytes : List UInt8}
    (same : ∀ i < bytes.length, mask i = other i) : clear mask bytes = clear other bytes := by
  apply List.ext_getElem
  · rw [length_clear, length_clear]
  · intro i inside _
    rw [length_clear] at inside
    simp only [clear, List.getElem_mapIdx, same i inside]

/-- Conversion to 32 bits is reduction modulo `2 ^ 32`. -/
theorem toNat_ofInt (z : Int) : ((UInt32.ofInt z).toNat : Int) = z % 2 ^ 32 := by
  rw [UInt32.ofInt, UInt32.toNat_ofNat']
  omega

end Bytes
