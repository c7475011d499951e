import Mathlib.Algebra.Order.Group.Nat
import Mathlib.Data.Nat.Init

/-!
# Codecs of a byte stream

A `Codec α` writes a value as bytes and reads it back from the front of a stream. That the
reader gives back what the writer has written, whatever comes after it, is a field, so codecs
that are put one after the other need no further proof.

* `fixed`    numbers of a fixed width, the lowest byte first
* `varuint`  numbers of any size, seven bits in a byte
* `pair`     one value after another
* `list`     a number of values and the values
* `map`      values that are written as values of another type
-/

/-- A writer of values and a reader that undoes it. -/
structure Codec (α : Type) where
  write : α → List UInt8
  /-- the value at the front and the bytes after it -/
  read : List UInt8 → Option (α × List UInt8)
  read_write : ∀ a rest, read (write a ++ rest) = some (a, rest)

namespace Codec

variable {α β : Type}

/-- What has been written is read back, and nothing is left. -/
theorem read_write_nil (c : Codec α) (a : α) : c.read (c.write a) = some (a, []) := by
  have h := c.read_write a []
  rwa [List.append_nil] at h

/-! ## Numbers of a fixed width -/

def writeFixed : Nat → Nat → List UInt8
  | 0, _ => []
  | width + 1, n => UInt8.ofNat n :: writeFixed width (n / 256)

def readFixed : Nat → List UInt8 → Option (Nat × List UInt8)
  | 0, bytes => some (0, bytes)
  | _ + 1, [] => none
  | width + 1, b :: bytes => do
    let (n, rest) ← readFixed width bytes
    return (b.toNat + 256 * n, rest)

/-- A number of fixed width has that many bytes. -/
theorem length_writeFixed (width n : Nat) : (writeFixed width n).length = width := by
  induction width generalizing n with
  | zero => rfl
  | succ width ih => rw [writeFixed, List.length_cons, ih]

/-- What does not fit into the width is lost. -/
theorem readFixed_writeFixed (width n : Nat) (rest : List UInt8) :
    readFixed width (writeFixed width n ++ rest) = some (n % 256 ^ width, rest) := by
  induction width generalizing n with
  | zero => simp [readFixed, writeFixed, Nat.mod_one]
  | succ width ih =>
    rw [writeFixed, List.cons_append, readFixed, ih, Nat.pow_succ', Nat.mod_mul]
    simp

/-- Values that are numbers below `256 ^ width`. -/
def fixed (width : Nat) (toNat : α → Nat) (ofNat : Nat → α)
    (h : ∀ a, toNat a < 256 ^ width ∧ ofNat (toNat a) = a) : Codec α where
  write a := writeFixed width (toNat a)
  read bytes := (readFixed width bytes).map fun p => (ofNat p.1, p.2)
  read_write a rest := by
    rw [readFixed_writeFixed, Nat.mod_eq_of_lt (h a).1, Option.map_some, (h a).2]

def bool : Codec Bool :=
  fixed 1 Bool.toNat (fun n => n ≠ 0) (by decide)

def uint8 : Codec UInt8 :=
  fixed 1 UInt8.toNat UInt8.ofNat fun a => ⟨a.toNat_lt, UInt8.ofNat_toNat⟩

def uint16 : Codec UInt16 :=
  fixed 2 UInt16.toNat UInt16.ofNat fun a => ⟨a.toNat_lt, UInt16.ofNat_toNat⟩

def uint32 : Codec UInt32 :=
  fixed 4 UInt32.toNat UInt32.ofNat fun a => ⟨a.toNat_lt, UInt32.ofNat_toNat⟩

def uint64 : Codec UInt64 :=
  fixed 8 UInt64.toNat UInt64.ofNat fun a => ⟨a.toNat_lt, UInt64.ofNat_toNat⟩

/-- A truth value takes one byte. -/
theorem length_bool (a : Bool) : (bool.write a).length = 1 := length_writeFixed 1 _

/-- A 16-bit number takes two bytes. -/
theorem length_uint16 (a : UInt16) : (uint16.write a).length = 2 := length_writeFixed 2 _

/-- A 32-bit number takes four bytes. -/
theorem length_uint32 (a : UInt32) : (uint32.write a).length = 4 := length_writeFixed 4 _

/-- A 64-bit number takes eight bytes. -/
theorem length_uint64 (a : UInt64) : (uint64.write a).length = 8 := length_writeFixed 8 _

/-! ## Numbers of any size -/

/-- Seven bits in a byte, the lowest first; the eighth says whether more follow. -/
def writeVaruint (n : Nat) : List UInt8 :=
  if n < 128 then [UInt8.ofNat n]
  else UInt8.ofNat (n % 128 + 128) :: writeVaruint (n / 128)

def readVaruint : List UInt8 → Option (Nat × List UInt8)
  | [] => none
  | b :: bytes =>
    if b.toNat < 128 then some (b.toNat, bytes)
    else do
      let (n, rest) ← readVaruint bytes
      return (b.toNat - 128 + 128 * n, rest)

/-- A number of variable width is read back. -/
theorem readVaruint_writeVaruint (n : Nat) (rest : List UInt8) :
    readVaruint (writeVaruint n ++ rest) = some (n, rest) := by
  induction n using writeVaruint.induct with
  | case1 n hlt =>
    rw [writeVaruint, if_pos hlt, List.singleton_append, readVaruint]
    have hbyte : (UInt8.ofNat n).toNat = n := by
      rw [UInt8.toNat_ofNat']
      omega
    rw [hbyte, if_pos hlt]
  | case2 n hge ih =>
    rw [writeVaruint, if_neg hge, List.cons_append, readVaruint]
    have hbyte : (UInt8.ofNat (n % 128 + 128)).toNat = n % 128 + 128 := by
      rw [UInt8.toNat_ofNat']
      omega
    rw [hbyte, if_neg (by omega), ih]
    show some (n % 128 + 128 - 128 + 128 * (n / 128), rest) = some (n, rest)
    rw [Nat.add_sub_cancel, Nat.mod_add_div]

def varuint : Codec Nat := ⟨writeVaruint, readVaruint, readVaruint_writeVaruint⟩

/-! ## Composed codecs -/

/-- Values that are written as values of another type. -/
def map (c : Codec α) (f : β → α) (g : α → Option β) (h : ∀ b, g (f b) = some b) : Codec β where
  write b := c.write (f b)
  read bytes := do
    let (a, rest) ← c.read bytes
    let b ← g a
    return (b, rest)
  read_write b rest := by simp [c.read_write, h]

def pair (c : Codec α) (d : Codec β) : Codec (α × β) where
  write p := c.write p.1 ++ d.write p.2
  read bytes := do
    let (a, bytes) ← c.read bytes
    let (b, bytes) ← d.read bytes
    return ((a, b), bytes)
  read_write p rest := by simp [c.read_write, d.read_write]

/-- Read `n` values. -/
def readMany (c : Codec α) : Nat → List UInt8 → Option (List α × List UInt8)
  | 0, bytes => some ([], bytes)
  | n + 1, bytes => do
    let (a, bytes) ← c.read bytes
    let (as, bytes) ← readMany c n bytes
    return (a :: as, bytes)

/-- Values that are written one after the other are read back. -/
theorem readMany_flatMap (c : Codec α) (as : List α) (rest : List UInt8) :
    readMany c as.length (as.flatMap c.write ++ rest) = some (as, rest) := by
  induction as with
  | nil => rfl
  | cons a as ih =>
    rw [List.flatMap_cons, List.append_assoc, List.length_cons, readMany, c.read_write]
    simp [ih]

/-- The number of the values and the values. -/
def list (c : Codec α) : Codec (List α) where
  write as := varuint.write as.length ++ as.flatMap c.write
  read bytes := do
    let (n, bytes) ← varuint.read bytes
    readMany c n bytes
  read_write as rest := by
    rw [List.append_assoc, varuint.read_write]
    exact readMany_flatMap c as rest

/-- A text is the list of its bytes. -/
def string : Codec String :=
  (list uint8).map (fun s => s.toByteArray.data.toList)
    (fun bytes => String.fromUTF8? ⟨bytes.toArray⟩) fun s => by
      have hbytes : (⟨s.toByteArray.data.toList.toArray⟩ : ByteArray) = s.toByteArray := by
        rw [Array.toArray_toList]
      show String.fromUTF8? ⟨s.toByteArray.data.toList.toArray⟩ = some s
      rw [hbytes, String.fromUTF8?, dif_pos s.isValidUTF8]
      rfl

end Codec
