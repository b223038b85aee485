/-
# Byte strings and byte areas

A *byte string* is a list of bytes of any length: what a flash mapping shows,
a blob of product data, an image in memory.  A *buffer* of size `n` is an area
of memory that somebody lends: its contents may change, its size never does,
so the size stands in its type and no operation has to promise to keep it.
-/

namespace BootHandoff

/-- A string of bytes, first byte first. -/
abbrev Bytes := List UInt8

/-- The bytes of a text in UTF-8, the form in which keys and names are
compared with bytes on the flash. -/
def Bytes.ofText (s : String) : Bytes := s.toUTF8.data.toList

/-- An area of exactly `n` bytes. -/
@[ext] structure Buffer (n : Nat) where
  /-- What the area holds. -/
  bytes : Bytes
  /-- The area has its size. -/
  length_bytes : bytes.length = n
  deriving DecidableEq

namespace Buffer

/-- The area that holds a given byte string and nothing else. -/
def ofBytes (bs : Bytes) : Buffer bs.length := ⟨bs, rfl⟩

/-- The area of size `n` with the byte `b` everywhere. -/
def fill (n : Nat) (b : UInt8) : Buffer n := ⟨List.replicate n b, List.length_replicate⟩

/-- The area of size `n` that holds zeros. -/
def zero (n : Nat) : Buffer n := fill n 0

instance {n : Nat} : Inhabited (Buffer n) := ⟨zero n⟩

/-- Writes `bs` over the front of the area.  What lies behind `bs` stays, and
what of `bs` would lie behind the area is dropped. -/
def overwrite {n : Nat} (buf : Buffer n) (bs : Bytes) : Buffer n where
  bytes := bs.take n ++ buf.bytes.drop bs.length
  length_bytes := by
    rw [List.length_append, List.length_take, List.length_drop, buf.length_bytes]
    omega

/-- The first `n` bytes of a byte string, with zeros behind a string that is
too short. -/
def ofFront (n : Nat) (bs : Bytes) : Buffer n := (zero n).overwrite bs

/-- The first `k` bytes of the area, as an area of their own. -/
def front {n : Nat} (buf : Buffer n) (k : Nat) (h : k ≤ n) : Buffer k where
  bytes := buf.bytes.take k
  length_bytes := List.length_take_of_le (buf.length_bytes.symm ▸ h)

/-- The byte at a place of the area. -/
def get {n : Nat} (buf : Buffer n) (i : Fin n) : UInt8 :=
  buf.bytes.get (i.cast buf.length_bytes.symm)

/-- The area with another byte at one place. -/
def set {n : Nat} (buf : Buffer n) (i : Fin n) (b : UInt8) : Buffer n :=
  ⟨buf.bytes.set i b, List.length_set.trans buf.length_bytes⟩

@[simp] theorem bytes_ofBytes (bs : Bytes) : (ofBytes bs).bytes = bs := rfl

@[simp] theorem bytes_fill (n : Nat) (b : UInt8) : (fill n b).bytes = List.replicate n b := rfl

@[simp] theorem bytes_zero (n : Nat) : (zero n).bytes = List.replicate n 0 := rfl

theorem bytes_overwrite {n : Nat} (buf : Buffer n) (bs : Bytes) :
    (buf.overwrite bs).bytes = bs.take n ++ buf.bytes.drop bs.length := rfl

/-- A string that fits is followed by the old contents. -/
theorem bytes_overwrite_of_le {n : Nat} (buf : Buffer n) {bs : Bytes} (h : bs.length ≤ n) :
    (buf.overwrite bs).bytes = bs ++ buf.bytes.drop bs.length := by
  rw [bytes_overwrite, List.take_of_length_le h]

/-- A string of the area's size replaces its contents. -/
theorem bytes_overwrite_of_eq {n : Nat} (buf : Buffer n) {bs : Bytes} (h : bs.length = n) :
    (buf.overwrite bs).bytes = bs := by
  rw [bytes_overwrite_of_le buf (Nat.le_of_eq h), h, List.drop_of_length_le
    (Nat.le_of_eq buf.length_bytes), List.append_nil]

/-- A string that fits has zeros behind it. -/
theorem bytes_ofFront_of_le {n : Nat} {bs : Bytes} (h : bs.length ≤ n) :
    (ofFront n bs).bytes = bs ++ List.replicate (n - bs.length) 0 := by
  rw [ofFront, bytes_overwrite_of_le _ h]
  exact congrArg (bs ++ ·) List.drop_replicate

theorem getElem?_bytes {n : Nat} (buf : Buffer n) (i : Fin n) :
    buf.bytes[i.val]? = some (buf.get i) :=
  List.getElem?_eq_getElem (buf.length_bytes.symm ▸ i.isLt)

/-- Areas that hold the same at every place are the same. -/
theorem ext_get {n : Nat} {a b : Buffer n} (h : ∀ i, a.get i = b.get i) : a = b := by
  refine Buffer.ext (List.ext_getElem ?_ fun i hi _ => ?_)
  · rw [a.length_bytes, b.length_bytes]
  · exact h ⟨i, a.length_bytes ▸ hi⟩

@[simp] theorem get_set_self {n : Nat} (buf : Buffer n) (i : Fin n) (b : UInt8) :
    (buf.set i b).get i = b := List.getElem_set_self _

theorem get_set_of_ne {n : Nat} (buf : Buffer n) {i j : Fin n} (h : i ≠ j) (b : UInt8) :
    (buf.set i b).get j = buf.get j := List.getElem_set_ne (Fin.val_ne_of_ne h) _

@[simp] theorem get_zero {n : Nat} (i : Fin n) : (zero n).get i = 0 := List.getElem_replicate _

end Buffer

end BootHandoff
