import Mathlib.Tactic

/-!
# Memory bytes, host byte order and block copies

A C program sees a multi-byte integer as a number and the network sees it as
bytes.  The two views differ by the byte order of the host.  This module keeps
them apart: `storeWord` and `loadWord` are the memory image of a number on one
host, and the `hton`/`ntoh` conversions are defined through that image, so a
missing conversion stays visible in the bytes.

`memcpy` is the block copy into a fixed block.  It never changes the length of
the block: the bytes that would land outside are not part of it.
-/

namespace PeerShare
namespace Foundation

/-- A block of memory, or the payload of a message. -/
abbrev Bytes := List UInt8

/-- The byte order of a host. -/
inductive ByteOrder where
  | little
  | big
  deriving DecidableEq, Repr

/-- The `width` low-order bytes of a number, least significant byte first. -/
def bytesLE : Nat → Nat → Bytes
  | 0, _ => []
  | width + 1, value => UInt8.ofNat value :: bytesLE width (value / 256)

/-- The number whose bytes, least significant first, are given. -/
def natLE : Bytes → Nat
  | [] => 0
  | byte :: rest => byte.toNat + 256 * natLE rest

/-- The memory image of an unsigned integer of `width` bytes on a host. -/
def storeWord (host : ByteOrder) (width value : Nat) : Bytes :=
  match host with
  | .little => bytesLE width value
  | .big => (bytesLE width value).reverse

/-- The unsigned integer a host reads from a memory image. -/
def loadWord (host : ByteOrder) (image : Bytes) : Nat :=
  match host with
  | .little => natLE image
  | .big => natLE image.reverse

@[simp] theorem bytesLE_length (width value : Nat) :
    (bytesLE width value).length = width := by
  induction width generalizing value with
  | zero => rfl
  | succ width ih => simp [bytesLE, ih]

@[simp] theorem storeWord_length (host : ByteOrder) (width value : Nat) :
    (storeWord host width value).length = width := by
  cases host <;> simp [storeWord]

@[simp] theorem drop_storeWord (host : ByteOrder) {width count : Nat} (value : Nat)
    (hcount : width ≤ count) : (storeWord host width value).drop count = [] :=
  List.drop_eq_nil_of_le (by simpa using hcount)

theorem natLE_bytesLE (width value : Nat) :
    natLE (bytesLE width value) = value % 256 ^ width := by
  induction width generalizing value with
  | zero => simp [bytesLE, natLE, Nat.mod_one]
  | succ width ih =>
      have hbyte : (UInt8.ofNat value).toNat = value % 256 := by
        simp
      rw [bytesLE, natLE, ih, hbyte, pow_succ, mul_comm (256 ^ width) 256,
        Nat.mod_mul]

theorem bytesLE_natLE (image : Bytes) :
    bytesLE image.length (natLE image) = image := by
  induction image with
  | nil => rfl
  | cons byte rest ih =>
      have hbound : byte.toNat < 256 := byte.toNat_lt
      have hlow : UInt8.ofNat (byte.toNat + 256 * natLE rest) = byte := by
        apply UInt8.toNat_inj.mp
        simp
      have hhigh : (byte.toNat + 256 * natLE rest) / 256 = natLE rest := by
        omega
      simp only [List.length_cons, natLE, bytesLE]
      rw [hlow, hhigh, ih]

theorem natLE_lt (image : Bytes) : natLE image < 256 ^ image.length := by
  induction image with
  | nil => simp [natLE]
  | cons byte rest ih =>
      have hbound : byte.toNat < 256 := byte.toNat_lt
      rw [natLE, List.length_cons, pow_succ]
      omega

/-- Reading back what the same host stored keeps the low-order bytes. -/
@[simp] theorem loadWord_storeWord (host : ByteOrder) (width value : Nat) :
    loadWord host (storeWord host width value) = value % 256 ^ width := by
  cases host <;> simp [loadWord, storeWord, natLE_bytesLE]

/-- Storing what the same host read rebuilds the image. -/
theorem storeWord_loadWord (host : ByteOrder) (image : Bytes) :
    storeWord host image.length (loadWord host image) = image := by
  cases host with
  | little => exact bytesLE_natLE image
  | big =>
      have himage := bytesLE_natLE image.reverse
      rw [List.length_reverse] at himage
      simp only [storeWord, loadWord]
      rw [himage, List.reverse_reverse]

theorem loadWord_lt (host : ByteOrder) (image : Bytes) :
    loadWord host image < 256 ^ image.length := by
  cases host with
  | little => exact natLE_lt image
  | big => simpa [loadWord] using natLE_lt image.reverse

/-- Conversion from host to network order: the number whose memory image on
this host is the big-endian image of `value`. -/
def hton (host : ByteOrder) (width value : Nat) : Nat :=
  loadWord host (storeWord .big width value)

/-- Conversion from network to host order: the big-endian reading of the image
`value` has on this host. -/
def ntoh (host : ByteOrder) (width value : Nat) : Nat :=
  loadWord .big (storeWord host width value)

/-- A converted field reaches the wire in big-endian order on every host. -/
@[simp] theorem storeWord_hton (host : ByteOrder) (width value : Nat) :
    storeWord host width (hton host width value) = storeWord .big width value := by
  have himage := storeWord_loadWord host (storeWord .big width value)
  rw [storeWord_length] at himage
  exact himage

theorem ntoh_lt (host : ByteOrder) (width value : Nat) :
    ntoh host width value < 256 ^ width := by
  simpa [ntoh] using loadWord_lt .big (storeWord host width value)

/-! ## Block copies -/

/-- Copy `source` into `block` from `offset` on.  The part that falls behind
the end of the block is not stored. -/
def memcpy (block : Bytes) (offset : Nat) (source : Bytes) : Bytes :=
  block.take offset ++ source.take (block.length - offset) ++
    block.drop (offset + source.length)

@[simp] theorem memcpy_length (block : Bytes) (offset : Nat) (source : Bytes) :
    (memcpy block offset source).length = block.length := by
  simp only [memcpy, List.length_append, List.length_take, List.length_drop]
  omega

/-- A copy that stays inside the block extends the known prefix. -/
theorem memcpy_take (block : Bytes) {offset : Nat} (source : Bytes)
    (hinside : offset + source.length ≤ block.length) :
    (memcpy block offset source).take (offset + source.length) =
      block.take offset ++ source := by
  have hsource : source.take (block.length - offset) = source :=
    List.take_of_length_le (by omega)
  have hlength : (block.take offset ++ source).length =
      offset + source.length := by
    simp only [List.length_append, List.length_take]
    omega
  rw [memcpy, hsource, ← hlength, List.take_left]

/-- A copy changes no byte outside its target. -/
theorem memcpy_getElem?_of_outside (block : Bytes) {offset : Nat} (source : Bytes) {k : Nat}
    (houtside : k < offset ∨ offset + source.length ≤ k) :
    (memcpy block offset source)[k]? = block[k]? := by
  rcases houtside with hbefore | hbehind
  · by_cases hinside : offset ≤ block.length
    · rw [memcpy, List.append_assoc, List.getElem?_append_left, List.getElem?_take_of_lt hbefore]
      rw [List.length_take]
      omega
    · rw [memcpy, List.take_of_length_le (by omega), Nat.sub_eq_zero_of_le (by omega),
        List.take_zero, List.append_nil, List.drop_eq_nil_of_le (by omega), List.append_nil]
  · by_cases hinside : k < block.length
    · have hfront : (block.take offset ++ source.take (block.length - offset)).length =
          offset + source.length := by
        rw [List.length_append, List.length_take, List.length_take]
        omega
      rw [memcpy, List.getElem?_append_right (by omega), hfront, List.getElem?_drop]
      congr 1
      omega
    · rw [List.getElem?_eq_none (by rw [memcpy_length]; omega), List.getElem?_eq_none (by omega)]

/-- The bytes of the source arrive, as far as the block reaches. -/
theorem memcpy_getElem?_of_inside (block : Bytes) {offset : Nat} (source : Bytes) {k : Nat}
    (hsource : k < source.length) (hinside : offset + k < block.length) :
    (memcpy block offset source)[offset + k]? = source[k]? := by
  have hfront : (block.take offset).length = offset := by
    rw [List.length_take]
    omega
  have hcopied : k < (source.take (block.length - offset)).length := by
    rw [List.length_take]
    omega
  rw [memcpy, List.append_assoc, List.getElem?_append_right (by omega), hfront,
    Nat.add_sub_cancel_left, List.getElem?_append_left hcopied,
    List.getElem?_take_of_lt (by omega)]

end Foundation
end PeerShare
