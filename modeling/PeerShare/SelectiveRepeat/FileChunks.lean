import PeerShare.SelectiveRepeat.Sender

/-!
# The chunks of a file

`FileImage` is what `sr_sender_init` is given: a buffer and a 32-bit size that
does not exceed it.  `chunk q` is the mathematical `q`-th block of 1024 bytes.
The 32-bit and 16-bit expressions of the sender agree with it for every chunk
number below `num_chunks`, because a size near `2 ^ 32` wraps `num_chunks` to
zero before any offset can wrap.
-/

namespace PeerShare
namespace SelectiveRepeat

open Foundation Wire

/-- A buffer together with the size of the file it holds. -/
structure FileImage where
  data : Bytes
  size : UInt32
  size_le : size.toNat ≤ data.length

namespace FileImage

/-- The bytes of the file. -/
def contents (file : FileImage) : Bytes := file.data.take file.size.toNat

/-- Chunk `q` of the file. -/
def chunk (file : FileImage) (q : Nat) : Bytes :=
  (file.contents.drop (q * chunkSize)).take chunkSize

/-- `num_chunks` as `sr_sender_init` computes it. -/
def numChunks (file : FileImage) : Nat :=
  u32 (file.size.toNat + chunkSize - 1) / chunkSize

/-- The datagram that carries chunk `q`. -/
def packet (file : FileImage) (host : ByteOrder) (q : Nat) : Bytes :=
  buildDataPacket host q (file.chunk q) (file.chunk q).length

@[simp] theorem contents_length (file : FileImage) :
    file.contents.length = file.size.toNat := by
  simp [contents, file.size_le]

/-- A chunk number in range has its first byte inside the file, and then
nothing in the size computation has wrapped. -/
theorem chunk_start_lt (file : FileImage) {q : Nat} (hq : q < file.numChunks) :
    q * chunkSize < file.size.toNat ∧ file.size.toNat + chunkSize ≤ 2 ^ 32 := by
  have hsize : file.size.toNat < 2 ^ 32 := file.size.toNat_lt
  unfold numChunks u32 chunkSize at hq
  unfold chunkSize
  omega

theorem chunk_length (file : FileImage) (q : Nat) :
    (file.chunk q).length = min chunkSize (file.size.toNat - q * chunkSize) := by
  simp [chunk]

theorem chunk_length_le (file : FileImage) (q : Nat) :
    (file.chunk q).length ≤ chunkSize := by
  rw [chunk_length]
  exact min_le_left _ _

theorem chunk_length_pos (file : FileImage) {q : Nat} (hq : q < file.numChunks) :
    1 ≤ (file.chunk q).length := by
  obtain ⟨hstart, -⟩ := file.chunk_start_lt hq
  rw [chunk_length]
  unfold chunkSize at hstart ⊢
  omega

theorem chunk_end_le (file : FileImage) {q : Nat} (hq : q < file.numChunks) :
    q * chunkSize + (file.chunk q).length ≤ file.size.toNat := by
  obtain ⟨hstart, -⟩ := file.chunk_start_lt hq
  rw [chunk_length]
  omega

theorem numChunks_lt (file : FileImage) : file.numChunks < 2 ^ 22 := by
  unfold numChunks u32 chunkSize
  omega

/-- The chunks of a file whose size does not wrap cover it. -/
theorem size_le_numChunks (file : FileImage)
    (hsize : file.size.toNat + 1023 < 2 ^ 32) :
    file.size.toNat ≤ file.numChunks * chunkSize := by
  unfold numChunks u32 chunkSize
  omega

/-- The 32-bit offset of a chunk is exact. -/
theorem offset_eq (file : FileImage) {q : Nat} (hq : q < file.numChunks) :
    u32 (q * chunkSize) = q * chunkSize := by
  obtain ⟨hstart, hsize⟩ := file.chunk_start_lt hq
  exact u32_of_lt (by omega)

/-- The sender's `chunk_len` is the length of the chunk. -/
theorem chunkLen_eq (file : FileImage) {q : Nat} (hq : q < file.numChunks) :
    chunkLen file.size.toNat (q * chunkSize) = (file.chunk q).length := by
  obtain ⟨hstart, hsize⟩ := file.chunk_start_lt hq
  rw [chunk_length, chunkLen]
  unfold u32 u16 chunkSize at *
  split <;> omega

/-- Cutting the buffer at the offset yields the chunk. -/
theorem take_drop_data (file : FileImage) (q : Nat) :
    (file.data.drop (q * chunkSize)).take (file.chunk q).length = file.chunk q := by
  rw [chunk_length, chunk, contents, List.drop_take, List.take_take]

/-- A packet depends only on the bytes that are sent. -/
theorem buildDataPacket_congr (host : ByteOrder) (q : Nat) {data : Bytes}
    {chunk : Bytes} (hdata : data.take chunk.length = chunk) :
    buildDataPacket host q data chunk.length =
      buildDataPacket host q chunk chunk.length := by
  simp only [buildDataPacket, hdata, List.take_length]

/-- What `sr_sender_send_window` builds for `q` is the packet of chunk `q`. -/
theorem buildDataPacket_data (file : FileImage) (host : ByteOrder) (q : Nat) :
    buildDataPacket host q (file.data.drop (q * chunkSize)) (file.chunk q).length =
      file.packet host q :=
  buildDataPacket_congr host q (file.take_drop_data q)

/-- The packet of a chunk decodes to that chunk. -/
theorem decodeData_packet (file : FileImage) (host : ByteOrder) {q : Nat}
    (hq : q < file.numChunks) :
    decodeData host (file.packet host q) = some (q, file.chunk q) := by
  have hchunks := file.numChunks_lt
  have hlen := file.chunk_length_le q
  unfold chunkSize at hlen
  have hdecode : decodeData host (file.packet host q) =
      some (q, (file.chunk q).take (file.chunk q).length) :=
    decodeData_buildDataPacket host (by omega) (by omega) le_rfl
  rwa [List.take_length] at hdecode

/-- A datagram tells the number of its chunk. -/
theorem packet_inj (file : FileImage) (host : ByteOrder) {q k : Nat} (hq : q < file.numChunks)
    (hk : k < file.numChunks) (hsame : file.packet host q = file.packet host k) : q = k := by
  have hdecode := file.decodeData_packet host hq
  rw [hsame, file.decodeData_packet host hk] at hdecode
  exact (Prod.mk.inj (Option.some.inj hdecode)).1.symm

end FileImage
end SelectiveRepeat
end PeerShare
