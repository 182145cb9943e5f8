import Mathlib.Algebra.Order.Floor.Div
import PeerShare.Client.OwnerLoop
import PeerShare.SelectiveRepeat.FileChunks

/-!
# The number of chunks, computed three times

The owner announces `(n + 1023) / 1024` in signed 64-bit arithmetic and
`sr_sender_init` computes the same expression in unsigned 32-bit arithmetic.
`share` admits every size up to `UINT32_MAX`; for the last 1023 of them the
32-bit sum wraps and the sender has no chunks at all.
-/

namespace PeerShare
namespace Client

open Foundation Wire SelectiveRepeat

/-- The bytes that `sr_sender_send_window` cuts for `seq`. -/
def cutChunk (sender : Sender) (seq : Nat) : Bytes :=
  let offset := u32 (seq * chunkSize)
  (sender.fileData.drop offset).take (chunkLen sender.fileSize offset)

/-- The packet of the send loop carries the chunk that was cut. -/
theorem sendChunk_payload (host : ByteOrder) (now : UInt64) (sender : Sender) :
    (sendChunk host now sender).2.drop udpHeaderSize = cutChunk sender sender.nextSeq := by
  show (buildDataPacket host sender.nextSeq
    (sender.fileData.drop (u32 (sender.nextSeq * chunkSize))) _).drop udpHeaderSize = _
  rw [buildDataPacket_eq]
  exact List.drop_left' (by simp)

/-- The announcement, the sender and arithmetic agree on the chunks of a file. -/
structure ChunksAgree (file : Bytes) (sender : Sender) : Prop where
  announced : announcedChunks file.length = file.length ⌈/⌉ chunkSize
  computed : sender.numChunks = file.length ⌈/⌉ chunkSize
  sum_exact : u32 (file.length + chunkSize - 1) = file.length + chunkSize - 1
  offset_exact : ∀ seq < sender.numChunks, u32 (seq * chunkSize) = seq * chunkSize ∧
    u32 (seq * chunkSize + chunkSize) = seq * chunkSize + chunkSize
  chunkLen_exact : ∀ seq < sender.numChunks,
    chunkLen sender.fileSize (u32 (seq * chunkSize)) =
      min chunkSize (file.length - seq * chunkSize)
  cut : (List.range sender.numChunks).flatMap (cutChunk sender) = file

/-- Blocks of one size, put together again. -/
theorem flatMap_blocks (bytes : Bytes) (count : Nat) :
    (List.range count).flatMap (fun q => (bytes.drop (q * chunkSize)).take chunkSize) =
      bytes.take (count * chunkSize) := by
  induction count with
  | zero => simp
  | succ count ih =>
      rw [List.range_succ, List.flatMap_append, ih, Nat.succ_mul, List.take_add]
      simp

theorem announcedSize_natCast {size : Nat} (hsize : size < 2 ^ 32) :
    announcedSize size = size := by
  unfold announcedSize
  omega

/-- The signed computation is exact for every size a file can have here. -/
theorem announcedChunks_natCast {size : Nat} (hsize : size < 2 ^ 32) :
    announcedChunks size = size ⌈/⌉ chunkSize := by
  have hquotient : ((size : Int) + chunkSize - 1).tdiv chunkSize =
      ((size + chunkSize - 1) / chunkSize : Nat) := by
    rw [Int.tdiv_eq_ediv_of_nonneg (by unfold chunkSize; omega)]
    unfold chunkSize
    omega
  rw [announcedChunks, hquotient, Nat.ceilDiv_eq_add_pred_div]
  unfold chunkSize
  omega

section Started

variable {file : Bytes} {peer : SockAddr} {link : LossyLink} {sender : Sender}

/-- The file as the sender is given it. -/
theorem exists_image_of_init (hsize : file.length < 2 ^ 32)
    (hinit : srSenderInit (some peer) (some file)
      (UInt32.ofNat (announcedSize file.length)) (some link) = some sender) :
    ∃ image : FileImage, image.contents = file ∧ image.size.toNat = file.length ∧
      sender.fileData = image.data ∧ sender.fileSize = file.length ∧
      sender.numChunks = image.numChunks := by
  have hword : (UInt32.ofNat (announcedSize file.length)).toNat = file.length := by
    rw [announcedSize_natCast hsize, UInt32.toNat_ofNat']
    exact Nat.mod_eq_of_lt hsize
  refine ⟨⟨file, UInt32.ofNat (announcedSize file.length), le_of_eq hword⟩, ?_, hword, ?_⟩
  · show file.take (UInt32.ofNat (announcedSize file.length)).toNat = file
    rw [hword, List.take_length]
  · cases hinit
    exact ⟨rfl, hword, rfl⟩

/-- What the sender cuts for a chunk number is that chunk of the file. -/
theorem cutChunk_eq {image : FileImage} (hdata : sender.fileData = image.data)
    (hfileSize : sender.fileSize = image.size.toNat) {seq : Nat} (hseq : seq < image.numChunks) :
    cutChunk sender seq = image.chunk seq := by
  rw [cutChunk, image.offset_eq hseq, hdata, hfileSize, image.chunkLen_eq hseq,
    image.take_drop_data]

/-- The last-chunk test adds to the offset without wrapping. -/
theorem block_end_lt {image : FileImage} {seq : Nat} (hseq : seq < image.numChunks) :
    seq * chunkSize + chunkSize < 2 ^ 32 := by
  obtain ⟨hstart, hsize⟩ := image.chunk_start_lt hseq
  omega

theorem chunksAgree_of_exact (hsize : file.length + 1023 < 2 ^ 32)
    (hinit : srSenderInit (some peer) (some file)
      (UInt32.ofNat (announcedSize file.length)) (some link) = some sender) :
    ChunksAgree file sender := by
  obtain ⟨image, hcontents, himage, hdata, hfileSize, hchunks⟩ :=
    exists_image_of_init (by omega) hinit
  have hsum : u32 (file.length + chunkSize - 1) = file.length + chunkSize - 1 :=
    u32_of_lt (by unfold chunkSize; omega)
  have hcount : sender.numChunks = file.length ⌈/⌉ chunkSize := by
    rw [hchunks, FileImage.numChunks, himage, hsum, Nat.ceilDiv_eq_add_pred_div]
  refine
    { announced := announcedChunks_natCast (by omega)
      computed := hcount
      sum_exact := hsum
      offset_exact := ?_
      chunkLen_exact := ?_
      cut := ?_ }
  · intro seq hseq
    rw [hchunks] at hseq
    exact ⟨image.offset_eq hseq, u32_of_lt (block_end_lt hseq)⟩
  · intro seq hseq
    rw [hchunks] at hseq
    rw [image.offset_eq hseq, hfileSize, ← himage, image.chunkLen_eq hseq, image.chunk_length]
  · have hblocks : ∀ seq ∈ List.range sender.numChunks,
        cutChunk sender seq = (file.drop (seq * chunkSize)).take chunkSize := by
      intro seq hseq
      rw [List.mem_range, hchunks] at hseq
      rw [cutChunk_eq hdata (hfileSize.trans himage.symm) hseq, FileImage.chunk, hcontents]
    rw [List.flatMap_congr hblocks, flatMap_blocks]
    -- the blocks reach to the end of the file
    apply List.take_of_length_le
    rw [hchunks, ← himage]
    exact image.size_le_numChunks (by omega)

/-- A size that wraps leaves the sender without chunks. -/
theorem numChunks_of_wrapped (hsize : file.length < 2 ^ 32)
    (hwraps : 2 ^ 32 ≤ file.length + 1023)
    (hinit : srSenderInit (some peer) (some file)
      (UInt32.ofNat (announcedSize file.length)) (some link) = some sender) :
    sender.numChunks = 0 := by
  obtain ⟨image, -, himage, -, -, hchunks⟩ := exists_image_of_init hsize hinit
  rw [hchunks, FileImage.numChunks, himage]
  unfold u32 chunkSize
  omega

end Started

/-- For every file that `share` admits, the number of chunks announced, the
number the sender computes and the mathematical one agree, and the chunks cut
by the sender are the file, exactly when the size leaves room for the rounding
in 32 bits. -/
theorem chunk_arithmetic_agrees_iff {file : Bytes} (hsize : file.length ≤ 2 ^ 32 - 1)
    {peer : SockAddr} {link : LossyLink} {sender : Sender}
    (hinit : srSenderInit (some peer) (some file)
      (UInt32.ofNat (announcedSize file.length)) (some link) = some sender) :
    ChunksAgree file sender ↔ file.length + 1023 < 2 ^ 32 := by
  constructor
  · intro hagree
    by_contra hwraps
    -- no chunks, although the file is not empty
    have hnone := numChunks_of_wrapped (by omega) (by omega) hinit
    have hceil := hagree.computed
    rw [hnone, Nat.ceilDiv_eq_add_pred_div] at hceil
    unfold chunkSize at hceil
    omega
  · intro hexact
    exact chunksAgree_of_exact hexact hinit

/-- A file of 1025 bytes has two chunks everywhere. -/
theorem chunk_arithmetic_two_chunks :
    ∃ sender, srSenderInit (some ⟨1, 1⟩) (some (List.replicate 1025 7))
        (UInt32.ofNat (announcedSize (List.replicate 1025 (7 : UInt8)).length))
        (some ⟨0, 0, 1⟩) = some sender ∧
      ChunksAgree (List.replicate 1025 7) sender ∧ sender.numChunks = 2 := by
  have hlength : (List.replicate 1025 (7 : UInt8)).length = 1025 := List.length_replicate
  obtain ⟨sender, hinit⟩ : ∃ sender, srSenderInit (some ⟨1, 1⟩) (some (List.replicate 1025 7))
      (UInt32.ofNat (announcedSize (List.replicate 1025 (7 : UInt8)).length))
      (some ⟨0, 0, 1⟩) = some sender := ⟨_, rfl⟩
  have hagree : ChunksAgree (List.replicate 1025 7) sender :=
    (chunk_arithmetic_agrees_iff (by rw [hlength]; decide) hinit).mpr (by rw [hlength]; decide)
  refine ⟨sender, hinit, hagree, ?_⟩
  rw [hagree.computed, hlength]
  rfl

/-- A file of `UINT32_MAX` bytes is announced with 4194304 chunks, and the
sender has none. -/
theorem chunk_arithmetic_wraps :
    ∃ sender, srSenderInit (some ⟨1, 1⟩) (some (List.replicate (2 ^ 32 - 1) 7))
        (UInt32.ofNat (announcedSize (List.replicate (2 ^ 32 - 1) (7 : UInt8)).length))
        (some ⟨0, 0, 1⟩) = some sender ∧
      announcedChunks (List.replicate (2 ^ 32 - 1) (7 : UInt8)).length = 4194304 ∧
      sender.numChunks = 0 ∧ ¬ ChunksAgree (List.replicate (2 ^ 32 - 1) 7) sender := by
  have hlength : (List.replicate (2 ^ 32 - 1) (7 : UInt8)).length = 2 ^ 32 - 1 :=
    List.length_replicate
  obtain ⟨sender, hinit⟩ : ∃ sender, srSenderInit (some ⟨1, 1⟩)
      (some (List.replicate (2 ^ 32 - 1) 7))
      (UInt32.ofNat (announcedSize (List.replicate (2 ^ 32 - 1) (7 : UInt8)).length))
      (some ⟨0, 0, 1⟩) = some sender := ⟨_, rfl⟩
  have hnone : sender.numChunks = 0 :=
    numChunks_of_wrapped (by rw [hlength]; norm_num) (by rw [hlength]; norm_num) hinit
  have hannounced : announcedChunks (List.replicate (2 ^ 32 - 1) (7 : UInt8)).length =
      4194304 := by
    rw [hlength, announcedChunks_natCast (by norm_num)]
    rfl
  refine ⟨sender, hinit, hannounced, hnone, ?_⟩
  intro hagree
  have hcount := hagree.computed
  rw [← hagree.announced, hannounced, hnone] at hcount
  cases hcount

end Client
end PeerShare
