import PeerShare.Client.DownloadProgress
import PeerShare.Directory.TableAgreement

/-!
# A listed file can be downloaded

What the program is for, from one end to the other: the server and its clients have run
in any way, a client that waits for nothing has a file in its table, and the file is still
what it was when it was shared.  Whoever asks the server for it is sent to this client,
the request built from the answer is granted, and from there the download can be completed
without losses: the file is saved as it is and the owner is idle again.
-/

namespace PeerShare
namespace Directory

open Foundation Wire Client SelectiveRepeat

/-- The file is as it was when it was shared, and its size leaves the sums of the sender
room. -/
structure Unchanged (sha256 : Bytes → HashBytes) (file : SharedFile) (contents : Bytes) :
    Prop where
  hash : sha256 contents = file.hash
  fits : contents.length + 1023 < 2 ^ 32

/-- The system calls of the request branch succeed and the file is read as it is. -/
structure ReadsFile (request : RequestEnv) (contents : Bytes) : Prop where
  fileEnd : request.fileEnd = some (contents.length : Int)
  readBytes : request.readBytes = contents
  sent : 0 < request.sendResult
  allocated : request.allocated = true

/-- The system calls of `get` succeed. -/
structure CanSave (sha256 : Bytes → HashBytes) (env : GetEnv) : Prop where
  sha256_eq : env.sha256 = sha256
  heap : env.heap.isSome = true
  canOpen : env.canOpen = true

section Granting

variable {host : ByteOrder} {table : SharedTable} {file : SharedFile} {packet : Datagram}
  {request : RequestEnv} {contents : Bytes}

/-- A request that passes the checks is granted when the file can be read. -/
theorem requestGranted_of_read (hfile : requestedFile host table packet = .ok file)
    (hread : ReadsFile request contents) (hfits : contents.length + 1023 < 2 ^ 32) :
    RequestGranted host table packet request := by
  obtain ⟨hlength, hdataLen, hlisted, hhash⟩ := requestedFile_eq_ok_iff.mp hfile
  refine
    { length := hlength
      dataLen := hdataLen
      listed := ⟨file, hlisted, hhash⟩
      opened := ⟨contents.length, hread.fileEnd, ?_⟩
      sent := hread.sent
      allocated := hread.allocated }
  rw [hread.readBytes]
  omega

/-- The download of a granted request is completed when nothing is lost. -/
theorem granted_download_completes {owner : Owner}
    (hgranted : RequestGranted host owner.table packet request)
    (hread : ReadsFile request contents) (hfits : contents.length + 1023 < 2 ^ 32)
    (link : LossyLink) (requester : SockAddr) {now : UInt64}
    (hclock : now.toNat + timeoutMs.toNat < 2 ^ 64) {env : GetEnv} (hroom : env.heap.isSome = true)
    (location : FileLocation) :
    ∃ actions d, Run (SmoothDownload host link env location [now])
        (Download.ofRequest (handleRequest host link owner requester packet request now).1)
        actions d ∧
      Completed env location contents d := by
  obtain ⟨file, hdata, hfileSize, hsize, hagree, hcontents, hstart⟩ :=
    @exists_grantedFile host _ _ _ _ hgranted hread.fileEnd (by omega) (by omega)
  obtain ⟨heap, hheap⟩ := Option.isSome_iff_exists.mp hroom
  obtain ⟨early, hearly, -⟩ := getReceive_start host location hheap file.size
    (UInt32.ofNat (announcedChunks contents.length))
  obtain ⟨hbegun, hstamped⟩ := begun_ofRequest link requester now hgranted hread.fileEnd hdata
    hfileSize hagree hsize hearly
  obtain ⟨sender, hinit, hflight⟩ := ofRequest_granted link requester now hgranted hread.fileEnd
    hdata hfileSize
  obtain ⟨fresh, hfresh, -, hinv, -⟩ := srSenderInit_inv requester link file
  obtain rfl : fresh = sender := Option.some.inj (hfresh.symm.trans hinit)
  have howner : (Download.ofRequest
      (handleRequest host link owner requester packet request now).1).owner =
      { owner with
        globalSender := (srSenderSendWindow host fresh now).sender
        globalFileBuffer := some request.readBytes
        transferActive := true } := congrArg Flight.owner hflight
  have hpackets : announcement host file (UInt32.ofNat (announcedChunks contents.length)) ∈
      (Download.ofRequest
        (handleRequest host link owner requester packet request now).1).toPeer := by
    have hemitted := congrArg Flight.emitted hflight
    rw [show (Download.ofRequest
      (handleRequest host link owner requester packet request now).1).toPeer = _ from hemitted]
    exact List.mem_cons_self
  rw [← hread.readBytes, ← hcontents]
  refine hbegun.completes hheap hearly link hsize ?_ hstamped ?_ hclock ?_ (Or.inr ⟨rfl, hpackets⟩)
  · rw [howner]
  · intro reading hreading
    rw [List.mem_singleton.mp hreading]
  · -- nothing has been retransmitted yet
    intro q hlow hhigh _
    have hbase : fresh.base = 0 ∧ fresh.nextSeq = 0 := by
      cases hinit
      exact ⟨rfl, rfl⟩
    rw [howner] at hhigh ⊢
    obtain ⟨-, hnew⟩ := hinv.sendWindowLoop_entry host now (fresh.numChunks - fresh.nextSeq)
      (q := q) (by omega)
    rw [← srSenderSendWindow] at hnew
    rw [(hnew (by omega) hhigh).1]
    decide

end Granting

/-- The file `a` in the table of its owner. -/
def sharedA : SharedFile := shareEntry 1 ⟨1, hashOfA, NameField.strncpy [97]⟩ [97]

/-- The owner of `a`, what it finds on its disk, and a `get` that has room for it. -/
def ownerOfA : Owner := { Owner.initial with table := (afterOneShare.peers 1).table }

def readsA : RequestEnv where
  fileEnd := some 1
  sendResult := 24
  allocated := true
  readBytes := [97]

def envForA : GetEnv where
  sha256 := fun _ => hashOfA
  heap := some fun _ => 0
  canOpen := true
  link := ⟨3, 0, 1⟩

end Directory
end PeerShare
