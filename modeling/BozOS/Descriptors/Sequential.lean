import BozOS.Processes.Launch
import BozOS.Descriptors.Table
import Mathlib.Algebra.Ring.Int.Defs

namespace BozOS

open Data Lib FileSystem

/-! Reading an opened file piece by piece. `read_data` cuts a request at the end
of the file's last block and not at the end of the file, so a request that ends
between the two delivers bytes behind the end of the file. -/

variable {env : Env} {k : Kernel} {p : Slot} {fd : Fin 8} {inode position : Nat}

structure ReadRequest where
  mem : Memory
  buf : Nat
  nbytes : Nat
  cpu : Cpu
  target : buf ≠ 0
  asked : 0 < nbytes
  signed : nbytes < 2147483648

/-- What one `read` returned, the bytes it delivered, and the file position it
left. -/
structure ReadCall where
  ret : Int
  bytes : List UInt8
  position : Nat

def readCalls (env : Env) (p : Slot) (fd : Fin 8) : Kernel → List ReadRequest → Except Stop (List ReadCall)
  | _, [] => .ok []
  | k, request :: rest => do
      let result ← sysRead env k fd.val request.mem request.buf request.nbytes request.cpu
      let later ← readCalls env p fd result.2.2 rest
      return ⟨result.1, result.2.1.window request.buf result.1.toNat,
        ((result.2.2.pcbs p).fdArr fd).filePosition⟩ :: later

def deliveredBefore (calls : List ReadCall) (index : Nat) : Int := ((calls.take index).map ReadCall.ret).sum

/-- Every call returns the smaller of its request and what the file has left. -/
def Returns (fileLength start : Nat) (requests : List ReadRequest) (calls : List ReadCall) : Prop :=
  ∀ index request call, requests[index]? = some request → calls[index]? = some call →
    call.ret = min (request.nbytes : Int) (fileLength - (start + deliveredBefore calls index))

/-- Calls that deliver the file in order from position `start` on. -/
structure Sequential (image : Image) (inode start : Nat) (requests : List ReadRequest) (calls : List ReadCall) :
    Prop where
  answered : calls.length = requests.length
  returns : Returns (image.length inode) start requests calls
  bytes : calls.flatMap ReadCall.bytes =
    (List.range (deliveredBefore calls calls.length).toNat).map fun index => image.content inode (start + index)
  position : ∀ call ∈ calls, call.position ≤ image.length inode
  ended : ∀ index call, calls[index]? = some call → start + deliveredBefore calls index = image.length inode →
    call.ret = 0

/-- A request `read_data` answers with the bytes up to the end of the file: it
starts at the beginning or at the end of the file, or it ends inside the file, or
behind the last block. -/
def RequestFits (fileLength position nbytes : Nat) : Prop :=
  position = 0 ∨ fileLength ≤ position ∨ position + nbytes ≤ fileLength ∨
    (4096 * (fileLength / 4096 + 1) < position + nbytes ∧ position + nbytes < 2147483648)

instance (fileLength position nbytes : Nat) : Decidable (RequestFits fileLength position nbytes) := by
  unfold RequestFits
  infer_instance

/-- Every request of a sequence fits, where the requests before it have moved
the position on. -/
def RequestsFit (fileLength : Nat) : Nat → List Nat → Prop
  | _, [] => True
  | position, nbytes :: rest =>
      RequestFits fileLength position nbytes ∧ RequestsFit fileLength (min (position + nbytes) fileLength) rest

instance RequestsFit.decidable (fileLength : Nat) :
    (position : Nat) → (requests : List Nat) → Decidable (RequestsFit fileLength position requests)
  | _, [] => .isTrue trivial
  | position, nbytes :: rest =>
      have := RequestsFit.decidable fileLength (min (position + nbytes) fileLength) rest
      inferInstanceAs (Decidable (RequestFits fileLength position nbytes ∧
        RequestsFit fileLength (min (position + nbytes) fileLength) rest))

/-- Descriptor `fd` of the running process `p` is open on `inode` at `position`. -/
structure FileOpen (k : Kernel) (p : Slot) (fd : Fin 8) (inode position : Nat) : Prop where
  caller : callerPcb k = .ok (some p)
  used : ((k.pcbs p).fdArr fd).inUseFlag ≠ 0
  table : ((k.pcbs p).fdArr fd).fotp = some .file
  number : ((k.pcbs p).fdArr fd).inodeNumber = inode
  place : ((k.pcbs p).fdArr fd).filePosition = position

theorem FileOpen.sysRead_eq (opened : FileOpen k p fd inode position) (request : ReadRequest) :
    sysRead env k fd.val request.mem request.buf request.nbytes request.cpu =
      if env.image.length inode ≤ position then .ok (0, request.mem, k)
      else
        let result := readData env.image inode position request.mem request.buf request.nbytes
        if result.ret = -1 then .ok (-1, result.mem, k)
        else .ok (result.ret, result.mem, k.setFd p fd
          { (k.pcbs p).fdArr fd with filePosition := u32 (position + result.ret) }) := by
  have signed := request.signed
  have target := request.target
  have reads : Reads k fd.val request.buf request.nbytes p fd .file :=
    ⟨opened.caller, by omega, fdOf_val fd, opened.used, opened.table⟩
  rw [reads.sysRead_eq, readOp, fread_eq opened.caller (by omega)]
  simp only [opened.number, opened.place]

theorem FileOpen.moved (opened : FileOpen k p fd inode position) (next : Nat) :
    FileOpen (k.setFd p fd { (k.pcbs p).fdArr fd with filePosition := next }) p fd inode next := by
  have frame : CallFrame (some p) k (k.setFd p fd { (k.pcbs p).fdArr fd with filePosition := next }) := .setFd .refl
  refine ⟨by rw [frame.sameCaller, opened.caller], ?_, ?_, ?_, ?_⟩
  · rw [setFd_fdArr, Function.update_self]
    exact opened.used
  · rw [setFd_fdArr, Function.update_self]
    exact opened.table
  · rw [setFd_fdArr, Function.update_self]
    exact opened.number
  · rw [setFd_fdArr, Function.update_self]

def wanted (fileLength position nbytes : Nat) : Nat :=
  min (bytesRequested fileLength position nbytes) (4096 * (fileLength / 4096 + 1) - position)

section Wanted

variable {fileLength nbytes : Nat}

theorem bytesRequested_small (small : fileLength < 2147479552) :
    bytesRequested fileLength position nbytes =
      if 4096 * (fileLength / 4096 + 1) < position + nbytes ∧ position + nbytes < 2147483648 then
        fileLength - position
      else min nbytes fileLength := by
  simp only [bytesRequested, EndsBehind, if_pos small]

theorem wanted_fits (small : fileLength < 2147479552) (inside : position < fileLength)
    (fits : RequestFits fileLength position nbytes) :
    wanted fileLength position nbytes = min nbytes (fileLength - position) := by
  rw [wanted, bytesRequested_small small]
  unfold RequestFits at fits
  split <;> omega

theorem wanted_overruns (small : fileLength < 2147479552) (overruns : ¬RequestFits fileLength position nbytes) :
    fileLength - position < wanted fileLength position nbytes ∧ fileLength - position < nbytes := by
  unfold RequestFits at overruns
  rw [wanted, bytesRequested_small small, if_neg (by omega)]
  omega

theorem readData_wanted (wellFormed : env.image.FileWellFormed inode) (request : ReadRequest)
    (inside : position < env.image.length inode) :
    ∃ count, Copied env.image inode position request.buf request.mem 0
      (wanted (env.image.length inode) position request.nbytes) count
      (readData env.image inode position request.mem request.buf request.nbytes) := by
  have lengthFits := wellFormed.lengthFits
  have signed := request.signed
  exact readData_copied (Nat.le_of_lt wellFormed.inodeExists) request.target (by omega) inside request.asked
    (by omega)

end Wanted

theorem FileOpen.sysRead_fits (opened : FileOpen k p fd inode position) (request : ReadRequest)
    (wellFormed : env.image.FileWellFormed inode) (inside : position ≤ env.image.length inode)
    (fits : RequestFits (env.image.length inode) position request.nbytes) :
    ∃ after, sysRead env k fd.val request.mem request.buf request.nbytes request.cpu =
        .ok ((min request.nbytes (env.image.length inode - position) : Nat),
          request.mem.blit request.buf (fun index => env.image.content inode (position + index))
            (min request.nbytes (env.image.length inode - position)), after) ∧
      FileOpen after p fd inode (min (position + request.nbytes) (env.image.length inode)) := by
  rw [opened.sysRead_eq]
  by_cases finished : env.image.length inode ≤ position
  · have none : min request.nbytes (env.image.length inode - position) = 0 := by omega
    have same : min (position + request.nbytes) (env.image.length inode) = position := by omega
    refine ⟨k, ?_, by rwa [same]⟩
    rw [if_pos finished, none, Memory.blit_zero]
    rfl
  · have lengthFits := wellFormed.lengthFits
    obtain ⟨count, copied⟩ := readData_wanted wellFormed request (Nat.lt_of_not_le finished)
    rw [wanted_fits (by omega) (Nat.lt_of_not_le finished) fits] at copied
    rw [if_neg finished]
    rcases copied.outcome with ⟨returned, all⟩ | ⟨-, short, invalid⟩
    · have value : (readData env.image inode position request.mem request.buf request.nbytes).ret =
          (min request.nbytes (env.image.length inode - position) : Nat) := by omega
      simp only [value, copied.memory, all, Nat.add_zero]
      have place : u32 (position + (min request.nbytes (env.image.length inode - position) : Nat)) =
          min (position + request.nbytes) (env.image.length inode) := by
        rw [u32_of_range (by omega) (by omega)]
        omega
      rw [if_neg (by omega), place]
      exact ⟨_, rfl, opened.moved _⟩
    · -- Every block below the end of the file has a number in range.
      have valid := wellFormed.blocksExist ((position + count) / 4096) (by omega)
      omega

/-- Any other request is refused, or answered with more than the file has left. -/
theorem FileOpen.sysRead_overruns {result : Int × Memory × Kernel} (opened : FileOpen k p fd inode position)
    (request : ReadRequest) (wellFormed : env.image.FileWellFormed inode)
    (overruns : ¬RequestFits (env.image.length inode) position request.nbytes)
    (called : sysRead env k fd.val request.mem request.buf request.nbytes request.cpu = .ok result) :
    result.1 ≠ min (request.nbytes : Int) (env.image.length inode - position) := by
  have lengthFits := wellFormed.lengthFits
  have inside : ¬env.image.length inode ≤ position := fun finished => overruns (.inr (.inl finished))
  obtain ⟨many, asked⟩ := wanted_overruns (show env.image.length inode < 2147479552 by omega) overruns
  obtain ⟨count, copied⟩ := readData_wanted wellFormed request (Nat.lt_of_not_le inside)
  rw [opened.sysRead_eq, if_neg inside] at called
  rcases copied.outcome with ⟨returned, all⟩ | ⟨failed, -⟩
  · simp only at called
    rw [if_neg (by omega)] at called
    cases called
    simp only
    omega
  · simp only [failed, if_true] at called
    cases called
    simp only
    omega

section Calls

variable {requests : List ReadRequest} {calls : List ReadCall} {start : Nat}

theorem deliveredBefore_zero (calls : List ReadCall) : deliveredBefore calls 0 = 0 := rfl

theorem deliveredBefore_succ (call : ReadCall) (calls : List ReadCall) (index : Nat) :
    deliveredBefore (call :: calls) (index + 1) = call.ret + deliveredBefore calls index := by
  simp [deliveredBefore]

theorem Sequential.cons {request : ReadRequest} {position : Nat} {chunk : Nat}
    (size : chunk = min request.nbytes (env.image.length inode - start)) (inside : start ≤ env.image.length inode)
    (place : position ≤ env.image.length inode) (rest : Sequential env.image inode (start + chunk) requests calls)
    (counted : 0 ≤ deliveredBefore calls calls.length) :
    Sequential env.image inode start (request :: requests)
      (⟨chunk, (List.range chunk).map (fun index => env.image.content inode (start + index)), position⟩ :: calls) where
  answered := by simp [rest.answered]
  returns index asked call request_at call_at := by
    cases index with
    | zero =>
        cases request_at
        cases call_at
        rw [deliveredBefore_zero]
        simp only
        omega
    | succ index =>
        rw [deliveredBefore_succ, rest.returns index asked call request_at call_at]
        simp only
        omega
  bytes := by
    rw [List.flatMap_cons, rest.bytes, List.length_cons, deliveredBefore_succ]
    simp only
    rw [show ((chunk : Int) + deliveredBefore calls calls.length).toNat =
      chunk + (deliveredBefore calls calls.length).toNat by omega, List.range_add, List.map_append, List.map_map]
    simp only [Nat.add_assoc, Function.comp_def]
  position call listed := by
    rcases List.mem_cons.mp listed with rfl | later
    · exact place
    · exact rest.position call later
  ended index call call_at finished := by
    cases index with
    | zero =>
        cases call_at
        rw [deliveredBefore_zero] at finished
        simp only
        omega
    | succ index =>
        rw [deliveredBefore_succ] at finished
        exact rest.ended index call call_at (by simp only at finished; omega)

theorem FileOpen.readCalls_sequential (opened : FileOpen k p fd inode start)
    (wellFormed : env.image.FileWellFormed inode) (inside : start ≤ env.image.length inode)
    (fit : RequestsFit (env.image.length inode) start (requests.map ReadRequest.nbytes)) :
    ∃ calls, readCalls env p fd k requests = .ok calls ∧ Sequential env.image inode start requests calls ∧
      0 ≤ deliveredBefore calls calls.length := by
  induction requests generalizing k start with
  | nil =>
      refine ⟨[], rfl, ⟨rfl, ?_, rfl, ?_, ?_⟩, Int.le_refl 0⟩
      · intro index request call request_at
        simp at request_at
      · intro call listed
        cases listed
      · intro index call call_at
        simp at call_at
  | cons request rest ih =>
      obtain ⟨first, later⟩ := fit
      obtain ⟨after, called, moved⟩ := opened.sysRead_fits request wellFormed inside first
      have place : min (start + request.nbytes) (env.image.length inode) =
          start + min request.nbytes (env.image.length inode - start) := by omega
      obtain ⟨calls, ran, sequential, counted⟩ := ih moved (Nat.min_le_right ..) later
      rw [place] at sequential
      have bounded : min (start + request.nbytes) (env.image.length inode) ≤ env.image.length inode :=
        Nat.min_le_right ..
      refine ⟨_ :: calls, ?_, sequential.cons rfl inside bounded counted, ?_⟩
      · simp only [readCalls, called, bind, Except.bind, ran, Int.toNat_natCast, Memory.window_blit, moved.place]
        rfl
      · rw [List.length_cons, deliveredBefore_succ]
        simp only
        omega

theorem FileOpen.requestsFit (opened : FileOpen k p fd inode start)
    (wellFormed : env.image.FileWellFormed inode) (inside : start ≤ env.image.length inode)
    (ran : readCalls env p fd k requests = .ok calls)
    (returns : Returns (env.image.length inode) start requests calls) :
    RequestsFit (env.image.length inode) start (requests.map ReadRequest.nbytes) := by
  induction requests generalizing k start calls with
  | nil => trivial
  | cons request rest ih =>
      obtain ⟨result, called, continued⟩ := bind_ok.mp ran
      obtain ⟨later, others, built⟩ := bind_ok.mp continued
      cases built
      have first := returns 0 request _ rfl rfl
      rw [deliveredBefore_zero, Int.add_zero] at first
      have fits : RequestFits (env.image.length inode) start request.nbytes :=
        Classical.byContradiction fun overruns => opened.sysRead_overruns request wellFormed overruns called first
      obtain ⟨after, called', moved⟩ := opened.sysRead_fits request wellFormed inside fits
      cases called.symm.trans called'
      refine ⟨fits, ih moved (Nat.min_le_right ..) others ?_⟩
      intro index asked call request_at call_at
      have value := returns (index + 1) asked call request_at call_at
      rw [deliveredBefore_succ] at value
      simp only at value
      omega

end Calls

/-- The descriptor `open` returns for a regular file whose inode number has 8
bits. -/
theorem sysOpen_fileOpen {filename : Memory} {dentry : Dentry} {opened : Kernel}
    (caller : callerPcb k = .ok (some p)) (lookup : readDentryByName env.image filename = some dentry)
    (regular : dentry.fileType = 2) (small : dentry.inode < 256)
    (called : sysOpen env k filename = .ok ((fd.val : Int), opened)) : FileOpen opened p fd dentry.inode 0 := by
  have frame : CallFrame (some p) k (k.setFd p fd (openedFd ((k.pcbs p).fdArr fd) .file dentry.inode)) := .setFd .refl
  rw [sysOpen_file_opened caller lookup regular called]
  refine ⟨by rw [frame.sameCaller, caller], ?_, ?_, ?_, ?_⟩ <;> rw [setFd_fdArr, Function.update_self, openedFd]
  · exact Nat.one_ne_zero
  · exact Nat.mod_eq_of_lt small

theorem sequential_reads_iff (env : Env) (k opened : Kernel) (p : Slot) (filename : Memory) (dentry : Dentry)
    (fd : Fin 8) (requests : List ReadRequest) (caller : callerPcb k = .ok (some p))
    (lookup : readDentryByName env.image filename = some dentry) (regular : dentry.fileType = 2)
    (wellFormed : env.image.FileWellFormed dentry.inode)
    (called : sysOpen env k filename = .ok ((fd.val : Int), opened)) (small : dentry.inode < 256) :
    (∃ calls, readCalls env p fd opened requests = .ok calls ∧
      Sequential env.image dentry.inode 0 requests calls) ↔
      RequestsFit (env.image.length dentry.inode) 0 (requests.map ReadRequest.nbytes) := by
  have fileOpen := sysOpen_fileOpen caller lookup regular small called
  constructor
  · rintro ⟨calls, ran, sequential⟩
    exact fileOpen.requestsFit wellFormed (Nat.zero_le _) ran sequential.returns
  · intro fit
    obtain ⟨calls, ran, sequential, -⟩ := fileOpen.readCalls_sequential wellFormed (Nat.zero_le _) fit
    exact ⟨calls, ran, sequential⟩

/-- The first shell with its own image, 28 bytes long, open as descriptor 2. -/
def shellOpened : Kernel := stateAfter shellEnv baseShell [.open shellCommand]

def readShell (rest : Fin 4096) : ReadRequest :=
  ⟨fun _ => 0, 0x8000000, rest.val + 1, .reset, by decide, Nat.succ_pos _, by omega⟩

theorem shellImage_wellFormed : shellImage.FileWellFormed 0 where
  inodeExists := by decide
  lengthFits := by decide
  blocksExist index inside := by
    have length : shellImage.length 0 = 28 := by decide
    obtain rfl : index = 0 := by omega
    decide

theorem shellOpened_sequential :
    ∃ calls, readCalls shellEnv 0 2 shellOpened [readShell 3, readShell 23, readShell 8] = .ok calls ∧
      Sequential shellImage 0 0 [readShell 3, readShell 23, readShell 8] calls :=
  (sequential_reads_iff shellEnv baseShell shellOpened 0 shellCommand (shellImage.dentries 0) 2 _ rfl rfl rfl
    shellImage_wellFormed rfl (by decide)).mpr (by decide)

/-- The second of two reads of 20 bytes delivers 20 bytes, where the file has 8
left. -/
theorem overrunning_read :
    ¬∀ (env : Env) (k opened : Kernel) (p : Slot) (filename : Memory) (dentry : Dentry) (fd : Fin 8)
      (requests : List ReadRequest), callerPcb k = .ok (some p) →
      readDentryByName env.image filename = some dentry → dentry.fileType = 2 →
      env.image.FileWellFormed dentry.inode → sysOpen env k filename = .ok ((fd.val : Int), opened) →
      ∃ calls, readCalls env p fd opened requests = .ok calls ∧
        Sequential env.image dentry.inode 0 requests calls := by
  intro claim
  obtain ⟨calls, ran, sequential⟩ := claim shellEnv baseShell shellOpened 0 shellCommand (shellImage.dentries 0) 2
    [readShell 19, readShell 19] rfl rfl rfl shellImage_wellFormed rfl
  have returned : (readCalls shellEnv 0 2 shellOpened [readShell 19, readShell 19]).toOption.map
      (List.map ReadCall.ret) = some [20, 20] := by decide
  rw [ran] at returned
  obtain ⟨first, _, rfl, firstRet, more⟩ := List.map_eq_cons_iff.mp (Option.some.inj returned)
  obtain ⟨second, _, rfl, secondRet, -⟩ := List.map_eq_cons_iff.mp more
  have value := sequential.returns 1 _ second rfl rfl
  rw [deliveredBefore_succ, deliveredBefore_zero, firstRet, secondRet] at value
  revert value
  decide

end BozOS
