import BozOS.FileSystem.Image

namespace BozOS.FileSystem

open BozOS.Data

/-- What a call of `read_data` leaves behind: its return value, how far into
`buf` it has stored, and the memory. -/
structure ReadResult where
  ret : Int
  stored : Nat
  mem : Memory

/-- `copy_len`: the bytes left to copy, at most one block, cut at the end of the
current block. -/
def copyLen (bytesToCopy : Int) (initialOffset : Nat) : Int :=
  let whole : Int := if bytesToCopy ≥ 4096 then 4096 else bytesToCopy
  if 4096 - (initialOffset : Int) < whole then 4096 - initialOffset else whole

/-- The copy loop, with the number of iterations left before `end_block`. The
sums stay inside 32 bits: at most 2^19 blocks are visited. `copy_len` reaches
`memcpy` as an unsigned count. -/
def copyBlocks (image : Image) (inode offset buf : Nat) :
    Nat → Nat → Int → Int → Memory → ReadResult
  | 0, _, _, bytesCopied, mem => ⟨bytesCopied, bytesCopied.toNat, mem⟩
  | iterations + 1, i, bytesToCopy, bytesCopied, mem =>
      let initialOffset : Nat := if i = offset / 4096 then offset % 4096 else 0
      let copyLen := copyLen bytesToCopy initialOffset
      if image.block inode i > image.datablocks then ⟨-1, bytesCopied.toNat, mem⟩
      else
        let mem := mem.blit (buf + bytesCopied.toNat)
          (fun k => image.contents (image.block inode i) (initialOffset + k)) (u32 copyLen)
        if bytesToCopy - copyLen ≤ 0 then
          ⟨bytesCopied + copyLen, bytesCopied.toNat + u32 copyLen, mem⟩
        else
          copyBlocks image inode offset buf iterations (i + 1) (bytesToCopy - copyLen)
            (bytesCopied + copyLen) mem

/-- `read_data` on 32-bit arguments, with the signed and unsigned comparisons of
the source. `buf` is the address the bytes go to, 0 being `NULL`. -/
def readData (image : Image) (inode offset : Nat) (mem : Memory) (buf length : Nat) : ReadResult :=
  let fileLength : Int := i32 (image.length inode)
  if inode > image.inodes ∨ buf = 0 then ⟨-1, 0, mem⟩
  else if offset > u32 fileLength ∨ length = 0 ∨ fileLength = 0 then ⟨-1, 0, mem⟩
  else
    let blocksUsed : Int := fileLength.tdiv 4096 + 1
    let bytesToCopy : Int := i32 (if length < u32 fileLength then length else u32 fileLength)
    let memLocationOff : Int := i32 (offset + length)
    let bytesToCopy : Int :=
      if memLocationOff > i32 (blocksUsed * 4096) then i32 (fileLength - offset) else bytesToCopy
    copyBlocks image inode offset buf (blocksUsed - (offset / 4096 : Nat)).toNat (offset / 4096)
      bytesToCopy 0 mem

variable {image : Image} {inode offset buf length : Nat} {mem : Memory}

/-- `read_data` between its first check and its loop, over what it does next:
`fails` for the second return of -1, and `loop` for the loop, given its number
of iterations, its first block and the bytes to copy. -/
def settle {α : Type} (image : Image) (inode offset length : Nat) (fails : α) (loop : Nat → Nat → Int → α) : α :=
  let fileLength : Int := i32 (image.length inode)
  if offset > u32 fileLength ∨ length = 0 ∨ fileLength = 0 then fails
  else
    let blocksUsed : Int := fileLength.tdiv 4096 + 1
    let bytesToCopy : Int := i32 (if length < u32 fileLength then length else u32 fileLength)
    let memLocationOff : Int := i32 (offset + length)
    let bytesToCopy : Int :=
      if memLocationOff > i32 (blocksUsed * 4096) then i32 (fileLength - offset) else bytesToCopy
    loop (blocksUsed - (offset / 4096 : Nat)).toNat (offset / 4096) bytesToCopy

theorem settle_cases (image : Image) (inode offset length : Nat) :
    (∀ {α : Type} (fails : α) loop, settle image inode offset length fails loop = fails) ∨
    ∃ iterations i bytesToCopy, ∀ {α : Type} (fails : α) loop,
      settle image inode offset length fails loop = loop iterations i bytesToCopy := by
  by_cases refused : offset > u32 (i32 (image.length inode)) ∨ length = 0 ∨ i32 (image.length inode) = 0
  · exact .inl fun fails loop => if_pos refused
  · exact .inr ⟨_, _, _, fun fails loop => if_neg refused⟩

theorem readData_settle (accepted : ¬(image.inodes < inode ∨ buf = 0)) :
    readData image inode offset mem buf length = settle image inode offset length ⟨-1, 0, mem⟩
      fun iterations i bytesToCopy => copyBlocks image inode offset buf iterations i bytesToCopy 0 mem :=
  if_neg accepted

/-- The outcome of copying `want` bytes from file position `position` on behind
`copied` earlier ones: `count` bytes are stored, and these are all of them
unless the next byte lies in a block whose number is too large. -/
structure Copied (image : Image) (inode position buf : Nat) (mem : Memory) (copied want count : Nat)
    (result : ReadResult) : Prop where
  memory : result.mem = mem.blit (buf + copied) (fun k => image.content inode (position + k)) count
  extent : result.stored = copied + count
  blocks : ∀ k < count, image.block inode ((position + k) / 4096) ≤ image.datablocks
  outcome : (result.ret = copied + count ∧ count = want) ∨
    (result.ret = -1 ∧ count < want ∧
      image.datablocks < image.block inode ((position + count) / 4096))

theorem copyLen_natCast {want within : Nat} (inBlock : within < 4096) :
    copyLen want within = ((min want (4096 - within) : Nat) : Int) := by
  unfold copyLen
  simp only
  split <;> split <;> omega

theorem contents_eq_content {position i within k : Nat} (place : position = 4096 * i + within)
    (room : within + k < 4096) :
    image.contents (image.block inode i) (within + k) = image.content inode (position + k) := by
  have quotient : (position + k) / 4096 = i := by omega
  have remainder : (position + k) % 4096 = within + k := by omega
  rw [Image.content, quotient, remainder]

/-- A chunk of one block as a part of the file. -/
theorem blit_content {position i within dest chunk : Nat} (place : position = 4096 * i + within)
    (room : within + chunk ≤ 4096) :
    mem.blit dest (fun k => image.contents (image.block inode i) (within + k)) chunk =
      mem.blit dest (fun k => image.content inode (position + k)) chunk := by
  funext cell
  unfold Memory.blit
  split
  · exact contents_eq_content place (by omega)
  · rfl

theorem Copied.chunk {position copied want first count : Nat} {result : ReadResult}
    (valid : ∀ k < first, image.block inode ((position + k) / 4096) ≤ image.datablocks)
    (rest : Copied image inode (position + first) buf
      (mem.blit (buf + copied) (fun k => image.content inode (position + k)) first)
      (copied + first) want count result) :
    Copied image inode position buf mem copied (first + want) (first + count) result where
  memory := by
    have joined : (mem.blit (buf + copied) (fun k => image.content inode (position + k)) first).blit
        (buf + copied + first) (fun k => image.content inode (position + (first + k))) count =
        mem.blit (buf + copied) (fun k => image.content inode (position + k)) (first + count) :=
      Memory.blit_blit first count
    rw [rest.memory]
    simpa only [Nat.add_assoc] using joined
  extent := by rw [rest.extent, Nat.add_assoc]
  blocks := by
    intro k bound
    by_cases early : k < first
    · exact valid k early
    · have later := rest.blocks (k - first) (by omega)
      rwa [show position + first + (k - first) = position + k by omega] at later
  outcome := by
    rcases rest.outcome with ⟨returned, all⟩ | ⟨failed, short, invalid⟩
    · exact .inl ⟨by rw [returned]; omega, by omega⟩
    · exact .inr ⟨failed, by omega, by rwa [Nat.add_assoc] at invalid⟩

theorem Copied.none {position copied want : Nat}
    (positive : 0 < want) (invalid : image.datablocks < image.block inode (position / 4096)) :
    Copied image inode position buf mem copied want 0 ⟨-1, copied, mem⟩ where
  memory := Memory.blit_zero.symm
  extent := rfl
  blocks := by intro k bound; omega
  outcome := .inr ⟨rfl, positive, invalid⟩

theorem Copied.all {position copied : Nat} :
    Copied image inode position buf mem copied 0 0 ⟨copied, copied, mem⟩ where
  memory := Memory.blit_zero.symm
  extent := rfl
  blocks := by intro k bound; omega
  outcome := .inl ⟨by simp, rfl⟩

/-- Behind a chunk that is not the last one, the next block starts. -/
theorem place_next {i within copied want chunk : Nat}
    (initial : (if i = offset / 4096 then offset % 4096 else 0) = within)
    (place : offset + copied = 4096 * i + within) (chunkLength : min want (4096 - within) = chunk)
    (more : chunk < want) :
    offset + (copied + chunk) = 4096 * (i + 1) + if i + 1 = offset / 4096 then offset % 4096 else 0 := by
  have behind : i + 1 ≠ offset / 4096 := by
    intro ahead
    have started : i ≠ offset / 4096 := by omega
    simp only [started, if_false] at initial
    omega
  rw [if_neg behind]
  have bound : within < 4096 := by subst initial; split <;> omega
  omega

/-- The copy loop from a block boundary, or from the offset itself: it stores
the requested bytes up to the end of the last block. -/
theorem copyBlocks_copied {iterations i want copied : Nat}
    (place : offset + copied = 4096 * i + if i = offset / 4096 then offset % 4096 else 0)
    (positive : 0 < want) (inside : 0 < iterations) :
    ∃ count, Copied image inode (offset + copied) buf mem copied
      (min want (4096 * (i + iterations) - (offset + copied))) count
      (copyBlocks image inode offset buf iterations i want copied mem) := by
  induction iterations generalizing i want copied mem with
  | zero => omega
  | succ iterations ih =>
      generalize initial : (if i = offset / 4096 then offset % 4096 else 0) = within at place
      have withinBound : within < 4096 := by subst initial; split <;> omega
      have current : (offset + copied) / 4096 = i := by omega
      rw [copyBlocks]
      simp only [initial, copyLen_natCast withinBound, Int.toNat_natCast]
      generalize chunkLength : min want (4096 - within) = chunk
      have width : u32 (chunk : Int) = chunk := by
        rw [u32_of_range (by omega) (by omega), Int.toNat_natCast]
      rw [width]
      split
      · rename_i invalid
        exact ⟨0, .none (by omega) (by rw [current]; exact invalid)⟩
      · rename_i valid
        have chunkBlocks : ∀ k < chunk,
            image.block inode ((offset + copied + k) / 4096) ≤ image.datablocks := by
          intro k bound
          rw [show (offset + copied + k) / 4096 = i by omega]
          omega
        rw [blit_content place (by omega)]
        split
        · -- Nothing is left to copy: the last chunk ended inside this block.
          have last : min want (4096 * (i + (iterations + 1)) - (offset + copied)) = chunk + 0 := by omega
          rw [last]
          exact ⟨chunk + 0, Copied.chunk chunkBlocks .all⟩
        · have remaining : (want : Int) - chunk = ((want - chunk : Nat) : Int) := by omega
          have progress : (copied : Int) + chunk = ((copied + chunk : Nat) : Int) := by omega
          have next := place_next initial place chunkLength (by omega)
          rw [remaining, progress]
          cases iterations with
          | zero =>
              have last : min want (4096 * (i + (0 + 1)) - (offset + copied)) = chunk + 0 := by omega
              rw [last]
              exact ⟨chunk + 0, Copied.chunk chunkBlocks (by rw [copyBlocks, Int.toNat_natCast]; exact .all)⟩
          | succ iterations =>
              obtain ⟨count, rest⟩ := ih next (show 0 < want - chunk by omega) (Nat.succ_pos iterations)
              refine ⟨chunk + count, ?_⟩
              have total : min want (4096 * (i + (iterations + 1 + 1)) - (offset + copied)) =
                  chunk + min (want - chunk)
                    (4096 * (i + 1 + (iterations + 1)) - (offset + (copied + chunk))) := by omega
              rw [total]
              apply Copied.chunk chunkBlocks
              rw [show offset + copied + chunk = offset + (copied + chunk) by omega]
              exact rest

/-- The test that cuts a request to the rest of the file, on the values of its
operands: the request ends behind the last block. The end of the last block of a
file of 2 GiB wraps around to the least signed value. -/
def EndsBehind (fileLength offset length : Nat) : Prop :=
  if fileLength < 2147479552 then
    4096 * (fileLength / 4096 + 1) < offset + length ∧ offset + length < 2147483648
  else offset + length ≠ 2147483648

instance (fileLength offset length : Nat) : Decidable (EndsBehind fileLength offset length) := by
  unfold EndsBehind
  infer_instance

/-- The byte count `read_data` settles on for a file of `fileLength` bytes. -/
def bytesRequested (fileLength offset length : Nat) : Nat :=
  if EndsBehind fileLength offset length then fileLength - offset else min length fileLength

theorem endsBehind_iff {fileLength : Nat} (signedLength : fileLength < 2147483648)
    (started : offset ≤ fileLength) (word : length < 4294967296) :
    i32 ((offset : Int) + length) > i32 (((fileLength / 4096 : Nat) + 1 : Int) * 4096) ↔
      EndsBehind fileLength offset length := by
  unfold EndsBehind
  by_cases small : fileLength < 2147479552
  · have blocksEnd : i32 (((fileLength / 4096 : Nat) + 1 : Int) * 4096) = 4096 * ((fileLength / 4096 : Nat) + 1) := by
      rw [i32_of_range (by omega) (by omega)]
      omega
    rw [if_pos small, blocksEnd]
    unfold i32
    split <;> omega
  · have last : fileLength / 4096 = 524287 := by omega
    rw [if_neg small, last]
    unfold i32
    split <;> split <;> omega

section Settle

variable {α : Type} {fails : α} {loop : Nat → Nat → Int → α}

theorem settle_blocks (nonempty : 0 < image.length inode) (signedLength : image.length inode < 2147483648)
    (started : offset ≤ image.length inode) (asked : 0 < length) (word : length < 4294967296) :
    settle image inode offset length fails loop =
      loop (image.length inode / 4096 + 1 - offset / 4096) (offset / 4096)
        (bytesRequested (image.length inode) offset length) := by
  have signed : i32 (image.length inode) = image.length inode := i32_of_range (by omega) (by omega)
  have unsigned : u32 (image.length inode : Int) = image.length inode := by
    rw [u32_of_range (by omega) (by omega), Int.toNat_natCast]
  have quotient : Int.tdiv (image.length inode) 4096 = (image.length inode / 4096 : Nat) := by
    rw [Int.tdiv_eq_ediv_of_nonneg (by omega)]
    omega
  have iterations : (((image.length inode / 4096 : Nat) : Int) + 1 - (offset / 4096 : Nat)).toNat =
      image.length inode / 4096 + 1 - offset / 4096 := by omega
  have checked : ¬(offset > image.length inode ∨ length = 0 ∨ (image.length inode : Int) = 0) := by omega
  have behind := endsBehind_iff signedLength started word
  have chosen : (if i32 ((offset : Int) + length) > i32 (((image.length inode / 4096 : Nat) + 1 : Int) * 4096)
      then i32 ((image.length inode : Int) - offset)
      else i32 (if length < image.length inode then (length : Int) else image.length inode)) =
      bytesRequested (image.length inode) offset length := by
    rw [bytesRequested]
    by_cases cut : EndsBehind (image.length inode) offset length
    · rw [if_pos (behind.mpr cut), if_pos cut, i32_of_range (by omega) (by omega)]
      omega
    · rw [if_neg (mt behind.mp cut), if_neg cut]
      split <;> rw [i32_of_range (by omega) (by omega)] <;> omega
  rw [settle]
  simp only [signed, unsigned, quotient, iterations, if_neg checked, ← chosen]

theorem length_lt (image : Image) (inode : Nat) : image.length inode < 4294967296 :=
  le32_lt image.bytes (4096 * (inode + 1))

theorem settle_refused (refused : image.length inode < offset ∨ length = 0 ∨ image.length inode = 0) :
    settle image inode offset length fails loop = fails := by
  have word := length_lt image inode
  have unsigned : u32 (i32 (image.length inode)) = image.length inode := by
    unfold u32 i32
    split <;> omega
  have zero : image.length inode = 0 → i32 (image.length inode) = 0 := by
    intro empty
    rw [empty]
    rfl
  rw [settle]
  simp only [unsigned]
  rw [if_pos (by omega)]

/-! Lengths from 2 GiB on are negative numbers to `read_data`. -/

theorem tdiv_of_high {value : Nat} (word : value < 4294967296) :
    ((value : Int) - 4294967296).tdiv 4096 = -((4294967296 - value : Int) / 4096) := by
  rw [show ((value : Int) - 4294967296) = -(4294967296 - value) by omega, Int.neg_tdiv,
    Int.tdiv_eq_ediv_of_nonneg (by omega)]

theorem high_signed (high : 2147483648 ≤ image.length inode) :
    i32 (image.length inode) = image.length inode - 4294967296 ∧
      u32 ((image.length inode : Int) - 4294967296) = image.length inode := by
  have word := length_lt image inode
  refine ⟨i32_of_high (by omega) (by omega), ?_⟩
  unfold u32
  omega

/-- No block is visited when the block count is not positive. -/
theorem settle_negative (high : 2147483648 ≤ image.length inode) (started : offset ≤ image.length inode)
    (asked : 0 < length) (beyond : image.length inode ≤ 4294963200 ∨ 4096 ≤ offset) :
    ∃ bytesToCopy, settle image inode offset length fails loop = loop 0 (offset / 4096) bytesToCopy := by
  have word := length_lt image inode
  obtain ⟨signed, unsigned⟩ := high_signed high
  have checked : ¬(offset > image.length inode ∨ length = 0 ∨ (image.length inode : Int) - 4294967296 = 0) := by
    omega
  have iterations : (((image.length inode : Int) - 4294967296).tdiv 4096 + 1 - (offset / 4096 : Nat)).toNat = 0 := by
    rw [tdiv_of_high word]
    omega
  rw [settle]
  simp only [signed, unsigned, if_neg checked, iterations]
  exact ⟨_, rfl⟩

/-- A length within 4 KiB of the end of the 32-bit range still has one block. -/
theorem settle_oneBlock (high : 4294963200 < image.length inode) (started : offset < 4096) (asked : 0 < length)
    (word : length < 4294967296) :
    settle image inode offset length fails loop = loop 1 0
      (if 4096 < offset + length ∧ offset + length < 2147483648 then
        (image.length inode : Int) - 4294967296 - offset
      else i32 (min length (image.length inode) : Nat)) := by
  have bound := length_lt image inode
  have top : 2147483648 ≤ image.length inode := by omega
  obtain ⟨signed, unsigned⟩ := high_signed top
  have checked : ¬(offset > image.length inode ∨ length = 0 ∨ (image.length inode : Int) - 4294967296 = 0) := by
    omega
  have quotient : ((image.length inode : Int) - 4294967296).tdiv 4096 = 0 := by
    rw [tdiv_of_high bound]
    omega
  have first : offset / 4096 = 0 := by omega
  have clip : i32 ((offset : Int) + length) > 4096 ↔ 4096 < offset + length ∧ offset + length < 2147483648 := by
    unfold i32
    split <;> omega
  have behind : i32 ((image.length inode : Int) - 4294967296 - offset) =
      (image.length inode : Int) - 4294967296 - offset := i32_of_range (by omega) (by omega)
  have least : (if length < image.length inode then (length : Int) else image.length inode) =
      (min length (image.length inode) : Nat) := by split <;> omega
  have blocksEnd : i32 ((0 + 1) * 4096) = 4096 := by decide
  rw [settle]
  simp only [signed, unsigned, if_neg checked, quotient, first, blocksEnd, behind, least]
  simp only [clip]
  rfl

end Settle

/-- Of an inode `read_data` uses the record, and its number only for the first check. -/
theorem copyBlocks_congr {other iterations i : Nat} {bytesToCopy bytesCopied : Int}
    (blocks : ∀ index, image.block other index = image.block inode index) :
    copyBlocks image other offset buf iterations i bytesToCopy bytesCopied mem =
      copyBlocks image inode offset buf iterations i bytesToCopy bytesCopied mem := by
  induction iterations generalizing i bytesToCopy bytesCopied mem with
  | zero => rfl
  | succ iterations ih => simp only [copyBlocks, blocks, ih]

theorem readData_congr {other : Nat} (length' : image.length other = image.length inode)
    (blocks : ∀ index, image.block other index = image.block inode index) (inodeExists : inode ≤ image.inodes)
    (otherExists : other ≤ image.inodes) :
    readData image other offset mem buf length = readData image inode offset mem buf length := by
  by_cases null : buf = 0
  · rw [readData, readData, if_pos (.inr null), if_pos (.inr null)]
  · rw [readData_settle (by omega), readData_settle (by omega)]
    simp only [settle, length', copyBlocks_congr blocks]

theorem readData_eq_copyBlocks (inodeExists : inode ≤ image.inodes) (target : buf ≠ 0)
    (nonempty : 0 < image.length inode) (signedLength : image.length inode < 2147483648)
    (started : offset ≤ image.length inode) (asked : 0 < length) (word : length < 4294967296) :
    readData image inode offset mem buf length =
      copyBlocks image inode offset buf (image.length inode / 4096 + 1 - offset / 4096) (offset / 4096)
        (bytesRequested (image.length inode) offset length) 0 mem := by
  rw [readData_settle (by omega), settle_blocks nonempty signedLength started asked word]

theorem readData_copied (inodeExists : inode ≤ image.inodes) (target : buf ≠ 0)
    (signedLength : image.length inode < 2147483648) (started : offset < image.length inode)
    (asked : 0 < length) (word : length < 4294967296) :
    ∃ count, Copied image inode offset buf mem 0
      (min (bytesRequested (image.length inode) offset length)
        (4096 * (image.length inode / 4096 + 1) - offset)) count
      (readData image inode offset mem buf length) := by
  rw [readData_eq_copyBlocks inodeExists target (by omega) signedLength (by omega) asked word]
  have positive : 0 < bytesRequested (image.length inode) offset length := by
    unfold bytesRequested
    split <;> omega
  have spec : ∃ count, Copied image inode (offset + 0) buf mem 0
      (min (bytesRequested (image.length inode) offset length)
        (4096 * (offset / 4096 + (image.length inode / 4096 + 1 - offset / 4096)) - (offset + 0))) count
      (copyBlocks image inode offset buf (image.length inode / 4096 + 1 - offset / 4096) (offset / 4096)
        (bytesRequested (image.length inode) offset length) (0 : Nat) mem) :=
    copyBlocks_copied (by rw [if_pos rfl]; omega) positive (by omega)
  have last : offset / 4096 + (image.length inode / 4096 + 1 - offset / 4096) =
      image.length inode / 4096 + 1 := by omega
  rwa [last] at spec

theorem bytesRequested_inside {fileLength : Nat} (small : fileLength ≤ 1023 * 4096)
    (inside : offset = 0 ∨ offset + length ≤ fileLength) :
    bytesRequested fileLength offset length = min length (fileLength - offset) := by
  have below : fileLength < 2147479552 := by omega
  simp only [bytesRequested, EndsBehind, if_pos below]
  split <;> omega

/-- A request that starts with the file, or that ends inside it, is for bytes of the
file alone. -/
theorem readData_requested (inodeExists : inode ≤ image.inodes) (target : buf ≠ 0)
    (small : image.length inode ≤ 1023 * 4096) (started : offset < image.length inode) (asked : 0 < length)
    (word : length < 4294967296) (inside : offset = 0 ∨ offset + length ≤ image.length inode) :
    ∃ count, Copied image inode offset buf mem 0 (min length (image.length inode - offset)) count
      (readData image inode offset mem buf length) := by
  have want : min (bytesRequested (image.length inode) offset length)
      (4096 * (image.length inode / 4096 + 1) - offset) = min length (image.length inode - offset) := by
    rw [bytesRequested_inside small inside]
    omega
  exact want ▸ readData_copied inodeExists target (by omega) started asked word

/-- A file of one block is delivered as far as it is asked for. -/
theorem readData_firstBlock (inodeExists : inode ≤ image.inodes) (target : buf ≠ 0)
    (nonempty : 0 < image.length inode) (short : image.length inode ≤ 4096)
    (block : ¬image.datablocks < image.block inode 0) (asked : 0 < length) (word : length < 4294967296) :
    Copied image inode 0 buf mem 0 (min length (image.length inode)) (min length (image.length inode))
      (readData image inode 0 mem buf length) := by
  obtain ⟨count, copied⟩ : ∃ count, Copied image inode 0 buf mem 0 (min length (image.length inode - 0)) count
      (readData image inode 0 mem buf length) :=
    readData_requested inodeExists target (by omega) nonempty asked word (.inl rfl)
  rw [Nat.sub_zero] at copied
  rcases copied.outcome with ⟨-, whole⟩ | ⟨-, less, invalid⟩
  · rwa [whole] at copied
  · rw [show (0 + count) / 4096 = 0 by omega] at invalid
    exact absurd invalid block

theorem readData_refused (refused : image.inodes < inode ∨ buf = 0 ∨ length = 0 ∨ image.length inode = 0) :
    readData image inode offset mem buf length = ⟨-1, 0, mem⟩ := by
  by_cases accepted : image.inodes < inode ∨ buf = 0
  · exact if_pos accepted
  · rw [readData_settle accepted, settle_refused (by omega)]

theorem readData_negative (inodeExists : inode ≤ image.inodes) (target : buf ≠ 0)
    (high : 2147483648 ≤ image.length inode) (started : offset ≤ image.length inode) (asked : 0 < length)
    (beyond : image.length inode ≤ 4294963200 ∨ 4096 ≤ offset) :
    readData image inode offset mem buf length = ⟨0, 0, mem⟩ := by
  rw [readData_settle (by omega)]
  obtain ⟨bytesToCopy, settled⟩ := settle_negative high started asked beyond
  rw [settled, copyBlocks, Int.toNat_zero]

theorem copyBlocks_one {want : Int} (started : offset < 4096) (valid : image.block inode 0 ≤ image.datablocks) :
    copyBlocks image inode offset buf 1 0 want 0 mem =
      ⟨copyLen want offset, u32 (copyLen want offset), mem.blit buf
        (fun k => image.contents (image.block inode 0) (offset + k)) (u32 (copyLen want offset))⟩ := by
  have first : (if 0 = offset / 4096 then offset % 4096 else 0) = offset := by
    rw [if_pos (by omega), Nat.mod_eq_of_lt started]
  rw [copyBlocks]
  simp only [first, if_neg (Nat.not_lt.mpr valid), Int.zero_add, Int.toNat_zero, Nat.zero_add, Nat.add_zero,
    copyBlocks]
  split
  · rfl
  · -- More than one block was asked for: the chunk is the rest of the first one.
    rename_i more
    have rest : copyLen want offset = 4096 - offset := by
      unfold copyLen at more ⊢
      simp only at more ⊢
      split <;> split at more <;> split at more <;> omega
    rw [rest, u32_of_range (by omega) (by omega)]

theorem readData_oneBlock (inodeExists : inode ≤ image.inodes) (target : buf ≠ 0)
    (high : 4294963200 < image.length inode) (started : offset < 4096) (asked : 0 < length)
    (word : length < 4294967296) :
    readData image inode offset mem buf length =
      copyBlocks image inode offset buf 1 0
        (if 4096 < offset + length ∧ offset + length < 2147483648 then
          (image.length inode : Int) - 4294967296 - offset
        else i32 (min length (image.length inode) : Nat)) 0 mem := by
  rw [readData_settle (by omega), settle_oneBlock high started asked word]

end BozOS.FileSystem
