import BozOS.FileSystem.ReadData

namespace BozOS.FileSystem

open BozOS.Data

/-! The reads of the image that `read_data` makes: the same function again, with
every table element it takes recorded. -/

/-- An element of one of the tables behind the boot block: an inode's record, an
entry of the block list of the inode being read, or a data block. -/
inductive Access where
  | inode (number : Nat)
  | entry (index : Nat)
  | data (number : Nat)
deriving DecidableEq, Repr

def Access.InRange (image : Image) : Access → Prop
  | .inode number => number < image.inodes
  | .entry index => index ≤ 1022
  | .data number => number < image.datablocks

/-- A call with its reads in order, and the read that a range check has kept it
from. -/
structure Traced where
  result : ReadResult
  accesses : List Access
  refused : Option Access

/-- The data blocks a `memcpy` of `count` bytes takes its source from, when it
starts `within` bytes into block `number`. -/
def blocksRead (number within count : Nat) : List Access :=
  if count = 0 then [] else (List.range ((within + count - 1) / 4096 + 1)).map fun k => .data (number + k)

def tracedBlocks (image : Image) (inode offset buf : Nat) : Nat → Nat → Int → Int → Memory → Traced
  | 0, _, _, bytesCopied, mem => ⟨⟨bytesCopied, bytesCopied.toNat, mem⟩, [], none⟩
  | iterations + 1, i, bytesToCopy, bytesCopied, mem =>
      let initialOffset : Nat := if i = offset / 4096 then offset % 4096 else 0
      let copyLen := copyLen bytesToCopy initialOffset
      if image.block inode i > image.datablocks then
        ⟨⟨-1, bytesCopied.toNat, mem⟩, [.entry i], some (.data (image.block inode i))⟩
      else
        let mem := mem.blit (buf + bytesCopied.toNat)
          (fun k => image.contents (image.block inode i) (initialOffset + k)) (u32 copyLen)
        let copied := blocksRead (image.block inode i) initialOffset (u32 copyLen)
        if bytesToCopy - copyLen ≤ 0 then
          ⟨⟨bytesCopied + copyLen, bytesCopied.toNat + u32 copyLen, mem⟩, .entry i :: copied, none⟩
        else
          let rest := tracedBlocks image inode offset buf iterations (i + 1) (bytesToCopy - copyLen)
            (bytesCopied + copyLen) mem
          { rest with accesses := .entry i :: copied ++ rest.accesses }

def tracedRead (image : Image) (inode offset : Nat) (mem : Memory) (buf length : Nat) : Traced :=
  if inode > image.inodes then ⟨⟨-1, 0, mem⟩, [], some (.inode inode)⟩
  else if buf = 0 then ⟨⟨-1, 0, mem⟩, [], none⟩
  else
    let rest := settle image inode offset length ⟨⟨-1, 0, mem⟩, [], none⟩
      fun iterations i bytesToCopy => tracedBlocks image inode offset buf iterations i bytesToCopy 0 mem
    { rest with accesses := .inode inode :: rest.accesses }

variable {image : Image} {inode offset buf length : Nat} {mem : Memory} {access : Access}

theorem tracedBlocks_result {iterations i : Nat} {bytesToCopy bytesCopied : Int} :
    (tracedBlocks image inode offset buf iterations i bytesToCopy bytesCopied mem).result =
      copyBlocks image inode offset buf iterations i bytesToCopy bytesCopied mem := by
  induction iterations generalizing i bytesToCopy bytesCopied mem with
  | zero => rfl
  | succ iterations ih =>
      rw [tracedBlocks, copyBlocks]
      generalize (if i = offset / 4096 then offset % 4096 else 0) = within
      simp only
      split
      · rfl
      split
      · rfl
      · exact ih

/-- A call that passes the first check fails at the second one, or it runs the
loop. -/
theorem tracedRead_cases (accepted : ¬(image.inodes < inode ∨ buf = 0)) :
    (tracedRead image inode offset mem buf length = ⟨⟨-1, 0, mem⟩, [.inode inode], none⟩ ∧
      readData image inode offset mem buf length = ⟨-1, 0, mem⟩) ∨
    ∃ iterations i bytesToCopy loop,
      loop = tracedBlocks image inode offset buf iterations i bytesToCopy 0 mem ∧
      tracedRead image inode offset mem buf length =
        ⟨loop.result, .inode inode :: loop.accesses, loop.refused⟩ ∧
      readData image inode offset mem buf length =
        copyBlocks image inode offset buf iterations i bytesToCopy 0 mem := by
  rw [readData_settle accepted, tracedRead, if_neg (by omega), if_neg (by omega)]
  rcases settle_cases image inode offset length with fails | ⟨iterations, i, bytesToCopy, loops⟩
  · rw [fails, fails]
    exact .inl ⟨rfl, rfl⟩
  · rw [loops, loops]
    exact .inr ⟨iterations, i, bytesToCopy, _, rfl, rfl, rfl⟩

/-- Without the record it is `read_data`. -/
theorem tracedRead_result :
    (tracedRead image inode offset mem buf length).result = readData image inode offset mem buf length := by
  by_cases missing : image.inodes < inode
  · rw [readData_refused (.inl missing), tracedRead, if_pos missing]
  by_cases null : buf = 0
  · rw [readData_refused (.inr (.inl null)), tracedRead, if_neg missing, if_pos null]
  have accepted : ¬(image.inodes < inode ∨ buf = 0) := by omega
  rcases tracedRead_cases accepted with ⟨traced, returned⟩ | ⟨iterations, i, bytesToCopy, loop, rfl, traced, looped⟩
  · rw [traced, returned]
  · rw [traced, looped]
    exact tracedBlocks_result

theorem tracedBlocks_refused {iterations i : Nat} {bytesToCopy bytesCopied : Int}
    (refused : (tracedBlocks image inode offset buf iterations i bytesToCopy bytesCopied mem).refused = some access) :
    (tracedBlocks image inode offset buf iterations i bytesToCopy bytesCopied mem).result.ret = -1 := by
  induction iterations generalizing i bytesToCopy bytesCopied mem with
  | zero => cases refused
  | succ iterations ih =>
      revert refused
      rw [tracedBlocks]
      generalize (if i = offset / 4096 then offset % 4096 else 0) = within
      simp only
      split
      · exact fun _ => rfl
      split
      · exact nofun
      · exact ih

/-- Wherever a range check stops the call, the call fails. -/
theorem tracedRead_refused (refused : (tracedRead image inode offset mem buf length).refused = some access) :
    (readData image inode offset mem buf length).ret = -1 := by
  by_cases missing : image.inodes < inode
  · rw [readData_refused (.inl missing)]
  by_cases null : buf = 0
  · rw [readData_refused (.inr (.inl null))]
  have accepted : ¬(image.inodes < inode ∨ buf = 0) := by omega
  rcases tracedRead_cases accepted with ⟨traced, returned⟩ | ⟨iterations, i, bytesToCopy, loop, rfl, traced, looped⟩
  · rw [returned]
  · rw [traced] at refused
    rw [looped, ← tracedBlocks_result]
    exact tracedBlocks_refused refused

theorem blocksRead_one {number within count : Nat} (positive : 0 < count) (room : within + count ≤ 4096) :
    blocksRead number within count = [.data number] := by
  have last : (within + count - 1) / 4096 = 0 := by omega
  rw [blocksRead, if_neg (by omega), last]
  rfl

/-- The reads of a loop over `count` blocks from block `i` on that is done at byte
`limit` of the file: the block numbers and the blocks in turn, up to a number that
is too large. -/
def Visits (image : Image) (inode i count limit : Nat) (access : Access) : Prop :=
  ∃ j, i ≤ j ∧ j < i + count ∧ 4096 * j < limit ∧
    (∀ earlier, i ≤ earlier → earlier < j → image.block inode earlier ≤ image.datablocks) ∧
    (access = .entry j ∨ access = .data (image.block inode j) ∧ image.block inode j ≤ image.datablocks)

section Visits

variable {i count limit : Nat}

theorem visits_none (done : limit ≤ 4096 * i) : ¬Visits image inode i count limit access := by
  rintro ⟨j, lower, -, before, -⟩
  omega

theorem visits_refused (reached : 4096 * i < limit) (invalid : image.datablocks < image.block inode i) :
    Visits image inode i (count + 1) limit access ↔ access = .entry i := by
  constructor
  · rintro ⟨j, lower, -, -, valid, taken⟩
    obtain rfl : j = i := by
      by_contra different
      exact absurd (valid i (by omega) (by omega)) (by omega)
    exact taken.resolve_right fun read => absurd read.2 (by omega)
  · intro taken
    exact ⟨i, by omega, by omega, reached, by intro earlier; omega, .inl taken⟩

/-- One block more in front. -/
theorem visits_succ (reached : 4096 * i < limit) (valid : image.block inode i ≤ image.datablocks) :
    Visits image inode i (count + 1) limit access ↔ access = .entry i ∨ access = .data (image.block inode i) ∨
      Visits image inode (i + 1) count limit access := by
  constructor
  · rintro ⟨j, lower, upper, inside, earlier, taken⟩
    by_cases first : j = i
    · subst first
      exact taken.elim .inl fun read => .inr (.inl read.1)
    · exact .inr (.inr ⟨j, by omega, by omega, inside, fun index above below => earlier index (by omega) below, taken⟩)
  · rintro (taken | taken | ⟨j, lower, upper, inside, earlier, taken⟩)
    · exact ⟨i, by omega, by omega, reached, by intro earlier; omega, .inl taken⟩
    · exact ⟨i, by omega, by omega, reached, by intro earlier; omega, .inr ⟨taken, valid⟩⟩
    · refine ⟨j, by omega, by omega, inside, fun index above below => ?_, taken⟩
      by_cases first : index = i
      · rwa [first]
      · exact earlier index (by omega) below

end Visits

/-- What the loop reads while it copies `want` bytes. -/
theorem mem_tracedBlocks {iterations i want copied : Nat}
    (place : offset + copied = 4096 * i + if i = offset / 4096 then offset % 4096 else 0)
    (positive : 0 < want) :
    access ∈ (tracedBlocks image inode offset buf iterations i want copied mem).accesses ↔
      Visits image inode i iterations (offset + copied + want) access := by
  induction iterations generalizing i want copied mem with
  | zero =>
      simp only [tracedBlocks, List.not_mem_nil, false_iff]
      rintro ⟨j, lower, upper, -⟩
      omega
  | succ iterations ih =>
      generalize initial : (if i = offset / 4096 then offset % 4096 else 0) = within at place
      have withinBound : within < 4096 := by subst initial; split <;> omega
      rw [tracedBlocks]
      simp only [initial, copyLen_natCast withinBound, Int.toNat_natCast]
      generalize chunkLength : min want (4096 - within) = chunk
      have width : u32 (chunk : Int) = chunk := by
        rw [u32_of_range (by omega) (by omega), Int.toNat_natCast]
      rw [width, blocksRead_one (by omega) (by omega)]
      have reached : 4096 * i < offset + copied + want := by omega
      split
      · rename_i invalid
        rw [List.mem_singleton, visits_refused reached invalid]
      rename_i valid
      rw [visits_succ reached (by omega)]
      split
      · -- The last byte lies in this block.
        have rest : ¬Visits image inode (i + 1) iterations (offset + copied + want) access := visits_none (by omega)
        rw [List.mem_cons, List.mem_singleton, or_iff_left rest]
      · have remaining : (want : Int) - chunk = ((want - chunk : Nat) : Int) := by omega
        have progress : (copied : Int) + chunk = ((copied + chunk : Nat) : Int) := by omega
        have next := place_next initial place chunkLength (by omega)
        simp only [remaining, progress, List.cons_append, List.nil_append, List.mem_cons]
        rw [ih next (by omega), show offset + (copied + chunk) + (want - chunk) = offset + copied + want by omega]

/-- Where the loop starts. -/
theorem place_first : offset + 0 = 4096 * (offset / 4096) +
    if offset / 4096 = offset / 4096 then offset % 4096 else 0 := by
  rw [if_pos rfl]
  omega

theorem tracedRead_accesses (accepted : ¬(image.inodes < inode ∨ buf = 0)) :
    (tracedRead image inode offset mem buf length).accesses = .inode inode ::
      settle image inode offset length [] fun iterations i bytesToCopy =>
        (tracedBlocks image inode offset buf iterations i bytesToCopy 0 mem).accesses := by
  rw [tracedRead, if_neg (by omega), if_neg (by omega)]
  rcases settle_cases image inode offset length with fails | ⟨iterations, i, bytesToCopy, loops⟩
  · rw [fails, fails]
  · rw [loops, loops]

section Exact

/-- A request that starts with the file, or that ends inside it. -/
theorem readData_delivers (file : image.FileWellFormed inode) (nonempty : 0 < image.length inode) (target : buf ≠ 0)
    (asked : 1 ≤ length) (word : length < 4294967296) (inside : offset = 0 ∨ offset + length ≤ image.length inode) :
    (readData image inode offset mem buf length).ret = (min length (image.length inode - offset) : Nat) ∧
    (readData image inode offset mem buf length).mem =
      mem.blit buf (fun k => image.content inode (offset + k)) (min length (image.length inode - offset)) := by
  have small := file.lengthFits
  have started : offset < image.length inode := by omega
  have found : inode ≤ image.inodes := Nat.le_of_lt file.inodeExists
  obtain ⟨stored, copied⟩ : ∃ stored, Copied image inode offset buf mem 0 _ stored
      (readData image inode offset mem buf length) :=
    readData_requested found target small started asked word inside
  generalize count : min length (image.length inode - offset) = n at copied ⊢
  obtain ⟨returned, rfl⟩ : (readData image inode offset mem buf length).ret = (0 : Nat) + stored ∧ stored = n := by
    rcases copied.outcome with all | ⟨-, short, invalid⟩
    · exact all
    · have valid := file.blocksExist ((offset + stored) / 4096) (by omega)
      omega
  refine ⟨by rw [returned]; simp, ?_⟩
  rw [copied.memory]
  simp only [Nat.add_zero]

theorem readData_exact (image : Image) (inode offset : Nat) (mem : Memory) (buf length : Nat)
    (file : image.FileWellFormed inode) (nonempty : 0 < image.length inode) (target : buf ≠ 0)
    (asked : 1 ≤ length) (word : length < 4294967296)
    (inside : offset = 0 ∨ offset + length ≤ image.length inode) :
    (readData image inode offset mem buf length).ret = (min length (image.length inode - offset) : Nat) ∧
    (∀ k < min length (image.length inode - offset),
      (readData image inode offset mem buf length).mem (buf + k) = image.content inode (offset + k)) ∧
    (∀ cell, cell < buf ∨ buf + min length (image.length inode - offset) ≤ cell →
      (readData image inode offset mem buf length).mem cell = mem cell) ∧
    (tracedRead image inode offset mem buf length).result = readData image inode offset mem buf length ∧
    ∀ number, .data number ∈ (tracedRead image inode offset mem buf length).accesses →
      ∃ i, offset / 4096 ≤ i ∧ i ≤ (offset + min length (image.length inode - offset) - 1) / 4096 ∧
        number = image.block inode i := by
  have small := file.lengthFits
  have exists' := file.inodeExists
  obtain ⟨returned, stored⟩ := readData_delivers file nonempty target asked word inside
  refine ⟨returned, fun k bound => ?_, fun cell outside => ?_, tracedRead_result, fun number read => ?_⟩
  · rw [stored, Memory.blit_inside bound]
  · rw [stored, Memory.blit_outside outside]
  · rw [tracedRead_accesses (by omega), settle_blocks nonempty (by omega) (by omega) asked word,
      bytesRequested_inside small inside, List.mem_cons] at read
    rcases read with impossible | inLoop
    · cases impossible
    · obtain ⟨j, lower, -, upper, -, taken⟩ := (mem_tracedBlocks place_first (by omega)).mp inLoop
      rcases taken with impossible | ⟨same, -⟩
      · cases impossible
      · exact ⟨j, lower, by omega, Access.data.inj same⟩

/-- One inode with 4098 bytes, the first 4096 of them in data block 1. -/
def twoBlockImage : Image := Image.ofRuns [
  (0, [0, 0, 0, 0, 1, 0, 0, 0, 2]), (4096, [2, 16, 0, 0, 1]), (8192, [7, 8]), (16383, [6])]

theorem twoBlockImage_wellFormed : twoBlockImage.FileWellFormed 0 where
  inodeExists := by decide
  lengthFits := by decide
  blocksExist index occupied := by
    have length : twoBlockImage.length 0 = 4098 := by decide
    have blocks : ∀ index < 2, twoBlockImage.block 0 index < twoBlockImage.datablocks := by decide
    exact blocks index (by omega)

end Exact

section Safety

/-- Every element `read_data` takes lies inside its table, and a check that keeps
it from one that does not makes it return -1. -/
structure SafeRead (image : Image) (inode offset : Nat) (mem : Memory) (buf length : Nat) : Prop where
  inRange : ∀ access ∈ (tracedRead image inode offset mem buf length).accesses, access.InRange image
  refuses : ∀ access, (tracedRead image inode offset mem buf length).refused = some access →
    (readData image inode offset mem buf length).ret = -1

/-- The loop over a file of less than 2 GiB, from the block of `offset` to that
of the last byte requested: no visited index is past the block list, and no
visited number is the number of data blocks itself, which the check lets pass. A
larger number ends the loop. -/
def VisitsInside (image : Image) (inode offset length : Nat) : Prop :=
  ∀ j, offset / 4096 ≤ j → j ≤ image.length inode / 4096 →
    (j = offset / 4096 ∨ 4096 * j < offset + bytesRequested (image.length inode) offset length) →
    (∀ earlier, offset / 4096 ≤ earlier → earlier < j → image.block inode earlier ≤ image.datablocks) →
    j ≤ 1022 ∧ (bytesRequested (image.length inode) offset length = 0 ∨ image.block inode j ≠ image.datablocks)

/-- The length of the single copy from a file whose length is within 4 KiB of
2^32: a negative count is taken for an unsigned one. -/
def wrappedCount (fileLength offset length : Nat) : Nat :=
  if 4096 < offset + length ∧ offset + length < 2147483648 then fileLength - offset
  else if 2147483648 ≤ min length fileLength then min length fileLength
  else min length (4096 - offset)

def CopyInside (image : Image) (inode offset length : Nat) : Prop :=
  image.datablocks < image.block inode 0 ∨
    image.block inode 0 + (offset + wrappedCount (image.length inode) offset length - 1) / 4096 < image.datablocks

/-- When `read_data` stays inside the tables. Inode `boot->inodes` is past the
last one, but passes the check. -/
def ReadsInside (image : Image) (inode offset buf length : Nat) : Prop :=
  buf = 0 ∨ image.inodes < inode ∨ inode < image.inodes ∧
    (length = 0 ∨ image.length inode < offset ∨ image.length inode = 0 ∨
      if image.length inode < 2147483648 then VisitsInside image inode offset length
      else if 4294963200 < image.length inode ∧ offset < 4096 then CopyInside image inode offset length
      else True)

theorem tracedBlocks_nothing {iterations i : Nat} :
    (tracedBlocks image inode offset buf (iterations + 1) i (0 : Nat) 0 mem).accesses = [.entry i] := by
  rw [tracedBlocks]
  generalize initial : (if i = offset / 4096 then offset % 4096 else 0) = within
  have withinBound : within < 4096 := by subst initial; split <;> omega
  have nothing : copyLen (0 : Nat) within = 0 := by rw [copyLen_natCast withinBound]; simp
  simp only [nothing]
  split
  · rfl
  · rfl

theorem tracedBlocks_oneBlock {want : Int} (started : offset < 4096) :
    (tracedBlocks image inode offset buf 1 0 want 0 mem).accesses =
      .entry 0 :: if image.datablocks < image.block inode 0 then []
        else blocksRead (image.block inode 0) offset (u32 (copyLen want offset)) := by
  have first : (if 0 = offset / 4096 then offset % 4096 else 0) = offset := by
    rw [if_pos (by omega), Nat.mod_eq_of_lt started]
  rw [tracedBlocks]
  simp only [first, tracedBlocks, List.append_nil]
  split
  · rfl
  split
  · rfl
  · rfl

theorem wrappedCount_eq {fileLength : Nat} (high : 4294963200 < fileLength) (bound : fileLength < 4294967296)
    (started : offset < 4096) (word : length < 4294967296) :
    u32 (copyLen (if 4096 < offset + length ∧ offset + length < 2147483648 then
        (fileLength : Int) - 4294967296 - offset
      else i32 (min length fileLength : Nat)) offset) = wrappedCount fileLength offset length := by
  unfold wrappedCount
  split
  · have count : copyLen ((fileLength : Int) - 4294967296 - offset) offset =
        (fileLength : Int) - 4294967296 - offset := by
      unfold copyLen
      simp only
      split <;> split <;> omega
    rw [count]
    unfold u32
    omega
  split
  · have signed : i32 (min length fileLength : Nat) = (min length fileLength : Nat) - 4294967296 :=
      i32_of_high (by omega) (by omega)
    have count : copyLen ((min length fileLength : Nat) - 4294967296 : Int) offset =
        (min length fileLength : Nat) - 4294967296 := by
      unfold copyLen
      simp only
      split <;> split <;> omega
    rw [signed, count]
    unfold u32
    omega
  · have signed : i32 (min length fileLength : Nat) = (min length fileLength : Nat) :=
      i32_of_range (by omega) (by omega)
    rw [signed, copyLen_natCast started, u32_of_range (by omega) (by omega)]
    omega

theorem blocksRead_inRange {number within count : Nat} (positive : 0 < count) :
    (∀ access ∈ blocksRead number within count, access.InRange image) ↔
      number + (within + count - 1) / 4096 < image.datablocks := by
  rw [blocksRead, if_neg (by omega)]
  simp only [List.mem_map, List.mem_range, forall_exists_index, and_imp, forall_apply_eq_imp_iff₂, Access.InRange]
  constructor
  · intro inside
    exact inside _ (Nat.lt_succ_self _)
  · intro inside k bound
    omega

theorem visitsInside_iff (started : offset ≤ image.length inode) :
    (∀ access ∈ (tracedBlocks image inode offset buf (image.length inode / 4096 + 1 - offset / 4096) (offset / 4096)
      (bytesRequested (image.length inode) offset length) 0 mem).accesses, access.InRange image) ↔
    VisitsInside image inode offset length := by
  unfold VisitsInside
  generalize bytesRequested (image.length inode) offset length = want
  have quotient : offset / 4096 ≤ image.length inode / 4096 := Nat.div_le_div_right started
  by_cases nothing : want = 0
  · subst nothing
    obtain ⟨iterations, visits⟩ : ∃ iterations, image.length inode / 4096 + 1 - offset / 4096 = iterations + 1 :=
      ⟨image.length inode / 4096 - offset / 4096, by omega⟩
    rw [visits, tracedBlocks_nothing]
    constructor
    · intro inside j lower upper visited _
      obtain rfl : j = offset / 4096 := by omega
      have entry : offset / 4096 ≤ 1022 := inside (.entry (offset / 4096)) (List.mem_singleton_self _)
      exact ⟨entry, .inl rfl⟩
    · intro inside access read
      obtain rfl := List.mem_singleton.mp read
      exact (inside (offset / 4096) (Nat.le_refl _) quotient (.inl rfl) (by intro earlier; omega)).1
  · constructor
    · intro inside j lower upper visited earlier
      have reads : ∀ access : Access, access = .entry j ∨
          access = .data (image.block inode j) ∧ image.block inode j ≤ image.datablocks →
          access.InRange image := fun access taken =>
        inside access ((mem_tracedBlocks place_first (by omega)).mpr ⟨j, lower, by omega, by omega, earlier, taken⟩)
      refine ⟨reads (.entry j) (.inl rfl), .inr fun same => ?_⟩
      have data : image.block inode j < image.datablocks := reads (.data _) (.inr ⟨rfl, by omega⟩)
      omega
    · intro inside access read
      obtain ⟨j, lower, upper, visited, earlier, taken⟩ := (mem_tracedBlocks place_first (by omega)).mp read
      obtain ⟨entry, data⟩ := inside j lower (by omega) (.inr (by omega)) earlier
      rcases taken with rfl | ⟨rfl, valid⟩
      · exact entry
      · have different := data.resolve_left nothing
        exact Nat.lt_of_le_of_ne valid different

theorem copyInside_iff (high : 4294963200 < image.length inode) (started : offset < 4096) (asked : 0 < length)
    (word : length < 4294967296) :
    (∀ access ∈ (tracedBlocks image inode offset buf 1 0
      (if 4096 < offset + length ∧ offset + length < 2147483648 then
        (image.length inode : Int) - 4294967296 - offset
      else i32 (min length (image.length inode) : Nat)) 0 mem).accesses, access.InRange image) ↔
    CopyInside image inode offset length := by
  have bound := length_lt image inode
  have positive : 0 < wrappedCount (image.length inode) offset length := by
    unfold wrappedCount
    split
    · omega
    split <;> omega
  have entry : (Access.entry 0).InRange image := Nat.zero_le _
  rw [tracedBlocks_oneBlock started, wrappedCount_eq high bound started word, CopyInside]
  simp only [List.forall_mem_cons, entry, true_and]
  by_cases invalid : image.datablocks < image.block inode 0
  · simp [invalid]
  · rw [if_neg invalid, blocksRead_inRange positive]
    simp [invalid]

theorem safeRead_iff (image : Image) (inode offset : Nat) (mem : Memory) (buf length : Nat)
    (word : length < 4294967296) :
    SafeRead image inode offset mem buf length ↔ ReadsInside image inode offset buf length := by
  have only : SafeRead image inode offset mem buf length ↔
      ∀ access ∈ (tracedRead image inode offset mem buf length).accesses, access.InRange image :=
    ⟨SafeRead.inRange, fun inside => ⟨inside, fun _ => tracedRead_refused⟩⟩
  rw [only, ReadsInside]
  by_cases refused : image.inodes < inode ∨ buf = 0
  · have nothing : (tracedRead image inode offset mem buf length).accesses = [] := by
      unfold tracedRead
      split
      · rfl
      · rw [if_pos (by omega)]
    rw [nothing]
    exact ⟨fun _ => by omega, fun _ => nofun⟩
  · have inode_inRange : (Access.inode inode).InRange image ↔ inode < image.inodes := Iff.rfl
    rw [tracedRead_accesses refused, List.forall_mem_cons, inode_inRange, or_iff_right (by omega),
      or_iff_right (by omega)]
    refine and_congr Iff.rfl ?_
    by_cases empty : length = 0 ∨ image.length inode < offset ∨ image.length inode = 0
    · rw [settle_refused (by omega)]
      exact ⟨fun _ => by omega, fun _ => nofun⟩
    · rw [or_iff_right (by omega), or_iff_right (by omega), or_iff_right (by omega)]
      split
      · rename_i signedLength
        rw [settle_blocks (by omega) signedLength (by omega) (by omega) word]
        exact visitsInside_iff (by omega)
      split
      · rename_i high
        rw [settle_oneBlock high.1 high.2 (by omega) word]
        exact copyInside_iff high.1 high.2 (by omega) word
      · have high : 2147483648 ≤ image.length inode := by omega
        have started : offset ≤ image.length inode := by omega
        have asked : 0 < length := by omega
        have beyond : image.length inode ≤ 4294963200 ∨ 4096 ≤ offset := by omega
        obtain ⟨bytesToCopy, settled⟩ := settle_negative high started asked beyond
        rw [settled]
        exact ⟨fun _ => trivial, fun _ => nofun⟩

/-- Both blocks of the file exist, and the loop ends before a third one. -/
theorem twoBlockImage_safe : SafeRead twoBlockImage 0 0 (fun _ => 0) 1000 5000 := by
  refine (safeRead_iff twoBlockImage 0 0 (fun _ => 0) 1000 5000 (by decide)).mpr ?_
  have length : twoBlockImage.length 0 = 4098 := by decide
  have blocks : ∀ index < 2, twoBlockImage.block 0 index ≠ twoBlockImage.datablocks := by decide
  refine .inr (.inr ⟨by decide, .inr (.inr (.inr ?_))⟩)
  rw [if_pos (by decide)]
  intro j lower upper _ _
  rw [length] at upper
  exact ⟨by omega, .inr (blocks j (by omega))⟩

/-- An image with one inode: `read_data` takes the record of inode 1, which does
not exist, and returns what it finds there. -/
theorem lastInode_unsafe : ¬∀ (image : Image) (inode offset : Nat) (mem : Memory) (buf length : Nat),
    length < 4294967296 → SafeRead image inode offset mem buf length := by
  intro claim
  have safe := claim twoBlockImage 1 0 (fun _ => 0) 1000 4 (by decide)
  have accepted : ¬(twoBlockImage.inodes < 1 ∨ 1000 = 0) := by decide
  have taken : Access.inode 1 ∈ (tracedRead twoBlockImage 1 0 (fun _ => 0) 1000 4).accesses := by
    rw [tracedRead_accesses accepted]
    exact List.mem_cons_self
  exact absurd (safe.inRange _ taken) (show ¬1 < twoBlockImage.inodes by decide)

end Safety

end BozOS.FileSystem
