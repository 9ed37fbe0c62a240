import BozOS.Processes.DeviceFrame
import BozOS.Descriptors.Table

namespace BozOS

open Data Lib FileSystem

/-! Directory listings. `dread` keeps its position in one variable for all
descriptors, so a listing is right when no other one runs meanwhile. -/

variable {env : Env} {k after : Kernel} {event : Event} {fd nbytes : Int} {mem : Memory} {buf : Nat} {cpu : Cpu}
  {d : Slot × Fin 8}

/-- The directory descriptor an event reads, if `read` gets as far as `dread`. -/
def directoryRead (k : Kernel) : Event → Option (Slot × Fin 8)
  | .read fd _ buf nbytes _ =>
      match callerPcb k, fdOf fd with
      | .ok (some p), some fd =>
          if ¬(buf = 0 ∨ nbytes < 0) ∧ ((k.pcbs p).fdArr fd).inUseFlag ≠ 0 ∧
            ((k.pcbs p).fdArr fd).fotp = some .dir then some (p, fd) else none
      | _, _ => none
  | _ => none

theorem directoryRead_reads (found : directoryRead k (.read fd mem buf nbytes cpu) = some d) :
    Reads k fd buf nbytes d.1 d.2 .dir := by
  unfold directoryRead at found
  simp only at found
  split at found
  · rename_i p entry caller named
    split at found
    · rename_i passed
      cases found
      exact ⟨caller, passed.1, named, passed.2.1, passed.2.2⟩
    · cases found
  · cases found

theorem Reads.directoryRead {p : Slot} {entry : Fin 8} (reads : Reads k fd buf nbytes p entry .dir) :
    directoryRead k (.read fd mem buf nbytes cpu) = some (p, entry) := by
  simp only [BozOS.directoryRead, reads.caller, reads.found, reads.table, and_true]
  exact if_pos ⟨reads.accepted, reads.used⟩

/-- A `read` is a directory read or leaves the listing's position alone. -/
theorem sysRead_listing {result : Int × Memory × Kernel}
    (elsewhere : directoryRead k (.read fd mem buf nbytes cpu) = none)
    (called : sysRead env k fd mem buf nbytes cpu = .ok result) : result.2.2.dreadLoc = k.dreadLoc := by
  rcases sysRead_cases called with rfl | ⟨p, entry, fotp, reads, read⟩
  · rfl
  cases fotp with
  | stdin => exact (terminalRead_frame read).listing
  | stdout => cases read; rfl
  | file => exact (fread_descriptorFrame read).listing
  | dir =>
      rw [reads.directoryRead] at elsewhere
      cases elsewhere
  | rtc =>
      obtain ⟨value, ticked, rfl⟩ := map_ok.mp read
      exact (rtcRead_frame ticked).listing

theorem next_listing (elsewhere : directoryRead k event = none) (step : Steps env k event after) :
    after.dreadLoc = k.dreadLoc := by
  unfold Steps at step
  cases event with
  | read fd mem buf nbytes cpu =>
      obtain ⟨result, called, rfl⟩ := map_ok.mp step
      exact sysRead_listing elsewhere called
  | execute command cpu =>
      obtain ⟨result, called, rfl⟩ := map_ok.mp step
      exact (execute_manageFrame called).device.listing
  | halt status cpu =>
      obtain ⟨result, called, rfl⟩ := map_ok.mp step
      exact (halt_manageFrame called).device.listing
  | tick cpu =>
      obtain ⟨result, called, rfl⟩ := map_ok.mp step
      exact (taskSwitch_manageFrame called).device.listing
  | write fd mem buf nbytes =>
      obtain ⟨result, called, rfl⟩ := map_ok.mp step
      exact (sysWrite_frame called).listing
  | «open» filename =>
      obtain ⟨result, called, rfl⟩ := map_ok.mp step
      exact (sysOpen_descriptorFrame called).listing
  | close fd =>
      obtain ⟨result, called, rfl⟩ := map_ok.mp step
      exact (sysClose_descriptorFrame called).listing
  | getargs mem buf nbytes =>
      obtain ⟨result, -, rfl⟩ := map_ok.mp step
      rfl
  | vidmap mem screenStart => exact Except.ok.inj step ▸ vidmap_frame.listing
  | setHandler => exact Except.ok.inj step ▸ setHandler_screenFrame.process.listing
  | sigreturn => exact Except.ok.inj step ▸ sigreturn_screenFrame.process.listing
  | key scanCode => exact Except.ok.inj step ▸ kbIntHandler_frame.listing
  | rtc => exact Except.ok.inj step ▸ rtcHandler_frame.listing

section Names

variable {image : Image} {index : Nat} {stack : Memory}

/-- The name of an entry: at most 32 bytes, up to its NUL. -/
def entryName (image : Image) (index : Nat) : List UInt8 :=
  (image.dentries index).fileName.window 0 (strlen (image.dentries index).fileName 32)

/-- What the reads of one complete listing return and store: every name with its
length, then 0. -/
def listing (image : Image) : List (Int × List UInt8) :=
  (List.range image.dirEntries).map (fun index => (((entryName image index).length : Int), entryName image index)) ++
    [(0, [])]

def delivery (buf : Nat) (result : Int × Memory × Kernel) : Int × List UInt8 :=
  (result.1, result.2.1.window buf result.1.toNat)

theorem strlen_positive {name : Memory} {limit : Nat} (named : name 0 ≠ 0) (room : 0 < limit) :
    0 < strlen name limit := by
  by_contra empty
  have zero : strlen name limit = 0 := by omega
  have ended : name (strlen name limit) = 0 := strlen_terminated (by omega)
  rw [zero] at ended
  exact named ended

theorem tempDentry_eq (stack : Memory) (inTable : index ≤ 62) (named : (image.dentries index).fileName 0 ≠ 0) :
    (∀ i < 32, tempDentry image stack index i = (image.dentries index).fileName i) ∧
      tempDentry image stack index 32 = 0 := by
  have found : readDentryByIndex image index = some ⟨(image.dentries index).bytes.store 32 0⟩ := by
    rw [readDentryByIndex, if_neg (by omega), if_pos (strlen_positive named (by decide))]
  simp only [tempDentry, found]
  constructor
  · intro i bound
    rw [Memory.blit_at (by omega) (by omega), Memory.store_other (by omega)]
    rfl
  · rw [Memory.blit_at (by omega) (by omega)]
    exact Memory.store_same

theorem strlen_tempDentry (stack : Memory) (inTable : index ≤ 62)
    (named : (image.dentries index).fileName 0 ≠ 0) {limit : Nat} (room : 32 ≤ limit) :
    strlen (tempDentry image stack index) limit = strlen (image.dentries index).fileName 32 := by
  obtain ⟨copied, terminated⟩ := tempDentry_eq stack inTable named
  have bound := strlen_le (image.dentries index).fileName 32
  have same : ∀ i < strlen (image.dentries index).fileName 32, tempDentry image stack index i ≠ 0 := by
    intro i before
    rw [copied i (by omega)]
    exact strlen_nonzero before
  by_cases short : strlen (image.dentries index).fileName 32 < 32
  · refine strlen_eq (by omega) same ?_
    rw [copied _ short]
    exact strlen_terminated short
  · have full : strlen (image.dentries index).fileName 32 = 32 := by omega
    rw [full] at same ⊢
    by_cases exactLimit : limit = 32
    · rw [exactLimit]
      exact strlen_eq_limit same
    · exact strlen_eq (by omega) same terminated

theorem dread_name (mem : Memory) (buf : Nat) (cpu : Cpu) (small : image.dirEntries ≤ 63)
    (position : k.dreadLoc < image.dirEntries) (atImage : env.image = image)
    (named : (image.dentries k.dreadLoc).fileName 0 ≠ 0) :
    delivery buf (dread env k mem buf cpu) =
        (((entryName image k.dreadLoc).length : Int), entryName image k.dreadLoc) ∧
      (dread env k mem buf cpu).2.2.dreadLoc = k.dreadLoc + 1 ∧ (dread env k mem buf cpu).1 ≠ 0 := by
  subst atImage
  have next : (k.dreadLoc + 1) % 4294967296 = k.dreadLoc + 1 := by omega
  have length := strlen_tempDentry cpu.stack (by omega) named (show 32 ≤ addressSpace by decide)
  have copyLength := strlen_tempDentry cpu.stack (by omega) named (Nat.le_refl 32)
  have bound := strlen_le (env.image.dentries k.dreadLoc).fileName 32
  have positive := strlen_positive named (show 0 < 32 by decide)
  have copied := (tempDentry_eq cpu.stack (by omega) named).1
  have returned : i32 (strlen (tempDentry env.image cpu.stack k.dreadLoc) addressSpace) =
      strlen (env.image.dentries k.dreadLoc).fileName 32 := by
    rw [length, i32_of_range (by omega) (by omega)]
  simp only [dread, next, if_neg (Nat.not_lt.mpr position), returned]
  refine ⟨?_, trivial, by omega⟩
  rw [delivery, entryName, Memory.window_length]
  refine Prod.ext rfl ?_
  simp only [Int.toNat_natCast, Memory.window]
  refine List.map_congr_left fun i member => ?_
  have inside := List.mem_range.mp member
  rw [strncpy_inside (by rw [copyLength]; exact inside), copied i (by omega), Nat.zero_add]

theorem dread_end (mem : Memory) (buf : Nat) (cpu : Cpu) (last : k.dreadLoc = env.image.dirEntries)
    (small : env.image.dirEntries ≤ 63) :
    delivery buf (dread env k mem buf cpu) = (0, []) ∧ (dread env k mem buf cpu).2.2.dreadLoc = 0 ∧
      (dread env k mem buf cpu).1 = 0 := by
  have beyond : (k.dreadLoc + 1) % 4294967296 > env.image.dirEntries := by omega
  simp only [dread, if_pos beyond]
  exact ⟨rfl, trivial, trivial⟩

end Names

/-- The directory reads of a run: what each descriptor got since it was opened,
which one was read last, and whether that read ended its listing. -/
structure History where
  delivered : Slot × Fin 8 → List (Int × List UInt8)
  last : Option (Slot × Fin 8)
  finished : Bool

def History.empty : History := ⟨fun _ => [], none, true⟩

def History.record (h : History) (env : Env) (k : Kernel) (event : Event) : History :=
  match event, directoryRead k event with
  | .read fd mem buf nbytes cpu, some d =>
      match sysRead env k fd mem buf nbytes cpu with
      | .ok result =>
          { delivered := Function.update h.delivered d (h.delivered d ++ [delivery buf result])
            last := some d
            finished := result.1 = 0 }
      | .error _ => h
  | .open filename, _ =>
      match callerPcb k, sysOpen env k filename with
      | .ok (some p), .ok (ret, _) =>
          match fdOf ret with
          | some fd => { h with delivered := Function.update h.delivered (p, fd) [] }
          | none => h
      | _, _ => h
  | _, _ => h

/-- A descriptor may be read next: its listing has not begun and no other one is
unfinished, or its own is the unfinished one. -/
def History.Serial (h : History) (d : Slot × Fin 8) : Prop :=
  (h.delivered d = [] ∧ h.finished = true) ∨
    (h.delivered d ≠ [] ∧ h.last = some d ∧ h.finished = false)

def ListingSteps (env : Env) (state : Kernel × History) (event : Event) (after : Kernel × History) : Prop :=
  Steps env state.1 event after.1 ∧ after.2 = state.2.record env state.1 event

def SerialSteps (env : Env) (state : Kernel × History) (event : Event) (after : Kernel × History) : Prop :=
  ListingSteps env state event after ∧ ∀ d, directoryRead state.1 event = some d → state.2.Serial d

/-- Along serial listings the one variable is the position of the unfinished
listing. -/
structure ListingInv (env : Env) (state : Kernel × History) : Prop where
  delivered : ∀ d, state.2.delivered d <+: listing env.image
  idle : state.2.finished = true → state.1.dreadLoc = 0
  position : state.2.finished = false → state.1.dreadLoc ≤ env.image.dirEntries ∧
    ∀ d, state.2.last = some d → state.2.delivered d ≠ [] → (state.2.delivered d).length = state.1.dreadLoc

section Steps

variable {h : History} {state next : Kernel × History}

theorem record_elsewhere (h : History) (env : Env) (elsewhere : directoryRead k event = none) :
    (h.record env k event).last = h.last ∧ (h.record env k event).finished = h.finished ∧
      ∀ d, (h.record env k event).delivered d = h.delivered d ∨ (h.record env k event).delivered d = [] := by
  have same : ∀ d, h.delivered d = h.delivered d ∨ h.delivered d = [] := fun _ => .inl rfl
  unfold History.record
  rw [elsewhere]
  split
  · contradiction
  · split
    · split
      · rename_i fd _
        refine ⟨rfl, rfl, fun d => ?_⟩
        rename_i p _ _ _ _ _ _
        by_cases opened : d = (p, fd)
        · exact .inr (by rw [opened]; exact Function.update_self ..)
        · exact .inl (Function.update_of_ne opened ..)
      · exact ⟨rfl, rfl, same⟩
    · exact ⟨rfl, rfl, same⟩
  · exact ⟨rfl, rfl, same⟩

theorem record_directory (found : directoryRead k (.read fd mem buf nbytes cpu) = some d) :
    h.record env k (.read fd mem buf nbytes cpu) =
      { delivered := Function.update h.delivered d (h.delivered d ++ [delivery buf (dread env k mem buf cpu)])
        last := some d
        finished := (dread env k mem buf cpu).1 = 0 } := by
  simp only [History.record, found, (directoryRead_reads found).sysRead_eq, readOp]

theorem listing_name {image : Image} {index : Nat} (inside : index < image.dirEntries) :
    (listing image)[index]? = some (((entryName image index).length : Int), entryName image index) := by
  rw [listing, List.getElem?_append_left (by simpa using inside)]
  simp [inside]

theorem listing_end (image : Image) : (listing image)[image.dirEntries]? = some (0, []) := by
  rw [listing, List.getElem?_append_right (by simp)]
  simp

theorem snoc_isPrefix {α : Type} {front whole : List α} {item : α} (before : front <+: whole)
    (next : whole[front.length]? = some item) : front ++ [item] <+: whole := by
  obtain ⟨rest, rfl⟩ := before
  rw [List.getElem?_append_right (Nat.le_refl _), Nat.sub_self] at next
  cases rest with
  | nil => cases next
  | cons first rest =>
      cases next
      exact ⟨rest, by simp⟩

theorem ListingInv.at_position (inv : ListingInv env state) (serial : state.2.Serial d) :
    (state.2.delivered d).length = state.1.dreadLoc ∧ state.1.dreadLoc ≤ env.image.dirEntries := by
  rcases serial with ⟨fresh, finished⟩ | ⟨begun, last, unfinished⟩
  · rw [fresh, inv.idle finished]
    exact ⟨rfl, Nat.zero_le _⟩
  · obtain ⟨bound, position⟩ := inv.position unfinished
    exact ⟨position d last begun, bound⟩

theorem dread_delivers (mem : Memory) (buf : Nat) (cpu : Cpu) (small : env.image.dirEntries ≤ 63)
    (named : ∀ index < env.image.dirEntries, (env.image.dentries index).fileName 0 ≠ 0)
    (bound : k.dreadLoc ≤ env.image.dirEntries) :
    (listing env.image)[k.dreadLoc]? = some (delivery buf (dread env k mem buf cpu)) ∧
      (((dread env k mem buf cpu).1 = 0 ∧ (dread env k mem buf cpu).2.2.dreadLoc = 0) ∨
        ((dread env k mem buf cpu).1 ≠ 0 ∧ k.dreadLoc < env.image.dirEntries ∧
          (dread env k mem buf cpu).2.2.dreadLoc = k.dreadLoc + 1)) := by
  by_cases inside : k.dreadLoc < env.image.dirEntries
  · obtain ⟨item, moved, nonzero⟩ := dread_name mem buf cpu small inside rfl (named k.dreadLoc inside)
    exact ⟨by rw [item, listing_name inside], .inr ⟨nonzero, inside, moved⟩⟩
  · have last : k.dreadLoc = env.image.dirEntries := by omega
    obtain ⟨item, moved, zero⟩ := dread_end mem buf cpu last small
    exact ⟨by rw [item, last, listing_end], .inl ⟨zero, moved⟩⟩

theorem ListingInv.elsewhere (inv : ListingInv env state) (found : directoryRead state.1 event = none)
    (stepped : Steps env state.1 event next.1) (recorded : next.2 = state.2.record env state.1 event) :
    ListingInv env next := by
  have kept := next_listing found stepped
  obtain ⟨last, finished, delivered⟩ := record_elsewhere state.2 env found
  rw [← recorded] at last finished delivered
  refine ⟨fun d => ?_, fun idle => ?_, fun unfinished => ?_⟩
  · rcases delivered d with same | reset
    · rw [same]
      exact inv.delivered d
    · rw [reset]
      exact List.nil_prefix
  · rw [kept]
    exact inv.idle (finished ▸ idle)
  · obtain ⟨bound, position⟩ := inv.position (finished ▸ unfinished)
    rw [kept]
    refine ⟨bound, fun d lastRead nonempty => ?_⟩
    rcases delivered d with same | reset
    · rw [same] at nonempty ⊢
      exact position d (last ▸ lastRead) nonempty
    · exact absurd reset nonempty

theorem ListingInv.directory (inv : ListingInv env state) (small : env.image.dirEntries ≤ 63)
    (named : ∀ index < env.image.dirEntries, (env.image.dentries index).fileName 0 ≠ 0)
    (found : directoryRead state.1 (.read fd mem buf nbytes cpu) = some d) (serial : state.2.Serial d)
    (stepped : Steps env state.1 (.read fd mem buf nbytes cpu) next.1)
    (recorded : next.2 = state.2.record env state.1 (.read fd mem buf nbytes cpu)) : ListingInv env next := by
  obtain ⟨position, bound⟩ := inv.at_position serial
  have moved : next.1.dreadLoc = (dread env state.1 mem buf cpu).2.2.dreadLoc := by
    obtain ⟨result, called, ended⟩ := map_ok.mp stepped
    rw [(directoryRead_reads found).sysRead_eq] at called
    cases called
    rw [← ended]
  rw [record_directory found] at recorded
  obtain ⟨item, outcome⟩ := dread_delivers mem buf cpu small named bound
  have grown : next.2.delivered d = state.2.delivered d ++ [delivery buf (dread env state.1 mem buf cpu)] := by
    rw [recorded]
    exact Function.update_self ..
  refine ⟨fun other => ?_, fun idle => ?_, fun unfinished => ?_⟩
  · by_cases same : other = d
    · rw [same, grown]
      exact snoc_isPrefix (inv.delivered d) (by rw [position, item])
    · rw [recorded]
      simp only [Function.update_of_ne same]
      exact inv.delivered other
  · rw [recorded] at idle
    rcases outcome with ⟨-, reset⟩ | ⟨nonzero, -⟩
    · rw [moved, reset]
    · simp [nonzero] at idle
  · rw [recorded] at unfinished
    rcases outcome with ⟨zero, -⟩ | ⟨-, inside, advanced⟩
    · simp [zero] at unfinished
    · rw [moved, advanced]
      refine ⟨inside, fun other lastRead _ => ?_⟩
      rw [recorded] at lastRead
      cases lastRead
      rw [grown, List.length_append, position]
      rfl

theorem ListingInv.step (inv : ListingInv env state) (small : env.image.dirEntries ≤ 63)
    (named : ∀ index < env.image.dirEntries, (env.image.dentries index).fileName 0 ≠ 0)
    (step : SerialSteps env state event next) : ListingInv env next := by
  obtain ⟨⟨stepped, recorded⟩, serial⟩ := step
  cases found : directoryRead state.1 event with
  | none => exact inv.elsewhere found stepped recorded
  | some d =>
      cases event with
      | read fd mem buf nbytes cpu => exact inv.directory small named found (serial d found) stepped recorded
      | _ => cases found

end Steps

theorem serial_listings (env : Env) (start : Kernel) (events : List Event) (last : Kernel × History)
    (small : env.image.dirEntries ≤ 63)
    (named : ∀ index < env.image.dirEntries, (env.image.dentries index).fileName 0 ≠ 0)
    (fresh : start.dreadLoc = 0) (run : Run (SerialSteps env) (start, .empty) events last) :
    ∀ d, last.2.delivered d <+: listing env.image := by
  have inv : ListingInv env last := Run.invariant (ListingInv env) run
    (fun step inv => inv.step small named step)
    ⟨fun d => List.nil_prefix, fun _ => fresh, fun unfinished => by cases unfinished⟩
  exact inv.delivered

def dirImage : Image := Image.ofRuns [
  (0, [2, 0, 0, 0, 1, 0, 0, 0, 1]),
  (64, literal "."), (96, [1]), (128, literal "shell"), (160, [2]),
  (4096, [28]),
  (8192, [0x7F, 0x45, 0x4C, 0x46]), (8216, [0x18, 0x80, 0x04, 0x08])]

def dirEnv : Env := ⟨dirImage, fun _ => 0, 0⟩

def dirName : Memory := fun index => (literal ".").getD index 0

def readDir (fd : Int) : Event := .read fd (fun _ => 0) 0x8048000 32 .reset

def dirShell : Kernel :=
  stateAfter dirEnv (multiTermInit .loaded) [.execute shellCommand .reset, .open dirName]

/-- The state and the history behind one more read of the directory. -/
def readOn (state : Kernel × History) : Kernel × History :=
  (stateAfter dirEnv state.1 [readDir 2], state.2.record dirEnv state.1 (readDir 2))

/-- Both names and the end of the directory, read by one process in a row. -/
theorem dirShell_listing :
    ∃ last, Run (SerialSteps dirEnv) (dirShell, .empty) [readDir 2, readDir 2, readDir 2] last ∧
      last.2.delivered (0, 2) = listing dirImage ∧ last.2.delivered (0, 2) <+: listing dirImage := by
  have first : SerialSteps dirEnv (dirShell, .empty) (readDir 2) (readOn (dirShell, .empty)) :=
    ⟨⟨rfl, rfl⟩, fun d _ => .inl ⟨rfl, rfl⟩⟩
  have second : SerialSteps dirEnv (readOn (dirShell, .empty)) (readDir 2) (readOn (readOn (dirShell, .empty))) := by
    refine ⟨⟨rfl, rfl⟩, fun d found => .inr ?_⟩
    obtain rfl : ((0, 2) : Slot × Fin 8) = d := Option.some.inj found
    exact ⟨by decide, by decide, by decide⟩
  have third : SerialSteps dirEnv (readOn (readOn (dirShell, .empty))) (readDir 2)
      (readOn (readOn (readOn (dirShell, .empty)))) := by
    refine ⟨⟨rfl, rfl⟩, fun d found => .inr ?_⟩
    obtain rfl : ((0, 2) : Slot × Fin 8) = d := Option.some.inj found
    exact ⟨by decide, by decide, by decide⟩
  have run := Run.cons first (.cons second (.cons third .nil))
  exact ⟨_, run, by decide, serial_listings dirEnv dirShell _ _ (by decide) (by decide) rfl run (0, 2)⟩

def History.replay (env : Env) : Kernel → History → List Event → History
  | _, h, [] => h
  | k, h, event :: rest =>
      match next env k event with
      | .ok after => replay env after (h.record env k event) rest
      | .error _ => h

theorem replay_run {events : List Event} {h : History} (ran : runEvents env k events = .ok after) :
    Run (ListingSteps env) (k, h) events (after, h.replay env k events) := by
  induction events generalizing k h with
  | nil =>
      cases ran
      exact .nil
  | cons event rest ih =>
      obtain ⟨middle, step, ran⟩ := bind_ok.mp ran
      have listed : ListingSteps env (k, h) event (middle, h.record env k event) := ⟨step, rfl⟩
      refine .cons listed ?_
      simp only [History.replay, step]
      exact ih ran

def twoReaders : List Event :=
  [.execute shellCommand .reset, .open dirName, .open dirName, readDir 2, readDir 3]

/-- The second descriptor's first read delivers the second name. -/
theorem interleaved_listing_skips :
    ¬∀ (env : Env) (boot : Kernel) (events : List Event) (last : Kernel × History),
      env.image.dirEntries ≤ 63 →
      (∀ index < env.image.dirEntries, (env.image.dentries index).fileName 0 ≠ 0) → boot.dreadLoc = 0 →
      Run (ListingSteps env) (multiTermInit boot, .empty) events last →
      ∀ d, last.2.delivered d <+: listing env.image := by
  intro claim
  have ends : (runEvents dirEnv (multiTermInit .loaded) twoReaders).isOk = true := by decide
  cases ran : runEvents dirEnv (multiTermInit .loaded) twoReaders with
  | error stop =>
      rw [ran] at ends
      cases ends
  | ok after =>
      have skipped : ¬(History.empty.replay dirEnv (multiTermInit .loaded) twoReaders).delivered (0, 3) <+:
          listing dirImage := by decide
      exact skipped (claim dirEnv .loaded twoReaders _ (by decide) (by decide) rfl (replay_run ran) (0, 3))

end BozOS
