import BozOS.Processes.AddressSpace
import BozOS.Processes.DeviceFrame
import BozOS.Processes.Integrity
import BozOS.Processes.Sparing

namespace BozOS

open Data Lib FileSystem

/-! The address space over whole runs of the kernel and the stores of the programs
between its events: which entries an event may change, and whose memory a program
can reach. What `read` and `getargs` store for a program goes to the buffer it names,
in the kernel's page as well, so that the callers have to spare that page. -/

variable {env : Env} {layout : Layout env} {k middle after : Kernel} {cpu : Cpu}

/-- A step that leaves the tables and the user pages alone. -/
structure SpaceFrame (before after : Kernel) : Prop where
  directory : after.pageDirectory = before.pageDirectory
  ptable : after.vidmapPtable = before.vidmapPtable
  pages : after.userPages = before.userPages

section Plain

variable {fd : Int} {mem : Memory} {buf : Nat} {nbytes : Int}

theorem SpaceFrame.refl : SpaceFrame k k := ⟨rfl, rfl, rfl⟩

theorem SpaceFrame.trans (first : SpaceFrame k middle) (second : SpaceFrame middle after) : SpaceFrame k after :=
  ⟨second.directory.trans first.directory, second.ptable.trans first.ptable, second.pages.trans first.pages⟩

theorem ScreenFrame.space (frame : ScreenFrame k after) : SpaceFrame k after := by
  obtain ⟨_, _, _, _, rfl⟩ := frame
  exact ⟨rfl, rfl, rfl⟩

theorem OutputFrame.space (frame : OutputFrame k after) : SpaceFrame k after := by
  obtain ⟨regA, frame⟩ := frame
  exact ⟨frame.space.directory, frame.space.ptable, frame.space.pages⟩

theorem DescriptorFrame.space (frame : DescriptorFrame k after) : SpaceFrame k after := by
  cases frame with
  | kept frame => exact frame.space
  | set frame _ => exact ⟨frame.space.directory, frame.space.ptable, frame.space.pages⟩

theorem sysRead_space {result : Int × Memory × Kernel} (called : sysRead env k fd mem buf nbytes cpu = .ok result) :
    SpaceFrame k result.2.2 := by
  rcases sysRead_cases called with rfl | ⟨p, entry, fotp, -, read⟩
  · exact .refl
  cases fotp with
  | stdin =>
      simp only [readOp, terminalRead] at read
      split at read
      · cases read
        exact .refl
      split at read
      · cases read
      · obtain ⟨source, -, returned⟩ := bind_ok.mp read
        cases returned
        exact ⟨rfl, rfl, rfl⟩
  | stdout =>
      cases read
      exact .refl
  | file => exact (fread_descriptorFrame read).space
  | dir =>
      cases read
      obtain ⟨cursor, moved⟩ := dread_kernel env k mem buf cpu
      rw [moved]
      exact ⟨rfl, rfl, rfl⟩
  | rtc =>
      obtain ⟨value, waited, rfl⟩ := map_ok.mp read
      unfold rtcRead at waited
      split at waited
      · cases waited
      · cases waited
        exact ⟨rfl, rfl, rfl⟩

theorem handleKey_space {c : UInt8} : SpaceFrame k (handleKey k c) := by
  have typed : ∀ {buffer : Memory}, SpaceFrame k { k with kbBuf := buffer } := ⟨rfl, rfl, rfl⟩
  unfold handleKey
  split
  · exact typed.trans delCharFromBuf_screenFrame.space
  split
  · have copied : ∀ {k : Kernel}, SpaceFrame k (copyKbBuf k) := ⟨rfl, rfl, rfl⟩
    exact (typed.trans addCharToBuf_screenFrame.space).trans copied
  split
  · exact typed.trans addCharToBuf_screenFrame.space
  · exact .refl

/-- A change of terminals is the only key that touches the tables. -/
theorem kbIntHandler_space (k : Kernel) (scanCode : UInt8) :
    (kbIntHandler k scanCode).pageDirectory = k.pageDirectory ∧ (kbIntHandler k scanCode).userPages = k.userPages ∧
    ((kbIntHandler k scanCode).vidmapPtable = k.vidmapPtable ∨
      ∃ shown, (kbIntHandler k scanCode).vidmapPtable = mapVideoPages k.vidmapPtable shown) := by
  have scanned : ∀ {result : Nat × Kernel}, Scanned k scanCode result → result.2.pageDirectory = k.pageDirectory ∧
      result.2.userPages = k.userPages ∧ (result.2.vidmapPtable = k.vidmapPtable ∨
        ∃ shown, result.2.vidmapPtable = mapVideoPages k.vidmapPtable shown) := by
    intro result scanned
    cases scanned with
    | modifier keyStatus => exact ⟨rfl, rfl, .inl rfl⟩
    | clear pressed =>
        have frame := (clearScreen_screenFrame (k := k)).space
        exact ⟨frame.directory, frame.pages, .inl frame.ptable⟩
    | switch t =>
        unfold switchTerminal
        split
        · split
          · exact ⟨rfl, rfl, .inl rfl⟩
          · exact ⟨rfl, rfl, .inr ⟨_, rfl⟩⟩
        · exact ⟨rfl, rfl, .inl rfl⟩
    | enter pressed => exact ⟨rfl, rfl, .inl rfl⟩
    | character other => exact ⟨rfl, rfl, .inl rfl⟩
  rw [kbIntHandler]
  obtain ⟨directory, pages, ptable⟩ := scanned (getScanCode_scanned k scanCode)
  have handled := handleKey_space (k := (getScanCode k scanCode).2) (c := keyOf (getScanCode k scanCode).1)
  exact ⟨handled.directory.trans directory, handled.pages.trans pages, handled.ptable ▸ ptable⟩

end Plain

section Manage

/-- Only the entry of the program at 128 MiB may change. -/
structure WindowFrame (before after : Kernel) : Prop where
  elsewhere : ∀ i, i ≠ 32 → after.pageDirectory i = before.pageDirectory i
  ptable : after.vidmapPtable = before.vidmapPtable

theorem WindowFrame.refl : WindowFrame k k := ⟨fun _ _ => rfl, rfl⟩

theorem WindowFrame.trans (first : WindowFrame k middle) (second : WindowFrame middle after) : WindowFrame k after :=
  ⟨fun i other => (second.elsewhere i other).trans (first.elsewhere i other), second.ptable.trans first.ptable⟩

theorem mapUserPage_window {page : Nat} : WindowFrame k (mapUserPage k page) :=
  ⟨fun _ other => Function.update_of_ne other .., rfl⟩

/-- `execute` maps the page of the slot it takes, and loads no other. -/
theorem execute_space {command : Memory} {result : Executed} (called : execute env k command cpu = .ok result) :
    WindowFrame k result.kernel ∧
    (result.kernel.pageDirectory 32 = k.pageDirectory 32 ∨
      ∃ p, result.kernel.pageDirectory 32 = userPage p ||| 0x87) ∧
    ∀ q, freeSlot k ≠ some q → result.kernel.userPages q = k.userPages q := by
  obtain ⟨parsed, parses, called⟩ := bind_ok.mp called
  split at called
  · cases called
    exact ⟨.refl, .inl rfl, fun _ _ => rfl⟩
  · obtain ⟨⟨slot, linked⟩, added, continued⟩ := bind_ok.mp called
    rcases addPCB_cases added with ⟨rfl, unchanged⟩ | ⟨p, free, rfl, links⟩
    · rw [unchanged] at continued
      obtain ⟨message, returned⟩ : ∃ message, result = .returned 256 (puts k message) :=
        ⟨_, (Except.ok.inj continued).symm⟩
      rw [returned]
      have frame : SpaceFrame k (puts k message) := puts_screenFrame.space
      exact ⟨⟨fun i _ => congrFun frame.directory i, frame.ptable⟩, .inl (congrFun frame.directory 32),
        fun q _ => congrFun frame.pages q⟩
    · have kept : linked.pageDirectory = k.pageDirectory ∧ linked.vidmapPtable = k.vidmapPtable ∧
          linked.userPages = k.userPages := by
        cases links with
        | first empty => exact ⟨rfl, rfl, rfl⟩
        | behind nonempty => exact ⟨rfl, rfl, rfl⟩
      have window : WindowFrame k (mapUserPage linked (userPage p)) :=
        WindowFrame.trans ⟨fun i _ => congrFun kept.1 i, kept.2.1⟩ mapUserPage_window
      have mapped : (mapUserPage linked (userPage p)).pageDirectory 32 = userPage p ||| 0x87 := mapUserPage_page
      have pages : ∀ load q, freeSlot k ≠ some q → Function.update linked.userPages p load q = k.userPages q := by
        intro load q other
        rw [Function.update_of_ne (fun same => other (by rw [free, same])), kept.2.2]
      simp only [loadAndLaunch] at continued
      split at continued
      · cases continued
      split at continued
      · obtain rfl := (Except.ok.inj continued).symm
        exact ⟨⟨window.elsewhere, window.ptable⟩, .inr ⟨p, mapped⟩, pages _⟩
      · obtain rfl := (Except.ok.inj continued).symm
        exact ⟨⟨window.elsewhere, window.ptable⟩, .inr ⟨p, mapped⟩, pages _⟩

variable {pool : Stacks TermId Slot} {p q self : Slot}

theorem Represents.page_userPage (represents : Represents k pool) (listed : pool.Listed p) :
    (k.pcbs p).selfPage = userPage p := (represents.identity p listed).2.1

theorem Represents.taken (represents : Represents k pool) (listed : pool.Listed q) : freeSlot k ≠ some q :=
  fun found => represents.freeSlot_some found listed

/-- A switch maps the page of the incoming process, or starts one in a free slot. -/
theorem taskSwitch_space (represents : Represents k pool) {result : Switched}
    (called : taskSwitch env k cpu = .ok result) :
    WindowFrame k result.kernel ∧
    (result.kernel.pageDirectory 32 = k.pageDirectory 32 ∨
      ∃ p, result.kernel.pageDirectory 32 = userPage p ||| 0x87) ∧
    ∀ q, pool.Listed q → result.kernel.userPages q = k.userPages q := by
  obtain ⟨incoming, found, called⟩ := bind_ok.mp called
  obtain ⟨outgoing, -, called⟩ := bind_ok.mp called
  cases outgoing with
  | none =>
      cases called
      exact ⟨.refl, .inl rfl, fun _ _ => rfl⟩
  | some outgoing =>
      simp only [setActiveTask_eq] at called
      cases incoming with
      | none =>
          obtain ⟨executed, started, called⟩ := bind_ok.mp called
          obtain ⟨window, mapped, pages⟩ := execute_space started
          have kernel : result.kernel = executed.kernel := by
            cases executed with
            | returned ret after => cases called; rfl
            | launched entryPt after => cases called; rfl
          rw [kernel]
          exact ⟨⟨window.elsewhere, window.ptable⟩, mapped, fun q listed => pages q (represents.taken listed)⟩
      | some incoming =>
          have topmost : pool.top (k.activeTask + 1) = some incoming :=
            Except.ok.inj ((represents.getPCBTail_eq _).symm.trans found)
          have page := represents.page_userPage (Stacks.listed_of_top topmost)
          cases called
          refine ⟨⟨fun i other => Function.update_of_ne other .., rfl⟩, .inr ⟨incoming, ?_⟩, fun _ _ => rfl⟩
          rw [← page]
          exact (mapUserPage_page : (mapUserPage k (k.pcbs incoming).selfPage).pageDirectory 32 = _)

theorem returnToParent_space {head : Option Slot} {status : Nat} {result : Halted}
    (called : returnToParent k head self status = .ok result) :
    WindowFrame k result.kernel ∧ result.kernel.userPages = k.userPages := by
  unfold returnToParent at called
  split at called
  · cases called
  · cases called
  · cases called
    exact ⟨⟨fun i other => Function.update_of_ne other .., rfl⟩, rfl⟩

theorem halt_space (represents : Represents k pool) {status : Nat} {result : Halted}
    (called : halt env k status cpu = .ok result) :
    WindowFrame k result.kernel ∧
    ∀ q, pool.Listed q → pool.top k.activeTask ≠ some q → result.kernel.userPages q = k.userPages q := by
  obtain ⟨tail, found, called⟩ := bind_ok.mp called
  rw [represents.getPCBTail_eq] at found
  cases tail with
  | none => cases called
  | some self =>
      have topmost : pool.top k.activeTask = some self := Except.ok.inj found
      have own := (represents.identity self (Stacks.listed_of_top topmost)).1
      simp only [unsetProcessUsage_own own] at called
      have kept : ∀ q, pool.Listed q → pool.top k.activeTask ≠ some q →
          freeSlot (resetPcbHead (k.release self) (k.release self).activeTask) ≠ some q := by
        intro q listed other free
        have unused := freeSlot_unused free
        have different : q ≠ self := fun same => other (same ▸ topmost)
        have used : (k.release self).processUsage q = .inUse :=
          (Function.update_of_ne different ..).trans ((represents.usage q).mpr listed)
        cases used.symm.trans unused
      simp only [bind, Except.bind] at called
      split at called
      · obtain ⟨executed, started, called⟩ := bind_ok.mp called
        obtain ⟨window, -, pages⟩ := execute_space started
        cases executed with
        | launched entryPt after =>
            cases called
            exact ⟨⟨window.elsewhere, window.ptable⟩, fun q listed other => pages q (kept q listed other)⟩
        | returned ret after =>
            obtain ⟨parent, same⟩ := returnToParent_space called
            exact ⟨WindowFrame.trans ⟨window.elsewhere, window.ptable⟩ parent,
              fun q listed other => (congrFun same q).trans (pages q (kept q listed other))⟩
      · obtain ⟨parent, same⟩ := returnToParent_space called
        exact ⟨⟨parent.elsewhere, parent.ptable⟩, fun q _ _ => congrFun same q⟩

/-- A `halt` leaves the parent mapped, or the new base shell. -/
theorem halt_mapped (represents : Represents k pool) (loadable : Loadable env) {status : Nat} {result : Halted}
    (called : halt env k status cpu = .ok result) : ∃ p, result.kernel.pageDirectory 32 = userPage p ||| 0x87 := by
  cases topmost : pool.top k.activeTask with
  | none =>
      simp only [halt, represents.getPCBTail_eq, topmost, bind, Except.bind] at called
      cases called
  | some self =>
      rcases halt_ends represents loadable topmost with
        ⟨front, parent, ret, esp, ebp, after, stacked, ended, effect⟩ |
        ⟨alone, p, fresh, entryPt, after, ended, effect⟩
      · obtain rfl := Except.ok.inj (called.symm.trans ended)
        have running : (pool.pop k.activeTask).top after.activeTask = some parent := by
          rw [effect.task, Stacks.top, Stacks.stack_pop_self, stacked]
          simp
        exact ⟨parent, (effect.represents.running parent running).1⟩
      · obtain rfl := Except.ok.inj (called.symm.trans ended)
        refine ⟨p, (effect.represents.running p ?_).1⟩
        rw [effect.task]
        change ((pool.pop k.activeTask).push k.activeTask p fresh).top k.activeTask = some p
        rw [Stacks.top, Stacks.stack_push_self, List.getLast?_concat]

end Manage

section Steps

variable {pool pool' : Stacks TermId Slot} {p q : Slot} {space : Space} {event : Event}

theorem Maps.congr (maps : Maps layout k space) (directory : after.pageDirectory = k.pageDirectory)
    (ptable : after.vidmapPtable = k.vidmapPtable) : Maps layout after space where
  low := directory ▸ maps.low
  kernel := directory ▸ maps.kernel
  program := directory ▸ maps.program
  video := directory ▸ maps.video
  others := directory ▸ maps.others
  pages := ptable ▸ maps.pages

/-- A new page at 128 MiB, or the old one. -/
theorem WindowFrame.maps (frame : WindowFrame k after) (maps : Maps layout k space)
    (mapped : after.pageDirectory 32 = k.pageDirectory 32 ∨ ∃ p, after.pageDirectory 32 = userPage p ||| 0x87) :
    ∃ frame, Maps layout after { space with frame := frame } := by
  have moved : ∀ {frame : Option Slot},
      after.pageDirectory 32 = (frame.map fun p => userPage p ||| 0x87).getD 0x2 →
      Maps layout after { space with frame := frame } := fun program => {
    low := (frame.elsewhere 0 (by decide)).trans maps.low
    kernel := (frame.elsewhere 1 (by decide)).trans maps.kernel
    program := program
    video := (frame.elsewhere 34 (by decide)).trans maps.video
    others := fun i bound zero one program video =>
      (frame.elsewhere i program).trans (maps.others i bound zero one program video)
    pages := frame.ptable ▸ maps.pages }
  rcases mapped with same | ⟨p, entered⟩
  · exact ⟨space.frame, moved (same.trans maps.program)⟩
  · exact ⟨some p, moved (by rw [entered, Option.map_some, Option.getD_some])⟩

theorem Maps.switched (maps : Maps layout k space) {shown : TermId} (directory : after.pageDirectory = k.pageDirectory)
    (ptable : after.vidmapPtable = mapVideoPages k.vidmapPtable shown) :
    Maps layout after { space with screen := space.screen.map fun _ => shown } where
  low := directory ▸ maps.low
  kernel := directory ▸ maps.kernel
  program := directory ▸ maps.program
  video := by
    rw [directory, maps.video]
    cases space.screen <;> rfl
  others := directory ▸ maps.others
  pages t screen i bound := by
    obtain ⟨before, mapped, rfl⟩ := Option.map_eq_some_iff.mp screen
    have entry := maps.pages before mapped i bound
    rw [ptable, mapVideoPages_entry]
    have own := shown.isLt
    have old := before.isLt
    split
    · rfl
    split
    · rfl
    · rw [entry, if_neg (by omega), if_neg (by omega)]

/-- The event is a `vidmap` whose pointer passes the two checks. -/
def Event.MapsScreen : Event → Prop
  | .vidmap _ screenStart => screenStart ≠ 0 ∧ ¬(0x400000 ≤ screenStart ∧ screenStart < 0x800000)
  | _ => False

/-- A `vidmap` maps the terminals' pages. The screen goes to the running task's
number, shown or not. -/
theorem vidmap_maps (maps : Maps layout k space) (mem : Memory) (screenStart : Nat) :
    ∃ screen, Maps layout (vidmap env k mem screenStart).2.2 { space with screen := screen } ∧
      (screen.isSome ↔ space.screen.isSome ∨ (Event.vidmap mem screenStart).MapsScreen) := by
  unfold vidmap Event.MapsScreen
  split
  · rename_i null
    exact ⟨space.screen, maps, by simp [null]⟩
  rename_i nonzero
  split
  · rename_i inKernel
    exact ⟨space.screen, maps, by simp [inKernel]⟩
  · rename_i outside
    have kept : ∀ i, i ≠ 34 → Function.update k.pageDirectory 34 (env.vidmapPtableAddr ||| 0x7) i = k.pageDirectory i :=
      fun i other => Function.update_of_ne other ..
    refine ⟨some k.activeTask, ⟨(kept 0 (by decide)).trans maps.low, (kept 1 (by decide)).trans maps.kernel,
      (kept 32 (by decide)).trans maps.program, ?_, fun i bound zero one program video =>
        (kept i video).trans (maps.others i bound zero one program video), fun t shown i bound => ?_⟩, ?_⟩
    · rw [Option.map_some, Option.getD_some]
      exact (Function.update_self 34 _ k.pageDirectory)
    · cases shown
      change mapVideoPages _ _ _ = _
      rw [mapVideoPages_entry, if_pos bound]
    · exact ⟨fun _ => .inr ⟨nonzero, outside⟩, fun _ => rfl⟩

theorem Represents.mapped (represents : Represents k pool) (topmost : pool.top k.activeTask = some p)
    (maps : Maps layout k space) : space.frame = some p := by
  have running := (represents.running p topmost).1
  have entry := maps.program
  have distinct : ∀ p q : Slot, userPage p ||| 0x87 = userPage q ||| 0x87 → p = q := by decide
  have absent : ∀ p : Slot, userPage p ||| 0x87 ≠ 0x2 := by decide
  rw [running] at entry
  cases frame : space.frame with
  | none =>
      rw [frame, Option.map_none, Option.getD_none] at entry
      exact absurd entry (absent p)
  | some q =>
      rw [frame, Option.map_some, Option.getD_some] at entry
      rw [distinct p q entry]

/-- Every event keeps the shape of the address space, and the pages of the
processes that wait. -/
theorem next_space (represents : Represents k pool) (loadable : Loadable env) (maps : Maps layout k space)
    (step : Steps env k event after) :
    (∃ space', Maps layout after space' ∧ (space'.screen.isSome ↔ space.screen.isSome ∨ event.MapsScreen)) ∧
    ∀ q, pool.Listed q → pool.top k.activeTask ≠ some q → after.userPages q = k.userPages q := by
  have plain (unmapped : ¬event.MapsScreen) (frame : SpaceFrame k after) :
      (∃ space', Maps layout after space' ∧ (space'.screen.isSome ↔ space.screen.isSome ∨ event.MapsScreen)) ∧
      ∀ q, pool.Listed q → pool.top k.activeTask ≠ some q → after.userPages q = k.userPages q :=
    ⟨⟨space, maps.congr frame.directory frame.ptable, by simp [unmapped]⟩, fun q _ _ => congrFun frame.pages q⟩
  unfold Steps at step
  cases event with
  | execute command cpu =>
      obtain ⟨result, called, rfl⟩ := map_ok.mp step
      obtain ⟨window, mapped, pages⟩ := execute_space called
      obtain ⟨frame, maps⟩ := window.maps maps mapped
      exact ⟨⟨_, maps, by simp [Event.MapsScreen]⟩, fun q listed _ => pages q (represents.taken listed)⟩
  | halt status cpu =>
      obtain ⟨result, called, rfl⟩ := map_ok.mp step
      obtain ⟨window, pages⟩ := halt_space represents called
      obtain ⟨frame, maps⟩ := window.maps maps (.inr (halt_mapped represents loadable called))
      exact ⟨⟨_, maps, by simp [Event.MapsScreen]⟩, pages⟩
  | tick cpu =>
      obtain ⟨result, called, rfl⟩ := map_ok.mp step
      obtain ⟨window, mapped, pages⟩ := taskSwitch_space represents called
      obtain ⟨frame, maps⟩ := window.maps maps mapped
      exact ⟨⟨_, maps, by simp [Event.MapsScreen]⟩, fun q listed _ => pages q listed⟩
  | read fd mem buf nbytes cpu =>
      obtain ⟨value, called, rfl⟩ := map_ok.mp step
      exact plain id (sysRead_space called)
  | write fd mem buf nbytes =>
      obtain ⟨value, called, rfl⟩ := map_ok.mp step
      exact plain id (sysWrite_output called).space
  | «open» filename =>
      obtain ⟨value, called, rfl⟩ := map_ok.mp step
      exact plain id (sysOpen_descriptorFrame called).space
  | close fd =>
      obtain ⟨value, called, rfl⟩ := map_ok.mp step
      exact plain id (sysClose_descriptorFrame called).space
  | getargs mem buf nbytes =>
      obtain ⟨value, -, rfl⟩ := map_ok.mp step
      exact plain id .refl
  | vidmap mem screenStart =>
      obtain rfl := Except.ok.inj step
      obtain ⟨screen, maps, mapped⟩ := vidmap_maps maps mem screenStart
      refine ⟨⟨_, maps, mapped⟩, fun q _ _ => ?_⟩
      unfold vidmap
      split
      · rfl
      · split <;> rfl
  | setHandler => exact plain id (Except.ok.inj step ▸ setHandler_screenFrame.space)
  | sigreturn => exact plain id (Except.ok.inj step ▸ sigreturn_screenFrame.space)
  | key scanCode =>
      obtain rfl := Except.ok.inj step
      obtain ⟨directory, pages, ptable | ⟨shown, ptable⟩⟩ := kbIntHandler_space k scanCode
      · exact plain id ⟨directory, ptable, pages⟩
      · exact ⟨⟨_, maps.switched directory ptable, by simp [Event.MapsScreen]⟩, fun q _ _ => congrFun pages q⟩
  | rtc =>
      obtain rfl := Except.ok.inj step
      exact plain id ⟨rfl, rfl, rfl⟩

end Steps

section Stores

variable {pool : Stacks TermId Slot} {p q : Slot} {space : Space} {byte : UInt8} {linear : UInt32} {action : Action}
  {actions : List Action}

/-- What a store through the tables can do: fault, change the byte of the mapped
process's page, or change a cell of the video pages. -/
inductive Stored (k : Kernel) (space : Space) (linear : UInt32) (byte : UInt8) : Except Stop Kernel → Prop where
  | fault : Stored k space linear byte (.error .pageFault)
  | page {p : Slot} (mapped : space.frame = some p) : Stored k space linear byte
      (.ok { k with userPages := Function.update k.userPages p ((k.userPages p).store linear.toNat byte) })
  | video {physical : Nat} (lower : 0xB8000 ≤ physical) (upper : physical < 0xBC000) : Stored k space linear byte
      (.ok { k with videoMemory := k.videoMemory.store physical byte })

theorem userStore_stored (maps : Maps layout k space) (linear : UInt32) (byte : UInt8) :
    Stored k space linear byte (userStore layout k linear byte) := by
  rw [userStore, maps.translate_eq linear.toNat_lt, Space.translate]
  split
  · exact .fault
  · rename_i physical reached
    split at reached
    · cases reached
    split at reached
    · rename_i program
      obtain ⟨p, mapped, rfl⟩ := Option.map_eq_some_iff.mp reached
      have bound := p.isLt
      have inside : 0x800000 ≤ userPage p + (linear.toNat - 0x8000000) ∧
          userPage p + (linear.toNat - 0x8000000) < 0x2000000 := by
        rw [userPage]
        omega
      have slot : (⟨(userPage p + (linear.toNat - 0x8000000) - 0x800000) / 0x400000, by omega⟩ : Slot) = p := by
        apply Fin.ext
        change (userPage p + (linear.toNat - 0x8000000) - 0x800000) / 0x400000 = p.val
        rw [userPage]
        omega
      have address : 0x8000000 + (userPage p + (linear.toNat - 0x8000000)) % 0x400000 = linear.toNat := by
        rw [userPage]
        omega
      simp only [dif_pos inside, slot, address]
      exact .page mapped
    split at reached
    · rename_i video
      obtain ⟨shown, mapped, rfl⟩ := Option.map_eq_some_iff.mp reached
      have bounds : 0xB8000 ≤ (if (linear.toNat - 0x8800000) / 0x1000 = shown.val then 0xB8000 + linear.toNat % 0x1000
            else 0xB9000 + (linear.toNat - 0x8800000)) ∧
          (if (linear.toNat - 0x8800000) / 0x1000 = shown.val then 0xB8000 + linear.toNat % 0x1000
            else 0xB9000 + (linear.toNat - 0x8800000)) < 0xBC000 := by
        split <;> omega
      rw [dif_neg (by omega), if_pos bounds]
      exact .video bounds.1 bounds.2
    · cases reached

def Action.MapsScreen : Action → Prop
  | .event called => called.MapsScreen
  | .store .. => False

/-- The process table and the tables of the processor, in a state that the
actions lead to. -/
structure Sound (layout : Layout env) (actions : List Action) (k : Kernel) : Prop where
  table : ∃ pool, Represents k pool
  space : ∃ space, Maps layout k space ∧ (space.screen.isSome ↔ ∃ action ∈ actions, action.MapsScreen)

/-- A store of a program, or an event whose caller spares the kernel's page. -/
def SparingActs (layout : Layout env) (k : Kernel) : Action → Kernel → Prop
  | .event event, after => OneMemory.SparingSteps env k event after
  | .store linear byte, after => Acts layout k (.store linear byte) after

@[simp] theorem Event.seen_mapsScreen {event : Event} : (event.seen env k).MapsScreen ↔ event.MapsScreen := by
  cases event <;> rfl

theorem pagingInit_maps (layout : Layout env) (k : Kernel) :
    Maps layout (multiTermInit (pagingInit layout k)) ⟨none, none⟩ where
  low := rfl
  kernel := rfl
  program := rfl
  video := rfl
  others i bound zero one program video := by
    change Function.update (Function.update _ _ _) _ _ i = _
    rw [Function.update_of_ne zero, Function.update_of_ne (show i ≠ 0x400000 >>> 22 from one), if_pos bound]
  pages shown screen := by cases screen

theorem Sound.boot {boot : Kernel} (unlinked : ∀ p, (boot.pcbs p).childPcb = none) :
    Sound layout [] (multiTermInit (pagingInit layout boot)) :=
  ⟨⟨Stacks.empty, .boot unlinked⟩, _, pagingInit_maps layout boot, by simp⟩

theorem Sound.act (sound : Sound layout actions k) (loadable : Loadable env)
    (step : SparingActs layout k action after) : Sound layout (actions ++ [action]) after := by
  obtain ⟨⟨pool, represents⟩, space, maps, mapped⟩ := sound
  have history : (∃ other ∈ actions ++ [action], other.MapsScreen) ↔ space.screen.isSome ∨ action.MapsScreen := by
    rw [mapped]
    simp only [List.mem_append, List.mem_singleton]
    constructor
    · rintro ⟨other, earlier | rfl, maps⟩
      · exact .inl ⟨other, earlier, maps⟩
      · exact .inr maps
    · rintro (⟨other, earlier, maps⟩ | maps)
      · exact ⟨other, .inl earlier, maps⟩
      · exact ⟨action, .inr rfl, maps⟩
  cases action with
  | event event =>
      have step := OneMemory.SparingSteps.steps step
      obtain ⟨pool', moved⟩ := next_step represents loadable step
      obtain ⟨⟨space', maps', mapped'⟩, -⟩ := next_space represents loadable maps step
      rw [Event.seen_mapsScreen] at mapped'
      exact ⟨⟨pool', moved.represents⟩, space', maps', mapped'.trans history.symm⟩
  | store linear byte =>
      have stored := userStore_stored maps linear byte
      rw [show userStore layout k linear byte = .ok after from step] at stored
      have kept : ∀ {pages : Slot → Memory} {video : Memory},
          Sound layout (actions ++ [.store linear byte]) { k with userPages := pages, videoMemory := video } := by
        intro pages video
        have frame : ProcessFrame k { k with userPages := pages, videoMemory := video } :=
          ⟨fun _ => rfl, rfl, rfl, rfl, rfl, rfl, rfl⟩
        exact ⟨⟨pool, represents.processFrame frame⟩, space, maps.congr rfl rfl,
          Iff.trans (by simp [Action.MapsScreen]) history.symm⟩
      cases stored with
      | page mapped => exact kept
      | video lower upper => exact kept

theorem Sound.run {earlier : List Action} (sound : Sound layout earlier k) (loadable : Loadable env)
    (run : Run (SparingActs layout) k actions after) : Sound layout (earlier ++ actions) after := by
  refine Run.history (fun actions state => Sound layout (earlier ++ actions) state) run
    (fun _ step sound => ?_) (by rwa [List.append_nil])
  rw [← List.append_assoc]
  exact sound.act loadable step

end Stores

end BozOS
