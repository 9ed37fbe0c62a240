import BozOS.Kernel.Effects
import BozOS.Kernel.System

namespace BozOS

open Data Lib FileSystem

/-! Starting, ending and switching processes concerns neither the user's view
of the screens nor the cursor of a directory listing, and it leaves the
keyboard's buffers alone. -/

structure DeviceFrame (before after : Kernel) : Prop where
  ptable : after.vidmapPtable = before.vidmapPtable
  shown : after.activeTerminal = before.activeTerminal
  listing : after.dreadLoc = before.dreadLoc

structure InputFrame (before after : Kernel) : Prop where
  kbBuf : after.kbBuf = before.kbBuf
  intBuf : after.intBuf = before.intBuf
  saved : ∀ t, (after.terminalTable t).kbBuf = (before.terminalTable t).kbBuf

structure ManageFrame (before after : Kernel) : Prop where
  device : DeviceFrame before after
  input : InputFrame before after

variable {env : Env} {k middle after : Kernel} {cpu : Cpu}

theorem InputFrame.refl : InputFrame k k := ⟨rfl, rfl, fun _ => rfl⟩

theorem InputFrame.trans (first : InputFrame k middle) (second : InputFrame middle after) : InputFrame k after :=
  ⟨second.kbBuf.trans first.kbBuf, second.intBuf.trans first.intBuf,
    fun t => (second.saved t).trans (first.saved t)⟩

theorem DeviceFrame.trans (first : DeviceFrame k middle) (second : DeviceFrame middle after) :
    DeviceFrame k after :=
  ⟨second.ptable.trans first.ptable, second.shown.trans first.shown, second.listing.trans first.listing⟩

theorem DeviceFrame.refl : DeviceFrame k k := ⟨rfl, rfl, rfl⟩

theorem ManageFrame.refl : ManageFrame k k := ⟨.refl, .refl⟩

theorem ManageFrame.trans (first : ManageFrame k middle) (second : ManageFrame middle after) :
    ManageFrame k after :=
  ⟨first.device.trans second.device, first.input.trans second.input⟩

theorem ScreenFrame.manage (frame : ScreenFrame k after) : ManageFrame k after := by
  obtain ⟨_, _, _, _, rfl⟩ := frame
  exact ⟨⟨rfl, rfl, rfl⟩, ⟨rfl, rfl, fun _ => rfl⟩⟩

theorem ManageFrame.setTerm {t : TermId} {term : Term} (kept : term.kbBuf = (k.terminalTable t).kbBuf) :
    ManageFrame k (k.setTerm t term) := by
  refine ⟨⟨rfl, rfl, rfl⟩, ⟨rfl, rfl, fun u => ?_⟩⟩
  by_cases same : u = t
  · subst same
    rw [Kernel.setTerm_same, kept]
  · rw [Kernel.setTerm_other same]

/-- What the processes are made of, but for the heads of their lists. -/
theorem ManageFrame.ofProcesses {usage : Slot → Usage} {pcbs : Slot → Pcb} {userPages : Slot → Memory}
    {pageDirectory : Nat → Nat} {tssEsp0 : Nat} {task : TermId} : ManageFrame k { k with
      processUsage := usage, pcbs := pcbs, userPages := userPages, pageDirectory := pageDirectory
      tssEsp0 := tssEsp0, activeTask := task } :=
  ⟨⟨rfl, rfl, rfl⟩, ⟨rfl, rfl, fun _ => rfl⟩⟩

/-- What `add_PCB` does once it has found a slot: the new process becomes the
head of an empty list or the child of another one. -/
inductive Added (k : Kernel) (t : TermId) (p : Slot) : Kernel → Prop where
  | first (empty : (k.terminalTable t).pcbHead = none) : Added k t p
      ({ k with processUsage := Function.update k.processUsage p .inUse }.setTerm t
        { k.terminalTable t with pcbHead := some p })
  | behind {tail : Slot} (nonempty : (k.terminalTable t).pcbHead ≠ none) : Added k t p
      ({ k with processUsage := Function.update k.processUsage p .inUse }.setPcb tail
        { k.pcbs tail with childPcb := some p })

theorem addPCB_cases {t : TermId} {slot : Option Slot} (added : addPCB k t = .ok (slot, after)) :
    (slot = none ∧ after = k) ∨ ∃ p, freeSlot k = some p ∧ slot = some p ∧ Added k t p after := by
  unfold addPCB at added
  split at added
  · cases added
    exact .inl ⟨rfl, rfl⟩
  · rename_i p free
    simp only at added
    split at added
    · rename_i empty
      cases added
      exact .inr ⟨p, free, rfl, .first empty⟩
    · rename_i head headed
      obtain ⟨tail, -, added⟩ := bind_ok.mp added
      cases added
      exact .inr ⟨p, free, rfl, .behind (by rw [headed]; exact nofun)⟩

/-- Every way `execute` can return or enter a program. -/
theorem execute_cases {command : Memory} {result : Executed} (called : execute env k command cpu = .ok result) :
    result = .returned (-1) k ∨ (∃ message, result = .returned 256 (puts k message)) ∨
    ∃ p linked userPages, freeSlot k = some p ∧ Added k k.activeTask p linked ∧
      (result = .returned (-1) { mapUserPage linked (userPage p) with userPages := userPages } ∨
      ∃ entryPt parsed, parseCommand command = .ok parsed ∧ result = .launched entryPt
        { ({ mapUserPage linked (userPage p) with userPages := userPages } : Kernel).setPcb p
          (newPcb (linked.pcbs p) p parsed cpu) with tssEsp0 := kernelStack p }) := by
  obtain ⟨parsed, parses, called⟩ := bind_ok.mp called
  split at called
  · cases called
    exact .inl rfl
  · obtain ⟨⟨slot, linked⟩, added, continued⟩ := bind_ok.mp called
    rcases addPCB_cases added with ⟨rfl, rfl⟩ | ⟨p, free, rfl, links⟩
    · exact .inr (.inl ⟨_, (Except.ok.inj continued).symm⟩)
    · simp only [loadAndLaunch] at continued
      split at continued
      · cases continued
      split at continued
      · exact .inr (.inr ⟨p, linked, _, free, links, .inl (Except.ok.inj continued).symm⟩)
      · exact .inr (.inr ⟨p, linked, _, free, links, .inr ⟨_, parsed, parses, (Except.ok.inj continued).symm⟩⟩)

theorem Added.manage {t : TermId} {p : Slot} (added : Added k t p after) : ManageFrame k after := by
  cases added with
  | first empty => exact ManageFrame.ofProcesses.trans (.setTerm rfl)
  | behind nonempty => exact .ofProcesses

theorem execute_manageFrame {command : Memory} {result : Executed}
    (called : execute env k command cpu = .ok result) : ManageFrame k result.kernel := by
  rcases execute_cases called with
    rfl | ⟨message, rfl⟩ | ⟨p, linked, userPages, -, added, rfl | ⟨entryPt, parsed, -, rfl⟩⟩
  · exact .refl
  · exact puts_screenFrame.manage
  · exact added.manage.trans .ofProcesses
  · exact added.manage.trans .ofProcesses

theorem taskSwitch_manageFrame {result : Switched} (called : taskSwitch env k cpu = .ok result) :
    ManageFrame k result.kernel := by
  obtain ⟨incoming, -, called⟩ := bind_ok.mp called
  obtain ⟨outgoing, -, called⟩ := bind_ok.mp called
  cases outgoing with
  | none => cases called; exact .refl
  | some outgoing =>
      have switched : ManageFrame k (setActiveTask k (k.activeTask + 1).val) := by
        unfold setActiveTask
        split
        · exact .ofProcesses
        · exact .refl
      simp only at called
      cases incoming with
      | none =>
          obtain ⟨executed, started, called⟩ := bind_ok.mp called
          have saved : ManageFrame (setActiveTask k (k.activeTask + 1).val)
              (saveSwitch (setActiveTask k (k.activeTask + 1).val) outgoing cpu) := .ofProcesses
          have frame := (switched.trans saved).trans (execute_manageFrame started)
          cases executed with
          | returned ret after => cases called; exact frame
          | launched entryPt after => cases called; exact frame
      | some incoming => cases called; exact switched.trans .ofProcesses

theorem returnToParent_manageFrame {head : Option Slot} {self : Slot} {status : Nat} {result : Halted}
    (called : returnToParent k head self status = .ok result) : ManageFrame k result.kernel := by
  unfold returnToParent at called
  split at called
  · cases called
  · cases called
  · cases called; exact .ofProcesses

theorem unsetProcessUsage_ok {pid : Nat} (unset : unsetProcessUsage k pid = .ok after) :
    ∃ usage, after = { k with processUsage := usage } := by
  unfold unsetProcessUsage at unset
  split at unset
  · cases unset; exact ⟨k.processUsage, rfl⟩
  split at unset
  · cases unset; exact ⟨_, rfl⟩
  · cases unset

theorem halt_manageFrame {status : Nat} {result : Halted} (called : halt env k status cpu = .ok result) :
    ManageFrame k result.kernel := by
  obtain ⟨tail, -, called⟩ := bind_ok.mp called
  cases tail with
  | none => cases called
  | some self =>
      obtain ⟨freed, unset, called⟩ := bind_ok.mp called
      have released : ManageFrame k freed := by
        obtain ⟨usage, rfl⟩ := unsetProcessUsage_ok unset
        exact .ofProcesses
      split at called
      · obtain ⟨executed, started, called⟩ := bind_ok.mp called
        have reset : ManageFrame freed (resetPcbHead freed freed.activeTask) := .setTerm rfl
        have frame := released.trans (reset.trans (execute_manageFrame started))
        cases executed with
        | launched entryPt after => cases called; exact frame
        | returned ret after => exact frame.trans (returnToParent_manageFrame called)
      · exact released.trans (returnToParent_manageFrame called)

end BozOS
