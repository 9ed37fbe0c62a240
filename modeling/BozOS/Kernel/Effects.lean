import BozOS.Kernel.Keyboard

namespace BozOS

open Data Lib

/-! What output can change: video memory, the hardware cursor and the places of
the terminals' cursors. -/

variable {k middle after : Kernel} {t : TermId}

def ScreenFrame (before after : Kernel) : Prop :=
  ∃ (memory : Memory) (cursor : Nat) (x y : TermId → Int), after = { before with
    videoMemory := memory
    cursor := cursor
    terminalTable := fun t => { before.terminalTable t with x := x t, y := y t } }

theorem ScreenFrame.refl : ScreenFrame k k :=
  ⟨k.videoMemory, k.cursor, fun t => (k.terminalTable t).x, fun t => (k.terminalTable t).y, rfl⟩

theorem ScreenFrame.trans (first : ScreenFrame k middle) (second : ScreenFrame middle after) :
    ScreenFrame k after := by
  obtain ⟨_, _, _, _, rfl⟩ := first
  obtain ⟨memory, cursor, x, y, rfl⟩ := second
  exact ⟨memory, cursor, x, y, rfl⟩

theorem ScreenFrame.ofMemory {memory : Memory} : ScreenFrame k { k with videoMemory := memory } :=
  ⟨memory, k.cursor, fun t => (k.terminalTable t).x, fun t => (k.terminalTable t).y, rfl⟩

theorem ScreenFrame.setTerm {x y : Int} : ScreenFrame k (k.setTerm t { k.terminalTable t with x := x, y := y }) := by
  refine ⟨k.videoMemory, k.cursor, Function.update (fun u => (k.terminalTable u).x) t x,
    Function.update (fun u => (k.terminalTable u).y) t y, ?_⟩
  unfold Kernel.setTerm
  congr 1
  funext u
  by_cases same : u = t
  · subst same
    simp only [Function.update_self]
  · simp only [Function.update_of_ne same]

theorem updateCursor_screenFrame {x y : Int} : ScreenFrame k (updateCursor k x y) :=
  ⟨k.videoMemory, _, fun t => (k.terminalTable t).x, fun t => (k.terminalTable t).y, rfl⟩

theorem setScreenX_screenFrame {val : Int} {arg : Active} : ScreenFrame k (setScreenX k val arg) := by
  unfold setScreenX
  simp only
  split
  · exact ScreenFrame.setTerm.trans updateCursor_screenFrame
  · exact .refl

theorem setScreenY_screenFrame {val : Int} {arg : Active} : ScreenFrame k (setScreenY k val arg) := by
  unfold setScreenY
  simp only
  split
  · exact ScreenFrame.setTerm.trans updateCursor_screenFrame
  · exact .refl

theorem clearScreen_screenFrame : ScreenFrame k (clearScreen k) := by
  unfold clearScreen
  exact (ScreenFrame.ofMemory.trans setScreenY_screenFrame).trans setScreenX_screenFrame

theorem putcScreen_screenFrame {c : UInt8} : ScreenFrame k (putcScreen k c) := by
  unfold putcScreen
  simp only
  split
  · split
    · exact ScreenFrame.ofMemory.trans .setTerm
    · exact .setTerm
  · split
    · exact (ScreenFrame.ofMemory.trans .ofMemory).trans .setTerm
    · exact ScreenFrame.ofMemory.trans .setTerm

theorem putc_screenFrame {c : UInt8} : ScreenFrame k (putc k c) := by
  unfold putc
  simp only
  split
  · exact putcScreen_screenFrame.trans updateCursor_screenFrame
  · exact putcScreen_screenFrame

theorem puts_screenFrame {text : List UInt8} : ScreenFrame k (puts k text) := by
  induction text generalizing k with
  | nil => exact .refl
  | cons c rest ih => exact putc_screenFrame.trans ih

theorem putNewlnKb_screenFrame : ScreenFrame k (putNewlnKb k) := by
  unfold putNewlnKb
  simp only
  split
  · exact ScreenFrame.ofMemory.trans setScreenX_screenFrame
  · exact setScreenY_screenFrame.trans setScreenX_screenFrame

theorem echoChar_screenFrame {c : UInt8} {bufLen : Nat} : ScreenFrame k (echoChar k c bufLen) := by
  unfold echoChar
  extract_lets x y cell shown
  have shownFrame : ScreenFrame k shown := by
    subst shown
    split
    · split
      · exact putNewlnKb_screenFrame.trans putNewlnKb_screenFrame
      · exact putNewlnKb_screenFrame
    · exact ScreenFrame.ofMemory.trans updateCursor_screenFrame
  split
  · exact shownFrame.trans (ScreenFrame.ofMemory.trans setScreenY_screenFrame)
  · exact shownFrame

/-- The line buffer after `add_char_to_buf`. -/
def lineAfter (kbBuf : Memory) (c : UInt8) : Memory :=
  if strlen kbBuf 128 < 127 then (kbBuf.store (strlen kbBuf 128 + 1) 0).store (strlen kbBuf 128) c else kbBuf

theorem addCharToBuf_screenFrame {c : UInt8} :
    ScreenFrame { k with kbBuf := lineAfter k.kbBuf c } (addCharToBuf k c) := by
  unfold addCharToBuf lineAfter
  simp only
  split
  · exact echoChar_screenFrame
  · split
    · exact putNewlnKb_screenFrame.trans putNewlnKb_screenFrame
    · exact .refl

/-- The line buffer after `del_char_from_buf`. -/
def lineErased (kbBuf : Memory) : Memory :=
  if strlen kbBuf 128 > 0 then kbBuf.store (strlen kbBuf 128 - 1) 0 else kbBuf

theorem delCharFromBuf_screenFrame : ScreenFrame { k with kbBuf := lineErased k.kbBuf } (delCharFromBuf k) := by
  unfold delCharFromBuf lineErased
  simp only
  split
  · exact ⟨_, _, fun t => (k.terminalTable t).x, fun t => (k.terminalTable t).y, rfl⟩
  · exact .refl

end BozOS
