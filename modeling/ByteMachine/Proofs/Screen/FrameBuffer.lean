/-
The screen over a history of calls. Whatever was done to a screen before, each pixel is the last value written at its
offset and each button is as it was last set; what was last written elsewhere is nowhere.

- `Screen.Call`, `Screen.after`: what can be done to a screen, and the new screen after a history of calls.
- `Screen.Shows.perform`, `Screen.shows_after`: what a screen keeps of its history, for one more call and for all of them.
- `Screen.frameBuffer_after`: what can be seen of the screen.
-/
import Mathlib.Tactic
import ByteMachine.Proofs.Reading.Lines
import ByteMachine.Screen

namespace ByteMachine

namespace Screen

/-! ## Histories -/

inductive Call where
  | write (offset : Word) (value : Byte)
  | read (offset : Word)
  | setButton (button : Button) (pressed : Bool)
  | takeDirty
  deriving DecidableEq, Repr

def Call.perform (screen : Screen) : Call → Screen
  | write offset value => Device.write screen offset value
  | read offset => (Device.read screen offset).2
  | setButton button pressed => screen.setButton button pressed
  | takeDirty => screen.takeDirty.2

/-- the new screen after a history of calls, the first one first -/
def after (history : List Call) : Screen := history.foldl Call.perform initial

/-- the value that was last written at an offset -/
def lastWritten (history : List Call) (offset : Nat) : Byte :=
  (history.filterMap fun
    | .write written value => if written.toNat = offset then some value else none
    | _ => none).getLast?.getD 0

/-- the state that a button was last set to -/
def lastSet (history : List Call) (button : Button) : Bool :=
  (history.filterMap fun
    | .setButton set pressed => if set = button then some pressed else none
    | _ => none).getLast?.getD false

/-- a pixel was written and the mark has not been taken since -/
def WrittenSinceTaken (history : List Call) : Prop :=
  ∃ before offset value since, history = before ++ Call.write offset value :: since ∧ offset.toNat < 256 ∧
    Call.takeDirty ∉ since

variable {screen : Screen} {history : List Call} {call : Call}

theorem after_concat (history : List Call) (call : Call) : after (history ++ [call]) = call.perform (after history) := by
  rw [after, List.foldl_concat]
  rfl

theorem lastWritten_concat (history : List Call) (call : Call) (offset : Nat) :
    lastWritten (history ++ [call]) offset =
      match call with
      | .write written value => if written.toNat = offset then value else lastWritten history offset
      | _ => lastWritten history offset := by
  unfold lastWritten
  rw [List.filterMap_append]
  cases call with
  | write written value =>
    by_cases hwritten : written.toNat = offset
    · simp [hwritten]
    · simp [hwritten]
  | _ => simp

theorem lastSet_concat (history : List Call) (call : Call) (button : Button) :
    lastSet (history ++ [call]) button =
      match call with
      | .setButton set pressed => if set = button then pressed else lastSet history button
      | _ => lastSet history button := by
  unfold lastSet
  rw [List.filterMap_append]
  cases call with
  | setButton set pressed =>
    by_cases hset : set = button
    · simp [hset]
    · simp [hset]
  | _ => simp

theorem writtenSinceTaken_concat :
    WrittenSinceTaken (history ++ [call]) ↔
      (∃ offset value, call = .write offset value ∧ offset.toNat < 256) ∨
        call ≠ .takeDirty ∧ WrittenSinceTaken history := by
  constructor
  · rintro ⟨before, offset, value, since, hhistory, hoffset, hsince⟩
    -- the write is the last call, or the last call comes after it
    rcases List.eq_nil_or_concat since with rfl | ⟨since, last, rfl⟩
    · obtain ⟨-, hcall⟩ := List.append_inj' hhistory rfl
      exact .inl ⟨offset, value, List.singleton_inj.1 hcall, hoffset⟩
    · rw [List.concat_eq_append] at hhistory hsince
      rw [← List.cons_append, ← List.append_assoc] at hhistory
      obtain ⟨hbefore, hcall⟩ := List.append_inj' hhistory rfl
      obtain rfl := List.singleton_inj.1 hcall
      refine .inr ⟨fun htaken => hsince (by simp [htaken]), before, offset, value, since, hbefore, hoffset, ?_⟩
      exact fun hmem => hsince (List.mem_append_left _ hmem)
  · rintro (⟨offset, value, rfl, hoffset⟩ | ⟨hcall, before, offset, value, since, rfl, hoffset, hsince⟩)
    · exact ⟨history, offset, value, [], rfl, hoffset, List.not_mem_nil⟩
    · refine ⟨before, offset, value, since ++ [call], by simp, hoffset, fun hmem => ?_⟩
      rcases List.mem_append.1 hmem with hmem | hmem
      · exact hsince hmem
      · exact hcall (List.mem_singleton.1 hmem).symm

/-! ## What a screen keeps of its history -/

/-- the parts of a screen are what is left of a history -/
structure Shows (screen : Screen) (history : List Call) : Prop where
  pixels : ∀ offset (h : offset < 256), screen.pixels[offset] = lastWritten history offset
  buttons : ∀ button, screen.buttons.get button = lastSet history button
  dirty : screen.dirty = true ↔ WrittenSinceTaken history

theorem shows_initial : initial.Shows [] := by
  refine ⟨fun offset h => Vector.getElem_replicate h, fun button => by cases button <;> rfl, nofun, ?_⟩
  rintro ⟨before, offset, value, since, hhistory, -⟩
  simp at hhistory

/-- a read changes nothing, -/
theorem read_snd (screen : Screen) (offset : Word) : (Device.read screen offset).2 = screen := by
  simp only [Device.read]
  split <;> rfl

theorem write_of_lt {offset : Word} (h : offset.toNat < 256) (value : Byte) :
    Device.write screen offset value =
      { screen with pixels := screen.pixels.set offset.toNat value h, dirty := true } :=
  dif_pos h

/-- nor does a write past the pixels -/
theorem write_of_le {offset : Word} (h : 256 ≤ offset.toNat) (value : Byte) :
    Device.write screen offset value = screen :=
  dif_neg (Nat.not_lt.2 h)

theorem Shows.write_pixel (h : screen.Shows history) {offset : Word} (hoffset : offset.toNat < 256) (value : Byte) :
    Shows (Device.write screen offset value) (history ++ [.write offset value]) := by
  rw [write_of_lt hoffset]
  constructor
  case pixels =>
    intro other hother
    rw [lastWritten_concat, Vector.getElem_set, h.pixels]
  case buttons =>
    intro button
    rw [lastSet_concat]
    exact h.buttons button
  case dirty => exact iff_of_true rfl (writtenSinceTaken_concat.2 (.inl ⟨offset, value, rfl, hoffset⟩))

/-- a call that leaves no trace leaves what the screen shows -/
theorem Shows.idle (h : screen.Shows history)
    (hwritten : ∀ offset < 256, lastWritten (history ++ [call]) offset = lastWritten history offset)
    (hset : ∀ button, lastSet (history ++ [call]) button = lastSet history button)
    (hmark : ¬ ∃ offset value, call = .write offset value ∧ offset.toNat < 256) (htaken : call ≠ .takeDirty) :
    screen.Shows (history ++ [call]) := by
  refine ⟨fun offset hoffset => ?_, fun button => ?_, ?_⟩
  · rw [hwritten offset hoffset, h.pixels]
  · rw [hset, h.buttons]
  · rw [writtenSinceTaken_concat, h.dirty, or_iff_right hmark, and_iff_right htaken]

/-- **One more call.** The screen after it shows the history with that call at its end. -/
theorem Shows.perform (h : screen.Shows history) (call : Call) : Shows (call.perform screen) (history ++ [call]) := by
  cases call with
  | write offset value =>
    by_cases hoffset : offset.toNat < 256
    · exact h.write_pixel hoffset value
    · rw [Call.perform, write_of_le (Nat.not_lt.1 hoffset)]
      refine h.idle (fun other hother => ?_) (fun button => lastSet_concat ..) ?_ nofun
      · rw [lastWritten_concat]
        refine if_neg ?_
        rintro rfl
        exact hoffset hother
      · rintro ⟨_, _, heq, hlt⟩
        cases heq
        exact hoffset hlt
  | read offset =>
    rw [Call.perform, read_snd]
    exact h.idle (fun other _ => lastWritten_concat ..) (fun button => lastSet_concat ..) nofun nofun
  | setButton set pressed =>
    refine ⟨fun offset hoffset => ?_, fun button => ?_, ?_⟩
    · rw [lastWritten_concat]
      exact h.pixels offset hoffset
    · rw [lastSet_concat, ← h.buttons]
      exact (screen.buttons.get_set set button pressed).trans (if_congr eq_comm rfl rfl)
    · rw [writtenSinceTaken_concat, or_iff_right nofun, and_iff_right nofun]
      exact h.dirty
  | takeDirty =>
    refine ⟨fun offset hoffset => ?_, fun button => ?_, ?_⟩
    · rw [lastWritten_concat]
      exact h.pixels offset hoffset
    · rw [lastSet_concat]
      exact h.buttons button
    · rw [writtenSinceTaken_concat, or_iff_right nofun]
      exact iff_of_false nofun fun hmark => hmark.1 rfl

/-- **All calls.** The new screen after a history shows it. -/
theorem shows_after (history : List Call) : (after history).Shows history := by
  induction history using List.reverseRecOn with
  | nil => exact shows_initial
  | append_singleton history call ih =>
    rw [after_concat]
    exact ih.perform call

/-! ## What can be seen -/

theorem pixel_of_lt {x y : Nat} (h : 16 * y + x < 256) : screen.pixel x y = screen.pixels[16 * y + x] := by
  have hindex : y * width + x = 16 * y + x := by rw [width]; omega
  rw [pixel, hindex, Vector.getElem?_eq_getElem h, Option.getD_some]

theorem read_button (screen : Screen) (button : Button) :
    Device.read screen button.offset = (if screen.buttons.get button then 1 else 0, screen) := by
  cases button <;> rfl

theorem read_elsewhere (screen : Screen) {offset : Word} (h : offset.toNat < 256 ∨ 259 < offset.toNat) :
    Device.read screen offset = (0, screen) := by
  have hnone : Button.all.find? (·.offset = offset) = none := by
    rw [List.find?_eq_none]
    intro button _ hbutton
    rw [← of_decide_eq_true hbutton] at h
    cases button <;> exact absurd h (by decide)
  simp only [Device.read, hnone]

theorem paletteChar_ne (value : Byte) : paletteChar value ≠ '\n' ∧ paletteChar value ≠ '\r' := by
  unfold paletteChar
  split <;> decide

theorem notMem_renderRow (screen : Screen) (y : Nat) :
    '\n' ∉ (screen.renderRow y).toList ∧ '\r' ∉ (screen.renderRow y).toList := by
  rw [renderRow, String.toList_ofList]
  simp only [List.mem_map, not_exists, not_and]
  exact ⟨fun x _ => (paletteChar_ne _).1, fun x _ => (paletteChar_ne _).2⟩

theorem lines_render (screen : Screen) : Text.lines screen.render = (List.range width).map screen.renderRow := by
  have hrow : ∀ row ∈ (List.range width).map screen.renderRow, '\n' ∉ row.toList ∧ '\r' ∉ row.toList := by
    intro row hrow
    obtain ⟨y, -, rfl⟩ := List.mem_map.1 hrow
    exact screen.notMem_renderRow y
  rw [render, ← Text.lines_join hrow, List.map_map]
  rfl

/-- what can be seen of a screen after a history -/
structure FrameBuffer (history : List Call) (screen : Screen) : Prop where
  /-- a pixel is the value that was last written at its offset -/
  pixel : ∀ x y, 16 * y + x < 256 → screen.pixel x y = lastWritten history (16 * y + x)
  /-- a button is read as one if it was last pressed and as zero if it was last released or never set -/
  button : ∀ offset button, (offset, button) ∈ [(256, Button.left), (257, .right), (258, .up), (259, .down)] →
    (Device.read screen offset).1 = if lastSet history button then 1 else 0
  /-- every other read gives zero, -/
  elsewhere : ∀ offset : Word, offset.toNat < 256 ∨ 259 < offset.toNat → (Device.read screen offset).1 = 0
  /-- and no read changes anything, -/
  unread : ∀ offset, (Device.read screen offset).2 = screen
  /-- nor does a write that is past the pixels -/
  unwritten : ∀ (offset : Word) value, 256 ≤ offset.toNat → Device.write screen offset value = screen
  /-- the mark says whether a pixel was written since it was last taken -/
  mark : screen.takeDirty.1 = true ↔ WrittenSinceTaken history
  /-- the screen is rendered as sixteen lines of sixteen characters, -/
  lines : (Text.lines screen.render).length = 16 ∧ ∀ line ∈ Text.lines screen.render, line.length = 16
  /-- which stand for the pixels -/
  rendered : ∀ x y, x < 16 → y < 16 →
    (Text.lines screen.render)[y]?.bind (·.toList[x]?) = some (paletteChar (screen.pixel x y))

/-- **The last write wins.** After every history of calls, the pixels, the buttons and the mark of a new screen are those
of the last calls that were about them, and what is rendered are the pixels. -/
theorem frameBuffer_after (history : List Call) : FrameBuffer history (after history) := by
  have hshows := shows_after history
  constructor
  case pixel =>
    intro x y hpixel
    rw [pixel_of_lt hpixel, hshows.pixels]
  case button =>
    intro offset button hbutton
    have hoffset : offset = button.offset := by
      fin_cases hbutton <;> rfl
    rw [hoffset, read_button, hshows.buttons]
  case elsewhere =>
    intro offset hoffset
    rw [read_elsewhere _ hoffset]
  case unread => exact read_snd _
  case unwritten => exact fun offset value hoffset => write_of_le hoffset value
  case mark => exact hshows.dirty
  case lines =>
    rw [lines_render]
    refine ⟨by simp [width], fun line hline => ?_⟩
    obtain ⟨y, -, rfl⟩ := List.mem_map.1 hline
    simp [renderRow, width]
  case rendered =>
    intro x y hx hy
    rw [lines_render]
    simp [renderRow, width, hx, hy]

/-- a pixel written twice with the mark taken in between, a button pressed, and a write past the pixels -/
def twiceWritten : List Call :=
  [.write 0x35 1, .takeDirty, .setButton .up true, .write 0x35 2, .write 0x100 3, .read 0x35]

theorem twiceWritten_is_shown :
    (after twiceWritten).pixel 5 3 = 2 ∧ (Device.read (after twiceWritten) 258).1 = 1 ∧
      (after twiceWritten).takeDirty.1 = true ∧
      (Text.lines (after twiceWritten).render)[3]?.bind (·.toList[5]?) = some 'G' := by
  have hshown := frameBuffer_after twiceWritten
  have hpixel : (after twiceWritten).pixel 5 3 = 2 := hshown.pixel 5 3 (by decide)
  have hmark : WrittenSinceTaken twiceWritten :=
    ⟨[.write 0x35 1, .takeDirty, .setButton .up true], 0x35, 2, [.write 0x100 3, .read 0x35], rfl, by decide, by decide⟩
  refine ⟨hpixel, hshown.button 258 .up (by decide), hshown.mark.2 hmark, ?_⟩
  rw [hshown.rendered 5 3 (by decide) (by decide), hpixel]
  rfl

end Screen

end ByteMachine
