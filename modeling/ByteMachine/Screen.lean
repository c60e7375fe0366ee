/-
A screen of sixteen by sixteen pixels with four buttons. The pixels take the first 256 offsets, row by row, and can only
be written; the buttons follow and can only be read. Every other access has no effect, and the screen can say what was
wrong with it.
-/
import ByteMachine.Device
import ByteMachine.Text.Numeral

namespace ByteMachine

inductive Button where
  | left
  | right
  | up
  | down
  deriving DecidableEq, Repr

namespace Button

/-- every button, in the order of the offsets -/
def all : List Button := [left, right, up, down]

def name : Button → String
  | left => "left"
  | right => "right"
  | up => "up"
  | down => "down"

def ofName? (text : String) : Option Button :=
  all.find? (·.name = text)

def offset : Button → Word
  | left => 256
  | right => 257
  | up => 258
  | down => 259

end Button

/-- which buttons are held down -/
structure Buttons where
  left : Bool
  right : Bool
  up : Bool
  down : Bool
  deriving DecidableEq, Repr

namespace Buttons

def released : Buttons := ⟨false, false, false, false⟩

def get (buttons : Buttons) : Button → Bool
  | .left => buttons.left
  | .right => buttons.right
  | .up => buttons.up
  | .down => buttons.down

def set (buttons : Buttons) (button : Button) (pressed : Bool) : Buttons :=
  match button with
  | .left => { buttons with left := pressed }
  | .right => { buttons with right := pressed }
  | .up => { buttons with up := pressed }
  | .down => { buttons with down := pressed }

theorem get_set (buttons : Buttons) (button other : Button) (pressed : Bool) :
    (buttons.set button pressed).get other = if other = button then pressed else buttons.get other := by
  cases button <;> cases other <;> rfl

end Buttons

/-- the pixels, the buttons, and whether a pixel was written since this was last asked -/
structure Screen where
  pixels : Vector Byte 256
  buttons : Buttons
  dirty : Bool
  deriving DecidableEq, Repr

namespace Screen

/-- the number of pixels in a row, and of rows -/
def width : Nat := 16

def initial : Screen := ⟨Vector.replicate 256 0, Buttons.released, false⟩

def pixel (screen : Screen) (x y : Nat) : Byte :=
  screen.pixels[y * width + x]?.getD 0

def setButton (screen : Screen) (button : Button) (pressed : Bool) : Screen :=
  { screen with buttons := screen.buttons.set button pressed }

/-- whether a pixel was written since this was last asked -/
def takeDirty (screen : Screen) : Bool × Screen :=
  (screen.dirty, { screen with dirty := false })

/-- the character that stands for a pixel -/
def paletteChar : Byte → Char
  | 0 => '.'
  | 1 => 'R'
  | 2 => 'G'
  | 3 => 'B'
  | 4 => 'A'
  | _ => '?'

/-- a row of pixels as text -/
def renderRow (screen : Screen) (y : Nat) : String :=
  String.ofList ((List.range width).map fun x => paletteChar (screen.pixel x y))

/-- the pixels as text, a line for each row -/
def render (screen : Screen) : String :=
  String.join ((List.range width).map fun y => screen.renderRow y ++ "\n")

instance : Device Screen where
  read screen offset :=
    match Button.all.find? (·.offset = offset) with
    | some button => (if screen.buttons.get button then 1 else 0, screen)
    | none => (0, screen)
  write screen offset value :=
    if h : offset.toNat < 256 then
      { screen with pixels := screen.pixels.set offset.toNat value h, dirty := true }
    else screen

/-- what is wrong with a read at an offset -/
def readComplaint? (offset : Word) : Option String :=
  if offset.toNat < 256 then some ("read from video memory at offset " ++ Text.markedHex 3 offset.toNat)
  else if Button.all.any (·.offset = offset) then none
  else some ("read from unmapped I/O offset " ++ Text.markedHex 3 offset.toNat)

/-- what is wrong with a write at an offset -/
def writeComplaint? (offset : Word) (value : Byte) : Option String :=
  if offset.toNat < 256 then none
  else some ("write of " ++ toString value.toNat ++ " to unmapped I/O offset " ++ Text.markedHex 3 offset.toNat)

end Screen

end ByteMachine
