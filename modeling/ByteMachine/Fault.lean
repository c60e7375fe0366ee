/-
Why the machine stops in the middle of a program: an address that the machine computed lies outside the address space,
or a byte that it fetched is no opcode. A fault also names the address of the instruction that raised it.
-/
import ByteMachine.Text.Numeral
import ByteMachine.Word

namespace ByteMachine

/-- what went wrong; the address is exact, below zero or above the last address -/
inductive Fault.Cause where
  | outOfRange (address : Int)
  | invalidOpcode (code : Byte)
  deriving DecidableEq, Repr

/-- what went wrong, and where the instruction lies that raised it -/
structure Fault where
  ip : Word
  cause : Fault.Cause
  deriving DecidableEq, Repr

def Fault.message (fault : Fault) : String :=
  let place := " (ip " ++ Text.markedHex 4 fault.ip.toNat ++ ")"
  match fault.cause with
  | .outOfRange address => "address " ++ toString address ++ " out of range" ++ place
  | .invalidOpcode code => "invalid opcode " ++ Text.markedHex 2 code.toNat ++ place

/-- the same fault, raised by the instruction at another address -/
def Fault.at (fault : Fault) (ip : Word) : Fault := { fault with ip }

end ByteMachine
