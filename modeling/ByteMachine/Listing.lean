/-
Images written out as source text. An image is cut into chunks: an instruction where the bytes spell one, a data byte
where a byte is no opcode, and the rest of the image as data where it ends inside an instruction. Each chunk is a line
that the assembler reads back as the same bytes.
-/
import ByteMachine.Instruction
import ByteMachine.Register
import ByteMachine.Text.Numeral

namespace ByteMachine

/-- a piece of an image -/
inductive Chunk where
  | instruction (i : Instruction)
  | data (bytes : List Byte)
  deriving DecidableEq, Repr

namespace Chunk

def bytes : Chunk → List Byte
  | instruction i => i.encode
  | data bytes => bytes

/-- the first chunk of `code :: rest` and the bytes after it -/
def first (code : Byte) (rest : List Byte) : Chunk × List Byte :=
  match Opcode.ofCode? code, Instruction.decode? code rest with
  | none, _ => (data [code], rest)
  | some _, some (i, rest) => (instruction i, rest)
  | some _, none => (data (code :: rest), [])

def byteText (value : Byte) : String := Text.markedHex 2 value.toNat

/-- an operand byte: the name of a register, the number of a register that does not exist, or a hexadecimal number -/
def operandText (kind : OperandKind) (value : Byte) : String :=
  match kind, Register.ofIndex? value with
  | .register, some r => r.name
  | .register, none => toString value.toNat
  | .immediate, _ => byteText value

/-- the chunk as a line of source text -/
def text : Chunk → String
  | instruction i =>
    " ".intercalate (i.opcode.mnemonic :: List.zipWith operandText i.opcode.operands i.operands)
  | data bytes => " ".intercalate (Mnemonic.dataText :: bytes.map byteText)

theorem length_first_le (code : Byte) (rest : List Byte) : (first code rest).2.length ≤ rest.length := by
  unfold first Instruction.decode?
  cases Opcode.ofCode? code with
  | none => simp
  | some op =>
    rcases rest with _ | ⟨x, _ | ⟨y, rest⟩⟩ <;> cases op <;> simp [Opcode.form] <;> omega

end Chunk

def chunks : List Byte → List Chunk
  | [] => []
  | code :: rest => (Chunk.first code rest).1 :: chunks (Chunk.first code rest).2
termination_by bytes => bytes.length
decreasing_by
  have := Chunk.length_first_le code rest
  simp only [List.length_cons]
  omega

/-- a line of a listing: an address, and the chunk that lies there -/
structure ListingLine where
  address : Word
  chunk : Chunk
  deriving DecidableEq, Repr

namespace ListingLine

/-- the line as it is printed: the address, the bytes in a column, and the text -/
def render (line : ListingLine) : String :=
  let bytes := " ".intercalate (line.chunk.bytes.map fun value => Text.hex 2 value.toNat)
  Text.hex 4 line.address.toNat ++ ":  " ++ Text.alignLeft 10 bytes ++ "  " ++ line.chunk.text

end ListingLine

/-- chunks laid out from an address; addresses wrap at the end of the address space -/
def placeChunks (address : Word) : List Chunk → List ListingLine
  | [] => []
  | chunk :: rest => ⟨address, chunk⟩ :: placeChunks (address + UInt16.ofNat chunk.bytes.length) rest

/-- the lines of an image whose first byte lies at `origin` -/
def disassemble (bytes : List Byte) (origin : Word) : List ListingLine :=
  placeChunks origin (chunks bytes)

def listing (bytes : List Byte) (origin : Word) : String :=
  String.join ((disassemble bytes origin).map (·.render ++ "\n"))

end ByteMachine
