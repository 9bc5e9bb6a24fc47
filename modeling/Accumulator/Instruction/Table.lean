import Accumulator.Instruction.Operation

set_option autoImplicit false

/-!
The instruction set: every mnemonic with its opcode and its operation. No mnemonic and no opcode
occurs twice, so each determines the other.
-/

namespace Accumulator

structure Instruction where
  mnemonic : String
  code : BitVec 8
  operation : Operation
deriving DecidableEq, Repr

namespace Instruction

/-- The three instructions of an arithmetic operation, from the code of its immediate form on. -/
def arithmetic (name : String) (code : BitVec 8) (op : Arithmetic) : List Instruction :=
  [⟨name, code, .arithmetic op .immediate⟩,
   ⟨name ++ ",W", code + 1, .arithmetic op .toW⟩,
   ⟨name ++ ",F", code + 2, .arithmetic op .toMemory⟩]

/-- The sixteen instructions of a comparison: the low half of the code is the skip count. -/
def comparison (name : String) (code : BitVec 4) (condition : Condition) (operand : Operand) :
    List Instruction :=
  (List.finRange 16).map fun (skip : Fin 16) =>
    ⟨name ++ "," ++ toString skip.val, code ++ BitVec.ofNat 4 skip.val,
     .compare condition operand skip⟩

/-- The instruction set in the order of the opcodes. -/
def table : List Instruction :=
  [⟨"HALT", 0x00, .halt⟩,
   ⟨"NOP", 0x01, .nop⟩,
   ⟨"PULSE", 0x02, .pulse⟩,
   ⟨"VAR", 0x03, .var⟩,
   ⟨"MOVLW", 0x04, .movLW⟩,
   ⟨"MOVWF", 0x05, .movWF⟩,
   ⟨"MOVFW", 0x06, .movFW⟩,
   ⟨"MOVLF", 0x07, .movLF⟩,
   ⟨"CALL", 0x08, .call⟩,
   ⟨"RET", 0x09, .ret⟩,
   ⟨"RETLW", 0x0A, .retLW⟩,
   ⟨"RETFW", 0x0B, .retFW⟩,
   ⟨"GOTO", 0x0C, .goto⟩]
  ++ arithmetic "ADD" 0x10 .add
  ++ arithmetic "SUB" 0x13 .sub
  ++ arithmetic "MUL" 0x16 .mul
  ++ arithmetic "DIV" 0x19 .div
  ++ arithmetic "MOD" 0x1C .mod
  ++ arithmetic "INCR" 0x1F .incr
  ++ arithmetic "DECR" 0x22 .decr
  ++ arithmetic "ROL" 0x25 .rol
  ++ arithmetic "ROR" 0x28 .ror
  ++ arithmetic "NAND" 0x2B .nand
  ++ arithmetic "NOR" 0x2E .nor
  ++ arithmetic "XOR" 0x31 .xor
  ++ [⟨"WOUTL,1", 0x40, .write .one .literal⟩,
      ⟨"WOUTW,1", 0x41, .write .one .w⟩,
      ⟨"WOUTF,1", 0x42, .write .one .memory⟩,
      ⟨"WOUTL,2", 0x43, .write .two .literal⟩,
      ⟨"WOUTW,2", 0x44, .write .two .w⟩,
      ⟨"WOUTF,2", 0x45, .write .two .memory⟩,
      ⟨"RINW,1", 0x46, .read .one false⟩,
      ⟨"RINF,1", 0x47, .read .one true⟩,
      ⟨"RINW,2", 0x48, .read .two false⟩,
      ⟨"RINF,2", 0x49, .read .two true⟩,
      ⟨"IGCLEAR", 0x50, .display .clear .literal⟩,
      ⟨"IGRENDER", 0x51, .display .render .literal⟩,
      ⟨"IGDRAWPL", 0x52, .display .pixel .literal⟩,
      ⟨"IGDRAWPF", 0x53, .display .pixel .memory⟩,
      ⟨"IGDRAWHL", 0x54, .display .horizontal .literal⟩,
      ⟨"IGDRAWHF", 0x55, .display .horizontal .memory⟩,
      ⟨"IGDRAWVL", 0x56, .display .vertical .literal⟩,
      ⟨"IGDRAWVF", 0x57, .display .vertical .memory⟩,
      ⟨"IGDRAWRL", 0x58, .display .rectangle .literal⟩,
      ⟨"IGDRAWRF", 0x59, .display .rectangle .memory⟩,
      ⟨"IGSETFL", 0x5A, .display .setFlag .literal⟩,
      ⟨"IGSETFF", 0x5B, .display .setFlag .memory⟩,
      ⟨"IGSAVE", 0x5C, .display .save .memory⟩,
      ⟨"IGLOAD", 0x5D, .display .load .memory⟩]
  ++ comparison "GRT" 0b1010 .greater .literal
  ++ comparison "GRTF" 0b1011 .greater .memory
  ++ comparison "LESS" 0b1100 .less .literal
  ++ comparison "LESSF" 0b1101 .less .memory
  ++ comparison "EQ" 0b1110 .equal .literal
  ++ comparison "EQF" 0b1111 .equal .memory

/-- The instruction with a mnemonic. -/
def find? (mnemonic : String) : Option Instruction :=
  table.find? (·.mnemonic == mnemonic)

/-- The instruction with an opcode. -/
def decode? (code : BitVec 8) : Option Instruction :=
  table.find? (·.code == code)

def isMnemonic (text : String) : Bool :=
  (find? text).isSome

/-- The answer to a request for a mnemonic that is not in the instruction set. -/
def unknownMnemonic (text : String) : String :=
  "unknown opcode '" ++ text ++ "'"

end Instruction

end Accumulator
