import LateBinding.Module.Basic
import LateBinding.Text.Printing

set_option autoImplicit false

/-! # What can be wrong with a module

One cause per way in which bytes are no module, a module is inconsistent, or a module does
not fit the format. The wording of a cause stands in `message` alone.
-/

namespace LateBinding

/-- What is wrong with a single instruction, given the module and the method around it. -/
inductive CodeFault where
  | constantOutside (index : UInt16)
  | localOutside (slot : UInt8) (frameSize : Nat)
  | fieldOutside (index : UInt16)
  /-- An operand of a dynamic call does not name a string. -/
  | notString (fault : PoolFault)
  | jumpBeyond (target : UInt32) (count : Nat)
  deriving DecidableEq

/-- The tables of a module, whose lengths the format limits. -/
inductive Table where
  | constants
  | fields
  | methods
  | markers
  deriving DecidableEq

/-- What a table holds. -/
def Table.title : Table → String
  | constants => "constants"
  | fields => "fields"
  | methods => "methods"
  | markers => "markers"

/-- What is wrong with a module or with the bytes of one. -/
inductive FormatError where
  /-- The bytes open with `found` where the format's signature is due. -/
  | badMagic (found : List UInt8)
  | unsupportedVersion (version : UInt16)
  | notUtf8 (fault : Text.Utf8Fault)
  | unknownTag (tag : UInt8)
  | unknownOpcode (opcode : UInt8) (position : Nat)
  /-- At `position`, `needed` bytes are due and only `available` are left. -/
  | unexpectedEnd (position needed available : Nat)
  /-- A method announces `count` instructions with `available` bytes left. -/
  | codeTooLong (count available : Nat)
  /-- `count` bytes follow the last method. -/
  | trailing (count : Nat)
  | pool (fault : PoolFault)
  | noField (index : UInt16)
  | fieldIndexTooLarge (index : Nat)
  | inCode (method : String) (pc : Nat) (insn : Instruction) (fault : CodeFault)
  /-- A table holds more entries than its count can express. -/
  | tooMany (table : Table) (count : Nat)
  /-- There is no index left for another field. -/
  | fieldsFull
  | stringTooLong
  | methodTooLong
  /-- A fault that was reported in words. -/
  | stated (text : String)
  deriving DecidableEq

/-- What every report of a malformed module opens with. -/
def FormatError.heading : String := "Module format error: "

/-- The fault of an instruction in words. -/
def CodeFault.message : CodeFault → String
  | .constantOutside index => s!"constant #{index} out of range"
  | .localOutside slot frameSize => s!"local {slot} outside frame of {frameSize}"
  | .fieldOutside index => s!"field @{index} out of range"
  | .notString fault => FormatError.heading ++ fault.message
  | .jumpBeyond target count => s!"jump target {target} beyond {count}"

/-- The cause in words, without the heading. -/
def FormatError.message : FormatError → String
  | .badMagic found => "bad magic " ++ Text.hexList found
  | .unsupportedVersion version => s!"unsupported version {version} (expected 1)"
  | .notUtf8 fault => "string constant is not UTF-8: " ++ fault.message
  | .unknownTag tag => "unknown constant tag 0x" ++ Text.hexByte tag
  | .unknownOpcode opcode position =>
    "unknown opcode 0x" ++ Text.hexByte opcode ++ s!" at byte {position}"
  | .unexpectedEnd position needed available =>
    s!"unexpected end of module at byte {position} (needed {needed}, have {available})"
  | .codeTooLong count available =>
    s!"instruction count {count} exceeds remaining {available} bytes"
  | .trailing count => s!"{count} trailing bytes after last method"
  | .pool fault => fault.message
  | .noField index => s!"field @{index} out of range"
  | .fieldIndexTooLarge index => s!"field index {index} exceeds u16"
  | .inCode method pc insn fault => s!"{method}[{pc}] `{insn.text}`: {fault.message}"
  | .tooMany table count => s!"too many {table.title}: {count}"
  | .fieldsFull => "too many fields"
  | .stringTooLong => "string constant exceeds 4 GiB"
  | .methodTooLong => "method exceeds u32::MAX instructions"
  | .stated text => text

/-- A fault of the pool is a fault of the module. -/
def orFormat {α : Type} : Except PoolFault α → Except FormatError α :=
  Except.mapError .pool

end LateBinding
