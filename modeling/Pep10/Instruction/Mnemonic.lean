import Pep10.Instruction.Mode

/-!
# Mnemonics

The instruction set of the Pep/10 machine.  Each mnemonic has one entry with its name, the first
of its opcodes and its form; the form decides whether the instruction has an operand, which
addressing modes it admits, and how the mode is coded in the instruction specifier.
-/

namespace Pep10

/-- An instruction of the machine. -/
inductive Mnemonic where
  | ret | sret | movspa | movasp | movflga | movaflg | movta | nop | uscall | nota | notx | nega
  | negx | asla | aslx | asra | asrx | rola | rolx | rora | rorx | br | brle | brlt | breq | brne
  | brge | brgt | brv | brc | call | scall | ldwt | ldwa | ldwx | ldba | ldbx | stwa | stwx | stba
  | stbx | cpwa | cpwx | cpba | cpbx | adda | addx | suba | subx | anda | andx | ora | orx | xora
  | xorx | addsp | subsp
  deriving DecidableEq, Repr, Inhabited

namespace Mnemonic

/-- The forms of instructions. -/
inductive Form where
  /-- No operand. -/
  | unary
  /-- An operand that is immediate or indexed; the mode may be left out and is then immediate. -/
  | branch
  /-- An operand in any mode. -/
  | general
  /-- An operand in any mode that names a place to store to. -/
  | store
  deriving DecidableEq, Repr

/-- What the instruction table holds about a mnemonic. -/
structure Entry where
  name : String
  opcode : UInt8
  form : Form

/-- All mnemonics in the order of their opcodes. -/
def all : List Mnemonic :=
  [ret, sret, movspa, movasp, movflga, movaflg, movta, nop, uscall, nota, notx, nega, negx, asla,
   aslx, asra, asrx, rola, rolx, rora, rorx, br, brle, brlt, breq, brne, brge, brgt, brv, brc,
   call, scall, ldwt, ldwa, ldwx, ldba, ldbx, stwa, stwx, stba, stbx, cpwa, cpwx, cpba, cpbx, adda,
   addx, suba, subx, anda, andx, ora, orx, xora, xorx, addsp, subsp]

/-- The instruction table. -/
def entry : Mnemonic → Entry
  | ret => ⟨"RET", 0x00, .unary⟩
  | sret => ⟨"SRET", 0x01, .unary⟩
  | movspa => ⟨"MOVSPA", 0x02, .unary⟩
  | movasp => ⟨"MOVASP", 0x03, .unary⟩
  | movflga => ⟨"MOVFLGA", 0x04, .unary⟩
  | movaflg => ⟨"MOVAFLG", 0x05, .unary⟩
  | movta => ⟨"MOVTA", 0x06, .unary⟩
  | nop => ⟨"NOP", 0x07, .unary⟩
  | uscall => ⟨"USCALL", 0x08, .unary⟩
  | nota => ⟨"NOTA", 0x10, .unary⟩
  | notx => ⟨"NOTX", 0x11, .unary⟩
  | nega => ⟨"NEGA", 0x12, .unary⟩
  | negx => ⟨"NEGX", 0x13, .unary⟩
  | asla => ⟨"ASLA", 0x14, .unary⟩
  | aslx => ⟨"ASLX", 0x15, .unary⟩
  | asra => ⟨"ASRA", 0x16, .unary⟩
  | asrx => ⟨"ASRX", 0x17, .unary⟩
  | rola => ⟨"ROLA", 0x18, .unary⟩
  | rolx => ⟨"ROLX", 0x19, .unary⟩
  | rora => ⟨"RORA", 0x1A, .unary⟩
  | rorx => ⟨"RORX", 0x1B, .unary⟩
  | br => ⟨"BR", 0x1C, .branch⟩
  | brle => ⟨"BRLE", 0x1E, .branch⟩
  | brlt => ⟨"BRLT", 0x20, .branch⟩
  | breq => ⟨"BREQ", 0x22, .branch⟩
  | brne => ⟨"BRNE", 0x24, .branch⟩
  | brge => ⟨"BRGE", 0x26, .branch⟩
  | brgt => ⟨"BRGT", 0x28, .branch⟩
  | brv => ⟨"BRV", 0x2A, .branch⟩
  | brc => ⟨"BRC", 0x2C, .branch⟩
  | call => ⟨"CALL", 0x2E, .branch⟩
  | scall => ⟨"SCALL", 0x30, .general⟩
  | ldwt => ⟨"LDWT", 0x38, .general⟩
  | ldwa => ⟨"LDWA", 0x40, .general⟩
  | ldwx => ⟨"LDWX", 0x48, .general⟩
  | ldba => ⟨"LDBA", 0x50, .general⟩
  | ldbx => ⟨"LDBX", 0x58, .general⟩
  | stwa => ⟨"STWA", 0x60, .store⟩
  | stwx => ⟨"STWX", 0x68, .store⟩
  | stba => ⟨"STBA", 0x70, .store⟩
  | stbx => ⟨"STBX", 0x78, .store⟩
  | cpwa => ⟨"CPWA", 0x80, .general⟩
  | cpwx => ⟨"CPWX", 0x88, .general⟩
  | cpba => ⟨"CPBA", 0x90, .general⟩
  | cpbx => ⟨"CPBX", 0x98, .general⟩
  | adda => ⟨"ADDA", 0xA0, .general⟩
  | addx => ⟨"ADDX", 0xA8, .general⟩
  | suba => ⟨"SUBA", 0xB0, .general⟩
  | subx => ⟨"SUBX", 0xB8, .general⟩
  | anda => ⟨"ANDA", 0xC0, .general⟩
  | andx => ⟨"ANDX", 0xC8, .general⟩
  | ora => ⟨"ORA", 0xD0, .general⟩
  | orx => ⟨"ORX", 0xD8, .general⟩
  | xora => ⟨"XORA", 0xE0, .general⟩
  | xorx => ⟨"XORX", 0xE8, .general⟩
  | addsp => ⟨"ADDSP", 0xF0, .general⟩
  | subsp => ⟨"SUBSP", 0xF8, .general⟩

/-- The name of a mnemonic. -/
def name (m : Mnemonic) : String := m.entry.name

/-- The mnemonic with the given name, in either case. -/
def ofName? (name : String) : Option Mnemonic := all.find? fun m => Text.sameName m.name name

/-- The opcode of a mnemonic, with an empty mode field. -/
def opcode (m : Mnemonic) : UInt8 := m.entry.opcode

/-- Whether the instruction has no operand. -/
def isUnary (m : Mnemonic) : Bool := m.entry.form == .unary

/-- Whether the addressing mode has to be written. -/
def modeRequired (m : Mnemonic) : Bool := m.entry.form == .general || m.entry.form == .store

/-- The set of addressing modes that a form admits. -/
def Form.modes : Form → UInt8
  | unary => 0
  | branch => Mode.immediate.bit ||| Mode.indexed.bit
  | general => 0xFF
  | store => 0xFF ^^^ Mode.immediate.bit

/-- The set of addressing modes that an instruction admits. -/
def modes (m : Mnemonic) : UInt8 := m.entry.form.modes

/-- Whether an instruction admits an addressing mode. -/
def allows (m : Mnemonic) (mode : Mode) : Bool := m.modes &&& mode.bit != 0

/-- The instruction specifier: the opcode with the mode in its mode field, which is three bits
wide where the mode is required and one bit wide elsewhere. -/
def specifier (m : Mnemonic) (mode : Mode) : UInt8 :=
  m.opcode + if m.modeRequired then mode.code else mode.shortCode

end Mnemonic

end Pep10
