import Pep10.Options
import Pep10.Program.Expansion
import Pep10.Program.Linking

/-!
# Relocation of an operating system

The lines of an operating system from its `.BURN` on are its ROM.  The ROM is moved up as far as it
can go without running beyond the `.BURN` operand.  Since the padding of `.ALIGN` lines depends on
the start of the ROM, the start is searched: down from a first guess until the ROM fits, then up as
long as it still does.  The lines before the `.BURN` are packed against the ROM from above; they
take room in memory and emit no code.
-/

namespace Pep10.Program

/-! ### The end of a layout -/

/-- The address behind lines that are laid out from an address, where `childEnd` tells the same for
called instances. -/
def linesEnd (p : Program) (childEnd : Int → Nat → Int) (table : Nat) (address : Int)
    (lines : List Line) : Int :=
  lines.foldl
    (fun address line =>
      match line.statement with
      | .call _ _ target => childEnd address target
      | s => address + ((s.startingAt address).size p.symbols table).toNat)
    address

/-- The address behind an instance that is laid out from an address, down to the given depth. -/
def instanceEnd (p : Program) : Nat → Int → Nat → Int
  | 0, address, _ => address
  | depth + 1, address, id =>
    p.linesEnd (p.instanceEnd depth) (p.inst id).table address (p.inst id).lines

/-! ### Layout -/

/-- Moves the label of a line to an address.  The label of an `.EQUATE` stays what it is. -/
def moveLabel (p : Program) (table : Nat) (line : Line) (address : Int) : Program :=
  match line.label with
  | none => p
  | some name =>
    if line.statement.isEquate then p
    else p.modifyTable table fun t => t.assign name (.location (UInt16.ofInt address) 0)

/-- Lays a line out at an address, with `layChild` doing the same for called instances; gives the
address behind it. -/
def layLine (layChild : Program → Int → Nat → Program × Int) (emits : Bool) (table : Nat)
    (p : Program) (address : Int) (line : Line) : Program × Int × Line :=
  let line := { line.startingAt address with emits }
  let p := p.moveLabel table line address
  match line.statement with
  | .call _ _ target =>
    let (p, address) := layChild p address target
    (p, address, line)
  | _ => (p, address + (line.size p.symbols table).toNat, line)

/-- Lays lines out from an address; gives the address behind them. -/
def layLines (layChild : Program → Int → Nat → Program × Int) (emits : Bool) (table : Nat) :
    Program → Int → List Line → Program × Int × List Line
  | p, address, [] => (p, address, [])
  | p, address, line :: rest =>
    let (p, address, line) := layLine layChild emits table p address line
    let (p, address, lines) := layLines layChild emits table p address rest
    (p, address, line :: lines)

/-- Lays an instance out from an address, down to the given depth; gives the address behind it. -/
def layInstance (emits : Bool) : Nat → Program → Int → Nat → Program × Int
  | 0, p, address, _ => (p, address)
  | depth + 1, p, address, id =>
    let i := p.inst id
    let (p, address, lines) := layLines (layInstance emits depth) emits i.table p address i.lines
    (p.modifyInstance id fun i => { i with lines }, address)

/-! ### The start of the ROM -/

/-- Goes down, but not below zero, until a start fits; `n` bounds the number of steps. -/
def lowerStart (fits : Int → Bool) : Nat → Int → Int
  | 0, start => start
  | n + 1, start => if start > 0 && !fits start then lowerStart fits n (start - 1) else start

/-- Goes up as long as the next start fits; `n` bounds the number of steps. -/
def raiseStart (fits : Int → Bool) : Nat → Int → Int
  | 0, start => start
  | n + 1, start => if fits (start + 1) then raiseStart fits n (start + 1) else start

/-- The highest start that fits and is at most `limit`, from a first guess. -/
def searchStart (fits : Int → Bool) (limit guess : Int) : Int :=
  let start := lowerStart fits guess.toNat guess
  raiseStart fits (limit - start).toNat start

/-! ### Below the ROM -/

/-- Lays a line out so that it ends at an address; gives the address where it starts.  An `.ALIGN`
line starts at a multiple of its operand. -/
def layBefore (depth : Nat) (table : Nat) (p : Program) (below : Int) (line : Line) :
    Program × Int × Line :=
  match line.statement with
  | .align (.unsigned n) _ =>
    let padding := paddingDown n below
    let address := below - padding.toNat
    (p.moveLabel table line address, address,
      { line.startingAt address with statement := .align (.unsigned n) padding, emits := false })
  | .call _ _ target =>
    let address := below - p.byteCount target
    let p := p.moveLabel table line address
    ((layInstance false depth p address target).1, address,
      { line.startingAt address with emits := false })
  | _ =>
    let address := below - (line.size p.symbols table).toNat
    (p.moveLabel table line address, address, { line.startingAt address with emits := false })

/-- Lays lines out so that they end at an address, the last line first; gives the address where
they start. -/
def layAllBefore (depth : Nat) (table : Nat) (p : Program) (below : Int) :
    List Line → Program × Int × List Line
  | [] => (p, below, [])
  | line :: rest =>
    let (p, below, lines) := layAllBefore depth table p below rest
    let (p, below, line) := layBefore depth table p below line
    (p, below, line :: lines)

/-! ### The program as a whole -/

/-- Relocates an operating system of which `next` bytes were placed by linking. -/
def relocate (p : Program) (next : Nat) : Program × List Fault :=
  let i := p.inst root
  let depth := p.instances.size
  let ram := i.lines.takeWhile fun line => !line.statement.isBurn
  let rom := i.lines.dropWhile fun line => !line.statement.isBurn
  match rom with
  | [] => (p, [])
  | burnLine :: _ =>
    let limit : Int := i.burn.argument.toNat + 1
    let guess := limit - (next - i.burn.address.toNat)
    let fits := fun start => decide (p.linesEnd (p.instanceEnd depth) i.table start rom ≤ limit)
    let start := searchStart fits limit guess
    let (p, _, rom) := layLines (layInstance true depth) true i.table p start rom
    let (p, below, ram) := layAllBefore depth i.table p start ram
    let p := p.modifyInstance root fun i => { i with lines := ram ++ rom }
    if below < 0 then (p, [(burnLine.number, .exceededMemory)])
    else
      (p.modifyInstance root fun i =>
        { i with burn := { i.burn with startRom := UInt16.ofInt start } }, [])

/-- Checks the `.BURN` directives of the root and relocates an operating system. -/
def finishLink (p : Program) (next : Nat) (options : Options) : Program × List Fault :=
  let i := p.inst root
  let burnLines := (i.lines.filter fun line => line.statement.isBurn).map Line.number
  if !p.isSystem then (p, burnLines.head?.toList.map fun number => (number, .burnInUserProgram))
  else if i.burn.count != 1 then (p, [(burnLines.getD 1 0, .notOneBurn)])
  else if options.burnAtTop && i.burn.argument != 0xFFFF then
    (p, [(burnLines.getD 0 0, .burnNotAtTop)])
  else p.relocate next

/-- Links a program, a user program against the exports of an operating system if there are any.
There is no report on success. -/
def link (p : Program) (exports : Option (List ExportedSymbol)) (options : Options) :
    Program × List Report :=
  let (l, faults) := Linker.linkInstance p.instances.size (Linker.start p exports) root
  let (p, faults) :=
    if faults.isEmpty then l.program.finishLink l.next options else (l.program, faults)
  (faults.foldl (fun p (number, e) => p.addDiagnostic root number (.ofLink e)) p,
    faults.map fun (number, e) => ⟨number, .ofLink e⟩)

end Pep10.Program
