import Pep10.Proofs.Program.CallFree

/-!
# Calls written out

`Program.inlinedSource` is a text without calls.  In it every call of a program is replaced by the
lines that it stands for: the source lines of the called instance, with its arguments in place and
its own calls replaced in turn, up to the line that ends it.  The label of a call is left to a line
that takes no room.

Every line of this text comes from a site of the expansion (`Program.inlined?`).  The sites that
nothing is left of take no room and emit no code, so that the others stand where they stood.
-/

namespace Pep10

namespace Program

variable {p : Program}

/-! ### The text -/

/-- The source of a line of an instance, with the arguments of the instance in place. -/
def sourceAt (p : Program) (id : Nat) (line : Line) : String := (p.sourceOf id).getD line.number ""

/-- The source lines that a line of the instance `id` stands for, where `inlineChild` tells the same
for called instances. -/
def inlineLine (p : Program) (inlineChild : Nat → List String) (id : Nat) (line : Line) : List String :=
  match line.statement with
  | .call _ _ target => line.label.toList.map markerSource ++ inlineChild target
  | .endMark => if id == root then [p.sourceAt id line] else []
  | _ => [p.sourceAt id line]

/-- The source lines that an instance stands for, down to the given depth. -/
def inlineInstance (p : Program) : Nat → Nat → List String
  | 0, _ => []
  | depth + 1, id => (p.inst id).lines.flatMap (p.inlineLine (p.inlineInstance depth) id)

/-- The source text of a program with its calls written out. -/
def inlinedSource (p : Program) : String := Text.ofLines (p.inlineInstance p.instances.size root)

/-! ### Sites -/

/-- What is left of a site when calls are written out: a source line, and the line that it is read
as. -/
def inlined? (p : Program) (site : Site) : Option (String × Line) :=
  match site.line.statement with
  | .call .. => site.line.label.map fun name =>
      (markerSource name, { marker site.line.number name with address := site.line.address })
  | .endMark =>
    if site.owner == root then some (p.sourceAt site.owner site.line, site.line) else none
  | _ => some (p.sourceAt site.owner site.line, site.line)

/-- The cases of what is left of a site. -/
inductive Inlines (p : Program) (site : Site) : Option (String × Line) → Prop
  | kept (htarget : site.line.statement.target? = none)
      (hend : site.line.statement = .endMark → site.owner = root) :
      Inlines p site (some (p.sourceAt site.owner site.line, site.line))
  | marked {callee name : String} {args : List String} {target : Nat}
      (hcall : site.line.statement = .call callee args target)
      (hlabel : site.line.label = some name) :
      Inlines p site
        (some (markerSource name, { marker site.line.number name with address := site.line.address }))
  | call {callee : String} {args : List String} {target : Nat}
      (hcall : site.line.statement = .call callee args target) (hlabel : site.line.label = none) :
      Inlines p site none
  | endMark (hend : site.line.statement = .endMark) (howner : site.owner ≠ root) :
      Inlines p site none

lemma inlines (p : Program) (site : Site) : Inlines p site (p.inlined? site) := by
  unfold inlined?
  split
  next hcall =>
    cases hlabel : site.line.label with
    | none => exact .call hcall hlabel
    | some name => exact .marked hcall hlabel
  next hend =>
    split
    next howner => exact .kept (by rw [hend]; rfl) fun _ => by simpa using howner
    next howner => exact .endMark hend (by simpa using howner)
  next hcall hend =>
    refine .kept ?_ fun heq => absurd heq hend
    cases hst : site.line.statement with
    | call callee args target => exact absurd hst (hcall callee args target)
    | _ => rfl

/-- The source lines that a line stands for are what is left of its own site, and those of the
instance that it calls. -/
lemma inlineLine_eq (inlineChild : Nat → List String) (site : Site) :
    p.inlineLine inlineChild site.owner site.line =
      (p.inlined? site).toList.map Prod.fst ++
        site.line.statement.target?.elim [] inlineChild := by
  unfold inlineLine inlined?
  split
  next htarget =>
    rw [htarget]
    cases site.line.label <;> rfl
  next hend =>
    rw [hend]
    split <;> rfl
  next hcall _ =>
    cases hst : site.line.statement with
    | call callee args target => exact absurd hst (hcall callee args target)
    | _ => rfl

/-- The source lines that an instance stands for are those that are left of its sites. -/
lemma inlineInstance_eq (depth : Nat) (rootLine : Option Nat) (id : Nat) :
    p.inlineInstance depth id =
      ((p.sitesFrom depth rootLine id).filterMap p.inlined?).map Prod.fst := by
  induction depth generalizing rootLine id with
  | zero => rfl
  | succ depth ih =>
    have hlines : ∀ (lines : List Line) (index : Nat),
        lines.flatMap (p.inlineLine (p.inlineInstance depth) id) =
          ((p.sitesOfLines depth rootLine id index lines).filterMap p.inlined?).map Prod.fst := by
      intro lines
      induction lines with
      | nil => exact fun _ => rfl
      | cons line lines ihlines =>
        intro index
        rw [List.flatMap_cons, ihlines (index + 1), sitesOfLines, List.filterMap_append,
          List.map_append]
        congr 1
        rw [inlineLine_eq _ ⟨id, index, rootLine.getD line.number, line⟩, ← List.singleton_append,
          List.filterMap_append, List.map_append, List.filterMap_eq_flatMap_toList _ [_],
          List.flatMap_singleton]
        congr 1
        cases line.statement.target? with
        | none => rfl
        | some target => exact ih (some (rootLine.getD line.number)) target
    rw [inlineInstance, sitesFrom_succ]
    exact hlines _ 0

/-- The lines that are left of some sites. -/
def inlinedLines (p : Program) (sites : List Site) : List Line :=
  (sites.filterMap p.inlined?).map Prod.snd

section Lines

variable {site : Site} {sites : List Site} {source : String} {line : Line} {a : Int}

lemma inlinedLines_cons_none (h : p.inlined? site = none) :
    p.inlinedLines (site :: sites) = p.inlinedLines sites := by
  rw [inlinedLines, List.filterMap_cons_none h, inlinedLines]

lemma inlinedLines_cons_some (h : p.inlined? site = some (source, line)) :
    p.inlinedLines (site :: sites) = line :: p.inlinedLines sites := by
  rw [inlinedLines, List.filterMap_cons_some h, List.map_cons, inlinedLines]

/-- What is left of contiguous lines is contiguous and takes the same room. -/
lemma contiguous_inlinedLines (h : Contiguous a (sites.map Site.line)) :
    Contiguous a (p.inlinedLines sites) ∧
      room (p.inlinedLines sites) = room (sites.map Site.line) := by
  induction sites generalizing a with
  | nil => exact ⟨trivial, rfl⟩
  | cons site sites ih =>
    obtain ⟨hcont, hroom⟩ := ih h.2
    have hinlines := p.inlines site
    rw [List.map_cons, room_cons]
    rcases hsite : p.inlined? site with _ | ⟨source, line⟩
    · have hzero : site.line.statement.extent = 0 := by
        rw [hsite] at hinlines
        cases hinlines with
        | call hcall => rw [hcall]; rfl
        | endMark hend => rw [hend]; rfl
      rw [inlinedLines_cons_none hsite, hroom, hzero, Nat.zero_add]
      rw [hzero, Int.natCast_zero, Int.add_zero] at hcont
      exact ⟨hcont, rfl⟩
    · have hline : line.startingAt a = line ∧
          line.statement.extent = site.line.statement.extent := by
        rw [hsite] at hinlines
        cases hinlines with
        | kept => exact ⟨h.1, rfl⟩
        | marked hcall hlabel =>
          have haddress := Line.address_of_startingAt h.1
          rw [hcall] at haddress ⊢
          refine ⟨?_, rfl⟩
          rw [haddress]
          rfl
      rw [inlinedLines_cons_some hsite, room_cons, hroom, hline.2]
      exact ⟨⟨hline.1, by rwa [hline.2]⟩, rfl⟩

/-- The labels of the lines at some sites are left. -/
lemma labels_inlinedLines
    (hend : ∀ site ∈ sites, site.line.statement = .endMark → site.line.label = none) :
    (p.inlinedLines sites).filterMap Line.label = (sites.map Site.line).filterMap Line.label := by
  induction sites with
  | nil => rfl
  | cons site sites ih =>
    rw [List.forall_mem_cons] at hend
    have hinlines := p.inlines site
    rw [List.map_cons, List.filterMap_cons, ← ih hend.2]
    rcases hsite : p.inlined? site with _ | ⟨source, line⟩
    · have hlabel : site.line.label = none := by
        rw [hsite] at hinlines
        cases hinlines with
        | call _ hlabel => exact hlabel
        | endMark hmark => exact hend.1 hmark
      rw [inlinedLines_cons_none hsite, hlabel]
    · have hlabel : line.label = site.line.label := by
        rw [hsite] at hinlines
        cases hinlines with
        | kept => rfl
        | marked _ hlabel => exact hlabel.symm
      rw [inlinedLines_cons_some hsite, List.filterMap_cons, hlabel]

end Lines

end Program

end Pep10
