import Pep10.Proofs.ListingCode
import Pep10.Proofs.Program.LinkFaults
import Pep10.Proofs.Program.Repetition

/-!
# Programs that cannot be told apart

A program that mirrors another one has other copies in other places, and its imports are elsewhere.
Nothing of this shows: operands have the same values (`Mirrors.value_eq_root`,
`Mirrors.value_eq_copy`), so that the object code and the listing are the same
(`Mirrors.listing_codeOf_eq`).  So is the listing of symbols (`Mirrors.symbolListing_eq`), since no
table has two symbols of one name (`Linker.Links.nodup_names_root`).
-/

namespace Pep10

/-! ### Distinct names -/

namespace Linker

variable {p : Program} {id table : Nat} {l l' : Linker} {line : Line} {lines lines' : List Line}

/-- Binding a line repeats no name in a table. -/
lemma Binds.nodup_names (h : Binds id table l line l') {j : Nat}
    (hnodup : (l.program.symbols.table j).names.Nodup) : (l'.program.symbols.table j).names.Nodup := by
  have hassign : ∀ {l : Linker} {name : String} {v : SymbolValue}, (l.program.symbols.table j).names.Nodup →
      ((l.modifyTable table fun t => t.assign name v).program.symbols.table j).names.Nodup :=
    SymbolStore.nodup_names_modify fun _ ht => SymbolTable.nodup_names_update (fun _ => rfl) ht
  have hrefer : ∀ {l : Linker} {name : String}, (l.program.symbols.table j).names.Nodup →
      ((l.referToRoot table name).program.symbols.table j).names.Nodup := by
    intro l name hl
    unfold referToRoot
    split
    · exact hl
    · exact hassign hl
  obtain ⟨l₁, hlabel, hoperand⟩ := h
  have hfirst : (l₁.program.symbols.table j).names.Nodup := by
    rcases bindLabel_eq_ok hlabel with ⟨-, rfl⟩ | ⟨name, -, ⟨-, rfl⟩ | ⟨_, -, -, rfl⟩⟩
    · exact hnodup
    · exact hnodup
    · split
      · exact hnodup
      · exact hassign hnodup
  rcases bindOperand_eq_ok hoperand with ⟨-, rfl⟩ | ⟨name, -, hresolve⟩
  · exact hfirst
  · rcases resolve_eq_some hresolve with ⟨-, rfl⟩ | ⟨-, -, l₂, rfl, ⟨-, rfl⟩ | ⟨-, himport⟩⟩
    · exact hfirst
    · exact hrefer hfirst
    · obtain ⟨ref, -, rfl⟩ := importToRoot_eq_some himport
      refine hrefer (SymbolStore.nodup_names_modify (fun t ht => ?_) hfirst)
      exact SymbolTable.nodup_names_update (fun _ => rfl) (SymbolTable.nodup_names_mention ht name)

/-- Linking lines repeats no name in the table of the root. -/
lemma Links.nodup_names_root (h : Links p id table l lines l' lines')
    (hnodup : (l.program.symbols.table p.rootTable).names.Nodup) :
    (l'.program.symbols.table p.rootTable).names.Nodup := by
  induction h with
  | nil => exact hnodup
  | plain _ _ hbind _ _ ih => exact ih (hbind.nodup_names hnodup)
  | call hholds _ _ _ hbind _ _ ihbody ihrest =>
    have hholds₁ := hholds.binds hbind
    have hlt := Nat.lt_of_lt_of_le hholds₁.rootTable_lt hholds₁.size_symbols_le
    rw [symbols_copyFor, SymbolStore.table_push_of_lt _ hlt] at ihbody
    exact ihrest (ihbody (hbind.nodup_names hnodup))

end Linker

namespace Program

/-- The assembler repeats no name in the table of the root. -/
lemma nodup_names_of_assemble {p₁ p : Program} {text : String} {kind : ModuleKind} {lib lib' : MacroLibrary}
    (hfind : (ofSource text kind).findIncludes lib = (p₁, [])) (hassemble : p₁.assemble lib = (p, lib', [])) :
    (p.symbols.table root).names.Nodup := by
  obtain ⟨hp, -, -, s, rfl, -, h⟩ := assembling_of_assemble hfind hassemble
  have hroot : (s.program.inst root).assembled = true := h.root_done.resolve_right List.not_mem_nil
  rw [(h.done root hp.root_lt hroot).table_eq]
  refine List.foldlRecOn (motive := fun t => t.names.Nodup) _ SymbolTable.enter ?_ fun _ ht mark _ =>
    SymbolTable.nodup_names_enter ht mark
  exact List.nodup_nil

open Linker (Links Holds)

variable {p q : Program} {kind : ModuleKind} {lo hi c d j depth depth' : Nat} {line : Line}
  {lines lines' : List Line} {R : Line → Line → Prop} {name : String} {exported : List ExportedSymbol}

/-! ### Values -/

/-- No label of the root is exported. -/
def Unexported (p : Program) (exported : List ExportedSymbol) : Prop :=
  ∀ line ∈ (p.inst root).lines, ∀ name, line.label = some name → exportedValue? exported name = none

section Values

variable (hm : Mirrors R exported lo d p q) (hp : Resolved p lo exported) (hun : p.Unexported exported)
  (hq : q.Rooted kind)

include hm hp hun

/-- What the root declares has the same value in both programs. -/
lemma Mirrors.follow_root {k : Nat} {x : Symbol} (hk : (p.symbols.table root).indexOf? name = some k)
    (hx : (p.symbols.table root).find? name = some x) (hdef : x.defined = true) :
    (q.symbols.table root).indexOf? name = some k ∧
      ∃ v, ∀ n, p.symbols.follow (n + 2) ⟨root, k⟩ = some v ∧ q.symbols.follow (n + 2) ⟨root, k⟩ = some v := by
  have hk' : (q.symbols.table root).indexOf? name = some k := by
    rwa [SymbolTable.indexOf?_of_names hm.names_eq]
  refine ⟨hk', ?_⟩
  rcases hp.root_declares name x hx hdef with hlabel | ⟨ref, v, href, hexport, hfollow⟩
  · obtain ⟨v, hword, -⟩ := declaredAs_of_bound hp.root_bound hlabel hx
    obtain ⟨line, hline, hname⟩ := hlabel
    have hx' : (q.symbols.table root).find? name = some x := by
      rw [hm.root_symbols name (hun line hline name hname), hx]
    exact ⟨v, fun n => ⟨follow_word hk hx hword, follow_word hk' hx' hword⟩⟩
  · obtain ⟨x', hx'⟩ := SymbolTable.exists_find? hk'
    obtain ⟨-, ref', href', hfollow'⟩ := hm.imports name v x' hexport hx'
    refine ⟨v, fun n => ⟨?_, ?_⟩⟩
    · rw [SymbolStore.follow_external hk hx href, hfollow]
    · rw [SymbolStore.follow_external hk' hx' href', hfollow']

include hq

/-- What the root declares has the same value in both programs. -/
lemma Mirrors.value_root {x : Symbol} (hx : (p.symbols.table root).find? name = some x)
    (hdef : x.defined = true) : q.symbols.value? root name = p.symbols.value? root name := by
  obtain ⟨k, hk⟩ := SymbolTable.exists_indexOf? hx
  obtain ⟨hk', v, hv⟩ := Mirrors.follow_root hm hp hun hk hx hdef
  obtain ⟨n, hn⟩ : ∃ n, p.symbols.size + 1 = n + 2 := ⟨p.symbols.size - 1, by have := hp.root_lt; omega⟩
  obtain ⟨n', hn'⟩ : ∃ n, q.symbols.size + 1 = n + 2 := ⟨q.symbols.size - 1, by have := hq.table_lt; omega⟩
  rw [SymbolStore.value?_of_indexOf? hk, SymbolStore.value?_of_indexOf? hk', hn, hn', (hv n).1, (hv n').2]

/-- The operands of the root have the same values in both programs. -/
lemma Mirrors.value_eq_root (hline : line ∈ (p.inst root).lines) (hname : line.statement.symbol? = some name) :
    q.symbols.value? (q.inst root).table name = p.symbols.value? (p.inst root).table name := by
  have htable : (p.inst root).table = root := hp.root_table
  have htable' : (q.inst root).table = root := hq.root_table
  obtain ⟨x, hx, hdef | ⟨-, hne, -⟩⟩ := (hp.root_bound line hline).operand name hname
  · rw [htable, htable']
    exact Mirrors.value_root hm hp hun hq hx hdef
  · exact absurd rfl hne

omit hq in
/-- The operands of a copy have the same values in both programs. -/
lemma Mirrors.value_eq_copy (hlo : lo ≤ j) (hhi : j < p.instances.size) (hline : line ∈ (p.inst j).lines)
    (hname : line.statement.symbol? = some name) :
    q.symbols.value? (q.inst (j + d)).table name = p.symbols.value? (p.inst j).table name := by
  have hclosed := hp.closed j hlo hhi
  have hsame := hm.symbols j hlo hhi name
  obtain ⟨x, hx, hdef | ⟨-, -, i, y, hi, hy, hydef, hval⟩⟩ := (hclosed.bound line hline).operand name hname
  · obtain ⟨k, hk⟩ := SymbolTable.exists_indexOf? hx
    rw [hx] at hsame
    obtain ⟨k', hk'⟩ := SymbolTable.exists_indexOf? hsame
    obtain ⟨v, hword, -⟩ := declaredAs_of_bound hclosed.bound (hclosed.declared name x hx hdef) hx
    rw [SymbolStore.value?_of_indexOf? hk, SymbolStore.value?_of_indexOf? hk', follow_word hk hx hword,
      follow_word hk' hsame hword]
  · obtain ⟨k, hk⟩ := SymbolTable.exists_indexOf? hx
    rw [hx] at hsame
    obtain ⟨k', hk'⟩ := SymbolTable.exists_indexOf? hsame
    obtain ⟨-, v, hv⟩ := Mirrors.follow_root hm hp hun hi hy hydef
    obtain ⟨n, hn⟩ : ∃ n, p.symbols.size + 1 = (n + 2) + 1 :=
      ⟨p.symbols.size - 2, by have := hp.table_lt j hlo hhi; omega⟩
    obtain ⟨n', hn'⟩ : ∃ n, q.symbols.size + 1 = (n + 2) + 1 :=
      ⟨q.symbols.size - 2, by have := hm.table_lt j hlo hhi; omega⟩
    rw [SymbolStore.value?_of_indexOf? hk, SymbolStore.value?_of_indexOf? hk', hn, hn',
      SymbolStore.follow_external hk hx hval, SymbolStore.follow_external hk' hsame hval, (hv n).1, (hv n').2]

end Values

/-! ### Code and listing -/

/-- The code of some lines that belong to an instance with the given table, with the code of the
instances that they call. -/
def linesCode (p : Program) (depth table : Nat) (lines : List Line) : List UInt8 :=
  lines.flatMap fun line => line.code p.symbols table ++
    match line.statement.target? with
    | some target => (p.sitesFrom depth none target).flatMap p.codeAt
    | none => []

/-- The code of an instance is that of its lines. -/
lemma code_sitesFrom_succ (p : Program) (depth id : Nat) :
    (p.sitesFrom (depth + 1) none id).flatMap p.codeAt =
      p.linesCode depth (p.inst id).table (p.inst id).lines := by
  rw [sitesFrom_succ, code_sitesOfLines]
  rfl

/-- The listing of a line that is no call depends on its code. -/
lemma listingIn_congr {listChild listChild' : Nat → String} {s s' : SymbolStore} {i i' : Instance} {isRoot : Bool}
    (h : line.statement.target? = none) (hcode : line.code s' i'.table = line.code s i.table) :
    line.listingIn listChild' s' i' isRoot = line.listingIn listChild s i isRoot := by
  rw [Line.listingIn, Line.listingIn, hcode]
  cases hst : line.statement with
  | call name args target =>
    rw [hst] at h
    cases h
  | _ => rfl

/-- Lines that are the same, and call instances with the same lines, are listed in the same way and
have the same code, if they have the same code one by one. -/
lemma Spans.listing_code_eq (h : Spans p lo lines hi) (hroot : root < lo) (hdepth : hi - lo ≤ depth)
    (hdepth' : hi - lo ≤ depth') (hlines : List.Forall₂ (Line.Retargets d) lines lines')
    (hinst : ∀ j, lo ≤ j → j < hi → List.Forall₂ (Line.Retargets d) (p.inst j).lines (q.inst (j + d)).lines ∧
      ∀ line ∈ (p.inst j).lines, line.code q.symbols (q.inst (j + d)).table = line.code p.symbols (p.inst j).table)
    {i i' : Instance} (hcode : ∀ line ∈ lines, line.code q.symbols i'.table = line.code p.symbols i.table)
    (isRoot : Bool) :
    lines'.map (Line.listingIn (q.listInstance depth') q.symbols i' isRoot) =
        lines.map (Line.listingIn (p.listInstance depth) p.symbols i isRoot) ∧
      q.linesCode depth' i'.table lines' = p.linesCode depth i.table lines := by
  induction h generalizing depth depth' lines' i i' isRoot with
  | nil =>
    cases hlines
    simp only [List.map_nil, linesCode, List.flatMap_nil, and_self]
  | @plain lo hi line rest hline _ ih =>
    obtain _ | ⟨hsame, hlines⟩ := hlines
    rw [List.forall_mem_cons] at hcode
    obtain ⟨hlist, hbytes⟩ := ih hroot hdepth hdepth' hlines hinst hcode.2 isRoot
    rw [Line.Retargets, Statement.retarget_of_target?_none hline] at hsame
    subst hsame
    rw [List.map_cons, List.map_cons, hlist, listingIn_congr hline hcode.1]
    refine ⟨rfl, ?_⟩
    rw [linesCode, linesCode, List.flatMap_cons, List.flatMap_cons, hline, hcode.1]
    exact congrArg (line.code p.symbols i.table ++ [] ++ ·) hbytes
  | @call lo mid hi line rest hline hbody hrest ihbody ihrest =>
    obtain _ | ⟨hsame, hlines⟩ := hlines
    rw [List.forall_mem_cons] at hcode
    have h1 := hbody.le
    have h2 := hrest.le
    obtain ⟨depth, rfl⟩ : ∃ n, depth = n + 1 := ⟨depth - 1, by omega⟩
    obtain ⟨depth', rfl⟩ : ∃ n, depth' = n + 1 := ⟨depth' - 1, by omega⟩
    obtain ⟨hcalled, hcalledCode⟩ := hinst lo (Nat.le_refl lo) (by omega)
    obtain ⟨hlist₁, hbytes₁⟩ := ihbody (by omega) (show mid - (lo + 1) ≤ depth by omega)
      (show mid - (lo + 1) ≤ depth' by omega) hcalled (fun j hj hj' => hinst j (by omega) (by omega)) hcalledCode
      false
    obtain ⟨hlist₂, hbytes₂⟩ := ihrest (by omega) (show hi - mid ≤ depth + 1 by omega)
      (show hi - mid ≤ depth' + 1 by omega) hlines (fun j hj hj' => hinst j (by omega) hj') hcode.2 isRoot
    obtain ⟨name, args, hst⟩ := Statement.eq_call_of_target? hline
    have hne : (lo == root) = false := beq_false_of_ne (by omega)
    have hne' : (lo + d == root) = false := beq_false_of_ne (by omega)
    have hchild : q.listInstance (depth' + 1) (lo + d) = p.listInstance (depth + 1) lo := by
      rw [listInstance, listInstance, hne, hne', hlist₁]
    have hchildCode : (q.sitesFrom (depth' + 1) none (lo + d)).flatMap q.codeAt =
        (p.sitesFrom (depth + 1) none lo).flatMap p.codeAt := by
      rw [code_sitesFrom_succ, code_sitesFrom_succ, hbytes₁]
    rename_i line' rest'
    have hmoved : Line.MovedBy d line line' := hsame.echoes.movedBy
    have hst' := hmoved.statement_eq hst
    constructor
    · have hfirst : line'.listingIn (q.listInstance (depth' + 1)) q.symbols i' isRoot =
          line.listingIn (p.listInstance (depth + 1)) p.symbols i isRoot := by
        rw [Line.listingIn, Line.listingIn, hst, hst']
        dsimp only
        rw [hchild, Line.source_of_shape hmoved.shape_eq]
      rw [List.map_cons, List.map_cons, hlist₂, hfirst]
    · have htarget' : line'.statement.target? = some (lo + d) := by
        rw [hst']
        rfl
      rw [linesCode, linesCode] at hbytes₂ ⊢
      rw [List.flatMap_cons, List.flatMap_cons, hline, htarget', Line.code_of_target? hline,
        Line.code_of_target? htarget']
      dsimp only
      rw [hchildCode, hbytes₂]

section Outputs

variable (hm : Mirrors (Line.Retargets d) exported lo d p q) (hp : Resolved p lo exported)
  (hun : p.Unexported exported) (hq : q.Rooted kind)

include hm hp hun hq

/-- The listing and the object code of a program are those of a program that mirrors it. -/
theorem Mirrors.listing_codeOf_eq (hlo : root < lo)
    (hspans : Spans p lo (p.inst root).lines p.instances.size) :
    q.listing = p.listing ∧ q.codeOf root = p.codeOf root := by
  have hsize := hspans.le
  obtain ⟨n, hn⟩ : ∃ n, p.instances.size = n + 1 := ⟨p.instances.size - 1, by omega⟩
  have hn' : q.instances.size = (n + d) + 1 := by rw [hm.size_eq, hn]; omega
  obtain ⟨hlist, hcode⟩ := hspans.listing_code_eq hlo (show p.instances.size - lo ≤ n by omega)
    (show p.instances.size - lo ≤ n + d by omega) hm.root_lines
    (fun j hj hj' => ⟨hm.lines j hj hj', fun line hline => Line.code_congr fun name hname =>
      Mirrors.value_eq_copy hm hp hun hj hj' hline hname⟩)
    (fun line hline => Line.code_congr fun name hname => Mirrors.value_eq_root hm hp hun hq hline hname) true
  refine ⟨?_, ?_⟩
  · rw [listing, listing, hn, hn', listInstance, listInstance]
    exact congrArg String.join hlist
  · rw [codeOf, codeOf, sites, sites, hn, hn', code_sitesFrom_succ, code_sitesFrom_succ, hcode]

omit hq in
/-- The symbols that are listed are the same in both programs. -/
lemma Mirrors.listed_eq (hnodup : (p.symbols.table root).names.Nodup) :
    (q.symbols.table root).symbols.filter isListed = (p.symbols.table root).symbols.filter isListed := by
  refine SymbolTable.filter_eq_of_names hm.names_eq hnodup fun name x x' hx hx' => ?_
  cases hexport : exportedValue? exported name with
  | none =>
    rw [hm.root_symbols name hexport, hx] at hx'
    cases hx'
    exact ⟨rfl, fun _ => rfl⟩
  | some v =>
    -- What is exported is an import in both programs, and imports are not listed.
    have hfalse : isListed x = false := by
      rw [isListed]
      by_cases hdef : x.defined = true
      · rcases hp.root_declares name x hx hdef with ⟨line, hline, hlabel⟩ | ⟨ref, _, href, -⟩
        · rw [hun line hline name hlabel] at hexport
          cases hexport
        · rw [href, Bool.and_false]
      · rw [Bool.eq_false_of_not_eq_true hdef, Bool.false_and]
    obtain ⟨-, ref, href, -⟩ := hm.imports name v x' hexport hx'
    refine ⟨?_, fun htrue => ?_⟩
    · rw [hfalse, isListed, href, Bool.and_false]
    · rw [hfalse] at htrue
      cases htrue

/-- The listing of symbols is the same in both programs. -/
theorem Mirrors.symbolListing_eq (hnodup : (p.symbols.table root).names.Nodup) :
    q.symbolListing = p.symbolListing := by
  have hroot : p.rootTable = root := hp.root_table
  rw [symbolListing, symbolListing, hroot, hq.root_table, Mirrors.listed_eq hm hp hun hnodup]
  congr 1
  refine List.map_congr_left fun x hx => ?_
  obtain ⟨hmem, hlisted⟩ := List.mem_filter.1 (Ordered.mem_sort.1 hx)
  have hvalue := Mirrors.value_root hm hp hun hq (SymbolTable.find?_of_mem hnodup hmem)
    (Bool.and_eq_true_iff.1 hlisted).1
  rw [symbolLine, symbolLine, hroot, hq.root_table, hvalue]

end Outputs

end Program

end Pep10
