import Pep10.Proofs.Program.Copies

/-!
# Every call has an instance of its own

Linking copies an instance for every call of it, and the calls inside the copy get copies in turn.
So the instances that are met in the expansion of a linked program are different, and so are their
symbol tables; all of them but the root have come with linking; and the instances that were there
before, the root apart, are as they were, together with their symbol tables.
-/

namespace Pep10.Program

open Linker (Links)

variable {p p₁ q : Program} {lib lib' : MacroLibrary} {text : String} {kind : ModuleKind}
  {exports : Option (List ExportedSymbol)} {options : Options} {l : Linker} {lines : List Line}
  {id lo : Nat}

/-! ### Originals -/

/-- The first pass leaves every instance but the root alone, together with its symbol table. -/
lemma Ready.original_store (h : Ready text kind lib p)
    (hlinks : Links (Linker.start p exports).program root root (Linker.start p exports)
      (p.inst root).lines l lines) (hid : id < p.instances.size) (hne : id ≠ root) :
    (l.store root lines).program.inst id = p.inst id ∧
      (l.store root lines).program.symbols.table id = p.symbols.table id := by
  have hholds := hlinks.holds'
  constructor
  · rw [Linker.inst_store_ne hne, hholds.inst_eq id (by rwa [instances_start]), inst_start]
  · have hlt : id < (Linker.start p exports).program.symbols.size :=
      Nat.lt_of_lt_of_le (by rwa [h.sizes]) size_symbols_start
    rw [Linker.symbols_store, hholds.table_eq id hlt (by rwa [h.rootTable_start]),
      h.table_start exports hid hne]

/-- The symbol tables of copies have come with the copies. -/
lemma Ready.le_table_store (h : Ready text kind lib p)
    (hlinks : Links (Linker.start p exports).program root root (Linker.start p exports)
      (p.inst root).lines l lines) (hlo : p.instances.size ≤ id)
    (hid : id < (l.store root lines).program.instances.size) :
    p.instances.size ≤ ((l.store root lines).program.inst id).table := by
  rw [Linker.size_store] at hid
  have hnumber := hlinks.holds'.numbered id (by rwa [instances_start]) hid
  have hsize : p.symbols.size ≤ (Linker.start p exports).program.symbols.size := size_symbols_start
  rw [Linker.inst_store_ne (Nat.ne_of_gt (Nat.lt_of_lt_of_le h.root_lt hlo))]
  rw [instances_start] at hnumber
  rw [h.sizes] at hsize
  omega

/-- Linking leaves every instance but the root alone, together with its symbol table. -/
lemma Ready.original (h : Ready text kind lib p) (hlink : p.link exports options = (q, []))
    (hid : id < p.instances.size) (hne : id ≠ root) :
    q.inst id = p.inst id ∧ q.symbols.table id = p.symbols.table id := by
  obtain ⟨l, lines, hlinks, hfinish⟩ := h.exists_links hlink
  obtain ⟨hinst, htable⟩ := h.original_store hlinks hid hne
  by_cases hkind : kind = .operatingSystem
  · subst hkind
    obtain ⟨-, below, hrelocates⟩ := h.relocates hlinks hfinish
    have hroot : (l.store root lines).program.rootTable = root := (h.resolved hlinks).root_table
    rw [hrelocates.inst_eq hid hne, hinst, hrelocates.table_eq (by rwa [hroot]) ?_, htable]
    · exact ⟨rfl, rfl⟩
    · intro j hj hj'
      have := h.le_table_store hlinks hj hj'
      omega
  · rw [h.eq_of_finishLink hkind hlinks hfinish]
    exact ⟨hinst, htable⟩

/-! ### Copies -/

/-- The root and the copies have different symbol tables. -/
lemma Resolved.nodup_tables {exports : List ExportedSymbol} (h : Resolved q lo exports) :
    ((root :: List.range' lo (q.instances.size - lo)).map fun id => (q.inst id).table).Nodup := by
  have hrange : ∀ id ∈ List.range' lo (q.instances.size - lo), lo ≤ id ∧ id < q.instances.size := by
    intro id hid
    rw [List.mem_range'_1] at hid
    omega
  rw [List.map_cons, List.nodup_cons]
  constructor
  · intro hmem
    obtain ⟨id, hid, heq⟩ := List.mem_map.1 hmem
    obtain ⟨hlo, hhi⟩ := hrange id hid
    have hroot : (q.inst root).table = root := h.root_table
    have := (h.table_lt id hlo hhi).1
    omega
  · refine List.Nodup.map_on (fun i hi j hj heq => ?_) List.nodup_range'
    obtain ⟨hi, hi'⟩ := hrange i hi
    obtain ⟨hj, hj'⟩ := hrange j hj
    exact h.table_inj i j hi hi' hj hj' heq

/-- In a linked program the calls of the expansion lead to different instances.  These and the root
are the instances that can be reached, to which all lines of the expansion belong; they have
different symbol tables; and all of them but the root have come with linking.  Every instance that
was there before, the root apart, is as it was, and so is its symbol table. -/
theorem callSites_separate (hfind : (ofSource text kind).findIncludes lib = (p₁, []))
    (hassemble : p₁.assemble lib = (p, lib', [])) (hlink : p.link exports options = (q, [])) :
    (q.reachable root).Perm (root :: (q.sites root).filterMap Site.target?) ∧
      (∀ site ∈ q.sites root, site.owner ∈ q.reachable root) ∧
      (q.reachable root).Nodup ∧
      ((q.reachable root).map fun id => (q.inst id).table).Nodup ∧
      (∀ id ∈ q.reachable root, id = root ∨ p.instances.size ≤ id ∧ id < q.instances.size) ∧
      ∀ id < p.instances.size, id ≠ root → q.inst id = p.inst id ∧
        q.symbols.table (p.inst id).table = p.symbols.table (p.inst id).table := by
  have hready := ready_of_assemble hfind hassemble
  obtain ⟨hspans, hresolved⟩ := hready.linked hlink
  have hperm := hspans.reachable_perm hready.root_lt
  obtain ⟨depth, hdepth, hsites⟩ := hspans.sites_eq hready.root_lt
  refine ⟨?_, fun site hsite => ?_, ?_, ?_, fun id => (hspans.mem_reachable_iff hready.root_lt).1,
    fun id hid hne => ?_⟩
  · rwa [hsites, hspans.targets_sites hdepth]
  · rw [hsites] at hsite
    rw [hspans.mem_reachable_iff hready.root_lt]
    exact (hspans.mem_sites hdepth hsite).imp (fun h => h.1) fun h => ⟨h.1, h.2.1⟩
  · rw [hperm.nodup_iff, List.nodup_cons, List.mem_range'_1]
    have := hready.root_lt
    exact ⟨by omega, List.nodup_range'⟩
  · rw [(hperm.map _).nodup_iff]
    exact hresolved.nodup_tables
  · rw [hready.table_eq id hid]
    exact hready.original hlink hid hne

/-- A macro with a label of its own, and one that calls it twice. -/
def spinLibrary : MacroLibrary :=
  ⟨[⟨"SPIN", 0, .user, "@SPIN 0\nspin: BR spin\n.END\n"⟩,
    ⟨"SPINS", 0, .user, "@SPINS 0\n@SPIN\n@SPIN\n.END\n"⟩]⟩

/-- An operating system that calls both macros before its ROM and in it. -/
def spinSource : String := "@SPINS\n.BURN 0xFFFF\n@SPIN\n@SPINS\n.END\n"

/-- Three instances become ten when they are linked, eight of which are met, with eight symbol
tables; the two that were copied stay as they were. -/
theorem callSites_separate_spin :
    ∃ p₁ p q lib', (ofSource spinSource .operatingSystem).findIncludes spinLibrary = (p₁, []) ∧
      p₁.assemble spinLibrary = (p, lib', []) ∧ p.link none {} = (q, []) ∧ p.instances.size = 3 ∧
      q.instances.size = 10 ∧ (q.reachable root).length = 8 ∧ (q.reachable root).Nodup ∧
      ((q.reachable root).map fun id => (q.inst id).table).Nodup ∧ q.inst 2 = p.inst 2 ∧
      q.symbols.table (p.inst 2).table = p.symbols.table (p.inst 2).table := by
  obtain ⟨f, hf⟩ : ∃ f, f = (ofSource spinSource .operatingSystem).findIncludes spinLibrary := ⟨_, rfl⟩
  obtain ⟨a, ha⟩ : ∃ a, a = f.1.assemble spinLibrary := ⟨_, rfl⟩
  obtain ⟨k, hk⟩ : ∃ k, k = a.1.link none {} := ⟨_, rfl⟩
  obtain ⟨hfind, hassemble, hlink, hbefore, hafter, hcount⟩ : f.2 = [] ∧ a.2.2 = [] ∧ k.2 = [] ∧
      a.1.instances.size = 3 ∧ k.1.instances.size = 10 ∧ (k.1.reachable root).length = 8 := by
    rw [hk, ha, hf, ofSource_of_chars spinSource rfl]
    decide +kernel
  have hfind' : (ofSource spinSource .operatingSystem).findIncludes spinLibrary = (f.1, []) := by
    rw [← hf, ← hfind]
  have hassemble' : f.1.assemble spinLibrary = (a.1, a.2.1, []) := by rw [← ha, ← hassemble]
  have hlink' : a.1.link none {} = (k.1, []) := by rw [← hk, ← hlink]
  obtain ⟨-, -, hnodup, htables, -, hframe⟩ := callSites_separate hfind' hassemble' hlink'
  obtain ⟨hinst, htable⟩ := hframe 2 (by rw [hbefore]; decide) (by decide)
  exact ⟨f.1, a.1, k.1, a.2.1, hfind', hassemble', hlink', hbefore, hafter, hcount, hnodup, htables,
    hinst, htable⟩

end Pep10.Program
