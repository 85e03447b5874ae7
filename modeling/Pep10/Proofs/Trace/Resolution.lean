import Pep10.Proofs.Digraph.Cycles
import Pep10.Trace.Declaration

/-!
# Which declared types are entered

Declarations are entered in rounds, and what a round enters depends on the order of the
declarations.  What has been entered in the end does not.  `Unfolds` says, without any rounds, which
type a name stands for, and `find?_resolveAll_iff` that exactly these types are entered: rounds
enter nothing else, and where they come to an end, every declaration that is left has a tag without
a type.  A name stands for a type exactly if all that it refers to is declared and no chain of
references from it runs into a cycle (`exists_unfolds_iff`), since among finitely many names a chain
that does not end comes back.
-/

namespace Pep10.Trace

open Relation (ReflTransGen TransGen)

/-! ### References and unfolding -/

/-- The name in a tag that refers to a declaration. -/
def Tag.name? : Tag → Option String
  | symbol name => some name
  | _ => none

/-- The type that a tag stands for in a struct, `meaning` being what names stand for. -/
def Tag.typeWith (meaning : String → DataType) : Tag → DataType
  | primitive format => .primitive "" format
  | array format length => .array "" format length
  | symbol name => meaning name

namespace Declaration

variable {ds ds' pending left : List Declaration} {d : Declaration} {name : String} {t : DataType}
  {types types' : Types} {meaning : String → DataType}

/-- The names in the tags of a declaration. -/
def references (d : Declaration) : List String := d.tags.filterMap Tag.name?

/-- There is a declaration under the given name. -/
def Declares (ds : List Declaration) (name : String) : Prop := ∃ d ∈ ds, d.name = name

/-- The declaration under the name `a` has a tag that names `b`. -/
def Refers (ds : List Declaration) (a b : String) : Prop := ∃ d ∈ ds, d.name = a ∧ b ∈ d.references

/-- All that a name refers to, directly or not, is declared, and no chain of references from it runs
into a cycle. -/
structure Grounded (ds : List Declaration) (name : String) : Prop where
  declares : Declares ds name
  reaches : ∀ m, TransGen (Refers ds) name m → Declares ds m
  acyclic : ¬ReachesCycle (Refers ds) name

/-- The type that a name stands for when its declaration is unfolded: a single format under that
name, or else the struct of what the tags stand for. -/
inductive Unfolds (ds : List Declaration) : String → DataType → Prop
  | primitive {d : Declaration} {format : Format} (hd : d ∈ ds) (htags : d.tags = [.primitive format]) :
      Unfolds ds d.name (.primitive d.name format)
  | array {d : Declaration} {format : Format} {length : UInt16} (hd : d ∈ ds)
      (htags : d.tags = [.array format length]) : Unfolds ds d.name (.array d.name format length)
  | struct {d : Declaration} (meaning : String → DataType) (hd : d ∈ ds)
      (htags : ∀ tag, d.tags = [tag] → tag.name?.isSome = true)
      (h : ∀ name ∈ d.references, Unfolds ds name (meaning name)) :
      Unfolds ds d.name (.struct d.name (d.tags.map (Tag.typeWith meaning)))

/-! ### The type of a declaration -/

lemma find?_cons (types : Types) (a b : String) (t : DataType) :
    Types.find? ((a, t) :: types) b = if b = a then some t else types.find? b := by
  rw [Types.find?, List.lookup_cons]
  by_cases hab : b = a
  · rw [if_pos hab, beq_iff_eq.2 hab]
  · rw [if_neg hab, beq_eq_false_iff_ne.2 hab]
    rfl

/-- If all names in some tags have a type, then so have the tags. -/
lemma mapM_type?_eq_some {tags : List Tag}
    (h : ∀ name ∈ tags.filterMap Tag.name?, types.find? name = some (meaning name)) :
    tags.mapM (Tag.type? types "") = some (tags.map (Tag.typeWith meaning)) := by
  induction tags with
  | nil => rfl
  | cons tag tags ih =>
    have htail := ih fun name hname => h name (by
      rw [List.filterMap_cons]
      split
      · exact hname
      · exact List.mem_cons_of_mem _ hname)
    have hhead : Tag.type? types "" tag = some (tag.typeWith meaning) := by
      cases tag with
      | primitive format => rfl
      | array format length => rfl
      | symbol name => exact h name (List.mem_filterMap.2 ⟨_, List.mem_cons_self, rfl⟩)
    rw [List.mapM_cons, hhead, htail]
    rfl

lemma isSome_of_mapM_type? {tags : List Tag} {fields : List DataType}
    (h : tags.mapM (Tag.type? types "") = some fields) (hmem : name ∈ tags.filterMap Tag.name?) :
    (types.find? name).isSome = true := by
  induction tags generalizing fields with
  | nil => cases hmem
  | cons tag tags ih =>
    rw [List.mapM_cons] at h
    obtain ⟨field, hfield, h⟩ := Option.bind_eq_some_iff.1 h
    obtain ⟨fields', hfields, -⟩ := Option.bind_eq_some_iff.1 h
    obtain ⟨tag', htag, hname⟩ := List.mem_filterMap.1 hmem
    rcases List.mem_cons.1 htag with heq | htag
    · subst heq
      cases tag' with
      | primitive format => cases hname
      | array format length => cases hname
      | symbol declared =>
        cases hname
        change types.find? name = some field at hfield
        rw [hfield]
        rfl
    · exact ih hfields (List.mem_filterMap.2 ⟨tag', htag, hname⟩)

/-- A declaration declares a type exactly if all names in its tags have one. -/
lemma type?_eq_some_iff : d.type? types = some t ↔
    ∃ meaning, (∀ name ∈ d.references, types.find? name = some (meaning name)) ∧
      t = typeOf d.name d.tags (d.tags.map (Tag.typeWith meaning)) := by
  constructor
  · intro h
    obtain ⟨fields, hfields, rfl⟩ := Option.map_eq_some_iff.1 h
    have hmeaning : ∀ name ∈ d.references,
        types.find? name = some ((types.find? name).getD default) := by
      intro name hname
      obtain ⟨t, ht⟩ := Option.isSome_iff_exists.1 (isSome_of_mapM_type? hfields hname)
      rw [ht, Option.getD_some]
    rw [mapM_type?_eq_some hmeaning] at hfields
    cases hfields
    exact ⟨_, hmeaning, rfl⟩
  · rintro ⟨meaning, hmeaning, rfl⟩
    rw [type?, mapM_type?_eq_some hmeaning, Option.map_some]

/-- The names in the tags of a declaration that have no type. -/
lemma missing_eq (types : Types) (d : Declaration) :
    d.missing types = d.references.filter fun name => (types.find? name).isNone := by
  rw [missing, references, List.filter_filterMap]
  congr 1
  funext tag
  cases tag with
  | primitive format => rfl
  | array format length => rfl
  | symbol name => cases h : types.find? name <;> simp [Tag.name?, h, Option.filter]

/-- A declaration that declares no type has a name in its tags without a type. -/
lemma missing_ne_nil (h : d.type? types = none) : d.missing types ≠ [] := by
  rw [missing_eq]
  intro hnil
  have htyped : ∀ name ∈ d.references, types.find? name = some ((types.find? name).getD default) := by
    intro name hname
    have hnone := List.filter_eq_nil_iff.1 hnil name hname
    cases hfind : types.find? name with
    | none =>
      rw [hfind] at hnone
      exact absurd rfl hnone
    | some t => rw [Option.getD_some]
  rw [type?_eq_some_iff.2 ⟨_, htyped, rfl⟩] at h
  cases h

/-- If the names in its tags unfold, then so does the name of a declaration. -/
lemma unfolds_typeOf (hd : d ∈ ds) (h : ∀ name ∈ d.references, Unfolds ds name (meaning name)) :
    Unfolds ds d.name (typeOf d.name d.tags (d.tags.map (Tag.typeWith meaning))) := by
  unfold typeOf
  split
  next format field htags hfields =>
    rw [htags] at hfields
    cases hfields
    exact .primitive hd htags
  next format length field htags hfields =>
    rw [htags] at hfields
    cases hfields
    exact .array hd htags
  next hprimitive harray =>
    refine .struct meaning hd (fun tag htags => ?_) h
    cases tag with
    | primitive format => exact absurd (by rw [htags]; rfl) (hprimitive format _ htags)
    | array format length => exact absurd (by rw [htags]; rfl) (harray format length _ htags)
    | symbol name => rfl

/-! ### Entering declarations -/

/-- One declaration is entered that has not been, all names in its tags having a type. -/
inductive Enters (ds : List Declaration) : Types → Types → Prop
  | enter {d : Declaration} {t : DataType} {types : Types} (hd : d ∈ ds)
      (hnew : types.find? d.name = none) (ht : d.type? types = some t) :
      Enters ds types ((d.name, t) :: types)

/-- What has been entered stays. -/
lemma Enters.find? (h : Enters ds types types') (ht : types.find? name = some t) :
    types'.find? name = some t := by
  cases h with
  | enter hd hnew htype =>
    rw [find?_cons, if_neg]
    · exact ht
    · rintro rfl
      rw [hnew] at ht
      cases ht

lemma find?_of_reflTransGen (h : ReflTransGen (Enters ds) types types')
    (ht : types.find? name = some t) : types'.find? name = some t := by
  induction h with
  | refl => exact ht
  | tail _ hstep ih => exact hstep.find? ih

lemma Enters.type? (h : Enters ds types types') (ht : d.type? types = some t) :
    d.type? types' = some t := by
  obtain ⟨meaning, hmeaning, rfl⟩ := type?_eq_some_iff.1 ht
  exact type?_eq_some_iff.2 ⟨meaning, fun name hname => h.find? (hmeaning name hname), rfl⟩

/-- Every type that has been entered is the type of a declaration. -/
lemma exists_type?_of_find? (h : ReflTransGen (Enters ds) [] types) (ht : types.find? name = some t) :
    ∃ d ∈ ds, d.name = name ∧ d.type? types = some t := by
  induction h generalizing name t with
  | refl => cases ht
  | tail _ hstep ih =>
    have hkeeps : ∀ {d : Declaration} {t : DataType}, d.type? _ = some t → d.type? _ = some t := hstep.type?
    cases hstep with
    | enter hd hnew htype =>
      rw [find?_cons] at ht
      split at ht
      next hname =>
        cases ht
        exact ⟨_, hd, hname.symm, hkeeps htype⟩
      next =>
        obtain ⟨d', hd', hname, htype'⟩ := ih ht
        exact ⟨d', hd', hname, hkeeps htype'⟩

/-- Every type that has been entered is what its name stands for. -/
lemma unfolds_of_find? (h : ReflTransGen (Enters ds) [] types) (ht : types.find? name = some t) :
    Unfolds ds name t := by
  induction h generalizing name t with
  | refl => cases ht
  | tail _ hstep ih =>
    cases hstep with
    | enter hd hnew htype =>
      rw [find?_cons] at ht
      split at ht
      next hname =>
        cases ht
        obtain ⟨meaning, hmeaning, rfl⟩ := type?_eq_some_iff.1 htype
        rw [hname]
        exact unfolds_typeOf hd fun name hname => ih (hmeaning name hname)
      next => exact ih ht

/-! ### Rounds -/

/-- The declarations without a type. -/
def untyped (types : Types) (ds : List Declaration) : List Declaration :=
  ds.filter fun d => (types.find? d.name).isNone

lemma mem_untyped : d ∈ untyped types ds ↔ d ∈ ds ∧ types.find? d.name = none := by
  rw [untyped, List.mem_filter, Option.isNone_iff_eq_none]

/-- A round enters declarations and leaves those without a type. -/
lemma round_enters (hsub : ∀ d ∈ pending, d ∈ ds) (hnames : (pending.map Declaration.name).Nodup)
    (hnew : ∀ d ∈ pending, types.find? d.name = none) :
    ReflTransGen (Enters ds) types (round types pending).1 ∧
      (round types pending).2 = untyped (round types pending).1 pending ∧
      ∀ a, a ∉ pending.map Declaration.name → (round types pending).1.find? a = types.find? a := by
  induction pending generalizing types with
  | nil => exact ⟨.refl, rfl, fun _ _ => rfl⟩
  | cons d rest ih =>
    rw [List.forall_mem_cons] at hsub hnew
    rw [List.map_cons, List.nodup_cons] at hnames
    rw [round]
    cases htype : d.type? types with
    | some t =>
      have hother : ∀ d' ∈ rest, d'.name ≠ d.name :=
        fun d' hd' heq => hnames.1 (List.mem_map.2 ⟨d', hd', heq⟩)
      have hstill : ∀ d' ∈ rest, Types.find? ((d.name, t) :: types) d'.name = none :=
        fun d' hd' => by rw [find?_cons, if_neg (hother d' hd'), hnew.2 d' hd']
      obtain ⟨henters, hleft, hrest⟩ := ih hsub.2 hnames.2 hstill
      have hself : (round ((d.name, t) :: types) rest).1.find? d.name = some t :=
        find?_of_reflTransGen henters (by rw [find?_cons, if_pos rfl])
      refine ⟨henters.head (.enter hsub.1 hnew.1 htype), ?_, fun a ha => ?_⟩
      · rw [untyped, List.filter_cons_of_neg (by simp [hself])]
        exact hleft
      · rw [List.map_cons, List.mem_cons, not_or] at ha
        rw [hrest a ha.2, find?_cons, if_neg ha.1]
    | none =>
      obtain ⟨henters, hleft, hrest⟩ := ih hsub.2 hnames.2 hnew.2
      refine ⟨henters, ?_, fun a ha => ?_⟩
      · have hself : (round types rest).1.find? d.name = none := by rw [hrest _ hnames.1, hnew.1]
        rw [untyped, List.filter_cons_of_pos (by simp [hself])]
        exact congrArg _ hleft
      · rw [List.map_cons, List.mem_cons, not_or] at ha
        exact hrest a ha.2

/-- A round enters something, or nothing can be entered. -/
lemma round_cases (types : Types) (pending : List Declaration) :
    (round types pending).2.length < pending.length ∨
      round types pending = (types, pending) ∧ ∀ d ∈ pending, d.type? types = none := by
  have hle : ∀ (pending : List Declaration) (types : Types),
      (round types pending).2.length ≤ pending.length := by
    intro pending
    induction pending with
    | nil => exact fun _ => Nat.le_refl 0
    | cons d rest ih =>
      intro types
      rw [round]
      split
      · exact Nat.le_succ_of_le (ih _)
      · exact Nat.succ_le_succ (ih _)
  induction pending with
  | nil => exact .inr ⟨rfl, nofun⟩
  | cons d rest ih =>
    rw [round]
    cases htype : d.type? types with
    | some t => exact .inl (Nat.lt_succ_of_le (hle rest _))
    | none =>
      rcases ih with hlt | ⟨hround, hnone⟩
      · exact .inl (Nat.succ_lt_succ hlt)
      · refine .inr ⟨?_, List.forall_mem_cons.2 ⟨htype, hnone⟩⟩
        rw [hround]

/-- There are rounds enough: nothing can be entered in the end, and another round changes
nothing. -/
lemma rounds_done (n : Nat) (types : Types) (left : List Declaration) (hn : left.length ≤ n) :
    round (rounds n types left).1 (rounds n types left).2 = rounds n types left ∧
      ∀ d ∈ (rounds n types left).2, d.type? (rounds n types left).1 = none := by
  induction n generalizing types left with
  | zero =>
    obtain rfl := List.length_eq_zero_iff.1 (Nat.le_zero.1 hn)
    exact ⟨rfl, nofun⟩
  | succ n ih =>
    rcases round_cases types left with hlt | ⟨hround, hnone⟩
    · exact ih _ _ (by omega)
    · have hstays : ∀ n, rounds n types left = (types, left) := by
        intro n
        induction n with
        | zero => rfl
        | succ n ih =>
          rw [rounds, hround]
          exact ih
      rw [hstays]
      exact ⟨hround, hnone⟩

lemma rounds_enters (hnames : (ds.map Declaration.name).Nodup) (n : Nat)
    (henters : ReflTransGen (Enters ds) [] types) (hleft : left = untyped types ds) :
    ReflTransGen (Enters ds) [] (rounds n types left).1 ∧
      (rounds n types left).2 = untyped (rounds n types left).1 ds := by
  induction n generalizing types left with
  | zero => exact ⟨henters, hleft⟩
  | succ n ih =>
    have hmem : ∀ d ∈ left, d ∈ ds ∧ types.find? d.name = none := by
      intro d hd
      rw [hleft] at hd
      exact mem_untyped.1 hd
    have hnodup : (left.map Declaration.name).Nodup := by
      rw [hleft]
      exact hnames.sublist (List.filter_sublist.map _)
    obtain ⟨hround, hrest, -⟩ := round_enters (fun d hd => (hmem d hd).1) hnodup fun d hd => (hmem d hd).2
    rw [rounds]
    rcases hr : round types left with ⟨types', left'⟩
    simp only [hr] at hround hrest
    refine ih (henters.trans hround) ?_
    -- What had a type before the round has it behind the round, too.
    rw [hrest, hleft, untyped, untyped, List.filter_filter]
    refine List.filter_congr fun d _ => ?_
    cases hbefore : types.find? d.name with
    | none => simp
    | some t => simp [find?_of_reflTransGen hround hbefore]

/-! ### All declarations -/

section All

variable (hnames : (ds.map Declaration.name).Nodup)

include hnames

/-- Declarations are entered one after another, and those without a type are left. -/
lemma resolveAll_enters : ReflTransGen (Enters ds) [] (resolveAll ds).1 ∧
    (resolveAll ds).2 = untyped (resolveAll ds).1 ds :=
  rounds_enters hnames _ .refl (List.filter_eq_self.2 fun _ _ => rfl).symm

omit hnames in
/-- Nothing can be entered in the end. -/
lemma resolveAll_done (ds : List Declaration) :
    round (resolveAll ds).1 (resolveAll ds).2 = resolveAll ds ∧
      ∀ d ∈ (resolveAll ds).2, d.type? (resolveAll ds).1 = none :=
  rounds_done _ _ _ (Nat.le_refl _)

/-- A declaration without a type is left, so that it declares none. -/
lemma type?_eq_none (hd : d ∈ ds) (h : (resolveAll ds).1.find? d.name = none) :
    d.type? (resolveAll ds).1 = none := by
  refine (resolveAll_done ds).2 d ?_
  rw [(resolveAll_enters hnames).2]
  exact mem_untyped.2 ⟨hd, h⟩

/-- A declaration that declares a type has been entered with that type. -/
lemma find?_of_type? (hd : d ∈ ds) (h : d.type? (resolveAll ds).1 = some t) :
    (resolveAll ds).1.find? d.name = some t := by
  cases hfind : (resolveAll ds).1.find? d.name with
  | none =>
    rw [type?_eq_none hnames hd hfind] at h
    cases h
  | some t' =>
    obtain ⟨d', hd', hname, htype⟩ := exists_type?_of_find? (resolveAll_enters hnames).1 hfind
    obtain rfl : d' = d := List.inj_on_of_nodup_map hnames hd' hd hname
    rw [← htype, h]

/-- The types that are entered are those that names stand for. -/
theorem find?_resolveAll_iff : (resolveAll ds).1.find? name = some t ↔ Unfolds ds name t := by
  constructor
  · exact unfolds_of_find? (resolveAll_enters hnames).1
  · intro h
    induction h with
    | primitive hd htags =>
      refine find?_of_type? hnames hd ?_
      rw [type?, htags]
      rfl
    | array hd htags =>
      refine find?_of_type? hnames hd ?_
      rw [type?, htags]
      rfl
    | @struct d meaning hd htags _ ih =>
      refine find?_of_type? hnames hd (type?_eq_some_iff.2 ⟨meaning, ih, ?_⟩)
      unfold typeOf
      split
      next format field hsingle _ => cases htags _ hsingle
      next format length field hsingle _ => cases htags _ hsingle
      next => rfl

/-! ### Names that stand for a type -/

/-- The name of a declaration is grounded if all names in its tags are. -/
lemma grounded_of_references (hd : d ∈ ds) (h : ∀ name ∈ d.references, Grounded ds name) :
    Grounded ds d.name := by
  have hrefers : ∀ m, Refers ds d.name m → Grounded ds m := by
    rintro m ⟨d', hd', hname, hm⟩
    obtain rfl : d' = d := List.inj_on_of_nodup_map hnames hd' hd hname
    exact h m hm
  refine ⟨⟨d, hd, rfl⟩, fun m hm => ?_, fun hcycle => ?_⟩
  · rcases TransGen.head'_iff.1 hm with ⟨b, hb, hbm⟩
    rcases Relation.reflTransGen_iff_eq_or_transGen.1 hbm with rfl | hbm
    · exact (hrefers m hb).declares
    · exact (hrefers b hb).reaches m hbm
  · obtain ⟨b, hb, hcycle⟩ := hcycle.exists_next
    exact (hrefers b hb).acyclic hcycle

lemma Unfolds.grounded (h : Unfolds ds name t) : Grounded ds name := by
  induction h with
  | primitive hd htags =>
    refine grounded_of_references hnames hd ?_
    rw [references, htags]
    nofun
  | array hd htags =>
    refine grounded_of_references hnames hd ?_
    rw [references, htags]
    nofun
  | struct meaning hd htags _ ih => exact grounded_of_references hnames hd ih

/-- A name without a type, all that it refers to being declared, refers to another such name. -/
lemma exists_refers_of_find?_eq_none (hname : Declares ds name)
    (h : (resolveAll ds).1.find? name = none) :
    ∃ m, Refers ds name m ∧ (resolveAll ds).1.find? m = none := by
  obtain ⟨d, hd, rfl⟩ := hname
  obtain ⟨m, hm⟩ := List.exists_mem_of_ne_nil _ (missing_ne_nil (type?_eq_none hnames hd h))
  rw [missing_eq, List.mem_filter, Option.isNone_iff_eq_none] at hm
  exact ⟨m, ⟨d, hd, rfl, hm.1⟩, hm.2⟩

/-- A name stands for a type exactly if it is grounded. -/
theorem exists_unfolds_iff : (∃ t, Unfolds ds name t) ↔ Grounded ds name := by
  constructor
  · rintro ⟨t, ht⟩
    exact ht.grounded hnames
  · intro h
    cases hfind : (resolveAll ds).1.find? name with
    | some t => exact ⟨t, (find?_resolveAll_iff hnames).1 hfind⟩
    | none =>
      -- The names without a type that can be reached form a set that no chain need leave.
      have hreached : ∀ m, ReflTransGen (Refers ds) name m → Declares ds m := by
        intro m hm
        rcases Relation.reflTransGen_iff_eq_or_transGen.1 hm with rfl | hm
        · exact h.declares
        · exact h.reaches m hm
      let s : Set String := { m | ReflTransGen (Refers ds) name m ∧ (resolveAll ds).1.find? m = none }
      have hfinite : s.Finite := by
        refine (List.finite_toSet (ds.map Declaration.name)).subset fun m hm => ?_
        obtain ⟨d, hd, hname⟩ := hreached m hm.1
        exact List.mem_map.2 ⟨d, hd, hname⟩
      have hnext : ∀ a ∈ s, ∃ b ∈ s, Refers ds a b := by
        intro a ha
        obtain ⟨b, hab, hb⟩ := exists_refers_of_find?_eq_none hnames (hreached a ha.1) ha.2
        exact ⟨b, ⟨ha.1.tail hab, hb⟩, hab⟩
      exact absurd (ReachesCycle.of_finite hfinite hnext ⟨.refl, hfind⟩) h.acyclic

end All

/-- What names stand for does not depend on the order of the declarations. -/
lemma Unfolds.mono (hsub : ∀ d ∈ ds, d ∈ ds') (h : Unfolds ds name t) : Unfolds ds' name t := by
  induction h with
  | primitive hd htags => exact .primitive (hsub _ hd) htags
  | array hd htags => exact .array (hsub _ hd) htags
  | struct meaning hd htags _ ih => exact .struct meaning (hsub _ hd) htags ih

/-- The types that are entered do not depend on the order of the declarations. -/
lemma find?_resolveAll_perm (hnames : (ds.map Declaration.name).Nodup) (hperm : ds'.Perm ds)
    (name : String) : (resolveAll ds').1.find? name = (resolveAll ds).1.find? name := by
  have hnames' : (ds'.map Declaration.name).Nodup := (hperm.map _).nodup_iff.2 hnames
  refine Option.ext fun t => ?_
  rw [find?_resolveAll_iff hnames', find?_resolveAll_iff hnames]
  exact ⟨.mono fun d => hperm.mem_iff.1, .mono fun d => hperm.mem_iff.2⟩

end Declaration

end Pep10.Trace
