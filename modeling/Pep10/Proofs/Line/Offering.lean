import Pep10.Proofs.Line.Reader

/-!
# What a line has to do with the library

Reading a line consults the library in two places: a call looks up the macro, and a directive that
offers a system call asks whether the library would take it.  So libraries in which the same macros
are found cannot be told apart by reading (`line_eq_of_agrees`).  A line offers at most one system
call, which the library takes, and it does so in an operating system only (`line_accepted`).  This
holds of lines that fail, too: what has been offered before the error stays.
-/

namespace Pep10

/-! ### Libraries that agree -/

namespace MacroLibrary

variable {lib lib' : MacroLibrary}

/-- The same macros are found in both libraries. -/
def Agrees (lib lib' : MacroLibrary) : Prop := ∀ name, lib.get? name = lib'.get? name

/-- Libraries that agree still do so when the same macros have been added behind the others. -/
lemma Agrees.append (h : lib.Agrees lib') (more : List Macro) :
    Agrees ⟨lib.macros ++ more⟩ ⟨lib'.macros ++ more⟩ := by
  intro name
  have hname := h name
  unfold MacroLibrary.get? at hname ⊢
  rw [List.find?_append, List.find?_append, hname]

/-- Libraries that agree take the same macros. -/
lemma Agrees.register? (h : lib.Agrees lib') (kind : MacroKind) (name text : String) :
    lib.register? kind name text = none ∧ lib'.register? kind name text = none ∨
      ∃ m, lib.register? kind name text = some ⟨lib.macros ++ [m]⟩ ∧
        lib'.register? kind name text = some ⟨lib'.macros ++ [m]⟩ := by
  unfold MacroLibrary.register? contains
  rw [h name]
  split
  · exact .inl ⟨rfl, rfl⟩
  · split
    · exact .inl ⟨rfl, rfl⟩
    · split
      · exact .inr ⟨_, rfl, rfl⟩
      · exact .inl ⟨rfl, rfl⟩

end MacroLibrary

/-! ### Marks that offer a system call -/

/-- The system call that a mark offers. -/
def Mark.offered? : Mark → Option (SystemCall × String)
  | .offer call name => some (call, name)
  | _ => none

namespace Reading

variable {α β : Type} {r : Reading α} {f : α → Reading β} {ctx : ReadContext}

/-- The system calls that a reading offers, whatever comes of it. -/
def offers (r : Reading α) : List (SystemCall × String) := r.marks.filterMap Mark.offered?

lemma offers_bind (r : Reading α) (f : α → Reading β) :
    (r >>= f).offers = r.offers ++ (match r.outcome with
      | .error _ => []
      | .ok a => (f a).offers) := by
  obtain ⟨marks, e | a⟩ := r
  · exact (List.append_nil _).symm
  · exact List.filterMap_append

/-- A reading that offers nothing. -/
def Silent (r : Reading α) : Prop := r.offers = []

/-- A reading that offers nothing, or a single system call that the library takes, in an operating
system. -/
def Accepted (ctx : ReadContext) (r : Reading α) : Prop :=
  r.Silent ∨ ctx.isSystem = true ∧
    ∃ call name lib, r.offers = [(call, name)] ∧ ctx.library.registerCall? call name = some lib

@[simp] lemma silent_done {a : α} : (done a).Silent := rfl

@[simp] lemma silent_pure {a : α} : (pure a : Reading α).Silent := rfl

@[simp] lemma silent_fail {e : LineError} : (fail e : Reading α).Silent := rfl

@[simp] lemma silent_ofExcept {x : Except LineError α} : (ofExcept x).Silent := rfl

lemma silent_leave {mark : Mark} (h : mark.offered? = none) : (leave mark).Silent := by
  rw [Silent, offers, leave, List.filterMap_cons, h, List.filterMap_nil]

lemma Silent.bind (hr : r.Silent) (hf : ∀ a, (f a).Silent) : (r >>= f).Silent := by
  rw [Silent, offers_bind, hr]
  split
  · rfl
  · exact hf _

/-- What comes before an offer does not matter if it is silent. -/
lemma Accepted.bind (hr : r.Silent) (hf : ∀ a, (f a).Accepted ctx) : (r >>= f).Accepted ctx := by
  unfold Accepted Silent
  rw [offers_bind, hr]
  split
  · exact .inl rfl
  · exact hf _

/-- What comes behind an offer does not matter if it is silent. -/
lemma Accepted.bind_silent (hr : r.Accepted ctx) (hf : ∀ a, (f a).Silent) :
    (r >>= f).Accepted ctx := by
  unfold Accepted Silent
  rw [offers_bind]
  split
  · rwa [List.append_nil]
  · rw [hf, List.append_nil]
    exact hr

end Reading

/-! ### Reading -/

namespace Reader

open Reading (Silent Accepted)

variable {ctx : ReadContext} {label : Option String} {tokens : List Token} {token : Token}
  {name : String}

/-! #### Parts that offer nothing -/

lemma silent_next : (next tokens).Silent := by
  unfold next
  repeat' split
  all_goals simp

lemma silent_lineEnd {e : LineError} : (lineEnd e tokens).Silent := by
  refine silent_next.bind fun _ => ?_
  dsimp only
  split <;> simp

lemma silent_checkLength : (checkLength name).Silent := by
  unfold checkLength
  split <;> simp

lemma silent_useSymbol : (useSymbol name).Silent :=
  silent_checkLength.bind fun _ => (Reading.silent_leave rfl).bind fun _ => Reading.silent_pure

lemma silent_instruction : (instruction name tokens).Silent := by
  have hoperand : ∀ token, (instructionOperand token).Silent := by
    intro token
    unfold instructionOperand
    split
    · exact silent_useSymbol
    all_goals simp
  have hmode : ∀ mnemonic tokens, (instructionMode mnemonic tokens).Silent := by
    intro mnemonic tokens
    unfold instructionMode
    repeat' split
    all_goals simp
  unfold instruction
  split
  · simp
  · split
    · simp
    · exact silent_next.bind fun _ => (hoperand _).bind fun _ => (hmode _ _).bind fun _ =>
        Reading.silent_pure

lemma silent_directiveOperand {d : Directive} : (directiveOperand label d token).Silent := by
  cases d with
  | addrss =>
    change (addrssOperand token).Silent
    unfold addrssOperand
    split
    · exact silent_useSymbol
    · simp
  | equate =>
    change (equateOperand label token).Silent
    unfold equateOperand
    split
    · simp
    · exact Reading.silent_ofExcept.bind fun _ => (Reading.silent_leave rfl).bind fun _ =>
        Reading.silent_pure
  | _ => simp [directiveOperand]

lemma silent_call : (call ctx name tokens).Silent := by
  unfold call
  dsimp only
  split
  · simp
  · exact Reading.silent_ofExcept.bind fun _ => Reading.silent_pure

/-! #### The part that offers something -/

lemma accepted_offer {d : Directive} (hsystem : ctx.isSystem = true) :
    (offer ctx d name).Accepted ctx := by
  unfold offer
  split
  · exact .inl rfl
  next call _ =>
    split
    · exact .inl rfl
    next lib hlib => exact .inr ⟨hsystem, call, name, lib, rfl, hlib⟩

lemma accepted_systemSymbol {d : Directive} : (systemSymbol ctx label d tokens).Accepted ctx := by
  unfold systemSymbol
  split
  · exact .inl rfl
  next hsystem =>
    have hsystem : ctx.isSystem = true := by simpa using hsystem
    split
    · exact .inl rfl
    · refine Accepted.bind silent_next fun next => ?_
      dsimp only
      split
      · exact .inl rfl
      · refine Accepted.bind silent_useSymbol fun _ => ?_
        refine Accepted.bind (Reading.silent_leave rfl) fun _ => ?_
        exact (accepted_offer hsystem).bind_silent fun _ => Reading.silent_pure

lemma accepted_operandDirective {d : Directive} :
    (operandDirective ctx label d tokens).Accepted ctx := by
  unfold operandDirective
  split
  · exact accepted_systemSymbol
  · exact accepted_systemSymbol
  · exact accepted_systemSymbol
  · split
    · exact .inl rfl
    · exact .inl (silent_next.bind fun _ => silent_directiveOperand.bind fun _ =>
        Reading.silent_pure)

lemma accepted_directive : (directive ctx label name tokens).Accepted ctx := by
  unfold directive
  split
  · split <;> exact .inl rfl
  · split
    · exact .inl (silent_next.bind fun _ => Reading.silent_ofExcept.bind fun _ =>
        Reading.silent_pure)
    · split
      · exact accepted_operandDirective
      · exact .inl (silent_next.bind fun _ => Reading.silent_fail)

lemma accepted_lineFrom {number : Nat} : (lineFrom ctx number label token tokens).Accepted ctx := by
  refine Accepted.bind_silent ?_ fun _ => silent_lineEnd.bind fun _ => Reading.silent_pure
  unfold statement
  split
  · exact .inl silent_instruction
  · exact accepted_directive
  · exact .inl silent_call
  · exact .inl rfl
  · exact .inl rfl

/-- A line offers nothing, or a single system call that the library takes, in an operating
system. -/
theorem line_accepted (ctx : ReadContext) (number : Nat) (tokens : List Token) :
    (line ctx number tokens).Accepted ctx := by
  refine Accepted.bind silent_next fun next => ?_
  dsimp only
  split
  · exact .inl rfl
  · exact .inl (silent_lineEnd.bind fun _ => Reading.silent_pure)
  · refine Accepted.bind silent_checkLength fun _ => ?_
    refine Accepted.bind (Reading.silent_leave rfl) fun _ => ?_
    refine Accepted.bind silent_next fun _ => ?_
    split
    · exact accepted_lineFrom
    · exact .inl rfl
  · exact accepted_lineFrom

/-! #### Reading with another library -/

section Agrees

variable {isSystem : Bool} {lib lib' : MacroLibrary} {instance? : String → List String → Option Nat}

lemma offer_eq_of_agrees (h : lib.Agrees lib') (d : Directive) (name : String) :
    offer ⟨isSystem, lib, instance?⟩ d name = offer ⟨isSystem, lib', instance?⟩ d name := by
  unfold offer
  split
  · rfl
  next call _ =>
    rcases h.register? .system name (call.text name) with ⟨hnone, hnone'⟩ | ⟨m, hsome, hsome'⟩
    · simp only [MacroLibrary.registerCall?, hnone, hnone']
    · simp only [MacroLibrary.registerCall?, hsome, hsome']

lemma directive_eq_of_agrees (h : lib.Agrees lib') (label : Option String) (name : String)
    (tokens : List Token) :
    directive ⟨isSystem, lib, instance?⟩ label name tokens =
      directive ⟨isSystem, lib', instance?⟩ label name tokens := by
  have hsystem : ∀ d, systemSymbol ⟨isSystem, lib, instance?⟩ label d tokens =
      systemSymbol ⟨isSystem, lib', instance?⟩ label d tokens := by
    intro d
    simp only [systemSymbol, offer_eq_of_agrees h]
  have hoperand : ∀ d, operandDirective ⟨isSystem, lib, instance?⟩ label d tokens =
      operandDirective ⟨isSystem, lib', instance?⟩ label d tokens := by
    intro d
    unfold operandDirective
    simp only [hsystem]
  simp only [directive, hoperand]

/-- A line is read in the same way with all libraries that agree. -/
theorem line_eq_of_agrees (h : lib.Agrees lib') (number : Nat) (tokens : List Token) :
    line ⟨isSystem, lib, instance?⟩ number tokens = line ⟨isSystem, lib', instance?⟩ number tokens := by
  have hcall : ∀ name tokens, call ⟨isSystem, lib, instance?⟩ name tokens =
      call ⟨isSystem, lib', instance?⟩ name tokens := by
    intro name tokens
    simp only [call, boundCall, h name]
  have hfrom : ∀ label token tokens, lineFrom ⟨isSystem, lib, instance?⟩ number label token tokens =
      lineFrom ⟨isSystem, lib', instance?⟩ number label token tokens := by
    intro label token tokens
    simp only [lineFrom, statement, directive_eq_of_agrees h, hcall]
  simp only [line, hfrom]

end Agrees

end Reader

end Pep10
