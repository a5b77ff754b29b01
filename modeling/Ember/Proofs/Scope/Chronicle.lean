/-
What resolution does step by step, as a relation between a state, the events that
follow it and the state they end in.

* `Syntax.Expr.DeclaresOnce`, `Syntax.Stmt.DeclaresOnce`: no scope in a part of a
  program declares a name twice;
* `Missing`, `Reaches`: when there is nothing that a word may stand for, and which side
  of a class a field belongs to;
* `Chronicle`: what can happen, one rule for each kind of step. The walk over the
  program is forgotten, but for the names declared in the innermost scope;
* `Roster`: the same for the members of a class one after the other;
* `chronicle_expr`, `chronicle_stmts`, `roster_methods`: resolution is such a chronicle,
  with the history as its events;
* `chronicle_program`: so is that of a whole program.

What the events have to do with the code that resolution returns, `resolve_recounted` says.
-/
import Mathlib
import Ember.Proofs.Scope.History

namespace Ember

open Resolve

/-! ### Names declared once -/

/-- The names of the variables among statements. -/
def varNames : List Syntax.Stmt → List String
  | [] => []
  | .var name _ :: rest => name.text :: varNames rest
  | _ :: rest => varNames rest

mutual

/-- No scope in an expression declares a name twice. -/
def Syntax.Expr.DeclaresOnce : Syntax.Expr → Prop
  | .assign target value _ => target.DeclaresOnce ∧ value.DeclaresOnce
  | .call receiver _ arguments code =>
    receiver.DeclaresOnce ∧
      (match arguments with | none => True | some es => exprsDeclareOnce es) ∧
      match code with
      | none => True
      | some ⟨params, body, _⟩ =>
        (params.map Name.text).Nodup ∧ (classNames body ++ varNames body).Nodup ∧
          stmtsDeclareOnce body
  | .literal _ _ | .variable _ | .field _ | .staticField _ | .this _ => True
  | .logical _ left right _ => left.DeclaresOnce ∧ right.DeclaresOnce

/-- No scope in expressions declares a name twice. -/
def exprsDeclareOnce : List Syntax.Expr → Prop
  | [] => True
  | e :: es => e.DeclaresOnce ∧ exprsDeclareOnce es

/-- No scope in a statement declares a name twice. -/
def Syntax.Stmt.DeclaresOnce : Syntax.Stmt → Prop
  | .block body => (classNames body ++ varNames body).Nodup ∧ stmtsDeclareOnce body
  | .branch condition yes no _ =>
    condition.DeclaresOnce ∧ yes.DeclaresOnce ∧
      match no with | none => True | some no => no.DeclaresOnce
  | .loop condition body _ => condition.DeclaresOnce ∧ body.DeclaresOnce
  | .var _ init => match init with | none => True | some e => e.DeclaresOnce
  | .cls _ methods => methodsDeclareOnce methods
  | .ret value _ => match value with | none => True | some e => e.DeclaresOnce
  | .eval e => e.DeclaresOnce

/-- No scope within statements declares a name twice; they may all be in one scope
with others. -/
def stmtsDeclareOnce : List Syntax.Stmt → Prop
  | [] => True
  | s :: ss => s.DeclaresOnce ∧ stmtsDeclareOnce ss

/-- No scope in members of a class declares a name twice. -/
def methodsDeclareOnce : List Syntax.Method → Prop
  | [] => True
  | ⟨_, _, params, body⟩ :: rest =>
    ((params.getD []).map Name.text).Nodup ∧ (classNames body ++ varNames body).Nodup ∧
      stmtsDeclareOnce body ∧ methodsDeclareOnce rest

end

/-- No scope of a program declares a name twice. -/
def DeclaresOnce (program : List Syntax.Stmt) : Prop :=
  (classNames program ++ varNames program).Nodup ∧ stmtsDeclareOnce program

/-! ### What can happen -/

/-- There is nothing for a word to stand for, which is one mistake, or was one before. -/
inductive Missing (st : Scopes) : OccurrenceKind → Name → List ScopeProblem → Prop
  | unbound {word : Name} : useIn st.enclosing word.text st.scopes = none →
    st.globalScope.find? word.text = none → Missing st .variable word [.undeclared word]
  | field {word : Name} : st.fieldScopes.head? = none →
    Missing st .field word [.fieldOutsideClass word]
  | onClass {word : Name} {f : FieldScope} : st.fieldScopes.head? = some f → f.side = .onClass →
    Missing st .field word [.instanceFieldInStaticMethod word]
  | staticField {word : Name} : st.fieldScopes.find? (fun s => s.side = .onClass) = none →
    Missing st .staticField word [.fieldOutsideClass word]
  | this {line : Line} : st.fieldScopes.head? = none →
    Missing st .this ⟨"this", line⟩ [.thisOutsideClass line]
  | invalid {line : Line} : Missing st .invalid ⟨"<invalid>", line⟩ []

/-- The side of a class that a field belongs to. -/
inductive Reaches (st : Scopes) : OccurrenceKind → FieldScope → Prop
  | field {f : FieldScope} : st.fieldScopes.head? = some f → f.side = .onInstance →
    Reaches st .field f
  | staticField {f : FieldScope} : st.fieldScopes.find? (fun s => s.side = .onClass) = some f →
    Reaches st .staticField f

/-- The mistake of using a binding in its own initializer. -/
def ownUse (word : Name) (b : Binding) : List ScopeProblem :=
  if b.initialized then [] else [.usedInOwnInitializer word]

/-- The mistake of declaring a name that a scope has already. -/
def redeclared (name : Name) (s : Scope) : List ScopeProblem :=
  if (s.find? name.text).isSome then [.alreadyDeclared name] else []

/-- The mistake of declaring a member in a place that is taken. -/
def clash (cls : String) (m : Members) (d : Syntax.Method) : List ScopeProblem :=
  if m.isTaken d.kind d.selector then [.methodAlreadyDeclared d.name d.selector cls] else []

namespace Scopes

/-- The state with more mistakes. -/
def noting (st : Scopes) (ps : List ScopeProblem) : Scopes :=
  { st with problems := st.problems ++ ps }

@[simp] lemma noting_nil (st : Scopes) : st.noting [] = st := by
  rw [noting, List.append_nil]

/-- The state after a hole has been filled. -/
def filled (st : Scopes) (word : Name) : Scopes :=
  { st with
    nextSlot := st.nextSlot.next
    globals := st.globals ++ [(st.nextSlot, word.text)]
    globalScope := st.globalScope.put ⟨word, st.nextSlot, .global, true, true⟩ }

/-- The state after a field has been added to a side. -/
def withField (st : Scopes) (side : Side) (word : Name) : Scopes :=
  { st with
    nextSlot := st.nextSlot.next
    fieldScopes := addField side (st.nextSlot, word.text) st.fieldScopes }

/-- The state around the innermost side. -/
def leaveFields (st : Scopes) : Scopes := { st with fieldScopes := st.fieldScopes.tail }

/-- The state around a class. -/
def leaveClass (st : Scopes) : Scopes :=
  { st with fieldScopes := st.fieldScopes.tail, enclosing := st.enclosing.tail }

end Scopes

/-- The state around a member. -/
def leaveMember (kind : Syntax.MethodKind) (st : Scopes) : Scopes :=
  match kind with
  | .onClass => st
  | .construct | .onInstance => st.leaveFields

/-- The side of the instance after a member. -/
def sideAfter (m : Members) (kind : Syntax.MethodKind) (st : Scopes) : FieldScope :=
  match kind with
  | .onClass => m.instanceSide
  | .construct | .onInstance => st.fieldScopes.headD m.instanceSide

/-- The class that members make. -/
def classOf (name : Name) (receiver staticReceiver : Slot) (m : Members) (statics : FieldScope) :
    Program.ClassDecl where
  name := name.text
  line := name.line
  receiver := receiver
  staticReceiver := staticReceiver
  constructors := m.constructors
  staticMethods := m.staticMethods
  methods := m.methods
  fields := m.instanceSide.fields
  staticFields := statics.fields

section about

variable (t : ScopeProblem.Topic)

/-- Early uses are about initializers. -/
@[simp] lemma about_ownUse (word : Name) (b : Binding) :
    about t (ownUse word b) = if .ownInitializer = t then ownUse word b else [] := by
  refine about_of_forall fun p hp => ?_
  rw [ownUse] at hp
  split at hp
  · cases hp
  · rw [List.mem_singleton.1 hp]
    rfl

/-- Names that are declared again are about declarations. -/
@[simp] lemma about_redeclared (name : Name) (s : Scope) :
    about t (redeclared name s) = if .redeclaration = t then redeclared name s else [] := by
  refine about_of_forall fun p hp => ?_
  rw [redeclared] at hp
  split at hp
  · rw [List.mem_singleton.1 hp]
    rfl
  · cases hp

/-- Members that take a place are about members. -/
@[simp] lemma about_clash (cls : String) (m : Members) (d : Syntax.Method) :
    about t (clash cls m d) = if .member = t then clash cls m d else [] := by
  refine about_of_forall fun p hp => ?_
  rw [clash] at hp
  split at hp
  · rw [List.mem_singleton.1 hp]
    rfl
  · cases hp

/-- What is missing is a variable, or a side of a class. -/
lemma Missing.about_eq_nil {st : Scopes} {kind : OccurrenceKind} {word : Name}
    {ps : List ScopeProblem} {t : ScopeProblem.Topic} (h : Missing st kind word ps)
    (undeclared : t ≠ .undeclared) (side : t ≠ .side) : about t ps = [] := by
  cases h <;> simp [about, ScopeProblem.topic, undeclared.symm, side.symm]

end about

mutual

/-- From one state to another some events happen and some names are declared in the
innermost scope, in which no name comes twice if `once` says so of all scopes. -/
inductive Chronicle (once : Bool) :
    Place → Scopes → History → List String → Scopes → Prop
  | done {p st} : Chronicle once p st [] [] st
  | seq {p st es ns st₁ es' ns' st₂} : Chronicle once p st es ns st₁ →
    Chronicle once p st₁ es' ns' st₂ → Chronicle once p st (es ++ es') (ns ++ ns') st₂
  | skip {p st} : Chronicle once p st [] [] { st with nextSlot := st.nextSlot.next }
  | assignedClass {p st} (name : Name) : Chronicle once p st [] [] (st.noting [.assignedClass name])
  | invalidTarget {p st} (line : Line) : Chronicle once p st [] [] (st.noting [.invalidTarget line])
  | near {p st scopes b} (word : Name) :
    useIn st.enclosing word.text st.scopes = some (b, scopes) →
    Chronicle once p st [.occurs ⟨.variable, word, b.slot, p⟩] []
      (Scopes.noting { st with scopes } (ownUse word b))
  | far {p st b} (word : Name) : useIn st.enclosing word.text st.scopes = none →
    st.globalScope.find? word.text = some b →
    Chronicle once p st [.occurs ⟨.variable, word, b.slot, p⟩] []
      (Scopes.noting { st with globalScope := st.globalScope.put (markUsed st.enclosing b) }
        (ownUse word b))
  | known {p st kind f slot} (word : Name) : Reaches st kind f → f.find? word.text = some slot →
    Chronicle once p st [.occurs ⟨kind, word, slot, p⟩] [] st
  | new {p st kind f} (word : Name) : Reaches st kind f → f.find? word.text = none →
    Chronicle once p st [.occurs ⟨kind, word, st.nextSlot, p⟩] [] (st.withField f.side word)
  | this {p st f} (line : Line) : st.fieldScopes.head? = some f →
    Chronicle once p st [.occurs ⟨.this, ⟨"this", line⟩, f.receiver, p⟩] [] st
  | hole {p st kind word ps} : Missing st kind word ps →
    Chronicle once p st [.occurs ⟨kind, word, st.nextSlot, p⟩] [] ((st.noting ps).filled word)
  | scope {p st es ns st₁} : Chronicle once p (openScope.after st) es ns st₁ →
    (once = true → ns.Nodup) → Chronicle once p st es [] (closeScope.after st₁)
  | declare {p st s rest} (kind : BindingKind) (name : Name) : st.scopes = s :: rest →
    kind = .cls ∨ kind = .param →
    Chronicle once p st [.declares ⟨kind, name, st.nextSlot⟩] [name.text]
      ((declare name kind true).after st)
  | var {p st s rest es st₁} (name : Name) : st.scopes = s :: rest →
    Chronicle once (p.inInitializer st.nextSlot) ((declare name .var false).after st) es [] st₁ →
    Scopes.Evolves ((declare name .var false).after st) st₁ →
    Chronicle once p st (.declares ⟨.var, name, st.nextSlot⟩ :: es) [name.text]
      ((markInitialized name.text).after st₁)
  | cls {p st slot m ms es st₁ c} (name : Name) :
    Roster once (p.inClass slot) name.text c (.start st.nextSlot) (enterClass slot st) ms es m st₁ →
    Scopes.Evolves (enterClass slot st) st₁ →
    c = classOf name st.nextSlot st.nextSlot.next m
      (st₁.fieldScopes.headD ⟨.onClass, st.nextSlot.next, []⟩) →
    Chronicle once p st (es ++ [.makes ⟨name, ms, c⟩]) [] ((addClass slot c).after st₁.leaveClass)

/-- The members of the class `c` are resolved one after the other. -/
inductive Roster (once : Bool) : Place → String → Program.ClassDecl → Members → Scopes →
    List (Syntax.Method × Program.Method) → History → Members → Scopes → Prop
  | nil {p cls c m st} : Roster once p cls c m st [] [] m st
  | cons {p cls c m st d x es st₁ ms es' m' st₂} :
    Chronicle once (p.inMember d.kind c) (enterMember m d.kind st) es [] st₁ →
    Scopes.Evolves (enterMember m d.kind st) st₁ →
    x.selector = d.selector →
    Roster once p cls c { m.add d.kind x with instanceSide := sideAfter m d.kind st₁ }
      ((leaveMember d.kind st₁).noting (clash cls m d)) ms es' m' st₂ →
    Roster once p cls c m st ((d, x) :: ms) (es ++ es') m' st₂

end

/-! ### What steps leave alone -/

section simp

variable (st : Scopes)

namespace Scopes

@[simp] lemma problems_noting (ps : List ScopeProblem) :
    (st.noting ps).problems = st.problems ++ ps := rfl

@[simp] lemma fieldScopes_noting (ps : List ScopeProblem) :
    (st.noting ps).fieldScopes = st.fieldScopes := rfl

@[simp] lemma nextSlot_noting (ps : List ScopeProblem) :
    (st.noting ps).nextSlot = st.nextSlot := rfl

@[simp] lemma problems_filled (word : Name) : (st.filled word).problems = st.problems := rfl

@[simp] lemma problems_withField (side : Side) (word : Name) :
    (st.withField side word).problems = st.problems := rfl

@[simp] lemma problems_leaveClass : st.leaveClass.problems = st.problems := rfl

@[simp] lemma fieldScopes_leaveClass : st.leaveClass.fieldScopes = st.fieldScopes.tail := rfl

@[simp] lemma nextSlot_leaveClass : st.leaveClass.nextSlot = st.nextSlot := rfl

end Scopes

@[simp] lemma problems_enterClass (slot : Slot) : (enterClass slot st).problems = st.problems := rfl

@[simp] lemma problems_enterMember (m : Members) (kind : Syntax.MethodKind) :
    (enterMember m kind st).problems = st.problems := by
  cases kind <;> rfl

@[simp] lemma problems_leaveMember (kind : Syntax.MethodKind) :
    (leaveMember kind st).problems = st.problems := by
  cases kind <;> rfl

@[simp] lemma problems_openScope : (openScope.after st).problems = st.problems := rfl

@[simp] lemma fieldScopes_openScope : (openScope.after st).fieldScopes = st.fieldScopes := rfl

@[simp] lemma problems_closeScope : (closeScope.after st).problems =
    st.problems ++ (st.scopes.headD .empty).bindings.filterMap Binding.unusedProblem? := rfl

@[simp] lemma fieldScopes_closeScope : (closeScope.after st).fieldScopes = st.fieldScopes := rfl

end simp

section modifyInnermost

variable (f : Scope → Scope) (st : Scopes)

@[simp] lemma nextSlot_modifyInnermost :
    ((modifyInnermost f).after st).nextSlot = st.nextSlot := by
  rw [modifyInnermost, after_modify]
  split <;> rfl

@[simp] lemma fieldScopes_modifyInnermost :
    ((modifyInnermost f).after st).fieldScopes = st.fieldScopes := by
  rw [modifyInnermost, after_modify]
  split <;> rfl

@[simp] lemma enclosing_modifyInnermost :
    ((modifyInnermost f).after st).enclosing = st.enclosing := by
  rw [modifyInnermost, after_modify]
  split <;> rfl

@[simp] lemma globals_modifyInnermost :
    ((modifyInnermost f).after st).globals = st.globals := by
  rw [modifyInnermost, after_modify]
  split <;> rfl

@[simp] lemma problems_modifyInnermost :
    ((modifyInnermost f).after st).problems = st.problems := by
  rw [modifyInnermost, after_modify]
  split <;> rfl

end modifyInnermost

section modified

variable (text : String) (slot : Slot) (c : Program.ClassDecl) (st : Scopes)

@[simp] lemma problems_markInitialized :
    ((markInitialized text).after st).problems = st.problems :=
  problems_modifyInnermost ..

@[simp] lemma fieldScopes_markInitialized :
    ((markInitialized text).after st).fieldScopes = st.fieldScopes :=
  fieldScopes_modifyInnermost ..

@[simp] lemma nextSlot_markInitialized :
    ((markInitialized text).after st).nextSlot = st.nextSlot :=
  nextSlot_modifyInnermost ..

@[simp] lemma problems_addClass : ((addClass slot c).after st).problems = st.problems :=
  problems_modifyInnermost ..

@[simp] lemma fieldScopes_addClass : ((addClass slot c).after st).fieldScopes = st.fieldScopes :=
  fieldScopes_modifyInnermost ..

@[simp] lemma nextSlot_addClass : ((addClass slot c).after st).nextSlot = st.nextSlot :=
  nextSlot_modifyInnermost ..

end modified

/-- What a declaration does to the state. -/
lemma after_declare_eq (name : Name) (kind : BindingKind) (initialized : Bool) {st : Scopes}
    {s : Scope} {rest : List Scope} (e : st.scopes = s :: rest) :
    (declare name kind initialized).after st =
      { st with
        nextSlot := st.nextSlot.next
        scopes := s.declared ⟨name, st.nextSlot, kind, initialized, false⟩ :: rest
        problems := st.problems ++ redeclared name s } := by
  obtain ⟨next, scopes, globalScope, fieldScopes, enclosing, globals, problems⟩ := st
  cases e
  simp only [declare, after_bind, redeclared]
  split
  · rename_i h
    rw [if_pos (show (s.find? name.text).isSome from h)]
    rfl
  · rename_i h
    rw [if_neg (show ¬(s.find? name.text).isSome from h), List.append_nil]
    rfl

/-! ### Words -/

section Steps

variable {once : Bool} {p : Place} {st : Scopes}

/-- What a use of a variable does, once it is known what its name is bound to. -/
lemma run_namedSlot (name : Name) (st : Scopes) :
    StateT.run (namedSlot name) st =
      match useIn st.enclosing name.text st.scopes with
      | some (b, scopes) =>
        ((b.slot, decide (b.kind = .cls)), Scopes.noting { st with scopes } (ownUse name b))
      | none =>
        match st.globalScope.find? name.text with
        | some b =>
          ((b.slot, decide (b.kind = .cls)),
            Scopes.noting { st with globalScope := st.globalScope.put (markUsed st.enclosing b) }
              (ownUse name b))
        | none => ((st.nextSlot, false), (st.noting [.undeclared name]).filled name) := by
  have found (b : Binding) (st : Scopes) :
      StateT.run (do
        if !b.initialized then report (.usedInOwnInitializer name)
        return (b.slot, decide (b.kind = .cls)) : Resolve (Slot × Bool)) st =
        ((b.slot, decide (b.kind = .cls)), st.noting (ownUse name b)) := by
    cases h : b.initialized with
    | true =>
      simp only [ownUse, h, if_true, Scopes.noting_nil]
      rfl
    | false =>
      simp only [ownUse, h]
      rfl
  have run : StateT.run (namedSlot name) st = StateT.run (match (lookup? name.text).answer st with
      | some b => do
        if !b.initialized then report (.usedInOwnInitializer name)
        return (b.slot, decide (b.kind = .cls))
      | none => do
        report (.undeclared name)
        return (← fillHole name, false) : Resolve (Slot × Bool)) ((lookup? name.text).after st) :=
    rfl
  rw [run, answer, after, run_lookup?]
  cases useIn st.enclosing name.text st.scopes with
  | some r => exact found r.1 _
  | none =>
    cases st.globalScope.find? name.text with
    | some b => exact found b _
    | none => rfl

/-- A use of a variable is an occurrence of it, near, far or in a hole. -/
lemma Chronicle.variable (name : Name) :
    Chronicle once p st [.occurs ⟨.variable, name, ((namedSlot name).answer st).1, p⟩] []
      ((namedSlot name).after st) := by
  rw [answer, after, run_namedSlot]
  cases hu : useIn st.enclosing name.text st.scopes with
  | some r => exact .near name hu
  | none =>
    cases hg : st.globalScope.find? name.text with
    | some b => exact .far name hu hg
    | none => exact .hole (.unbound hu hg)

/-- A variable that is assigned to occurs as any other, and may turn out to be a class. -/
lemma Chronicle.assigned (name : Name) :
    Chronicle once p st [.occurs ⟨.variable, name, (assigned name).answer st, p⟩] []
      ((assigned name).after st) := by
  have used : Chronicle once p st _ [] _ := Chronicle.variable name
  have run : StateT.run (Resolve.assigned name) st = StateT.run (do
      if ((namedSlot name).answer st).2 then report (.assignedClass name)
      return ((namedSlot name).answer st).1 : Resolve Slot) ((namedSlot name).after st) := rfl
  rw [answer, after, run]
  cases ((namedSlot name).answer st).2 with
  | true => exact used.seq (.assignedClass name)
  | false => exact used

/-- A field is looked up on a side that is there. -/
lemma Chronicle.onSide {kind : OccurrenceKind} {f : FieldScope} (name : Name)
    (h : Reaches st kind f) (side : Side)
    (found : st.fieldScopes.find? (fun s => s.side = side) = some f) :
    ∃ slot, StateT.run (field? side name.text) st = (some slot, (field? side name.text).after st) ∧
      Chronicle once p st [.occurs ⟨kind, name, slot, p⟩] []
        ((field? side name.text).after st) := by
  have same : f.side = side := by simpa using List.find?_some found
  simp only [after]
  rw [run_field?, found]
  cases hn : f.find? name.text with
  | some slot =>
    simp only [hn]
    exact ⟨slot, rfl, .known name h hn⟩
  | none =>
    simp only [hn]
    exact ⟨st.nextSlot, rfl, same ▸ .new name h hn⟩

/-- A field of an instance occurs on the innermost side, or in a hole. -/
lemma Chronicle.field (name : Name) :
    Chronicle once p st [.occurs ⟨.field, name, (instanceField name).answer st, p⟩] []
      ((instanceField name).after st) := by
  rw [answer, after, run_instanceField]
  cases hh : st.fieldScopes.head? with
  | none => exact .hole (.field hh)
  | some f =>
    obtain ⟨side, receiver, fields⟩ := f
    cases side with
    | onClass => exact .hole (.onClass hh rfl)
    | onInstance =>
      obtain ⟨rest, e⟩ := List.head?_eq_some_iff.1 hh
      obtain ⟨slot, run, used⟩ : ∃ slot, _ ∧ Chronicle once p st _ [] _ :=
        Chronicle.onSide name (.field hh rfl) .onInstance (by simp [e])
      rw [StateT.run_bind, run]
      exact used

/-- A field of a class occurs on the nearest side of a class, or in a hole. -/
lemma Chronicle.staticField (name : Name) :
    Chronicle once p st [.occurs ⟨.staticField, name, (staticField name).answer st, p⟩] []
      ((staticField name).after st) := by
  rw [answer, after, Resolve.staticField, StateT.run_bind]
  cases found : st.fieldScopes.find? (fun s => s.side = .onClass) with
  | none =>
    have run : StateT.run (field? .onClass name.text) st = (none, st) := by
      rw [run_field?, found]
      rfl
    rw [run]
    exact .hole (.staticField found)
  | some f =>
    obtain ⟨slot, run, used⟩ : ∃ slot, _ ∧ Chronicle once p st _ [] _ :=
      Chronicle.onSide name (.staticField found) .onClass found
    rw [run]
    exact used

/-- The receiver occurs on the innermost side, or in a hole. -/
lemma Chronicle.receiver (line : Line) :
    Chronicle once p st [.occurs ⟨.this, ⟨"this", line⟩, (thisSlot line).answer st, p⟩] []
      ((thisSlot line).after st) := by
  rw [answer, after, run_thisSlot]
  cases hh : st.fieldScopes.head? with
  | none => exact .hole (.this hh)
  | some f => exact .this line hh

/-- What is put in the place of an invalid target is an occurrence in a hole. -/
lemma Chronicle.invalid (line : Line) :
    Chronicle once p st [.occurs ⟨.invalid, ⟨"<invalid>", line⟩, st.nextSlot, p⟩] []
      (st.filled ⟨"<invalid>", line⟩) := by
  have hole : Chronicle once p st _ [] ((st.noting []).filled ⟨"<invalid>", line⟩) := .hole .invalid
  rwa [Scopes.noting_nil] at hole

/-- What is assigned to is resolved before the value. -/
lemma Chronicle.target {target : Syntax.Expr}
    (h : ∀ st, Chronicle once p st (target.history p st) [] ((resolveExpr target).after st)) :
    ∃ es, (∀ (value : Syntax.Expr) line,
        Syntax.Expr.history p st (.assign target value line) =
          es ++ value.history p ((resolveTarget target).after st)) ∧
      Chronicle once p st es [] ((resolveTarget target).after st) := by
  match target, h with
  | .variable name, _ => exact ⟨_, fun _ _ => rfl, .assigned name⟩
  | .field name, _ => exact ⟨_, fun _ _ => rfl, .field name⟩
  | .staticField name, _ => exact ⟨_, fun _ _ => rfl, .staticField name⟩
  | .assign _ _ _, h | .call _ _ _ _, h | .literal _ _, h | .this _, h | .logical _ _ _ _, h =>
    refine ⟨_, fun _ _ => rfl, ?_⟩
    exact (Chronicle.invalidTarget _).seq ((h _).seq (.invalid _))

/-! ### Declarations and scopes -/

/-- Classes and parameters are usable as soon as they are declared. -/
lemma Chronicle.declared {s : Scope} {rest : List Scope} (kind : BindingKind) (name : Name)
    (e : st.scopes = s :: rest) (h : kind = .cls ∨ kind = .param) :
    Chronicle once p st [.declares ⟨kind, name, (Resolve.declare name kind true).answer st⟩]
      [name.text] ((Resolve.declare name kind true).after st) := by
  rw [answer_declare]
  exact .declare kind name e h

/-- A declaration leaves the scopes around as they are. -/
lemma scopes_declare {s : Scope} {rest : List Scope} (name : Name) (kind : BindingKind)
    (initialized : Bool) (e : st.scopes = s :: rest) :
    ∃ s', ((declare name kind initialized).after st).scopes = s' :: rest := by
  obtain ⟨problems, _, run⟩ := after_declare name kind initialized e
  exact ⟨_, by rw [run]⟩

/-- The classes of a block are declared one by one. -/
lemma Chronicle.hoist (body : List Syntax.Stmt) {s : Scope} {rest : List Scope}
    (e : st.scopes = s :: rest) :
    Chronicle once p st (hoistHistory body st) (classNames body) ((Resolve.hoist body).after st) ∧
      ∃ s', ((Resolve.hoist body).after st).scopes = s' :: rest := by
  induction body generalizing st s with
  | nil => exact ⟨.done, s, e⟩
  | cons x body ih =>
    cases x with
    | cls name methods =>
      obtain ⟨s', e'⟩ := scopes_declare name .cls true e
      obtain ⟨later, s'', e''⟩ := ih e'
      exact ⟨(Chronicle.declared .cls name e (.inl rfl)).seq later, s'', e''⟩
    | block _ | branch _ _ _ _ | loop _ _ _ | var _ _ | ret _ _ | eval _ => exact ih e

/-- Parameters are declared one by one. -/
lemma Chronicle.params (names : List Name) {s : Scope} {rest : List Scope}
    (e : st.scopes = s :: rest) :
    let x : Resolve (List Slot) := names.mapM fun p => Resolve.declare p .param true
    Chronicle once p st (paramHistory names st) (names.map Name.text) (x.after st) ∧
      ∃ s', (x.after st).scopes = s' :: rest := by
  induction names generalizing st s with
  | nil => exact ⟨.done, s, e⟩
  | cons name names ih =>
    obtain ⟨s', e'⟩ := scopes_declare name .param true e
    obtain ⟨later, s'', e''⟩ := ih e'
    rw [List.mapM_cons]
    exact ⟨(Chronicle.declared .param name e (.inr rfl)).seq later, s'', e''⟩

/-- A block is a scope in which its classes are declared before its statements are
resolved. -/
lemma Chronicle.block {body : List Syntax.Stmt}
    {walk : List (String × Slot) → Resolve (List Program.Stmt)}
    {record : List (String × Slot) → Scopes → History} {ns : List String}
    (hw : ∀ hoisted (st : Scopes) s rest, st.scopes = s :: rest →
      Chronicle once p st (record hoisted st) ns ((walk hoisted).after st))
    (distinct : once = true → (classNames body ++ ns).Nodup) (st : Scopes) :
    Chronicle once p st (scopeHistory body record st) [] ((blockOf body walk).after st) := by
  obtain ⟨first, s, e⟩ : Chronicle once p (openScope.after st) _ _ _ ∧ _ :=
    Chronicle.hoist body (show (openScope.after st).scopes = .empty :: st.scopes from rfl)
  exact .scope (first.seq (hw _ _ s _ e)) distinct

/-- A branch is a scope if it declares something. -/
lemma Chronicle.branch {s : Syntax.Stmt}
    (hs : ∀ hoisted (st : Scopes), (IsQuiet s ∨ ∃ s rest, st.scopes = s :: rest) →
      Chronicle once p st (s.history p hoisted st) (varNames [s])
        ((resolveStmt hoisted s).after st))
    (st : Scopes) :
    Chronicle once p st (branchHistory s (fun hoisted st => s.history p hoisted st) st) []
      ((Resolve.branch s fun hoisted => resolveStmt hoisted s).after st) := by
  have enclosed (distinct : (classNames [s] ++ varNames [s]).Nodup) :
      Chronicle once p st (scopeHistory [s] (fun hoisted st => s.history p hoisted st) st) []
        ((blockOf [s] fun hoisted => do return (← resolveStmt hoisted s).toList).after st) :=
    Chronicle.block (fun hoisted st scope rest e => hs hoisted st (.inr ⟨scope, rest, e⟩))
      (fun _ => distinct) st
  cases s with
  | var name init => exact enclosed (List.nodup_singleton _)
  | cls name methods => exact enclosed (List.nodup_singleton _)
  | block _ | branch _ _ _ _ | loop _ _ _ | ret _ _ | eval _ => exact hs [] st (.inl trivial)

/-- The parameters of a method have a scope around that of its body. -/
lemma Chronicle.method (name : String) (params : Option (List Name)) (line : Line)
    {body : Resolve Program.Block} {record : Scopes → History}
    (hbody : ∀ st, Chronicle once p st (record st) [] (body.after st))
    (distinct : once = true → ((params.getD []).map Name.text).Nodup) (st : Scopes) :
    Chronicle once p st (methodHistory params record st) []
      ((Resolve.method name params line body).after st) := by
  have opened : (openScope.after st).scopes = .empty :: st.scopes := rfl
  have declared : Chronicle once p (openScope.after st)
      (paramHistory (params.getD []) (openScope.after st)) ((params.getD []).map Name.text)
      ((declareParams params).after (openScope.after st)) := by
    cases params with
    | none => exact .done
    | some names => exact (Chronicle.params names opened).1
  have whole := declared.seq (hbody ((declareParams params).after (openScope.after st)))
  rw [List.append_nil] at whole
  exact .scope whole distinct

/-! ### Classes -/

/-- Each parameter gets a slot. -/
lemma length_params (names : List Name) (st : Scopes) :
    (answer (names.mapM fun p => Resolve.declare p .param true) st).length = names.length := by
  induction names generalizing st with
  | nil => rfl
  | cons name names ih =>
    rw [List.mapM_cons]
    simp only [answer_bind, answer_pure, List.length_cons, ih]

/-- The method of a declaration answers to the selector of the declaration. -/
lemma selector_memberOf (d : Syntax.Method) (st : Scopes) :
    ((memberOf d).answer st).selector = d.selector := by
  obtain ⟨kind, name, params, body⟩ := d
  cases params with
  | none => rfl
  | some names =>
    have length := length_params names (openScope.after st)
    exact congrArg (fun n => (⟨name.text, some n⟩ : Selector)) length

/-- A member is resolved on its side, added to the others, and reported if its place was
taken. -/
lemma run_member (cls : String) (m : Members) (d : Syntax.Method) (st : Scopes) :
    StateT.run (member cls m d.kind d.name (memberOf d)) st =
      let st₁ := (memberOf d).after (enterMember m d.kind st);
      ({ m.add d.kind ((memberOf d).answer (enterMember m d.kind st)) with
          instanceSide := sideAfter m d.kind st₁ },
        (leaveMember d.kind st₁).noting (clash cls m d)) := by
  have selector := selector_memberOf d (enterMember m d.kind st)
  have added (x : Program.Method) (side : FieldScope) (st₁ : Scopes)
      (hx : x.selector = d.selector) :
      StateT.run (do
        if m.isTaken d.kind x.selector then report (.methodAlreadyDeclared d.name x.selector cls)
        return ({ m.add d.kind x with instanceSide := side }) : Resolve Members) st₁ =
        ({ m.add d.kind x with instanceSide := side }, st₁.noting (clash cls m d)) := by
    rw [hx]
    cases h : m.isTaken d.kind d.selector with
    | true =>
      simp only [clash, h]
      rfl
    | false =>
      simp only [clash, h, Bool.false_eq_true, if_false, Scopes.noting_nil]
      rfl
  obtain ⟨kind, name, params, body⟩ := d
  cases kind with
  | onClass => exact added _ _ _ selector
  | construct => exact added _ _ _ selector
  | onInstance => exact added _ _ _ selector

/-- A class is resolved in the state that its members find. -/
lemma run_class (slot : Slot) (name : Name) (walk : Members → Resolve Members) (st : Scopes) :
    StateT.run (insideClass slot (classDecl name walk)) st =
      let x := walk (.start st.nextSlot);
      (classOf name st.nextSlot st.nextSlot.next (x.answer (enterClass slot st))
          ((x.after (enterClass slot st)).fieldScopes.headD ⟨.onClass, st.nextSlot.next, []⟩),
        (x.after (enterClass slot st)).leaveClass) := rfl

/-- A member leaves the scopes around its class the same. -/
lemma evolves_memberOf (d : Syntax.Method) (st : Scopes) : st.Evolves ((memberOf d).after st) :=
  Sees.evolves (sees_method d.name.text d.params d.name.line
    (sees_blockOf (declares_resolveStmts d.body))) st

/-- A class is made after its members. -/
lemma Chronicle.class {name : Name} {methods : List Syntax.Method} {slot : Slot}
    (h : ∀ c m st, ∃ m', (resolveMethods name.text m methods).answer st = m' ∧
      Roster once (p.inClass slot) name.text c m st (resolvedMembers name.text m st methods)
        (memberHistory (p.inClass slot) c name.text m st methods) m'
        ((resolveMethods name.text m methods).after st))
    (hoisted : List (String × Slot)) (found : hoisted.lookup name.text = some slot) :
    Chronicle once p st (Syntax.Stmt.history p hoisted st (.cls name methods)) []
      ((resolveStmt hoisted (.cls name methods)).after st) := by
  have run := run_class slot name (fun m => resolveMethods name.text m methods) st
  obtain ⟨m, answer, roster⟩ := h ((insideClass slot (classDecl name fun m =>
    resolveMethods name.text m methods)).answer st) (.start st.nextSlot) (enterClass slot st)
  have made := Chronicle.cls name roster (evolves_resolveMethods name.text methods _ _)
    (by rw [← answer]; exact congrArg Prod.fst run)
  rw [Syntax.Stmt.history, found]
  simp only [resolveStmt, found, after_bind, after_pure]
  exact made

/-- The receiver, the arguments and the block of code of a call come one after the
other. -/
lemma Chronicle.call {receiver : Syntax.Expr} (name : Name) {arguments : Option (List Syntax.Expr)}
    {code : Option Syntax.Code}
    (hreceiver : Chronicle once p st (receiver.history p st) [] ((resolveExpr receiver).after st))
    (harguments : ∀ es, arguments = some es → ∀ st,
      Chronicle once p st (exprHistory p st es) [] ((resolveExprs es).after st))
    (hcode : ∀ params body line, code = some ⟨params, body, line⟩ → ∀ st,
      Chronicle once p st
        (methodHistory (some params)
          (scopeHistory body fun hoisted st => stmtHistory p hoisted st body) st) []
        ((Resolve.method "call" (some params) line
          (blockOf body fun hoisted => resolveStmts hoisted body)).after st)) :
    Chronicle once p st (Syntax.Expr.history p st (.call receiver name arguments code)) []
      ((resolveExpr (.call receiver name arguments code)).after st) := by
  have coded (args : Option (List Program.Expr)) (params : List Name) (body : List Syntax.Stmt)
      (line : Line) (e : code = some ⟨params, body, line⟩) (st : Scopes) : Chronicle once p st _ []
      ((resolveCode args (some ⟨params, body, line⟩)).after st) :=
    Chronicle.skip.seq (Chronicle.skip.seq (hcode params body line e _))
  rw [resolveExpr_call]
  cases arguments with
  | none =>
    cases code with
    | none => exact (hreceiver.seq .done).seq .done
    | some code =>
      obtain ⟨params, body, line⟩ := code
      exact (hreceiver.seq .done).seq (coded none params body line rfl _)
  | some es =>
    have written := hreceiver.seq (harguments es rfl _)
    cases code with
    | none => exact written.seq .done
    | some code =>
      obtain ⟨params, body, line⟩ := code
      let args := (resolveArguments (some es)).answer ((resolveExpr receiver).after st)
      exact written.seq (coded args params body line rfl _)

/-- The condition and the branches of a conditional come one after the other. -/
lemma Chronicle.conditional {condition : Syntax.Expr} {yes : Syntax.Stmt} {no : Option Syntax.Stmt}
    (line : Line)
    (hcondition : Chronicle once p st (condition.history p st) []
      ((resolveExpr condition).after st))
    (hyes : ∀ hoisted (st : Scopes), (IsQuiet yes ∨ ∃ s rest, st.scopes = s :: rest) →
      Chronicle once p st (yes.history p hoisted st) (varNames [yes])
        ((resolveStmt hoisted yes).after st))
    (hno : ∀ s, no = some s → ∀ hoisted (st : Scopes),
      (IsQuiet s ∨ ∃ s rest, st.scopes = s :: rest) →
      Chronicle once p st (s.history p hoisted st) (varNames [s])
        ((resolveStmt hoisted s).after st)) (hoisted : List (String × Slot)) :
    Chronicle once p st (Syntax.Stmt.history p hoisted st (.branch condition yes no line)) []
      ((resolveStmt hoisted (.branch condition yes no line)).after st) := by
  have chosen := hcondition.seq (Chronicle.branch hyes _)
  cases no with
  | none => exact chosen.seq .done
  | some no => exact chosen.seq (Chronicle.branch (hno no rfl) _)

/-- A variable is declared before its initializer is resolved. -/
lemma Chronicle.variableOf (name : Name) {init : Option Syntax.Expr} {s : Scope}
    {rest : List Scope} (e : st.scopes = s :: rest)
    (hinit : ∀ e, init = some e → ∀ p st,
      Chronicle once p st (e.history p st) [] ((resolveExpr e).after st))
    (hoisted : List (String × Slot)) :
    Chronicle once p st (Syntax.Stmt.history p hoisted st (.var name init)) [name.text]
      ((resolveStmt hoisted (.var name init)).after st) := by
  have evolves : Scopes.Evolves ((Resolve.declare name .var false).after st)
      ((resolveMaybe init).after ((Resolve.declare name .var false).after st)) :=
    have sees : SeesAt false _ _ (resolveMaybe init) _ :=
      sees_resolveMaybe (fun e _ => sees_resolveExpr e) _
    sees.1
  rw [resolveStmt_var]
  cases init with
  | none =>
    rw [Syntax.Stmt.history, answer_declare]
    exact Chronicle.var name e .done evolves
  | some init =>
    rw [Syntax.Stmt.history, answer_declare]
    exact Chronicle.var name e (hinit init rfl _ _) evolves

/-! ### The walk over the program -/

/-- The variables that statements declare are that of the first one and those of the others. -/
lemma varNames_cons (s : Syntax.Stmt) (ss : List Syntax.Stmt) :
    varNames (s :: ss) = varNames [s] ++ varNames ss := by
  cases s <;> rfl

mutual

/-- The resolution of an expression is a chronicle of its history. -/
theorem chronicle_expr : (e : Syntax.Expr) → (once = true → e.DeclaresOnce) → ∀ p st,
    Chronicle once p st (e.history p st) [] ((resolveExpr e).after st)
  | .assign target value line, h, p, st => by
    obtain ⟨es, history, first⟩ : ∃ es, _ ∧ Chronicle once p st es [] _ :=
      Chronicle.target fun st => chronicle_expr target (fun ho => (h ho).1) p st
    rw [history, resolveExpr_assign]
    exact first.seq (chronicle_expr value (fun ho => (h ho).2) p _)
  | .call receiver name none none, h, p, st =>
    Chronicle.call name (chronicle_expr receiver (fun ho => (h ho).1) p st) (fun _ h => nomatch h)
      fun _ _ _ h => nomatch h
  | .call receiver name (some es) none, h, p, st =>
    Chronicle.call name (chronicle_expr receiver (fun ho => (h ho).1) p st)
      (fun _ e => Option.some.inj e ▸ chronicle_exprs es (fun ho => (h ho).2.1) p)
      fun _ _ _ h => nomatch h
  | .call receiver name none (some ⟨params, body, line⟩), h, p, st =>
    Chronicle.call name (chronicle_expr receiver (fun ho => (h ho).1) p st) (fun _ h => nomatch h)
      fun _ _ _ e => by
        cases e
        exact Chronicle.method "call" (some params) line (Chronicle.block
          (chronicle_stmts body (fun ho => (h ho).2.2.2.2) p) fun ho => (h ho).2.2.2.1)
          fun ho => (h ho).2.2.1
  | .call receiver name (some es) (some ⟨params, body, line⟩), h, p, st =>
    Chronicle.call name (chronicle_expr receiver (fun ho => (h ho).1) p st)
      (fun _ e => Option.some.inj e ▸ chronicle_exprs es (fun ho => (h ho).2.1) p)
      fun _ _ _ e => by
        cases e
        exact Chronicle.method "call" (some params) line (Chronicle.block
          (chronicle_stmts body (fun ho => (h ho).2.2.2.2) p) fun ho => (h ho).2.2.2.1)
          fun ho => (h ho).2.2.1
  | .literal _ _, _, _, _ => .done
  | .variable name, _, _, _ => .variable name
  | .field name, _, _, _ => .field name
  | .staticField name, _, _, _ => .staticField name
  | .this line, _, _, _ => .receiver line
  | .logical _ left right _, h, p, st =>
    (chronicle_expr left (fun ho => (h ho).1) p st).seq
      (chronicle_expr right (fun ho => (h ho).2) p _)

/-- The resolution of expressions is a chronicle of their history. -/
theorem chronicle_exprs : (es : List Syntax.Expr) → (once = true → exprsDeclareOnce es) → ∀ p st,
    Chronicle once p st (exprHistory p st es) [] ((resolveExprs es).after st)
  | [], _, _, _ => .done
  | e :: es, h, p, st =>
    (chronicle_expr e (fun ho => (h ho).1) p st).seq
      (chronicle_exprs es (fun ho => (h ho).2) p _)

/-- The resolution of a statement is a chronicle of its history, in which at most the
name of a variable is declared. -/
theorem chronicle_stmt : (s : Syntax.Stmt) → (once = true → s.DeclaresOnce) →
    ∀ p hoisted (st : Scopes), (IsQuiet s ∨ ∃ scope rest, st.scopes = scope :: rest) →
      Chronicle once p st (s.history p hoisted st) (varNames [s])
        ((resolveStmt hoisted s).after st)
  | .block body, h, p, _, st, _ =>
    Chronicle.block (chronicle_stmts body (fun ho => (h ho).2) p) (fun ho => (h ho).1) st
  | .branch condition yes none line, h, p, hoisted, st, _ =>
    Chronicle.conditional line (chronicle_expr condition (fun ho => (h ho).1) p st)
      (chronicle_stmt yes (fun ho => (h ho).2.1) p) (fun _ e => by cases e) hoisted
  | .branch condition yes (some no) line, h, p, hoisted, st, _ =>
    Chronicle.conditional line (chronicle_expr condition (fun ho => (h ho).1) p st)
      (chronicle_stmt yes (fun ho => (h ho).2.1) p)
      (fun _ e => Option.some.inj e ▸ chronicle_stmt no (fun ho => (h ho).2.2) p) hoisted
  | .loop condition body line, h, p, _, st, _ =>
    (chronicle_expr condition (fun ho => (h ho).1) p st).seq
      (Chronicle.branch (chronicle_stmt body (fun ho => (h ho).2) p) _)
  | .var name none, h, p, hoisted, st, hst => by
    obtain ⟨scope, rest, e⟩ := hst.resolve_left id
    exact Chronicle.variableOf name e (fun _ e => by cases e) hoisted
  | .var name (some init), h, p, hoisted, st, hst => by
    obtain ⟨scope, rest, e⟩ := hst.resolve_left id
    exact Chronicle.variableOf name e (fun _ e => Option.some.inj e ▸ chronicle_expr init h) hoisted
  | .cls name methods, h, p, hoisted, st, _ => by
    cases found : hoisted.lookup name.text with
    | none =>
      rw [Syntax.Stmt.history, found]
      simp only [resolveStmt, found]
      exact .done
    | some slot =>
      exact Chronicle.class (fun c m st => ⟨_, rfl, roster_methods methods h _ name.text c m st⟩)
        hoisted found
  | .ret none line, _, _, _, _, _ => .done
  | .ret (some e) line, h, p, _, st, _ => chronicle_expr e h p st
  | .eval e, h, p, _, st, _ => chronicle_expr e h p st

/-- The resolution of statements is a chronicle of their history, in which the names of
their variables are declared. -/
theorem chronicle_stmts : (ss : List Syntax.Stmt) → (once = true → stmtsDeclareOnce ss) →
    ∀ p hoisted (st : Scopes) scope rest, st.scopes = scope :: rest →
      Chronicle once p st (stmtHistory p hoisted st ss) (varNames ss)
        ((resolveStmts hoisted ss).after st)
  | [], _, _, _, _, _, _, _ => .done
  | s :: ss, h, p, hoisted, st, scope, rest, e => by
    have yields : Yields false s := yields_resolveStmt s
    obtain ⟨_, declares⟩ := yields.declares hoisted st scope rest e
    obtain ⟨_, rest', _, e', _⟩ := declares.scopes
    rw [varNames_cons]
    exact (chronicle_stmt s (fun ho => (h ho).1) p hoisted st (.inr ⟨scope, rest, e⟩)).seq
      (chronicle_stmts ss (fun ho => (h ho).2) p hoisted _ _ rest' e')

/-- The resolution of the members of a class is a roster of them. -/
theorem roster_methods : (methods : List Syntax.Method) →
    (once = true → methodsDeclareOnce methods) →
    ∀ p name c m st, Roster once p name c m st (resolvedMembers name m st methods)
      (memberHistory p c name m st methods) ((resolveMethods name m methods).answer st)
      ((resolveMethods name m methods).after st)
  | [], _, _, _, _, _, _ => .nil
  | ⟨kind, own, params, body⟩ :: rest, h, p, name, c, m, st => by
    let d : Syntax.Method := ⟨kind, own, params, body⟩
    have first : Chronicle once (p.inMember kind c) (enterMember m kind st) _ []
        ((memberOf d).after (enterMember m kind st)) :=
      Chronicle.method own.text params own.line (Chronicle.block (fun hoisted st s rest e =>
        chronicle_stmts body (fun ho => (h ho).2.2.1) (p.inMember kind c) hoisted st s rest e)
        fun ho => (h ho).2.1) (fun ho => (h ho).1) _
    have later := roster_methods rest (fun ho => (h ho).2.2.2) p name c
      ((member name m kind own (memberOf d)).answer st)
      ((member name m kind own (memberOf d)).after st)
    have run := run_member name m d st
    change Roster once p name c (StateT.run (member name m d.kind d.name (memberOf d)) st).1
      (StateT.run (member name m d.kind d.name (memberOf d)) st).2 _ _ _ _ at later
    rw [run] at later
    exact Roster.cons first (evolves_memberOf d _) (selector_memberOf d _) later

end

end Steps

/-- The resolution of a program is a chronicle of its history. -/
theorem chronicle_program {once : Bool} (globals : List String) {program : List Syntax.Stmt}
    (h : once = true → DeclaresOnce program) :
    Chronicle once .outermost (.entry globals) (history globals program) []
      ((blockOf program fun hoisted => resolveStmts hoisted program).after (.entry globals)) :=
  Chronicle.block (chronicle_stmts program (fun ho => (h ho).2) .outermost) (fun ho => (h ho).1) _

end Ember
