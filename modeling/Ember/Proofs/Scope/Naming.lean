/-
Every slot that a resolved program mentions is listed by the word that it was
resolved from.

* `ExprNamed`, `StmtsNamed`, `BlockNamed`, `ClassNamed`: a part of a resolved
  program comes from a part of a program as it is written, and each of its slots is
  called by the word that stands there. Classes and members that lose their place
  to later ones of their name have no counterpart;
* `ExprScoped.named`, `BlockScoped.named`, `ClassScoped.named`: this holds of what
  follows the scoping rules, if all that is declared is called so;
* `resolve_identities`: a whole program, in which moreover no slot is declared or
  listed twice.
-/
import Mathlib
import Ember.Proofs.Scope.Allotment

namespace Ember

/-- The word that is assigned to. -/
def Syntax.Expr.targetWord : Syntax.Expr → String
  | .variable name | .field name | .staticField name => name.text
  | _ => "<invalid>"

/-! ### Slots and words -/

section

variable (N : Slot → String → Prop)

mutual

/-- Each slot in an expression is called by the word it stands for. -/
inductive ExprNamed : Syntax.Expr → Program.Expr → Prop
  | assign {target slot value value' line} : N slot target.targetWord → ExprNamed value value' →
    ExprNamed (.assign target value line) (.assign slot value' line)
  | call {receiver receiver' arguments arguments' code arguments'' name} :
    ExprNamed receiver receiver' → ArgumentsNamed arguments arguments' →
    CodeNamed arguments' code arguments'' →
    ExprNamed (.call receiver name arguments code) (.call receiver' name.text arguments'' name.line)
  | literal {value line} : ExprNamed (.literal value line) (.literal value line)
  | variable {name s} : N s name.text → ExprNamed (.variable name) (.read s name.line)
  | field {name s} : N s name.text → ExprNamed (.field name) (.read s name.line)
  | staticField {name s} : N s name.text → ExprNamed (.staticField name) (.read s name.line)
  | this {s line} : N s "this" → ExprNamed (.this line) (.read s line)
  | logical {left left' right right' op line} : ExprNamed left left' → ExprNamed right right' →
    ExprNamed (.logical op left right line) (.logical op left' right' line)

/-- Each slot in some expressions is called by the word it stands for. -/
inductive ExprsNamed : List Syntax.Expr → List Program.Expr → Prop
  | nil : ExprsNamed [] []
  | cons {e e' es es'} : ExprNamed e e' → ExprsNamed es es' → ExprsNamed (e :: es) (e' :: es')

/-- The same of an expression that may be missing. -/
inductive MaybeNamed : Option Syntax.Expr → Option Program.Expr → Prop
  | none : MaybeNamed none none
  | some {e e'} : ExprNamed e e' → MaybeNamed (some e) (some e')

/-- The same of the arguments of a call that are written in parentheses. -/
inductive ArgumentsNamed : Option (List Syntax.Expr) → Option (List Program.Expr) → Prop
  | none : ArgumentsNamed none none
  | some {es es'} : ExprsNamed es es' → ArgumentsNamed (some es) (some es')

/-- The same of the block of code of a call, which becomes its last argument. -/
inductive CodeNamed : Option (List Program.Expr) → Option Syntax.Code →
    Option (List Program.Expr) → Prop
  | none {arguments} : CodeNamed arguments none arguments
  | some {arguments params body line own ownStatic call} :
    N own "this" → N ownStatic "this" → MethodNamed "call" (some params) line body call →
    CodeNamed arguments (some ⟨params, body, line⟩) (some (arguments.getD [] ++
      [.call (.cls (Resolve.codeClass own ownStatic call line)) "new" (some []) line]))

/-- The same of a method, parameter by parameter. -/
inductive MethodNamed : String → Option (List Name) → Line → List Syntax.Stmt →
    Program.Method → Prop
  | intro {name params line body params' names body'} :
    Option.Rel (List.Forall₂ fun (p : Name) s => N s p.text) params params' →
    BlockNamed body body' → MethodNamed name params line body ⟨name, params', names, body', line⟩

/-- The same of a block: each of its classes is one of those written in it. -/
inductive BlockNamed : List Syntax.Stmt → Program.Block → Prop
  | intro {body ss names classes} : StmtsNamed body ss → ClassesNamed body classes →
    BlockNamed body ⟨ss, names, classes⟩

/-- The same of the statements of a block, its classes aside. -/
inductive StmtsNamed : List Syntax.Stmt → List Program.Stmt → Prop
  | nil : StmtsNamed [] []
  | cls {name methods ss ss'} : StmtsNamed ss ss' → StmtsNamed (.cls name methods :: ss) ss'
  | cons {s s' ss ss'} : StmtNamed s s' → StmtsNamed ss ss' → StmtsNamed (s :: ss) (s' :: ss')

/-- The same of a statement. -/
inductive StmtNamed : Syntax.Stmt → Program.Stmt → Prop
  | block {body body'} : BlockNamed body body' → StmtNamed (.block body) (.block body')
  | branch {condition condition' yes yes' no no' line} : ExprNamed condition condition' →
    BranchNamed yes yes' → ElseNamed no no' →
    StmtNamed (.branch condition yes no line) (.branch condition' yes' no' line)
  | loop {condition condition' body body' line} : ExprNamed condition condition' →
    BranchNamed body body' → StmtNamed (.loop condition body line) (.loop condition' body' line)
  | var {name s init init'} : N s name.text → MaybeNamed init init' →
    StmtNamed (.var name init) (.var s init' name.line)
  | ret {value value' line} : MaybeNamed value value' →
    StmtNamed (.ret value line) (.ret value' line)
  | eval {e e'} : ExprNamed e e' → StmtNamed (.eval e) (.eval e')

/-- The same of a branch, which may be made a block. -/
inductive BranchNamed : Syntax.Stmt → Program.Stmt → Prop
  | block {s b} : BlockNamed [s] b → BranchNamed s (.block b)
  | quiet {s s'} : StmtNamed s s' → BranchNamed s s'

/-- The same of the other branch, which may be missing. -/
inductive ElseNamed : Option Syntax.Stmt → Option Program.Stmt → Prop
  | none : ElseNamed none none
  | some {s s'} : BranchNamed s s' → ElseNamed (some s) (some s')

/-- The same of the classes of a block. -/
inductive ClassesNamed : List Syntax.Stmt → List (Slot × Program.ClassDecl) → Prop
  | nil {body} : ClassesNamed body []
  | cons {body name methods s c cs} : .cls name methods ∈ body → N s name.text →
    ClassNamed name methods c → ClassesNamed body cs → ClassesNamed body ((s, c) :: cs)

/-- The same of a class: each of its members is one of those written in it, of the
same kind. -/
inductive ClassNamed : Name → List Syntax.Method → Program.ClassDecl → Prop
  | intro {name methods receiver staticReceiver constructors staticMethods methods' fields
      staticFields} :
    N receiver "this" → N staticReceiver "this" → MembersNamed methods .construct constructors →
    MembersNamed methods .onClass staticMethods → MembersNamed methods .onInstance methods' →
    ClassNamed name methods ⟨name.text, name.line, receiver, staticReceiver, constructors,
      staticMethods, methods', fields, staticFields⟩

/-- The same of the members of one kind. -/
inductive MembersNamed : List Syntax.Method → Syntax.MethodKind → List Program.Method → Prop
  | nil {methods kind} : MembersNamed methods kind []
  | cons {methods kind own params body x xs} : ⟨kind, own, params, body⟩ ∈ methods →
    MethodNamed own.text params own.line body x → MembersNamed methods kind xs →
    MembersNamed methods kind (x :: xs)

end

/-- All of what is declared is called by its word. -/
def Listed (ds : List (Slot × String)) : Prop := ∀ d ∈ ds, N d.1 d.2

/-- All of what is declared around is called by its word. -/
structure Surroundings.Listed (Γ : Surroundings) : Prop where
  scopes : ∀ ds ∈ Γ.scopes, Ember.Listed N ds
  receivers : ∀ f ∈ Γ.sides, N f.receiver "this"
  fields : ∀ f ∈ Γ.sides, Ember.Listed N f.fields

end

variable {N : Slot → String → Prop} {Γ : Surroundings} {g g' : List (Slot × String)}

/-- Less is called by its words as well. -/
lemma Listed.mono {ds es : List (Slot × String)} (h : Listed N es) (sub : ds ⊆ es) : Listed N ds :=
  fun d hd => h d (sub hd)

/-- What is declared in two parts is called by its words if both parts are. -/
lemma listed_append {ds es : List (Slot × String)} :
    Listed N (ds ++ es) ↔ Listed N ds ∧ Listed N es := List.forall_mem_append

namespace Surroundings.Listed

/-- A scope whose names are called by their words changes nothing. -/
lemma within (h : Γ.Listed N) {ds : List (Slot × String)} (hds : Ember.Listed N ds) :
    (Γ.within ds).Listed N :=
  ⟨List.forall_mem_cons.2 ⟨hds, h.scopes⟩, h.receivers, h.fields⟩

/-- A side whose receiver and fields are called by their words changes nothing. -/
lemma inside (h : Γ.Listed N) {f : FieldScope} (receiver : N f.receiver "this")
    (fields : Ember.Listed N f.fields) : (Γ.inside f).Listed N :=
  ⟨h.scopes, List.forall_mem_cons.2 ⟨receiver, h.receivers⟩,
    List.forall_mem_cons.2 ⟨fields, h.fields⟩⟩

end Surroundings.Listed

/-! ### Uses of words -/

/-- Globals are only ever added by a use of a word. -/
lemma Use.subset {word : String} {o : Option Slot} {s : Slot} (h : Use g word o s g') : g ⊆ g' := by
  cases h with
  | known => exact List.Subset.refl _
  | hole => exact List.subset_append_left _ _

/-- The use of a field only adds globals. -/
lemma FieldUse.subset {word : String} {o : Option FieldScope} {s : Slot}
    (h : FieldUse g word o s g') : g ⊆ g' := by
  cases h with
  | known => exact List.Subset.refl _
  | hole => exact List.subset_append_left _ _

/-- A slot that is used is called by the word, if what is known by the word is. -/
lemma Use.named {word : String} {o : Option Slot} {s : Slot} (h : Use g word o s g')
    (known : ∀ s, o = some s → N s word) (globals : Listed N g') : N s word := by
  cases h with
  | known => exact known s rfl
  | hole => exact globals (s, word) (List.mem_append_right _ (List.mem_singleton_self _))

/-- A field is called by its word, be it known or a new global. -/
lemma FieldUse.named {word : String} {o : Option FieldScope} {s : Slot} (h : FieldUse g word o s g')
    (known : ∀ f, o = some f → Listed N f.fields) (globals : Listed N g') : N s word := by
  cases h with
  | @known f _ found =>
    obtain ⟨d, hd, rfl⟩ := Option.map_eq_some_iff.1 found
    have called : d.2 = word := by simpa using List.find?_some hd
    exact called ▸ known f rfl d (List.mem_of_find?_eq_some hd)
  | hole => exact globals (s, word) (List.mem_append_right _ (List.mem_singleton_self _))

/-- What the name of a variable stands for is called by it. -/
lemma Surroundings.Listed.variable {name : String} {s : Slot} (h : Γ.Listed N)
    (globals : Ember.Listed N g) (hs : Γ.named? g name = some s) : N s name := by
  rw [named?, Option.or_eq_some_iff] at hs
  rcases hs with hs | ⟨_, hs⟩
  · obtain ⟨ds, hds, found⟩ := List.exists_of_findSome?_eq_some hs
    exact h.scopes ds hds _ (mem_of_latest? found)
  · exact globals _ (mem_of_latest? hs)

/-- A variable is called by its word where all that is declared is. -/
lemma Use.variable {name : String} {s : Slot} (h : Use g name (Γ.named? g name) s g')
    (around : Γ.Listed N) (globals : Listed N g') : N s name :=
  h.named (fun _ hs => around.variable (globals.mono h.subset) hs) globals

/-- A field of an instance is called by its word where all that is declared is. -/
lemma FieldUse.instanceField {name : String} {s : Slot} (h : FieldUse g name Γ.instanceSide? s g')
    (around : Γ.Listed N) (globals : Listed N g') : N s name :=
  h.named (fun f hf => around.fields f
    (List.mem_of_mem_head? (Option.eq_some_of_filter_eq_some hf))) globals

/-- A field of a class is called by its word where all that is declared is. -/
lemma FieldUse.staticField {name : String} {s : Slot} (h : FieldUse g name Γ.classSide? s g')
    (around : Γ.Listed N) (globals : Listed N g') : N s name :=
  h.named (fun f hf => around.fields f (List.mem_of_find?_eq_some hf)) globals

/-- A receiver is called `this` where all that is declared is called by its word. -/
lemma Use.this {s : Slot} (h : Use g "this" Γ.receiver? s g') (around : Γ.Listed N)
    (globals : Listed N g') : N s "this" := by
  refine h.named (fun s hs => ?_) globals
  obtain ⟨f, hf, rfl⟩ := Option.map_eq_some_iff.1 hs
  exact around.receivers f (List.mem_of_mem_head? hf)

/-! ### What follows the rules -/

/-- A part of a program with the given names adds globals alone, and `P` holds if
all that is declared is called by its word. -/
structure Spells (N : Slot → String → Prop) (Γ : Surroundings) (g g' names : List (Slot × String))
    (P : Prop) : Prop where
  grows : g ⊆ g'
  named : Γ.Listed N → Listed N g' → Listed N names → P

namespace Spells

variable {g₁ g₂ names names' : List (Slot × String)} {P Q R : Prop}

/-- What follows from what is spelled out, where more is listed. -/
lemma imp (h : Spells N Γ g g' names P) (sub : names ⊆ names') (hPQ : P → Q) :
    Spells N Γ g g' names' Q :=
  ⟨h.grows, fun around globals listed => hPQ (h.named around globals (listed.mono sub))⟩

/-- Two parts of a program, one after the other. -/
lemma andThen (h : Spells N Γ g g₁ names P) (h' : Spells N Γ g₁ g₂ names' Q) (hR : P → Q → R) :
    Spells N Γ g g₂ (names ++ names') R :=
  ⟨List.Subset.trans h.grows h'.grows, fun around globals listed =>
    hR (h.named around (globals.mono h'.grows) (listed_append.1 listed).1)
      (h'.named around globals (listed_append.1 listed).2)⟩

end Spells

open Resolve

/-- What the statements of a block leave is called by the words they stand for,
classes that lose their place aside. -/
structure Leaves (N : Slot → String → Prop) (Γ : Surroundings) (hoisted : List (Slot × String))
    (p : Progress) (body : List Syntax.Stmt) (ss : List Program.Stmt) (p' : Progress) : Prop where
  globals : p.globals ⊆ p'.globals
  names : p.names ⊆ p'.names
  statements : Γ.Listed N → Listed N p'.globals → Listed N p'.names →
    Listed N (Program.stmtNames ss) → StmtsNamed N body ss
  classes : Γ.Listed N → Listed N p'.globals → Listed N p'.names → Listed N hoisted →
    ∀ c ∈ p'.classes, c ∈ p.classes ∨ (Listed N c.2.names →
      ∃ name methods, .cls name methods ∈ body ∧ N c.1 name.text ∧ ClassNamed N name methods c.2)

/-- No statements leave nothing. -/
lemma Leaves.nil (hoisted : List (Slot × String)) (p : Progress) : Leaves N Γ hoisted p [] [] p :=
  ⟨List.Subset.refl _, List.Subset.refl _, fun _ _ _ _ => .nil, fun _ _ _ _ _ hc => .inl hc⟩

/-- The names within statements are those within both parts of them. -/
lemma stmtNames_append (ss ts : List Program.Stmt) :
    Program.stmtNames (ss ++ ts) = Program.stmtNames ss ++ Program.stmtNames ts := by
  induction ss with
  | nil => rfl
  | cons s ss ih =>
    rw [List.cons_append, Program.stmtNames, Program.stmtNames, ih, List.append_assoc]

/-- What two parts of a block come from makes up the block. -/
lemma StmtsNamed.append {body rest : List Syntax.Stmt} {ss ss' : List Program.Stmt}
    (h : StmtsNamed N body ss) (h' : StmtsNamed N rest ss') :
    StmtsNamed N (body ++ rest) (ss ++ ss') := by
  induction body generalizing ss with
  | nil =>
    cases h
    exact h'
  | cons s body ih =>
    cases h with
    | cls h => exact .cls (ih h)
    | cons hs h => exact .cons hs (ih h)

/-- What statements leave one after the other. -/
lemma Leaves.append {hoisted : List (Slot × String)} {p p' p'' : Progress}
    {body rest : List Syntax.Stmt} {ss ss' : List Program.Stmt}
    (h : Leaves N Γ hoisted p body ss p') (h' : Leaves N Γ hoisted p' rest ss' p'') :
    Leaves N Γ hoisted p (body ++ rest) (ss ++ ss') p'' where
  globals := List.Subset.trans h.globals h'.globals
  names := List.Subset.trans h.names h'.names
  statements around globals names listed := by
    rw [stmtNames_append, listed_append] at listed
    exact (h.statements around (globals.mono h'.globals) (names.mono h'.names) listed.1).append
      (h'.statements around globals names listed.2)
  classes around globals names hoists c hc := by
    rcases h'.classes around globals names hoists c hc with hc | later
    · rcases h.classes around (globals.mono h'.globals) (names.mono h'.names) hoists c hc with
        hc | earlier
      · exact .inl hc
      · refine .inr fun listed => ?_
        obtain ⟨name, methods, hmem, called, cls⟩ := earlier listed
        exact ⟨name, methods, List.mem_append_left _ hmem, called, cls⟩
    · refine .inr fun listed => ?_
      obtain ⟨name, methods, hmem, called, cls⟩ := later listed
      exact ⟨name, methods, List.mem_append_right _ hmem, called, cls⟩

/-- A statement that declares nothing in the scope around it. -/
lemma Leaves.other {hoisted : List (Slot × String)} {p : Progress} {s : Syntax.Stmt}
    {s' : Program.Stmt} (h : Spells N (Γ.within p.names) p.globals g' s'.names (StmtNamed N s s')) :
    Leaves N Γ hoisted p [s] [s'] ⟨p.names, p.classes, g'⟩ where
  globals := h.grows
  names := List.Subset.refl _
  statements around globals names listed :=
    .cons (h.named (around.within names) globals (listed_append.1 listed).1) .nil
  classes _ _ _ _ _ hc := .inl hc

/-- A variable is called by its word in its own initializer as well. -/
lemma Leaves.var {hoisted : List (Slot × String)} {p : Progress} {name : Name} {s : Slot}
    {init : Option Syntax.Expr} {init' : Option Program.Expr}
    (h : Spells N (Γ.within (p.names ++ [(s, name.text)])) p.globals g'
      (Program.exprNames init'.toList) (MaybeNamed N init init')) :
    Leaves N Γ hoisted p [.var name init] [.var s init' name.line]
      ⟨p.names ++ [(s, name.text)], p.classes, g'⟩ where
  globals := h.grows
  names := List.subset_append_left _ _
  statements around globals names listed := by
    have called : N s name.text :=
      names (s, name.text) (List.mem_append_right _ (List.mem_singleton_self _))
    refine .cons (.var called (h.named (around.within names) globals (listed.mono ?_))) .nil
    cases init' <;> simp [Program.exprNames, Program.stmtNames, Program.Stmt.names]
  classes _ _ _ _ _ hc := .inl hc

/-- A class is filed under the latest slot of its name. -/
lemma Leaves.cls {hoisted : List (Slot × String)} {p : Progress} {name : Name}
    {methods : List Syntax.Method} {s : Slot} {c : Program.ClassDecl}
    (hs : latest? name.text hoisted = some s)
    (h : Spells N (Γ.within p.names) p.globals g' c.names (ClassNamed N name methods c)) :
    Leaves N Γ hoisted p [.cls name methods] []
      ⟨p.names, insertByKey Prod.fst (s, c) p.classes, g'⟩ where
  globals := h.grows
  names := List.Subset.refl _
  statements _ _ _ _ := .cls .nil
  classes around globals names hoists d hd := by
    rcases mem_insertByKey hd with rfl | hd
    · exact .inr fun listed => ⟨name, methods, List.mem_singleton_self _,
        hoists _ (mem_of_latest? hs), h.named (around.within names) globals listed⟩
    · exact .inl hd

/-- The classes of a block come from it if each of them does. -/
lemma ClassesNamed.of_forall {body : List Syntax.Stmt} {cs : List (Slot × Program.ClassDecl)}
    (h : ∀ c ∈ cs, ∃ name methods, .cls name methods ∈ body ∧ N c.1 name.text ∧
      ClassNamed N name methods c.2) : ClassesNamed N body cs := by
  induction cs with
  | nil => exact .nil
  | cons c cs ih =>
    rw [List.forall_mem_cons] at h
    obtain ⟨⟨name, methods, hmem, called, cls⟩, rest⟩ := h
    exact .cons hmem called cls (ih rest)

/-- The names within one of some classes are among those within all of them. -/
lemma classNames_subset {c : Slot × Program.ClassDecl} {cs : List (Slot × Program.ClassDecl)}
    (h : c ∈ cs) : c.2.names ⊆ Program.classNames cs := by
  induction cs with
  | nil => cases h
  | cons d ds ih =>
    rw [Program.classNames]
    rcases List.mem_cons.1 h with rfl | h
    · exact List.subset_append_left _ _
    · exact List.subset_append_of_subset_right _ (ih h)

/-- A block is what its statements leave. -/
lemma Leaves.block {hoisted names : List (Slot × String)} {body : List Syntax.Stmt}
    {ss : List Program.Stmt} {classes : List (Slot × Program.ClassDecl)}
    (h : Leaves N Γ hoisted ⟨hoisted, [], g⟩ body ss ⟨names, classes, g'⟩) :
    Spells N Γ g g' (Program.Block.allNames ⟨ss, names, classes⟩)
      (BlockNamed N body ⟨ss, names, classes⟩) := by
  refine ⟨h.globals, fun around globals listed => ?_⟩
  rw [Program.Block.allNames, listed_append, listed_append] at listed
  obtain ⟨⟨own, inner⟩, statements⟩ := listed
  refine .intro (h.statements around globals own statements) (.of_forall fun c hc => ?_)
  have filed := h.classes around globals own (own.mono h.names) c hc
  exact filed.resolve_left List.not_mem_nil (inner.mono (classNames_subset hc))

/-- The members of a class that keep their places are among those written in it. -/
structure Keeps (N : Slot → String → Prop) (Γ : Surroundings) (m : Members)
    (g : List (Slot × String)) (methods : List Syntax.Method) (m' : Members)
    (g' : List (Slot × String)) : Prop where
  grows : g ⊆ g'
  side : m'.instanceSide = m.instanceSide
  members : Γ.Listed N → N m.instanceSide.receiver "this" → Listed N m.instanceSide.fields →
    Listed N g' → ∀ kind, ∀ x ∈ m'.table kind, x ∈ m.table kind ∨
      (Listed N (Program.methodNames [x]) → ∃ own params body,
        ⟨kind, own, params, body⟩ ∈ methods ∧ MethodNamed N own.text params own.line body x)

/-- No members keep nothing. -/
lemma Keeps.nil (m : Members) : Keeps N Γ m g [] m g :=
  ⟨List.Subset.refl _, rfl, fun _ _ _ _ _ _ hx => .inl hx⟩

/-- In a member all that is declared around is called by its word. -/
lemma Surroundings.Listed.ofMember (h : Γ.Listed N) {f : FieldScope}
    (receiver : N f.receiver "this") (fields : Ember.Listed N f.fields)
    (kind : Syntax.MethodKind) : (Γ.ofMember f kind).Listed N := by
  cases kind with
  | onClass => exact h
  | construct | onInstance => exact h.inside receiver fields

/-- A member comes from its declaration, and those before it keep their places or lose them
to it. -/
lemma Keeps.cons {m m' : Members} {kind : Syntax.MethodKind} {own : Name}
    {params : Option (List Name)} {body : List Syntax.Stmt} {x : Program.Method}
    {g₁ : List (Slot × String)} {rest : List Syntax.Method}
    (h : Spells N (Γ.ofMember m.instanceSide kind) g g₁ (Program.methodNames [x])
      (MethodNamed N own.text params own.line body x))
    (h' : Keeps N Γ (m.add kind x) g₁ rest m' g') :
    Keeps N Γ m g (⟨kind, own, params, body⟩ :: rest) m' g' := by
  have side := m.instanceSide_add kind x
  refine ⟨List.Subset.trans h.grows h'.grows, h'.side.trans side,
    fun around receiver fields globals k y hy => ?_⟩
  rcases h'.members around (side ▸ receiver) (side ▸ fields) globals k y hy with hy | later
  · rcases Members.mem_table_add hy with ⟨rfl, rfl⟩ | hy
    · refine .inr fun listed => ⟨own, params, body, List.mem_cons_self .., ?_⟩
      exact h.named (around.ofMember receiver fields _) (globals.mono h'.grows) listed
    · exact .inl hy
  · refine .inr fun listed => ?_
    obtain ⟨own', params', body', hmem, named⟩ := later listed
    exact ⟨own', params', body', List.mem_cons_of_mem _ hmem, named⟩

/-- The members of one kind come from their class if each of them does. -/
lemma MembersNamed.of_forall {methods : List Syntax.Method} {kind : Syntax.MethodKind}
    {xs : List Program.Method} (h : ∀ x ∈ xs, ∃ own params body,
      ⟨kind, own, params, body⟩ ∈ methods ∧ MethodNamed N own.text params own.line body x) :
    MembersNamed N methods kind xs := by
  induction xs with
  | nil => exact .nil
  | cons x xs ih =>
    rw [List.forall_mem_cons] at h
    obtain ⟨⟨own, params, body, hmem, named⟩, rest⟩ := h
    exact .cons hmem named (ih rest)

/-- The names within one of some methods are among those within all of them. -/
lemma methodNames_subset {x : Program.Method} {xs : List Program.Method} (h : x ∈ xs) :
    Program.methodNames [x] ⊆ Program.methodNames xs := by
  induction xs with
  | nil => cases h
  | cons y ys ih =>
    have head : Program.methodNames (y :: ys) =
        Program.methodNames [y] ++ Program.methodNames ys := by
      cases y
      simp [Program.methodNames]
    rw [head]
    rcases List.mem_cons.1 h with rfl | h
    · exact List.subset_append_left _ _
    · exact List.subset_append_of_subset_right _ (ih h)

/-- A class is what its members leave. -/
lemma Keeps.cls {name : Name} {methods : List Syntax.Method} {receiver staticReceiver : Slot}
    {constructors staticMethods methods' : List Program.Method}
    {fields staticFields : List (Slot × String)}
    (h : Keeps N (Γ.inside ⟨.onClass, staticReceiver, staticFields⟩)
      ⟨[], [], [], ⟨.onInstance, receiver, fields⟩⟩ g methods
      ⟨constructors, staticMethods, methods', ⟨.onInstance, receiver, fields⟩⟩ g') :
    Spells N Γ g g' (Program.ClassDecl.names ⟨name.text, name.line, receiver, staticReceiver,
      constructors, staticMethods, methods', fields, staticFields⟩)
      (ClassNamed N name methods ⟨name.text, name.line, receiver, staticReceiver, constructors,
        staticMethods, methods', fields, staticFields⟩) := by
  refine ⟨h.grows, fun around globals listed => ?_⟩
  simp only [Program.ClassDecl.names, listed_append] at listed
  obtain ⟨⟨⟨⟨⟨hstatic, hfields⟩, receivers⟩, hc⟩, hs⟩, hm⟩ := listed
  have this : N receiver "this" := receivers (receiver, "this") (List.mem_cons_self ..)
  have static : N staticReceiver "this" :=
    receivers (staticReceiver, "this") (List.mem_cons_of_mem _ (List.mem_singleton_self _))
  have members := h.members (around.inside static hstatic) this hfields globals
  refine .intro this static (.of_forall fun x hx => ?_) (.of_forall fun x hx => ?_)
    (.of_forall fun x hx => ?_)
  · exact (members .construct x hx).resolve_left List.not_mem_nil (hc.mono (methodNames_subset hx))
  · exact (members .onClass x hx).resolve_left List.not_mem_nil (hs.mono (methodNames_subset hx))
  · exact (members .onInstance x hx).resolve_left List.not_mem_nil (hm.mono (methodNames_subset hx))

/-- Parameters are called by their words one by one. -/
lemma forall₂_params {names : List (Slot × String)} {params : List Name}
    (texts : names.map Prod.snd = params.map Name.text) (listed : Listed N names) :
    List.Forall₂ (fun (p : Name) s => N s p.text) params (names.map Prod.fst) := by
  induction names generalizing params with
  | nil =>
    rw [List.map_eq_nil_iff.1 texts.symm]
    exact .nil
  | cons d ds ih =>
    cases params with
    | nil => cases texts
    | cons p ps =>
      obtain ⟨text, texts⟩ := List.cons.inj texts
      rw [Listed, List.forall_mem_cons] at listed
      exact .cons (text ▸ listed.1) (ih texts listed.2)

/-- A method is called so if its parameters and its body are. -/
lemma Spells.method {name : String} {params : Option (List Name)} {line : Line}
    {names : List (Slot × String)} {body : List Syntax.Stmt} {body' : Program.Block}
    (texts : names.map Prod.snd = (params.getD []).map Name.text)
    (h : Spells N (Γ.within names) g g' body'.allNames (BlockNamed N body body')) :
    Spells N Γ g g' (Program.methodNames [⟨name, params.map fun _ => names.map Prod.fst, names,
        body', line⟩])
      (MethodNamed N name params line body
        ⟨name, params.map fun _ => names.map Prod.fst, names, body', line⟩) := by
  refine ⟨h.grows, fun around globals listed => ?_⟩
  simp only [Program.methodNames, List.append_nil, listed_append] at listed
  refine .intro ?_ (h.named (around.within listed.1) globals listed.2)
  cases params with
  | none => exact .none
  | some ps => exact .some (forall₂_params texts listed.1)

/-- The names within expressions are those within both parts of them. -/
lemma exprNames_append (es fs : List Program.Expr) :
    Program.exprNames (es ++ fs) = Program.exprNames es ++ Program.exprNames fs := by
  induction es with
  | nil => rfl
  | cons e es ih =>
    rw [List.cons_append, Program.exprNames, Program.exprNames, ih, List.append_assoc]

/-- The class of a block of code is called so if its method is. -/
lemma Spells.code {arguments : Option (List Program.Expr)} {params : List Name}
    {body : List Syntax.Stmt} {line : Line} {own ownStatic : Slot} {call : Program.Method}
    (h : Spells N Γ g g' (Program.methodNames [call])
      (MethodNamed N "call" (some params) line body call)) :
    Spells N Γ g g' (Program.exprNames (arguments.getD [] ++
        [.call (.cls (codeClass own ownStatic call line)) "new" (some []) line]))
      (CodeNamed N arguments (some ⟨params, body, line⟩) (some (arguments.getD [] ++
        [.call (.cls (codeClass own ownStatic call line)) "new" (some []) line]))) := by
  refine ⟨h.grows, fun around globals listed => ?_⟩
  have made : Program.exprNames
      [.call (.cls (codeClass own ownStatic call line)) "new" (some []) line] =
        [(own, "this"), (ownStatic, "this")] ++ Program.methodNames [call] := by
    simp [Program.exprNames, Program.Expr.names, codeClass, Program.ClassDecl.names,
      Program.methodNames, Program.Block.empty, Program.Block.allNames, Program.classNames,
      Program.stmtNames]
  rw [exprNames_append, made, listed_append, listed_append] at listed
  obtain ⟨_, receivers, inner⟩ := listed
  exact .some (receivers (own, "this") (List.mem_cons_self ..))
    (receivers (ownStatic, "this") (List.mem_cons_of_mem _ (List.mem_singleton_self _)))
    (h.named around globals inner)

/-- The names within arguments are among those of all arguments, the block of code included. -/
lemma CodeScoped.names_subset {code : Option Syntax.Code} {es es' : Option (List Program.Expr)}
    (h : CodeScoped Γ g es code es' g') :
    Program.exprNames (es.getD []) ⊆ Program.exprNames (es'.getD []) := by
  cases h with
  | none => exact List.Subset.refl _
  | some =>
    rw [Option.getD_some, exprNames_append]
    exact List.subset_append_left _ _

/-- A call comes from its receiver, its arguments and its block of code. -/
lemma Spells.call {receiver : Syntax.Expr} {receiver' : Program.Expr}
    {arguments : Option (List Syntax.Expr)} {arguments' arguments'' : Option (List Program.Expr)}
    {code : Option Syntax.Code} {name : Name} {g₁ g₂ g₃ : List (Slot × String)}
    (hr : Spells N Γ g g₁ receiver'.names (ExprNamed N receiver receiver'))
    (ha : Spells N Γ g₁ g₂ (Program.exprNames (arguments'.getD []))
      (ArgumentsNamed N arguments arguments'))
    (hc : Spells N Γ g₂ g₃ (Program.exprNames (arguments''.getD []))
      (CodeNamed N arguments' code arguments''))
    (sub : Program.exprNames (arguments'.getD []) ⊆ Program.exprNames (arguments''.getD [])) :
    Spells N Γ g g₃ (Program.Expr.names (.call receiver' name.text arguments'' name.line))
      (ExprNamed N (.call receiver name arguments code)
        (.call receiver' name.text arguments'' name.line)) := by
  have names : Program.Expr.names (.call receiver' name.text arguments'' name.line) =
      receiver'.names ++ Program.exprNames (arguments''.getD []) := by
    cases arguments'' <;> simp [Program.Expr.names, Program.exprNames]
  rw [names]
  refine (hr.andThen (ha.andThen hc And.intro) fun hr h => .call hr h.1 h.2).imp ?_ id
  exact List.append_subset.2 ⟨List.subset_append_left _ _, List.append_subset.2
    ⟨List.subset_append_of_subset_right _ sub, List.subset_append_right _ _⟩⟩

/-- A conditional comes from its condition and its branches. -/
lemma Spells.branch {condition : Syntax.Expr} {condition' : Program.Expr} {yes : Syntax.Stmt}
    {yes' : Program.Stmt} {no : Option Syntax.Stmt} {no' : Option Program.Stmt} {line : Line}
    {g₁ g₂ g₃ : List (Slot × String)}
    (hc : Spells N Γ g g₁ condition'.names (ExprNamed N condition condition'))
    (hy : Spells N Γ g₁ g₂ yes'.names (BranchNamed N yes yes'))
    (hn : Spells N Γ g₂ g₃ (Program.stmtNames no'.toList) (ElseNamed N no no')) :
    Spells N Γ g g₃ (Program.Stmt.names (.branch condition' yes' no' line))
      (StmtNamed N (.branch condition yes no line) (.branch condition' yes' no' line)) := by
  refine (hc.andThen (hy.andThen hn And.intro) fun hc h => .branch hc h.1 h.2).imp ?_ id
  cases no' <;> simp [Program.Stmt.names, Program.stmtNames]

/-- A return comes from its value, if it has one. -/
lemma Spells.ret {value : Option Syntax.Expr} {value' : Option Program.Expr} {line : Line}
    (h : Spells N Γ g g' (Program.exprNames value'.toList) (MaybeNamed N value value')) :
    Spells N Γ g g' (Program.Stmt.names (.ret value' line))
      (StmtNamed N (.ret value line) (.ret value' line)) := by
  refine h.imp ?_ .ret
  cases value' <;> simp [Program.Stmt.names, Program.exprNames]

/-- What cannot be assigned to goes by one word. -/
lemma targetWord_of_invalid :
    (e : Syntax.Expr) → ¬ e.IsTarget → e.targetWord = "<invalid>"
  | .variable _, h | .field _, h | .staticField _, h => absurd trivial h
  | .assign _ _ _, _ | .call _ _ _ _, _ | .literal _ _, _ | .this _, _ | .logical _ _ _ _, _ => rfl

/-- What is no target is given up, and the slot in its place is called so. -/
lemma Spells.invalid {e : Syntax.Expr} {names : List (Slot × String)} {P : Prop} {s : Slot}
    {g₁ g₂ : List (Slot × String)} (h : Spells N Γ g g₁ names P) (he : ¬ e.IsTarget)
    (hu : Use g₁ "<invalid>" none s g₂) : Spells N Γ g g₂ [] (N s e.targetWord) := by
  refine ⟨List.Subset.trans h.grows hu.subset, fun _ globals _ => ?_⟩
  rw [targetWord_of_invalid e he]
  exact hu.named (fun s hs => by cases hs) globals

/-- A step that only uses a word. -/
lemma Spells.use {P : Prop} (sub : g ⊆ g') (h : Γ.Listed N → Listed N g' → P) :
    Spells N Γ g g' [] P :=
  ⟨sub, fun around globals _ => h around globals⟩

mutual

/-- An expression that follows the rules is called by the words it stands for. -/
theorem ExprScoped.named {Γ : Surroundings} {g g' : List (Slot × String)} {e : Syntax.Expr}
    {e' : Program.Expr} : ExprScoped Γ g e e' g' → Spells N Γ g g' e'.names (ExprNamed N e e')
  | .assign ht hv => ht.named.andThen hv.named .assign
  | .call hr ha hc => hr.named.call ha.named hc.named hc.names_subset
  | .literal => .use (List.Subset.refl _) fun _ _ => .literal
  | .variable h => .use h.subset fun around globals => .variable (h.variable around globals)
  | .field h => .use h.subset fun around globals => .field (h.instanceField around globals)
  | .staticField h => .use h.subset
    fun around globals => .staticField (h.staticField around globals)
  | .this h => .use h.subset fun around globals => .this (h.this around globals)
  | .logical hl hr => hl.named.andThen hr.named .logical

/-- What is assigned to is called by its word. -/
lemma TargetScoped.named {Γ : Surroundings} {g g' : List (Slot × String)} {e : Syntax.Expr}
    {s : Slot} : TargetScoped Γ g e s g' → Spells N Γ g g' [] (N s e.targetWord)
  | .variable h => .use h.subset fun around globals => h.variable around globals
  | .field h => .use h.subset fun around globals => h.instanceField around globals
  | .staticField h => .use h.subset fun around globals => h.staticField around globals
  | .invalid he h hu => h.named.invalid he hu

/-- Expressions are called by their words, one after the other. -/
lemma ExprsScoped.named {Γ : Surroundings} {g g' : List (Slot × String)} {es : List Syntax.Expr}
    {es' : List Program.Expr} : ExprsScoped Γ g es es' g' →
      Spells N Γ g g' (Program.exprNames es') (ExprsNamed N es es')
  | .nil => .use (List.Subset.refl _) fun _ _ => .nil
  | .cons h h' => h.named.andThen h'.named .cons

/-- An expression that may be missing is called by its words. -/
lemma MaybeScoped.named {Γ : Surroundings} {g g' : List (Slot × String)} {e : Option Syntax.Expr}
    {e' : Option Program.Expr} : MaybeScoped Γ g e e' g' →
      Spells N Γ g g' (Program.exprNames e'.toList) (MaybeNamed N e e')
  | .none => .use (List.Subset.refl _) fun _ _ => .none
  | .some h => h.named.imp (List.subset_append_left _ _) .some

/-- Arguments in parentheses are called by their words. -/
lemma ArgumentsScoped.named {Γ : Surroundings} {g g' : List (Slot × String)}
    {es : Option (List Syntax.Expr)} {es' : Option (List Program.Expr)} :
    ArgumentsScoped Γ g es es' g' →
      Spells N Γ g g' (Program.exprNames (es'.getD [])) (ArgumentsNamed N es es')
  | .none => .use (List.Subset.refl _) fun _ _ => .none
  | .some h => h.named.imp (List.Subset.refl _) .some

/-- A block of code is called by its words, and so are the receivers of its class. -/
lemma CodeScoped.named {Γ : Surroundings} {g g' : List (Slot × String)}
    {code : Option Syntax.Code} {es es' : Option (List Program.Expr)} :
    CodeScoped Γ g es code es' g' →
      Spells N Γ g g' (Program.exprNames (es'.getD [])) (CodeNamed N es code es')
  | .none => ⟨List.Subset.refl _, fun _ _ _ => .none⟩
  | .some h => h.named.code

/-- A method is called by its words, its parameters included. -/
lemma MethodScoped.named {Γ : Surroundings} {g g' : List (Slot × String)} {name : String}
    {params : Option (List Name)} {line : Line} {body : List Syntax.Stmt} {m : Program.Method} :
    MethodScoped Γ g name params line body m g' →
      Spells N Γ g g' (Program.methodNames [m]) (MethodNamed N name params line body m)
  | .intro texts h => h.named.method texts

/-- A block that follows the rules is called by the words it stands for. -/
theorem BlockScoped.named {Γ : Surroundings} {g g' : List (Slot × String)}
    {body : List Syntax.Stmt} {b : Program.Block} : BlockScoped Γ g body b g' →
      Spells N Γ g g' b.allNames (BlockNamed N body b)
  | .intro _ h => h.named.block

/-- The statements of a block are called by their words. -/
lemma StmtsScoped.named {Γ : Surroundings} {hoisted : List (Slot × String)} {p p' : Progress}
    {ss : List Syntax.Stmt} {ss' : List Program.Stmt} : StmtsScoped Γ hoisted p ss ss' p' →
      Leaves N Γ hoisted p ss ss' p'
  | .nil => .nil hoisted p
  | .cons h h' => h.named.append h'.named

/-- A step through a block is called by its words. -/
lemma StepScoped.named {Γ : Surroundings} {hoisted : List (Slot × String)} {p p' : Progress}
    {s : Syntax.Stmt} {o : Option Program.Stmt} : StepScoped Γ hoisted p s o p' →
      Leaves N Γ hoisted p [s] o.toList p'
  | .var h => .var h.named
  | .cls hs h => .cls hs h.named
  | .other h => .other h.named

/-- A statement is called by its words. -/
lemma StmtScoped.named {Γ : Surroundings} {g g' : List (Slot × String)} {s : Syntax.Stmt}
    {s' : Program.Stmt} : StmtScoped Γ g s s' g' → Spells N Γ g g' s'.names (StmtNamed N s s')
  | .block h => h.named.imp (List.Subset.refl _) .block
  | .branch hc hy hn => hc.named.branch hy.named hn.named
  | .loop hc hb => hc.named.andThen hb.named .loop
  | .ret h => h.named.ret
  | .eval h => h.named.imp (List.Subset.refl _) .eval

/-- A branch is called by its words. -/
lemma BranchScoped.named {Γ : Surroundings} {g g' : List (Slot × String)} {s : Syntax.Stmt}
    {s' : Program.Stmt} : BranchScoped Γ g s s' g' →
      Spells N Γ g g' s'.names (BranchNamed N s s')
  | .block _ h => h.named.imp (List.Subset.refl _) .block
  | .quiet _ h => h.named.imp (List.Subset.refl _) .quiet

/-- A branch that may be missing is called by its words. -/
lemma ElseScoped.named {Γ : Surroundings} {g g' : List (Slot × String)} {s : Option Syntax.Stmt}
    {s' : Option Program.Stmt} : ElseScoped Γ g s s' g' →
      Spells N Γ g g' (Program.stmtNames s'.toList) (ElseNamed N s s')
  | .none => .use (List.Subset.refl _) fun _ _ => .none
  | .some h => h.named.imp (List.subset_append_left _ _) .some

/-- A class that follows the rules is called by the words it stands for. -/
theorem ClassScoped.named {Γ : Surroundings} {g g' : List (Slot × String)} {name : Name}
    {methods : List Syntax.Method} {c : Program.ClassDecl} : ClassScoped Γ g name methods c g' →
      Spells N Γ g g' c.names (ClassNamed N name methods c)
  | .intro h => h.named.cls

/-- The members of a class are called by their words. -/
lemma MethodsScoped.named {Γ : Surroundings} {g g' : List (Slot × String)} {m m' : Members}
    {methods : List Syntax.Method} : MethodsScoped Γ m g methods m' g' →
      Keeps N Γ m g methods m' g'
  | .nil => .nil _
  | .cons h h' => .cons h.named h'.named

end

/-! ### Whole programs -/

/-- In a list without repeated keys each entry is found. -/
lemma lookup_of_mem {ds : List (Slot × String)} (nodup : (ds.map Prod.fst).Nodup)
    {d : Slot × String} (h : d ∈ ds) : ds.lookup d.1 = some d.2 := by
  induction ds with
  | nil => cases h
  | cons e es ih =>
    rw [List.map_cons, List.nodup_cons] at nodup
    rcases List.mem_cons.1 h with rfl | h
    · exact List.lookup_cons_self
    · have other : d.1 ≠ e.1 := fun he => nodup.1 (he ▸ List.mem_map_of_mem h)
      rw [List.lookup_cons, beq_false_of_ne other]
      exact ih nodup.2 h

/-- Whatever mistakes a program has, no slot of its resolved form is declared twice
or listed twice, and each slot that occurs in it is listed by the word that it was
resolved from. -/
theorem resolve_identities (globals : List String) (program : List Syntax.Stmt) :
    (resolve globals program).1.slots.Nodup ∧
      ((resolve globals program).1.names.map Prod.fst).Nodup ∧
      BlockNamed (fun s word => (resolve globals program).1.names.lookup s = some word) program
        (resolve globals program).1.root := by
  have nodup := names_nodup globals program
  refine ⟨resolve_nodup globals program, nodup, ?_⟩
  obtain ⟨g, _, rules⟩ := resolve_scoped globals program
  have all : Listed (fun s word => (resolve globals program).1.names.lookup s = some word)
      (resolve globals program).1.names := fun d hd => lookup_of_mem nodup hd
  have around : Surroundings.Listed
      (fun s word => (resolve globals program).1.names.lookup s = some word) ⟨[], []⟩ :=
    ⟨fun _ h => absurd h List.not_mem_nil, fun _ h => absurd h List.not_mem_nil,
      fun _ h => absurd h List.not_mem_nil⟩
  exact rules.named.named around (all.mono (List.subset_append_left _ _))
    (all.mono (List.subset_append_right _ _))

end Ember
