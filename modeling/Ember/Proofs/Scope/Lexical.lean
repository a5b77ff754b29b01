/-
The scoping rules of the language, as a relation between a program as it is
written and a program over slots that knows of no binding table and hands out
no slots.

* `latest?`: what a name stands for in a scope: its most recent declaration there;
* `Surroundings`: the declarations and the classes around a point of the
  program, with `Surroundings.named?`, `Surroundings.instanceField?`,
  `Surroundings.staticField?` and `Surroundings.receiver?`: what a word stands
  for there;
* `Use`: a word stands for the slot that it is known by. One that is not known
  gets a new global, by which it is known from then on;
* `ExprScoped`, `BlockScoped`, `MethodScoped`, `ClassScoped`: the rules, one for
  each form of the language. The globals made so far are handed from each part
  to the next;
* `Expr.recovered` and its companions: the words that are made globals although
  they are no names of variables;
* `BlockScoped.kept`, `ClassScoped.kept`, `CodeScoped.kept`: a global is the same
  after a nested part of the program, unless it is called like one of these.
-/
import Mathlib
import Ember.Proofs.Scope.Closure

namespace Ember

/-! ### Declarations -/

/-- What a name stands for in a scope whose declarations are given in the order
in which they were made: the most recent one. -/
def latest? (name : String) : List (Slot × String) → Option Slot
  | [] => none
  | d :: ds => (latest? name ds).or (if d.2 = name then some d.1 else none)

/-- Of two lists of declarations the later one decides. -/
lemma latest?_append (name : String) (ds es : List (Slot × String)) :
    latest? name (ds ++ es) = (latest? name es).or (latest? name ds) := by
  induction ds with
  | nil => exact (Option.or_none).symm
  | cons d ds ih => rw [List.cons_append, latest?, latest?, ih, Option.or_assoc]

/-- A declaration that comes last is the latest of its name. -/
lemma latest?_concat (name : String) (ds : List (Slot × String)) (d : Slot × String) :
    latest? name (ds ++ [d]) = if d.2 = name then some d.1 else latest? name ds := by
  rw [latest?_append]
  by_cases h : d.2 = name <;> simp [latest?, h]

/-- The latest declaration of a name is one of the declarations. -/
lemma mem_of_latest? {name : String} {ds : List (Slot × String)} {s : Slot}
    (h : latest? name ds = some s) : (s, name) ∈ ds := by
  induction ds with
  | nil => cases h
  | cons d ds ih =>
    rw [latest?, Option.or_eq_some_iff] at h
    rcases h with h | ⟨_, h⟩
    · exact List.mem_cons_of_mem _ (ih h)
    · by_cases hd : d.2 = name
      · rw [if_pos hd] at h
        cases h
        rw [← hd]
        exact List.mem_cons_self ..
      · rw [if_neg hd] at h
        cases h

/-- What is declared around a point of the program: the scopes, innermost first,
each with its declarations up to there, and the sides of the classes around,
innermost first, each with all its fields. -/
structure Surroundings where
  scopes : List (List (Slot × String))
  sides : List FieldScope

namespace Surroundings

/-- The same point inside a scope with the given declarations. -/
def within (Γ : Surroundings) (ds : List (Slot × String)) : Surroundings :=
  { Γ with scopes := ds :: Γ.scopes }

/-- The same point on a side of a class. -/
def inside (Γ : Surroundings) (side : FieldScope) : Surroundings :=
  { Γ with sides := side :: Γ.sides }

/-- What a name stands for in the scopes around: its most recent declaration in
the innermost scope that has one. -/
def local? (Γ : Surroundings) (name : String) : Option Slot :=
  Γ.scopes.findSome? (latest? name)

/-- What the name of a variable stands for: the globals are the outermost scope. -/
def named? (Γ : Surroundings) (globals : List (Slot × String)) (name : String) : Option Slot :=
  (Γ.local? name).or (latest? name globals)

/-- The side on which the fields of the instance are, directly inside a class. -/
def instanceSide? (Γ : Surroundings) : Option FieldScope :=
  Γ.sides.head?.filter fun f => f.side = .onInstance

/-- The side on which the fields of the class are: that of the innermost class. -/
def classSide? (Γ : Surroundings) : Option FieldScope := Γ.sides.find? fun f => f.side = .onClass

/-- What `this` stands for. -/
def receiver? (Γ : Surroundings) : Option Slot := Γ.sides.head?.map FieldScope.receiver

end Surroundings

/-! ### The rules -/

/-- A word stands for the slot it is known by, and for a new global if there is
none. -/
inductive Use (globals : List (Slot × String)) (word : String) :
    Option Slot → Slot → List (Slot × String) → Prop
  | known (s : Slot) : Use globals word (some s) s globals
  | hole (s : Slot) : Use globals word none s (globals ++ [(s, word)])

/-- The name of a field stands for one of the fields on a side of a class, and
for a new global where there is no such side. -/
inductive FieldUse (globals : List (Slot × String)) (word : String) :
    Option FieldScope → Slot → List (Slot × String) → Prop
  | known {f : FieldScope} {s : Slot} : f.find? word = some s →
    FieldUse globals word (some f) s globals
  | hole (s : Slot) : FieldUse globals word none s (globals ++ [(s, word)])

/-- What the statements of a block have left so far: the declarations of its
scope, its classes and the globals. -/
structure Progress where
  names : List (Slot × String)
  classes : List (Slot × Program.ClassDecl)
  globals : List (Slot × String)

namespace Syntax

/-- Whether something can be assigned to. -/
def Expr.IsTarget : Expr → Prop
  | .variable _ | .field _ | .staticField _ => True
  | _ => False

end Syntax

open Resolve

/-- Where a member of a class is resolved: constructors and methods of the
instance are on the side of the instance too. -/
def Surroundings.ofMember (Γ : Surroundings) (side : FieldScope) :
    Syntax.MethodKind → Surroundings
  | .onClass => Γ
  | .construct | .onInstance => Γ.inside side

/-- The table of one kind of members. -/
def Resolve.Members.table (m : Members) : Syntax.MethodKind → List Program.Method
  | .construct => m.constructors
  | .onClass => m.staticMethods
  | .onInstance => m.methods

/-- In the tables after a member is added is that member or one from before. -/
lemma Resolve.Members.mem_table_add {m : Members} {kind k : Syntax.MethodKind}
    {x y : Program.Method} (h : y ∈ (m.add kind x).table k) :
    (k = kind ∧ y = x) ∨ y ∈ m.table k := by
  cases kind <;> cases k
  case construct.construct | onClass.onClass | onInstance.onInstance =>
    exact (mem_insertByKey h).imp_left fun e => ⟨rfl, e⟩
  all_goals exact .inr h

mutual

/-- An expression, from left to right. -/
inductive ExprScoped : Surroundings → List (Slot × String) → Syntax.Expr → Program.Expr →
    List (Slot × String) → Prop
  | assign {Γ g target slot g₁ value value' g₂ line} :
    TargetScoped Γ g target slot g₁ → ExprScoped Γ g₁ value value' g₂ →
    ExprScoped Γ g (.assign target value line) (.assign slot value' line) g₂
  | call {Γ g receiver receiver' g₁ arguments arguments' g₂ code arguments'' g₃ name} :
    ExprScoped Γ g receiver receiver' g₁ → ArgumentsScoped Γ g₁ arguments arguments' g₂ →
    CodeScoped Γ g₂ arguments' code arguments'' g₃ →
    ExprScoped Γ g (.call receiver name arguments code)
      (.call receiver' name.text arguments'' name.line) g₃
  | literal {Γ g value line} : ExprScoped Γ g (.literal value line) (.literal value line) g
  | variable {Γ g name s g'} : Use g name.text (Γ.named? g name.text) s g' →
    ExprScoped Γ g (.variable name) (.read s name.line) g'
  | field {Γ g name s g'} : FieldUse g name.text Γ.instanceSide? s g' →
    ExprScoped Γ g (.field name) (.read s name.line) g'
  | staticField {Γ g name s g'} : FieldUse g name.text Γ.classSide? s g' →
    ExprScoped Γ g (.staticField name) (.read s name.line) g'
  | this {Γ g s g' line} : Use g "this" Γ.receiver? s g' →
    ExprScoped Γ g (.this line) (.read s line) g'
  | logical {Γ g left left' g₁ right right' g₂ op line} :
    ExprScoped Γ g left left' g₁ → ExprScoped Γ g₁ right right' g₂ →
    ExprScoped Γ g (.logical op left right line) (.logical op left' right' line) g₂

/-- What is assigned to. Anything but a variable or a field is resolved for its
mistakes and given up. -/
inductive TargetScoped : Surroundings → List (Slot × String) → Syntax.Expr → Slot →
    List (Slot × String) → Prop
  | variable {Γ g name s g'} : Use g name.text (Γ.named? g name.text) s g' →
    TargetScoped Γ g (.variable name) s g'
  | field {Γ g name s g'} : FieldUse g name.text Γ.instanceSide? s g' →
    TargetScoped Γ g (.field name) s g'
  | staticField {Γ g name s g'} : FieldUse g name.text Γ.classSide? s g' →
    TargetScoped Γ g (.staticField name) s g'
  | invalid {Γ g target target' g₁ s g₂} : ¬ target.IsTarget →
    ExprScoped Γ g target target' g₁ → Use g₁ "<invalid>" none s g₂ → TargetScoped Γ g target s g₂

/-- Expressions, from left to right. -/
inductive ExprsScoped : Surroundings → List (Slot × String) → List Syntax.Expr →
    List Program.Expr → List (Slot × String) → Prop
  | nil {Γ g} : ExprsScoped Γ g [] [] g
  | cons {Γ g e e' g₁ es es' g₂} : ExprScoped Γ g e e' g₁ → ExprsScoped Γ g₁ es es' g₂ →
    ExprsScoped Γ g (e :: es) (e' :: es') g₂

/-- An expression that may be missing. -/
inductive MaybeScoped : Surroundings → List (Slot × String) → Option Syntax.Expr →
    Option Program.Expr → List (Slot × String) → Prop
  | none {Γ g} : MaybeScoped Γ g none none g
  | some {Γ g e e' g'} : ExprScoped Γ g e e' g' → MaybeScoped Γ g (some e) (some e') g'

/-- The arguments of a call that are written in parentheses. -/
inductive ArgumentsScoped : Surroundings → List (Slot × String) → Option (List Syntax.Expr) →
    Option (List Program.Expr) → List (Slot × String) → Prop
  | none {Γ g} : ArgumentsScoped Γ g none none g
  | some {Γ g es es' g'} : ExprsScoped Γ g es es' g' → ArgumentsScoped Γ g (some es) (some es') g'

/-- The block of code of a call, which becomes its last argument. -/
inductive CodeScoped : Surroundings → List (Slot × String) → Option (List Program.Expr) →
    Option Syntax.Code → Option (List Program.Expr) → List (Slot × String) → Prop
  | none {Γ g arguments} : CodeScoped Γ g arguments none arguments g
  | some {Γ g arguments params body line own ownStatic call g'} :
    MethodScoped Γ g "call" (some params) line body call g' →
    CodeScoped Γ g arguments (some ⟨params, body, line⟩)
      (some (arguments.getD [] ++
        [.call (.cls (codeClass own ownStatic call line)) "new" (some []) line])) g'

/-- A method: its parameters are the scope around that of its body. -/
inductive MethodScoped : Surroundings → List (Slot × String) → String → Option (List Name) → Line →
    List Syntax.Stmt → Program.Method → List (Slot × String) → Prop
  | intro {Γ g name params line names body body' g'} :
    names.map Prod.snd = (params.getD []).map Name.text →
    BlockScoped (Γ.within names) g body body' g' →
    MethodScoped Γ g name params line body
      ⟨name, params.map fun _ => names.map Prod.fst, names, body', line⟩ g'

/-- A block: its classes are declared before its first statement. -/
inductive BlockScoped : Surroundings → List (Slot × String) → List Syntax.Stmt → Program.Block →
    List (Slot × String) → Prop
  | intro {Γ g body hoisted ss names classes g'} :
    hoisted.map Prod.snd = classNames body →
    StmtsScoped Γ hoisted ⟨hoisted, [], g⟩ body ss ⟨names, classes, g'⟩ →
    BlockScoped Γ g body ⟨ss, names, classes⟩ g'

/-- The statements of a block whose classes are hoisted. -/
inductive StmtsScoped : Surroundings → List (Slot × String) → Progress → List Syntax.Stmt →
    List Program.Stmt → Progress → Prop
  | nil {Γ hoisted p} : StmtsScoped Γ hoisted p [] [] p
  | cons {Γ hoisted p s o p₁ ss ss' p₂} :
    StepScoped Γ hoisted p s o p₁ → StmtsScoped Γ hoisted p₁ ss ss' p₂ →
    StmtsScoped Γ hoisted p (s :: ss) (o.toList ++ ss') p₂

/-- One statement of a block: a variable counts as declared from its statement
on, its initializer included, and a class is filed under the slot that its name
was hoisted with last. -/
inductive StepScoped : Surroundings → List (Slot × String) → Progress → Syntax.Stmt →
    Option Program.Stmt → Progress → Prop
  | var {Γ hoisted p name init s init' g'} :
    MaybeScoped (Γ.within (p.names ++ [(s, name.text)])) p.globals init init' g' →
    StepScoped Γ hoisted p (.var name init) (some (.var s init' name.line))
      ⟨p.names ++ [(s, name.text)], p.classes, g'⟩
  | cls {Γ hoisted p name methods s c g'} :
    latest? name.text hoisted = some s →
    ClassScoped (Γ.within p.names) p.globals name methods c g' →
    StepScoped Γ hoisted p (.cls name methods) none
      ⟨p.names, insertByKey Prod.fst (s, c) p.classes, g'⟩
  | other {Γ hoisted p s s' g'} : StmtScoped (Γ.within p.names) p.globals s s' g' →
    StepScoped Γ hoisted p s (some s') ⟨p.names, p.classes, g'⟩

/-- A statement that declares nothing in the scope around it. -/
inductive StmtScoped : Surroundings → List (Slot × String) → Syntax.Stmt → Program.Stmt →
    List (Slot × String) → Prop
  | block {Γ g body body' g'} : BlockScoped Γ g body body' g' →
    StmtScoped Γ g (.block body) (.block body') g'
  | branch {Γ g condition condition' g₁ yes yes' g₂ no no' g₃ line} :
    ExprScoped Γ g condition condition' g₁ → BranchScoped Γ g₁ yes yes' g₂ →
    ElseScoped Γ g₂ no no' g₃ →
    StmtScoped Γ g (.branch condition yes no line) (.branch condition' yes' no' line) g₃
  | loop {Γ g condition condition' g₁ body body' g₂ line} :
    ExprScoped Γ g condition condition' g₁ → BranchScoped Γ g₁ body body' g₂ →
    StmtScoped Γ g (.loop condition body line) (.loop condition' body' line) g₂
  | ret {Γ g value value' g' line} : MaybeScoped Γ g value value' g' →
    StmtScoped Γ g (.ret value line) (.ret value' line) g'
  | eval {Γ g e e' g'} : ExprScoped Γ g e e' g' → StmtScoped Γ g (.eval e) (.eval e') g'

/-- A branch: one that declares something is a block of one statement. -/
inductive BranchScoped : Surroundings → List (Slot × String) → Syntax.Stmt → Program.Stmt →
    List (Slot × String) → Prop
  | block {Γ g s b g'} : ¬ IsQuiet s → BlockScoped Γ g [s] b g' → BranchScoped Γ g s (.block b) g'
  | quiet {Γ g s s' g'} : IsQuiet s → StmtScoped Γ g s s' g' → BranchScoped Γ g s s' g'

/-- The other branch, which may be missing. -/
inductive ElseScoped : Surroundings → List (Slot × String) → Option Syntax.Stmt →
    Option Program.Stmt → List (Slot × String) → Prop
  | none {Γ g} : ElseScoped Γ g none none g
  | some {Γ g s s' g'} : BranchScoped Γ g s s' g' → ElseScoped Γ g (some s) (some s') g'

/-- A class, whose static side is around all its members. -/
inductive ClassScoped : Surroundings → List (Slot × String) → Name → List Syntax.Method →
    Program.ClassDecl → List (Slot × String) → Prop
  | intro {Γ g name methods receiver staticReceiver constructors staticMethods methods' fields
      staticFields g'} :
    MethodsScoped (Γ.inside ⟨.onClass, staticReceiver, staticFields⟩)
      ⟨[], [], [], ⟨.onInstance, receiver, fields⟩⟩ g methods
      ⟨constructors, staticMethods, methods', ⟨.onInstance, receiver, fields⟩⟩ g' →
    ClassScoped Γ g name methods ⟨name.text, name.line, receiver, staticReceiver, constructors,
      staticMethods, methods', fields, staticFields⟩ g'

/-- The members of a class, each added to the table of its kind. -/
inductive MethodsScoped : Surroundings → Members → List (Slot × String) → List Syntax.Method →
    Members → List (Slot × String) → Prop
  | nil {Γ m g} : MethodsScoped Γ m g [] m g
  | cons {Γ m g kind own params body x g₁ rest m' g₂} :
    MethodScoped (Γ.ofMember m.instanceSide kind) g own.text params own.line body x g₁ →
    MethodsScoped Γ (m.add kind x) g₁ rest m' g₂ →
    MethodsScoped Γ m g (⟨kind, own, params, body⟩ :: rest) m' g₂

end

/-! ### Words that recovery declares -/

namespace Syntax

/-- The name of a field of the instance, where there is no side of an instance. -/
def strayField (sides : List Side) (word : String) : List String :=
  if sides.head? = some .onInstance then [] else [word]

/-- The name of a field of the class, where there is no class. -/
def strayStaticField (sides : List Side) (word : String) : List String :=
  if .onClass ∈ sides then [] else [word]

/-- The word that is put in the place of an invalid target. -/
def targetRecovered : Expr → List String
  | .variable _ | .field _ | .staticField _ => []
  | _ => ["<invalid>"]

/-- Where a member of a class is resolved, by the sides around it. -/
def MethodKind.sides (sides : List Side) : MethodKind → List Side
  | .onClass => sides
  | .construct | .onInstance => .onInstance :: sides

mutual

/-- The words in an expression that are made globals although they are no names
of variables: fields and `this` where there is no class, and what is put in the
place of an invalid target. -/
def Expr.recovered (sides : List Side) : Expr → List String
  | .assign target value _ =>
    (targetRecovered target ++ target.recovered sides) ++ value.recovered sides
  | .call receiver _ arguments code =>
    receiver.recovered sides ++ (argumentsRecovered sides arguments ++ codeRecovered sides code)
  | .literal _ _ | .variable _ => []
  | .field name => strayField sides name.text
  | .staticField name => strayStaticField sides name.text
  | .this _ => if sides = [] then ["this"] else []
  | .logical _ left right _ => left.recovered sides ++ right.recovered sides

/-- The words of this kind in expressions. -/
def exprRecovered (sides : List Side) : List Expr → List String
  | [] => []
  | e :: es => e.recovered sides ++ exprRecovered sides es

/-- The words of this kind in an expression that may be missing. -/
def maybeRecovered (sides : List Side) : Option Expr → List String
  | none => []
  | some e => e.recovered sides

/-- The words of this kind in the arguments of a call. -/
def argumentsRecovered (sides : List Side) : Option (List Expr) → List String
  | none => []
  | some es => exprRecovered sides es

/-- The words of this kind in the block of code of a call. -/
def codeRecovered (sides : List Side) : Option Code → List String
  | none => []
  | some ⟨_, body, _⟩ => stmtRecovered sides body

/-- The words of this kind in a statement. -/
def Stmt.recovered (sides : List Side) : Stmt → List String
  | .block body => stmtRecovered sides body
  | .branch condition yes no _ =>
    condition.recovered sides ++ (yes.recovered sides ++ elseRecovered sides no)
  | .loop condition body _ => condition.recovered sides ++ body.recovered sides
  | .var _ init => maybeRecovered sides init
  | .cls _ methods => methodRecovered (.onClass :: sides) methods
  | .ret value _ => maybeRecovered sides value
  | .eval e => e.recovered sides

/-- The words of this kind in the other branch of a conditional. -/
def elseRecovered (sides : List Side) : Option Stmt → List String
  | none => []
  | some s => s.recovered sides

/-- The words of this kind in statements. -/
def stmtRecovered (sides : List Side) : List Stmt → List String
  | [] => []
  | s :: ss => s.recovered sides ++ stmtRecovered sides ss

/-- The words of this kind in the members of a class. -/
def methodRecovered (sides : List Side) : List Method → List String
  | [] => []
  | ⟨kind, _, _, body⟩ :: ms =>
    stmtRecovered (kind.sides sides) body ++ methodRecovered sides ms

end

end Syntax

/-! ### Globals are kept -/

/-- A global that is known is the same afterwards, unless it is called like one
of the given words. -/
def Kept (words : List String) (g g' : List (Slot × String)) : Prop :=
  ∀ name s, latest? name g = some s → name ∉ words → latest? name g' = some s

/-- Globals that are kept by themselves. -/
lemma Kept.refl (words : List String) (g : List (Slot × String)) : Kept words g g :=
  fun _ _ h _ => h

/-- Where more words are given up, fewer globals have to be kept. -/
lemma Kept.mono {words more : List String} {g g' : List (Slot × String)} (h : Kept words g g')
    (sub : words ⊆ more) : Kept more g g' :=
  fun name s hs hn => h name s hs fun hm => hn (sub hm)

/-- Globals that are kept through two parts are kept through both. -/
lemma Kept.append {words words' : List String} {g g₁ g₂ : List (Slot × String)}
    (h : Kept words g g₁) (h' : Kept words' g₁ g₂) : Kept (words ++ words') g g₂ := by
  intro name s hs hn
  rw [List.mem_append, not_or] at hn
  exact h' name s (h name s hs hn.1) hn.2

/-- Another global is in the way of those called like it alone. -/
lemma kept_concat (g : List (Slot × String)) (s : Slot) (word : String) :
    Kept [word] g (g ++ [(s, word)]) := by
  intro name s' hs hn
  rw [latest?_concat, if_neg fun h => hn (List.mem_singleton.2 h.symm), hs]

/-- A variable is made a global only if it is none. -/
lemma Use.kept_variable {Γ : Surroundings} {g g' : List (Slot × String)} {name : String} {s : Slot}
    (h : Use g name (Γ.named? g name) s g') : Kept [] g g' := by
  generalize ho : Γ.named? g name = o at h
  cases h with
  | known => exact .refl [] g
  | hole s =>
    intro t s' hs _
    rw [Surroundings.named?, Option.or_eq_none_iff] at ho
    have other : name ≠ t := by
      rintro rfl
      rw [ho.2] at hs
      cases hs
    rw [latest?_concat, if_neg other, hs]

/-- A field of an instance becomes a global only where there is no instance around. -/
lemma FieldUse.kept_instance {Γ : Surroundings} {g g' : List (Slot × String)} {name : String}
    {s : Slot} (h : FieldUse g name Γ.instanceSide? s g') :
    Kept (Syntax.strayField (Γ.sides.map FieldScope.side) name) g g' := by
  generalize hf : Γ.instanceSide? = f at h
  cases h with
  | known => exact .refl _ g
  | hole s =>
    have stray : (Γ.sides.map FieldScope.side).head? ≠ some .onInstance := by
      intro h
      obtain ⟨f, hhead, hside⟩ := Option.map_eq_some_iff.1 (List.head?_map ▸ h)
      rw [Surroundings.instanceSide?, hhead, Option.filter_some, if_pos (decide_eq_true hside)]
        at hf
      cases hf
    rw [Syntax.strayField, if_neg stray]
    exact kept_concat g s name

/-- A field of a class becomes a global only where there is no class around. -/
lemma FieldUse.kept_class {Γ : Surroundings} {g g' : List (Slot × String)} {name : String}
    {s : Slot} (h : FieldUse g name Γ.classSide? s g') :
    Kept (Syntax.strayStaticField (Γ.sides.map FieldScope.side) name) g g' := by
  generalize hf : Γ.classSide? = f at h
  cases h with
  | known => exact .refl _ g
  | hole s =>
    have stray : Side.onClass ∉ Γ.sides.map FieldScope.side := by
      intro h
      obtain ⟨f, hmem, hside⟩ := List.mem_map.1 h
      exact List.find?_eq_none.1 hf f hmem (decide_eq_true hside)
    rw [Syntax.strayStaticField, if_neg stray]
    exact kept_concat g s name

/-- A receiver becomes a global only where there is no class around. -/
lemma Use.kept_this {Γ : Surroundings} {g g' : List (Slot × String)} {s : Slot}
    (h : Use g "this" Γ.receiver? s g') :
    Kept (if Γ.sides.map FieldScope.side = [] then ["this"] else []) g g' := by
  generalize hr : Γ.receiver? = r at h
  cases h with
  | known => exact .refl _ g
  | hole s =>
    have none : Γ.sides.map FieldScope.side = [] := by
      rw [List.map_eq_nil_iff, ← List.head?_eq_none_iff]
      exact Option.map_eq_none_iff.1 hr
    rw [if_pos none]
    exact kept_concat g s "this"

/-- What cannot be assigned to is given up by one word. -/
lemma Syntax.targetRecovered_of_invalid :
    (e : Syntax.Expr) → ¬ e.IsTarget → Syntax.targetRecovered e = ["<invalid>"]
  | .variable _, h | .field _, h | .staticField _, h => absurd trivial h
  | .assign _ _ _, _ | .call _ _ _ _, _ | .literal _ _, _ | .this _, _ | .logical _ _ _ _, _ => rfl

/-- Another global takes the place of what is no target. -/
lemma Kept.invalid {words : List String} {g g₁ g₂ : List (Slot × String)} {e : Syntax.Expr}
    {s : Slot} (h : Kept words g g₁) (he : ¬ e.IsTarget) (hu : Use g₁ "<invalid>" none s g₂) :
    Kept (Syntax.targetRecovered e ++ words) g g₂ := by
  rw [Syntax.targetRecovered_of_invalid e he]
  cases hu with
  | hole s => exact (h.append (kept_concat g₁ s "<invalid>")).mono (by simp)

/-- The sides around a member are those of its class, as its kind says. -/
lemma Surroundings.sides_ofMember (Γ : Surroundings) {f : FieldScope} (h : f.side = .onInstance)
    (kind : Syntax.MethodKind) :
    (Γ.ofMember f kind).sides.map FieldScope.side = kind.sides (Γ.sides.map FieldScope.side) := by
  cases kind with
  | onClass => rfl
  | construct | onInstance => exact congrArg (· :: Γ.sides.map FieldScope.side) h

/-- A member that is added leaves the side of the instance as it is. -/
lemma Resolve.Members.instanceSide_add (m : Members) (kind : Syntax.MethodKind)
    (x : Program.Method) : (m.add kind x).instanceSide = m.instanceSide := by
  cases kind <;> rfl

mutual

/-- A global is the same after an expression, unless recovery declares it there. -/
theorem ExprScoped.kept {Γ : Surroundings} {g g' : List (Slot × String)} {e : Syntax.Expr}
    {e' : Program.Expr} :
    ExprScoped Γ g e e' g' → Kept (e.recovered (Γ.sides.map FieldScope.side)) g g'
  | .assign ht hv => ht.kept.append hv.kept
  | .call hr ha hc => hr.kept.append (ha.kept.append hc.kept)
  | .literal => .refl _ _
  | .variable h => h.kept_variable
  | .field h => h.kept_instance
  | .staticField h => h.kept_class
  | .this h => h.kept_this
  | .logical hl hr => hl.kept.append hr.kept

/-- What is assigned to keeps the globals that it does not give up. -/
lemma TargetScoped.kept {Γ : Surroundings} {g g' : List (Slot × String)} {e : Syntax.Expr}
    {s : Slot} : TargetScoped Γ g e s g' →
      Kept (Syntax.targetRecovered e ++ e.recovered (Γ.sides.map FieldScope.side)) g g'
  | .variable h => h.kept_variable
  | .field h => h.kept_instance
  | .staticField h => h.kept_class
  | .invalid hn h hu => h.kept.invalid hn hu

/-- Expressions keep the globals that they do not give up. -/
lemma ExprsScoped.kept {Γ : Surroundings} {g g' : List (Slot × String)} {es : List Syntax.Expr}
    {es' : List Program.Expr} : ExprsScoped Γ g es es' g' →
      Kept (Syntax.exprRecovered (Γ.sides.map FieldScope.side) es) g g'
  | .nil => .refl _ _
  | .cons h h' => h.kept.append h'.kept

/-- An expression that may be missing keeps the globals that it does not give up. -/
lemma MaybeScoped.kept {Γ : Surroundings} {g g' : List (Slot × String)} {e : Option Syntax.Expr}
    {e' : Option Program.Expr} : MaybeScoped Γ g e e' g' →
      Kept (Syntax.maybeRecovered (Γ.sides.map FieldScope.side) e) g g'
  | .none => .refl _ _
  | .some h => h.kept

/-- Arguments in parentheses keep the globals that they do not give up. -/
lemma ArgumentsScoped.kept {Γ : Surroundings} {g g' : List (Slot × String)}
    {es : Option (List Syntax.Expr)} {es' : Option (List Program.Expr)} :
    ArgumentsScoped Γ g es es' g' →
      Kept (Syntax.argumentsRecovered (Γ.sides.map FieldScope.side) es) g g'
  | .none => .refl _ _
  | .some h => h.kept

/-- A global is the same after the block of code of a call, unless recovery
declares it there. -/
theorem CodeScoped.kept {Γ : Surroundings} {g g' : List (Slot × String)} {code : Option Syntax.Code}
    {es es' : Option (List Program.Expr)} :
    CodeScoped Γ g es code es' g' →
      Kept (Syntax.codeRecovered (Γ.sides.map FieldScope.side) code) g g'
  | .none => .refl _ _
  | .some h => h.kept

/-- A method keeps the globals that its body does not give up. -/
lemma MethodScoped.kept {Γ : Surroundings} {g g' : List (Slot × String)} {name : String}
    {params : Option (List Name)} {line : Line} {body : List Syntax.Stmt} {m : Program.Method} :
    MethodScoped Γ g name params line body m g' →
      Kept (Syntax.stmtRecovered (Γ.sides.map FieldScope.side) body) g g'
  | .intro _ h => h.kept

/-- A global is the same after a block, unless recovery declares it there. -/
theorem BlockScoped.kept {Γ : Surroundings} {g g' : List (Slot × String)} {body : List Syntax.Stmt}
    {b : Program.Block} : BlockScoped Γ g body b g' →
      Kept (Syntax.stmtRecovered (Γ.sides.map FieldScope.side) body) g g'
  | .intro _ h => h.kept

/-- The statements of a block keep the globals that they do not give up. -/
lemma StmtsScoped.kept {Γ : Surroundings} {hoisted : List (Slot × String)} {p p' : Progress}
    {ss : List Syntax.Stmt} {ss' : List Program.Stmt} : StmtsScoped Γ hoisted p ss ss' p' →
      Kept (Syntax.stmtRecovered (Γ.sides.map FieldScope.side) ss) p.globals p'.globals
  | .nil => .refl _ _
  | .cons h h' => h.kept.append h'.kept

/-- A step through a block keeps the globals that it does not give up. -/
lemma StepScoped.kept {Γ : Surroundings} {hoisted : List (Slot × String)} {p p' : Progress}
    {s : Syntax.Stmt} {o : Option Program.Stmt} : StepScoped Γ hoisted p s o p' →
      Kept (s.recovered (Γ.sides.map FieldScope.side)) p.globals p'.globals
  | .var h => h.kept
  | .cls _ h => h.kept
  | .other h => h.kept

/-- A statement keeps the globals that it does not give up. -/
lemma StmtScoped.kept {Γ : Surroundings} {g g' : List (Slot × String)} {s : Syntax.Stmt}
    {s' : Program.Stmt} : StmtScoped Γ g s s' g' →
      Kept (s.recovered (Γ.sides.map FieldScope.side)) g g'
  | .block h => h.kept
  | .branch hc hy hn => hc.kept.append (hy.kept.append hn.kept)
  | .loop hc hb => hc.kept.append hb.kept
  | .ret h => h.kept
  | .eval h => h.kept

/-- A branch keeps the globals that it does not give up. -/
lemma BranchScoped.kept {Γ : Surroundings} {g g' : List (Slot × String)} {s : Syntax.Stmt}
    {s' : Program.Stmt} : BranchScoped Γ g s s' g' →
      Kept (s.recovered (Γ.sides.map FieldScope.side)) g g'
  | .block _ h => h.kept.mono (by simp [Syntax.stmtRecovered])
  | .quiet _ h => h.kept

/-- A branch that may be missing keeps the globals that it does not give up. -/
lemma ElseScoped.kept {Γ : Surroundings} {g g' : List (Slot × String)} {s : Option Syntax.Stmt}
    {s' : Option Program.Stmt} : ElseScoped Γ g s s' g' →
      Kept (Syntax.elseRecovered (Γ.sides.map FieldScope.side) s) g g'
  | .none => .refl _ _
  | .some h => h.kept

/-- A global is the same after a class, unless recovery declares it there. -/
theorem ClassScoped.kept {Γ : Surroundings} {g g' : List (Slot × String)} {name : Name}
    {methods : List Syntax.Method} {c : Program.ClassDecl} : ClassScoped Γ g name methods c g' →
      Kept (Syntax.methodRecovered (.onClass :: Γ.sides.map FieldScope.side) methods) g g'
  | .intro h => h.kept rfl

/-- The members of a class keep the globals that they do not give up. -/
lemma MethodsScoped.kept {Γ : Surroundings} {g g' : List (Slot × String)} {m m' : Members}
    {methods : List Syntax.Method} : MethodsScoped Γ m g methods m' g' →
      m.instanceSide.side = .onInstance →
      Kept (Syntax.methodRecovered (Γ.sides.map FieldScope.side) methods) g g'
  | .nil, _ => .refl _ _
  | .cons h h', hm =>
    (Surroundings.sides_ofMember _ hm _ ▸ h.kept).append (h'.kept (by rwa [m.instanceSide_add]))

end

end Ember
