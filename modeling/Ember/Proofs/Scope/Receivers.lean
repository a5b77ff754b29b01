/-
What resolved code does with the slots of receivers.

* `Expr.Minds`, `Stmt.Minds`, `Block.Minds`, `ClassDecl.Minds`: code that gives no
  value to the slot of a receiver, and that reads the slot of no receiver but its
  own. A block of code within a method has the receiver of the method;
* `Heeds`: a part of a program that follows the scoping rules minds receivers, if
  no other slot around it or in it is one;
* `ExprScoped.heeds`, `BlockScoped.heeds`, `ClassScoped.heeds`: every part does;
* `resolve_minds`: a whole program, whatever mistakes it has.
-/
import Mathlib
import Ember.Proofs.Scope.Naming

namespace Ember

open Program

/-! ### Code that minds receivers -/

namespace Program

section Minds

variable (R : Slot → Prop)

mutual

/-- An expression assigns to no receiver, and reads none but its own. -/
def Expr.Minds (own : Option Slot) : Expr → Prop
  | .assign target value _ => ¬R target ∧ value.Minds own
  | .call receiver _ arguments _ =>
    receiver.Minds own ∧ (match arguments with | none => True | some es => exprMinds own es)
  | .literal _ _ => True
  | .read slot _ => R slot → own = some slot
  | .logical _ left right _ => left.Minds own ∧ right.Minds own
  | .cls decl => decl.Minds own own

/-- Expressions that mind receivers. -/
def exprMinds (own : Option Slot) : List Expr → Prop
  | [] => True
  | e :: es => e.Minds own ∧ exprMinds own es

/-- A statement that minds receivers; the variable that it declares is none. -/
def Stmt.Minds (own : Option Slot) : Stmt → Prop
  | .block body => body.Minds own
  | .branch condition yes no _ =>
    condition.Minds own ∧ yes.Minds own ∧ (match no with | none => True | some s => s.Minds own)
  | .loop condition body _ => condition.Minds own ∧ body.Minds own
  | .var slot init _ => ¬R slot ∧ (match init with | none => True | some e => e.Minds own)
  | .ret value _ => match value with | none => True | some e => e.Minds own
  | .eval e => e.Minds own

/-- Statements that mind receivers. -/
def stmtMinds (own : Option Slot) : List Stmt → Prop
  | [] => True
  | s :: ss => s.Minds own ∧ stmtMinds own ss

/-- A block whose classes and statements mind receivers. -/
def Block.Minds (own : Option Slot) : Block → Prop
  | ⟨statements, _, classes⟩ => classMinds classes ∧ stmtMinds own statements

/-- Declared classes, whose methods have receivers of their own. -/
def classMinds : List (Slot × ClassDecl) → Prop
  | [] => True
  | (s, c) :: cs =>
    ¬R s ∧ c.Minds (some c.receiver) (some c.staticReceiver) ∧ classMinds cs

/-- A class whose methods mind receivers: those of instances, constructors among
them, have one, and static methods another. -/
def ClassDecl.Minds (own ownStatic : Option Slot) : ClassDecl → Prop
  | ⟨_, _, _, _, constructors, staticMethods, methods, _, _⟩ =>
    methodMinds own constructors ∧ methodMinds ownStatic staticMethods ∧ methodMinds own methods

/-- Methods whose bodies mind receivers, and whose parameters are none. -/
def methodMinds (own : Option Slot) : List Method → Prop
  | [] => True
  | ⟨_, params, _, body, _⟩ :: ms =>
    ((∀ p ∈ params.getD [], ¬R p) ∧ body.Minds own) ∧ methodMinds own ms

end

/-- A method whose body minds receivers, and whose parameters are none. -/
def Method.Minds (own : Option Slot) (m : Method) : Prop :=
  (∀ p ∈ m.params.getD [], ¬R p) ∧ m.body.Minds R own

end Minds

variable {R : Slot → Prop} {own ownStatic : Option Slot}

/-- Methods mind receivers if each one does. -/
lemma methodMinds_iff {ms : List Method} : methodMinds R own ms ↔ ∀ m ∈ ms, m.Minds R own := by
  induction ms with
  | nil => simp only [methodMinds, List.not_mem_nil, false_imp_iff, implies_true]
  | cons m ms ih =>
    cases m
    simp only [methodMinds, ih, List.forall_mem_cons, Method.Minds]

/-- Classes mind receivers if each one does, with receivers of its own. -/
lemma classMinds_iff {cs : List (Slot × ClassDecl)} :
    classMinds R cs ↔
      ∀ c ∈ cs, ¬R c.1 ∧ c.2.Minds R (some c.2.receiver) (some c.2.staticReceiver) := by
  induction cs with
  | nil => simp only [classMinds, List.not_mem_nil, false_imp_iff, implies_true]
  | cons c cs ih => simp only [classMinds, ih, List.forall_mem_cons, and_assoc]

/-- Expressions mind receivers if both parts of them do. -/
lemma exprMinds_append {es fs : List Expr} :
    exprMinds R own (es ++ fs) ↔ exprMinds R own es ∧ exprMinds R own fs := by
  induction es with
  | nil => simp only [List.nil_append, exprMinds, true_and]
  | cons e es ih => simp only [List.cons_append, exprMinds, ih, and_assoc]

/-- Statements mind receivers if both parts of them do. -/
lemma stmtMinds_append {ss ts : List Stmt} :
    stmtMinds R own (ss ++ ts) ↔ stmtMinds R own ss ∧ stmtMinds R own ts := by
  induction ss with
  | nil => simp only [List.nil_append, stmtMinds, true_and]
  | cons s ss ih => simp only [List.cons_append, stmtMinds, ih, and_assoc]

/-- A method of a class that minds receivers minds them. -/
lemma ClassDecl.Minds.method {c : ClassDecl} (minds : c.Minds R own ownStatic) {m : Method} :
    (m ∈ c.constructors ∨ m ∈ c.methods → m.Minds R own) ∧
      (m ∈ c.staticMethods → m.Minds R ownStatic) := by
  cases c
  obtain ⟨hc, hs, hm⟩ := minds
  rw [methodMinds_iff] at hc hs hm
  exact ⟨fun h => h.elim (hc m) (hm m), hs m⟩

end Program

/-! ### Listed slots and receivers -/

/-- How often a slot is listed. -/
def timesListed (names : List (Slot × String)) (r : Slot) : Nat := (names.map Prod.fst).count r

/-- How often a slot is declared as that of a receiver. -/
def timesReceiver (roles : List (Slot × SlotRole)) (r : Slot) : Nat := roles.count (r, .receiver)

section Counting

variable {R : Slot → Prop} {r : Slot}

@[simp]
lemma timesListed_nil : timesListed [] r = 0 := rfl

@[simp]
lemma timesReceiver_nil : timesReceiver [] r = 0 := rfl

@[simp]
lemma timesListed_append (names names' : List (Slot × String)) :
    timesListed (names ++ names') r = timesListed names r + timesListed names' r := by
  rw [timesListed, List.map_append, List.count_append, timesListed, timesListed]

@[simp]
lemma timesReceiver_append (roles roles' : List (Slot × SlotRole)) :
    timesReceiver (roles ++ roles') r = timesReceiver roles r + timesReceiver roles' r :=
  List.count_append

/-- Slots of another role are no receivers. -/
@[simp]
lemma timesReceiver_map {α : Type} (xs : List α) (f : α → Slot) {role : SlotRole}
    (other : role ≠ .receiver) : timesReceiver (xs.map fun x => (f x, role)) r = 0 := by
  refine List.count_eq_zero.2 fun h => ?_
  obtain ⟨x, -, hx⟩ := List.mem_map.1 h
  exact other (congrArg Prod.snd hx)

/-- None of what is declared is the slot of a receiver. -/
def Spared (R : Slot → Prop) (ds : List (Slot × String)) : Prop := ∀ d ∈ ds, ¬R d.1

/-- Where fewer slots are declared, fewer are receivers. -/
lemma Spared.mono {ds es : List (Slot × String)} (h : Spared R es) (sub : ds ⊆ es) : Spared R ds :=
  fun d hd => h d (sub hd)

/-- Slots that are listed for no receiver are none. -/
lemma spared_of_timesListed {names : List (Slot × String)}
    (none : ∀ r, R r → timesListed names r = 0) : Spared R names :=
  fun d hd hr => List.count_eq_zero.1 (none d.1 hr) (List.mem_map_of_mem hd)

/-- Statements declare what both parts of them do. -/
lemma stmtRoles_append (ss ts : List Stmt) :
    stmtRoles (ss ++ ts) = stmtRoles ss ++ stmtRoles ts := by
  induction ss with
  | nil => rfl
  | cons s ss ih => rw [List.cons_append, stmtRoles, stmtRoles, ih, List.append_assoc]

/-- Expressions declare what both parts of them do. -/
lemma exprRoles_append (es fs : List Expr) :
    exprRoles (es ++ fs) = exprRoles es ++ exprRoles fs := by
  induction es with
  | nil => rfl
  | cons e es ih => rw [List.cons_append, exprRoles, exprRoles, ih, List.append_assoc]

/-- A slot is listed for classes as often as for each of them together. -/
lemma timesListed_classNames (cs : List (Slot × ClassDecl)) :
    timesListed (Program.classNames cs) r = (cs.map fun c => timesListed c.2.names r).sum := by
  induction cs with
  | nil => rfl
  | cons c cs ih =>
    rw [Program.classNames, timesListed_append, ih, List.map_cons, List.sum_cons]

/-- A receiver is declared by classes as often as by each of them together. -/
lemma timesReceiver_classRoles (cs : List (Slot × ClassDecl)) :
    timesReceiver (classRoles cs) r = (cs.map fun c => timesReceiver c.2.roles r).sum := by
  induction cs with
  | nil => rfl
  | cons c cs ih => rw [classRoles, timesReceiver_append, ih, List.map_cons, List.sum_cons]

/-- A slot is listed for methods as often as for each of them together. -/
lemma timesListed_methodNames (ms : List Method) :
    timesListed (Program.methodNames ms) r =
      (ms.map fun m => timesListed (Program.methodNames [m]) r).sum := by
  induction ms with
  | nil => rfl
  | cons m ms ih =>
    rw [List.map_cons, List.sum_cons, ← ih]
    cases m
    simp [Program.methodNames, Nat.add_assoc]

/-- A receiver is declared by methods as often as by each of them together. -/
lemma timesReceiver_methodRoles (ms : List Method) :
    timesReceiver (methodRoles ms) r =
      (ms.map fun m => timesReceiver (methodRoles [m]) r).sum := by
  induction ms with
  | nil => rfl
  | cons m ms ih =>
    rw [List.map_cons, List.sum_cons, ← ih]
    cases m
    simp [methodRoles]

/-- A sum that is bounded by a sum of smaller parts is so part by part. -/
lemma le_of_sum_le {α : Type} {f g : α → Nat} {xs : List α} (le : ∀ x ∈ xs, f x ≤ g x)
    (sum : (xs.map g).sum ≤ (xs.map f).sum) : ∀ x ∈ xs, g x ≤ f x := by
  induction xs with
  | nil => exact List.forall_mem_nil _
  | cons x xs ih =>
    rw [List.forall_mem_cons] at le ⊢
    have rest := List.sum_le_sum le.2
    rw [List.map_cons, List.map_cons, List.sum_cons, List.sum_cons] at sum
    have head := le.1
    exact ⟨by omega, ih le.2 (by omega)⟩

end Counting

/-! ### What follows the rules -/

/-- No slot of what is declared around is that of a receiver. -/
structure Surroundings.Spares (Γ : Surroundings) (R : Slot → Prop) : Prop where
  scopes : ∀ ds ∈ Γ.scopes, Spared R ds
  fields : ∀ f ∈ Γ.sides, Spared R f.fields

/-- A part of a program lists every receiver that it declares, and `P` holds if no
other slot that is declared around it or in it is that of a receiver. -/
structure Heeds (R : Slot → Prop) (Γ : Surroundings) (g g' names : List (Slot × String))
    (roles : List (Slot × SlotRole)) (P : Prop) : Prop where
  grows : g ⊆ g'
  fewer : ∀ r, timesReceiver roles r ≤ timesListed names r
  heeds : Γ.Spares R → Spared R g' →
    (∀ r, R r → timesListed names r ≤ timesReceiver roles r) → P

section Heeds

variable {R : Slot → Prop} {Γ : Surroundings} {g g' g₁ g₂ g₃ names names' : List (Slot × String)}
  {roles roles' : List (Slot × SlotRole)} {P Q S : Prop}

namespace Surroundings.Spares

/-- A scope without receivers changes nothing. -/
lemma within (h : Γ.Spares R) {ds : List (Slot × String)} (hds : Spared R ds) :
    (Γ.within ds).Spares R :=
  ⟨List.forall_mem_cons.2 ⟨hds, h.scopes⟩, h.fields⟩

/-- A side whose fields are no receivers changes nothing. -/
lemma inside (h : Γ.Spares R) {f : FieldScope} (fields : Spared R f.fields) :
    (Γ.inside f).Spares R :=
  ⟨h.scopes, List.forall_mem_cons.2 ⟨fields, h.fields⟩⟩

/-- What the name of a variable stands for is no receiver. -/
lemma named (h : Γ.Spares R) (globals : Spared R g') {name : String} {s : Slot}
    (use : Use g name (Γ.named? g name) s g') : ¬R s := by
  refine use.named (N := fun s _ => ¬R s) (fun s hs => ?_) globals
  rw [named?, Option.or_eq_some_iff] at hs
  rcases hs with hs | ⟨_, hs⟩
  · obtain ⟨ds, hds, found⟩ := List.exists_of_findSome?_eq_some hs
    exact h.scopes ds hds _ (mem_of_latest? found)
  · exact globals.mono use.subset _ (mem_of_latest? hs)

/-- What the name of a field stands for is no receiver. -/
lemma field (h : Γ.Spares R) (globals : Spared R g') {name : String} {s : Slot}
    {side : Option FieldScope} (here : ∀ f, side = some f → f ∈ Γ.sides)
    (use : FieldUse g name side s g') : ¬R s :=
  use.named (N := fun s _ => ¬R s) (fun f hf => h.fields f (here f hf)) globals

end Surroundings.Spares

/-- A slot in the place of something that is given up is no receiver. -/
lemma Use.spared {word : String} {s : Slot} (use : Use g word none s g')
    (globals : Spared R g') : ¬R s :=
  use.named (N := fun s _ => ¬R s) (fun _ hs => nomatch hs) globals

/-- A receiver that is read is that of the innermost side. -/
lemma Use.own {word : String} {s : Slot} (use : Use g word Γ.receiver? s g')
    (globals : Spared R g') (hr : R s) : Γ.receiver? = some s := by
  cases h : Γ.receiver? with
  | none => exact absurd hr (Use.spared (h ▸ use) globals)
  | some r =>
    rw [h] at use
    cases use
    rfl

/-- The side of an instance is one of the sides around. -/
lemma Surroundings.mem_of_instanceSide? {f : FieldScope} (h : Γ.instanceSide? = some f) :
    f ∈ Γ.sides := List.mem_of_mem_head? (Option.eq_some_of_filter_eq_some h)

/-- The side of a class is one of the sides around. -/
lemma Surroundings.mem_of_classSide? {f : FieldScope} (h : Γ.classSide? = some f) :
    f ∈ Γ.sides := List.mem_of_find?_eq_some h

namespace Heeds

/-- What follows from minding receivers. -/
lemma imp (h : Heeds R Γ g g' names roles P) (hPQ : P → Q) : Heeds R Γ g g' names roles Q :=
  ⟨h.grows, h.fewer, fun around globals same => hPQ (h.heeds around globals same)⟩

/-- A step that declares no slot. -/
lemma use (sub : g ⊆ g') (h : Γ.Spares R → Spared R g' → P) :
    Heeds R Γ g g' [] [] P :=
  ⟨sub, fun _ => le_refl _, fun around globals _ => h around globals⟩

/-- Two parts of a program, one after the other. -/
lemma andThen (h : Heeds R Γ g g₁ names roles P) (h' : Heeds R Γ g₁ g₂ names' roles' Q)
    (hR : P → Q → S) : Heeds R Γ g g₂ (names ++ names') (roles ++ roles') S := by
  refine ⟨List.Subset.trans h.grows h'.grows, fun r => ?_, fun around globals same => ?_⟩
  · rw [timesListed_append, timesReceiver_append]
    exact Nat.add_le_add (h.fewer r) (h'.fewer r)
  · simp only [timesListed_append, timesReceiver_append] at same
    refine hR (h.heeds around (globals.mono h'.grows) fun r hr => ?_)
      (h'.heeds around globals fun r hr => ?_)
    · have := same r hr
      have := h'.fewer r
      omega
    · have := same r hr
      have := h.fewer r
      omega

/-- A part of a program in a scope whose slots have other roles. -/
lemma within {ds : List (Slot × String)} {extra : List (Slot × SlotRole)}
    (other : ∀ r, timesReceiver extra r = 0) (h : Heeds R (Γ.within ds) g g' names roles P) :
    Heeds R Γ g g' (ds ++ names) (extra ++ roles) (Spared R ds ∧ P) := by
  refine ⟨h.grows, fun r => ?_, fun around globals same => ?_⟩
  · rw [timesListed_append, timesReceiver_append, other, Nat.zero_add]
    exact Nat.le_add_left_of_le (h.fewer r)
  · simp only [timesListed_append, timesReceiver_append, other, Nat.zero_add] at same
    have own : Spared R ds := by
      refine spared_of_timesListed fun r hr => ?_
      have := same r hr
      have := h.fewer r
      omega
    exact ⟨own, h.heeds (around.within own) globals fun r hr => by have := same r hr; omega⟩

end Heeds

open Resolve

/-! ### Blocks -/

/-- What the statements of a block leave minds receivers, classes that lose their
place aside. -/
structure Mindful (R : Slot → Prop) (Γ : Surroundings) (hoisted : List (Slot × String))
    (p : Progress) (ss : List Program.Stmt) (p' : Progress) : Prop where
  globals : p.globals ⊆ p'.globals
  names : p.names ⊆ p'.names
  fewer : ∀ r, timesReceiver (stmtRoles ss) r ≤ timesListed (Program.stmtNames ss) r
  statements : Γ.Spares R → Spared R p'.globals →
    Spared R p'.names →
    (∀ r, R r → timesListed (Program.stmtNames ss) r ≤ timesReceiver (stmtRoles ss) r) →
      stmtMinds R Γ.receiver? ss
  classes : ∀ c ∈ p'.classes, c ∈ p.classes ∨
    (∀ r, timesReceiver c.2.roles r ≤ timesListed c.2.names r) ∧
      (Γ.Spares R → Spared R p'.globals → Spared R p'.names →
        Spared R hoisted →
        (∀ r, R r → timesListed c.2.names r ≤ timesReceiver c.2.roles r) →
          ¬R c.1 ∧ c.2.Minds R (some c.2.receiver) (some c.2.staticReceiver))

namespace Mindful

variable {hoisted : List (Slot × String)} {p p' p'' : Progress}

/-- No statements leave everything as it is. -/
lemma nil : Mindful R Γ hoisted p [] p :=
  ⟨List.Subset.refl _, List.Subset.refl _, fun _ => le_refl _, fun _ _ _ _ => trivial,
    fun _ hc => .inl hc⟩

/-- Statements mind receivers one after the other. -/
lemma append {ss ss' : List Program.Stmt} (h : Mindful R Γ hoisted p ss p')
    (h' : Mindful R Γ hoisted p' ss' p'') : Mindful R Γ hoisted p (ss ++ ss') p'' where
  globals := List.Subset.trans h.globals h'.globals
  names := List.Subset.trans h.names h'.names
  fewer r := by
    rw [stmtNames_append, stmtRoles_append, timesListed_append, timesReceiver_append]
    exact Nat.add_le_add (h.fewer r) (h'.fewer r)
  statements around globals names same := by
    simp only [stmtNames_append, stmtRoles_append, timesListed_append, timesReceiver_append] at same
    refine stmtMinds_append.2 ⟨h.statements around (globals.mono h'.globals)
      (names.mono h'.names) fun r hr => ?_, h'.statements around globals names fun r hr => ?_⟩
    · have := same r hr
      have := h'.fewer r
      omega
    · have := same r hr
      have := h.fewer r
      omega
  classes c hc := by
    rcases h'.classes c hc with hc | later
    · rcases h.classes c hc with hc | ⟨fewer, earlier⟩
      · exact .inl hc
      · exact .inr ⟨fewer, fun around globals names =>
          earlier around (globals.mono h'.globals) (names.mono h'.names)⟩
    · exact .inr later

/-- A statement that declares nothing in the scope around it. -/
lemma other {s : Program.Stmt} (h : Heeds R (Γ.within p.names) p.globals g' s.names s.roles
    (s.Minds R Γ.receiver?)) : Mindful R Γ hoisted p [s] ⟨p.names, p.classes, g'⟩ where
  globals := h.grows
  names := List.Subset.refl _
  fewer r := by simpa [stmtRoles, Program.stmtNames] using h.fewer r
  statements around globals names same := by
    refine ⟨h.heeds (around.within names) globals fun r hr => ?_, trivial⟩
    simpa [stmtRoles, Program.stmtNames] using same r hr
  classes _ hc := .inl hc

/-- A variable minds receivers if its initializer does, and is none itself. -/
lemma var {s : Slot} {name : Name} {init : Option Program.Expr}
    (h : Heeds R (Γ.within (p.names ++ [(s, name.text)])) p.globals g'
      (Program.exprNames init.toList) (exprRoles init.toList)
      (exprMinds R Γ.receiver? init.toList)) :
    Mindful R Γ hoisted p [.var s init name.line]
      ⟨p.names ++ [(s, name.text)], p.classes, g'⟩ := by
  have listed : Program.stmtNames [.var s init name.line] = Program.exprNames init.toList := by
    cases init <;> simp [Program.stmtNames, Program.Stmt.names, Program.exprNames]
  have received (r : Slot) : timesReceiver (stmtRoles [.var s init name.line]) r =
      timesReceiver (exprRoles init.toList) r := by
    cases init <;> simp [stmtRoles, Stmt.roles, exprRoles, timesReceiver]
  refine ⟨h.grows, List.subset_append_left _ _, fun r => ?_, fun around globals names same => ?_,
    fun _ hc => .inl hc⟩
  · rw [listed, received]
    exact h.fewer r
  · have inner := h.heeds (around.within names) globals fun r hr => by
      have := same r hr
      rwa [listed, received] at this
    have free := names (s, name.text) (List.mem_append_right _ (List.mem_singleton_self _))
    cases init with
    | none => exact ⟨⟨free, trivial⟩, trivial⟩
    | some e => exact ⟨⟨free, inner.1⟩, trivial⟩

/-- A class is filed under the latest slot of its name. -/
lemma cls {name : String} {s : Slot} {c : Program.ClassDecl} (hs : latest? name hoisted = some s)
    (h : Heeds R (Γ.within p.names) p.globals g' c.names c.roles
      (c.Minds R (some c.receiver) (some c.staticReceiver))) :
    Mindful R Γ hoisted p [] ⟨p.names, insertByKey Prod.fst (s, c) p.classes, g'⟩ where
  globals := h.grows
  names := List.Subset.refl _
  fewer _ := le_refl _
  statements _ _ _ _ := trivial
  classes d hd := by
    rcases mem_insertByKey hd with rfl | hd
    · exact .inr ⟨h.fewer, fun around globals names hoists same =>
        ⟨hoists _ (mem_of_latest? hs), h.heeds (around.within names) globals same⟩⟩
    · exact .inl hd

/-- A block is what its statements leave. -/
lemma block {classes : List (Slot × Program.ClassDecl)} {ss : List Program.Stmt}
    (h : Mindful R Γ hoisted ⟨hoisted, [], g⟩ ss ⟨names, classes, g'⟩) :
    Heeds R Γ g g' (Program.Block.allNames ⟨ss, names, classes⟩)
      (Block.roles ⟨ss, names, classes⟩) (Block.Minds R Γ.receiver? ⟨ss, names, classes⟩) := by
  have filed (c) (hc : c ∈ classes) := (h.classes c hc).resolve_left List.not_mem_nil
  have fewer (r : Slot) : timesReceiver (classRoles classes) r ≤
      timesListed (Program.classNames classes) r := by
    rw [timesListed_classNames, timesReceiver_classRoles]
    exact List.sum_le_sum fun c hc => (filed c hc).1 r
  have own (r : Slot) : timesReceiver (classes.map fun c => (c.1, SlotRole.cls)) r = 0 :=
    timesReceiver_map classes Prod.fst (by decide)
  refine ⟨h.globals, fun r => ?_, fun around globals same => ?_⟩
  · have := fewer r
    have := h.fewer r
    simp only [Program.Block.allNames, Block.roles, timesListed_append, timesReceiver_append, own]
    omega
  · simp only [Program.Block.allNames, Block.roles, timesListed_append, timesReceiver_append,
      own] at same
    have free : Spared R names := by
      refine spared_of_timesListed fun r hr => ?_
      have := same r hr
      have := fewer r
      have := h.fewer r
      omega
    refine ⟨classMinds_iff.2 fun c hc => ?_, h.statements around globals free fun r hr => ?_⟩
    · refine (filed c hc).2 around globals free (free.mono h.names) fun r hr => ?_
      refine le_of_sum_le (fun c hc => (filed c hc).1 r) ?_ c hc
      rw [← timesListed_classNames, ← timesReceiver_classRoles]
      have := same r hr
      have := h.fewer r
      omega
    · have := same r hr
      have := fewer r
      omega

end Mindful

/-! ### Classes -/

/-- The receiver of a method, by its kind, in a class with the given receivers. -/
def receiverOf (receiver staticReceiver : Option Slot) : Syntax.MethodKind → Option Slot
  | .onClass => staticReceiver
  | .construct | .onInstance => receiver

/-- The members of a class that keep their places mind receivers. -/
structure MindfulMembers (R : Slot → Prop) (Γ : Surroundings) (m : Members)
    (g : List (Slot × String)) (m' : Members) (g' : List (Slot × String)) : Prop where
  grows : g ⊆ g'
  side : m'.instanceSide = m.instanceSide
  members : ∀ kind, ∀ x ∈ m'.table kind, x ∈ m.table kind ∨
    (∀ r, timesReceiver (methodRoles [x]) r ≤ timesListed (Program.methodNames [x]) r) ∧
      (Γ.Spares R → Spared R m.instanceSide.fields →
        Spared R g' →
        (∀ r, R r → timesListed (Program.methodNames [x]) r ≤ timesReceiver (methodRoles [x]) r) →
          x.Minds R (receiverOf (some m.instanceSide.receiver) Γ.receiver? kind))

namespace MindfulMembers

variable {m m' : Members}

/-- No members leave everything as it is. -/
lemma nil : MindfulMembers R Γ m g m g :=
  ⟨List.Subset.refl _, rfl, fun _ _ hx => .inl hx⟩

/-- Members mind receivers one after the other, where they keep their places. -/
lemma cons {kind : Syntax.MethodKind} {x : Program.Method}
    (h : Heeds R (Γ.ofMember m.instanceSide kind) g g₁ (Program.methodNames [x]) (methodRoles [x])
      (x.Minds R (Γ.ofMember m.instanceSide kind).receiver?))
    (h' : MindfulMembers R Γ (m.add kind x) g₁ m' g') : MindfulMembers R Γ m g m' g' := by
  have side := m.instanceSide_add kind x
  refine ⟨List.Subset.trans h.grows h'.grows, h'.side.trans side, fun k y hy => ?_⟩
  rcases h'.members k y hy with hy | ⟨fewer, later⟩
  · rcases Members.mem_table_add hy with ⟨rfl, rfl⟩ | hy
    · refine .inr ⟨h.fewer, fun around fields globals same => ?_⟩
      have spares : (Γ.ofMember m.instanceSide k).Spares R := by
        cases k with
        | onClass => exact around
        | construct | onInstance => exact around.inside fields
      have own : (Γ.ofMember m.instanceSide k).receiver? =
          receiverOf (some m.instanceSide.receiver) Γ.receiver? k := by
        cases k <;> rfl
      exact own ▸ h.heeds spares (globals.mono h'.grows) same
    · exact .inl hy
  · refine .inr ⟨fewer, fun around fields globals same => ?_⟩
    have minds := later around (side ▸ fields) globals same
    rwa [side] at minds

/-- A class is what its members leave. -/
lemma cls {name : String} {line : Line} {receiver staticReceiver : Slot}
    {constructors staticMethods methods : List Program.Method}
    {fields staticFields : List (Slot × String)}
    (h : MindfulMembers R (Γ.inside ⟨.onClass, staticReceiver, staticFields⟩)
      ⟨[], [], [], ⟨.onInstance, receiver, fields⟩⟩ g
      ⟨constructors, staticMethods, methods, ⟨.onInstance, receiver, fields⟩⟩ g') :
    Heeds R Γ g g'
      (Program.ClassDecl.names ⟨name, line, receiver, staticReceiver, constructors, staticMethods,
        methods, fields, staticFields⟩)
      (ClassDecl.roles ⟨name, line, receiver, staticReceiver, constructors, staticMethods, methods,
        fields, staticFields⟩)
      (ClassDecl.Minds R (some receiver) (some staticReceiver) ⟨name, line, receiver,
        staticReceiver, constructors, staticMethods, methods, fields, staticFields⟩) := by
  -- the members of the class are those of the roster, with no more receivers than names
  have filed (kind : Syntax.MethodKind) (x : Program.Method)
      (hx : x ∈ Members.table ⟨constructors, staticMethods, methods,
        ⟨.onInstance, receiver, fields⟩⟩ kind) :=
    (h.members kind x hx).resolve_left (by cases kind <;> exact List.not_mem_nil)
  have fewer (kind : Syntax.MethodKind) (r : Slot) :
      timesReceiver (methodRoles (Members.table ⟨constructors, staticMethods, methods,
        ⟨.onInstance, receiver, fields⟩⟩ kind)) r ≤
      timesListed (Program.methodNames (Members.table ⟨constructors, staticMethods, methods,
        ⟨.onInstance, receiver, fields⟩⟩ kind)) r := by
    rw [timesListed_methodNames, timesReceiver_methodRoles]
    exact List.sum_le_sum fun x hx => (filed kind x hx).1 r
  have own (r : Slot) : timesListed [(receiver, "this"), (staticReceiver, "this")] r =
      timesReceiver [(receiver, .receiver), (staticReceiver, .receiver)] r := by
    simp [timesListed, timesReceiver, List.count_cons, Prod.ext_iff]
  have plain (fs : List (Slot × String)) (r : Slot) :
      timesReceiver (fs.map fun f => (f.1, SlotRole.field)) r = 0 :=
    timesReceiver_map fs Prod.fst (by decide)
  -- the counts of the parts add up to those of the class
  refine ⟨h.grows, fun r => ?_, fun around globals same => ?_⟩
  · have hc := fewer .construct r
    have hs := fewer .onClass r
    have hm := fewer .onInstance r
    simp only [Members.table] at hc hs hm
    simp only [Program.ClassDecl.names, ClassDecl.roles, timesListed_append, timesReceiver_append,
      own, plain]
    omega
  · simp only [Program.ClassDecl.names, ClassDecl.roles, timesListed_append, timesReceiver_append,
      own, plain] at same
    -- where both counts agree for the class they agree for each part of it
    have bounds (r : Slot) (hr : R r) :
        timesListed staticFields r = 0 ∧ timesListed fields r = 0 ∧ ∀ kind,
          timesListed (Program.methodNames (Members.table ⟨constructors, staticMethods, methods,
            ⟨.onInstance, receiver, fields⟩⟩ kind)) r ≤
          timesReceiver (methodRoles (Members.table ⟨constructors, staticMethods, methods,
            ⟨.onInstance, receiver, fields⟩⟩ kind)) r := by
      have := same r hr
      have hc := fewer .construct r
      have hs := fewer .onClass r
      have hm := fewer .onInstance r
      simp only [Members.table] at hc hs hm
      refine ⟨by omega, by omega, fun kind => ?_⟩
      cases kind <;> simp only [Members.table] <;> omega
    have spares := around.inside (f := ⟨.onClass, staticReceiver, staticFields⟩)
      (spared_of_timesListed fun r hr => (bounds r hr).1)
    have minds (kind : Syntax.MethodKind) (x : Program.Method)
        (hx : x ∈ Members.table ⟨constructors, staticMethods, methods,
          ⟨.onInstance, receiver, fields⟩⟩ kind) :
        x.Minds R (receiverOf (some receiver) (some staticReceiver) kind) := by
      refine (filed kind x hx).2 spares (spared_of_timesListed fun r hr => (bounds r hr).2.1)
        globals fun r hr => le_of_sum_le (fun y hy => (filed kind y hy).1 r) ?_ x hx
      rw [← timesListed_methodNames, ← timesReceiver_methodRoles]
      exact (bounds r hr).2.2 kind
    exact ⟨methodMinds_iff.2 (minds .construct), methodMinds_iff.2 (minds .onClass),
      methodMinds_iff.2 (minds .onInstance)⟩

end MindfulMembers

/-! ### Methods, blocks of code and calls -/

namespace Heeds

/-- A method minds receivers if its body does, next to its parameters. -/
lemma method {name : String} {params : Option (List Name)} {line : Line} {body : Program.Block}
    {own : Option Slot}
    (h : Heeds R (Γ.within names) g g' body.allNames body.roles (body.Minds R own)) :
    Heeds R Γ g g'
      (Program.methodNames [⟨name, params.map fun _ => names.map Prod.fst, names, body, line⟩])
      (methodRoles [⟨name, params.map fun _ => names.map Prod.fst, names, body, line⟩])
      (Method.Minds R own ⟨name, params.map fun _ => names.map Prod.fst, names, body, line⟩) := by
  let slots := (params.map fun _ => names.map Prod.fst).getD []
  have plain (r : Slot) : timesReceiver (slots.map fun p => (p, .param)) r = 0 :=
    timesReceiver_map slots id (by decide)
  have inner := h.within plain
  have listed : Program.methodNames
      [⟨name, params.map fun _ => names.map Prod.fst, names, body, line⟩] =
        names ++ body.allNames := by
    simp [Program.methodNames]
  have roles : methodRoles [⟨name, params.map fun _ => names.map Prod.fst, names, body, line⟩] =
      slots.map (fun p => (p, .param)) ++ body.roles := by
    simp [methodRoles, slots]
  rw [listed, roles]
  refine inner.imp fun h => ⟨fun p hp => ?_, h.2⟩
  cases params with
  | none => exact absurd hp List.not_mem_nil
  | some ps =>
    obtain ⟨d, hd, rfl⟩ := List.mem_map.1 hp
    exact h.1 d hd

/-- One expression is a list of expressions. -/
lemma single {e : Program.Expr} {own : Option Slot}
    (h : Heeds R Γ g g' e.names e.roles (e.Minds R own)) :
    Heeds R Γ g g' (Program.exprNames [e]) (exprRoles [e]) (exprMinds R own [e]) := by
  have alone : Program.exprNames [e] = e.names ∧ exprRoles [e] = e.roles :=
    ⟨List.append_nil _, List.append_nil _⟩
  rw [alone.1, alone.2]
  exact h.imp fun h => ⟨h, trivial⟩

/-- One statement is a list of statements. -/
lemma singleStmt {s : Program.Stmt} {own : Option Slot}
    (h : Heeds R Γ g g' s.names s.roles (s.Minds R own)) :
    Heeds R Γ g g' (Program.stmtNames [s]) (stmtRoles [s]) (stmtMinds R own [s]) := by
  have alone : Program.stmtNames [s] = s.names ∧ stmtRoles [s] = s.roles :=
    ⟨List.append_nil _, List.append_nil _⟩
  rw [alone.1, alone.2]
  exact h.imp fun h => ⟨h, trivial⟩

/-- More arguments of a call, after the others. -/
lemma snoc {es fs : List Program.Expr} {own : Option Slot}
    (h : Heeds R Γ g g₁ (Program.exprNames es) (exprRoles es) (exprMinds R own es))
    (h' : Heeds R Γ g₁ g₂ (Program.exprNames fs) (exprRoles fs) (exprMinds R own fs)) :
    Heeds R Γ g g₂ (Program.exprNames (es ++ fs)) (exprRoles (es ++ fs))
      (exprMinds R own (es ++ fs)) := by
  rw [exprNames_append, exprRoles_append, exprMinds_append]
  exact h.andThen h' And.intro

/-- The class of a block of code minds receivers if its method does. -/
lemma code {line : Line} {own ownStatic : Slot}
    {call : Program.Method} {around : Option Slot}
    (h : Heeds R Γ g g' (Program.methodNames [call]) (methodRoles [call])
      (call.Minds R around)) :
    Heeds R Γ g g'
      (Program.exprNames [.call (.cls (codeClass own ownStatic call line)) "new" (some []) line])
      (exprRoles [.call (.cls (codeClass own ownStatic call line)) "new" (some []) line])
      (exprMinds R around
        [.call (.cls (codeClass own ownStatic call line)) "new" (some []) line]) := by
  have listed : Program.exprNames
      [.call (.cls (codeClass own ownStatic call line)) "new" (some []) line] =
        [(own, "this"), (ownStatic, "this")] ++ Program.methodNames [call] := by
    simp [Program.exprNames, Program.Expr.names, codeClass, Program.ClassDecl.names,
      Program.methodNames, Program.Block.empty, Program.Block.allNames, Program.classNames,
      Program.stmtNames]
  have roles : exprRoles [.call (.cls (codeClass own ownStatic call line)) "new" (some []) line] =
      [(own, .receiver), (ownStatic, .receiver)] ++ methodRoles [call] := by
    simp [exprRoles, Expr.roles, codeClass, ClassDecl.roles, methodRoles, Block.empty, Block.roles,
      classRoles, stmtRoles]
  have own' (r : Slot) : timesListed [(own, "this"), (ownStatic, "this")] r =
      timesReceiver [(own, .receiver), (ownStatic, .receiver)] r := by
    simp [timesListed, timesReceiver, List.count_cons, Prod.ext_iff]
  rw [listed, roles]
  refine ⟨h.grows, fun r => ?_, fun spares globals same => ?_⟩
  · rw [timesListed_append, timesReceiver_append, own']
    exact Nat.add_le_add_left (h.fewer r) _
  · have minds := h.heeds spares globals fun r hr => by
      have := same r hr
      rw [timesListed_append, timesReceiver_append, own'] at this
      exact Nat.le_of_add_le_add_left this
    have body : Block.Minds R around .empty := ⟨trivial, trivial⟩
    refine ⟨⟨?_, trivial⟩, trivial⟩
    exact ⟨⟨⟨List.forall_mem_nil _, body⟩, trivial⟩, trivial,
      methodMinds_iff.2 fun m hm => List.mem_singleton.1 hm ▸ minds⟩

/-- A call minds receivers if its receiver and its arguments do. -/
lemma call {receiver : Program.Expr} {arguments : Option (List Program.Expr)}
    {name : String} {line : Line} {own : Option Slot}
    (hr : Heeds R Γ g g₁ receiver.names receiver.roles (receiver.Minds R own))
    (ha : Heeds R Γ g₁ g₂ (Program.exprNames (arguments.getD [])) (exprRoles (arguments.getD []))
      (exprMinds R own (arguments.getD []))) :
    Heeds R Γ g g₂ (Program.Expr.names (.call receiver name arguments line))
      (Expr.roles (.call receiver name arguments line))
      (Expr.Minds R own (.call receiver name arguments line)) := by
  have both := hr.andThen ha And.intro
  cases arguments with
  | none => exact both.imp fun h => ⟨h.1, trivial⟩
  | some es => exact both

/-- What is returned minds receivers if it is there. -/
lemma ret {value : Option Program.Expr} {line : Line} {own : Option Slot}
    (h : Heeds R Γ g g' (Program.exprNames value.toList) (exprRoles value.toList)
      (exprMinds R own value.toList)) :
    Heeds R Γ g g' (Program.Stmt.names (.ret value line)) (Stmt.roles (.ret value line))
      (Stmt.Minds R own (.ret value line)) := by
  cases value with
  | none => exact h
  | some e =>
    have single : Program.exprNames [e] = e.names ∧ exprRoles [e] = e.roles :=
      ⟨List.append_nil _, List.append_nil _⟩
    rw [Option.toList_some, single.1, single.2] at h
    exact h.imp And.left

/-- A conditional minds receivers if its parts do. -/
lemma branch {condition : Program.Expr} {yes : Program.Stmt} {no : Option Program.Stmt}
    {line : Line} {own : Option Slot}
    (hc : Heeds R Γ g g₁ condition.names condition.roles (condition.Minds R own))
    (hy : Heeds R Γ g₁ g₂ yes.names yes.roles (yes.Minds R own))
    (hn : Heeds R Γ g₂ g₃ (Program.stmtNames no.toList) (stmtRoles no.toList)
      (stmtMinds R own no.toList)) :
    Heeds R Γ g g₃ (Program.Stmt.names (.branch condition yes no line))
      (Stmt.roles (.branch condition yes no line))
      (Stmt.Minds R own (.branch condition yes no line)) := by
  have all := (hc.andThen hy And.intro).andThen hn And.intro
  cases no with
  | none => exact all.imp fun h => ⟨h.1.1, h.1.2, trivial⟩
  | some s =>
    have single : Program.stmtNames [s] = s.names ∧ stmtRoles [s] = s.roles :=
      ⟨List.append_nil _, List.append_nil _⟩
    rw [Option.toList_some, single.1, single.2] at all
    exact all.imp fun h => ⟨h.1.1, h.1.2, h.2.1⟩

end Heeds

/-! ### Every part of a program -/

mutual

/-- An expression that follows the rules minds receivers. -/
theorem ExprScoped.heeds {Γ : Surroundings} {g g' : List (Slot × String)} {e : Syntax.Expr}
    {e' : Program.Expr} : ExprScoped Γ g e e' g' →
      Heeds R Γ g g' e'.names e'.roles (e'.Minds R Γ.receiver?)
  | .assign ht hv => ht.heeds.andThen hv.heeds And.intro
  | .call hr ha hc => hr.heeds.call (hc.heeds ha.heeds)
  | .literal => .use (List.Subset.refl _) fun _ _ => trivial
  | .variable h => .use h.subset fun around globals hr => absurd hr (around.named globals h)
  | .field h => .use h.subset fun around globals hr =>
      absurd hr (around.field globals (fun _ => Surroundings.mem_of_instanceSide?) h)
  | .staticField h => .use h.subset fun around globals hr =>
      absurd hr (around.field globals (fun _ => Surroundings.mem_of_classSide?) h)
  | .this h => .use h.subset fun _ globals hr => h.own globals hr
  | .logical hl hr => hl.heeds.andThen hr.heeds And.intro

/-- What is assigned to is no receiver. -/
lemma TargetScoped.heeds {Γ : Surroundings} {g g' : List (Slot × String)} {e : Syntax.Expr}
    {s : Slot} : TargetScoped Γ g e s g' → Heeds R Γ g g' [] [] (¬R s)
  | .variable h => .use h.subset fun around globals => around.named globals h
  | .field h => .use h.subset fun around globals =>
      around.field globals (fun _ => Surroundings.mem_of_instanceSide?) h
  | .staticField h => .use h.subset fun around globals =>
      around.field globals (fun _ => Surroundings.mem_of_classSide?) h
  | .invalid _ h hu => .use (List.Subset.trans h.heeds.grows hu.subset) fun _ globals =>
      hu.spared globals

/-- Expressions mind receivers if they follow the rules. -/
lemma ExprsScoped.heeds {Γ : Surroundings} {g g' : List (Slot × String)} {es : List Syntax.Expr}
    {es' : List Program.Expr} : ExprsScoped Γ g es es' g' →
      Heeds R Γ g g' (Program.exprNames es') (exprRoles es') (exprMinds R Γ.receiver? es')
  | .nil => .use (List.Subset.refl _) fun _ _ => trivial
  | .cons h h' => h.heeds.andThen h'.heeds And.intro

/-- An expression that may be missing minds receivers if it follows the rules. -/
lemma MaybeScoped.heeds {Γ : Surroundings} {g g' : List (Slot × String)} {e : Option Syntax.Expr}
    {e' : Option Program.Expr} : MaybeScoped Γ g e e' g' →
      Heeds R Γ g g' (Program.exprNames e'.toList) (exprRoles e'.toList)
        (exprMinds R Γ.receiver? e'.toList)
  | .none => .use (List.Subset.refl _) fun _ _ => trivial
  | .some h => h.heeds.single

/-- Arguments in parentheses mind receivers if they follow the rules. -/
lemma ArgumentsScoped.heeds {Γ : Surroundings} {g g' : List (Slot × String)}
    {es : Option (List Syntax.Expr)} {es' : Option (List Program.Expr)} :
    ArgumentsScoped Γ g es es' g' → Heeds R Γ g g' (Program.exprNames (es'.getD []))
      (exprRoles (es'.getD [])) (exprMinds R Γ.receiver? (es'.getD []))
  | .none => .use (List.Subset.refl _) fun _ _ => trivial
  | .some h => h.heeds

/-- A block of code minds the receivers around it if it follows the rules. -/
lemma CodeScoped.heeds {Γ : Surroundings} {g₀ g g' : List (Slot × String)}
    {code : Option Syntax.Code} {es es' : Option (List Program.Expr)} :
    CodeScoped Γ g es code es' g' →
      Heeds R Γ g₀ g (Program.exprNames (es.getD [])) (exprRoles (es.getD []))
        (exprMinds R Γ.receiver? (es.getD [])) →
      Heeds R Γ g₀ g' (Program.exprNames (es'.getD [])) (exprRoles (es'.getD []))
        (exprMinds R Γ.receiver? (es'.getD []))
  | .none, h => h
  | .some hm, h => h.snoc hm.heeds.code

/-- A method minds receivers if it follows the rules. -/
lemma MethodScoped.heeds {Γ : Surroundings} {g g' : List (Slot × String)} {name : String}
    {params : Option (List Name)} {line : Line} {body : List Syntax.Stmt} {m : Program.Method} :
    MethodScoped Γ g name params line body m g' →
      Heeds R Γ g g' (Program.methodNames [m]) (methodRoles [m]) (m.Minds R Γ.receiver?)
  | .intro _ h => h.heeds.method

/-- A block that follows the rules minds receivers. -/
theorem BlockScoped.heeds {Γ : Surroundings} {g g' : List (Slot × String)}
    {body : List Syntax.Stmt} {b : Program.Block} : BlockScoped Γ g body b g' →
      Heeds R Γ g g' b.allNames b.roles (b.Minds R Γ.receiver?)
  | .intro _ h => h.heeds.block

/-- The statements of a block mind receivers if they follow the rules. -/
lemma StmtsScoped.heeds {Γ : Surroundings} {hoisted : List (Slot × String)} {p p' : Progress}
    {ss : List Syntax.Stmt} {ss' : List Program.Stmt} : StmtsScoped Γ hoisted p ss ss' p' →
      Mindful R Γ hoisted p ss' p'
  | .nil => .nil
  | .cons h h' => h.heeds.append h'.heeds

/-- A step through a block minds receivers if it follows the rules. -/
lemma StepScoped.heeds {Γ : Surroundings} {hoisted : List (Slot × String)} {p p' : Progress}
    {s : Syntax.Stmt} {o : Option Program.Stmt} : StepScoped Γ hoisted p s o p' →
      Mindful R Γ hoisted p o.toList p'
  | .var h => .var h.heeds
  | .cls hs h => .cls hs h.heeds
  | .other h => .other h.heeds

/-- A statement minds receivers if it follows the rules. -/
lemma StmtScoped.heeds {Γ : Surroundings} {g g' : List (Slot × String)} {s : Syntax.Stmt}
    {s' : Program.Stmt} : StmtScoped Γ g s s' g' →
      Heeds R Γ g g' s'.names s'.roles (s'.Minds R Γ.receiver?)
  | .block h => h.heeds
  | .branch hc hy hn => hc.heeds.branch hy.heeds hn.heeds
  | .loop hc hb => hc.heeds.andThen hb.heeds And.intro
  | .ret h => h.heeds.ret
  | .eval h => h.heeds

/-- A branch minds receivers if it follows the rules. -/
lemma BranchScoped.heeds {Γ : Surroundings} {g g' : List (Slot × String)} {s : Syntax.Stmt}
    {s' : Program.Stmt} : BranchScoped Γ g s s' g' →
      Heeds R Γ g g' s'.names s'.roles (s'.Minds R Γ.receiver?)
  | .block _ h => h.heeds
  | .quiet _ h => h.heeds

/-- A branch that may be missing minds receivers if it follows the rules. -/
lemma ElseScoped.heeds {Γ : Surroundings} {g g' : List (Slot × String)} {s : Option Syntax.Stmt}
    {s' : Option Program.Stmt} : ElseScoped Γ g s s' g' →
      Heeds R Γ g g' (Program.stmtNames s'.toList) (stmtRoles s'.toList)
        (stmtMinds R Γ.receiver? s'.toList)
  | .none => .use (List.Subset.refl _) fun _ _ => trivial
  | .some h => h.heeds.singleStmt

/-- A class that follows the rules minds receivers. -/
theorem ClassScoped.heeds {Γ : Surroundings} {g g' : List (Slot × String)} {name : Name}
    {methods : List Syntax.Method} {c : Program.ClassDecl} : ClassScoped Γ g name methods c g' →
      Heeds R Γ g g' c.names c.roles (c.Minds R (some c.receiver) (some c.staticReceiver))
  | .intro h => h.heeds.cls

/-- The members of a class mind receivers if they follow the rules. -/
lemma MethodsScoped.heeds {Γ : Surroundings} {g g' : List (Slot × String)} {m m' : Members}
    {methods : List Syntax.Method} : MethodsScoped Γ m g methods m' g' →
      MindfulMembers R Γ m g m' g'
  | .nil => .nil
  | .cons h h' => .cons h.heeds h'.heeds

end

end Heeds

/-! ### Whole programs -/

/-- A slot is that of a receiver in a program. -/
def Program.Script.IsReceiver (script : Script) (s : Slot) : Prop := (s, .receiver) ∈ script.roles

/-- Whatever mistakes a program has, no slot of a receiver in its resolved form is
given a value by an assignment, a variable, a parameter or a class declaration, and
it is read only in the methods that have this receiver and in blocks of code within
them. -/
theorem resolve_minds (globals : List String) (program : List Syntax.Stmt) :
    let script := (resolve globals program).1
    script.root.Minds script.IsReceiver none := by
  intro script
  obtain ⟨g, _, rules⟩ := resolve_scoped globals program
  have once := List.nodup_iff_count_le_one.1 (names_nodup globals program)
  have heeds : Heeds script.IsReceiver ⟨[], []⟩ g script.globals script.root.allNames
      script.root.roles (script.root.Minds script.IsReceiver none) := rules.heeds
  have received (r : Slot) (hr : script.IsReceiver r) : 0 < timesReceiver script.root.roles r := by
    refine List.count_pos_iff.2 ((List.mem_append.1 hr).resolve_left fun h => ?_)
    obtain ⟨d, -, hd⟩ := List.mem_map.1 h
    exact nomatch congrArg Prod.snd hd
  have listed (r : Slot) :
      timesListed script.globals r + timesListed script.root.allNames r ≤ 1 := by
    rw [← timesListed_append]
    exact once r
  have free : Spared script.IsReceiver script.globals := by
    refine spared_of_timesListed fun r hr => ?_
    have := received r hr
    have := heeds.fewer r
    have := listed r
    omega
  have same (r : Slot) (hr : script.IsReceiver r) :
      timesListed script.root.allNames r ≤ timesReceiver script.root.roles r := by
    have := received r hr
    have := listed r
    omega
  exact heeds.heeds ⟨fun _ h => absurd h List.not_mem_nil, fun _ h => absurd h List.not_mem_nil⟩
    free same

end Ember
