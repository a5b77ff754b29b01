/-
The early reads of variables that are found are exactly those that paths come by.

* `Program.Expr.tracks`, `Program.Stmt.tracks`, `Program.ClassDecl.mem_findings`: the walk
  over a body keeps up with its paths, and what is found in a class are the early reads of
  its bodies;
* `count_distinctFindings`: a finding comes once;
* `count_earlyReads`: how often an early read of a variable is found in a program;
* `early_reads_exact`: what is reported on a program that resolves without mistakes.
-/
import Mathlib
import Ember.Proofs.Flow.Tracking
import Ember.Proofs.Scope.Closure
import Ember.Proofs.Scope.Naming

namespace Ember

open Program

/-! ### Surroundings of a variable -/

/-- A walk with a variable in view: the classes on its way are analysed, and neither the
fields that it follows nor what it knows of methods is about the variable. -/
structure FlowContext.Spares (ctx : FlowContext) (x : Slot) : Prop where
  deep : ctx.inDepth = true
  fields : x ∉ ctx.fields
  summaries : ∀ method s, ctx.summaries.lookup method = some s → x ∉ s.requires ∧ x ∉ s.assigns

/-- A slot is a field of none of the classes, and as a variable it is assigned in none of
their bodies before its statement. -/
def Apart (named : List (Slot × ClassDecl)) (x : Slot) (cs : List (Option Slot × ClassDecl)) :
    Prop :=
  ∀ c ∈ cs, x ∉ c.2.fieldSlots ∧ ∀ m ∈ c.2.allMethods, m.body.Orderly named x

section Apart

variable {named : List (Slot × ClassDecl)} {x : Slot} {cs ds : List (Option Slot × ClassDecl)}

lemma Apart.left (h : Apart named x (cs ++ ds)) : Apart named x cs := fun c hc =>
  h c (List.mem_append_left _ hc)

lemma Apart.right (h : Apart named x (cs ++ ds)) : Apart named x ds := fun c hc =>
  h c (List.mem_append_right _ hc)

end Apart

/-- Summaries of methods are about the fields of their class only. -/
lemma Summaries.Regular.spares {fields : List Slot} {methods : List Method} {S : Summaries}
    (regular : S.Regular fields methods) {x : Slot} (other : x ∉ fields) (method : Selector)
    (s : Summary) (known : S.lookup method = some s) : x ∉ s.requires ∧ x ∉ s.assigns := by
  have entry : s.Regular fields := regular.entries _ (mem_of_lookup known)
  exact ⟨fun mem => other (entry.mem_requires mem), fun mem => other (entry.mem_assigns mem)⟩

namespace Walk.Tracks

variable {ctx : FlowContext} {f : Finding} {P : Paths} {cs : List (Option Slot × ClassDecl)}
  {w w₁ : Walk}

/-- A call of the body's own methods is about fields only. -/
lemma callOwn (spares : ctx.Spares f.slot) (h : Tracks ctx f P cs w w₁) (method : Selector)
    (line : Line) : Tracks ctx f P cs w (w₁.callOwn ctx method line) := by
  rw [Walk.callOwn]
  cases known : ctx.summaries.lookup method with
  | none => exact h
  | some summary =>
    obtain ⟨requires, assigns⟩ := spares.summaries method summary known
    have found : f ∈ (w₁.readAll ctx summary.requires line).found ↔ f ∈ w₁.found := by
      rw [mem_found_readAll spares.fields]
      exact or_iff_left fun h => requires h.2.2.1
    dsimp only
    split
    · refine h.congr (fun u => ?_) found
      simp [FlowState.Allows, mem_addSlots, assigns]
    · exact h.congr (fun u => by rw [state_readAll]) found

end Walk.Tracks

/-! ### Walks over bodies -/

namespace Program

section Tracks

variable {f : Finding}

/-- What is found in a body that is walked from its beginning. -/
lemma Block.mem_found {ctx : FlowContext} {b : Block} {entry : List Slot}
    (fresh : f.slot ∉ entry) (followed : ctx.locals = b.locals)
    (tracks : (Walk.start entry).Tracks ctx f (b.paths ctx.named) b.classesWithin
      (b.flow ctx (.start entry))) :
    f ∈ (b.flow ctx (.start entry)).found ↔
      b.Shows ctx.named ctx.captures f ∨ ctx.Shown f b.classesWithin := by
  have nothing : f ∉ (Walk.start entry).found := List.not_mem_nil
  rw [tracks.found, or_iff_right nothing, FlowContext.Watches, followed, and_assoc]
  refine or_congr_left (and_congr_right fun _ => and_congr_right fun _ => ?_)
  constructor
  · rintro ⟨u, tr, r, -, path, hits⟩
    exact ⟨tr, r, path, hits.mono (Bool.le_true u)⟩
  · rintro ⟨tr, r, path, hits⟩
    exact ⟨true, tr, r, ⟨rfl, fun _ => fresh⟩, path, hits⟩

/-- The early reads in bodies that belong to an instance or to none, and in the classes
within them. -/
def FoundIn (ctx : FlowContext) (f : Finding) (ms : List Method) : Prop :=
  (∃ m ∈ ms, m.body.Shows ctx.named ctx.captures f) ∨ ctx.Shown f (methodClasses ms)

/-- A finding is found in the first method or in one of the others. -/
lemma foundIn_cons (ctx : FlowContext) (m : Method) (ms : List Method) :
    FoundIn ctx f (m :: ms) ↔
      (m.body.Shows ctx.named ctx.captures f ∨ ctx.Shown f m.body.classesWithin) ∨
        FoundIn ctx f ms := by
  have classes : methodClasses (m :: ms) = m.body.classesWithin ++ methodClasses ms := by
    cases m
    rfl
  rw [FoundIn, FoundIn, classes, ctx.shown_append, List.exists_mem_cons_iff, or_or_or_comm]

/-- The early reads in the bodies of a class and of the classes within it, table by
table. -/
lemma shown_cons (ctx : FlowContext) (o : Option Slot) (c : ClassDecl) :
    ctx.Shown f ((o, c) :: c.classesWithin) ↔
      (FoundIn ctx f c.constructors ∨ FoundIn ctx f c.methods) ∨ FoundIn ctx f c.staticMethods := by
  have within : c.classesWithin =
      methodClasses c.constructors ++ methodClasses c.staticMethods ++ methodClasses c.methods := by
    cases c
    rfl
  have own : ctx.Shown f [(o, c)] ↔
      ∃ m ∈ c.allMethods, m.body.Shows ctx.named ctx.captures f := by
    simp [FlowContext.Shown, bodies]
  rw [← List.singleton_append, ctx.shown_append, own, within, ctx.shown_append, ctx.shown_append]
  have swap {a b c x y z : Prop} : ((a ∨ b) ∨ c) ∨ (x ∨ y) ∨ z ↔ ((a ∨ x) ∨ c ∨ z) ∨ b ∨ y := by
    tauto
  simp only [ClassDecl.allMethods, List.mem_append, or_and_right, exists_or, FoundIn]
  exact swap

mutual

/-- The walk over an expression keeps up with its paths. -/
lemma Expr.tracks {ctx : FlowContext} (spares : ctx.Spares f.slot) : (e : Expr) → (w : Walk) →
    Apart ctx.named f.slot e.classes →
      w.Tracks ctx f (e.paths ctx.named) e.classes (e.flow ctx w)
  | .assign target value _, w, apart => by
    have both := (Expr.tracks spares value w apart).andThen (.assign _ target)
    rw [List.append_nil] at both
    exact both
  | .call receiver name none line, w, apart => by
    have before := (Expr.tracks spares receiver w apart.left).andThen (.idle _)
    rcases Expr.flow_call ctx receiver name none line w with ⟨-, own⟩ | ⟨-, other⟩
    · rw [own]
      exact before.callOwn spares _ _
    · rw [other]
      exact before
  | .call receiver name (some es) line, w, apart => by
    have before := (Expr.tracks spares receiver w apart.left).andThen
      (exprTracks spares es _ apart.right)
    rcases Expr.flow_call ctx receiver name (some es) line w with ⟨-, own⟩ | ⟨-, other⟩
    · rw [own]
      exact before.callOwn spares _ _
    · rw [other]
      exact before
  | .literal _ _, w, _ => .idle w
  | .read s line, w, _ => by
    have first := Walk.Tracks.read spares.fields w s line
    rw [Expr.flow, Expr.paths]
    cases ctx.named.lookup s with
    | none => exact first.andThen (.idle _)
    | some c => exact first.andThen (.produce spares.fields _ c line)
  | .logical _ left right _, w, apart =>
    (Expr.tracks spares left w apart.left).andThen
      ((Expr.tracks spares right _ apart.right).skip (Expr.without_forgets right))
  | .cls decl, w, apart => by
    have classes : f ∈ decl.findings ctx ↔ ctx.Shown f ((none, decl) :: decl.classesWithin) :=
      ClassDecl.mem_findings ctx decl none apart
    have made := Walk.Tracks.within classes
      (.produce spares.fields ⟨w.state, w.exit, w.found ++ decl.findings ctx⟩ decl decl.line)
    rw [List.append_nil] at made
    rw [Expr.flow, if_pos spares.deep]
    exact made

/-- Expressions one after the other keep up with their paths. -/
lemma exprTracks {ctx : FlowContext} (spares : ctx.Spares f.slot) : (es : List Expr) →
    (w : Walk) → Apart ctx.named f.slot (exprClasses es) →
      w.Tracks ctx f (exprPaths ctx.named es) (exprClasses es) (exprFlow ctx es w)
  | [], w, _ => .idle w
  | e :: es, w, apart =>
    (Expr.tracks spares e w apart.left).andThen (exprTracks spares es _ apart.right)

/-- The walk over a statement keeps up with its paths, if the variables of the statement
are unassigned before it. -/
lemma Stmt.tracks {ctx : FlowContext} (spares : ctx.Spares f.slot) : (s : Stmt) → (w : Walk) →
    Apart ctx.named f.slot s.classes → s.Orderly ctx.named f.slot →
      (f.slot ∈ s.locals → w.state.Unset f.slot) →
        w.Tracks ctx f (s.paths ctx.named) s.classes (s.flow ctx w)
  | .block body, w, apart, orderly, unset => Block.tracks spares body w apart orderly unset
  | .branch condition yes none _, w, apart, orderly, unset => by
    have first := Expr.tracks spares condition w apart.left.left
    have unset' : f.slot ∈ yes.locals → (condition.flow ctx w).state.Unset f.slot := fun hx =>
      first.unset (orderly.1 (List.mem_append_left _ hx)) (unset (List.mem_append_left _ hx))
    have second := Stmt.tracks spares yes _ apart.left.right orderly.2.1 unset'
    have both := first.andThen (second.either (.idle _))
    rw [← List.append_assoc] at both
    exact both
  | .branch condition yes (some no) _, w, apart, orderly, unset => by
    have first := Expr.tracks spares condition w apart.left.left
    have unset' (hx : f.slot ∈ yes.locals ++ no.locals) :
        (condition.flow ctx w).state.Unset f.slot := first.unset (orderly.1 hx) (unset hx)
    have second := Stmt.tracks spares yes _ apart.left.right orderly.2.1 fun hx =>
      unset' (List.mem_append_left _ hx)
    have third := Stmt.tracks spares no
      ((yes.flow ctx (condition.flow ctx w)).resume (condition.flow ctx w).state) apart.right
      orderly.2.2 fun hx => unset' (List.mem_append_right _ hx)
    have all := first.andThen (second.either third)
    rw [← List.append_assoc] at all
    exact all
  | .loop condition body _, w, apart, orderly, unset => by
    have first := Expr.tracks spares condition w apart.left
    have unset' : f.slot ∈ body.locals → (condition.flow ctx w).state.Unset f.slot := fun hx =>
      first.unset (orderly.1 hx) (unset hx)
    have second := Stmt.tracks spares body _ apart.right orderly.2 unset'
    -- a round leaves only what was there before it, so walking one of them is enough
    refine first.rounds second (Expr.through condition) fun u later => ?_
    by_cases hx : f.slot ∈ body.locals
    · -- the variable is unassigned at the beginning of every round
      obtain ⟨u₁, tr, h₁, -, -⟩ := (second.allows u).1 later
      exact (unset hx).allows
        (first.allows_of_without (Expr.without_forgets condition) h₁) u
    · exact first.allows_of_without (Expr.without_forgets condition)
        (second.allows_of_without (Stmt.without_forgets body hx) later)
  | .var s none _, w, _, _, _ => .forget w s
  | .var s (some e) _, w, apart, _, _ => by
    have both := (Expr.tracks spares e w apart).andThen (.assign _ s)
    rw [List.append_nil] at both
    exact both
  | .ret none _, w, _, _, _ => .leave w
  | .ret (some e) _, w, apart, _, _ => by
    have both := (Expr.tracks spares e w apart).andThen (.leave _)
    rw [List.append_nil] at both
    exact both
  | .eval e, w, apart, _, _ => Expr.tracks spares e w apart

/-- Statements one after the other keep up with their paths. -/
lemma stmtTracks {ctx : FlowContext} (spares : ctx.Spares f.slot) : (ss : List Stmt) →
    (w : Walk) → Apart ctx.named f.slot (stmtClasses ss) → stmtOrderly ctx.named f.slot ss →
      (f.slot ∈ stmtLocals ss → w.state.Unset f.slot) →
        w.Tracks ctx f (stmtPaths ctx.named ss) (stmtClasses ss) (stmtFlow ctx ss w)
  | [], w, _, _, _ => .idle w
  | s :: ss, w, apart, orderly, unset => by
    have first := Stmt.tracks spares s w apart.left orderly.1 fun hx =>
      unset (List.mem_append_left _ hx)
    exact first.andThen (stmtTracks spares ss _ apart.right orderly.2.2 fun hx =>
      first.unset (orderly.2.1 hx) (unset (List.mem_append_right _ hx)))

/-- The walk over a block keeps up with its paths. -/
lemma Block.tracks {ctx : FlowContext} (spares : ctx.Spares f.slot) : (b : Block) → (w : Walk) →
    Apart ctx.named f.slot b.classesWithin → b.Orderly ctx.named f.slot →
      (f.slot ∈ b.locals → w.state.Unset f.slot) →
        w.Tracks ctx f (b.paths ctx.named) b.classesWithin (b.flow ctx w)
  | ⟨statements, _, classes⟩, w, apart, orderly, unset => by
    have declared : f ∈ classFindings ctx classes ↔ ctx.Shown f (declaredClasses classes) :=
      mem_classFindings ctx classes apart.left
    rw [Block.flow, if_pos spares.deep]
    exact .within declared (stmtTracks spares statements _ apart.right orderly unset)

/-- The classes of a scope report what their bodies show. -/
lemma mem_classFindings (ctx : FlowContext) : (cs : List (Slot × ClassDecl)) →
    Apart ctx.named f.slot (declaredClasses cs) →
      (f ∈ classFindings ctx cs ↔ ctx.Shown f (declaredClasses cs))
  | [], _ => by simp [classFindings, declaredClasses, ctx.not_shown_nil]
  | (s, c) :: cs, apart => by
    have first := ClassDecl.mem_findings ctx c (some s) apart.left
    have rest := mem_classFindings ctx cs apart.right
    rw [classFindings, List.mem_append, first, rest, ← ctx.shown_append]
    rfl

/-- What is found in a class are the early reads of its bodies, and of those of the classes
within it. -/
lemma ClassDecl.mem_findings (ctx : FlowContext) : (c : ClassDecl) → (o : Option Slot) →
    Apart ctx.named f.slot ((o, c) :: c.classesWithin) →
      (f ∈ c.findings ctx ↔ ctx.Shown f ((o, c) :: c.classesWithin))
  | ⟨name, line, receiver, staticReceiver, constructors, staticMethods, methods, fields,
      staticFields⟩, o, apart => by
    obtain ⟨other, orderly⟩ := apart _ (List.mem_cons_self ..)
    have within : Apart ctx.named f.slot (methodClasses constructors ++
        methodClasses staticMethods ++ methodClasses methods) := fun c hc =>
      apart c (List.mem_cons_of_mem _ hc)
    obtain ⟨orderly, inMethods⟩ := List.forall_mem_append.1 orderly
    obtain ⟨inConstructors, inStatics⟩ := List.forall_mem_append.1 orderly
    let slots := fields.map Prod.fst
    let c : ClassDecl := ⟨name, line, receiver, staticReceiver, constructors, staticMethods,
      methods, fields, staticFields⟩
    let S := c.fieldSummaries ctx methods
    have regular : S.Regular slots methods := (c.fieldSummaries_settled ctx methods).1
    have fresh : f.slot ∉ constructedFields ctx slots receiver S slots constructors := fun mem =>
      other (mem_constructedFields mem).1
    have first := mem_instanceFindings ctx receiver other (regular.spares other)
      List.not_mem_nil constructors inConstructors within.left.left
    have second := mem_instanceFindings ctx receiver other (regular.spares other) fresh methods
      inMethods within.right
    have third := mem_staticFindings ctx staticMethods inStatics within.left.right
    rw [shown_cons, ClassDecl.findings, List.mem_append, List.mem_append]
    exact or_congr (or_congr first second) third

/-- The methods of instances report of a variable what their bodies show: fields and
summaries are no concern of it. -/
lemma mem_instanceFindings (ctx : FlowContext) {fields : List Slot} (receiver : Slot)
    {S : Summaries} {entry : List Slot} (other : f.slot ∉ fields)
    (summaries : ∀ method s, S.lookup method = some s → f.slot ∉ s.requires ∧ f.slot ∉ s.assigns)
    (fresh : f.slot ∉ entry) : (ms : List Method) →
    (∀ m ∈ ms, m.body.Orderly ctx.named f.slot) → Apart ctx.named f.slot (methodClasses ms) →
      (f ∈ instanceFindings ctx fields receiver S entry ms ↔ FoundIn ctx f ms)
  | [], _, _ => by simp [instanceFindings, FoundIn, methodClasses, ctx.not_shown_nil]
  | ⟨name, params, names, body, line⟩ :: ms, orderly, apart => by
    obtain ⟨first, others⟩ := List.forall_mem_cons.1 orderly
    have spares : (ctx.checking fields receiver S body).Spares f.slot := ⟨rfl, other, summaries⟩
    have here := Block.mem_found fresh rfl
      (Block.tracks spares body (.start entry) apart.left first fun _ _ => fresh)
    rw [instanceFindings, List.mem_append, here, foundIn_cons,
      mem_instanceFindings ctx receiver other summaries fresh ms others apart.right]
    rfl

/-- The static methods report what their bodies show. -/
lemma mem_staticFindings (ctx : FlowContext) : (ms : List Method) →
    (∀ m ∈ ms, m.body.Orderly ctx.named f.slot) → Apart ctx.named f.slot (methodClasses ms) →
      (f ∈ staticFindings ctx ms ↔ FoundIn ctx f ms)
  | [], _, _ => by simp [staticFindings, FoundIn, methodClasses, ctx.not_shown_nil]
  | ⟨name, params, names, body, line⟩ :: ms, orderly, apart => by
    obtain ⟨first, others⟩ := List.forall_mem_cons.1 orderly
    have spares : (ctx.plain body).Spares f.slot :=
      ⟨rfl, List.not_mem_nil, fun _ _ h => nomatch h⟩
    have here := Block.mem_found List.not_mem_nil rfl
      (Block.tracks spares body (.start []) apart.left first fun _ _ => List.not_mem_nil)
    rw [staticFindings, List.mem_append, here, foundIn_cons,
      mem_staticFindings ctx ms others apart.right]
    rfl

end

end Tracks

end Program

/-! ### Whole programs -/

/-- A finding comes once among distinct findings, unless another has come for its slot and
line. -/
lemma count_distinctFindings {f : Finding} (seen : List (Line × Slot)) {fs : List Finding}
    (alone : ∀ g ∈ fs, g.slot = f.slot → g.line = f.line → g = f) :
    (distinctFindings seen fs).count f =
      if f ∈ fs ∧ (f.line, f.slot) ∉ seen then 1 else 0 := by
  induction fs generalizing seen with
  | nil => simp [distinctFindings]
  | cons g fs ih =>
    obtain ⟨first, rest⟩ := List.forall_mem_cons.1 alone
    rw [distinctFindings]
    by_cases same : g = f
    · subst same
      split
      · next known => simp [ih seen rest, known]
      · next new => simp [ih _ rest, new]
    · have keys : (g.line, g.slot) ≠ (f.line, f.slot) := fun eq =>
        same (first (congrArg Prod.snd eq) (congrArg Prod.fst eq))
      split
      · simp [ih seen rest, Ne.symm same]
      · rw [List.count_cons_of_ne same, ih _ rest]
        simp [Ne.symm same, Ne.symm keys]

/-- A slot that a program declares has a name. -/
lemma exists_name_of_mem_slots (globals : List String) (program : List Syntax.Stmt) {s : Slot}
    (h : s ∈ (resolve globals program).1.root.slots) :
    ∃ name, (resolve globals program).1.names.lookup s = some name := by
  obtain ⟨g, _, rules⟩ := resolve_scoped globals program
  have listed : s ∈ (resolve globals program).1.root.listed :=
    List.count_pos_iff.1 ((List.count_pos_iff.2 h).trans_le (rules.counted s))
  obtain ⟨⟨_, name⟩, hd, rfl⟩ := List.mem_map.1 listed
  exact ⟨name, lookup_of_mem (names_nodup globals program) (List.mem_append_right _ hd)⟩

section Script

variable {script : Script} {named : List (Slot × ClassDecl)} {b : Block} {x : Slot}

/-- Variables and fields have different slots. -/
lemma not_mem_fieldSlots (once : script.slots.Nodup) (hb : b ∈ script.bodies) (hx : x ∈ b.locals)
    {c : Option Slot × ClassDecl} (hc : c ∈ script.classes) : x ∉ c.2.fieldSlots := by
  intro mem
  have asField : (x, SlotRole.field) ∈ c.2.roles := by
    obtain ⟨f, hf, rfl⟩ := List.mem_map.1 mem
    obtain ⟨o, name, line, receiver, staticReceiver, constructors, staticMethods, methods, fields,
      staticFields⟩ := c
    have field : (f.1, SlotRole.field) ∈ fields.map fun f => (f.1, SlotRole.field) :=
      List.mem_map_of_mem hf
    simp only [ClassDecl.roles, List.mem_append]
    exact .inr (.inr (.inl field))
  have inside : (c.2.part []).Inside (script.root.part []) := script.root.houses c hc
  have inside' : (b.part []).Inside (script.root.part []) := inside_of_mem_bodies hb
  have same := List.inj_on_of_nodup_map once (List.mem_append_right _ (inside.roles asField))
    (List.mem_append_right _ (inside'.roles (b.var_of_mem_locals hx))) rfl
  exact nomatch same

/-- In a program that mentions only visible slots no body assigns a variable before its
statement. -/
lemma orderly_of_mem_bodies (once : script.slots.Nodup)
    (closed : script.root.Closed true (script.globals.map Prod.fst)) (hb : b ∈ script.bodies) :
    b.Orderly named x := by
  obtain ⟨v, closed, room⟩ := housed_of_mem_bodies once closed hb
  exact b.orderly closed room

/-- How often the early read of a variable is found in a program. -/
theorem count_earlyReads (once : script.slots.Nodup)
    (closed : script.root.Closed true (script.globals.map Prod.fst)) (hb : b ∈ script.bodies)
    (hx : x ∈ b.locals) (line : Line)
    [Decidable (b.ReadsEarly script.namedClasses (Captures.ofScript script) x line)] :
    (earlyReads script).count ⟨.variable, x, line⟩ =
      if b.ReadsEarly script.namedClasses (Captures.ofScript script) x line then 1 else 0 := by
  let ctx := FlowContext.ofScript script
  have apart : Apart ctx.named x script.classes := fun c hc =>
    ⟨not_mem_fieldSlots once hb hx hc, fun m hm => orderly_of_mem_bodies once closed
      (List.mem_cons_of_mem _ (mem_bodies.2 ⟨c, hc, m, hm, rfl⟩))⟩
  have spares : ctx.Spares x := ⟨rfl, List.not_mem_nil, fun _ _ h => nomatch h⟩
  have found (f : Finding) (about : f.slot = x) :
      f ∈ (script.root.flow ctx (.start [])).found ↔
        f.kind = .variable ∧ b.ReadsEarly ctx.named ctx.captures x f.line := by
    subst about
    have root : script.root.Orderly ctx.named f.slot :=
      orderly_of_mem_bodies once closed (List.mem_cons_self ..)
    rw [Block.mem_found List.not_mem_nil rfl
      (Block.tracks spares script.root (.start []) apart root fun _ _ => List.not_mem_nil)]
    have all : script.root.Shows ctx.named ctx.captures f ∨
        ctx.Shown f script.root.classesWithin ↔
          ∃ b ∈ script.bodies, b.Shows ctx.named ctx.captures f := by
      rw [Script.bodies, List.exists_mem_cons_iff]
      rfl
    rw [all]
    constructor
    · rintro ⟨b', hb', kind, hx', early⟩
      rw [eq_of_mem_locals once hb hb' hx hx']
      exact ⟨kind, early⟩
    · rintro ⟨kind, early⟩
      exact ⟨b, hb, kind, hx, early⟩
  have alone : ∀ g ∈ (script.root.flow ctx (.start [])).found, g.slot = x → g.line = line →
      g = ⟨.variable, x, line⟩ := by
    rintro ⟨kind, slot, l⟩ hg rfl rfl
    obtain ⟨rfl, -⟩ := (found _ rfl).1 hg
    rfl
  rw [earlyReads, count_distinctFindings [] alone]
  refine if_congr ?_ rfl rfl
  rw [found ⟨.variable, x, line⟩ rfl]
  simp [ctx, FlowContext.ofScript]

end Script

/-- Of a program that resolves without mistakes, each body and each of its variables: a
read of the variable before it is assigned is reported on a line once if some path through
the body comes by one there, and not at all otherwise. -/
theorem early_reads_exact (globals : List String) (program : List Syntax.Stmt)
    (fine : (resolve globals program).2 = []) (b : Block)
    (hb : b ∈ (resolve globals program).1.bodies) (x : Slot) (hx : x ∈ b.locals) (line : Line) :
    let script := (resolve globals program).1
    let report : Finding := ⟨.variable, x, line⟩
    let early := b.ReadsEarly script.namedClasses (Captures.ofScript script) x line
    (early → (earlyReads script).count report = 1) ∧
      (¬early → (earlyReads script).count report = 0) ∧
        ∃ name, script.names.lookup x = some name ∧
          report.diagnostic script.names = Diagnostic.atLine .flow line
            ("Variable '" ++ name ++ "' is used before being assigned.") := by
  classical
  intro script report early
  have count : (earlyReads script).count report = if early then 1 else 0 :=
    count_earlyReads (resolve_nodup globals program)
      (resolve_closed globals program fun _ => fine) hb hx line
  refine ⟨fun h => count.trans (if_pos h), fun h => count.trans (if_neg h), ?_⟩
  have inside : (b.part []).Inside (script.root.part []) := inside_of_mem_bodies hb
  have declared : x ∈ script.root.slots :=
    List.mem_map_of_mem (inside.roles (b.var_of_mem_locals hx))
  obtain ⟨name, known⟩ := exists_name_of_mem_slots globals program declared
  have known : script.names.lookup x = some name := known
  refine ⟨name, known, ?_⟩
  rw [Finding.diagnostic, known]
  rfl

/-- A class whose method assigns a variable in a loop only, and returns it. -/
def picksInLoop : List Syntax.Stmt :=
  [.cls ⟨"Picker", 1⟩
    [⟨.onInstance, ⟨"pick", 2⟩, some [⟨"flag", 2⟩],
      [.var ⟨"best", 3⟩ none,
        .loop (.variable ⟨"flag", 4⟩)
          (.block [.eval (.assign (.variable ⟨"best", 5⟩) (.variable ⟨"flag", 5⟩) 5),
            .eval (.call (.variable ⟨"best", 6⟩) ⟨"show", 6⟩ none none)]) 4,
        .ret (some (.variable ⟨"best", 7⟩)) 7]⟩],
    .eval (.variable ⟨"Picker", 8⟩)]

/-- The body of its method once its names are resolved. -/
def pickedInLoop : Block :=
  ⟨[.var ⟨4⟩ none 3,
      .loop (.read ⟨3⟩ 4)
        (.block ⟨[.eval (.assign ⟨4⟩ (.read ⟨3⟩ 5) 5),
          .eval (.call (.read ⟨4⟩ 6) "show" none 6)], [], []⟩) 4,
      .ret (some (.read ⟨4⟩ 7)) 7], [(⟨4⟩, "best")], []⟩

/-- The loop may run not at all, so the variable is reported where it is returned. Inside
the loop it has been assigned. -/
theorem early_reads_exact_picksInLoop :
    let script := (resolve [] picksInLoop).1
    let early := pickedInLoop.ReadsEarly script.namedClasses (Captures.ofScript script) ⟨4⟩
    (resolve [] picksInLoop).2 = [] ∧ pickedInLoop ∈ script.bodies ∧ ⟨4⟩ ∈ pickedInLoop.locals ∧
      (early 7 ∧ (earlyReads script).count ⟨.variable, ⟨4⟩, 7⟩ = 1) ∧
        ¬early 6 ∧ (earlyReads script).count ⟨.variable, ⟨4⟩, 6⟩ = 0 := by
  intro script early
  have fine : (resolve [] picksInLoop).2 = [] := by cbv
  have bodies : (resolve [] picksInLoop).1.bodies.tail = [pickedInLoop] := by cbv
  have slots : (resolve [] picksInLoop).1.namedClasses.map Prod.fst = [⟨0⟩] := by cbv
  have found : earlyReads (resolve [] picksInLoop).1 = [⟨.variable, ⟨4⟩, 7⟩] := by decide +kernel
  have never : (earlyReads script).count ⟨.variable, ⟨4⟩, 6⟩ = 0 := by
    rw [found]
    decide
  have own : ⟨4⟩ ∈ pickedInLoop.locals := List.mem_singleton_self _
  have body : pickedInLoop ∈ script.bodies := by
    refine List.mem_of_mem_tail ?_
    rw [bodies]
    exact List.mem_singleton_self _
  have reported (line : Line) (h : early line) :
      (earlyReads script).count ⟨.variable, ⟨4⟩, line⟩ = 1 :=
    (early_reads_exact [] picksInLoop fine pickedInLoop body ⟨4⟩ own line).1 h
  have unnamed (s : Slot) (h : s ≠ ⟨0⟩) : script.namedClasses.lookup s = none := by
    rw [List.lookup_eq_none_iff]
    intro c hc
    have mem : c.1 ∈ script.namedClasses.map Prod.fst := List.mem_map_of_mem hc
    rw [slots, List.mem_singleton] at mem
    simpa [mem] using h
  clear_value script
  have late : early 7 := by
    have read (s : Slot) (line : Line) (h : s ≠ ⟨0⟩) :
        (Expr.read s line).paths script.namedClasses [.reads s line] .through := by
      rw [Expr.paths, unnamed s h]
      exact .inl ⟨[.reads s line], [], ⟨rfl, rfl⟩, ⟨rfl, rfl⟩, rfl⟩
    refine ⟨[.forgets ⟨4⟩, .reads ⟨3⟩ 4, .reads ⟨4⟩ 7], .left, ?_, ?_⟩
    · refine .inl ⟨[.forgets ⟨4⟩], [.reads ⟨3⟩ 4, .reads ⟨4⟩ 7], ⟨rfl, rfl⟩, ?_, rfl⟩
      refine .inl ⟨[.reads ⟨3⟩ 4], [.reads ⟨4⟩ 7], .done (read _ _ (by decide)), ?_, rfl⟩
      exact .inr ⟨.inl ⟨[.reads ⟨4⟩ 7], [], read _ _ (by decide), ⟨rfl, rfl⟩, rfl⟩, rfl⟩
    · exact ⟨[.forgets ⟨4⟩, .reads ⟨3⟩ 4], .reads ⟨4⟩ 7, [], rfl, rfl, rfl, rfl⟩
  refine ⟨fine, body, own, ⟨late, reported 7 late⟩, fun h => ?_, never⟩
  have once := reported 6 h
  rw [never] at once
  exact absurd once (by decide)

end Ember
