/-
Where control comes to in a body while a variable of it is unassigned.

* `Program.Stmt.targets`, `Program.ClassDecl.targets`: the slots that code assigns, seen
  from outside of the classes in it;
* `Program.ClassDecl.Touches`: a class reads or assigns a slot from outside, or mentions a
  class that does;
* `Paths.Leads`: paths through a part of a body go on to paths through the whole;
* `Stretch`: a part of a body with the paths through it; `Stretch.Within` says that control
  comes to one stretch inside another;
* `Stretch.Reached`: control comes to a stretch before the variable is assigned, and
  `Stretch.Shuns`: it has nothing to do with the variable;
* `Program.Block.TouchesEarly`, `Program.Script.Guards`: the value of a class that touches a
  variable comes about while it is unassigned; there is no such class for the variable.
-/
import Mathlib
import Ember.Proofs.Flow.Capturing
import Ember.Proofs.Flow.Paths

namespace Ember

open Program

/-! ### Slots that are assigned -/

namespace Program

mutual

/-- The slots that an expression assigns. -/
def Expr.targets : Expr → List Slot
  | .assign target value _ => target :: value.targets
  | .call receiver _ arguments _ =>
    receiver.targets ++ (match arguments with | none => [] | some es => exprTargets es)
  | .literal _ _ | .read _ _ | .cls _ => []
  | .logical _ left right _ => left.targets ++ right.targets

/-- The slots that expressions assign. -/
def exprTargets : List Expr → List Slot
  | [] => []
  | e :: es => e.targets ++ exprTargets es

end

mutual

/-- The slots that a statement assigns, the variable that it declares aside. -/
def Stmt.targets : Stmt → List Slot
  | .block body => body.targets
  | .branch condition yes no _ =>
    condition.targets ++ yes.targets ++ (match no with | none => [] | some s => s.targets)
  | .loop condition body _ => condition.targets ++ body.targets
  | .var _ init _ => match init with | none => [] | some e => e.targets
  | .ret value _ => match value with | none => [] | some e => e.targets
  | .eval e => e.targets

/-- The slots that statements assign. -/
def stmtTargets : List Stmt → List Slot
  | [] => []
  | s :: ss => s.targets ++ stmtTargets ss

/-- The slots that a block assigns. -/
def Block.targets : Block → List Slot
  | ⟨statements, _, _⟩ => stmtTargets statements

end

/-- The slots that the bodies of a class assign. -/
def ClassDecl.targets (c : ClassDecl) : List Slot := c.allMethods.flatMap fun m => m.body.targets

/-- A class touches a slot from outside: its bodies read or assign it, or a class that they
mention touches it, and the slot is declared nowhere in the class. -/
inductive ClassDecl.Touches (named : List (Slot × ClassDecl)) : ClassDecl → Slot → Prop
  | read {c : ClassDecl} {s : Slot} (h : .read s ∈ c.mentions) (outside : s ∉ c.slots) :
      Touches named c s
  | assign {c : ClassDecl} {s : Slot} (h : s ∈ c.targets) (outside : s ∉ c.slots) :
      Touches named c s
  | mention {c d : ClassDecl} {s : Slot} (h : c.Mentions named d) (later : Touches named d s)
      (outside : s ∉ c.slots) : Touches named c s

end Program

/-! ### Paths that go on -/

namespace Paths

variable {P Q R : Paths} {pre pre' tr : List PathStep}

/-- After certain steps paths go on to paths through more. -/
def Leads (pre : List PathStep) (Q P : Paths) : Prop :=
  ∀ tr r, Q tr r → ∃ rest r', P (pre ++ tr ++ rest) r'

/-- Paths go on to themselves. -/
lemma Leads.refl (P : Paths) : Leads [] P P := fun tr r path =>
  ⟨[], r, by simpa using path⟩

/-- Paths that go on to others go on to what these go on to. -/
lemma Leads.trans (h : Leads pre Q P) (h' : Leads pre' R Q) : Leads (pre ++ pre') R P := by
  intro tr r path
  obtain ⟨rest', r', path'⟩ := h' tr r path
  obtain ⟨rest, r'', path''⟩ := h _ r' path'
  refine ⟨rest' ++ rest, r'', ?_⟩
  simpa only [List.append_assoc] using path''

/-- The first part of a path, if the second has a path. -/
lemma leads_first (more : ∃ tr r, Q tr r) : Leads [] P (P.andThen Q) := by
  intro tr r path
  obtain ⟨tr', r', path'⟩ := more
  cases r with
  | through => exact ⟨tr', r', .inl ⟨tr, tr', path, path', rfl⟩⟩
  | left => exact ⟨[], .left, .inr ⟨by simpa using path, rfl⟩⟩

/-- The second part of a path, after a way through the first. -/
lemma leads_second (first : P pre .through) : Leads pre Q (P.andThen Q) := fun tr r path =>
  ⟨[], r, .inl ⟨pre, tr, first, path, List.append_nil _⟩⟩

/-- A path of the one of two alternatives. -/
lemma leads_left : Leads [] P (P.either Q) := fun tr r path =>
  ⟨[], r, .inl (by simpa using path)⟩

/-- A path of the other of two alternatives. -/
lemma leads_right : Leads [] Q (P.either Q) := fun tr r path =>
  ⟨[], r, .inr (by simpa using path)⟩

/-- The condition of a loop, where it ends the loop at once. -/
lemma leads_condition (through : P.Through) : Leads [] P (Rounds P Q) := by
  intro tr r path
  cases through tr r path
  exact ⟨[], .through, .done (by simpa using path)⟩

/-- The body of a loop, in its first round: another condition ends the loop. -/
lemma leads_round (condition : P pre .through) : Leads pre Q (Rounds P Q) := by
  intro tr r path
  cases r with
  | through => exact ⟨pre, .through, .again condition path (.done condition)⟩
  | left => exact ⟨[], .left, by simpa using Rounds.left condition path⟩

/-- One after another, paths go on. -/
lemma exists_andThen (first : ∃ tr, P tr .through) (second : ∃ tr, Q tr .through) :
    ∃ tr, (P.andThen Q) tr .through := by
  obtain ⟨tr, path⟩ := first
  obtain ⟨tr', path'⟩ := second
  exact ⟨tr ++ tr', .inl ⟨tr, tr', path, path', rfl⟩⟩

/-- Some path begins with any path of the first part. -/
lemma exists_of_first (first : ∃ tr r, P tr r) (more : ∃ tr r, Q tr r) :
    ∃ tr r, (P.andThen Q) tr r := by
  obtain ⟨tr, r, path⟩ := first
  obtain ⟨rest, r', path'⟩ := leads_first more tr r path
  exact ⟨_, r', path'⟩

end Paths

namespace Program

variable (named : List (Slot × ClassDecl))

mutual

/-- There is a path through every expression. -/
lemma Expr.exists_path : (e : Expr) → ∃ tr, e.paths named tr .through
  | .assign target value _ =>
    Paths.exists_andThen (Expr.exists_path value) ⟨[.assigns target], rfl, rfl⟩
  | .call receiver _ none _ => Paths.exists_andThen (Expr.exists_path receiver) ⟨[], rfl, rfl⟩
  | .call receiver _ (some es) _ =>
    Paths.exists_andThen (Expr.exists_path receiver) (exprExists_path es)
  | .literal _ _ => ⟨[], rfl, rfl⟩
  | .read s line => by
    rw [Expr.paths]
    refine Paths.exists_andThen ⟨[.reads s line], rfl, rfl⟩ ?_
    cases named.lookup s with
    | none => exact ⟨[], rfl, rfl⟩
    | some c => exact ⟨[.makes c line], rfl, rfl⟩
  | .logical _ left _ _ =>
    Paths.exists_andThen (Expr.exists_path left) ⟨[], .inr ⟨rfl, rfl⟩⟩
  | .cls decl => ⟨[.makes decl decl.line], rfl, rfl⟩

/-- There is a path through some expressions, one after the other. -/
lemma exprExists_path : (es : List Expr) → ∃ tr, exprPaths named es tr .through
  | [] => ⟨[], rfl, rfl⟩
  | e :: es => Paths.exists_andThen (Expr.exists_path e) (exprExists_path es)

end

/-- The path through an expression, whatever becomes of it later. -/
lemma Expr.exists_path_end (e : Expr) : ∃ tr r, e.paths named tr r :=
  (e.exists_path named).imp fun _ path => ⟨.through, path⟩

/-- There is a path through a conditional if there is one through a branch of it. -/
lemma Stmt.exists_through_branch {condition : Expr} {yes t : Stmt} {no : Option Stmt} {line : Line}
    (ht : t = yes ∨ no = some t) (through : ∃ tr, t.paths named tr .through) :
    ∃ tr, (Stmt.branch condition yes no line).paths named tr .through := by
  have first := condition.exists_path named
  rcases ht with rfl | rfl
  · cases no <;> exact Paths.exists_andThen first (through.imp fun _ => .inl)
  · exact Paths.exists_andThen first (through.imp fun _ => .inr)

/-- There is a path through the statement of a variable. -/
lemma Stmt.exists_through_var (s : Slot) (init : Option Expr) (line : Line) :
    ∃ tr, (Stmt.var s init line).paths named tr .through := by
  cases init with
  | none => exact ⟨[.forgets s], rfl, rfl⟩
  | some e => exact Paths.exists_andThen (e.exists_path named) ⟨[.assigns s], rfl, rfl⟩

mutual

/-- There is a path through every statement, or out of the body. -/
lemma Stmt.exists_path : (s : Stmt) → ∃ tr r, s.paths named tr r
  | .block body => Block.exists_path body
  | .branch condition yes none _ => by
    obtain ⟨tr, r, path⟩ := Stmt.exists_path yes
    exact Paths.exists_of_first (condition.exists_path_end named) ⟨tr, r, Or.inl path⟩
  | .branch condition yes (some _) _ => by
    obtain ⟨tr, r, path⟩ := Stmt.exists_path yes
    exact Paths.exists_of_first (condition.exists_path_end named) ⟨tr, r, Or.inl path⟩
  | .loop condition _ _ => by
    obtain ⟨tr, path⟩ := condition.exists_path named
    exact ⟨tr, .through, .done path⟩
  | .var s none _ => ⟨[.forgets s], .through, rfl, rfl⟩
  | .var s (some e) _ =>
    Paths.exists_of_first (e.exists_path_end named) ⟨[.assigns s], .through, rfl, rfl⟩
  | .ret none _ => ⟨[], .left, rfl, rfl⟩
  | .ret (some e) _ => Paths.exists_of_first (e.exists_path_end named) ⟨[], .left, rfl, rfl⟩
  | .eval e => e.exists_path_end named

/-- There is a path through some statements, or out of the body. -/
lemma stmtExists_path : (ss : List Stmt) → ∃ tr r, stmtPaths named ss tr r
  | [] => ⟨[], .through, rfl, rfl⟩
  | s :: ss => Paths.exists_of_first (Stmt.exists_path s) (stmtExists_path ss)

/-- There is a path through every block, or out of the body. -/
lemma Block.exists_path : (b : Block) → ∃ tr r, b.paths named tr r
  | ⟨statements, _, _⟩ => stmtExists_path statements

end

end Program

/-! ### Stretches -/

/-- A part of a body: the paths through it, what it mentions, the slots that it assigns and
the variables of the body that it declares. -/
structure Stretch extends Part where
  paths : Paths
  mentions : List Mention
  targets : List Slot
  locals : List Slot

namespace Program

variable (named : List (Slot × ClassDecl))

/-- The stretch of an expression, which declares no variables of the body. -/
def Expr.stretch (e : Expr) : Stretch := ⟨e.part named, e.paths named, e.mentions, e.targets, []⟩

/-- The stretch of expressions that are evaluated one after the other. -/
def exprStretch (es : List Expr) : Stretch :=
  ⟨exprPart named es, exprPaths named es, exprMentions es, exprTargets es, []⟩

/-- The stretch of a statement. -/
def Stmt.stretch (s : Stmt) : Stretch :=
  ⟨s.part named, s.paths named, s.mentions, s.targets, s.locals⟩

/-- The stretch of statements that are executed one after the other. -/
def stmtStretch (ss : List Stmt) : Stretch :=
  ⟨stmtPart named ss, stmtPaths named ss, stmtMentions ss, stmtTargets ss, stmtLocals ss⟩

/-- The stretch of a block. -/
def Block.stretch (b : Block) : Stretch :=
  ⟨b.part named, b.paths named, b.mentions, b.targets, b.locals⟩

end Program

namespace Stretch

/-- What is visible around a stretch leaves room for what it declares, and a variable is not
visible there. -/
def Hides (p : Stretch) (x : Slot) (v : List Slot) : Prop :=
  x ∉ v ∧ p.closed v ∧ LeavesRoom v p.roles

/-- Control comes to one stretch inside another without assigning a variable on the way, as
long as the variable is not visible. -/
structure Within (x : Slot) (q p : Stretch) : Prop where
  classes : q.classes ⊆ p.classes
  mentions : q.mentions ⊆ p.mentions
  targets : q.targets ⊆ p.targets
  locals : q.locals ⊆ p.locals
  hides : ∀ v, p.Hides x v → ∃ w, q.Hides x w
  leads : ∀ v, p.Hides x v → ∃ pre, .assigns x ∉ pre ∧ Paths.Leads pre q.paths p.paths

/-- Control comes to a stretch of the body that declares a variable, while the variable is
unassigned and not visible. -/
def Reached (script : Script) (x : Slot) (p : Stretch) : Prop :=
  ∃ b ∈ script.bodies, x ∈ b.locals ∧ (∃ v, p.Hides x v) ∧
    ∃ before, unassignedAfter x true before = true ∧
      Paths.Leads before p.paths (b.paths script.namedClasses)

/-- A stretch mentions neither a variable nor a class that touches it. -/
structure Shuns (named : List (Slot × ClassDecl)) (x : Slot) (p : Stretch) : Prop where
  reads : .read x ∉ p.mentions
  assigns : x ∉ p.targets
  classes : ∀ m ∈ p.mentions, ∀ d, Captures.mentioned? named m = some d → ¬d.Touches named x

variable {script : Script} {named : List (Slot × ClassDecl)} {x : Slot} {p q : Stretch}

/-- Where control comes to a stretch, it comes to each stretch within it. -/
lemma Reached.within (reached : p.Reached script x) (within : Within x q p) :
    q.Reached script x := by
  obtain ⟨b, hb, hx, ⟨v, hides⟩, before, unassigned, leads⟩ := reached
  obtain ⟨pre, without, leads'⟩ := within.leads v hides
  refine ⟨b, hb, hx, within.hides v hides, before ++ pre, ?_, leads.trans leads'⟩
  rw [unassignedAfter_append, unassigned]
  exact unassignedAfter_eq_true without

/-- Where control comes, there is room for what is declared there. -/
lemma Reached.room (reached : p.Reached script x) : ∃ v, LeavesRoom v p.roles := by
  obtain ⟨-, -, -, ⟨v, -, -, room⟩, -⟩ := reached
  exact ⟨v, room⟩

/-- A stretch that mentions and assigns no more. -/
lemma Shuns.mono (shuns : p.Shuns named x) (mentions : q.mentions ⊆ p.mentions)
    (targets : q.targets ⊆ p.targets) : q.Shuns named x :=
  ⟨fun h => shuns.reads (mentions h), fun h => shuns.assigns (targets h),
    fun m hm => shuns.classes m (mentions hm)⟩

end Stretch

namespace Program

variable {named : List (Slot × ClassDecl)} {x : Slot}

/-- The bodies of a class that does not touch a variable have nothing to do with it. -/
lemma ClassDecl.shuns_body {c : ClassDecl} (free : ¬c.Touches named x) (outside : x ∉ c.slots)
    {m : Method} (hm : m ∈ c.allMethods) : (m.body.stretch named).Shuns named x := by
  have mentions {y : Mention} (hy : y ∈ m.body.mentions) : y ∈ c.mentions :=
    List.mem_flatMap.2 ⟨m, hm, hy⟩
  refine ⟨fun h => free (.read (mentions h) outside), fun h => ?_, fun y hy d known touches => ?_⟩
  · exact free (.assign (List.mem_flatMap.2 ⟨m, hm, h⟩) outside)
  · exact free (.mention ⟨y, mentions hy, known⟩ touches outside)

end Program

/-! ### Parts of expressions -/

section Within

variable {named : List (Slot × ClassDecl)} {x : Slot}

namespace Stretch

/-- Part of a stretch that control comes to at once. -/
lemma Within.atOnce {p q : Stretch} (classes : q.classes ⊆ p.classes)
    (mentions : q.mentions ⊆ p.mentions) (targets : q.targets ⊆ p.targets)
    (locals : q.locals ⊆ p.locals) (roles : q.roles.Sublist p.roles)
    (closed : ∀ v, p.closed v → q.closed v) (leads : Paths.Leads [] q.paths p.paths) :
    Within x q p :=
  ⟨classes, mentions, targets, locals,
    fun v hides => ⟨v, hides.1, closed v hides.2.1, hides.2.2.sublist roles⟩,
    fun _ _ => ⟨[], List.not_mem_nil, leads⟩⟩

/-- Part of a stretch that control comes to after an expression. -/
lemma Within.after (named : List (Slot × ClassDecl)) (e : Expr) {p q : Stretch}
    (classes : q.classes ⊆ p.classes) (mentions : q.mentions ⊆ p.mentions)
    (targets : q.targets ⊆ p.targets) (locals : q.locals ⊆ p.locals)
    (roles : q.roles.Sublist p.roles) (closed : ∀ v, p.closed v → e.Closed true v ∧ q.closed v)
    (leads : ∀ tr, e.paths named tr .through → Paths.Leads tr q.paths p.paths) :
    Within x q p := by
  refine ⟨classes, mentions, targets, locals,
    fun v hides => ⟨v, hides.1, (closed v hides.2.1).2, hides.2.2.sublist roles⟩,
    fun v hides => ?_⟩
  obtain ⟨tr, path⟩ := e.exists_path named
  exact ⟨tr, e.without_assigns hides.1 (closed v hides.2.1).1 tr _ path, leads tr path⟩

end Stretch

open Stretch (Within)

/-- The value of an assignment is evaluated before anything is assigned. -/
lemma within_assign (target : Slot) (value : Expr) (line : Line) :
    Within x (value.stretch named) ((Expr.assign target value line).stretch named) :=
  .atOnce (List.Subset.refl _) (List.Subset.refl _)
    (List.subset_cons_self _ _) (List.Subset.refl _) (List.Sublist.refl _) (fun _ h => h.2)
    (Paths.leads_first ⟨[.assigns target], .through, rfl, rfl⟩)

/-- The receiver of a call is evaluated first. -/
lemma within_receiver (receiver : Expr) (name : String) (arguments : Option (List Expr))
    (line : Line) :
    Within x (receiver.stretch named)
      ((Expr.call receiver name arguments line).stretch named) := by
  cases arguments with
  | none =>
    exact .atOnce (List.subset_append_left _ _) (List.subset_append_left _ _)
      (List.subset_append_left _ _) (List.Subset.refl _) (List.sublist_append_left _ _)
      (fun _ h => h.1) (Paths.leads_first ⟨[], .through, rfl, rfl⟩)
  | some es =>
    obtain ⟨tr, path⟩ := exprExists_path named es
    exact .atOnce (List.subset_append_left _ _) (List.subset_append_left _ _)
      (List.subset_append_left _ _) (List.Subset.refl _) (List.sublist_append_left _ _)
      (fun _ h => h.1) (Paths.leads_first ⟨tr, .through, path⟩)

/-- The arguments of a call are evaluated after its receiver. -/
lemma within_arguments (receiver : Expr) (name : String) (es : List Expr) (line : Line) :
    Within x (exprStretch named es)
      ((Expr.call receiver name (some es) line).stretch named) :=
  .after named receiver (List.subset_append_right _ _)
    (List.subset_append_right _ _) (List.subset_append_right _ _) (List.Subset.refl _)
    (List.sublist_append_right _ _) (fun _ h => h) fun _ path => Paths.leads_second path

/-- The left operand of a connective is evaluated first. -/
lemma within_left (op : Connective) (left right : Expr) (line : Line) :
    Within x (left.stretch named) ((Expr.logical op left right line).stretch named) :=
  .atOnce (List.subset_append_left _ _) (List.subset_append_left _ _)
    (List.subset_append_left _ _) (List.Subset.refl _) (List.sublist_append_left _ _)
    (fun _ h => h.1) (Paths.leads_first ⟨[], .through, .inr ⟨rfl, rfl⟩⟩)

/-- The right operand of a connective is evaluated after the left one, if at all. -/
lemma within_right (op : Connective) (left right : Expr) (line : Line) :
    Within x (right.stretch named) ((Expr.logical op left right line).stretch named) :=
  .after named left (List.subset_append_right _ _)
    (List.subset_append_right _ _) (List.subset_append_right _ _) (List.Subset.refl _)
    (List.sublist_append_right _ _) (fun _ h => h) fun tr path => by
      have leads := (Paths.leads_second path).trans
        (Paths.leads_left (P := right.paths named) (Q := .idle))
      rwa [List.append_nil] at leads

/-- The first of some expressions is evaluated first. -/
lemma within_head (e : Expr) (es : List Expr) :
    Within x (e.stretch named) (exprStretch named (e :: es)) := by
  obtain ⟨tr, path⟩ := exprExists_path named es
  exact .atOnce (List.subset_append_left _ _) (List.subset_append_left _ _)
    (List.subset_append_left _ _) (List.Subset.refl _) (List.sublist_append_left _ _)
    (fun _ h => h.1) (Paths.leads_first ⟨tr, .through, path⟩)

/-- The other expressions are evaluated after the first one. -/
lemma within_tail (e : Expr) (es : List Expr) :
    Within x (exprStretch named es) (exprStretch named (e :: es)) :=
  .after named e (List.subset_append_right _ _)
    (List.subset_append_right _ _) (List.subset_append_right _ _) (List.Subset.refl _)
    (List.sublist_append_right _ _) (fun _ h => h) fun _ path => Paths.leads_second path

/-! ### Parts of statements -/

/-- The initializer of a variable is evaluated before the variable is assigned. -/
lemma within_var (s : Slot) (e : Expr) (line : Line) :
    Within x (e.stretch named) ((Stmt.var s (some e) line).stretch named) :=
  .atOnce (List.Subset.refl _) (List.Subset.refl _) (List.Subset.refl _) (List.nil_subset _)
    (List.sublist_cons_self _ _) (fun _ h => h)
    (Paths.leads_first ⟨[.assigns s], .through, rfl, rfl⟩)

/-- What is returned is evaluated before control leaves the body. -/
lemma within_ret (e : Expr) (line : Line) :
    Within x (e.stretch named) ((Stmt.ret (some e) line).stretch named) :=
  .atOnce (List.Subset.refl _) (List.Subset.refl _) (List.Subset.refl _) (List.nil_subset _)
    (List.Sublist.refl _) (fun _ h => h) (Paths.leads_first ⟨[], .left, rfl, rfl⟩)

/-- An expression that is a statement is all that is evaluated. -/
lemma within_eval (e : Expr) : Within x (e.stretch named) ((Stmt.eval e).stretch named) :=
  .atOnce (List.Subset.refl _) (List.Subset.refl _) (List.Subset.refl _) (List.Subset.refl _)
    (List.Sublist.refl _) (fun _ h => h) (Paths.Leads.refl _)

/-- A block that is a statement is all that is executed. -/
lemma within_inner (body : Block) :
    Within x (body.stretch named) ((Stmt.block body).stretch named) :=
  .atOnce (List.Subset.refl _) (List.Subset.refl _) (List.Subset.refl _) (List.Subset.refl _)
    (List.Sublist.refl _) (fun _ h => h) (Paths.Leads.refl _)

/-- The condition of a conditional is evaluated first, and either branch may follow. -/
lemma within_branch (named : List (Slot × ClassDecl)) (x : Slot) (condition : Expr) (yes : Stmt)
    (no : Option Stmt) (line : Line) :
    Within x (condition.stretch named) ((Stmt.branch condition yes no line).stretch named) ∧
      ∀ s, s = yes ∨ no = some s →
        Within x (s.stretch named) ((Stmt.branch condition yes no line).stretch named) := by
  have left {α : Type} {xs ys zs : List α} : xs.Sublist (xs ++ ys ++ zs) :=
    (List.sublist_append_left _ _).trans (List.sublist_append_left _ _)
  have middle {α : Type} {xs ys zs : List α} : ys.Sublist (xs ++ ys ++ zs) :=
    (List.sublist_append_right _ _).trans (List.sublist_append_left _ _)
  have inside := inside_branch named condition yes no line
  -- the first branch can be passed, so what comes after the condition is reached
  obtain ⟨tr, r, path⟩ := yes.exists_path named
  cases no with
  | none =>
    refine ⟨.atOnce inside.1.classes left.subset left.subset (List.nil_subset _) left
      (fun _ h => h.1) (Paths.leads_first ⟨tr, r, Or.inl path⟩), fun s same => ?_⟩
    cases same.resolve_right nofun
    exact .after named condition inside.2.1.classes middle.subset middle.subset
      (List.subset_append_left _ _) middle (fun _ h => ⟨h.1, h.2.1.2⟩) fun tr path => by
        have leads := (Paths.leads_second path).trans
          (Paths.leads_left (P := yes.paths named) (Q := .idle))
        rwa [List.append_nil] at leads
  | some no =>
    refine ⟨.atOnce inside.1.classes left.subset left.subset (List.nil_subset _) left
      (fun _ h => h.1) (Paths.leads_first ⟨tr, r, Or.inl path⟩), fun s same => ?_⟩
    rcases same with rfl | same
    · exact .after named condition inside.2.1.classes middle.subset
        middle.subset (List.subset_append_left _ _) middle (fun _ h => ⟨h.1, h.2.1.2⟩)
        fun tr path => by
          have leads := (Paths.leads_second path).trans
            (Paths.leads_left (P := s.paths named) (Q := no.paths named))
          rwa [List.append_nil] at leads
    · cases same
      exact .after named condition (inside.2.2 no rfl).classes
        (List.subset_append_right _ _) (List.subset_append_right _ _)
        (List.subset_append_right _ _) (List.sublist_append_right _ _)
        (fun _ h => ⟨h.1, h.2.2.2⟩) fun tr path => by
          have leads := (Paths.leads_second path).trans
            (Paths.leads_right (P := yes.paths named) (Q := no.paths named))
          rwa [List.append_nil] at leads

/-- The condition of a loop is evaluated first, and its body may follow. -/
lemma within_loop (named : List (Slot × ClassDecl)) (x : Slot) (condition : Expr) (body : Stmt)
    (line : Line) :
    Within x (condition.stretch named) ((Stmt.loop condition body line).stretch named) ∧
      Within x (body.stretch named) ((Stmt.loop condition body line).stretch named) :=
  ⟨.atOnce (List.subset_append_left _ _) (List.subset_append_left _ _)
      (List.subset_append_left _ _) (List.nil_subset _) (List.sublist_append_left _ _)
      (fun _ h => h.1) (Paths.leads_condition condition.through),
    .after named condition (List.subset_append_right _ _)
      (List.subset_append_right _ _) (List.subset_append_right _ _) (List.Subset.refl _)
      (List.sublist_append_right _ _) (fun _ h => ⟨h.1, h.2.2⟩) fun _ path =>
        Paths.leads_round path⟩

/-- The first of some statements is executed first. -/
lemma within_first (s : Stmt) (ss : List Stmt) :
    Within x (s.stretch named) (stmtStretch named (s :: ss)) :=
  .atOnce (List.subset_append_left _ _) (List.subset_append_left _ _)
    (List.subset_append_left _ _) (List.subset_append_left _ _) (List.sublist_append_left _ _)
    (fun _ h => h.1) (Paths.leads_first (stmtExists_path named ss))

/-- Control comes to the rest of some statements after the first one, if it can get through
that and the variable is not declared in it. -/
lemma within_rest {s : Stmt} {ss : List Stmt} {tr : List PathStep}
    (path : s.paths named tr .through) (fresh : x ∉ s.roles.map Prod.fst) :
    Within x (stmtStretch named ss) (stmtStretch named (s :: ss)) := by
  have inside : (stmtPart named ss).Inside (stmtPart named (s :: ss)) := (inside_stmts s ss).2
  have own : x ∉ s.own := fun mem => fresh (List.count_pos_iff.1
    (Nat.lt_of_lt_of_le (List.count_pos_iff.2 mem) (s.count_own_le x)))
  refine ⟨inside.classes, List.subset_append_right _ _, List.subset_append_right _ _,
    List.subset_append_right _ _, fun v hides => ?_, fun v hides => ?_⟩
  · obtain ⟨hx, closed, room⟩ := hides
    refine ⟨s.own ++ v, fun mem => (List.mem_append.1 mem).elim own hx, closed.2,
      leavesRoom_rest room⟩
  · exact ⟨tr, s.without_assigns hides.1 fresh hides.2.1.1 tr _ path, Paths.leads_second path⟩

/-- Control comes to the statements of a block at once. -/
lemma within_statements {b : Block} (fresh : x ∉ b.classSlots) :
    Within x (stmtStretch named b.statements) (b.stretch named) := by
  obtain ⟨statements, names, classes⟩ := b
  refine ⟨List.subset_append_right _ _, List.subset_append_right _ _, List.Subset.refl _,
    List.Subset.refl _, fun v hides => ?_, fun _ _ => ⟨[], List.not_mem_nil, .refl _⟩⟩
  obtain ⟨hx, closed, room⟩ := hides
  exact ⟨classes.map Prod.fst ++ v, fun mem => (List.mem_append.1 mem).elim fresh hx, closed.1,
    leavesRoom_statements (b := ⟨statements, names, classes⟩) room⟩

end Within

/-- The variables that statements declare in the scope around them are variables of the
body. -/
lemma Program.own_subset_stmtLocals (ss : List Stmt) : ss.flatMap Stmt.own ⊆ stmtLocals ss := by
  induction ss with
  | nil => exact List.Subset.refl _
  | cons s ss ih =>
    have own : s.own ⊆ s.locals := by
      cases s with
      | var t init line => exact List.Subset.refl _
      | block _ | branch _ _ _ _ | loop _ _ _ | ret _ _ | eval _ => exact List.nil_subset _
    exact List.append_subset.2
      ⟨List.subset_append_of_subset_left _ own, List.subset_append_of_subset_right _ ih⟩

/-! ### Variables that are guarded -/

/-- The value of a class comes about on a path through a body while a variable is
unassigned, and the class touches the variable. -/
def Program.Block.TouchesEarly (named : List (Slot × ClassDecl)) (x : Slot) (c : ClassDecl)
    (line : Line) (b : Block) : Prop :=
  ∃ before rest r, b.paths named (before ++ .makes c line :: rest) r ∧
    unassignedAfter x true before = true ∧ c.Touches named x

/-- A variable of a program in which each slot is declared once and seen only where it is
declared. No class that touches the variable comes about in its body while it is
unassigned. -/
structure Program.Script.Guards (script : Script) (x : Slot) : Prop where
  once : script.slots.Nodup
  closed : script.root.Closed true (script.globals.map Prod.fst)
  var : (x, .var) ∈ script.roles
  early : ∀ b ∈ script.bodies, x ∈ b.locals → ∀ c line,
    ¬b.TouchesEarly script.namedClasses x c line

section Guards

variable {script : Script} {x : Slot}

/-- A guarded variable has no other role. -/
lemma Program.Script.Guards.role_eq (guards : script.Guards x) {role : SlotRole}
    (h : (x, role) ∈ script.roles) : role = .var :=
  congrArg Prod.snd (List.inj_on_of_nodup_map guards.once h guards.var rfl)

/-- Where control enters the body that declares a variable, the variable is unassigned. -/
lemma Program.Script.Guards.reached_body (guards : script.Guards x) {b : Block}
    (hb : b ∈ script.bodies) (hx : x ∈ b.locals) :
    (b.stretch script.namedClasses).Reached script x := by
  obtain ⟨v, closed, room⟩ := housed_of_mem_bodies guards.once guards.closed hb
  exact ⟨b, hb, hx, ⟨v, room.not_mem (b.var_of_mem_locals hx), closed, room⟩, [], rfl, .refl _⟩

namespace Stretch.Reached

/-- Control comes to no read of a variable before it is visible. -/
lemma not_read {line : Line}
    (reached : ((Expr.read x line).stretch script.namedClasses).Reached script x) : False := by
  obtain ⟨b, -, -, ⟨v, outside, closed, -⟩, -⟩ := reached
  exact outside closed

/-- Control comes to no assignment to a variable before it is visible. -/
lemma not_assign {value : Expr} {line : Line}
    (reached : ((Expr.assign x value line).stretch script.namedClasses).Reached script x) :
    False := by
  obtain ⟨b, -, -, ⟨v, outside, closed, -⟩, -⟩ := reached
  exact outside closed.1

/-- A class whose value comes about while a guarded variable is unassigned. -/
lemma free {p : Stretch} (guards : script.Guards x) (reached : p.Reached script x)
    {before : List PathStep} {c : ClassDecl} {line : Line} {rest : List PathStep} {r : PathEnd}
    (path : p.paths (before ++ .makes c line :: rest) r) (without : .assigns x ∉ before) :
    ¬c.Touches script.namedClasses x := by
  intro touches
  obtain ⟨b, hb, hx, -, before', unassigned, leads⟩ := reached
  obtain ⟨rest', r', path'⟩ := leads _ _ path
  refine guards.early b hb hx c line ⟨before' ++ before, rest ++ rest', r', ?_, ?_, touches⟩
  · simpa only [List.append_assoc, List.cons_append] using path'
  · rw [unassignedAfter_append, unassigned]
    exact unassignedAfter_eq_true without

/-- A declared class that is read while a guarded variable is unassigned. -/
lemma free_read (guards : script.Guards x) {s : Slot} {line : Line} {c : ClassDecl}
    (known : script.namedClasses.lookup s = some c)
    (reached : ((Expr.read s line).stretch script.namedClasses).Reached script x) :
    ¬c.Touches script.namedClasses x := by
  have path : (Expr.read s line).paths script.namedClasses
      ([.reads s line] ++ .makes c line :: []) .through := by
    rw [Expr.paths, known]
    exact .inl ⟨[.reads s line], [.makes c line], ⟨rfl, rfl⟩, ⟨rfl, rfl⟩, rfl⟩
  exact reached.free guards path fun mem => by cases List.mem_singleton.1 mem

/-- A class that is made in place while a guarded variable is unassigned. -/
lemma free_cls (guards : script.Guards x) {c : ClassDecl}
    (reached : ((Expr.cls c).stretch script.namedClasses).Reached script x) :
    ¬c.Touches script.namedClasses x :=
  have path : (Expr.cls c).paths script.namedClasses ([] ++ .makes c c.line :: []) .through :=
    ⟨rfl, rfl⟩
  reached.free guards path List.not_mem_nil

end Stretch.Reached

end Guards

end Ember
