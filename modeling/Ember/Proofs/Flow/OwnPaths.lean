/-
Paths through the bodies of an instance, on which a call of one of its own methods does
what a table of summaries says of the method, and what such paths make of one field.

* `Program.ownCall`: the steps of a call of an own method: what the method requires is
  read, then what it assigns is assigned;
* `Program.Expr.ownPaths`, `Program.Stmt.ownPaths`, `Program.Block.ownPaths`: the
  syntactic paths with such calls on them;
* `Paths.Lets`, `Paths.Early`: some path with a given end leaves a slot unassigned, and
  some path uses it while it is unassigned;
* `lets_andThen`, `early_andThen` and the like: how both are put together from the parts
  of a body, for a slot that no path forgets;
* `Program.Block.clean_ownPaths`: no path through a body forgets a slot that is no
  variable of it.
-/
import Mathlib
import Ember.Flow.State
import Ember.Proofs.Flow.Paths

namespace Ember

open Program

/-! ### Paths with calls of own methods -/

/-- The path with the given steps. -/
def Paths.steps (sts : List PathStep) : Paths := fun tr r => tr = sts ∧ r = .through

namespace Program

/-- What a call of an own method comes by, according to the summaries of the methods. -/
def ownCall (S : Summaries) (method : Selector) (line : Line) : List PathStep :=
  match S.lookup method with
  | none => []
  | some s => s.requires.map (.reads · line) ++ s.assigns.map .assigns

section Syntax

variable (named : List (Slot × ClassDecl)) (own : Slot) (S : Summaries)

mutual

/-- The paths through an expression in a body of the instance that `own` holds. -/
def Expr.ownPaths : Expr → Paths
  | .assign target value _ => value.ownPaths.andThen (.one (.assigns target))
  | .call receiver name arguments line =>
    (receiver.ownPaths.andThen
      (match arguments with | none => .idle | some es => exprOwnPaths es)).andThen
      (match receiver with
        | .read s _ =>
          if s = own then .steps (ownCall S ⟨name, arguments.map List.length⟩ line) else .idle
        | _ => .idle)
  | .literal _ _ => .idle
  | .read s line =>
    (Paths.one (.reads s line)).andThen
      (match named.lookup s with | none => .idle | some c => .one (.makes c line))
  | .logical _ left right _ => left.ownPaths.andThen (right.ownPaths.either .idle)
  | .cls decl => .one (.makes decl decl.line)

/-- The paths through expressions, from left to right. -/
def exprOwnPaths : List Expr → Paths
  | [] => .idle
  | e :: es => e.ownPaths.andThen (exprOwnPaths es)

end

mutual

/-- The paths through a statement in such a body. -/
def Stmt.ownPaths : Stmt → Paths
  | .block body => body.ownPaths
  | .branch condition yes no _ =>
    (condition.ownPaths named own S).andThen
      (yes.ownPaths.either (match no with | none => .idle | some s => s.ownPaths))
  | .loop condition body _ => .Rounds (condition.ownPaths named own S) body.ownPaths
  | .var s init _ =>
    match init with
    | none => .one (.forgets s)
    | some e => (e.ownPaths named own S).andThen (.one (.assigns s))
  | .ret value _ =>
    match value with
    | none => .leave
    | some e => (e.ownPaths named own S).andThen .leave
  | .eval e => e.ownPaths named own S

/-- The paths through statements, in order. -/
def stmtOwnPaths : List Stmt → Paths
  | [] => .idle
  | s :: ss => s.ownPaths.andThen (stmtOwnPaths ss)

/-- The paths through a block. -/
def Block.ownPaths : Block → Paths
  | ⟨statements, _, _⟩ => stmtOwnPaths statements

end

end Syntax

end Program

/-! ### One slot on a path that does not forget it -/

section Slot

variable {captures : Captures} {x : Slot} {line : Line} {tr tr' : List PathStep}

/-- A variable that is assigned and not forgotten stays assigned. -/
lemma unassignedAfter_false (h : .forgets x ∉ tr) : unassignedAfter x false tr = false :=
  Bool.eq_false_of_le_false (unassignedAfter_le h)

/-- A slot is unassigned after two parts of a path if either part leaves it so. -/
lemma unassignedAfter_append_true (h : .forgets x ∉ tr') :
    unassignedAfter x true (tr ++ tr') = true ↔
      unassignedAfter x true tr = true ∧ unassignedAfter x true tr' = true := by
  rw [unassignedAfter_append]
  cases unassignedAfter x true tr with
  | true => simp
  | false => simp [unassignedAfter_false h]

/-- A variable that is assigned and not forgotten is not used too early. -/
lemma not_hits_false (h : .forgets x ∉ tr) : ¬Hits captures x line false tr := by
  rintro ⟨before, st, rest, rfl, unassigned, -⟩
  rw [unassignedAfter_false fun mem => h (List.mem_append_left _ mem)] at unassigned
  cases unassigned

/-- A use of the unassigned slot in two parts of a path is one in the first part, or one
in the second after a first part that leaves the slot unassigned. -/
lemma hits_append_true (h : .forgets x ∉ tr') :
    Hits captures x line true (tr ++ tr') ↔ Hits captures x line true tr ∨
      unassignedAfter x true tr = true ∧ Hits captures x line true tr' := by
  rw [hits_append]
  cases unassignedAfter x true tr with
  | true => simp
  | false => simp [not_hits_false h]

end Slot

namespace Paths

/-- Some path with this end leaves a slot unassigned that was so before. -/
def Lets (x : Slot) (P : Paths) (r : PathEnd) : Prop :=
  ∃ tr, P tr r ∧ unassignedAfter x true tr = true

/-- Some path uses a slot while it is unassigned, as it was before. -/
def Early (captures : Captures) (x : Slot) (P : Paths) : Prop :=
  ∃ tr r line, P tr r ∧ Hits captures x line true tr

/-- There are paths, and none of them forgets a slot. -/
structure Clean (x : Slot) (P : Paths) : Prop where
  passes : ∃ tr r, P tr r
  keeps : P.Without (.forgets x)

section Parts

variable {captures : Captures} {x : Slot} {P Q : Paths} {r : PathEnd}

/-- The empty path forgets nothing. -/
lemma clean_idle : idle.Clean x := ⟨⟨[], .through, rfl, rfl⟩, without_idle⟩

/-- The path that leaves a body forgets nothing. -/
lemma clean_leave : leave.Clean x := ⟨⟨[], .left, rfl, rfl⟩, without_leave⟩

/-- A path of one step forgets nothing but what the step does. -/
lemma clean_one {st : PathStep} (h : .forgets x ≠ st) : (one st).Clean x :=
  ⟨⟨[st], .through, rfl, rfl⟩, without_one h⟩

/-- Clean paths one after the other are clean. -/
lemma Clean.andThen (h : P.Clean x) (h' : Q.Clean x) : (P.andThen Q).Clean x := by
  refine ⟨?_, h.keeps.andThen h'.keeps⟩
  obtain ⟨tr, r, hP⟩ := h.passes
  obtain ⟨tr', r', hQ⟩ := h'.passes
  cases r with
  | through => exact ⟨tr ++ tr', r', .inl ⟨tr, tr', hP, hQ, rfl⟩⟩
  | left => exact ⟨tr, .left, .inr ⟨hP, rfl⟩⟩

/-- Clean alternatives are clean. -/
lemma Clean.either (h : P.Clean x) (h' : Q.Clean x) : (P.either Q).Clean x :=
  ⟨h.passes.imp fun _ => Exists.imp fun _ => .inl, h.keeps.either h'.keeps⟩

/-- The rounds of a loop are clean if its condition and its body are. -/
lemma Clean.rounds (h : P.Clean x) (h' : Q.Clean x) (through : P.Through) :
    (Rounds P Q).Clean x := by
  refine ⟨?_, h.keeps.rounds h'.keeps⟩
  obtain ⟨tr, r, hP⟩ := h.passes
  cases through tr r hP
  exact ⟨tr, .through, .done hP⟩

/-- The empty path lets a slot through to its end. -/
lemma lets_idle : idle.Lets x r ↔ r = .through := by
  constructor
  · rintro ⟨tr, ⟨-, rfl⟩, -⟩
    rfl
  · rintro rfl
    exact ⟨[], ⟨rfl, rfl⟩, rfl⟩

/-- Nothing is used on the empty path. -/
lemma not_early_idle : ¬idle.Early captures x := by
  rintro ⟨tr, r, line, ⟨rfl, -⟩, hits⟩
  exact not_hits_nil hits

/-- The path that leaves a body lets a slot out of it. -/
lemma lets_leave : leave.Lets x r ↔ r = .left := by
  constructor
  · rintro ⟨tr, ⟨-, rfl⟩, -⟩
    rfl
  · rintro rfl
    exact ⟨[], ⟨rfl, rfl⟩, rfl⟩

/-- Nothing is used on the path that leaves a body. -/
lemma not_early_leave : ¬leave.Early captures x := by
  rintro ⟨tr, r, line, ⟨rfl, -⟩, hits⟩
  exact not_hits_nil hits

/-- Some steps let a slot through if they leave it unassigned. -/
lemma lets_steps {sts : List PathStep} :
    (steps sts).Lets x r ↔ r = .through ∧ unassignedAfter x true sts = true := by
  constructor
  · rintro ⟨tr, ⟨rfl, rfl⟩, unassigned⟩
    exact ⟨rfl, unassigned⟩
  · rintro ⟨rfl, unassigned⟩
    exact ⟨sts, ⟨rfl, rfl⟩, unassigned⟩

/-- Some steps use a slot too early if they do so on some line. -/
lemma early_steps {sts : List PathStep} :
    (steps sts).Early captures x ↔ ∃ line, Hits captures x line true sts := by
  constructor
  · rintro ⟨tr, r, line, ⟨rfl, -⟩, hits⟩
    exact ⟨line, hits⟩
  · rintro ⟨line, hits⟩
    exact ⟨sts, .through, line, ⟨rfl, rfl⟩, hits⟩

/-- One step lets a slot through if it leaves it unassigned. -/
lemma lets_one {st : PathStep} : (one st).Lets x r ↔ r = .through ∧ st.after x true = true :=
  lets_steps

/-- One step uses a slot too early if it uses it. -/
lemma early_one {st : PathStep} :
    (one st).Early captures x ↔ ∃ line, st.Uses captures x line := by
  refine early_steps.trans (exists_congr fun line => ?_)
  rw [hits_one, and_iff_right rfl]

/-- Paths one after the other let through what both let through, and let out what either
lets out. -/
lemma lets_andThen (h' : Q.Clean x) :
    (P.andThen Q).Lets x r ↔ P.Lets x .through ∧ Q.Lets x r ∨ r = .left ∧ P.Lets x .left := by
  constructor
  · rintro ⟨tr, ⟨tr₁, tr₂, hP, hQ, rfl⟩ | ⟨hP, rfl⟩, unassigned⟩
    · obtain ⟨first, second⟩ := (unassignedAfter_append_true (h'.keeps _ _ hQ)).1 unassigned
      exact .inl ⟨⟨tr₁, hP, first⟩, ⟨tr₂, hQ, second⟩⟩
    · exact .inr ⟨rfl, ⟨tr, hP, unassigned⟩⟩
  · rintro (⟨⟨tr₁, hP, first⟩, ⟨tr₂, hQ, second⟩⟩ | ⟨rfl, ⟨tr, hP, unassigned⟩⟩)
    · exact ⟨tr₁ ++ tr₂, .inl ⟨tr₁, tr₂, hP, hQ, rfl⟩,
        (unassignedAfter_append_true (h'.keeps _ _ hQ)).2 ⟨first, second⟩⟩
    · exact ⟨tr, .inr ⟨hP, rfl⟩, unassigned⟩

/-- A slot is used too early on the first path, or on the second one where the first lets it
through. -/
lemma early_andThen (h' : Q.Clean x) :
    (P.andThen Q).Early captures x ↔
      P.Early captures x ∨ P.Lets x .through ∧ Q.Early captures x := by
  constructor
  · rintro ⟨tr, r, line, ⟨tr₁, tr₂, hP, hQ, rfl⟩ | ⟨hP, -⟩, hits⟩
    · rcases (hits_append_true (h'.keeps _ _ hQ)).1 hits with hits | ⟨unassigned, hits⟩
      · exact .inl ⟨tr₁, .through, line, hP, hits⟩
      · exact .inr ⟨⟨tr₁, hP, unassigned⟩, ⟨tr₂, r, line, hQ, hits⟩⟩
    · exact .inl ⟨tr, .left, line, hP, hits⟩
  · rintro (⟨tr, r, line, hP, hits⟩ | ⟨⟨tr₁, hP, unassigned⟩, ⟨tr₂, r, line, hQ, hits⟩⟩)
    · cases r with
      | through =>
        obtain ⟨tr', r', hQ⟩ := h'.passes
        exact ⟨tr ++ tr', r', line, .inl ⟨tr, tr', hP, hQ, rfl⟩,
          (hits_append_true (h'.keeps _ _ hQ)).2 (.inl hits)⟩
      | left => exact ⟨tr, .left, line, .inr ⟨hP, rfl⟩, hits⟩
    · exact ⟨tr₁ ++ tr₂, r, line, .inl ⟨tr₁, tr₂, hP, hQ, rfl⟩,
        (hits_append_true (h'.keeps _ _ hQ)).2 (.inr ⟨unassigned, hits⟩)⟩

/-- Alternatives let through what one of them does. -/
lemma lets_either : (P.either Q).Lets x r ↔ P.Lets x r ∨ Q.Lets x r := by
  simp only [Lets, Paths.either, or_and_right, exists_or]

/-- A slot is used too early on one of the alternatives. -/
lemma early_either :
    (P.either Q).Early captures x ↔ P.Early captures x ∨ Q.Early captures x := by
  simp only [Early, Paths.either, or_and_right, exists_or]

/-- A loop leaves a slot unassigned if its condition does, and if it is left from its body
the body does too. -/
lemma lets_rounds (h : P.Clean x) (h' : Q.Clean x) :
    (Rounds P Q).Lets x r ↔ P.Lets x .through ∧ (r = .left → Q.Lets x .left) := by
  constructor
  · rintro ⟨tr, path, unassigned⟩
    induction path with
    | done hP => exact ⟨⟨_, hP, unassigned⟩, nofun⟩
    | again hP hQ rest ih =>
      exact ih ((unassignedAfter_append_true ((h.keeps.rounds h'.keeps) _ _ rest)).1 unassigned).2
    | left hP hQ =>
      obtain ⟨first, second⟩ := (unassignedAfter_append_true (h'.keeps _ _ hQ)).1 unassigned
      exact ⟨⟨_, hP, first⟩, fun _ => ⟨_, hQ, second⟩⟩
  · rintro ⟨⟨tr, hP, unassigned⟩, body⟩
    cases r with
    | through => exact ⟨tr, .done hP, unassigned⟩
    | left =>
      obtain ⟨tr', hQ, unassigned'⟩ := body rfl
      exact ⟨tr ++ tr', .left hP hQ,
        (unassignedAfter_append_true (h'.keeps _ _ hQ)).2 ⟨unassigned, unassigned'⟩⟩

/-- A slot is used early in a loop if it is in the condition, or in the body after a
condition that leaves it unassigned. More rounds make no difference. -/
lemma early_rounds (h : P.Clean x) (h' : Q.Clean x) (through : P.Through) :
    (Rounds P Q).Early captures x ↔
      P.Early captures x ∨ P.Lets x .through ∧ Q.Early captures x := by
  constructor
  · rintro ⟨tr, r, line, path, hits⟩
    induction path with
    | done hP => exact .inl ⟨_, .through, line, hP, hits⟩
    | again hP hQ rest ih =>
      rcases (hits_append_true ((h.keeps.rounds h'.keeps) _ _ rest)).1 hits with hits | ⟨-, hits⟩
      · rcases (hits_append_true (h'.keeps _ _ hQ)).1 hits with hits | ⟨unassigned, hits⟩
        · exact .inl ⟨_, .through, line, hP, hits⟩
        · exact .inr ⟨⟨_, hP, unassigned⟩, ⟨_, .through, line, hQ, hits⟩⟩
      · exact ih hits
    | left hP hQ =>
      rcases (hits_append_true (h'.keeps _ _ hQ)).1 hits with hits | ⟨unassigned, hits⟩
      · exact .inl ⟨_, .through, line, hP, hits⟩
      · exact .inr ⟨⟨_, hP, unassigned⟩, ⟨_, .left, line, hQ, hits⟩⟩
  · rintro (⟨tr, r, line, hP, hits⟩ | ⟨⟨tr₁, hP, unassigned⟩, ⟨tr₂, r, line, hQ, hits⟩⟩)
    · cases through tr r hP
      exact ⟨tr, .through, line, .done hP, hits⟩
    · have both : Hits captures x line true (tr₁ ++ tr₂) :=
        (hits_append_true (h'.keeps _ _ hQ)).2 (.inr ⟨unassigned, hits⟩)
      cases r with
      | through =>
        exact ⟨tr₁ ++ tr₂ ++ tr₁, .through, line, .again hP hQ (.done hP),
          (hits_append_true (h.keeps _ _ hP)).2 (.inl both)⟩
      | left => exact ⟨tr₁ ++ tr₂, .left, line, .left hP hQ, both⟩

/-! ### Calls of own methods -/

/-- Some steps leave no body. -/
lemma through_steps (sts : List PathStep) : (steps sts).Through := fun _ _ path => path.2

/-- Reads assign and forget nothing. -/
lemma unassignedAfter_reads (u : Bool) (ss : List Slot) (line : Line) :
    unassignedAfter x u (ss.map (.reads · line)) = u := by
  induction ss with
  | nil => rfl
  | cons s ss ih => exact ih

/-- Assignments leave unassigned what they do not assign. -/
lemma unassignedAfter_assigns (ss : List Slot) :
    unassignedAfter x true (ss.map .assigns) = true ↔ x ∉ ss := by
  induction ss with
  | nil => simp [unassignedAfter]
  | cons s ss ih =>
    have clean : .forgets x ∉ ss.map PathStep.assigns := by simp
    rw [List.map_cons, ← List.singleton_append, unassignedAfter_append_true clean, ih,
      List.mem_cons, not_or, eq_comm (a := x)]
    refine and_congr_left fun _ => ?_
    by_cases same : s = x <;> simp [unassignedAfter, PathStep.after, same]

/-- Reads on one line use what they read there. -/
lemma hits_reads {ss : List Slot} {line line' : Line} :
    Hits captures x line true (ss.map (.reads · line')) ↔ x ∈ ss ∧ line' = line := by
  induction ss with
  | nil => simp [not_hits_nil]
  | cons s ss ih =>
    rw [List.map_cons, hits_cons, List.mem_cons, eq_comm (a := x)]
    change true = true ∧ (s = x ∧ line' = line) ∨ Hits captures x line true _ ↔ _
    rw [ih]
    tauto

/-- Assignments use nothing. -/
lemma not_hits_assigns (u : Bool) (ss : List Slot) (line : Line) :
    ¬Hits captures x line u (ss.map .assigns) := by
  rintro ⟨before, st, rest, same, -, uses⟩
  have mem : st ∈ ss.map PathStep.assigns := same ▸ List.mem_append_right _ (List.mem_cons_self ..)
  obtain ⟨s, -, rfl⟩ := List.mem_map.1 mem
  exact uses

/-- The call of an own method forgets nothing. -/
lemma clean_ownCall (S : Summaries) (method : Selector) (line : Line) :
    (steps (ownCall S method line)).Clean x := by
  refine ⟨⟨_, .through, rfl, rfl⟩, ?_⟩
  rintro tr r ⟨rfl, -⟩
  rw [ownCall]
  cases S.lookup method <;> simp

/-- A call of an own method leaves a slot unassigned unless the method assigns it. -/
lemma lets_ownCall {S : Summaries} {method : Selector} {line : Line} :
    (steps (ownCall S method line)).Lets x r ↔
      r = .through ∧ ∀ s, S.lookup method = some s → x ∉ s.assigns := by
  rw [lets_steps, ownCall]
  refine and_congr_right fun _ => ?_
  cases known : S.lookup method with
  | none => simp [unassignedAfter]
  | some s =>
    rw [unassignedAfter_append, unassignedAfter_reads, unassignedAfter_assigns]
    constructor
    · rintro h t ⟨⟩
      exact h
    · exact fun h => h s rfl

/-- A call of an own method uses a slot that is unassigned if the method requires it. -/
lemma early_ownCall {S : Summaries} {method : Selector} {line : Line} :
    (steps (ownCall S method line)).Early captures x ↔
      ∃ s, S.lookup method = some s ∧ x ∈ s.requires := by
  rw [early_steps, ownCall]
  cases known : S.lookup method with
  | none => simp [not_hits_nil]
  | some s => simp [hits_append, hits_reads, not_hits_assigns]

end Parts

end Paths

/-! ### Paths through bodies -/

namespace Program

/-- A call is a call of the body's own methods if its receiver is the body's own. -/
lemma Expr.ownPaths_call (named : List (Slot × ClassDecl)) (own : Slot) (S : Summaries)
    (receiver : Expr) (name : String) (arguments : Option (List Expr)) (line : Line) :
    ((∃ l, receiver = .read own l) ∧
      (Expr.call receiver name arguments line).ownPaths named own S =
        ((receiver.ownPaths named own S).andThen
          (exprOwnPaths named own S (arguments.getD []))).andThen
            (.steps (ownCall S ⟨name, arguments.map List.length⟩ line))) ∨
    ((∀ l, receiver ≠ .read own l) ∧
      (Expr.call receiver name arguments line).ownPaths named own S =
        ((receiver.ownPaths named own S).andThen
          (exprOwnPaths named own S (arguments.getD []))).andThen .idle) := by
  cases receiver with
  | read s l =>
    by_cases same : s = own
    · subst same
      refine .inl ⟨⟨l, rfl⟩, ?_⟩
      cases arguments <;> exact congrArg _ (if_pos rfl)
    · refine .inr ⟨fun l' eq => ?_, ?_⟩
      · cases eq
        exact same rfl
      · cases arguments <;> exact congrArg _ (if_neg same)
  | assign _ _ _ | call _ _ _ _ | literal _ _ | logical _ _ _ _ | cls _ =>
    refine .inr ⟨nofun, ?_⟩
    cases arguments <;> rfl

variable {named : List (Slot × ClassDecl)} {own : Slot} {S : Summaries} {x : Slot}

mutual

/-- No path leaves a body within an expression. -/
lemma Expr.through_ownPaths : (e : Expr) → (e.ownPaths named own S).Through
  | .assign _ value _ => (Expr.through_ownPaths value).andThen (Paths.through_one _)
  | .call receiver name arguments line => by
    have before : ((receiver.ownPaths named own S).andThen
        (exprOwnPaths named own S (arguments.getD []))).Through := by
      cases arguments with
      | none => exact (Expr.through_ownPaths receiver).andThen Paths.through_idle
      | some es => exact (Expr.through_ownPaths receiver).andThen (exprThrough_ownPaths es)
    rcases Expr.ownPaths_call named own S receiver name arguments line with ⟨-, eq⟩ | ⟨-, eq⟩ <;>
      rw [eq]
    · exact before.andThen (Paths.through_steps _)
    · exact before.andThen Paths.through_idle
  | .literal _ _ => Paths.through_idle
  | .read s line => by
    rw [Expr.ownPaths]
    refine (Paths.through_one (.reads s line)).andThen ?_
    split
    · exact Paths.through_idle
    · exact Paths.through_one _
  | .logical _ left right _ =>
    (Expr.through_ownPaths left).andThen ((Expr.through_ownPaths right).either Paths.through_idle)
  | .cls _ => Paths.through_one _

/-- No path through expressions leaves the body, with own calls on it either. -/
lemma exprThrough_ownPaths : (es : List Expr) → (exprOwnPaths named own S es).Through
  | [] => Paths.through_idle
  | e :: es => (Expr.through_ownPaths e).andThen (exprThrough_ownPaths es)

end

mutual

/-- There are paths through an expression, and none forgets a slot. -/
lemma Expr.clean_ownPaths : (e : Expr) → (e.ownPaths named own S).Clean x
  | .assign _ value _ => (Expr.clean_ownPaths value).andThen (Paths.clean_one (by simp))
  | .call receiver name arguments line => by
    have before : ((receiver.ownPaths named own S).andThen
        (exprOwnPaths named own S (arguments.getD []))).Clean x := by
      cases arguments with
      | none => exact (Expr.clean_ownPaths receiver).andThen Paths.clean_idle
      | some es => exact (Expr.clean_ownPaths receiver).andThen (exprClean_ownPaths es)
    rcases Expr.ownPaths_call named own S receiver name arguments line with ⟨-, eq⟩ | ⟨-, eq⟩ <;>
      rw [eq]
    · exact before.andThen (Paths.clean_ownCall S _ line)
    · exact before.andThen Paths.clean_idle
  | .literal _ _ => Paths.clean_idle
  | .read s line => by
    have read : (Paths.one (.reads s line)).Clean x := Paths.clean_one (by simp)
    rw [Expr.ownPaths]
    refine read.andThen ?_
    split
    · exact Paths.clean_idle
    · exact Paths.clean_one (by simp)
  | .logical _ left right _ =>
    (Expr.clean_ownPaths left).andThen ((Expr.clean_ownPaths right).either Paths.clean_idle)
  | .cls _ => Paths.clean_one (by simp)

/-- Paths through expressions are clean. -/
lemma exprClean_ownPaths : (es : List Expr) → (exprOwnPaths named own S es).Clean x
  | [] => Paths.clean_idle
  | e :: es => (Expr.clean_ownPaths e).andThen (exprClean_ownPaths es)

end

mutual

/-- There are paths through a statement, and none forgets a slot that is no variable of
the statement. -/
lemma Stmt.clean_ownPaths : (s : Stmt) → x ∉ s.locals → (s.ownPaths named own S).Clean x
  | .block body, h => Block.clean_ownPaths body h
  | .branch condition yes none _, h =>
    (Expr.clean_ownPaths condition).andThen
      ((Stmt.clean_ownPaths yes fun hx => h (List.mem_append_left _ hx)).either Paths.clean_idle)
  | .branch condition yes (some no) _, h =>
    (Expr.clean_ownPaths condition).andThen
      ((Stmt.clean_ownPaths yes fun hx => h (List.mem_append_left _ hx)).either
        (Stmt.clean_ownPaths no fun hx => h (List.mem_append_right _ hx)))
  | .loop condition body _, h =>
    (Expr.clean_ownPaths condition).rounds (Stmt.clean_ownPaths body h)
      (Expr.through_ownPaths condition)
  | .var s none _, h => Paths.clean_one fun same => by
    cases same
    exact h (List.mem_singleton_self _)
  | .var s (some e) _, _ => (Expr.clean_ownPaths e).andThen (Paths.clean_one (by simp))
  | .ret none _, _ => Paths.clean_leave
  | .ret (some e) _, _ => (Expr.clean_ownPaths e).andThen Paths.clean_leave
  | .eval e, _ => Expr.clean_ownPaths e

/-- Paths through statements forget no slot that is not a variable of theirs. -/
lemma stmtClean_ownPaths : (ss : List Stmt) → x ∉ stmtLocals ss →
    (stmtOwnPaths named own S ss).Clean x
  | [], _ => Paths.clean_idle
  | s :: ss, h =>
    (Stmt.clean_ownPaths s fun hx => h (List.mem_append_left _ hx)).andThen
      (stmtClean_ownPaths ss fun hx => h (List.mem_append_right _ hx))

/-- Paths through a block forget no slot that is not a variable of it. -/
lemma Block.clean_ownPaths : (b : Block) → x ∉ b.locals → (b.ownPaths named own S).Clean x
  | ⟨statements, _, _⟩, h => stmtClean_ownPaths statements h

end

end Program

end Ember
