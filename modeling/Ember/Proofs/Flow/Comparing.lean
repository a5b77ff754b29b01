/-
Summaries that say more of what is needed and less of what is given.

* `Summary.Below`, `Summaries.Below`: less is required and more is assigned;
* `Summaries.Regular.below_merge`, `Summaries.Regular.eq_of_below`: what is found of a
  method leads upwards, and summaries that are below each other are the same;
* `Paths.Weaker`: some paths use a slot early or leave it unassigned only if others do;
* `Program.Block.weaker`: under summaries that require more and assign less, the paths
  through a body use more fields early and assign fewer of them.
-/
import Mathlib
import Ember.Proofs.Flow.Findings
import Ember.Proofs.Flow.OwnPaths
import Ember.Proofs.Scope.Plain

namespace Ember

open Program

/-! ### The order of summaries -/

/-- A summary requires no more than another and assigns no less. -/
def Summary.Below (s t : Summary) : Prop := s.requires ⊆ t.requires ∧ t.assigns ⊆ s.assigns

/-- Each summary of a table is below that of the same method in another. -/
def Summaries.Below (S T : Summaries) : Prop :=
  ∀ method, Option.Rel Summary.Below (S.lookup method) (T.lookup method)

lemma Summary.Below.refl (s : Summary) : s.Below s := ⟨List.Subset.refl _, List.Subset.refl _⟩

lemma Summary.Below.trans {s t u : Summary} (h : s.Below t) (h' : t.Below u) : s.Below u :=
  ⟨List.Subset.trans h.1 h'.1, List.Subset.trans h'.2 h.2⟩

namespace Summary

variable {fields : List Slot} {s t u found : Summary}

/-- More is required and less is assigned after something is found. -/
lemma Regular.below_merge (h : s.Regular fields) (found : Summary) :
    s.Below (s.merge fields found) :=
  ⟨fun _ hf => mem_requires_merge.2 ⟨h.mem_requires hf, .inl hf⟩,
    fun _ hf => (mem_assigns_merge.1 hf).2.1⟩

/-- What is found and what was known before are all that is added. -/
lemma Below.merge (h : s.Below u) (h' : found.Below u) (among : ∀ f ∈ u.assigns, f ∈ fields) :
    (s.merge fields found).Below u := by
  refine ⟨fun f hf => ?_, fun f hf => ?_⟩
  · exact (mem_requires_merge.1 hf).2.elim (h.1 ·) (h'.1 ·)
  · exact mem_assigns_merge.2 ⟨among f hf, h.2 hf, h'.2 hf⟩

/-- Summaries that are below each other are the same. -/
lemma Regular.eq_of_below (h : s.Regular fields) (h' : t.Regular fields) (below : s.Below t)
    (above : t.Below s) : s = t := by
  have requires : s.requires = t.requires := by
    rw [h.1, h'.1]
    exact List.filter_congr fun f _ => decide_eq_decide.2 ⟨(below.1 ·), (above.1 ·)⟩
  have assigns : s.assigns = t.assigns := by
    rw [h.2, h'.2]
    exact List.filter_congr fun f _ => decide_eq_decide.2 ⟨(above.2 ·), (below.2 ·)⟩
  calc s = ⟨s.requires, s.assigns⟩ := rfl
    _ = t := by rw [requires, assigns]

end Summary

namespace Summaries

variable {fields : List Slot} {methods : List Method} {S T : Summaries} {k : Selector}
  {s t : Summary}

/-- A method that the smaller table knows is known to the larger one as well. -/
lemma Below.of_left (h : S.Below T) (known : S.lookup k = some s) :
    ∃ t, T.lookup k = some t ∧ s.Below t := by
  have entry := h k
  rw [known] at entry
  cases ht : T.lookup k with
  | none => rw [ht] at entry; cases entry
  | some t =>
    rw [ht] at entry
    cases entry with
    | some below => exact ⟨t, rfl, below⟩

/-- A method that the larger table knows is known to the smaller one as well. -/
lemma Below.of_right (h : S.Below T) (known : T.lookup k = some t) :
    ∃ s, S.lookup k = some s ∧ s.Below t := by
  have entry := h k
  rw [known] at entry
  cases hs : S.lookup k with
  | none => rw [hs] at entry; cases entry
  | some s =>
    rw [hs] at entry
    cases entry with
    | some below => exact ⟨s, rfl, below⟩

/-- To begin with, nothing is required and everything is assigned. -/
lemma of_lookup_start (known : (start fields methods).lookup k = some s) :
    s = ⟨[], fields⟩ ∧ ∃ m ∈ methods, m.selector = k := by
  obtain ⟨m, hm, eq⟩ := List.mem_map.1 (mem_of_lookup known)
  cases eq
  exact ⟨rfl, m, hm, rfl⟩

/-- What becomes of the entries when something is found of one of the methods. -/
lemma lookup_merge (method : Selector) (found : Summary) (k : Selector) :
    (S.merge fields method found).lookup k =
      (S.lookup k).map fun s => if k = method then s.merge fields found else s := by
  refine Eq.trans ?_ (lookup_map_values
    (fun k (s : Summary) => if k = method then s.merge fields found else s) S k)
  refine congrArg (List.lookup k) (List.map_congr_left fun x _ => ?_)
  dsimp only
  split <;> rfl

/-- More is required and less is assigned after something is found of a method. -/
lemma Regular.below_merge (regular : S.Regular fields methods) (method : Selector)
    (found : Summary) : S.Below (S.merge fields method found) := by
  intro k
  rw [lookup_merge]
  cases known : S.lookup k with
  | none => exact .none
  | some s =>
    have entry : s.Regular fields := regular.entries _ (mem_of_lookup known)
    by_cases same : k = method
    · simp only [Option.map_some, if_pos same]
      exact .some (entry.below_merge found)
    · simp only [Option.map_some, if_neg same]
      exact .some (.refl s)

/-- Tables that are below each other are the same. -/
lemma Regular.eq_of_below (unambiguous : Unambiguous methods) (h : S.Regular fields methods)
    (h' : T.Regular fields methods) (below : S.Below T) (above : T.Below S) : S = T := by
  have once : (S.map Prod.fst).Nodup := h.keys ▸ unambiguous
  refine eq_of_lookup (h.keys.trans h'.keys.symm) once fun method => ?_
  cases hs : S.lookup method with
  | none =>
    cases ht : T.lookup method with
    | none => rfl
    | some t =>
      obtain ⟨s, hs', -⟩ := below.of_right ht
      exact absurd hs' (by simp [hs])
  | some s =>
    obtain ⟨t, ht, first⟩ := below.of_left hs
    obtain ⟨s', hs', second⟩ := above.of_left ht
    cases hs.symm.trans hs'
    have sRegular : s.Regular fields := h.entries _ (mem_of_lookup hs)
    have tRegular : t.Regular fields := h'.entries _ (mem_of_lookup ht)
    rw [ht, sRegular.eq_of_below tRegular first second]

end Summaries

namespace Paths

variable {captures : Captures} {x : Slot} {P P' Q Q' : Paths}

/-- What some paths may leave unassigned or use early, so may others. -/
structure Weaker (captures : Captures) (x : Slot) (P P' : Paths) : Prop where
  lets : ∀ r, P.Lets x r → P'.Lets x r
  early : P.Early captures x → P'.Early captures x

namespace Weaker

lemma refl (P : Paths) : Weaker captures x P P := ⟨fun _ => id, id⟩

/-- What goes on to paths that may leave or use less may do less itself. -/
lemma andThen (h : Weaker captures x P P') (h' : Weaker captures x Q Q') (clean : Q.Clean x)
    (clean' : Q'.Clean x) : Weaker captures x (P.andThen Q) (P'.andThen Q') where
  lets r := by
    rw [lets_andThen clean, lets_andThen clean']
    exact Or.imp (And.imp (h.lets _) (h'.lets _)) (And.imp_right (h.lets _))
  early := by
    rw [early_andThen clean, early_andThen clean']
    exact Or.imp h.early (And.imp (h.lets _) h'.early)

/-- Each way of a branch compares with the same way of the other. -/
lemma either (h : Weaker captures x P P') (h' : Weaker captures x Q Q') :
    Weaker captures x (P.either Q) (P'.either Q') where
  lets r := by
    rw [lets_either, lets_either]
    exact Or.imp (h.lets r) (h'.lets r)
  early := by
    rw [early_either, early_either]
    exact Or.imp h.early h'.early

/-- Loops compare if their conditions and their bodies do. -/
lemma rounds (h : Weaker captures x P P') (h' : Weaker captures x Q Q') (clean : P.Clean x)
    (clean' : Q.Clean x) (through : P.Through) (cleanP' : P'.Clean x) (cleanQ' : Q'.Clean x)
    (through' : P'.Through) : Weaker captures x (Rounds P Q) (Rounds P' Q') where
  lets r := by
    rw [lets_rounds clean clean', lets_rounds cleanP' cleanQ']
    exact And.imp (h.lets _) fun body left => h'.lets _ (body left)
  early := by
    rw [early_rounds clean clean' through, early_rounds cleanP' cleanQ' through']
    exact Or.imp h.early (And.imp (h.lets _) h'.early)

/-- A call of an own method under summaries that require less and assign more. -/
lemma ownCall {S T : Summaries} (below : S.Below T) (method : Selector) (line : Line) :
    Weaker captures x (.steps (ownCall S method line))
      (.steps (Program.ownCall T method line)) := by
  constructor
  · intro r
    rw [lets_ownCall, lets_ownCall]
    refine And.imp_right fun unassigned t known mem => ?_
    obtain ⟨s, known', entry⟩ := below.of_right known
    exact unassigned s known' (entry.2 mem)
  · rw [early_ownCall, early_ownCall]
    rintro ⟨s, known, mem⟩
    obtain ⟨t, known', entry⟩ := below.of_left known
    exact ⟨t, known', entry.1 mem⟩

end Weaker

end Paths

namespace Program

section Monotone

variable {named : List (Slot × ClassDecl)} {captures : Captures} {own x : Slot} {S T : Summaries}

mutual

/-- Smaller summaries of the own methods leave less unassigned on the paths of an
expression. -/
lemma Expr.weaker (below : S.Below T) : (e : Expr) →
    Paths.Weaker captures x (e.ownPaths named own S) (e.ownPaths named own T)
  | .assign _ value _ =>
    (Expr.weaker below value).andThen (.refl _) (Paths.clean_one (by simp))
      (Paths.clean_one (by simp))
  | .call receiver name arguments line => by
    have before : Paths.Weaker captures x
        ((receiver.ownPaths named own S).andThen (exprOwnPaths named own S (arguments.getD [])))
        ((receiver.ownPaths named own T).andThen
          (exprOwnPaths named own T (arguments.getD []))) := by
      cases arguments with
      | none =>
        exact (Expr.weaker below receiver).andThen (.refl _) Paths.clean_idle Paths.clean_idle
      | some es =>
        exact (Expr.weaker below receiver).andThen (exprWeaker below es) (exprClean_ownPaths es)
          (exprClean_ownPaths es)
    rcases Expr.ownPaths_call named own S receiver name arguments line with
        ⟨isOwn, eq⟩ | ⟨other, eq⟩ <;>
      rcases Expr.ownPaths_call named own T receiver name arguments line with
        ⟨isOwn', eq'⟩ | ⟨other', eq'⟩ <;> rw [eq, eq']
    · exact before.andThen (.ownCall below _ line) (Paths.clean_ownCall ..) (Paths.clean_ownCall ..)
    · obtain ⟨l, rfl⟩ := isOwn
      exact absurd rfl (other' l)
    · obtain ⟨l, rfl⟩ := isOwn'
      exact absurd rfl (other l)
    · exact before.andThen (.refl _) Paths.clean_idle Paths.clean_idle
  | .literal _ _ => .refl _
  | .read _ _ => .refl _
  | .logical _ left right _ =>
    (Expr.weaker below left).andThen ((Expr.weaker below right).either (.refl _))
      ((Expr.clean_ownPaths right).either Paths.clean_idle)
      ((Expr.clean_ownPaths right).either Paths.clean_idle)
  | .cls _ => .refl _

/-- The same for expressions one after the other. -/
lemma exprWeaker (below : S.Below T) : (es : List Expr) →
    Paths.Weaker captures x (exprOwnPaths named own S es) (exprOwnPaths named own T es)
  | [] => .refl _
  | e :: es =>
    (Expr.weaker below e).andThen (exprWeaker below es) (exprClean_ownPaths es)
      (exprClean_ownPaths es)

end

mutual

/-- The same for a statement, in which the field is not declared anew. -/
lemma Stmt.weaker (below : S.Below T) : (s : Stmt) → x ∉ s.locals →
    Paths.Weaker captures x (s.ownPaths named own S) (s.ownPaths named own T)
  | .block body, h => Block.weaker below body h
  | .branch condition yes none _, h => by
    have hyes : x ∉ yes.locals := fun hx => h (List.mem_append_left _ hx)
    exact (Expr.weaker below condition).andThen ((Stmt.weaker below yes hyes).either (.refl _))
      ((Stmt.clean_ownPaths yes hyes).either Paths.clean_idle)
      ((Stmt.clean_ownPaths yes hyes).either Paths.clean_idle)
  | .branch condition yes (some no) _, h => by
    have hyes : x ∉ yes.locals := fun hx => h (List.mem_append_left _ hx)
    have hno : x ∉ no.locals := fun hx => h (List.mem_append_right _ hx)
    exact (Expr.weaker below condition).andThen
      ((Stmt.weaker below yes hyes).either (Stmt.weaker below no hno))
      ((Stmt.clean_ownPaths yes hyes).either (Stmt.clean_ownPaths no hno))
      ((Stmt.clean_ownPaths yes hyes).either (Stmt.clean_ownPaths no hno))
  | .loop condition body _, h =>
    (Expr.weaker below condition).rounds (Stmt.weaker below body h)
      (Expr.clean_ownPaths condition) (Stmt.clean_ownPaths body h)
      (Expr.through_ownPaths condition) (Expr.clean_ownPaths condition)
      (Stmt.clean_ownPaths body h) (Expr.through_ownPaths condition)
  | .var _ none _, _ => .refl _
  | .var _ (some e) _, _ =>
    (Expr.weaker below e).andThen (.refl _) (Paths.clean_one (by simp)) (Paths.clean_one (by simp))
  | .ret none _, _ => .refl _
  | .ret (some e) _, _ =>
    (Expr.weaker below e).andThen (.refl _) Paths.clean_leave Paths.clean_leave
  | .eval e, _ => Expr.weaker below e

/-- The same for statements one after the other. -/
lemma stmtWeaker (below : S.Below T) : (ss : List Stmt) → x ∉ stmtLocals ss →
    Paths.Weaker captures x (stmtOwnPaths named own S ss) (stmtOwnPaths named own T ss)
  | [], _ => .refl _
  | s :: ss, h => by
    have hs : x ∉ s.locals := fun hx => h (List.mem_append_left _ hx)
    have hss : x ∉ stmtLocals ss := fun hx => h (List.mem_append_right _ hx)
    exact (Stmt.weaker below s hs).andThen (stmtWeaker below ss hss) (stmtClean_ownPaths ss hss)
      (stmtClean_ownPaths ss hss)

/-- With summaries that require more and assign less, a body may use more fields early and
leave more of them unassigned. -/
lemma Block.weaker (below : S.Below T) : (b : Block) → x ∉ b.locals →
    Paths.Weaker captures x (b.ownPaths named own S) (b.ownPaths named own T)
  | ⟨statements, _, _⟩, h => stmtWeaker below statements h

end

end Monotone

end Program

end Ember
