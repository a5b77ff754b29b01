/-
Keeping accounts of the slots that resolution hands out.

* `Scopes.heldBy`: the slots that a state itself accounts for: those of the
  globals, of the fields of open classes, and what a given function says of each
  open scope;
* `Resolve.Accounts`: a step that turns the slots of `before` and the ones it
  hands out into those of its answer, none of them counted twice, with the rules
  that put such steps together;
* `accounts_namedSlot`, `accounts_withFields` and their like: the steps for which
  it does not matter what a scope accounts for.
-/
import Mathlib
import Ember.Proofs.Scope.Closure

namespace Ember

open Program

namespace Scopes

/-- The slots that the state itself accounts for, where `ofScope` are those that
an open scope does. -/
def heldBy (ofScope : Scope → List Slot) (st : Scopes) : List Slot :=
  st.globals.map Prod.fst ++ (st.fieldScopes.flatMap (fun f => f.fields.map Prod.fst) ++
    st.scopes.flatMap ofScope)

/-- Whether a slot has been handed out between two states, as a count. -/
def window (st st' : Scopes) (s : Slot) : Nat :=
  if st.nextSlot.index ≤ s.index ∧ s.index < st'.nextSlot.index then 1 else 0

/-- Between a state and itself no slot is handed out. -/
lemma window_self (st : Scopes) (s : Slot) : st.window st s = 0 := by
  rw [window, if_neg (by omega)]

/-- Slots that are handed out in two parts are handed out in both together. -/
lemma window_add {st st' st'' : Scopes} (h : st.nextSlot.index ≤ st'.nextSlot.index)
    (h' : st'.nextSlot.index ≤ st''.nextSlot.index) (s : Slot) :
    st.window st' s + st'.window st'' s = st.window st'' s := by
  simp only [window]
  split <;> split <;> split <;> omega

/-- A slot is handed out once. -/
lemma window_le_one (st st' : Scopes) (s : Slot) : st.window st' s ≤ 1 := by
  rw [window]
  split <;> omega

end Scopes

namespace Resolve

variable {α β : Type} {ofScope : Scope → List Slot} {before : List Slot} {x : Resolve α}
  {f : α → Resolve β} {after₁ : α → List Slot} {after₂ : β → List Slot}

/-- A step that answers with slots, with multiplicity, out of those of `before`,
those that the state gives up, and new ones. -/
def AccountsAt (ofScope : Scope → List Slot) (st : Scopes) (before : List Slot) (x : Resolve α)
    (slots : α → List Slot) : Prop :=
  st.nextSlot.index ≤ (x.after st).nextSlot.index ∧
    ∀ s, (slots (x.answer st)).count s + ((x.after st).heldBy ofScope).count s ≤
      before.count s + (st.heldBy ofScope).count s + st.window (x.after st) s

/-- The same wherever the step starts. -/
def Accounts (ofScope : Scope → List Slot) (before : List Slot) (x : Resolve α)
    (slots : α → List Slot) : Prop :=
  ∀ st, AccountsAt ofScope st before x slots

/-! ### Rules -/

/-- An answer that is at hand accounts for no more than there was. -/
lemma Accounts.pure {a : α} (h : ∀ s, (after₁ a).count s ≤ before.count s) :
    Accounts ofScope before (pure a) after₁ := by
  refine fun st => ⟨le_refl _, fun s => ?_⟩
  have := h s
  simp only [answer_pure, after_pure, Scopes.window_self]
  omega

/-- What a first step answers for, the second one may use. -/
lemma AccountsAt.bind {st : Scopes} (hx : AccountsAt ofScope st before x after₁)
    (hf : AccountsAt ofScope (x.after st) (after₁ (x.answer st)) (f (x.answer st)) after₂) :
    AccountsAt ofScope st before (x >>= f) after₂ := by
  obtain ⟨next, count⟩ := hx
  obtain ⟨next', count'⟩ := hf
  refine ⟨next.trans next', fun s => ?_⟩
  have h := count s
  have h' := count' s
  have hw := Scopes.window_add next next' s
  simp only [answer_bind, after_bind]
  omega

/-- Steps in any state, one after the other. -/
lemma Accounts.bind (hx : Accounts ofScope before x after₁)
    (hf : ∀ a, Accounts ofScope (after₁ a) (f a) after₂) :
    Accounts ofScope before (x >>= f) after₂ :=
  fun st => (hx st).bind (hf _ _)

/-- There may be more before, and less may be answered for. -/
lemma AccountsAt.imp {st : Scopes} {before' : List Slot} {after' : α → List Slot}
    (hx : AccountsAt ofScope st before x after₁) (hb : ∀ s, before.count s ≤ before'.count s)
    (ha : ∀ s, (after' (x.answer st)).count s ≤ (after₁ (x.answer st)).count s) :
    AccountsAt ofScope st before' x after' := by
  obtain ⟨next, count⟩ := hx
  refine ⟨next, fun s => ?_⟩
  have h := count s
  have h₁ := hb s
  have h₂ := ha s
  omega

/-- The same for steps in any state. -/
lemma Accounts.imp {before' : List Slot} {after' : α → List Slot}
    (hx : Accounts ofScope before x after₁) (hb : ∀ s, before.count s ≤ before'.count s)
    (ha : ∀ a s, (after' a).count s ≤ (after₁ a).count s) : Accounts ofScope before' x after' :=
  fun st => (hx st).imp hb (ha _)

/-- Slots that a step does not touch are carried over it. -/
lemma Accounts.carry (carried : List Slot) (hx : Accounts ofScope before x after₁) :
    Accounts ofScope (carried ++ before) x fun a => carried ++ after₁ a := by
  intro st
  obtain ⟨next, count⟩ := hx st
  refine ⟨next, fun s => ?_⟩
  have h := count s
  simp only [List.count_append]
  omega

/-- A step that needs no slots, followed by others that use those it hands out. -/
lemma Accounts.andThen {carried : List Slot} (hx : Accounts ofScope [] x after₁)
    (hf : ∀ a, Accounts ofScope (carried ++ after₁ a) (f a) after₂) :
    Accounts ofScope carried (x >>= f) after₂ :=
  ((hx.carry carried).imp (fun s => by simp) fun _ _ => le_refl _).bind hf

/-- A step that keeps all slots in the state, followed by others. -/
lemma Accounts.thenNone (hx : Accounts ofScope [] x fun _ => [])
    (hf : ∀ a, Accounts ofScope before (f a) after₂) : Accounts ofScope before (x >>= f) after₂ :=
  hx.andThen fun a => by
    rw [List.append_nil]
    exact hf a

/-- An answer without slots. -/
lemma accounts_none (a : α) : Accounts ofScope [] (pure a) fun _ => ([] : List Slot) :=
  .pure fun _ => le_refl _

/-- A slot that is handed out may be kept in the state. -/
lemma Accounts.stow {store : α → Resolve β} (hx : Accounts ofScope before x fun a => after₁ a)
    (hs : ∀ a (st : Scopes), ((store a).after st).nextSlot = st.nextSlot ∧
      ∀ s, (((store a).after st).heldBy ofScope).count s ≤
        (after₁ a).count s + (st.heldBy ofScope).count s) :
    Accounts ofScope before (x >>= store) fun _ => [] := by
  refine hx.bind fun a st => ?_
  obtain ⟨next, count⟩ := hs a st
  refine ⟨(congrArg Slot.index next).ge, fun s => ?_⟩
  have := count s
  simp only [List.count_nil]
  omega

/-- A step that hands out no slot and keeps what is held. -/
lemma accounts_of_held (h : ∀ st : Scopes, (x.after st).nextSlot = st.nextSlot ∧
    (x.after st).heldBy ofScope = st.heldBy ofScope) : Accounts ofScope [] x fun _ => [] := by
  intro st
  obtain ⟨next, held⟩ := h st
  refine ⟨(congrArg Slot.index next).ge, fun s => ?_⟩
  rw [held]
  simp

/-! ### Primitive steps -/

/-- A fresh slot is answered for. -/
lemma accounts_fresh : Accounts ofScope [] fresh fun s => [s] := by
  refine fun st => ⟨Nat.le_succ _, fun s => ?_⟩
  have held : (fresh.after st).heldBy ofScope = st.heldBy ofScope := rfl
  have window : st.window (fresh.after st) s = if st.nextSlot = s then 1 else 0 := by
    have next : (fresh.after st).nextSlot.index = st.nextSlot.index + 1 := rfl
    have same : st.nextSlot.index = s.index ↔ st.nextSlot = s := by
      rw [Slot.mk.injEq]
    rw [Scopes.window, next]
    by_cases e : st.nextSlot = s
    · rw [if_pos e, if_pos (by have := same.2 e; omega)]
    · rw [if_neg e, if_neg (fun h => e (same.1 (by omega)))]
  have answer : fresh.answer st = st.nextSlot := rfl
  rw [held, window, answer, List.count_singleton]
  simp only [beq_iff_eq, List.count_nil]
  omega

/-- A report hands out no slot. -/
lemma accounts_report (p : ScopeProblem) : Accounts ofScope [] (report p) fun _ => [] :=
  accounts_of_held fun _ => ⟨rfl, rfl⟩

/-- A step before which a mistake may be noted. -/
lemma accounts_reportIf (c : Prop) [Decidable c] (p : ScopeProblem)
    (hx : Accounts ofScope before x after₁) :
    Accounts ofScope before (if c then (do report p; x) else x) after₁ := by
  by_cases h : c
  · simp only [if_pos h]
    exact (accounts_report p).thenNone fun _ => hx
  · simp only [if_neg h]
    exact hx

/-- A global that is made is held by the state. -/
lemma accounts_makeGlobal (name : Name) (used : Bool) :
    Accounts ofScope [] (makeGlobal name used) fun _ => [] := by
  refine accounts_fresh.stow fun slot st => ⟨rfl, fun s => ?_⟩
  simp only [after_bind, after_modify, after_pure, Scopes.heldBy, List.map_append, List.map_cons,
    List.map_nil, List.count_append]
  omega

/-- A hole is filled with a slot that the state holds. -/
lemma accounts_fillHole (name : Name) : Accounts ofScope [] (fillHole name) fun _ => [] :=
  accounts_makeGlobal name true

/-- A mistake whose hole is filled. -/
lemma accounts_hole (p : ScopeProblem) (name : Name) :
    Accounts ofScope [] (do report p; fillHole name) fun _ => [] :=
  (accounts_report p).thenNone fun _ => accounts_fillHole name

/-- A change of the innermost scope, which may account for some slots more. -/
lemma accounts_modifyInnermost {g : Scope → Scope} {more : List Slot}
    (h : ∀ s t, (ofScope (g s)).count t ≤ more.count t + (ofScope s).count t) :
    Accounts ofScope more (modifyInnermost g) fun _ => [] := by
  intro st
  obtain ⟨next, scopes, globalScope, fieldScopes, enclosing, globals, problems⟩ := st
  cases scopes with
  | nil =>
    exact ⟨le_refl _, fun t =>
      Nat.le_add_right_of_le (Nat.add_le_add_right (Nat.zero_le _) _)⟩
  | cons s rest =>
    refine ⟨le_refl _, fun t => ?_⟩
    have := h s t
    simp only [modifyInnermost, after_modify, Scopes.heldBy, List.flatMap_cons, List.count_append,
      List.count_nil]
    omega

/-- A scope that is opened holds nothing. -/
lemma accounts_openScope (empty : ofScope .empty = []) :
    Accounts ofScope [] openScope fun _ => [] :=
  accounts_of_held fun st => ⟨rfl, by
    change Scopes.heldBy ofScope { st with scopes := .empty :: st.scopes } = _
    rw [Scopes.heldBy, Scopes.heldBy, List.flatMap_cons, empty]
    rfl⟩

/-- What an open scope accounts for is given back when it is closed. -/
lemma accounts_closeScope (empty : ofScope .empty = []) :
    Accounts ofScope [] closeScope ofScope := by
  intro st
  refine ⟨le_refl _, fun s => ?_⟩
  obtain ⟨next, scopes, globalScope, fieldScopes, enclosing, globals, problems⟩ := st
  cases scopes with
  | nil =>
    have answer : closeScope.answer
        ⟨next, [], globalScope, fieldScopes, enclosing, globals, problems⟩ = .empty := rfl
    rw [answer, empty]
    exact Nat.le_add_right _ _
  | cons scope rest =>
    obtain ⟨answer, after⟩ := after_closeScope (show (Scopes.mk next (scope :: rest) globalScope
      fieldScopes enclosing globals problems).scopes = scope :: rest from rfl)
    rw [after, answer]
    simp only [Scopes.heldBy, List.count_append, List.flatMap_cons, List.count_nil]
    omega

/-- What is done in a scope of its own gives back what that scope accounts for. -/
lemma Accounts.enclosed {slots : α → List Slot} (empty : ofScope .empty = [])
    (hx : Accounts ofScope before x slots) (make : α → Scope → β) (made : β → List Slot)
    (h : ∀ a scope s, (made (make a scope)).count s ≤ (slots a ++ ofScope scope).count s) :
    Accounts ofScope before (do openScope; let a ← x; let scope ← closeScope; return make a scope)
      made :=
  (accounts_openScope empty).thenNone fun _ => hx.bind fun a =>
    (accounts_closeScope empty).andThen fun scope => .pure (h a scope)

/-! ### Uses of names -/

/-- Scopes that are the same hold the same. -/
lemma flatMap_same (same : ∀ s t, s.Same t → ofScope t = ofScope s) {scopes scopes' : List Scope}
    (h : List.Forall₂ Scope.Same scopes scopes') :
    scopes'.flatMap ofScope = scopes.flatMap ofScope := by
  induction h with
  | nil => rfl
  | cons hs _ ih => rw [List.flatMap_cons, List.flatMap_cons, ih, same _ _ hs]

/-- What is found by name keeps its place. -/
lemma accounts_lookup? (same : ∀ s t, s.Same t → ofScope t = ofScope s) (t : String) :
    Accounts ofScope [] (lookup? t) fun _ => [] := by
  refine accounts_of_held fun st => ?_
  rw [after, run_lookup?]
  cases hu : useIn st.enclosing t st.scopes with
  | some found =>
    obtain ⟨b, scopes⟩ := found
    refine ⟨rfl, ?_⟩
    simp only [Scopes.heldBy, flatMap_same same (useIn_some false hu).1]
  | none => cases st.globalScope.find? t <;> exact ⟨rfl, rfl⟩

/-- A field that is added is one more. -/
lemma count_addField (side : Side) (slot : Slot) (name : String) (fs : List FieldScope) (s : Slot) :
    ((addField side (slot, name) fs).flatMap fun f => f.fields.map Prod.fst).count s ≤
      [slot].count s + (fs.flatMap fun f => f.fields.map Prod.fst).count s := by
  induction fs with
  | nil => exact Nat.zero_le _
  | cons f rest ih =>
    rw [addField]
    split
    · simp only [List.flatMap_cons, List.map_append, List.map_cons, List.map_nil, List.count_append]
      omega
    · simp only [List.flatMap_cons, List.count_append] at ih ⊢
      omega

/-- A look-up of a field adds it to its side, if at all. -/
lemma accounts_field? (side : Side) (name : String) :
    Accounts ofScope [] (field? side name) fun _ => [] := by
  refine (accounts_of_held (x := get) fun _ => ⟨rfl, rfl⟩).bind fun st₀ => ?_
  split
  · exact .pure fun _ => le_refl _
  · split
    · exact .pure fun _ => le_refl _
    · refine accounts_fresh.stow fun slot st => ⟨rfl, fun s => ?_⟩
      have := count_addField side slot name st.fieldScopes s
      simp only [after_bind, after_modify, after_pure, Scopes.heldBy, List.count_append]
      omega

/-- A use of a variable keeps the slot of a global, if one is made. -/
lemma accounts_namedSlot (same : ∀ s t, s.Same t → ofScope t = ofScope s) (name : Name) :
    Accounts ofScope [] (namedSlot name) fun _ => [] := by
  refine (accounts_lookup? same name.text).thenNone fun o => ?_
  cases o with
  | none =>
    exact (accounts_report _).thenNone fun _ =>
      (accounts_fillHole name).thenNone fun _ => accounts_none _
  | some b => exact accounts_reportIf _ _ (accounts_none _)

/-- A variable that is assigned to is accounted for as any other use. -/
lemma accounts_assigned (same : ∀ s t, s.Same t → ofScope t = ofScope s) (name : Name) :
    Accounts ofScope [] (assigned name) fun _ => [] :=
  (accounts_namedSlot same name).thenNone fun _ => accounts_reportIf _ _ (accounts_none _)

/-- A field of a class is added to its side, if at all. -/
lemma accounts_staticField (name : Name) : Accounts ofScope [] (staticField name) fun _ => [] := by
  refine (accounts_field? _ _).thenNone fun o => ?_
  cases o with
  | none => exact accounts_hole _ name
  | some slot => exact accounts_none slot

/-- A field of an instance is added to its side, if at all. -/
lemma accounts_instanceField (name : Name) :
    Accounts ofScope [] (instanceField name) fun _ => [] := by
  refine (accounts_of_held (x := get) fun _ => ⟨rfl, rfl⟩).thenNone fun st => ?_
  split
  · exact accounts_hole _ name
  · exact accounts_hole _ name
  · refine (accounts_field? _ _).thenNone fun o => ?_
    cases o with
    | none => exact accounts_fillHole name
    | some slot => exact accounts_none slot

/-- A receiver is already accounted for. -/
lemma accounts_thisSlot (line : Line) : Accounts ofScope [] (thisSlot line) fun _ => [] := by
  refine (accounts_of_held (x := receiver?) fun _ => ⟨rfl, rfl⟩).thenNone fun o => ?_
  cases o with
  | none => exact accounts_hole _ _
  | some slot => exact accounts_none slot

/-- What is assigned to, where all slots of a part of the program that is given up
are given up too. -/
lemma accounts_resolveTarget (same : ∀ s t, s.Same t → ofScope t = ofScope s)
    {target : Syntax.Expr} {slots : Expr → List Slot}
    (h : Accounts ofScope [] (resolveExpr target) slots) :
    Accounts ofScope [] (resolveTarget target) fun _ => [] := by
  have hole : Accounts ofScope [] (do
      report (.invalidTarget target.line)
      let _ ← resolveExpr target
      fillHole ⟨"<invalid>", target.line⟩) fun _ => [] :=
    (accounts_report _).thenNone fun _ =>
      (h.imp (fun _ => le_refl _) fun _ _ => Nat.zero_le _).thenNone fun _ => accounts_fillHole _
  cases target with
  | «variable» name => exact accounts_assigned same name
  | field name => exact accounts_instanceField name
  | staticField name => exact accounts_staticField name
  | assign _ _ _ | call _ _ _ _ | literal _ _ | this _ | logical _ _ _ _ => exact hole

/-! ### Classes -/

/-- What is done on a side of a class answers for the fields of that side in the end. -/
lemma accounts_withFields {side : FieldScope} {walk : Resolve α} {slots : α → List Slot}
    (evolves : ∀ st : Scopes, st.Evolves (walk.after st))
    (hwalk : Accounts ofScope before walk slots) :
    Accounts ofScope (side.fields.map Prod.fst ++ before) (withFields side walk) fun r =>
      r.2.fields.map Prod.fst ++ slots r.1 := by
  intro st
  obtain ⟨side', rest', _, _, e, answer, after⟩ :=
    run_withFields side (evolves { st with fieldScopes := side :: st.fieldScopes })
  obtain ⟨next, count⟩ := hwalk { st with fieldScopes := side :: st.fieldScopes }
  rw [AccountsAt, answer, after]
  refine ⟨next, fun s => ?_⟩
  have h := count s
  simp only [Scopes.heldBy, e, List.flatMap_cons, List.count_append, Scopes.window] at h ⊢
  omega

/-- What is done inside of a class is accounted for in the same way. -/
lemma accounts_insideClass {slot : Slot} {walk : Resolve α} {slots : α → List Slot}
    (hwalk : Accounts ofScope before walk slots) :
    Accounts ofScope before (insideClass slot walk) slots :=
  fun st => hwalk { st with enclosing := slot :: st.enclosing }

/-- An insertion brings in no slots but those of the new element. -/
lemma count_insertByKey {α κ : Type} [Ord κ] (key : α → κ) (slots : α → List Slot) (x : α)
    (xs : List α) (s : Slot) :
    ((insertByKey key x xs).flatMap slots).count s ≤
      (slots x).count s + (xs.flatMap slots).count s := by
  induction xs with
  | nil => simp [insertByKey]
  | cons y ys ih =>
    rw [insertByKey]
    split
    · simp only [List.flatMap_cons, List.count_append]
      omega
    · simp only [List.flatMap_cons, List.count_append]
      omega
    · simp only [List.flatMap_cons, List.count_append] at ih ⊢
      omega

/-- The slots of the members of a class, where `ofMethod` are those of a method. -/
def Members.slotsBy (ofMethod : Method → List Slot) (m : Members) : List Slot :=
  m.instanceSide.fields.map Prod.fst ++ (m.constructors.flatMap ofMethod ++
    (m.staticMethods.flatMap ofMethod ++ m.methods.flatMap ofMethod))

/-- A member is accounted for among the members. -/
lemma accounts_member {ofMethod : Method → List Slot} (cls : String) (m : Members)
    (kind : Syntax.MethodKind) (name : Name) {walk : Resolve Method}
    (evolves : ∀ st : Scopes, st.Evolves (walk.after st))
    (hwalk : Accounts ofScope [] walk ofMethod) :
    Accounts ofScope (m.slotsBy ofMethod) (member cls m kind name walk)
      (Members.slotsBy ofMethod) := by
  -- the tables are carried over the walk, and the fields too unless their side is open
  have onInstance : Accounts ofScope (m.slotsBy ofMethod) (withFields m.instanceSide walk) fun r =>
      (m.constructors.flatMap ofMethod ++
        (m.staticMethods.flatMap ofMethod ++ m.methods.flatMap ofMethod)) ++
        (r.2.fields.map Prod.fst ++ ofMethod r.1) := by
    refine ((accounts_withFields evolves hwalk).carry _).imp (fun s => ?_) fun _ _ => le_refl _
    simp only [Members.slotsBy, List.count_append, List.append_nil]
    omega
  cases kind with
  | onClass =>
    refine hwalk.andThen fun x => accounts_reportIf _ _ (.pure fun s => ?_)
    have := count_insertByKey Method.selector ofMethod x m.staticMethods s
    simp only [Members.slotsBy, Members.add, List.count_append]
    omega
  | construct =>
    refine onInstance.bind fun r => accounts_reportIf _ _ (.pure fun s => ?_)
    have := count_insertByKey Method.selector ofMethod r.1 m.constructors s
    simp only [Members.slotsBy, Members.add, List.count_append]
    omega
  | onInstance =>
    refine onInstance.bind fun r => accounts_reportIf _ _ (.pure fun s => ?_)
    have := count_insertByKey Method.selector ofMethod r.1 m.methods s
    simp only [Members.slotsBy, Members.add, List.count_append]
    omega

/-- A class accounts for its receivers, its fields and its members. -/
lemma accounts_classDecl {ofMethod : Method → List Slot} {ofClass : ClassDecl → List Slot}
    (name : Name) {walk : Members → Resolve Members}
    (evolves : ∀ m (st : Scopes), st.Evolves ((walk m).after st))
    (hwalk : ∀ m : Members, Accounts ofScope (m.slotsBy ofMethod) (walk m)
      (Members.slotsBy ofMethod))
    (hclass : ∀ (c : ClassDecl) (s : Slot), (ofClass c).count s ≤
      (c.receiver :: c.staticReceiver :: (c.staticFields.map Prod.fst ++ (c.fields.map Prod.fst ++
        (c.constructors.flatMap ofMethod ++ (c.staticMethods.flatMap ofMethod ++
          c.methods.flatMap ofMethod))))).count s) :
    Accounts ofScope [] (classDecl name walk) ofClass := by
  refine accounts_fresh.bind fun receiver => accounts_fresh.andThen fun staticReceiver => ?_
  have inside : Accounts ofScope []
      (withFields ⟨.onClass, staticReceiver, []⟩ (walk (.start receiver)))
      fun r => r.2.fields.map Prod.fst ++ Members.slotsBy ofMethod r.1 :=
    accounts_withFields (evolves (.start receiver)) (hwalk (.start receiver))
  refine inside.andThen fun r => .pure fun s => (hclass _ s).trans ?_
  simp only [Members.slotsBy, List.count_append, List.count_cons, List.count_nil]
  omega

end Resolve

end Ember
