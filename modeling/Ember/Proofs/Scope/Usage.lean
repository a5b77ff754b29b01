/-
Whether what a program declares is used.

* `Scopes.texts`, `Scopes.Fresh`, `Chronicle.texts`: where no scope declares a name twice,
  each declaration adds a binding and replaces none;
* `Declaration.UsedBy`, `Declaration.unused?`, `Occurrence.ownInitializer?`: what a
  history says about the use of a variable or of a class, and about uses of a variable in
  its own initializer;
* `Ledger`: the declarations so far are those of scopes that are closed and those of open
  ones; the bindings of the latter are marked as the history says;
* `Chronicle.ledger`: no step changes that;
* `usage_reported`: a whole program.
-/
import Mathlib
import Ember.Proofs.Scope.Undeclared

namespace Ember

open Resolve
open scoped List

/-! ### Names in scopes -/

/-- The names that are bound in a scope. -/
def Scope.texts (s : Scope) : List String := s.bindings.map Binding.text

/-- The names that are bound in each scope, innermost first. -/
def Scopes.texts (st : Scopes) : List (List String) := st.scopes.map Scope.texts

namespace Scope

variable {s : Scope} {b c : Binding}

/-- A name is not found where it is not bound. -/
lemma find?_eq_none_iff {text : String} : s.find? text = none ↔ text ∉ s.texts := by
  simp [find?, findByKey?, texts]

/-- A binding takes the place of one with its name. -/
lemma texts_put (found : s.find? c.text = some b) : (s.put c).texts = s.texts := by
  obtain ⟨before, after, here, put⟩ := put_split found
  rw [texts, put, texts, here]
  simp [text_of_find? found]

/-- What is declared anew comes last. -/
lemma bindings_declared (absent : s.find? b.text = none) :
    (s.declared b).bindings = s.bindings ++ [b] :=
  put_concat absent

end Scope

/-- The names of the innermost scope are followed by others. -/
def extend (ns : List String) : List (List String) → List (List String)
  | [] => []
  | own :: rest => (own ++ ns) :: rest

@[simp] lemma extend_nil (ts : List (List String)) : extend [] ts = ts := by
  cases ts with
  | nil => rfl
  | cons own rest => rw [extend, List.append_nil]

/-- Names that are added in two parts are added together. -/
lemma extend_append (ns ns' : List String) (ts : List (List String)) :
    extend (ns ++ ns') ts = extend ns' (extend ns ts) := by
  cases ts with
  | nil => rfl
  | cons own rest => simp only [extend, List.append_assoc]

/-- The innermost scope can declare the given names. -/
structure Scopes.Fresh (st : Scopes) (ns : List String) : Prop where
  once : ns.Nodup
  absent : ∀ n ∈ ns, n ∉ st.texts.headD []

namespace Scopes

variable {st st' : Scopes} {ns ns' : List String}

/-- No names are fresh anywhere. -/
lemma fresh_nil (st : Scopes) : st.Fresh [] := ⟨List.nodup_nil, by simp⟩

/-- The first of some fresh names are fresh. -/
lemma Fresh.left (h : st.Fresh (ns ++ ns')) : st.Fresh ns :=
  ⟨(List.nodup_append.1 h.once).1, fun n hn => h.absent n (List.mem_append_left _ hn)⟩

/-- What is left to be declared is still new after the first names. -/
lemma Fresh.right (h : st.Fresh (ns ++ ns')) (texts : st'.texts = extend ns st.texts) :
    st'.Fresh ns' := by
  obtain ⟨_, once, apart⟩ := List.nodup_append.1 h.once
  refine ⟨once, fun n hn => ?_⟩
  have absent := h.absent n (List.mem_append_right _ hn)
  rw [texts]
  cases e : st.texts with
  | nil => exact List.not_mem_nil
  | cons own rest =>
    rw [e] at absent
    rw [extend, List.headD_cons, List.mem_append]
    rintro (mem | mem)
    · exact absent mem
    · exact apart n mem n hn rfl

/-- A new name has no binding in the innermost scope. -/
lemma Fresh.find? {name : String} (h : st.Fresh [name]) {s : Scope} {rest : List Scope}
    (e : st.scopes = s :: rest) : s.find? name = none := by
  have absent := h.absent name (List.mem_singleton_self _)
  rw [texts, e] at absent
  exact Scope.find?_eq_none_iff.2 absent

end Scopes

/-- A use changes no names. -/
lemma texts_useIn {enclosing : List Slot} {text : String} {scopes scopes' : List Scope}
    {b : Binding} (h : useIn enclosing text scopes = some (b, scopes')) :
    scopes'.map Scope.texts = scopes.map Scope.texts := by
  obtain ⟨inner, s, outer, rfl, found, rfl⟩ := useIn_split h
  have same : (s.put (markUsed enclosing b)).texts = s.texts := Scope.texts_put (b := b) (by
    rw [text_markUsed, Scope.text_of_find? found]
    exact found)
  simp [same]

/-- The innermost scope is changed, but not its names. -/
lemma texts_modifyInnermost {f : Scope → Scope} (same : ∀ s, (f s).texts = s.texts) (st : Scopes) :
    ((modifyInnermost f).after st).texts = st.texts := by
  rw [modifyInnermost, after_modify]
  cases e : st.scopes with
  | nil => simp [Scopes.texts, e]
  | cons s rest => simp [Scopes.texts, e, same]

/-- A class that is filed changes no names. -/
lemma texts_addClass (slot : Slot) (c : Program.ClassDecl) (st : Scopes) :
    ((addClass slot c).after st).texts = st.texts :=
  texts_modifyInnermost
    (f := fun s => { s with classes := insertByKey Prod.fst (slot, c) s.classes }) (fun _ => rfl) st

/-- That a variable is initialized changes no names. -/
lemma texts_markInitialized (text : String) (st : Scopes) :
    ((markInitialized text).after st).texts = st.texts := by
  refine texts_modifyInnermost (fun s => ?_) st
  cases e : s.find? text with
  | none => rfl
  | some b =>
    have found : s.find? b.text = some b := by rwa [Scope.text_of_find? e]
    exact Scope.texts_put found

/-- A name that is declared anew is added to the innermost scope. -/
lemma texts_declare {st : Scopes} {s : Scope} {rest : List Scope} (e : st.scopes = s :: rest)
    {name : Name} (absent : s.find? name.text = none) (kind : BindingKind) (initialized : Bool) :
    ((declare name kind initialized).after st).texts = extend [name.text] st.texts := by
  rw [after_declare_eq _ _ _ e, Scopes.texts, Scopes.texts, e]
  simp only [List.map_cons, extend, Scope.texts]
  rw [Scope.bindings_declared absent, List.map_append]
  rfl

mutual

/-- Where no scope declares a name twice the names that are declared are added to those
of the innermost scope. -/
theorem Chronicle.texts {p : Place} {st st' : Scopes} {es : History} {ns : List String} :
    Chronicle true p st es ns st' → st.Fresh ns → st'.texts = extend ns st.texts
  | .done, _ | .skip, _ | .assignedClass _, _ | .invalidTarget _, _ | .far _ _ _, _
  | .known _ _ _, _ | .new _ _ _, _ | .this _ _, _ | .hole _, _ => (extend_nil _).symm
  | .near _ used, _ => (texts_useIn used).trans (extend_nil _).symm
  | .seq h h', fresh => by
    have first := h.texts fresh.left
    rw [h'.texts (fresh.right first), first, extend_append]
  | .scope h distinct, _ => by
    have inner := h.texts ⟨distinct rfl, fun _ _ => List.not_mem_nil⟩
    have left := congrArg List.tail inner
    rw [extend_nil]
    rw [Scopes.texts, ← List.map_tail] at left
    exact left
  | .declare _ _ e _, fresh => texts_declare e (fresh.find? e) _ _
  | .var _ e h _, fresh => by
    rw [texts_markInitialized, h.texts (Scopes.fresh_nil _), extend_nil]
    exact texts_declare e (fresh.find? e) _ _
  | .cls _ h _ _, _ => by
    rw [texts_addClass, extend_nil]
    exact h.texts

/-- The members of a class leave the names around it as they are. -/
theorem Roster.texts {p : Place} {cls : String} {c : Program.ClassDecl} {m m' : Members}
    {st st' : Scopes} {ms : List (Syntax.Method × Program.Method)} {es : History} :
    Roster true p cls c m st ms es m' st' → st'.texts = st.texts
  | .nil => rfl
  | .cons h _ _ rest => by
    have entered (m : Members) (kind : Syntax.MethodKind) :
        (enterMember m kind st).texts = st.texts := by
      cases kind <;> rfl
    have left (kind : Syntax.MethodKind) (ps : List ScopeProblem) (st : Scopes) :
        ((leaveMember kind st).noting ps).texts = st.texts := by
      cases kind <;> rfl
    rw [rest.texts, left, h.texts (Scopes.fresh_nil _), extend_nil, entered]

end

/-- The binding of a variable in the innermost scope is marked. -/
lemma after_markInitialized {st : Scopes} {s : Scope} {rest : List Scope}
    (e : st.scopes = s :: rest) {text : String} {b : Binding} (found : s.find? text = some b) :
    (markInitialized text).after st =
      { st with scopes := s.put { b with initialized := true } :: rest } := by
  obtain ⟨next, scopes, globalScope, fieldScopes, enclosing, globals, problems⟩ := st
  cases e
  rw [markInitialized, modifyInnermost, after_modify]
  simp only [found]

/-- The binding of a variable is marked where it stands. -/
lemma bindings_markInitialized {st : Scopes} {s : Scope} {rest : List Scope}
    (e : st.scopes = s :: rest) {text : String} {b : Binding} (found : s.find? text = some b) :
    ∃ before after, st.bindings = before ++ b :: after ∧
      ((markInitialized text).after st).bindings =
        before ++ { b with initialized := true } :: after := by
  obtain ⟨before, after, here, put⟩ := Scope.put_split (s := s) (b := b)
    (c := { b with initialized := true }) (by
      change s.find? b.text = some b
      rwa [Scope.text_of_find? found])
  refine ⟨before, after ++ rest.flatMap Scope.bindings, ?_, ?_⟩
  · rw [Scopes.bindings, e, List.flatMap_cons, here, List.append_assoc, List.cons_append]
  · rw [after_markInitialized e found, Scopes.bindings, List.flatMap_cons, put, List.append_assoc,
      List.cons_append]

/-- A new name is bound in addition to the others. -/
lemma bindings_declare {st : Scopes} {s : Scope} {rest : List Scope} (e : st.scopes = s :: rest)
    {name : Name} (absent : s.find? name.text = none) (kind : BindingKind) (initialized : Bool) :
    ((declare name kind initialized).after st).bindings ~
      ⟨name, st.nextSlot, kind, initialized, false⟩ :: st.bindings := by
  rw [after_declare_eq _ _ _ e, Scopes.bindings, Scopes.bindings, e, List.flatMap_cons,
    List.flatMap_cons, Scope.bindings_declared absent, List.append_assoc]
  exact List.perm_middle

/-! ### Uses of declarations -/

/-- A use counts unless it is that of a class inside of itself. -/
lemma used_markUsed (enclosing : List Slot) (b : Binding) :
    (markUsed enclosing b).used = (b.used || decide ¬(b.kind = .cls ∧ b.slot ∈ enclosing)) := by
  rw [markUsed]
  split
  · rename_i own
    simp [own]
  · rename_i other
    simp [other]

/-- What a binding was declared as. -/
def Binding.declaration (b : Binding) : Declaration := ⟨b.kind, b.name, b.slot⟩

/-- A use does not change what is declared. -/
@[simp] lemma declaration_markUsed (enclosing : List Slot) (b : Binding) :
    (markUsed enclosing b).declaration = b.declaration := by
  rw [markUsed]
  split <;> rfl

/-- A use does not change whether a variable is initialized. -/
@[simp] lemma initialized_markUsed (enclosing : List Slot) (b : Binding) :
    (markUsed enclosing b).initialized = b.initialized := by
  rw [markUsed]
  split <;> rfl

namespace Declaration

/-- An occurrence of the variable uses it, but in the body of a class the class
itself. -/
def UsedBy (d : Declaration) (o : Occurrence) : Prop :=
  o.kind = .variable ∧ o.slot = d.slot ∧ ¬(d.kind = .cls ∧ d.slot ∈ o.place.classes)

instance (d : Declaration) (o : Occurrence) : Decidable (d.UsedBy o) :=
  inferInstanceAs (Decidable (_ ∧ _ ∧ ¬_))

/-- There is a use in a history. -/
def isUsedIn (h : History) (d : Declaration) : Bool := h.occurrences.any fun o => d.UsedBy o

/-- The mistake of a variable or a class that is not used. -/
def unused? (h : History) (d : Declaration) : Option ScopeProblem :=
  if d.isUsedIn h then none
  else match d.kind with
    | .var => some (.unusedVariable d.name)
    | .cls => some (.unusedClass d.name)
    | .param | .global => none

section isUsedIn

variable {h h' : History} {d : Declaration} {o : Occurrence}

/-- Whether a declaration is used depends on the occurrences alone. -/
lemma isUsedIn_congr (same : h'.occurrences = h.occurrences) (d : Declaration) :
    d.isUsedIn h' = d.isUsedIn h := by
  rw [isUsedIn, same, isUsedIn]

/-- A declaration is used if it was used, or if the next occurrence uses it. -/
lemma isUsedIn_concat (h : History) (d : Declaration) (o : Occurrence) :
    d.isUsedIn (h ++ [.occurs o]) = (d.isUsedIn h || decide (d.UsedBy o)) := by
  simp [isUsedIn]

/-- An occurrence of something else is no use. -/
lemma isUsedIn_other (other : o.kind = .variable → o.slot ≠ d.slot) :
    d.isUsedIn (h ++ [.occurs o]) = d.isUsedIn h := by
  have unused : ¬d.UsedBy o := fun used => other used.1 used.2.1
  rw [isUsedIn_concat, decide_eq_false unused, Bool.or_false]

/-- Whether a declaration is reported depends on its use alone. -/
lemma unused?_congr (same : d.isUsedIn h' = d.isUsedIn h) : d.unused? h' = d.unused? h := by
  rw [unused?, same, unused?]

/-- What is not used so far may still be used later, where the history goes on. -/
lemma isUsedIn_new (old : ∀ o ∈ h.occurrences, o.kind = .variable → o.slot ≠ d.slot) :
    d.isUsedIn h = false :=
  List.any_eq_false.2 fun o ho used =>
    have used := of_decide_eq_true used
    old o ho used.1 used.2.1

end isUsedIn

end Declaration

/-- A binding that is marked as its declaration is used is reported as that is. -/
lemma Binding.unusedProblem?_eq {b : Binding} {h : History}
    (used : b.used = b.declaration.isUsedIn h) : b.unusedProblem? = b.declaration.unused? h := by
  rw [unusedProblem?, Declaration.unused?, used]
  rfl

/-- The mistake of using a variable in its own initializer. -/
def Occurrence.ownInitializer? (o : Occurrence) : Option ScopeProblem :=
  if o.kind = .variable ∧ o.slot ∈ o.place.initializers then some (.usedInOwnInitializer o.word)
  else none

/-! ### Accounts of declarations -/

/-- The declarations so far are those of scopes that are closed, with what is reported
about them, and those of open scopes. The bindings of the latter are marked as far as they
have been used, and as initialized but for those in whose initializers the present place
lies. -/
structure Ledger (classes initializers : List Slot) (h : History) (closed : List Declaration)
    (st : Scopes) : Prop where
  enclosing : st.enclosing = classes
  declared : h.declarations.Perm (closed ++ st.bindings.map Binding.declaration)
  once : (h.declarations.map Declaration.slot).Nodup
  inner : ∀ d ∈ h.declarations, st.Inner d.slot
  handed : ∀ o ∈ h.occurrences, o.kind = .variable → o.slot.index < st.nextSlot.index
  numbered : ∀ slot ∈ st.globals.map Prod.fst, slot.index < st.nextSlot.index
  bound : ∀ text b, st.globalScope.find? text = some b →
    b.initialized = true ∧ b.slot ∈ st.globals.map Prod.fst
  known : ∀ slot ∈ initializers, slot ∈ h.declarations.map Declaration.slot
  used : ∀ b ∈ st.bindings, b.used = b.declaration.isUsedIn h
  initialized : ∀ b ∈ st.bindings, b.initialized = false ↔ b.slot ∈ initializers
  unused : (about .unused st.problems).Perm (closed.filterMap (Declaration.unused? h))
  own : about .ownInitializer st.problems = h.occurrences.filterMap Occurrence.ownInitializer?

namespace Ledger

variable {classes initializers : List Slot} {h : History} {closed : List Declaration}
  {st st' : Scopes}

/-- Closed and open declarations have slots of their own. -/
lemma apart (l : Ledger classes initializers h closed st) :
    (closed.map Declaration.slot ++ st.bindings.map Binding.slot).Nodup := by
  have split := (l.declared.map Declaration.slot).nodup_iff.1 l.once
  rw [List.map_append, List.map_map] at split
  exact split

/-- The slot of a binding is that of a declaration. -/
lemma slot_mem (l : Ledger classes initializers h closed st) {b : Binding} (hb : b ∈ st.bindings) :
    b.slot ∈ h.declarations.map Declaration.slot := by
  have listed : b.declaration ∈ h.declarations :=
    l.declared.mem_iff.2 (List.mem_append_right _ (List.mem_map_of_mem hb))
  exact List.mem_map_of_mem (f := Declaration.slot) listed

/-- The slot of a binding is that of no other declaration. -/
lemma alone (l : Ledger classes initializers h closed st) {before after : List Binding}
    {b : Binding} (here : st.bindings = before ++ b :: after) :
    b.slot ∉ closed.map Declaration.slot ++ (before ++ after).map Binding.slot := by
  have apart := l.apart
  rw [here, List.map_append, List.map_cons, ← List.append_assoc, List.nodup_middle] at apart
  simpa [or_assoc] using (List.nodup_cons.1 apart).1

/-- When one binding takes the place of another all others keep theirs. -/
lemma split (l : Ledger classes initializers h closed st) {before after : List Binding}
    {b c x : Binding} (here : st.bindings = before ++ b :: after)
    (hx : x ∈ before ++ c :: after) : x = c ∨ b.slot ≠ x.slot ∧ x ∈ st.bindings := by
  have other (hx : x ∈ before ++ after) : b.slot ≠ x.slot := fun same =>
    l.alone here (List.mem_append_right _ (same ▸ List.mem_map_of_mem hx))
  rw [here, List.mem_append, List.mem_cons]
  rcases List.mem_append.1 hx with hx | hx
  · exact .inr ⟨other (List.mem_append_left _ hx), .inl hx⟩
  · rcases List.mem_cons.1 hx with rfl | hx
    · exact .inl rfl
    · exact .inr ⟨other (List.mem_append_right _ hx), .inr (.inr hx)⟩

/-- A step that leaves bindings in scopes alone. -/
lemma moves (l : Ledger classes initializers h closed st) {classes' : List Slot}
    (enclosing : st'.enclosing = classes') (bindings : st'.bindings = st.bindings)
    (next : st.nextSlot.index ≤ st'.nextSlot.index)
    (inner : ∀ slot, st.Inner slot → st'.Inner slot)
    (numbered : ∀ slot ∈ st'.globals.map Prod.fst, slot.index < st'.nextSlot.index)
    (bound : ∀ text b, st'.globalScope.find? text = some b →
      b.initialized = true ∧ b.slot ∈ st'.globals.map Prod.fst)
    (unused : about .unused st'.problems = about .unused st.problems)
    (own : about .ownInitializer st'.problems = about .ownInitializer st.problems) :
    Ledger classes' initializers h closed st' where
  enclosing := enclosing
  declared := bindings ▸ l.declared
  once := l.once
  inner d hd := inner _ (l.inner d hd)
  handed o ho k := (l.handed o ho k).trans_le next
  numbered := numbered
  bound := bound
  known := l.known
  used := bindings ▸ l.used
  initialized := bindings ▸ l.initialized
  unused := unused ▸ l.unused
  own := own ▸ l.own

/-- A step that leaves globals alone, too. -/
lemma quiet (l : Ledger classes initializers h closed st) {classes' : List Slot}
    (enclosing : st'.enclosing = classes') (bindings : st'.bindings = st.bindings)
    (next : st.nextSlot.index ≤ st'.nextSlot.index) (globals : st'.globals = st.globals)
    (globalScope : ∀ text, st'.globalScope.find? text = st.globalScope.find? text)
    (unused : about .unused st'.problems = about .unused st.problems)
    (own : about .ownInitializer st'.problems = about .ownInitializer st.problems) :
    Ledger classes' initializers h closed st' := by
  refine l.moves enclosing bindings next (fun _ inner => inner.later next globals)
    (fun slot hs => ?_) (fun text b found => ?_) unused own
  · rw [globals] at hs
    exact (l.numbered slot hs).trans_le next
  · rw [globals]
    exact l.bound text b (globalScope text ▸ found)

/-- Only the occurrences and the declarations of a history matter. -/
lemma record (l : Ledger classes initializers h closed st) {h' : History}
    (occurrences : h'.occurrences = h.occurrences)
    (declarations : h'.declarations = h.declarations) :
    Ledger classes initializers h' closed st where
  enclosing := l.enclosing
  declared := declarations ▸ l.declared
  once := declarations ▸ l.once
  inner := declarations ▸ l.inner
  handed := occurrences ▸ l.handed
  numbered := l.numbered
  bound := l.bound
  known := declarations ▸ l.known
  used b hb := (l.used b hb).trans (Declaration.isUsedIn_congr occurrences _).symm
  initialized := l.initialized
  unused := by
    rw [List.filterMap_congr fun d _ =>
      Declaration.unused?_congr (Declaration.isUsedIn_congr occurrences d)]
    exact l.unused
  own := by
    rw [occurrences]
    exact l.own

/-- An occurrence of something that is not declared. -/
lemma foreign {p : Place} (l : Ledger p.classes p.initializers h closed st) {kind : OccurrenceKind}
    (word : Name) {slot : Slot} (handed : kind = .variable → slot.index < st.nextSlot.index)
    (other : kind = .variable → slot ∉ h.declarations.map Declaration.slot) :
    Ledger p.classes p.initializers (h ++ [.occurs ⟨kind, word, slot, p⟩]) closed st := by
  have unused {d : Declaration} (hd : d.slot ∈ h.declarations.map Declaration.slot) :
      d.isUsedIn (h ++ [.occurs ⟨kind, word, slot, p⟩]) = d.isUsedIn h :=
    Declaration.isUsedIn_other fun k (e : slot = d.slot) => other k (e ▸ hd)
  have listed {d : Declaration} (hd : d ∈ closed) : d.slot ∈ h.declarations.map Declaration.slot :=
    List.mem_map_of_mem (l.declared.mem_iff.2 (List.mem_append_left _ hd))
  refine ⟨l.enclosing, by simpa using l.declared, by simpa using l.once, by simpa using l.inner,
    ?_, l.numbered, l.bound, by simpa using l.known, fun b hb => ?_, l.initialized, ?_, ?_⟩
  · rw [History.occurrences_append, List.forall_mem_append]
    exact ⟨l.handed, List.forall_mem_singleton.2 handed⟩
  · rw [unused (l.slot_mem hb)]
    exact l.used b hb
  · rw [List.filterMap_congr fun d hd => Declaration.unused?_congr (unused (listed hd))]
    exact l.unused
  · have fine : Occurrence.ownInitializer? ⟨kind, word, slot, p⟩ = none :=
      if_neg fun hp => other hp.1 (l.known _ hp.2)
    rw [l.own]
    simp [fine]

/-- A global is used, which is never in its own initializer. -/
lemma far {p : Place} (l : Ledger p.classes p.initializers h closed st) {word : Name} {b : Binding}
    (found : st.globalScope.find? word.text = some b) :
    Ledger p.classes p.initializers (h ++ [.occurs ⟨.variable, word, b.slot, p⟩]) closed
      (Scopes.noting { st with globalScope := st.globalScope.put (markUsed st.enclosing b) }
        (ownUse word b)) := by
  obtain ⟨initialized, mem⟩ := l.bound _ _ found
  have fine : ownUse word b = [] := if_pos initialized
  rw [fine, Scopes.noting_nil]
  have marked : Ledger p.classes p.initializers h closed
      { st with globalScope := st.globalScope.put (markUsed st.enclosing b) } := by
    refine l.moves l.enclosing rfl (Nat.le_refl _) (fun _ h => h) l.numbered
      (fun text c hc => ?_) rfl rfl
    rcases Scope.find?_put hc with rfl | hc
    · rw [initialized_markUsed, slot_markUsed]
      exact ⟨initialized, mem⟩
    · exact l.bound text c hc
  refine marked.foreign word (fun _ => l.numbered _ mem) fun _ declared => ?_
  obtain ⟨d, hd, e⟩ := List.mem_map.1 declared
  exact (l.inner d hd).2 (e ▸ mem)

/-- The next slot is not that of a declaration. -/
lemma next_not_mem (l : Ledger classes initializers h closed st) :
    st.nextSlot ∉ h.declarations.map Declaration.slot := fun mem => by
  obtain ⟨d, hd, e⟩ := List.mem_map.1 mem
  exact Nat.lt_irrefl _ (e ▸ (l.inner d hd).1)

/-- A hole gets a new global. -/
lemma hole {p : Place} (l : Ledger p.classes p.initializers h closed st) {kind : OccurrenceKind}
    {word : Name} {ps : List ScopeProblem} (missing : Missing st kind word ps) :
    Ledger p.classes p.initializers (h ++ [.occurs ⟨kind, word, st.nextSlot, p⟩]) closed
      ((st.noting ps).filled word) := by
  have globals : ((st.noting ps).filled word).globals.map Prod.fst =
      st.globals.map Prod.fst ++ [st.nextSlot] := List.map_append
  have filled : Ledger p.classes p.initializers h closed ((st.noting ps).filled word) := by
    refine l.moves l.enclosing rfl (Nat.le_succ _) (fun _ inner => inner.filled ps word) ?_
      (fun text b found => ?_) ?_ ?_
    · rw [globals, List.forall_mem_append, List.forall_mem_singleton]
      exact ⟨fun slot hs => Nat.lt_succ_of_lt (l.numbered slot hs), Nat.lt_succ_self _⟩
    · rw [globals]
      rcases Scope.find?_put found with rfl | found
      · exact ⟨rfl, List.mem_append_right _ (List.mem_singleton_self _)⟩
      · exact ⟨(l.bound text b found).1, List.mem_append_left _ (l.bound text b found).2⟩
    · simp [missing.about_eq_nil]
    · simp [missing.about_eq_nil]
  exact filled.foreign word (fun _ => Nat.lt_succ_self _) fun _ => l.next_not_mem

/-- A variable in scope is used. -/
lemma near {p : Place} (l : Ledger p.classes p.initializers h closed st) {word : Name} {b : Binding}
    {scopes : List Scope} (found : useIn st.enclosing word.text st.scopes = some (b, scopes)) :
    Ledger p.classes p.initializers (h ++ [.occurs ⟨.variable, word, b.slot, p⟩]) closed
      (Scopes.noting { st with scopes } (ownUse word b)) := by
  obtain ⟨before, after, here, there⟩ := bindings_useIn found
  have bindings : Scopes.bindings (Scopes.noting { st with scopes } (ownUse word b)) =
      before ++ markUsed st.enclosing b :: after := there
  have hb : b ∈ st.bindings := by simp [here]
  have unused {d : Declaration} (hd : b.slot ≠ d.slot) :
      d.isUsedIn (h ++ [.occurs ⟨.variable, word, b.slot, p⟩]) = d.isUsedIn h :=
    Declaration.isUsedIn_other fun _ => hd
  refine ⟨l.enclosing, ?_, by simpa using l.once, ?_, ?_, l.numbered, l.bound,
    by simpa using l.known, ?_, ?_, ?_, ?_⟩
  · have same := l.declared
    rw [here] at same
    rw [bindings]
    simpa using same
  · rw [History.declarations_append, History.declarations_occurs, History.declarations_nil,
      List.append_nil]
    exact l.inner
  · rw [History.occurrences_append, List.forall_mem_append]
    refine ⟨l.handed, List.forall_mem_singleton.2 fun _ => ?_⟩
    obtain ⟨d, hd, e⟩ := List.mem_map.1 (l.slot_mem hb)
    exact e ▸ (l.inner d hd).1
  · rw [bindings]
    intro x hx
    -- only the binding that has been found is marked, and the history has its first use
    rcases l.split here hx with rfl | ⟨other, old⟩
    · rw [used_markUsed, l.used b hb, declaration_markUsed, Declaration.isUsedIn_concat,
        l.enclosing]
      congr 1
      simp [Declaration.UsedBy, Binding.declaration]
    · rw [unused other]
      exact l.used x old
  · rw [bindings]
    intro x hx
    rcases l.split here hx with rfl | ⟨_, old⟩
    · rw [initialized_markUsed, slot_markUsed]
      exact l.initialized b hb
    · exact l.initialized x old
  -- the slot of an open scope is none of those of closed ones, whose accounts stay closed
  · have other {d : Declaration} (hd : d ∈ closed) : b.slot ≠ d.slot := fun e =>
      l.alone here (List.mem_append_left _ (e ▸ List.mem_map_of_mem hd))
    rw [List.filterMap_congr fun d hd => Declaration.unused?_congr (unused (other hd))]
    simpa using l.unused
  -- whether the variable is in its own initializer, both the binding and the place tell
  · have noted : ownUse word b =
        (Occurrence.ownInitializer? ⟨.variable, word, b.slot, p⟩).toList := by
      rw [ownUse, Occurrence.ownInitializer?]
      cases e : b.initialized with
      | false => simp [(l.initialized b hb).1 e]
      | true =>
        have outside : b.slot ∉ p.initializers := fun mem => by
          rw [(l.initialized b hb).2 mem] at e
          cases e
        simp [outside]
    rw [Scopes.problems_noting, about_append, l.own, about_ownUse, if_pos rfl, noted,
      History.occurrences_append, List.filterMap_append]
    rfl

/-- A name that is new to the innermost scope is declared there. -/
lemma declare (l : Ledger classes initializers h closed st) {s : Scope} {rest : List Scope}
    (e : st.scopes = s :: rest) {name : Name} (absent : s.find? name.text = none)
    (kind : BindingKind) (initialized : Bool) {initializers' : List Slot}
    (inits : ∀ slot, slot ∈ initializers' ↔
      slot ∈ initializers ∨ initialized = false ∧ slot = st.nextSlot) :
    Ledger classes initializers' (h ++ [.declares ⟨kind, name, st.nextSlot⟩]) closed
      ((Resolve.declare name kind initialized).after st) := by
  let b : Binding := ⟨name, st.nextSlot, kind, initialized, false⟩
  have bindings := bindings_declare e absent kind initialized
  rw [after_declare_eq _ _ _ e] at bindings ⊢
  have occurrences : History.occurrences (h ++ [.declares ⟨kind, name, st.nextSlot⟩]) =
      h.occurrences := by simp
  have declarations : History.declarations (h ++ [.declares ⟨kind, name, st.nextSlot⟩]) =
      h.declarations ++ [b.declaration] := by simp [b, Binding.declaration]
  have fresh := l.next_not_mem
  -- of the variables in their own initializers at most the new one is new
  have new : b.slot ∈ initializers' ↔ initialized = false := by
    rw [inits]
    exact ⟨fun mem => mem.elim (fun old => absurd (l.known _ old) fresh) And.left,
      fun e => .inr ⟨e, rfl⟩⟩
  have old {slot : Slot} (hs : slot ∈ h.declarations.map Declaration.slot) :
      slot ∈ initializers' ↔ slot ∈ initializers := by
    rw [inits]
    exact ⟨fun mem => mem.elim id fun e => absurd (e.2 ▸ hs) fresh, .inl⟩
  refine ⟨l.enclosing, ?_, ?_, ?_, ?_, ?_, l.bound, ?_, ?_, ?_, ?_, ?_⟩
  -- the new binding joins those of the declarations in open scopes
  · rw [declarations]
    calc h.declarations ++ [b.declaration]
      _ ~ b.declaration :: h.declarations := List.perm_append_singleton _ _
      _ ~ b.declaration :: (closed ++ st.bindings.map Binding.declaration) := l.declared.cons _
      _ ~ closed ++ (b :: st.bindings).map Binding.declaration := List.perm_middle.symm
      _ ~ closed ++ _ := (bindings.symm.map _).append_left _
  · rw [declarations, List.map_append]
    exact List.concat_eq_append ▸ l.once.concat fresh
  -- slots are handed out in order, so nothing before has the new one
  · rw [declarations, List.forall_mem_append, List.forall_mem_singleton]
    refine ⟨fun d hd => (l.inner d hd).later (Nat.le_succ _) rfl, Nat.lt_succ_self _, fun mem => ?_⟩
    exact Nat.lt_irrefl _ (l.numbered _ mem)
  · rw [occurrences]
    exact fun o ho k => Nat.lt_succ_of_lt (l.handed o ho k)
  · exact fun slot hs => Nat.lt_succ_of_lt (l.numbered slot hs)
  · intro slot hs
    rw [declarations, List.map_append, List.mem_append]
    rcases (inits slot).1 hs with hs | ⟨_, rfl⟩
    · exact .inl (l.known slot hs)
    · exact .inr (List.mem_singleton_self _)
  · intro x hx
    rw [Declaration.isUsedIn_congr occurrences]
    -- of the new declaration there is no use yet
    rcases List.mem_cons.1 (bindings.mem_iff.1 hx) with rfl | hx
    · refine (Declaration.isUsedIn_new fun o ho k e => ?_).symm
      have handed := l.handed o ho k
      rw [e] at handed
      exact Nat.lt_irrefl _ handed
    · exact l.used x hx
  · intro x hx
    rcases List.mem_cons.1 (bindings.mem_iff.1 hx) with rfl | hx
    · exact new.symm
    · rw [old (l.slot_mem hx)]
      exact l.initialized x hx
  · rw [List.filterMap_congr fun d _ =>
      Declaration.unused?_congr (Declaration.isUsedIn_congr occurrences d)]
    simpa using l.unused
  · rw [occurrences]
    simpa using l.own

/-- The initializer of a variable is left. -/
lemma markInitialized {slot : Slot} (l : Ledger classes (slot :: initializers) h closed st)
    (outside : slot ∉ initializers) {s : Scope} {rest : List Scope} (e : st.scopes = s :: rest)
    {text : String} {b : Binding} (found : s.find? text = some b) (own : b.slot = slot) :
    Ledger classes initializers h closed ((Resolve.markInitialized text).after st) := by
  subst own
  obtain ⟨before, after, old, new⟩ := bindings_markInitialized e found
  rw [after_markInitialized e found] at new ⊢
  have hb : b ∈ st.bindings := by simp [old]
  refine ⟨l.enclosing, ?_, l.once, l.inner, l.handed, l.numbered, l.bound,
    fun s hs => l.known s (List.mem_cons_of_mem _ hs), fun x hx => ?_, fun x hx => ?_, l.unused,
    l.own⟩
  · have declared := l.declared
    rw [old] at declared
    rw [new]
    simpa [Binding.declaration] using declared
  · rcases l.split old (new ▸ hx) with rfl | ⟨_, hx⟩
    · exact l.used b hb
    · exact l.used x hx
  · rcases l.split old (new ▸ hx) with rfl | ⟨other, hx⟩
    · exact iff_of_false Bool.noConfusion outside
    · rw [l.initialized x hx, List.mem_cons]
      exact ⟨fun mem => mem.resolve_left other.symm, .inr⟩

/-- The innermost scope is closed, which settles its declarations. -/
lemma close (l : Ledger classes initializers h closed st) :
    ∃ closed', Ledger classes initializers h closed' (closeScope.after st) := by
  have split : st.bindings =
      (st.scopes.headD .empty).bindings ++ (closeScope.after st).bindings := by
    change _ = _ ++ st.scopes.tail.flatMap Scope.bindings
    rw [Scopes.bindings]
    cases st.scopes <;> rfl
  have sub {b : Binding} (hb : b ∈ (closeScope.after st).bindings) : b ∈ st.bindings :=
    split ▸ List.mem_append_right _ hb
  refine ⟨closed ++ (st.scopes.headD .empty).bindings.map Binding.declaration, l.enclosing, ?_,
    l.once, l.inner, l.handed, l.numbered, l.bound, l.known, fun b hb => l.used b (sub hb),
    fun b hb => l.initialized b (sub hb), ?_, ?_⟩
  · have declared := l.declared
    rwa [split, List.map_append, ← List.append_assoc] at declared
  · have reported : (st.scopes.headD .empty).bindings.filterMap Binding.unusedProblem? =
        ((st.scopes.headD .empty).bindings.map Binding.declaration).filterMap
          (Declaration.unused? h) := by
      rw [List.filterMap_map]
      exact List.filterMap_congr fun b hb =>
        Binding.unusedProblem?_eq (l.used b (split ▸ List.mem_append_left _ hb))
    rw [problems_closeScope, about_append, about_unusedProblem?, if_pos rfl, reported,
      List.filterMap_append]
    exact l.unused.append_right _
  · simpa using l.own

/-- Inside of a class its own name does not count as used. -/
lemma enterClass (l : Ledger classes initializers h closed st) (slot : Slot) :
    Ledger (slot :: classes) initializers h closed (Ember.enterClass slot st) :=
  l.quiet (congrArg (slot :: ·) l.enclosing) rfl (Nat.le_add_right _ 2) rfl (fun _ => rfl) rfl rfl

/-- A class is left and filed in the scope around. -/
lemma leaveClass {slot : Slot} (l : Ledger (slot :: classes) initializers h closed st) (own : Slot)
    (c : Program.ClassDecl) :
    Ledger classes initializers h closed ((addClass own c).after st.leaveClass) := by
  refine l.quiet ?_ ?_ (by simp) (globals_modifyInnermost ..) (fun text => ?_) (by simp) (by simp)
  · rw [addClass, enclosing_modifyInnermost]
    exact congrArg List.tail l.enclosing
  · rw [addClass, modifyInnermost, after_modify]
    split
    · rfl
    · rename_i e
      have scopes : st.scopes = _ := e
      rw [Scopes.bindings, Scopes.bindings, scopes]
      rfl
  · rw [addClass, modifyInnermost, after_modify]
    split <;> rfl

/-- A side that is opened changes nothing about what is used. -/
lemma enterMember (l : Ledger classes initializers h closed st) (m : Members)
    (kind : Syntax.MethodKind) :
    Ledger classes initializers h closed (Ember.enterMember m kind st) := by
  cases kind with
  | onClass => exact l
  | construct | onInstance =>
    exact l.quiet l.enclosing rfl (Nat.le_refl _) rfl (fun _ => rfl) rfl rfl

/-- A side that is closed changes nothing about what is used. -/
lemma leaveMember (l : Ledger classes initializers h closed st) (kind : Syntax.MethodKind)
    {ps : List ScopeProblem} (unused : about .unused ps = [])
    (own : about .ownInitializer ps = []) :
    Ledger classes initializers h closed ((Ember.leaveMember kind st).noting ps) := by
  cases kind with
  | onClass | construct | onInstance =>
    exact l.quiet l.enclosing rfl (Nat.le_refl _) rfl (fun _ => rfl) (by simp [unused])
      (by simp [own])

end Ledger

/-- Fields are no variables. -/
lemma Reaches.ne_variable {st : Scopes} {kind : OccurrenceKind} {f : FieldScope}
    (h : Reaches st kind f) : kind ≠ .variable := by
  cases h <;> decide

/-- The binding of a variable is still there when its initializer has been resolved. -/
lemma find?_evolves {name : Name} {kind : BindingKind} {initialized : Bool} {st st₁ : Scopes}
    {s : Scope} {rest : List Scope} (e : st.scopes = s :: rest)
    (evolves : Scopes.Evolves ((declare name kind initialized).after st) st₁) :
    ∃ s₁ rest₁ b, st₁.scopes = s₁ :: rest₁ ∧ s₁.find? name.text = some b ∧
      b.slot = st.nextSlot := by
  have scopes := evolves.scopes
  rw [after_declare_eq _ _ _ e] at scopes
  obtain ⟨s₁, rest₁, same, _, e₁⟩ := List.forall₂_cons_left_iff.1 scopes
  have find := same.find name.text
  have here := Scope.find?_declared_self s ⟨name, st.nextSlot, kind, initialized, false⟩
  rw [Binding.text] at here
  rw [here] at find
  obtain ⟨b, found, unmarked⟩ := Option.map_eq_some_iff.1 find
  exact ⟨s₁, rest₁, b, e₁, found, congrArg Binding.slot unmarked⟩

mutual

/-- No step changes that the accounts of declarations are right. -/
theorem Chronicle.ledger {p : Place} {st st' : Scopes} {es : History} {ns : List String} :
    Chronicle true p st es ns st' → st.Fresh ns → ∀ {h closed},
      Ledger p.classes p.initializers h closed st →
        ∃ closed', Ledger p.classes p.initializers (h ++ es) closed' st'
  | .done, _, _, closed, l => ⟨closed, by rwa [List.append_nil]⟩
  | .skip, _, _, closed, l => by
    rw [List.append_nil]
    exact ⟨closed, l.quiet l.enclosing rfl (Nat.le_succ _) rfl (fun _ => rfl) rfl rfl⟩
  | .assignedClass _, _, _, closed, l | .invalidTarget _, _, _, closed, l => by
    rw [List.append_nil]
    exact ⟨closed, l.quiet l.enclosing rfl (Nat.le_refl _) rfl (fun _ => rfl)
      (by simp [about, ScopeProblem.topic]) (by simp [about, ScopeProblem.topic])⟩
  | .near _ used, _, _, closed, l => ⟨closed, l.near used⟩
  | .far _ _ found, _, _, closed, l => ⟨closed, l.far found⟩
  | .known word reaches _, _, _, closed, l =>
    ⟨closed, l.foreign word (fun k => absurd k reaches.ne_variable)
      fun k => absurd k reaches.ne_variable⟩
  | .new word reaches _, _, _, closed, l =>
    have added : Ledger p.classes p.initializers _ closed (st.withField _ word) :=
      l.quiet l.enclosing rfl (Nat.le_succ _) rfl (fun _ => rfl) rfl rfl
    ⟨closed, added.foreign word (fun k => absurd k reaches.ne_variable)
      fun k => absurd k reaches.ne_variable⟩
  | .this _ _, _, _, closed, l => ⟨closed, l.foreign _ (fun k => nomatch k) fun k => nomatch k⟩
  | .hole missing, _, _, closed, l => ⟨closed, l.hole missing⟩
  | .declare kind name e _, fresh, _, closed, l =>
    ⟨closed, l.declare e (fresh.find? e) kind true fun slot => by simp⟩
  | .seq h h', fresh, _, _, l => by
    obtain ⟨_, l⟩ := h.ledger fresh.left l
    rw [← List.append_assoc]
    exact h'.ledger (fresh.right (h.texts fresh.left)) l
  | .scope h distinct, _, _, _, l => by
    have opened : Ledger p.classes p.initializers _ _ (openScope.after st) :=
      l.quiet l.enclosing rfl (Nat.le_refl _) rfl (fun _ => rfl) rfl rfl
    obtain ⟨_, inner⟩ := h.ledger ⟨distinct rfl, fun _ _ => List.not_mem_nil⟩ opened
    exact inner.close
  | .var name e h evolves, fresh, _, _, l => by
    have declared : Ledger p.classes (st.nextSlot :: p.initializers) _ _ _ :=
      l.declare e (fresh.find? e) .var false fun slot => by simp [or_comm]
    obtain ⟨closed', inner⟩ := h.ledger (Scopes.fresh_nil _) declared
    -- the scope may have changed meanwhile, but the name stands for the same slot
    obtain ⟨_, _, _, e₁, found, slot⟩ := find?_evolves e evolves
    have outside : st.nextSlot ∉ p.initializers := fun mem => l.next_not_mem (l.known _ mem)
    have left := inner.markInitialized outside e₁ found slot
    exact ⟨closed', left.record (by simp) (by simp)⟩
  | .cls _ h _ _, _, _, _, l => by
    obtain ⟨closed', inner⟩ := h.ledger (l.enterClass _)
    exact ⟨closed', (inner.leaveClass _ _).record (by simp) (by simp)⟩

/-- The same of the members of a class. -/
theorem Roster.ledger {p : Place} {cls : String} {c : Program.ClassDecl} {m m' : Members}
    {st st' : Scopes} {ms : List (Syntax.Method × Program.Method)} {es : History} :
    Roster true p cls c m st ms es m' st' → ∀ {h closed},
      Ledger p.classes p.initializers h closed st →
        ∃ closed', Ledger p.classes p.initializers (h ++ es) closed' st'
  | .nil, _, closed, l => ⟨closed, by rwa [List.append_nil]⟩
  | .cons h _ _ rest, _, _, l => by
    obtain ⟨_, inner⟩ := h.ledger (Scopes.fresh_nil _) (l.enterMember _ _)
    rw [← List.append_assoc]
    exact rest.ledger (inner.leaveMember _ (about_clash ..) (about_clash ..))

end

/-! ### Whole programs -/

/-- The globals that are given are initialized, and lie inside of no class. -/
lemma declareGlobals_initialized (names : List String) {st : Scopes}
    (initialized : ∀ text b, st.globalScope.find? text = some b → b.initialized = true) :
    ((declareGlobals names).after st).enclosing = st.enclosing ∧
      ∀ text b, ((declareGlobals names).after st).globalScope.find? text = some b →
        b.initialized = true := by
  induction names generalizing st with
  | nil => exact ⟨rfl, initialized⟩
  | cons name names ih =>
    rw [declareGlobals, after_bind]
    refine ih fun text b found => ?_
    rcases Scope.find?_put found with rfl | found
    · rfl
    · exact initialized text b found

/-- At first nothing has been declared in a scope. -/
lemma ledger_entry (globals : List String) : Ledger [] [] [] [] (Scopes.entry globals) := by
  obtain ⟨bound, scopes, _, none, _⟩ := entry_spec globals
  have start : ∀ text b, Scopes.start.globalScope.find? text = some b → b.initialized = true :=
    fun _ _ h => nomatch h
  obtain ⟨enclosing, initialized⟩ := declareGlobals_initialized globals start
  have empty : (Scopes.entry globals).bindings = [] := by rw [Scopes.bindings, scopes]; rfl
  refine ⟨enclosing, by simp [empty], List.nodup_nil, by simp, by simp, fun slot hs => ?_,
    fun text b found => ⟨initialized text b found, bound text b found⟩, by simp, by simp [empty],
    by simp [empty], by simp [none], by simp [none]⟩
  obtain ⟨g, hg, rfl⟩ := List.mem_map.1 hs
  exact (holes_entry globals).handed g hg

/-- In a program in which no scope declares a name twice all declarations and globals have
slots of their own. The variables and classes that are reported as unused are those without
a use, each of them once; the uses of a variable in its own initializer are reported in
their order; and a name that nothing declares is reported where it occurs first, if it
does so as a variable. -/
theorem usage_reported (globals : List String) (program : List Syntax.Stmt)
    (once : DeclaresOnce program) :
    ((history globals program).declarations.map Declaration.slot ++
        (resolve globals program).1.globals.map Prod.fst).Nodup ∧
      about .unused (resolve globals program).2 ~
        (history globals program).declarations.filterMap
          (Declaration.unused? (history globals program)) ∧
      about .ownInitializer (resolve globals program).2 =
        (history globals program).occurrences.filterMap Occurrence.ownInitializer? ∧
      ∀ text, undeclaredBy text (resolve globals program).2 =
        (((history globals program).firstHole? (addedGlobals globals program) text).bind
          Occurrence.undeclared?).toList := by
  obtain ⟨_, scopes, _⟩ := entry_spec globals
  obtain ⟨final, run, whole⟩ : ∃ final, ((resolve globals program).1.globals = final.globals ∧
      (resolve globals program).2 = final.problems) ∧
      Chronicle true .outermost (.entry globals) (history globals program) [] final :=
    ⟨_, ⟨rfl, congrArg Prod.snd (resolve_eq globals program)⟩,
      chronicle_program globals fun _ => once⟩
  obtain ⟨closed, l⟩ := whole.ledger (Scopes.fresh_nil _) (ledger_entry globals)
  rw [List.nil_append] at l
  -- all scopes have been closed in the end
  have empty : final.bindings = [] := by
    have texts := whole.texts (Scopes.fresh_nil _)
    rw [extend_nil, Scopes.texts, Scopes.texts, scopes, List.map_nil, List.map_eq_nil_iff] at texts
    rw [Scopes.bindings, texts, List.flatMap_nil]
  have declared := l.declared
  rw [empty, List.map_nil, List.append_nil] at declared
  refine ⟨?_, ?_, ?_, undeclared_reported globals program⟩
  · rw [run.1]
    refine List.nodup_append.2 ⟨l.once, (whole.holes (holes_entry globals)).once, ?_⟩
    rintro slot hs _ hg rfl
    obtain ⟨d, hd, rfl⟩ := List.mem_map.1 hs
    exact (l.inner d hd).2 hg
  · rw [run.2]
    exact l.unused.trans (declared.symm.filterMap _)
  · rw [run.2]
    exact l.own

/-- A variable that is initialized with itself, a class that only its own method mentions,
and two uses of a name that nothing declares. -/
def carelessProgram : List Syntax.Stmt :=
  [.var ⟨"a", 1⟩ (some (.variable ⟨"a", 1⟩)),
    .cls ⟨"B", 2⟩ [⟨.onInstance, ⟨"m", 3⟩, none, [.eval (.variable ⟨"B", 3⟩)]⟩],
    .eval (.variable ⟨"d", 4⟩),
    .eval (.variable ⟨"d", 5⟩)]

/-- No scope of it declares a name twice, and it has one mistake of each kind. -/
theorem usage_reported_careless :
    DeclaresOnce carelessProgram ∧
      about .unused (resolve ["print"] carelessProgram).2 ~ [.unusedClass ⟨"B", 2⟩] ∧
      about .ownInitializer (resolve ["print"] carelessProgram).2 =
        [.usedInOwnInitializer ⟨"a", 1⟩] ∧
      undeclaredBy "d" (resolve ["print"] carelessProgram).2 = [.undeclared ⟨"d", 4⟩] := by
  have once : DeclaresOnce carelessProgram := by
    refine ⟨by decide, trivial, ?_, trivial, trivial, trivial⟩
    exact ⟨List.nodup_nil, List.nodup_nil, ⟨trivial, trivial⟩, trivial⟩
  obtain ⟨_, unused, own, undeclared⟩ := usage_reported ["print"] carelessProgram once
  exact ⟨once, unused.trans (by decide +kernel), own.trans (by decide +kernel),
    (undeclared "d").trans (by decide +kernel)⟩

end Ember
