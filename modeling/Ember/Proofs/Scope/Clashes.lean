/-
The members of a class: which of them are reported as declared already, and what the
tables of the class hold.

* `Syntax.Method.SamePlace`, `ClassRecord.repeats`: the members of a class whose place an
  earlier member has;
* `ClassRecord.Made`: a class comes out of a roster of its members;
* `ClassRecord.latest?`, `Holds`: a table holds the last member that was declared for
  each selector;
* `Chronicle.clashes`: what is reported about members, up to the order;
* `ClassRecord.Made.findMethod?`: what the tables of a class hold.
-/
import Mathlib
import Ember.Proofs.Scope.Chronicle
import Ember.Proofs.Scope.Lexical

namespace Ember

open Program Resolve

/-! ### Members that are declared already -/

/-- What does not belong to the instances of a class belongs to the class. -/
lemma Syntax.MethodKind.not_onInstance (kind : Syntax.MethodKind) :
    ¬kind = .onInstance ↔ kind = .construct ∨ kind = .onClass := by
  cases kind <;> simp

/-- Two members take the same place: both belong to the instances of a class or both
to the class, and they answer to one selector. -/
def Syntax.Method.SamePlace (d e : Syntax.Method) : Prop :=
  (d.kind = .onInstance ↔ e.kind = .onInstance) ∧ d.selector = e.selector

instance (d e : Syntax.Method) : Decidable (d.SamePlace e) := inferInstanceAs (Decidable (_ ∧ _))

/-- The members of a list whose place an earlier one has, in the list or before it. -/
def repeated (earlier : List Syntax.Method) : List Syntax.Method → List Syntax.Method
  | [] => []
  | d :: rest =>
    (if ∃ e ∈ earlier, e.SamePlace d then [d] else []) ++ repeated (earlier ++ [d]) rest

/-- The report of a member whose place is taken in the class called `cls`. -/
def alreadyDeclared (cls : String) (d : Syntax.Method) : ScopeProblem :=
  .methodAlreadyDeclared d.name d.selector cls

namespace ClassRecord

/-- The members of a class whose place an earlier one has. -/
def repeats (r : ClassRecord) : List Syntax.Method := repeated [] (r.members.map Prod.fst)

/-- The reports of such members. -/
def clashes (r : ClassRecord) : List ScopeProblem := r.repeats.map (alreadyDeclared r.name.text)

/-- A class comes out of a roster of its members. -/
def Made (once : Bool) (r : ClassRecord) : Prop :=
  ∃ p st es m st₁ receiver staticReceiver statics,
    Roster once p r.name.text r.decl (.start receiver) st r.members es m st₁ ∧
      r.decl = classOf r.name receiver staticReceiver m statics

end ClassRecord

/-- No member is repeated exactly if no two of them take the same place. -/
lemma repeated_eq_nil {earlier ds : List Syntax.Method} :
    repeated earlier ds = [] ↔
      (∀ e ∈ earlier, ∀ d ∈ ds, ¬e.SamePlace d) ∧ ds.Pairwise fun e d => ¬e.SamePlace d := by
  induction ds generalizing earlier with
  | nil => simp [repeated]
  | cons d ds ih =>
    rw [repeated, List.append_eq_nil_iff, ih, List.pairwise_cons]
    simp only [List.forall_mem_append, List.forall_mem_cons, List.not_mem_nil, false_imp_iff,
      implies_true, and_true, ite_eq_right_iff, List.cons_ne_self, imp_false, not_exists, not_and]
    constructor
    · rintro ⟨here, ⟨before, after⟩, rest⟩
      exact ⟨fun e he => ⟨here e he, before e he⟩, after, rest⟩
    · rintro ⟨before, after, rest⟩
      exact ⟨fun e he => (before e he).1, ⟨fun e he => (before e he).2, after⟩, rest⟩

mutual

/-- Every class of a history comes out of a roster of its members. -/
theorem Chronicle.made {once : Bool} {p : Place} {st st' : Scopes} {es : History}
    {ns : List String} : Chronicle once p st es ns st' → ∀ r ∈ es.classes, r.Made once
  | .done | .skip | .assignedClass _ | .invalidTarget _ | .near _ _ | .far _ _ _ | .known _ _ _
  | .new _ _ _ | .this _ _ | .hole _ | .declare _ _ _ _ => by simp
  | .seq h h' => by
    rw [History.classes_append]
    exact List.forall_mem_append.2 ⟨h.made, h'.made⟩
  | .scope h _ => h.made
  | .var _ _ h _ => h.made
  | .cls _ h _ e => by
    rw [History.classes_append]
    refine List.forall_mem_append.2 ⟨h.made, fun r hr => ?_⟩
    rw [List.mem_singleton.1 hr]
    exact ⟨_, _, _, _, _, _, _, _, h, e⟩

/-- The classes made within the members of a class come out of rosters too. -/
theorem Roster.made {once : Bool} {p : Place} {cls : String} {c : ClassDecl} {m m' : Members}
    {st st' : Scopes} {ms : List (Syntax.Method × Method)} {es : History} :
    Roster once p cls c m st ms es m' st' → ∀ r ∈ es.classes, r.Made once
  | .nil => by simp
  | .cons h _ _ h' => by
    rw [History.classes_append]
    exact List.forall_mem_append.2 ⟨h.made, h'.made⟩

end

/-! ### What the tables hold -/

/-- The last member of a kind that answers to a selector. -/
def latestMember? (kind : Syntax.MethodKind) (s : Selector)
    (ms : List (Syntax.Method × Method)) : Option Method :=
  (ms.reverse.find? fun e => e.1.kind = kind ∧ e.1.selector = s).map Prod.snd

/-- The tables of a class hold the last one of the given members for each selector. -/
def Holds (m : Members) (ms : List (Syntax.Method × Method)) : Prop :=
  ∀ kind s, findMethod? s (m.table kind) = latestMember? kind s ms

/-- The empty tables hold no member. -/
lemma holds_start (receiver : Slot) : Holds (.start receiver) [] := by
  intro kind s
  cases kind <;> rfl

/-- A member that is added last is the one that is found for its kind and selector. -/
lemma latestMember?_concat (kind : Syntax.MethodKind) (s : Selector)
    (ms : List (Syntax.Method × Method)) (d : Syntax.Method) (x : Method) :
    latestMember? kind s (ms ++ [(d, x)]) =
      if d.kind = kind ∧ d.selector = s then some x else latestMember? kind s ms := by
  rw [latestMember?, List.reverse_append, List.reverse_singleton, List.singleton_append,
    List.find?_cons]
  by_cases h : d.kind = kind ∧ d.selector = s
  · simp [h]
  · rw [if_neg h, decide_eq_false h]
    rfl

/-- A member is added to the table of its kind. -/
lemma Resolve.Members.table_add (m : Members) (kind k : Syntax.MethodKind) (x : Method) :
    (m.add kind x).table k =
      if kind = k then insertByKey Method.selector x (m.table k) else m.table k := by
  cases kind <;> cases k <;> rfl

/-- Tables with a member added hold that member as well, and in its place no other. -/
lemma Holds.add {m : Members} {ms : List (Syntax.Method × Method)} (h : Holds m ms)
    {d : Syntax.Method} {x : Method} (selector : x.selector = d.selector) (side : FieldScope) :
    Holds { m.add d.kind x with instanceSide := side } (ms ++ [(d, x)]) := by
  intro kind s
  have same : Members.table { m.add d.kind x with instanceSide := side } kind =
      (m.add d.kind x).table kind := by
    cases kind <;> rfl
  rw [same, latestMember?_concat, Members.table_add]
  by_cases hk : d.kind = kind
  · by_cases hs : d.selector = s
    · rw [if_pos hk, if_pos ⟨hk, hs⟩, findMethod?, ← hs, ← selector]
      exact findByKey?_insertByKey_self ..
    · rw [if_pos hk, if_neg fun both => hs both.2, findMethod?,
        findByKey?_insertByKey_of_ne _ _ _ (selector ▸ hs)]
      exact h kind s
  · rw [if_neg hk, if_neg fun both => hk both.1]
    exact h kind s

/-- After a roster the tables hold its members. -/
theorem Roster.holds {once : Bool} {p : Place} {cls : String} {c : ClassDecl} {m m' : Members}
    {st st' : Scopes} {before ms : List (Syntax.Method × Method)} {es : History} :
    Roster once p cls c m st ms es m' st' → Holds m before → Holds m' (before ++ ms)
  | .nil, h => by rwa [List.append_nil]
  | .cons _ _ selector rest, h => by
    have later := rest.holds (h.add selector _)
    rwa [List.append_assoc] at later

/-- Some member is found last exactly if there is one of the kind with the selector. -/
lemma isSome_latestMember? (kind : Syntax.MethodKind) (s : Selector)
    (ms : List (Syntax.Method × Method)) :
    (latestMember? kind s ms).isSome ↔ ∃ d ∈ ms.map Prod.fst, d.kind = kind ∧ d.selector = s := by
  simp [latestMember?]

/-- A place is taken exactly if a member before has it. -/
lemma Holds.isTaken {m : Members} {ms : List (Syntax.Method × Method)} (h : Holds m ms)
    (d : Syntax.Method) :
    m.isTaken d.kind d.selector = true ↔ ∃ e ∈ ms.map Prod.fst, e.SamePlace d := by
  have onClass := isSome_latestMember? .onClass d.selector ms
  have construct := isSome_latestMember? .construct d.selector ms
  have onInstance := isSome_latestMember? .onInstance d.selector ms
  rw [← h] at onClass construct onInstance
  cases hd : d.kind with
  | onInstance =>
    simp only [Members.isTaken, Syntax.Method.SamePlace, hd, iff_true]
    exact onInstance
  | construct | onClass =>
    simp only [Members.isTaken, Syntax.Method.SamePlace, hd, reduceCtorEq, iff_false,
      Syntax.MethodKind.not_onInstance, Bool.or_eq_true]
    refine (or_congr construct onClass).trans ?_
    simp only [or_and_right, and_or_left, exists_or]

/-! ### What is reported -/

/-- A member clashes exactly with an earlier one in its place. -/
lemma Holds.clash {m : Members} {ms : List (Syntax.Method × Method)} (h : Holds m ms) (cls : String)
    (d : Syntax.Method) : clash cls m d =
      (if ∃ e ∈ ms.map Prod.fst, e.SamePlace d then [d] else []).map (alreadyDeclared cls) := by
  have taken := h.isTaken d
  rw [Ember.clash]
  split
  · rename_i hd
    rw [if_pos (taken.1 hd)]
    rfl
  · rename_i hd
    rw [if_neg fun some => hd (taken.2 some)]
    rfl

section count

variable (q : ScopeProblem)

mutual

/-- What is reported about members is what the classes that are made have to report. -/
theorem Chronicle.count_clashes {once : Bool} {p : Place} {st st' : Scopes} {es : History}
    {ns : List String} : Chronicle once p st es ns st' →
      (about .member st'.problems).count q =
        (about .member st.problems).count q + (es.classes.flatMap ClassRecord.clashes).count q
  | .done | .skip | .known _ _ _ | .new _ _ _ | .this _ _ => by simp
  | .assignedClass _ | .invalidTarget _ => by simp [about, ScopeProblem.topic]
  | .near _ _ | .far _ _ _ => by simp
  | .hole h => by simp [h.about_eq_nil]
  | .declare _ _ e _ => by simp [after_declare_eq _ _ _ e]
  | .seq h h' => by
    have first := h.count_clashes
    have second := h'.count_clashes
    simp only [History.classes_append, List.flatMap_append, List.count_append]
    omega
  | .scope h _ => by simpa using h.count_clashes
  | .var _ e h _ => by simpa [after_declare_eq _ _ _ e] using h.count_clashes
  | .cls _ h _ _ => by
    simpa [ClassRecord.clashes, ClassRecord.repeats, Nat.add_assoc] using
      h.count_clashes (holds_start _)

/-- What is reported about members along a roster are the members of it that repeat an
earlier one, and what the classes made within them repeat. -/
theorem Roster.count_clashes {once : Bool} {p : Place} {cls : String} {c : ClassDecl}
    {m m' : Members} {st st' : Scopes} {before ms : List (Syntax.Method × Method)} {es : History} :
    Roster once p cls c m st ms es m' st' → Holds m before →
      (about .member st'.problems).count q =
        (about .member st.problems).count q + (es.classes.flatMap ClassRecord.clashes).count q +
          ((repeated (before.map Prod.fst) (ms.map Prod.fst)).map (alreadyDeclared cls)).count q
  | .nil, _ => by simp [repeated]
  | .cons h _ selector rest, holds => by
    have first := h.count_clashes
    have second := rest.count_clashes (holds.add selector _)
    simp only [problems_enterMember, Scopes.problems_noting, problems_leaveMember, about_append,
      about_clash, if_true, List.count_append, List.map_append, List.map_cons, List.map_nil]
      at first second
    rw [holds.clash] at second
    simp only [History.classes_append, List.flatMap_append, List.count_append, List.map_cons,
      repeated, List.map_append]
    omega

end

end count

/-- What is reported about members is what the classes of the program have to report. -/
theorem clashes_reported (globals : List String) (program : List Syntax.Stmt) :
    (about .member (resolve globals program).2).Perm
      ((history globals program).classes.flatMap ClassRecord.clashes) := by
  obtain ⟨_, _, _, none, _⟩ := entry_spec globals
  have whole : Chronicle false .outermost (.entry globals) (history globals program) [] _ :=
    chronicle_program globals fun h => nomatch h
  refine List.perm_iff_count.2 fun q => ?_
  have counted := whole.count_clashes q
  rw [none] at counted
  rw [resolve_eq]
  simpa using counted

/-! ### What the tables of a class hold -/

lemma ClassRecord.Made.holds {once : Bool} {r : ClassRecord} (h : r.Made once)
    (kind : Syntax.MethodKind) (s : Selector) :
    findMethod? s (match kind with
      | .construct => r.decl.constructors
      | .onClass => r.decl.staticMethods
      | .onInstance => r.decl.methods) = latestMember? kind s r.members := by
  obtain ⟨p, st, es, m, st₁, receiver, staticReceiver, statics, roster, e⟩ := h
  have holds := roster.holds (holds_start receiver) kind s
  rw [e]
  cases kind <;> exact holds

end Ember
