/-
Names that are left undeclared.

* `Scopes.Inner`: slots that are handed out, and not to a global;
* `History.firstHole?`, `Occurrence.undeclared?`: the first occurrence of a name that
  gets one of the given slots, and the mistake it is if it is a variable;
* `Holes`: the globals that are made on the way are those of such occurrences, and the
  first of each name is reported;
* `Chronicle.holes`: no step changes that;
* `undeclared_reported`: a whole program.
-/
import Mathlib
import Ember.Proofs.Scope.Sides

namespace Ember

open Resolve

/-! ### Bindings by place -/

section keyed

variable {α κ : Type} [DecidableEq κ] {key : α → κ} {x y : α} {xs : List α}

/-- What is put in the place of an element stands where that was. -/
lemma putByKey_split (found : findByKey? key (key y) xs = some x) :
    ∃ before after, xs = before ++ x :: after ∧ putByKey key y xs = before ++ y :: after := by
  induction xs with
  | nil => cases found
  | cons z zs ih =>
    rw [findByKey?_cons] at found
    rw [putByKey]
    by_cases e : key z = key y
    · rw [if_pos e] at found ⊢
      cases found
      exact ⟨[], zs, rfl, rfl⟩
    · rw [if_neg e] at found ⊢
      obtain ⟨before, after, rfl, put⟩ := ih found
      exact ⟨z :: before, after, rfl, by rw [put, List.cons_append]⟩

/-- What has no place so far is put at the end. -/
lemma putByKey_concat (absent : findByKey? key (key y) xs = none) :
    putByKey key y xs = xs ++ [y] := by
  induction xs with
  | nil => rfl
  | cons z zs ih =>
    rw [findByKey?_cons] at absent
    rw [putByKey]
    by_cases e : key z = key y
    · rw [if_pos e] at absent
      cases absent
    · rw [if_neg e] at absent ⊢
      rw [ih absent, List.cons_append]

end keyed

namespace Scope

variable {s : Scope} {b c : Binding}

/-- A binding that is put in the place of another of its name. -/
lemma put_split (found : s.find? c.text = some b) :
    ∃ before after, s.bindings = before ++ b :: after ∧
      (s.put c).bindings = before ++ c :: after :=
  putByKey_split found

/-- A binding of a new name is put behind the others. -/
lemma put_concat (absent : s.find? b.text = none) : (s.put b).bindings = s.bindings ++ [b] :=
  putByKey_concat absent

/-- Whatever is bound was so before, but for what has been put there. -/
lemma mem_put (hc : c ∈ (s.put b).bindings) : c = b ∨ c ∈ s.bindings := by
  cases found : s.find? b.text with
  | none =>
    rw [put_concat found] at hc
    simpa [or_comm] using hc
  | some b' =>
    obtain ⟨before, after, here, there⟩ := put_split found
    rw [there] at hc
    rw [here]
    simp only [List.mem_append, List.mem_cons] at hc ⊢
    tauto

/-- Slots stay where they are when a binding takes the place of another with its slot. -/
lemma slots_put (found : s.find? c.text = some b) (slot : c.slot = b.slot) :
    (s.put c).bindings.map Binding.slot = s.bindings.map Binding.slot := by
  obtain ⟨before, after, here, put⟩ := put_split found
  rw [put, here]
  simp [slot]

/-- What is put in the place of a binding with its slot changes no slots. -/
lemma slot_find?_put (found : s.find? c.text = some b) (slot : c.slot = b.slot) (text : String) :
    ((s.put c).find? text).map Binding.slot = (s.find? text).map Binding.slot := by
  by_cases e : c.text = text
  · rw [← e, find?_put_self, found, Option.map_some, Option.map_some, slot]
  · rw [find?_put_of_ne s e]

end Scope

/-- The bindings of all scopes, innermost first. -/
def Scopes.bindings (st : Scopes) : List Binding := st.scopes.flatMap Scope.bindings

@[simp] lemma text_markUsed (enclosing : List Slot) (b : Binding) :
    (markUsed enclosing b).text = b.text := by
  rw [markUsed]
  split <;> rfl

@[simp] lemma slot_markUsed (enclosing : List Slot) (b : Binding) :
    (markUsed enclosing b).slot = b.slot := by
  rw [markUsed]
  split <;> rfl

/-- The nearest binding of a name is marked in the scope where it is found. -/
lemma useIn_split {enclosing : List Slot} {text : String} {scopes scopes' : List Scope}
    {b : Binding} (h : useIn enclosing text scopes = some (b, scopes')) :
    ∃ inner s outer, scopes = inner ++ s :: outer ∧ s.find? text = some b ∧
      scopes' = inner ++ s.put (markUsed enclosing b) :: outer := by
  induction scopes generalizing scopes' with
  | nil => cases h
  | cons s rest ih =>
    rw [useIn] at h
    cases hs : s.find? text with
    | some c =>
      rw [hs] at h
      cases h
      exact ⟨[], s, rest, rfl, hs, rfl⟩
    | none =>
      rw [hs] at h
      obtain ⟨⟨c, rest'⟩, hrest, e⟩ := Option.map_eq_some_iff.1 h
      cases e
      obtain ⟨inner, t, outer, rfl, found, rfl⟩ := ih hrest
      exact ⟨s :: inner, t, outer, rfl, found, rfl⟩

/-- The nearest binding of a name is marked where it stands. -/
lemma bindings_useIn {st : Scopes} {text : String} {scopes : List Scope} {b : Binding}
    (h : useIn st.enclosing text st.scopes = some (b, scopes)) :
    ∃ before after, st.bindings = before ++ b :: after ∧
      scopes.flatMap Scope.bindings = before ++ markUsed st.enclosing b :: after := by
  obtain ⟨inner, s, outer, e, found, rfl⟩ := useIn_split h
  obtain ⟨before, after, here, put⟩ := Scope.put_split (c := markUsed st.enclosing b) (by
    rw [text_markUsed, Scope.text_of_find? found]
    exact found)
  refine ⟨inner.flatMap Scope.bindings ++ before, after ++ outer.flatMap Scope.bindings, ?_, ?_⟩
  · simp [Scopes.bindings, e, here]
  · simp [put]

/-! ### Slots of globals and others -/

/-- The slot has been handed out, and not to a global. -/
def Scopes.Inner (st : Scopes) (slot : Slot) : Prop :=
  slot.index < st.nextSlot.index ∧ slot ∉ st.globals.map Prod.fst

/-- A hole is filled with one global more. -/
lemma globals_filled (st : Scopes) (ps : List ScopeProblem) (word : Name) :
    ((st.noting ps).filled word).globals = st.globals ++ [(st.nextSlot, word.text)] := rfl

/-- The next slot is not among those that have been handed out. -/
lemma next_not_mem {gs : List (Slot × String)} {next : Slot}
    (handed : ∀ g ∈ gs, g.1.index < next.index) : next ∉ gs.map Prod.fst := fun mem => by
  obtain ⟨g, hg, e⟩ := List.mem_map.1 mem
  exact Nat.lt_irrefl _ (e ▸ handed g hg)

section inner

variable {st st' : Scopes} {slot : Slot}

/-- Slots that are handed out, and not to a global, stay so. -/
lemma Scopes.Inner.later (h : st.Inner slot) (next : st.nextSlot.index ≤ st'.nextSlot.index)
    (globals : st'.globals = st.globals) : st'.Inner slot :=
  ⟨h.1.trans_le next, globals ▸ h.2⟩

/-- A hole is filled with a slot of its own. -/
lemma Scopes.Inner.filled (h : st.Inner slot) (ps : List ScopeProblem) (word : Name) :
    ((st.noting ps).filled word).Inner slot := by
  refine ⟨Nat.lt_succ_of_lt h.1, fun mem => ?_⟩
  rw [globals_filled, List.map_append] at mem
  rcases List.mem_append.1 mem with mem | mem
  · exact h.2 mem
  · exact Nat.lt_irrefl _ (List.mem_singleton.1 mem ▸ h.1)

@[simp] lemma globals_leaveMember (kind : Syntax.MethodKind) :
    (leaveMember kind st).globals = st.globals := by
  cases kind <;> rfl

@[simp] lemma globals_enterMember (m : Members) (kind : Syntax.MethodKind) :
    (enterMember m kind st).globals = st.globals := by
  cases kind <;> rfl

@[simp] lemma nextSlot_leaveMember (kind : Syntax.MethodKind) :
    (leaveMember kind st).nextSlot = st.nextSlot := by
  cases kind <;> rfl

@[simp] lemma nextSlot_enterMember (m : Members) (kind : Syntax.MethodKind) :
    (enterMember m kind st).nextSlot = st.nextSlot := by
  cases kind <;> rfl

end inner

mutual

/-- A slot that is handed out is never made a global. -/
theorem Chronicle.inner {once : Bool} {p : Place} {st st' : Scopes} {es : History}
    {ns : List String} : Chronicle once p st es ns st' → ∀ {slot}, st.Inner slot → st'.Inner slot
  | .done, _, h | .assignedClass _, _, h | .invalidTarget _, _, h | .near _ _, _, h
  | .far _ _ _, _, h | .known _ _ _, _, h | .this _ _, _, h => h.later (Nat.le_refl _) rfl
  | .skip, _, h | .new _ _ _, _, h => h.later (Nat.le_succ _) rfl
  | .hole _, _, h => h.filled _ _
  | .declare _ _ e _, _, h => by
    rw [after_declare_eq _ _ _ e]
    exact h.later (Nat.le_succ _) rfl
  | .seq h h', _, inner => h'.inner (h.inner inner)
  | .scope h _, _, inner => (h.inner (inner.later (Nat.le_refl _) rfl)).later (Nat.le_refl _) rfl
  | .var _ e h _, _, inner => by
    have opened := h.inner (by
      rw [after_declare_eq _ _ _ e]
      exact inner.later (Nat.le_succ _) rfl)
    exact opened.later (by simp) (globals_modifyInnermost ..)
  | .cls _ h _ _, _, inner =>
    (h.inner (inner.later (Nat.le_add_right _ 2) rfl)).later (by simp) (globals_modifyInnermost ..)

/-- The members of a class leave the slots that are handed out as they are. -/
theorem Roster.inner {once : Bool} {p : Place} {cls : String} {c : Program.ClassDecl}
    {m m' : Members} {st st' : Scopes} {ms : List (Syntax.Method × Program.Method)} {es : History} :
    Roster once p cls c m st ms es m' st' → ∀ {slot}, st.Inner slot → st'.Inner slot
  | .nil, _, h => h
  | .cons h _ _ rest, _, inner =>
    rest.inner ((h.inner (inner.later (by simp) (by simp))).later (by simp)
      (by simp [Scopes.noting]))

end

/-! ### First occurrences -/

/-- The first occurrence of a name that gets one of the given slots. -/
def History.firstHole? (made : List Slot) (text : String) (h : History) : Option Occurrence :=
  h.occurrences.find? fun o => o.word.text = text ∧ o.slot ∈ made

/-- The mistake of using a variable that nothing declares. -/
def Occurrence.undeclared? (o : Occurrence) : Option ScopeProblem :=
  if o.kind = .variable then some (.undeclared o.word) else none

/-- The mistakes of using what nothing declares by one name. -/
def undeclaredBy (text : String) (ps : List ScopeProblem) : List ScopeProblem :=
  (about .undeclared ps).filter fun q => q.name?.map Name.text = some text

@[simp] lemma undeclaredBy_append (text : String) (ps qs : List ScopeProblem) :
    undeclaredBy text (ps ++ qs) = undeclaredBy text ps ++ undeclaredBy text qs := by
  simp [undeclaredBy]

/-- A missing variable is reported by its name, and nothing else is. -/
lemma Missing.undeclaredBy {st : Scopes} {kind : OccurrenceKind} {word : Name}
    {ps : List ScopeProblem} (h : Missing st kind word ps) (text : String) (slot : Slot)
    (p : Place) : undeclaredBy text ps =
      if word.text = text then (Occurrence.undeclared? ⟨kind, word, slot, p⟩).toList else [] := by
  cases h with
  | unbound =>
    by_cases e : word.text = text <;>
      simp [Ember.undeclaredBy, about, ScopeProblem.topic, ScopeProblem.name?,
        Occurrence.undeclared?, e]
  | field _ | onClass _ _ | staticField _ | this _ | invalid =>
    simp [Ember.undeclaredBy, about, ScopeProblem.topic, Occurrence.undeclared?]

/-- A missing variable is not bound to a global. -/
lemma Missing.unbound_global {st : Scopes} {word : Name} {ps : List ScopeProblem}
    (h : Missing st .variable word ps) : st.globalScope.find? word.text = none := by
  cases h with
  | unbound _ none => exact none

/-! ### Holes -/

namespace Scopes

/-- The slots of variables, parameters and classes in scope, and of the fields and
receivers around. -/
def inside (st : Scopes) : List Slot :=
  st.bindings.map Binding.slot ++ st.fieldScopes.flatMap FieldScope.slots

/-- The slots of the globals that come after the first `n`. -/
def made (n : Nat) (st : Scopes) : List Slot := (st.globals.drop n).map Prod.fst

/-- Globals, and what is reported about names that are not declared, stay as they are. -/
structure Steady (st st' : Scopes) : Prop where
  next : st.nextSlot.index ≤ st'.nextSlot.index
  globals : st'.globals = st.globals
  named : ∀ text, (st'.globalScope.find? text).map Binding.slot =
    (st.globalScope.find? text).map Binding.slot
  undeclared : about .undeclared st'.problems = about .undeclared st.problems

end Scopes

/-- The first `n` globals are given. Each of the others is that of an occurrence of its
name, and the first of these is reported if it is a variable. -/
structure Holes (n : Nat) (h : History) (st : Scopes) : Prop where
  count : n ≤ st.globals.length
  once : (st.globals.map Prod.fst).Nodup
  handed : ∀ g ∈ st.globals, g.1.index < st.nextSlot.index
  mirrors : st.globalScope.Mirrors st.globals
  inside : ∀ slot ∈ st.inside, st.Inner slot
  old : ∀ o ∈ h.occurrences, o.slot.index < st.nextSlot.index
  named : ∀ o ∈ h.occurrences, o.slot ∈ st.made n → (o.slot, o.word.text) ∈ st.globals
  filled : ∀ g ∈ st.globals.drop n, ∃ o ∈ h.occurrences, (o.slot, o.word.text) = g
  first : ∀ text, undeclaredBy text st.problems =
    ((h.firstHole? (st.made n) text).bind Occurrence.undeclared?).toList

namespace Holes

variable {n : Nat} {h : History} {st st' : Scopes}

/-- A step that leaves the globals alone. -/
lemma steady (holes : Holes n h st) (steady : st.Steady st')
    (inside : ∀ slot ∈ st'.inside, slot ∈ st.inside ∨ st'.Inner slot) : Holes n h st' := by
  obtain ⟨next, globals, named, undeclared⟩ := steady
  have made : st'.made n = st.made n := by rw [Scopes.made, globals, Scopes.made]
  refine ⟨globals ▸ holes.count, globals ▸ holes.once, fun g hg => ?_, fun text => ?_,
    fun slot hs => ?_, fun o ho => (holes.old o ho).trans_le next, ?_, globals ▸ holes.filled,
    fun text => ?_⟩
  · exact (holes.handed g (globals ▸ hg)).trans_le next
  · rw [named, globals]
    exact holes.mirrors text
  · rcases inside slot hs with old | new
    · exact (holes.inside slot old).later next globals
    · exact new
  · rw [made, globals]
    exact holes.named
  · rw [undeclaredBy, undeclared, made]
    exact holes.first text

/-- An occurrence that leaves the state alone has the slot of an earlier one of its name,
or none of a new global. -/
lemma occurs (holes : Holes n h st) {o : Occurrence} (handed : o.slot.index < st.nextSlot.index)
    (known : o.slot ∈ st.made n → (o.slot, o.word.text) ∈ st.globals.drop n) :
    Holes n (h ++ [.occurs o]) st where
  count := holes.count
  once := holes.once
  handed := holes.handed
  mirrors := holes.mirrors
  inside := holes.inside
  old := by
    simpa [or_imp, forall_and] using ⟨holes.old, handed⟩
  named := by
    simpa [or_imp, forall_and] using
      ⟨holes.named, fun mem => List.mem_of_mem_drop (known mem)⟩
  filled g hg := by
    obtain ⟨o', ho', e⟩ := holes.filled g hg
    exact ⟨o', by simp [ho'], e⟩
  first text := by
    rw [holes.first, History.firstHole?, History.firstHole?, History.occurrences_append,
      List.find?_append]
    by_cases here : o.word.text = text ∧ o.slot ∈ st.made n
    · obtain ⟨o', ho', e⟩ := holes.filled _ (known here.2)
      obtain ⟨slot, word⟩ := Prod.mk.inj e
      have found : (h.firstHole? (st.made n) text).isSome :=
        List.find?_isSome.2 ⟨o', ho', by simpa [word, slot] using here⟩
      obtain ⟨first, hfirst⟩ := Option.isSome_iff_exists.1 found
      rw [History.firstHole?] at hfirst
      rw [hfirst, Option.some_or]
    · rw [History.occurrences_occurs, History.occurrences_nil,
        List.find?_cons_of_neg (by simpa using here), List.find?_nil, Option.or_none]

/-- An occurrence of what is no global. -/
lemma occursInner (holes : Holes n h st) {o : Occurrence} (inner : st.Inner o.slot) :
    Holes n (h ++ [.occurs o]) st := by
  refine holes.occurs inner.1 fun made => ?_
  obtain ⟨g, hg, e⟩ := List.mem_map.1 made
  exact absurd (List.mem_map.2 ⟨g, List.mem_of_mem_drop hg, e⟩) inner.2

/-- Only the occurrences of a history matter. -/
lemma record (holes : Holes n h st) {h' : History} (same : h'.occurrences = h.occurrences) :
    Holes n h' st := by
  refine { holes with old := ?_, named := ?_, filled := ?_, first := fun text => ?_ }
  · exact same ▸ holes.old
  · exact same ▸ holes.named
  · exact same ▸ holes.filled
  · rw [History.firstHole?, same]
    exact holes.first text

section filled

variable (ps : List ScopeProblem) (word : Name)

/-- A filled hole adds a global to those that are made. -/
lemma drop_filled (holes : Holes n h st) :
    ((st.noting ps).filled word).globals.drop n =
      st.globals.drop n ++ [(st.nextSlot, word.text)] := by
  rw [globals_filled, List.drop_append_of_le_length holes.count]

/-- A filled hole adds its slot to those that are made. -/
lemma made_filled (holes : Holes n h st) :
    ((st.noting ps).filled word).made n = st.made n ++ [st.nextSlot] := by
  rw [Scopes.made, holes.drop_filled, List.map_append]
  rfl

/-- What occurred before does not get the new global. -/
lemma old_filled (holes : Holes n h st) {o : Occurrence} (ho : o ∈ h.occurrences) :
    o.slot ∈ ((st.noting ps).filled word).made n ↔ o.slot ∈ st.made n := by
  have ne : o.slot ≠ st.nextSlot := fun e => Nat.lt_irrefl _ (e ▸ holes.old o ho)
  simp [holes.made_filled, ne]

/-- A filled hole is the first of its name unless there was one before. -/
lemma firstHole?_filled (holes : Holes n h st) (kind : OccurrenceKind) (p : Place) (text : String) :
    History.firstHole? (((st.noting ps).filled word).made n) text
        (h ++ [.occurs ⟨kind, word, st.nextSlot, p⟩]) =
      (h.firstHole? (st.made n) text).or
        (if word.text = text then some ⟨kind, word, st.nextSlot, p⟩ else none) := by
  rw [History.firstHole?, History.occurrences_append, List.find?_append]
  refine congrArg₂ Option.or (List.find?_congr fun o ho => ?_) ?_
  · simp only [holes.old_filled ps word ho]
  · by_cases e : word.text = text <;> simp [holes.made_filled, e]

end filled

/-- A missing variable is the first hole of its name. -/
lemma firstHole?_unbound (holes : Holes n h st) {word : Name} {ps : List ScopeProblem}
    (missing : Missing st .variable word ps) : h.firstHole? (st.made n) word.text = none := by
  cases hfirst : h.firstHole? (st.made n) word.text with
  | none => rfl
  | some o =>
    obtain ⟨text, made⟩ : o.word.text = word.text ∧ o.slot ∈ st.made n := by
      simpa using List.find?_some hfirst
    have listed := holes.named o (List.mem_of_find?_eq_some hfirst) made
    rw [text] at listed
    -- an earlier hole would have left a global for the variable to find
    have latest := holes.mirrors word.text
    rw [missing.unbound_global, Option.map_none] at latest
    exact absurd latest.symm (latest?_of_mem (List.mem_map_of_mem listed))

/-- A filled hole is reported if it is the first of its name and that of a variable. -/
lemma first_filled (holes : Holes n h st) {kind : OccurrenceKind} {word : Name}
    {ps : List ScopeProblem} (missing : Missing st kind word ps) (p : Place) (text : String) :
    undeclaredBy text (st.problems ++ ps) =
      ((History.firstHole? (((st.noting ps).filled word).made n) text
        (h ++ [.occurs ⟨kind, word, st.nextSlot, p⟩])).bind Occurrence.undeclared?).toList := by
  rw [undeclaredBy_append, holes.first, holes.firstHole?_filled,
    missing.undeclaredBy text st.nextSlot p]
  by_cases e : word.text = text
  · subst e
    rw [if_pos rfl, if_pos rfl]
    by_cases k : kind = .variable
    · subst k
      rw [holes.firstHole?_unbound missing]
      rfl
    · have other : Occurrence.undeclared? ⟨kind, word, st.nextSlot, p⟩ = none := if_neg k
      cases h.firstHole? (st.made n) word.text <;> simp [other]
  · rw [if_neg e, if_neg e, List.append_nil, Option.or_none]

/-- A hole gets a new global. -/
lemma hole (holes : Holes n h st) {kind : OccurrenceKind} {word : Name} {ps : List ScopeProblem}
    (missing : Missing st kind word ps) (p : Place) :
    Holes n (h ++ [.occurs ⟨kind, word, st.nextSlot, p⟩]) ((st.noting ps).filled word) := by
  have globals := globals_filled st ps word
  refine ⟨?_, ?_, ?_, holes.mirrors.put _, fun slot hs => (holes.inside slot hs).filled ps word,
    ?_, ?_, ?_, holes.first_filled missing p⟩
  · rw [globals, List.length_append]
    exact holes.count.trans (Nat.le_add_right _ _)
  · rw [globals, List.map_append]
    exact List.concat_eq_append ▸ holes.once.concat (next_not_mem holes.handed)
  · rw [globals, List.forall_mem_append, List.forall_mem_singleton]
    exact ⟨fun g hg => Nat.lt_succ_of_lt (holes.handed g hg), Nat.lt_succ_self _⟩
  · rw [History.occurrences_append, List.forall_mem_append]
    exact ⟨fun o ho => Nat.lt_succ_of_lt (holes.old o ho),
      List.forall_mem_singleton.2 (Nat.lt_succ_self _)⟩
  · rw [History.occurrences_append, List.forall_mem_append, globals]
    refine ⟨fun o ho made => ?_, by simp⟩
    exact List.mem_append_left _ (holes.named o ho ((holes.old_filled ps word ho).1 made))
  · rw [holes.drop_filled, List.forall_mem_append, List.forall_mem_singleton]
    refine ⟨fun g hg => ?_, ⟨kind, word, st.nextSlot, p⟩, by simp, rfl⟩
    obtain ⟨o, ho, e⟩ := holes.filled g hg
    exact ⟨o, by simp [ho], e⟩

/-- The innermost scope is changed, but neither its slots nor what they are found by. -/
lemma modify (holes : Holes n h st) {f : Scope → Scope}
    (slots : ∀ s, (f s).bindings.map Binding.slot = s.bindings.map Binding.slot)
    (found : ∀ s text, ((f s).find? text).map Binding.slot = (s.find? text).map Binding.slot) :
    Holes n h ((modifyInnermost f).after st) := by
  refine holes.steady ⟨by simp, by simp, fun text => ?_, by simp⟩ fun slot hs => .inl ?_
  · rw [modifyInnermost, after_modify]
    split
    · exact found _ text
    · rfl
  · rw [Scopes.inside, fieldScopes_modifyInnermost] at hs
    rw [modifyInnermost, after_modify] at hs
    split at hs
    · rename_i e
      simpa [Scopes.inside, Scopes.bindings, e] using hs
    · rename_i s rest e
      simpa [Scopes.inside, Scopes.bindings, e, slots] using hs

/-- That a variable is initialized changes nothing about holes. -/
lemma markInitialized (holes : Holes n h st) (text : String) :
    Holes n h ((Resolve.markInitialized text).after st) := by
  refine holes.modify (fun s => ?_) fun s t => ?_
  · cases e : s.find? text with
    | none => rfl
    | some b =>
      have found : s.find? b.text = some b := by rwa [Scope.text_of_find? e]
      exact Scope.slots_put found rfl
  · cases e : s.find? text with
    | none => rfl
    | some b =>
      have found : s.find? b.text = some b := by rwa [Scope.text_of_find? e]
      exact Scope.slot_find?_put (c := { b with initialized := true }) found rfl t

/-- A variable in scope is used. -/
lemma near (holes : Holes n h st) {word : Name} {b : Binding} {scopes : List Scope}
    (used : useIn st.enclosing word.text st.scopes = some (b, scopes)) (p : Place) :
    Holes n (h ++ [.occurs ⟨.variable, word, b.slot, p⟩])
      (Scopes.noting { st with scopes } (ownUse word b)) := by
  obtain ⟨before, after, here, there⟩ := bindings_useIn used
  have inner : st.Inner b.slot :=
    holes.inside _ (List.mem_append_left _ (List.mem_map_of_mem (by simp [here])))
  have marked : Holes n h (Scopes.noting { st with scopes } (ownUse word b)) := by
    refine holes.steady ⟨Nat.le_refl _, rfl, fun _ => rfl, by simp⟩ fun slot hs => .inl ?_
    change slot ∈ (scopes.flatMap Scope.bindings).map Binding.slot ++ _ at hs
    rw [there] at hs
    rw [Scopes.inside, here]
    simpa using hs
  exact marked.occursInner inner

/-- A global is used. -/
lemma far (holes : Holes n h st) {word : Name} {b : Binding}
    (found : st.globalScope.find? word.text = some b) (p : Place) :
    Holes n (h ++ [.occurs ⟨.variable, word, b.slot, p⟩])
      (Scopes.noting { st with globalScope := st.globalScope.put (markUsed st.enclosing b) }
        (ownUse word b)) := by
  have listed : (b.slot, word.text) ∈ st.globals := by
    have latest := holes.mirrors word.text
    rw [found, Option.map_some] at latest
    exact mem_of_latest? latest.symm
  have marked : Holes n h (Scopes.noting
      { st with globalScope := st.globalScope.put (markUsed st.enclosing b) } (ownUse word b)) := by
    refine holes.steady ⟨Nat.le_refl _, rfl, fun text => ?_, by simp⟩ fun slot hs => .inl hs
    refine Scope.slot_find?_put (b := b) ?_ (slot_markUsed ..) text
    rw [text_markUsed, Scope.text_of_find? found]
    exact found
  refine marked.occurs (holes.handed _ listed) fun made => ?_
  obtain ⟨g, hg, e⟩ := List.mem_map.1 made
  have same : g = (b.slot, word.text) :=
    List.inj_on_of_nodup_map holes.once (List.mem_of_mem_drop hg) listed e
  exact same ▸ hg

/-- The slot of a field or a receiver. -/
lemma inner_field (holes : Holes n h st) {f : FieldScope} (hf : f ∈ st.fieldScopes) {slot : Slot}
    (hs : slot ∈ f.slots) : st.Inner slot :=
  holes.inside slot (List.mem_append_right _ (List.mem_flatMap.2 ⟨f, hf, hs⟩))

/-- The next slot is handed out to something else than a global. -/
lemma inner_next (holes : Holes n h st) (globals : st'.globals = st.globals)
    (next : st.nextSlot.index < st'.nextSlot.index) : st'.Inner st.nextSlot :=
  ⟨next, globals ▸ next_not_mem holes.handed⟩

/-- A new field gets the next slot. -/
lemma new (holes : Holes n h st) {kind : OccurrenceKind} {f : FieldScope}
    (reaches : Reaches st kind f) (word : Name) (p : Place) :
    Holes n (h ++ [.occurs ⟨kind, word, st.nextSlot, p⟩]) (st.withField f.side word) := by
  have inner : (st.withField f.side word).Inner st.nextSlot :=
    holes.inner_next rfl (Nat.lt_succ_self _)
  have added : Holes n h (st.withField f.side word) := by
    refine holes.steady ⟨Nat.le_succ _, rfl, fun _ => rfl, rfl⟩ fun slot hs => ?_
    rcases List.mem_append.1 hs with hs | hs
    · exact .inl (List.mem_append_left _ hs)
    · have split := (sideSlots_addField reaches.find? (st.nextSlot, word.text)).mem_iff.1 hs
      rcases List.mem_cons.1 split with rfl | hs
      · exact .inr inner
      · exact .inl (List.mem_append_right _ hs)
  exact added.occursInner inner

/-- A declaration changes nothing about holes. -/
lemma declare (holes : Holes n h st) {s : Scope} {rest : List Scope} (e : st.scopes = s :: rest)
    (name : Name) (kind : BindingKind) (initialized : Bool) :
    Holes n h ((Resolve.declare name kind initialized).after st) := by
  rw [after_declare_eq _ _ _ e]
  refine holes.steady ⟨Nat.le_succ _, rfl, fun _ => rfl, by simp⟩ fun slot hs => ?_
  rcases List.mem_append.1 hs with hs | hs
  · obtain ⟨b, hb, rfl⟩ := List.mem_map.1 hs
    rcases List.mem_append.1 hb with hb | hb
    · rcases Scope.mem_put hb with rfl | hb
      · exact .inr (holes.inner_next rfl (Nat.lt_succ_self _))
      · refine .inl (List.mem_append_left _ (List.mem_map_of_mem ?_))
        simp [Scopes.bindings, e, hb]
    · refine .inl (List.mem_append_left _ (List.mem_map_of_mem ?_))
      rw [Scopes.bindings, e]
      exact List.mem_append_right _ hb
  · exact .inl (List.mem_append_right _ hs)

/-- A side of a class is closed. -/
lemma leaveFields (holes : Holes n h st) (fields : st'.fieldScopes = st.fieldScopes.tail)
    (steady : st.Steady st') (bindings : st'.bindings = st.bindings) : Holes n h st' := by
  refine holes.steady steady fun slot hs => .inl ?_
  rw [Scopes.inside, bindings, fields, List.mem_append] at hs
  rw [Scopes.inside, List.mem_append]
  refine hs.imp_right fun hs => ?_
  obtain ⟨f, hf, hs⟩ := List.mem_flatMap.1 hs
  exact List.mem_flatMap.2 ⟨f, List.mem_of_mem_tail hf, hs⟩

/-- The receivers of a class get the next slots. -/
lemma enterClass (holes : Holes n h st) (slot : Slot) :
    Holes n h (Ember.enterClass slot st) ∧ (Ember.enterClass slot st).Inner st.nextSlot := by
  have first : (Ember.enterClass slot st).Inner st.nextSlot :=
    holes.inner_next rfl (Nat.lt_succ_of_lt (Nat.lt_succ_self _))
  have bumped : Holes n h { st with nextSlot := st.nextSlot.next } :=
    holes.steady ⟨Nat.le_succ _, rfl, fun _ => rfl, rfl⟩ fun slot hs => .inl hs
  have second : (Ember.enterClass slot st).Inner st.nextSlot.next :=
    bumped.inner_next rfl (Nat.lt_succ_self _)
  refine ⟨holes.steady ⟨Nat.le_add_right _ 2, rfl, fun _ => rfl, rfl⟩ fun slot hs => ?_, first⟩
  simp only [Scopes.inside, Ember.enterClass, List.flatMap_cons, FieldScope.slots, List.map_nil,
    List.mem_append, List.mem_cons, List.not_mem_nil, or_false] at hs ⊢
  rcases hs with hs | rfl | hs
  · exact .inl (.inl hs)
  · exact .inr second
  · exact .inl (.inr hs)

/-- A class that is left is filed in the scope around. -/
lemma leaveClass (holes : Holes n h st) (slot : Slot) (c : Program.ClassDecl) :
    Holes n h ((addClass slot c).after st.leaveClass) :=
  have left : Holes n h st.leaveClass :=
    holes.leaveFields rfl ⟨Nat.le_refl _, rfl, fun _ => rfl, rfl⟩ rfl
  left.modify (fun _ => rfl) fun _ _ => rfl

/-- The side of the instance is opened around a member, unless it is static. -/
lemma enterMember (holes : Holes n h st) {m : Members}
    (side : ∀ slot ∈ m.instanceSide.slots, st.Inner slot) (kind : Syntax.MethodKind) :
    Holes n h (Ember.enterMember m kind st) := by
  cases kind with
  | onClass => exact holes
  | construct | onInstance =>
    refine holes.steady ⟨Nat.le_refl _, rfl, fun _ => rfl, rfl⟩ fun slot hs => ?_
    simp only [Scopes.inside, Ember.enterMember, openFields, after_modify, List.flatMap_cons,
      List.mem_append] at hs ⊢
    rcases hs with hs | hs | hs
    · exact .inl (.inl hs)
    · exact .inr (side slot hs)
    · exact .inl (.inr hs)

/-- The end of a member changes nothing about holes. -/
lemma leaveMember (holes : Holes n h st) (kind : Syntax.MethodKind) {ps : List ScopeProblem}
    (none : about .undeclared ps = []) : Holes n h ((Ember.leaveMember kind st).noting ps) := by
  cases kind with
  | onClass =>
    exact holes.steady ⟨Nat.le_refl _, rfl, fun _ => rfl, by simp [none, Ember.leaveMember]⟩
      fun _ hs => .inl hs
  | construct | onInstance =>
    exact holes.leaveFields rfl ⟨Nat.le_refl _, rfl, fun _ => rfl,
      by simp [none, Ember.leaveMember, Scopes.leaveFields]⟩ rfl

/-- The side of the instance after a member is one that was open or put away. -/
lemma inner_sideAfter (holes : Holes n h st) {m : Members}
    (side : ∀ slot ∈ m.instanceSide.slots, st.Inner slot) {kind : Syntax.MethodKind} {slot : Slot}
    (hs : slot ∈ (sideAfter m kind st).slots) : st.Inner slot := by
  cases kind with
  | onClass => exact side slot hs
  | construct | onInstance =>
    rw [sideAfter] at hs
    cases e : st.fieldScopes with
    | nil =>
      rw [e] at hs
      exact side slot hs
    | cons f rest =>
      rw [e] at hs
      exact holes.inner_field (by simp [e]) hs

end Holes

mutual

/-- No step changes what is known of the globals that are made. -/
theorem Chronicle.holes {once : Bool} {p : Place} {st st' : Scopes} {es : History}
    {ns : List String} {n : Nat} : Chronicle once p st es ns st' → ∀ {h}, Holes n h st →
      Holes n (h ++ es) st'
  | .done, _, holes => by rwa [List.append_nil]
  | .skip, _, holes => by
    rw [List.append_nil]
    exact holes.steady ⟨Nat.le_succ _, rfl, fun _ => rfl, rfl⟩ fun _ hs => .inl hs
  | .assignedClass _, _, holes | .invalidTarget _, _, holes => by
    rw [List.append_nil]
    exact holes.steady ⟨Nat.le_refl _, rfl, fun _ => rfl, by simp [about, ScopeProblem.topic]⟩
      fun _ hs => .inl hs
  | .near _ used, _, holes => holes.near used p
  | .far _ _ found, _, holes => holes.far found p
  | .known _ reaches found, _, holes =>
    holes.occursInner (holes.inner_field (List.mem_of_find?_eq_some reaches.find?)
      (List.mem_cons_of_mem _ (List.mem_map_of_mem (FieldScope.mem_fields found))))
  | .new word reaches _, _, holes => holes.new reaches word p
  | .this _ head, _, holes =>
    holes.occursInner (holes.inner_field (List.mem_of_mem_head? head) (List.mem_cons_self ..))
  | .hole missing, _, holes => holes.hole missing p
  | .declare kind name e _, _, holes => (holes.declare e name kind true).record (by simp)
  | .seq h h', _, holes => by
    rw [← List.append_assoc]
    exact h'.holes (h.holes holes)
  -- scopes that are opened and left make no difference to the globals
  | .scope h _, _, holes => by
    have opened : Holes n _ (openScope.after st) :=
      holes.steady ⟨Nat.le_refl _, rfl, fun _ => rfl, rfl⟩ fun _ hs => .inl hs
    refine (h.holes opened).steady ⟨Nat.le_refl _, rfl, fun _ => rfl, by simp⟩
      fun slot hs => .inl ?_
    rw [Scopes.inside, List.mem_append] at hs ⊢
    refine hs.imp_left fun hs => ?_
    obtain ⟨b, hb, rfl⟩ := List.mem_map.1 hs
    obtain ⟨s, hs, hb⟩ := List.mem_flatMap.1 hb
    exact List.mem_map_of_mem (List.mem_flatMap.2 ⟨s, List.mem_of_mem_tail hs, hb⟩)
  | .var name e h _, _, holes => by
    have inner := (h.holes (holes.declare e name .var false)).markInitialized name.text
    exact inner.record (by simp)
  | .cls _ h _ _, _, holes => by
    obtain ⟨entered, receiver⟩ := holes.enterClass _
    have inner := h.holes (by simpa [Members.start, FieldScope.slots] using receiver) entered
    exact (inner.leaveClass _ _).record (by simp)

/-- The same of the members of a class. -/
theorem Roster.holes {once : Bool} {p : Place} {cls : String} {c : Program.ClassDecl}
    {m m' : Members} {st st' : Scopes} {ms : List (Syntax.Method × Program.Method)} {es : History}
    {n : Nat} : Roster once p cls c m st ms es m' st' →
      (∀ slot ∈ m.instanceSide.slots, st.Inner slot) → ∀ {h}, Holes n h st → Holes n (h ++ es) st'
  | .nil, _, _, holes => by rwa [List.append_nil]
  | .cons h _ _ rest, side, _, holes => by
    have inner := h.holes (holes.enterMember side _)
    rw [← List.append_assoc]
    refine rest.holes (fun slot hs => ?_) (inner.leaveMember _ (about_clash ..))
    have known : Scopes.Inner _ slot := inner.inner_sideAfter (fun slot hs =>
      h.inner ((side slot hs).later (by simp) (by simp))) hs
    exact known.later (by simp) (by simp [Scopes.noting])

end

/-! ### Whole programs -/

/-- The globals that are given have slots of their own. -/
lemma numbered_declareGlobals (names : List String) {st : Scopes}
    (once : (st.globals.map Prod.fst).Nodup)
    (handed : ∀ g ∈ st.globals, g.1.index < st.nextSlot.index) :
    (((declareGlobals names).after st).globals.map Prod.fst).Nodup ∧
      ∀ g ∈ ((declareGlobals names).after st).globals,
        g.1.index < ((declareGlobals names).after st).nextSlot.index := by
  induction names generalizing st with
  | nil => exact ⟨once, handed⟩
  | cons name names ih =>
    have globals : ((makeGlobal ⟨name, 0⟩ false).after st).globals =
        st.globals ++ [(st.nextSlot, name)] := rfl
    have fresh := next_not_mem handed
    rw [declareGlobals, after_bind]
    refine ih ?_ ?_
    · rw [globals, List.map_append]
      exact List.concat_eq_append ▸ once.concat fresh
    · rw [globals, List.forall_mem_append, List.forall_mem_singleton]
      exact ⟨fun g hg => Nat.lt_succ_of_lt (handed g hg), Nat.lt_succ_self _⟩

/-- At first no holes have been filled. -/
lemma holes_entry (globals : List String) : Holes globals.length [] (.entry globals) := by
  obtain ⟨_, scopes, fields, none, names⟩ := entry_spec globals
  have count : (Scopes.entry globals).globals.length = globals.length := by
    rw [← List.length_map Prod.snd, names]
  have drop : (Scopes.entry globals).globals.drop globals.length = [] :=
    List.drop_eq_nil_of_le count.le
  have start : (Scopes.start.globals.map Prod.fst).Nodup := List.nodup_nil
  obtain ⟨once, handed⟩ := numbered_declareGlobals globals start fun _ h => nomatch h
  exact ⟨count.ge, once, handed, (mirrored_entry globals).globals,
    by simp [Scopes.inside, Scopes.bindings, scopes, fields], by simp, by simp, by simp [drop],
    fun text => by rw [none]; rfl⟩

/-- The slots of the globals that resolution adds to the given ones. -/
def addedGlobals (globals : List String) (program : List Syntax.Stmt) : List Slot :=
  ((resolve globals program).1.globals.drop globals.length).map Prod.fst

/-- A name that nothing declares is reported at its first occurrence if that is a
variable, and nowhere else. -/
theorem undeclared_reported (globals : List String) (program : List Syntax.Stmt) (text : String) :
    undeclaredBy text (resolve globals program).2 =
      (((history globals program).firstHole? (addedGlobals globals program) text).bind
        Occurrence.undeclared?).toList := by
  have whole : Chronicle false .outermost (.entry globals) (history globals program) [] _ :=
    chronicle_program globals fun h => nomatch h
  exact (whole.holes (holes_entry globals)).first text

end Ember
