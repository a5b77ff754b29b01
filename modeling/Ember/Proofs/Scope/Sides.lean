/-
Fields and receivers belong to the sides of classes.

* `Chronicle.grows`, `Roster.grows`: sides are only added to;
* `SidesApart`: the slots of all classes, of those that are done and of those around, are
  apart, and so are the names of the fields of one side;
* `Occurrence.side?`, `Occurrence.fault?`: the side of a class that an occurrence belongs
  to, and what is wrong with one that belongs to none;
* `Leads`: the sides around a place grow into those of the class there;
* `Chronicle.sided`: what is referred to on a side is listed there, and what has no side
  is reported, in order;
* `sides_resolved`: a whole program.
-/
import Mathlib
import Ember.Proofs.Scope.Chronicle
import Ember.Proofs.Scope.Scoping

namespace Ember

open Program Resolve

/-! ### Sides grow -/

/-- Sides of a class that are left have grown. -/
lemma grows_tail {f : FieldScope} {fs gs : List FieldScope}
    (h : List.Forall₂ FieldScope.Grows (f :: fs) gs) :
    ∃ g rest, gs = g :: rest ∧ f.Grows g ∧ List.Forall₂ FieldScope.Grows fs rest := by
  obtain ⟨g, rest, hg, hrest, e⟩ := List.forall₂_cons_left_iff.1 h
  exact ⟨g, rest, e, hg, hrest⟩

/-- Sides grow from themselves. -/
lemma grows_refl (fs : List FieldScope) : List.Forall₂ FieldScope.Grows fs fs :=
  List.forall₂_same.2 fun f _ => .refl f

/-- Sides around a part of a program grow. -/
theorem Chronicle.grows {once : Bool} {p : Place} {st st' : Scopes} {es : History}
    {ns : List String} : Chronicle once p st es ns st' →
    List.Forall₂ FieldScope.Grows st.fieldScopes st'.fieldScopes
  | .done | .skip | .assignedClass _ | .invalidTarget _ | .near _ _ | .far _ _ _ | .known _ _ _
  | .this _ _ | .hole _ => grows_refl _
  | .seq h h' => forall₂_trans .trans h.grows h'.grows
  | .new _ _ _ => grows_addField _ _ _
  | .scope h _ => by simpa using h.grows
  | .declare _ _ e _ => by
    rw [after_declare_eq _ _ _ e]
    exact grows_refl _
  | .var _ e _ evolves => by
    have fields := evolves.fields
    rw [after_declare_eq _ _ _ e] at fields
    simpa using fields
  | .cls _ _ evolves _ => by
    obtain ⟨g, rest, e, _, hrest⟩ := grows_tail evolves.fields
    simpa [e] using hrest

/-- What a member does to the sides: that of the instance may grow while it is open. -/
lemma grows_member {m : Members} {kind : Syntax.MethodKind} {st st₁ : Scopes}
    (evolves : Scopes.Evolves (enterMember m kind st) st₁) :
    m.instanceSide.Grows (sideAfter m kind st₁) ∧
      List.Forall₂ FieldScope.Grows st.fieldScopes (leaveMember kind st₁).fieldScopes := by
  have fields := evolves.fields
  cases kind with
  | onClass => exact ⟨.refl _, fields⟩
  | construct | onInstance =>
    obtain ⟨g, rest, e, hg, hrest⟩ := grows_tail fields
    simp only [sideAfter, leaveMember, Scopes.leaveFields, e]
    exact ⟨hg, hrest⟩

/-- The side of the instance grows with the members, and so do the sides around the class. -/
theorem Roster.grows {once : Bool} {p : Place} {cls : String} {c : ClassDecl} {m m' : Members}
    {st st' : Scopes} {ms : List (Syntax.Method × Method)} {es : History} :
    Roster once p cls c m st ms es m' st' →
      m.instanceSide.Grows m'.instanceSide ∧
        List.Forall₂ FieldScope.Grows st.fieldScopes st'.fieldScopes
  | .cons _ evolves _ rest =>
    have first := grows_member evolves
    ⟨first.1.trans rest.grows.1, forall₂_trans .trans first.2 rest.grows.2⟩
  | .nil => ⟨.refl _, grows_refl _⟩

/-! ### Slots apart -/

/-- The fields of one side of a class. -/
def Program.ClassDecl.fieldsOn (c : ClassDecl) : Side → List (Slot × String)
  | .onClass => c.staticFields
  | .onInstance => c.fields

/-- The receiver of one side of a class. -/
def Program.ClassDecl.receiverOn (c : ClassDecl) : Side → Slot
  | .onClass => c.staticReceiver
  | .onInstance => c.receiver

/-- One side of a class. -/
def Program.ClassDecl.sideOf (c : ClassDecl) (side : Side) : FieldScope :=
  ⟨side, c.receiverOn side, c.fieldsOn side⟩

/-- The two sides of a class. -/
def Program.ClassDecl.sides (c : ClassDecl) : List FieldScope :=
  [c.sideOf .onInstance, c.sideOf .onClass]

/-- A side of a class is one of its two sides. -/
lemma Program.ClassDecl.sideOf_mem (c : ClassDecl) (side : Side) : c.sideOf side ∈ c.sides := by
  cases side <;> simp [ClassDecl.sides]

/-- The slots that sides list. -/
def sideSlots (fs : List FieldScope) : List Slot := fs.flatMap FieldScope.slots

/-- No slot is listed twice on the given sides and those that are open, each has been
handed out, and no side has two fields of one name. -/
structure SidesApart (sides : List FieldScope) (st : Scopes) : Prop where
  once : (sideSlots (sides ++ st.fieldScopes)).Nodup
  old : ∀ s ∈ sideSlots (sides ++ st.fieldScopes), s.index < st.nextSlot.index
  names : ∀ f ∈ sides ++ st.fieldScopes, (f.fields.map Prod.snd).Nodup

namespace SidesApart

variable {sides sides' : List FieldScope} {st st' : Scopes}

/-- More slots are handed out to something else. -/
lemma later (h : SidesApart sides st) (fields : st'.fieldScopes = st.fieldScopes)
    (next : st.nextSlot.index ≤ st'.nextSlot.index) : SidesApart sides st' := by
  obtain ⟨once, old, names⟩ := h
  rw [← fields] at once old names
  exact ⟨once, fun s hs => (old s hs).trans_le next, names⟩

/-- A side is opened or closed. -/
lemma perm (h : SidesApart sides st)
    (same : (sides' ++ st'.fieldScopes).Perm (sides ++ st.fieldScopes))
    (next : st'.nextSlot = st.nextSlot) : SidesApart sides' st' where
  once := (same.flatMap_right _).nodup_iff.2 h.once
  old s hs := by
    rw [next]
    exact h.old s ((same.flatMap_right _).mem_iff.1 hs)
  names f hf := h.names f (same.mem_iff.1 hf)

/-- The next slot is handed out to a side. -/
lemma next (h : SidesApart sides st)
    (slots : (sideSlots (sides' ++ st'.fieldScopes)).Perm
      (st.nextSlot :: sideSlots (sides ++ st.fieldScopes)))
    (next : st'.nextSlot = st.nextSlot.next)
    (names : ∀ f ∈ sides' ++ st'.fieldScopes, (f.fields.map Prod.snd).Nodup) :
    SidesApart sides' st' where
  once := by
    refine slots.nodup_iff.2 (List.nodup_cons.2 ⟨fun mem => ?_, h.once⟩)
    exact Nat.lt_irrefl _ (h.old _ mem)
  old s hs := by
    rw [next]
    rcases List.mem_cons.1 (slots.mem_iff.1 hs) with rfl | hs
    · exact Nat.lt_succ_self _
    · exact Nat.lt_succ_of_lt (h.old s hs)
  names := names

end SidesApart

/-- A field that is added is one more slot of the sides. -/
lemma sideSlots_addField {side : Side} {fs : List FieldScope} {f : FieldScope}
    (found : fs.find? (fun s => s.side = side) = some f) (field : Slot × String) :
    (sideSlots (addField side field fs)).Perm (field.1 :: sideSlots fs) := by
  induction fs with
  | nil => cases found
  | cons g rest ih =>
    rw [addField]
    by_cases e : g.side = side
    · rw [if_pos e]
      simp only [sideSlots, List.flatMap_cons, FieldScope.slots, List.map_append, List.map_cons,
        List.map_nil]
      rw [← List.cons_append, List.append_assoc, List.singleton_append]
      exact List.perm_middle
    · rw [if_neg e]
      refine ((ih (by simpa [e] using found)).append_left g.slots).trans ?_
      exact List.perm_middle

/-- Where a field is added, one side has grown by it and the others are as they were. -/
lemma mem_addField_cases {side : Side} {field : Slot × String} {fs : List FieldScope}
    {f g : FieldScope} (found : fs.find? (fun s => s.side = side) = some f)
    (hg : g ∈ addField side field fs) :
    g ∈ fs ∨ g = { f with fields := f.fields ++ [field] } := by
  induction fs with
  | nil => cases found
  | cons k rest ih =>
    rw [addField] at hg
    by_cases e : k.side = side
    · rw [List.find?_cons_of_pos (by simpa using e)] at found
      cases found
      rw [if_pos e] at hg
      rcases List.mem_cons.1 hg with rfl | hg
      · exact .inr rfl
      · exact .inl (List.mem_cons_of_mem _ hg)
    · rw [List.find?_cons_of_neg (by simpa using e)] at found
      rw [if_neg e] at hg
      rcases List.mem_cons.1 hg with rfl | hg
      · exact .inl (List.mem_cons_self ..)
      · exact (ih found hg).imp_left (List.mem_cons_of_mem _)

/-- The side that a field belongs to is the innermost of its kind. -/
lemma Reaches.find? {st : Scopes} {kind : OccurrenceKind} {f : FieldScope} (h : Reaches st kind f) :
    st.fieldScopes.find? (fun s => s.side = f.side) = some f := by
  cases h with
  | field head side =>
    obtain ⟨rest, e⟩ := List.head?_eq_some_iff.1 head
    simp [e]
  | staticField found =>
    have side : f.side = .onClass := by simpa using List.find?_some found
    rw [side]
    exact found

namespace SidesApart

variable {sides : List FieldScope} {st st₁ : Scopes}

/-- A new field gets the next slot. -/
lemma withField (h : SidesApart sides st) {kind : OccurrenceKind} {f : FieldScope}
    (reaches : Reaches st kind f) {word : Name} (new : f.find? word.text = none) :
    SidesApart sides (st.withField f.side word) := by
  refine h.next ?_ rfl fun g hg => ?_
  · simp only [sideSlots, List.flatMap_append]
    refine ((sideSlots_addField reaches.find? (st.nextSlot, word.text)).append_left _).trans ?_
    exact List.perm_middle
  · rcases List.mem_append.1 hg with hg | hg
    · exact h.names g (List.mem_append_left _ hg)
    · rcases mem_addField_cases reaches.find? hg with hg | rfl
      · exact h.names g (List.mem_append_right _ hg)
      · have names := h.names f (List.mem_append_right _ (List.mem_of_find?_eq_some reaches.find?))
        have absent : word.text ∉ f.fields.map Prod.snd := fun mem => by
          obtain ⟨field, hfield, same⟩ := List.mem_map.1 mem
          have none := List.find?_eq_none.1 (Option.map_eq_none_iff.1 new) field hfield
          exact none (decide_eq_true same)
        rw [List.map_append]
        exact List.concat_eq_append ▸ names.concat absent

/-- The receivers of a class get the next slots, and have no fields so far. -/
lemma enterClass (h : SidesApart sides st) (slot : Slot) :
    SidesApart (sides ++ [⟨.onInstance, st.nextSlot, []⟩]) (Ember.enterClass slot st) := by
  have names (fs : List FieldScope) (h' : ∀ f ∈ fs, f.fields = [] ∨ f ∈ sides ++ st.fieldScopes) :
      ∀ f ∈ fs, (f.fields.map Prod.snd).Nodup := by
    intro f hf
    rcases h' f hf with none | hf
    · rw [none]
      exact List.nodup_nil
    · exact h.names f hf
  have first : SidesApart (sides ++ [⟨.onInstance, st.nextSlot, []⟩])
      { st with nextSlot := st.nextSlot.next } := by
    refine h.next ?_ rfl (names _ fun f hf => ?_)
    · simp only [sideSlots, List.flatMap_append, List.append_assoc]
      exact List.perm_middle
    · simp only [List.mem_append, List.mem_singleton] at hf ⊢
      rcases hf with (hf | rfl) | hf
      · exact .inr (.inl hf)
      · exact .inl rfl
      · exact .inr (.inr hf)
  refine first.next ?_ rfl (names _ fun f hf => ?_)
  · simp only [Ember.enterClass, sideSlots, List.flatMap_append, List.flatMap_cons]
    exact List.perm_middle
  · simp only [Ember.enterClass, List.mem_append, List.mem_cons, List.not_mem_nil, or_false] at hf ⊢
    rcases hf with (hf | rfl) | rfl | hf
    · exact .inr (.inl hf)
    · exact .inl rfl
    · exact .inl rfl
    · exact .inr (.inr hf)

/-- While a member is resolved its class's side of the instance is open, or put away. -/
lemma enterMember {m : Members} (h : SidesApart (sides ++ [m.instanceSide]) st)
    (kind : Syntax.MethodKind) :
    ∃ sides', SidesApart sides' (Ember.enterMember m kind st) ∧
      ∀ {st₁ : Scopes} {made : List FieldScope}, Scopes.Evolves (Ember.enterMember m kind st) st₁ →
        SidesApart (sides' ++ made) st₁ →
        SidesApart (sides ++ made ++ [sideAfter m kind st₁]) (leaveMember kind st₁) := by
  cases kind with
  | onClass =>
    refine ⟨_, h, fun {st₁ made} _ h₁ => h₁.perm ?_ rfl⟩
    refine List.Perm.append_right _ ?_
    rw [List.append_assoc, List.append_assoc]
    exact List.perm_append_comm.append_left _
  | construct | onInstance =>
    refine ⟨sides, h.perm ?_ rfl, fun {st₁ made} evolves h₁ => ?_⟩
    · simp [Ember.enterMember, openFields]
    · obtain ⟨g, rest, e, _, _⟩ := grows_tail evolves.fields
      refine h₁.perm ?_ rfl
      simp [sideAfter, leaveMember, Scopes.leaveFields, e]

end SidesApart

/-- The sides of the classes of a history. -/
def History.sides (es : History) : List FieldScope := es.classes.flatMap fun r => r.decl.sides

@[simp] lemma History.sides_append (es es' : History) :
    History.sides (es ++ es') = History.sides es ++ History.sides es' := by
  simp [History.sides]

/-- A step that neither makes a class nor has to do with the sides of one. -/
lemma SidesApart.quiet {sides : List FieldScope} {st st' : Scopes} {es : History}
    (h : SidesApart sides st) (none : es.sides = []) (fields : st'.fieldScopes = st.fieldScopes)
    (next : st.nextSlot.index ≤ st'.nextSlot.index) : SidesApart (sides ++ es.sides) st' := by
  rw [none, List.append_nil]
  exact h.later fields next

/-- The sides of the class that is made of members. -/
lemma sides_classOf (name : Name) {receiver staticReceiver : Slot} {m : Members}
    {statics : FieldScope} (inst : FieldScope.Grows ⟨.onInstance, receiver, []⟩ m.instanceSide)
    (static : FieldScope.Grows ⟨.onClass, staticReceiver, []⟩ statics) :
    (classOf name receiver staticReceiver m statics).sides = [m.instanceSide, statics] := by
  rw [inst.eq, static.eq]
  simp only [ClassDecl.sides, ClassDecl.sideOf, ClassDecl.receiverOn, ClassDecl.fieldsOn, classOf]

mutual

/-- The slots of the classes that are made stay apart from each other and from all
others. -/
theorem Chronicle.apart {once : Bool} {p : Place} {st st' : Scopes} {es : History}
    {ns : List String} : Chronicle once p st es ns st' → ∀ {sides}, SidesApart sides st →
      SidesApart (sides ++ es.sides) st'
  | .done, _, h | .assignedClass _, _, h | .invalidTarget _, _, h | .near _ _, _, h
  | .far _ _ _, _, h | .known _ _ _, _, h | .this _ _, _, h => h.quiet rfl rfl (Nat.le_refl _)
  | .skip, _, h | .hole _, _, h => h.quiet rfl rfl (Nat.le_succ _)
  | .new _ reaches absent, _, h => (h.withField reaches absent).quiet rfl rfl (Nat.le_refl _)
  | .declare _ _ e _, _, h => by
    rw [after_declare_eq _ _ _ e]
    exact h.quiet rfl rfl (Nat.le_succ _)
  | .seq h h', _, apart => by
    rw [History.sides_append, ← List.append_assoc]
    exact h'.apart (h.apart apart)
  | .scope h _, _, apart => (h.apart (apart.later rfl (Nat.le_refl _))).later rfl (Nat.le_refl _)
  | .var _ e h _, _, apart => by
    have inner := h.apart (by
      rw [after_declare_eq _ _ _ e]
      exact apart.later rfl (Nat.le_succ _))
    exact inner.later (fieldScopes_markInitialized ..) (by simp)
  | .cls name h evolves e, sides, apart => by
    have inner := h.apart (apart.enterClass _)
    obtain ⟨g, rest, opened, static, _⟩ := grows_tail evolves.fields
    rw [opened, List.headD_cons] at e
    have made := sides_classOf name h.grows.1 static
    rw [← e] at made
    refine inner.perm ?_ (by simp)
    simp [History.sides, made, opened]

/-- The sides of classes that are made, and the side of the instance, stay apart from those
around. -/
theorem Roster.apart {once : Bool} {p : Place} {cls : String} {c : ClassDecl} {m m' : Members}
    {st st' : Scopes} {ms : List (Syntax.Method × Method)} {es : History} :
    Roster once p cls c m st ms es m' st' → ∀ {sides}, SidesApart (sides ++ [m.instanceSide]) st →
      SidesApart (sides ++ es.sides ++ [m'.instanceSide]) st'
  | .nil, _, h => by simpa [History.sides] using h
  | .cons h evolves _ rest, _, apart => by
    obtain ⟨sides', entered, leave⟩ := apart.enterMember _
    have after := leave evolves (h.apart entered)
    rw [History.sides_append, ← List.append_assoc]
    exact rest.apart (after.later rfl (Nat.le_refl _))

end

/-! ### Occurrences and their sides -/

/-- The side of a class whose receiver `this` is in a member. -/
def Syntax.MethodKind.side : Syntax.MethodKind → Side
  | .onClass => .onClass
  | .construct | .onInstance => .onInstance

namespace Occurrence

/-- The class and the side of it that the field belongs to. The fields of the instance
are out of reach in static methods. -/
def side? (o : Occurrence) : Option (ClassDecl × Side) :=
  match o.kind, o.place.member with
  | .field, some (.construct, c) | .field, some (.onInstance, c) => some (c, .onInstance)
  | .staticField, some (_, c) => some (c, .onClass)
  | _, _ => none

/-- What is wrong with a field or a receiver where there is none. -/
def fault? (o : Occurrence) : Option ScopeProblem :=
  match o.kind, o.place.member with
  | .field, none | .staticField, none => some (.fieldOutsideClass o.word)
  | .field, some (.onClass, _) => some (.instanceFieldInStaticMethod o.word)
  | .this, none => some (.thisOutsideClass o.word.line)
  | _, _ => none

/-- The class of the side that a field belongs to is that around the field. -/
lemma member_of_side? {o : Occurrence} {c : ClassDecl} {side : Side}
    (h : o.side? = some (c, side)) : ∃ kind, o.place.member = some (kind, c) := by
  obtain ⟨kind, word, slot, ⟨classes, initializers, member⟩⟩ := o
  rw [side?] at h
  split at h <;> cases h <;> exact ⟨_, by assumption⟩

/-- A field is listed on its side of the class, and the receiver is that of the side. -/
structure Fits (o : Occurrence) : Prop where
  field : ∀ c side, o.side? = some (c, side) → (o.slot, o.word.text) ∈ c.fieldsOn side
  this : ∀ kind c, o.kind = .this → o.place.member = some (kind, c) →
    o.slot = c.receiverOn kind.side

end Occurrence

/-- The open sides around a member grow into those of its class. -/
inductive Leads : Option (Syntax.MethodKind × ClassDecl) → List FieldScope → Prop
  | outside : Leads none []
  | onClass {c g rest} : FieldScope.Grows g (c.sideOf .onClass) →
    Leads (some (.onClass, c)) (g :: rest)
  | onInstance {kind c f g rest} : kind ≠ .onClass → FieldScope.Grows f (c.sideOf .onInstance) →
    FieldScope.Grows g (c.sideOf .onClass) → Leads (some (kind, c)) (f :: g :: rest)

/-- What leads to a class now did so before. -/
lemma Leads.before {member : Option (Syntax.MethodKind × ClassDecl)} {fs gs : List FieldScope}
    (h : Leads member gs) (grows : List.Forall₂ FieldScope.Grows fs gs) : Leads member fs := by
  cases h with
  | outside =>
    rw [List.forall₂_nil_right_iff.1 grows]
    exact .outside
  | onClass hg =>
    obtain ⟨g, rest, hg', -, rfl⟩ := List.forall₂_cons_right_iff.1 grows
    exact .onClass (hg'.trans hg)
  | onInstance hk hf hg =>
    obtain ⟨f, rest, hf', grows', rfl⟩ := List.forall₂_cons_right_iff.1 grows
    obtain ⟨g, rest', hg', -, rfl⟩ := List.forall₂_cons_right_iff.1 grows'
    exact .onInstance hk (hf'.trans hf) (hg'.trans hg)

/-- What resolution notes at an occurrence, and that the occurrence fits. -/
structure Judges (p : Place) (kind : OccurrenceKind) (word : Name) (slot : Slot)
    (ps : List ScopeProblem) : Prop where
  noted : about .side ps = ((⟨kind, word, slot, p⟩ : Occurrence).fault?).toList
  fits : (⟨kind, word, slot, p⟩ : Occurrence).Fits

/-- An occurrence that belongs to no side fits. -/
lemma Occurrence.Fits.of_none {o : Occurrence} (side : o.side? = none)
    (this : o.kind = .this → o.place.member = none) : o.Fits := by
  refine ⟨fun c s h => ?_, fun kind c hk h => ?_⟩
  · rw [side] at h
    cases h
  · rw [this hk] at h
    cases h

/-- A variable belongs to no side and is no fault of one. -/
lemma judges_variable (p : Place) (word : Name) (slot : Slot) {ps : List ScopeProblem}
    (h : about .side ps = []) : Judges p .variable word slot ps :=
  ⟨h, .of_none rfl (fun h => nomatch h)⟩

/-- A field that is found on a side is one of its fields. -/
lemma FieldScope.mem_fields {f : FieldScope} {name : String} {slot : Slot}
    (h : f.find? name = some slot) : (slot, name) ∈ f.fields := by
  obtain ⟨⟨s, n⟩, hf, rfl⟩ := Option.map_eq_some_iff.1 h
  have same : n = name := by simpa using List.find?_some hf
  exact same ▸ List.mem_of_find?_eq_some hf

/-- A field that is found on its side is listed there by the class. -/
lemma Reaches.judges {st : Scopes} {p : Place} {kind : OccurrenceKind} {f : FieldScope}
    (h : Reaches st kind f) (leads : Leads p.member st.fieldScopes) {word : Name} {slot : Slot}
    (found : f.find? word.text = some slot) : Judges p kind word slot [] := by
  have listed := FieldScope.mem_fields found
  obtain ⟨classes, initializers, member⟩ := p
  obtain ⟨next, scopes, globalScope, fieldScopes, enclosing, globals, problems⟩ := st
  dsimp only at leads
  cases h with
  -- the innermost side is that of the instances, so the member belongs to them
  | field head side =>
    cases leads with
    | outside => cases head
    | onClass hg =>
      cases head
      rw [← hg.side] at side
      cases side
    | @onInstance kind c f' g rest hk hf hg =>
      cases head
      cases kind with
      | onClass => exact absurd rfl hk
      | construct | onInstance =>
        refine ⟨rfl, ⟨fun c' s e => ?_, fun _ _ h => nomatch h⟩⟩
        cases e
        exact hf.fields.subset listed
  -- the side of the class is the innermost, or the next one in a member of instances
  | staticField head =>
    cases leads with
    | outside => cases head
    | @onClass c g rest hg =>
      have side : g.side = .onClass := hg.side.symm
      rw [List.find?_cons_of_pos (by simpa using side)] at head
      cases head
      refine ⟨rfl, ⟨fun c' s e => ?_, fun _ _ h => nomatch h⟩⟩
      cases e
      exact hg.fields.subset listed
    | @onInstance kind c f' g rest hk hf hg =>
      have side' : f'.side ≠ .onClass := fun e => by
        rw [← hf.side] at e
        cases e
      have side : g.side = .onClass := hg.side.symm
      rw [List.find?_cons_of_neg (by simpa using side'),
        List.find?_cons_of_pos (by simpa using side)] at head
      cases head
      refine ⟨rfl, ⟨fun c' s e => ?_, fun _ _ h => nomatch h⟩⟩
      cases e
      exact hg.fields.subset listed

/-- The receiver of the innermost side is that of its class. -/
lemma judges_this {p : Place} {fs : List FieldScope} {f : FieldScope} (leads : Leads p.member fs)
    (head : fs.head? = some f) (word : Name) : Judges p .this word f.receiver [] := by
  obtain ⟨classes, initializers, member⟩ := p
  dsimp only at leads
  cases leads with
  | outside => cases head
  | onClass hg =>
    cases head
    refine ⟨rfl, ⟨fun _ _ e => (nomatch e), fun kind c _ e => ?_⟩⟩
    cases e
    exact hg.receiver.symm
  | @onInstance kind c f' g rest hk hf hg =>
    cases head
    refine ⟨rfl, ⟨fun _ _ e => (nomatch e), fun kind c _ e => ?_⟩⟩
    cases e
    cases kind with
    | onClass => exact absurd rfl hk
    | construct | onInstance => exact hf.receiver.symm

/-- What is missing is reported if it is a field or a receiver. -/
lemma Missing.judges {st : Scopes} {p : Place} {kind : OccurrenceKind} {word : Name}
    {ps : List ScopeProblem} (h : Missing st kind word ps) (leads : Leads p.member st.fieldScopes)
    (slot : Slot) : Judges p kind word slot ps := by
  obtain ⟨classes, initializers, member⟩ := p
  obtain ⟨next, scopes, globalScope, fieldScopes, enclosing, globals, problems⟩ := st
  dsimp only at leads
  cases h with
  | unbound => exact judges_variable _ word slot rfl
  | invalid => exact ⟨rfl, .of_none rfl (fun h => nomatch h)⟩
  | field none | this none =>
    cases leads with
    | outside => exact ⟨rfl, .of_none rfl (fun _ => rfl)⟩
    | onClass | onInstance => cases none
  | onClass head side =>
    cases leads with
    | outside => cases head
    | onClass hg => exact ⟨rfl, .of_none rfl (fun h => nomatch h)⟩
    | onInstance hk hf hg =>
      cases head
      rw [← hf.side] at side
      cases side
  | staticField none =>
    cases leads with
    | outside => exact ⟨rfl, .of_none rfl (fun h => nomatch h)⟩
    | onClass hg =>
      have side : _ = Side.onClass := hg.side.symm
      exact absurd side (by simpa using List.find?_eq_none.1 none _ (List.mem_cons_self ..))
    | onInstance hk hf hg =>
      have side : _ = Side.onClass := hg.side.symm
      exact absurd side (by
        simpa using List.find?_eq_none.1 none _ (List.mem_cons_of_mem _ (List.mem_cons_self ..)))

/-- A new field is found on its side. -/
lemma Reaches.withField {st : Scopes} {kind : OccurrenceKind} {f : FieldScope}
    (h : Reaches st kind f) (word : Name) :
    Reaches (st.withField f.side word) kind
      { f with fields := f.fields ++ [(st.nextSlot, word.text)] } := by
  cases h with
  | field head side =>
    obtain ⟨rest, e⟩ := List.head?_eq_some_iff.1 head
    refine .field ?_ side
    simp [Scopes.withField, e, addField]
  | staticField found =>
    obtain ⟨side, receiver, fields⟩ := f
    obtain rfl : side = .onClass := by simpa using List.find?_some found
    exact .staticField (find?_addField found)

/-- The sides that a class is made of are its own. -/
lemma sideOf_classOf {c : ClassDecl} {inst static : FieldScope} (h : c.sides = [inst, static]) :
    c.sideOf .onInstance = inst ∧ c.sideOf .onClass = static := by
  simpa [ClassDecl.sides] using h

/-- In a member the sides around lead to its class if they do so afterwards. -/
lemma leads_member {m : Members} {kind : Syntax.MethodKind} {st st₁ : Scopes} {c : ClassDecl}
    (evolves : Scopes.Evolves (enterMember m kind st) st₁)
    (inst : (sideAfter m kind st₁).Grows (c.sideOf .onInstance))
    (static : Leads (some (.onClass, c)) (leaveMember kind st₁).fieldScopes) :
    Leads (some (kind, c)) st₁.fieldScopes := by
  cases kind with
  | onClass => exact static
  | construct | onInstance =>
    obtain ⟨g, rest, e, _, _⟩ := grows_tail evolves.fields
    simp only [sideAfter, leaveMember, Scopes.leaveFields, e, List.headD_cons, List.tail_cons]
      at inst static
    rw [e]
    cases static with
    | onClass hg => exact .onInstance (by decide) inst hg
    | onInstance hk => exact absurd rfl hk

/-- What a history has to do with the sides of classes: each occurrence fits, and those
at fault are reported in order. -/
structure Sided (es : History) (before after : List ScopeProblem) : Prop where
  noted : about .side after = about .side before ++ es.occurrences.filterMap Occurrence.fault?
  fits : ∀ o ∈ es.occurrences, o.Fits

/-- Nothing occurs. -/
lemma Sided.nil {ps qs : List ScopeProblem} (h : about .side qs = []) : Sided [] ps (ps ++ qs) :=
  ⟨by simp [h], by simp⟩

/-- A declaration is no occurrence. -/
lemma Sided.declares {d : Declaration} {es : History} {ps qs rs : List ScopeProblem}
    (h : Sided es (ps ++ qs) rs) (none : about .side qs = []) :
    Sided (.declares d :: es) ps rs :=
  ⟨by simpa [none] using h.noted, by simpa using h.fits⟩

/-- What is reported at the end of a scope has nothing to do with sides. -/
lemma Sided.closes {es : History} {ps qs : List ScopeProblem} (h : Sided es ps qs)
    (bs : List Binding) : Sided es ps (qs ++ bs.filterMap Binding.unusedProblem?) :=
  ⟨by simpa using h.noted, h.fits⟩

/-- A class that is made is no occurrence. -/
lemma Sided.makes {es : History} {ps qs : List ScopeProblem} (h : Sided es ps qs)
    (r : ClassRecord) : Sided (es ++ [.makes r]) ps qs :=
  ⟨by simpa using h.noted, by simpa using h.fits⟩

/-- One occurrence, with what is noted at it. -/
lemma Judges.sided {p : Place} {kind : OccurrenceKind} {word : Name} {slot : Slot}
    {qs : List ScopeProblem} (h : Judges p kind word slot qs) (ps : List ScopeProblem) :
    Sided [.occurs ⟨kind, word, slot, p⟩] ps (ps ++ qs) := by
  refine ⟨?_, by simpa using h.fits⟩
  rw [about_append, h.noted]
  rfl

/-- One part of a history after another. -/
lemma Sided.append {es es' : History} {ps qs rs : List ScopeProblem} (h : Sided es ps qs)
    (h' : Sided es' qs rs) : Sided (es ++ es') ps rs := by
  refine ⟨?_, ?_⟩
  · rw [h'.noted, h.noted]
    simp
  · rw [History.occurrences_append]
    exact List.forall_mem_append.2 ⟨h.fits, h'.fits⟩

mutual

/-- Whatever happens in a place whose sides grow into those of its class fits, and what is
at fault is reported. -/
theorem Chronicle.sided {once : Bool} {p : Place} {st st' : Scopes} {es : History}
    {ns : List String} : Chronicle once p st es ns st' → Leads p.member st'.fieldScopes →
      Sided es st.problems st'.problems
  | .done, _ | .skip, _ => by simpa using Sided.nil (about_nil .side)
  | .assignedClass _, _ | .invalidTarget _, _ => .nil rfl
  | .near _ _, _ | .far _ _ _, _ => (judges_variable _ _ _ (by simp)).sided _
  | .known _ reaches found, leads => by simpa using (reaches.judges leads found).sided st.problems
  | .new word reaches new, leads => by
    have found := FieldScope.find?_concat word.text _ st.nextSlot new
    simpa using ((reaches.withField word).judges leads found).sided st.problems
  | .this _ head, leads => by simpa using (judges_this leads head _).sided st.problems
  | .hole missing, leads => (missing.judges leads _).sided _
  | .seq h h', leads => (h.sided (leads.before h'.grows)).append (h'.sided leads)
  | .scope h _, leads => (h.sided leads).closes _
  | .declare _ _ e _, _ => by
    rw [after_declare_eq _ _ _ e]
    exact Sided.declares (by simpa using Sided.nil (about_nil .side)) (about_redeclared ..)
  | .var _ e h _, leads => by
    rw [fieldScopes_markInitialized] at leads
    have inner := h.sided leads
    rw [after_declare_eq _ _ _ e] at inner
    rw [problems_markInitialized]
    exact inner.declares (about_redeclared ..)
  | .cls name h evolves e, leads => by
    obtain ⟨g, rest, opened, static, _⟩ := grows_tail evolves.fields
    rw [opened, List.headD_cons] at e
    have made := sides_classOf name h.grows.1 static
    rw [← e] at made
    obtain ⟨inst, static'⟩ := sideOf_classOf made
    rw [problems_addClass]
    refine (h.sided (inst ▸ .refl _) ?_).makes _
    rw [opened]
    exact .onClass (static' ▸ .refl _)

/-- The same of the members of a class. -/
theorem Roster.sided {once : Bool} {p : Place} {cls : String} {c : ClassDecl} {m m' : Members}
    {st st' : Scopes} {ms : List (Syntax.Method × Method)} {es : History} :
    Roster once p cls c m st ms es m' st' → m'.instanceSide.Grows (c.sideOf .onInstance) →
      Leads (some (.onClass, c)) st'.fieldScopes → Sided es st.problems st'.problems
  | .nil, _, _ => by simpa using Sided.nil (about_nil .side)
  | .cons h evolves _ rest, inst, static => by
    have static' := static.before rest.grows.2
    have first := h.sided (leads_member evolves (rest.grows.1.trans inst) static')
    have second := rest.sided inst static
    rw [problems_enterMember] at first
    refine first.append ?_
    refine ⟨?_, second.fits⟩
    simpa using second.noted

end

/-! ### Members around occurrences -/

/-- The class around an occurrence is the given one or among those of a history. -/
def Around (es : History) (given : Option ClassDecl) (o : Occurrence) : Prop :=
  o.place.member.map Prod.snd = given ∨
    ∃ c ∈ es.classes.map ClassRecord.decl, o.place.member.map Prod.snd = some c

/-- A class is among those of a longer history as well. -/
lemma Around.mono {es es' : History} {given : Option ClassDecl} {o : Occurrence}
    (h : Around es given o) (sub : es.classes ⊆ es'.classes) : Around es' given o :=
  h.imp_right fun ⟨c, hc, e⟩ => ⟨c, List.map_subset _ sub hc, e⟩

/-- What holds of the parts of a history holds of the whole. -/
lemma around_append {es es' : History} {given : Option ClassDecl}
    (h : ∀ o ∈ es.occurrences, Around es given o) (h' : ∀ o ∈ es'.occurrences, Around es' given o) :
    ∀ o ∈ History.occurrences (es ++ es'), Around (es ++ es') given o := by
  rw [History.occurrences_append]
  exact List.forall_mem_append.2 ⟨fun o ho => (h o ho).mono (by simp),
    fun o ho => (h' o ho).mono (by simp)⟩

mutual

/-- The class around an occurrence is that of the place where a history starts, or one
that is made in it. -/
theorem Chronicle.around {once : Bool} {p : Place} {st st' : Scopes} {es : History}
    {ns : List String} : Chronicle once p st es ns st' →
      ∀ o ∈ es.occurrences, Around es (p.member.map Prod.snd) o
  | .done | .skip | .assignedClass _ | .invalidTarget _ | .declare _ _ _ _ => by simp
  | .near _ _ | .far _ _ _ | .known _ _ _ | .new _ _ _ | .this _ _ | .hole _ => by simp [Around]
  | .seq h h' => around_append h.around h'.around
  | .scope h _ => h.around
  | .var _ _ h _ => h.around
  | .cls _ h _ _ => by
    intro o ho
    rw [History.occurrences_append, History.occurrences_makes, History.occurrences_nil,
      List.append_nil] at ho
    rcases h.around o ho with inside | ⟨c, hc, inside⟩
    · exact .inr ⟨_, by simp, inside⟩
    · exact .inr ⟨c, List.map_subset _ (by simp) hc, inside⟩

/-- The class around an occurrence in a member is the one that the member belongs to, or
lies within it. -/
theorem Roster.around {once : Bool} {p : Place} {cls : String} {c : ClassDecl} {m m' : Members}
    {st st' : Scopes} {ms : List (Syntax.Method × Method)} {es : History} :
    Roster once p cls c m st ms es m' st' → ∀ o ∈ es.occurrences, Around es (some c) o
  | .cons h _ _ rest => around_append h.around rest.around
  | .nil => by simp

end

/-! ### Whole programs -/

/-- A field of one class determines its side and its name by its slot. -/
lemma side_of_slot {c : ClassDecl} (once : (sideSlots c.sides).Nodup) {side side' : Side}
    {slot : Slot} {name name' : String} (h : (slot, name) ∈ c.fieldsOn side)
    (h' : (slot, name') ∈ c.fieldsOn side') : side = side' ∧ name = name' := by
  have split : (sideSlots c.sides) =
      (c.sideOf .onInstance).slots ++ (c.sideOf .onClass).slots := by
    simp [sideSlots, ClassDecl.sides]
  rw [split] at once
  obtain ⟨inst, static, apart⟩ := List.nodup_append.1 once
  have listed {side : Side} {name : String} (h : (slot, name) ∈ c.fieldsOn side) :
      slot ∈ (c.sideOf side).slots := List.mem_cons_of_mem _ (List.mem_map_of_mem h)
  have same {fields : List (Slot × String)} (once : (fields.map Prod.fst).Nodup)
      (h : (slot, name) ∈ fields) (h' : (slot, name') ∈ fields) : name = name' :=
    congrArg Prod.snd (List.inj_on_of_nodup_map once h h' rfl)
  cases side <;> cases side'
  · exact ⟨rfl, same (List.nodup_cons.1 static).2 h h'⟩
  · exact absurd rfl (apart slot (listed h') slot (listed h))
  · exact absurd rfl (apart slot (listed h) slot (listed h'))
  · exact ⟨rfl, same (List.nodup_cons.1 inst).2 h h'⟩

/-- The classes of a program have slots of their own, and their sides list each name
once. -/
lemma apart_program (globals : List String) (program : List Syntax.Stmt) :
    (sideSlots (history globals program).sides).Nodup ∧
      ∀ f ∈ (history globals program).sides, (f.fields.map Prod.snd).Nodup := by
  obtain ⟨_, _, fields, _, _⟩ := entry_spec globals
  have whole : Chronicle false .outermost (.entry globals) (history globals program) [] _ :=
    chronicle_program globals fun h => nomatch h
  have start : SidesApart [] (.entry globals) :=
    ⟨by simp [sideSlots, fields], by simp [sideSlots, fields], by simp [fields]⟩
  obtain ⟨once, _, names⟩ := whole.apart start
  refine ⟨once.sublist ?_, fun f hf => names f (List.mem_append_left _ hf)⟩
  rw [List.nil_append, sideSlots, sideSlots, List.flatMap_append]
  exact List.sublist_append_left _ _

/-- The slots of one class of several whose slots are all apart. -/
lemma once_of_mem {cs : List ClassRecord}
    (once : (sideSlots (cs.flatMap fun r => r.decl.sides)).Nodup) {r : ClassRecord} (hr : r ∈ cs) :
    (sideSlots r.decl.sides).Nodup := by
  rw [sideSlots, List.flatMap_assoc] at once
  exact (List.nodup_flatMap.1 once).1 r hr

/-- A field of some class of a program determines the class by its slot. -/
lemma class_of_slot {cs : List ClassRecord}
    (once : (sideSlots (cs.flatMap fun r => r.decl.sides)).Nodup) {r r' : ClassRecord} (hr : r ∈ cs)
    (hr' : r' ∈ cs) {side side' : Side} {slot : Slot} {name name' : String}
    (h : (slot, name) ∈ r.decl.fieldsOn side) (h' : (slot, name') ∈ r'.decl.fieldsOn side') :
    r.decl = r'.decl := by
  have listed {c : ClassDecl} {side : Side} {name : String} (h : (slot, name) ∈ c.fieldsOn side) :
      slot ∈ sideSlots c.sides := by
    exact List.mem_flatMap.2
      ⟨c.sideOf side, c.sideOf_mem side, List.mem_cons_of_mem _ (List.mem_map_of_mem h)⟩
  rw [sideSlots, List.flatMap_assoc] at once
  have apart := (List.nodup_flatMap.1 once).2
  have : Std.Symm (Function.onFun List.Disjoint fun r : ClassRecord =>
      r.decl.sides.flatMap FieldScope.slots) := ⟨fun _ _ h => h.symm⟩
  by_contra ne
  exact apart.forall hr hr' (fun e => ne (congrArg ClassRecord.decl e)) (listed h) (listed h')

/-- Fields have the same slot exactly if they are the same field. -/
lemma slot_eq_iff {cs : List ClassRecord}
    (once : (sideSlots (cs.flatMap fun r => r.decl.sides)).Nodup)
    (names : ∀ f ∈ cs.flatMap fun r => r.decl.sides, (f.fields.map Prod.snd).Nodup)
    {r r' : ClassRecord} (hr : r ∈ cs) (hr' : r' ∈ cs) {side side' : Side} {slot slot' : Slot}
    {name name' : String} (h : (slot, name) ∈ r.decl.fieldsOn side)
    (h' : (slot', name') ∈ r'.decl.fieldsOn side') :
    slot = slot' ↔ (r.decl, side) = (r'.decl, side') ∧ name = name' := by
  constructor
  · rintro rfl
    have decl := class_of_slot once hr hr' h h'
    rw [← decl] at h'
    obtain ⟨rfl, name⟩ := side_of_slot (once_of_mem once hr) h h'
    exact ⟨by rw [decl], name⟩
  · rintro ⟨e, rfl⟩
    obtain ⟨decl, rfl⟩ := Prod.mk.inj e
    rw [← decl] at h'
    have own : r.decl.sideOf side ∈ cs.flatMap fun r => r.decl.sides :=
      List.mem_flatMap.2 ⟨r, hr, r.decl.sideOf_mem side⟩
    exact congrArg Prod.fst (List.inj_on_of_nodup_map (names _ own) h h' rfl)

/-- The receivers and the fields of all classes of a program have slots of their own. A
field in a constructor or in a method of instances is a field of the instances of the
class around, a field of the class in any member one of the class itself, and two of them
have the same slot exactly if they belong to the same side of the same class and have the
same name. The receiver is that of the instance, or of the class in static methods. What
is reported about fields and receivers is, in order, the fields of instances outside of
classes and in static methods, and whatever else there is outside of classes. -/
theorem sides_resolved (globals : List String) (program : List Syntax.Stmt) :
    (sideSlots (history globals program).sides).Nodup ∧
      (∀ o ∈ (history globals program).occurrences, ∀ kind c, o.place.member = some (kind, c) →
        c ∈ (history globals program).classes.map ClassRecord.decl) ∧
      (∀ o ∈ (history globals program).occurrences, ∀ c side, o.side? = some (c, side) →
        (o.slot, o.word.text) ∈ c.fieldsOn side) ∧
      (∀ o ∈ (history globals program).occurrences, ∀ o' ∈ (history globals program).occurrences,
        ∀ a a', o.side? = some a → o'.side? = some a' →
          (o.slot = o'.slot ↔ a = a' ∧ o.word.text = o'.word.text)) ∧
      (∀ o ∈ (history globals program).occurrences, ∀ kind c, o.kind = .this →
        o.place.member = some (kind, c) → o.slot = c.receiverOn kind.side) ∧
      about .side (resolve globals program).2 =
        (history globals program).occurrences.filterMap Occurrence.fault? := by
  obtain ⟨_, _, fields, none, _⟩ := entry_spec globals
  obtain ⟨final, run, whole⟩ : ∃ final, (resolve globals program).2 = final.problems ∧
      Chronicle false .outermost (.entry globals) (history globals program) [] final :=
    ⟨_, congrArg Prod.snd (resolve_eq globals program),
      chronicle_program globals fun h => nomatch h⟩
  obtain ⟨once, names⟩ := apart_program globals program
  -- around a whole program there are no sides, and there are none left at the end
  have leads : Leads Place.outermost.member final.fieldScopes := by
    have grows := whole.grows
    rw [fields] at grows
    rw [List.forall₂_nil_left_iff.1 grows]
    exact .outside
  have sided := whole.sided leads
  have around : ∀ o ∈ (history globals program).occurrences, ∀ kind c,
      o.place.member = some (kind, c) →
        c ∈ (history globals program).classes.map ClassRecord.decl := by
    intro o ho kind c hc
    rcases whole.around o ho with h | ⟨c', hc', h⟩
    · rw [hc] at h
      cases h
    · rw [hc] at h
      cases h
      exact hc'
  have listed : ∀ o ∈ (history globals program).occurrences, ∀ c side, o.side? = some (c, side) →
      (o.slot, o.word.text) ∈ c.fieldsOn side := fun o ho => (sided.fits o ho).field
  refine ⟨once, around, listed, fun o ho o' ho' ⟨c, side⟩ ⟨c', side'⟩ ha ha' => ?_,
    fun o ho => (sided.fits o ho).this, ?_⟩
  · obtain ⟨kind, hc⟩ := Occurrence.member_of_side? ha
    obtain ⟨kind', hc'⟩ := Occurrence.member_of_side? ha'
    obtain ⟨r, hr, rfl⟩ := List.mem_map.1 (around o ho kind c hc)
    obtain ⟨r', hr', rfl⟩ := List.mem_map.1 (around o' ho' kind' c' hc')
    exact slot_eq_iff once names hr hr' (listed o ho _ _ ha) (listed o' ho' _ _ ha')
  · rw [run, sided.noted, none]
    rfl

end Ember
