/-
What is known of a class in which no early reads are found.

* `settle_spec`: rounds are repeated until one more does not make the weight fall;
* `Summaries.weight_merge`: summaries whose weight does not fall have not changed;
* `Program.Method.Meets`: what a method needs to find assigned, and what it assigns on
  every way out;
* `Program.ClassDecl.fieldSummaries`: the summaries that the early reads of a class are
  looked for with;
* `Program.ClassDecl.Initializes`: the methods of a class agree with their summaries,
  and with what every constructor assigns;
* `Program.ClassDecl.initializes_of_findings`: a class without early reads is such a
  class;
* `initializes_of_earlyReads`: in a program without early reads every class is.
-/
import Mathlib
import Ember.Proofs.Flow.Walks

namespace Ember

open Program

/-! ### Rounds -/

/-- Rounds are repeated until one more does not make the weight fall. What every
round keeps holds at the end. -/
lemma settle_spec {α : Type} (weight : α → Nat) (round : α → α) {P : α → Prop}
    (keeps : ∀ x, P x → P (round x)) {x : α} (hx : P x) :
    P (settle weight round x) ∧
      weight (settle weight round x) ≤ weight (round (settle weight round x)) := by
  induction x using WellFounded.induction (measure weight).wf with
  | _ x ih =>
    rw [settle]
    split
    · next falls => exact ih (round x) falls (keeps x hx)
    · next stays => exact ⟨hx, Nat.le_of_not_lt stays⟩

/-! ### Summaries -/

/-- A summary lists fields in the order of the class. -/
def Summary.Regular (fields : List Slot) (s : Summary) : Prop :=
  s.requires = fields.filter (· ∈ s.requires) ∧ s.assigns = fields.filter (· ∈ s.assigns)

/-- A summary to which is added what is found to be read, and from which is taken what is
found not to be assigned. -/
def Summary.merge (fields : List Slot) (s found : Summary) : Summary :=
  ⟨fields.filter fun f => f ∈ s.requires || f ∈ found.requires,
    fields.filter fun f => f ∈ s.assigns && f ∈ found.assigns⟩

/-- After a merge a field is required if either summary requires it. -/
lemma Summary.mem_requires_merge {fields : List Slot} {s found : Summary} {f : Slot} :
    f ∈ (s.merge fields found).requires ↔
      f ∈ fields ∧ (f ∈ s.requires ∨ f ∈ found.requires) := by
  simp [merge]

/-- After a merge a field is assigned if both summaries assign it. -/
lemma Summary.mem_assigns_merge {fields : List Slot} {s found : Summary} {f : Slot} :
    f ∈ (s.merge fields found).assigns ↔ f ∈ fields ∧ f ∈ s.assigns ∧ f ∈ found.assigns := by
  simp [merge]

/-- A summary of fields that are picked out is regular. -/
lemma Summary.regular_filter (fields : List Slot) (p q : Slot → Bool) :
    (⟨fields.filter p, fields.filter q⟩ : Summary).Regular fields := by
  constructor <;> exact List.filter_congr fun f hf => by simp [hf]

/-- What a regular summary requires is a field. -/
lemma Summary.Regular.mem_requires {fields : List Slot} {s : Summary} (h : s.Regular fields)
    {f : Slot} (hf : f ∈ s.requires) : f ∈ fields := by
  rw [h.1] at hf
  exact List.mem_of_mem_filter hf

/-- What a regular summary assigns is a field. -/
lemma Summary.Regular.mem_assigns {fields : List Slot} {s : Summary} (h : s.Regular fields)
    {f : Slot} (hf : f ∈ s.assigns) : f ∈ fields := by
  rw [h.2] at hf
  exact List.mem_of_mem_filter hf

namespace Summaries

variable {fields : List Slot} {S : Summaries}

/-- Summaries of the given methods, each of them regular. -/
structure Regular (fields : List Slot) (methods : List Method) (S : Summaries) : Prop where
  keys : S.map Prod.fst = methods.map Method.selector
  entries : ∀ x ∈ S, x.2.Regular fields

/-- The summaries at the start are regular. -/
lemma regular_start (fields : List Slot) (methods : List Method) :
    (start fields methods).Regular fields methods := by
  refine ⟨by simp [start, Function.comp_def], fun x hx => ?_⟩
  obtain ⟨m, -, rfl⟩ := List.mem_map.1 hx
  exact ⟨by simp, (List.filter_eq_self.2 fun f hf => by simp [hf]).symm⟩

/-- Summaries stay regular when one is merged. -/
lemma Regular.merge {methods : List Method} (regular : S.Regular fields methods)
    (method : Selector) (found : Summary) :
    (S.merge fields method found).Regular fields methods := by
  refine ⟨?_, fun x hx => ?_⟩
  · rw [← regular.keys, Summaries.merge, List.map_map]
    refine List.map_congr_left fun x _ => ?_
    simp only [Function.comp_apply]
    split <;> rfl
  · obtain ⟨y, hy, rfl⟩ := List.mem_map.1 hx
    dsimp only
    split
    · exact Summary.regular_filter fields _ _
    · exact regular.entries y hy

/-- What is added to a summary and taken from it makes its weight fall, or it was
so before. -/
lemma merge_weight {current : Summary} (regular : current.Regular fields) (found : Summary) :
    let next := current.merge fields found
    let weight (s : Summary) := (fields.length - s.requires.length) + s.assigns.length
    weight next ≤ weight current ∧ (weight current ≤ weight next → next = current) := by
  intro next weight
  have grows : current.requires.Sublist next.requires := by
    rw [regular.1]
    exact List.monotone_filter_right fields fun f => by simp +contextual
  have shrinks : next.assigns.Sublist current.assigns := by
    rw [regular.2]
    exact List.monotone_filter_right fields fun f => by simp +contextual
  have bound : next.requires.length ≤ fields.length := List.length_filter_le _ _
  have more := grows.length_le
  have less := shrinks.length_le
  refine ⟨by simp only [weight]; omega, fun stays => ?_⟩
  simp only [weight] at stays
  have requires : next.requires = current.requires :=
    (grows.eq_of_length (by omega)).symm
  have assigns : next.assigns = current.assigns := shrinks.eq_of_length (by omega)
  calc next = ⟨next.requires, next.assigns⟩ := rfl
    _ = current := by rw [requires, assigns]

/-- Merging makes the weight of summaries fall, or they stay what they were. -/
lemma weight_merge (regular : ∀ x ∈ S, x.2.Regular fields) (method : Selector)
    (found : Summary) :
    weight fields (S.merge fields method found) ≤ weight fields S ∧
      (weight fields S ≤ weight fields (S.merge fields method found) →
        S.merge fields method found = S) := by
  induction S with
  | nil => exact ⟨Nat.le_refl _, fun _ => rfl⟩
  | cons x rest ih =>
    obtain ⟨s, current⟩ := x
    obtain ⟨first, others⟩ := List.forall_mem_cons.1 regular
    obtain ⟨fall, stay⟩ := ih others
    simp only [merge, List.map_cons] at fall stay ⊢
    split
    · obtain ⟨fall₁, stay₁⟩ := merge_weight first found
      simp only [weight, Summary.merge] at fall₁ stay₁ ⊢
      refine ⟨by omega, fun h => ?_⟩
      rw [stay (by omega), stay₁ (by omega)]
    · simp only [weight]
      exact ⟨by omega, fun h => by rw [stay (by omega)]⟩

/-- Summaries that a method's findings do not change tell all about the method. -/
lemma covers_of_merge_eq {method : Selector} {found current : Summary}
    (same : S.merge fields method found = S) (known : S.lookup method = some current) :
    (∀ f ∈ fields, f ∈ found.requires → f ∈ current.requires) ∧
      ∀ f ∈ current.assigns, f ∈ found.assigns := by
  have entry : (method, current) ∈ S := mem_of_lookup known
  have fixed : current.merge fields found = current := by
    have entries := List.map_inj_left.1 (same.trans (List.map_id S).symm) _ entry
    simpa [Summary.merge] using entries
  refine ⟨fun f hf needed => ?_, fun f hf => ?_⟩
  · rw [← fixed]
    exact Summary.mem_requires_merge.2 ⟨hf, .inr needed⟩
  · rw [← fixed] at hf
    exact (Summary.mem_assigns_merge.1 hf).2.2

/-- Every method has a summary. -/
lemma exists_lookup {methods : List Method} (regular : S.Regular fields methods) {m : Method}
    (hm : m ∈ methods) : ∃ s, S.lookup m.selector = some s := by
  have key : m.selector ∈ S.map Prod.fst := regular.keys ▸ List.mem_map_of_mem hm
  rw [← Option.ne_none_iff_exists']
  intro none
  obtain ⟨x, hx, eq⟩ := List.mem_map.1 key
  have := List.lookup_eq_none_iff.1 none x hx
  simp [eq] at this

end Summaries

/-! ### Methods and classes -/

namespace Program

/-- The slots of the fields of a class. -/
def ClassDecl.fieldSlots (c : ClassDecl) : List Slot := c.fields.map Prod.fst

end Program

/-- A walk over a body of an instance follows the fields of its class. -/
structure FlowContext.Follows (ctx : FlowContext) (c : ClassDecl) (S : Summaries) : Prop where
  fields : ctx.fields = c.fieldSlots
  receiver : ctx.receiver = some c.receiver
  summaries : ctx.summaries = S

namespace Program

variable {ctx : FlowContext} {c : ClassDecl} {S : Summaries}

/-- A method that finds `entry` assigned reads no other fields than `needs` before it
has assigned them, and it assigns `gives` on every way out. -/
def Method.Meets (c : ClassDecl) (S : Summaries) (m : Method) (entry needs gives : List Slot) :
    Prop :=
  ∃ ctx : FlowContext, ctx.Follows c S ∧
    (∀ x ∈ (m.body.flow ctx (.start entry)).found, x.slot ∈ c.fieldSlots → x.slot ∈ needs) ∧
      ∀ f ∈ gives, f ∈ c.fieldSlots → f ∈ (m.body.flow ctx (.start entry)).assignedOnExit ctx

/-- Every constructor of a class assigns the fields in `constructed`, which is all that
the methods rely on; those of them that are called by the class's own bodies do what
the summaries say. -/
structure ClassDecl.Initializes (c : ClassDecl) (S : Summaries) (constructed : List Slot) :
    Prop where
  constructors : ∀ m ∈ c.constructors, m.Meets c S [] [] constructed
  methods : ∀ m ∈ c.methods, m.Meets c S constructed [] []
  summarized : ∀ m ∈ c.methods, ∃ s, S.lookup m.selector = some s ∧
    m.Meets c S [] s.requires s.assigns

/-- What a method is found to read early and to assign. -/
def Method.summary (m : Method) (ctx : FlowContext) (fields : List Slot) (receiver : Slot)
    (S : Summaries) : Summary :=
  (m.body.flow (ctx.summarizing fields receiver S) (.start [])).summary
    (ctx.summarizing fields receiver S)

/-- Methods are summarized one after the other, each with the summaries so far. -/
lemma summarizeMethods_cons (fields : List Slot) (receiver : Slot) (m : Method)
    (ms : List Method) :
    summarizeMethods ctx fields receiver S (m :: ms) =
      summarizeMethods ctx fields receiver
        (S.merge fields m.selector (m.summary ctx fields receiver S)) ms := by
  cases m
  rfl

/-- A round over the methods makes the weight of their summaries fall, or each of the
summaries tells all about its method. -/
lemma summarizeMethods_spec {fields : List Slot} {receiver : Slot} {methods : List Method}
    (regular : S.Regular fields methods) (ms : List Method) :
    let next := summarizeMethods ctx fields receiver S ms
    next.Regular fields methods ∧ Summaries.weight fields next ≤ Summaries.weight fields S ∧
      (Summaries.weight fields S ≤ Summaries.weight fields next →
        ∀ m ∈ ms, S.merge fields m.selector (m.summary ctx fields receiver S) = S) := by
  induction ms generalizing S with
  | nil => exact ⟨regular, Nat.le_refl _, fun _ m hm => absurd hm List.not_mem_nil⟩
  | cons m ms ih =>
    have merged := regular.merge m.selector (m.summary ctx fields receiver S)
    obtain ⟨regular', fall, stay⟩ := ih merged
    obtain ⟨fall₁, stay₁⟩ := Summaries.weight_merge regular.entries m.selector
      (m.summary ctx fields receiver S)
    simp only [summarizeMethods_cons]
    refine ⟨regular', fall.trans fall₁, fun h => ?_⟩
    have same := stay₁ (h.trans fall)
    rw [same] at stay h
    exact List.forall_mem_cons.2 ⟨same, stay h⟩

/-- The fields that every constructor assigns are assigned by each of them. -/
lemma mem_constructedFields {fields : List Slot} {receiver : Slot} {among : List Slot}
    {ms : List Method} {f : Slot}
    (hf : f ∈ constructedFields ctx fields receiver S among ms) :
    f ∈ among ∧ ∀ m ∈ ms, f ∈ (m.summary ctx fields receiver S).assigns := by
  induction ms generalizing among with
  | nil => exact ⟨hf, fun m hm => absurd hm List.not_mem_nil⟩
  | cons m ms ih =>
    cases m
    obtain ⟨before, later⟩ := ih hf
    obtain ⟨here, first⟩ := List.mem_filter.1 before
    exact ⟨here, List.forall_mem_cons.2 ⟨of_decide_eq_true first, later⟩⟩

/-- No early reads in bodies of an instance are none in each of them. -/
lemma instanceFindings_eq_nil {fields : List Slot} {receiver : Slot} {entry : List Slot}
    {ms : List Method} (none : instanceFindings ctx fields receiver S entry ms = []) :
    ∀ m ∈ ms, (m.body.flow (ctx.checking fields receiver S m.body) (.start entry)).found = [] := by
  induction ms with
  | nil => exact fun m hm => absurd hm List.not_mem_nil
  | cons m ms ih =>
    cases m
    obtain ⟨first, rest⟩ := List.append_eq_nil_iff.1 none
    exact List.forall_mem_cons.2 ⟨first, ih rest⟩

/-- The summaries of the methods of a class, which are visited in the given order until a
round changes nothing. -/
def ClassDecl.fieldSummaries (c : ClassDecl) (ctx : FlowContext) (order : List Method) :
    Summaries :=
  settle (Summaries.weight c.fieldSlots)
    (fun S => summarizeMethods ctx c.fieldSlots c.receiver S order)
    (Summaries.start c.fieldSlots c.methods)

/-- The early reads of a class are looked for with the summaries of its methods. -/
lemma ClassDecl.findings_eq (c : ClassDecl) (ctx : FlowContext) :
    c.findings ctx =
      let S := c.fieldSummaries ctx c.methods
      let constructed :=
        constructedFields ctx c.fieldSlots c.receiver S c.fieldSlots c.constructors
      instanceFindings ctx c.fieldSlots c.receiver S [] c.constructors ++
        instanceFindings ctx c.fieldSlots c.receiver S constructed c.methods ++
        staticFindings ctx c.staticMethods := by
  cases c
  rfl

/-- The rounds end with summaries that no visit of a method changes. -/
lemma ClassDecl.fieldSummaries_settled (c : ClassDecl) (ctx : FlowContext) (order : List Method) :
    let S := c.fieldSummaries ctx order
    S.Regular c.fieldSlots c.methods ∧ ∀ m ∈ order,
      S.merge c.fieldSlots m.selector (m.summary ctx c.fieldSlots c.receiver S) = S := by
  obtain ⟨regular, still⟩ := settle_spec (Summaries.weight c.fieldSlots)
    (fun S => summarizeMethods ctx c.fieldSlots c.receiver S order)
    (P := Summaries.Regular c.fieldSlots c.methods)
    (fun S regular => (summarizeMethods_spec regular order).1)
    (Summaries.regular_start c.fieldSlots c.methods)
  exact ⟨regular, (summarizeMethods_spec regular order).2.2 still⟩

/-- A class without early reads initializes its fields. -/
theorem ClassDecl.initializes_of_findings (none : c.findings ctx = []) :
    ∃ S constructed, c.Initializes S constructed := by
  let slots := c.fieldSlots
  let receiver := c.receiver
  let S := c.fieldSummaries ctx c.methods
  let constructed := constructedFields ctx slots receiver S slots c.constructors
  obtain ⟨regular, settled⟩ := c.fieldSummaries_settled ctx c.methods
  rw [ClassDecl.findings_eq] at none
  obtain ⟨rest, -⟩ := List.append_eq_nil_iff.1 none
  obtain ⟨inConstructors, inMethods⟩ := List.append_eq_nil_iff.1 rest
  refine ⟨S, constructed, fun m hm => ?_, fun m hm => ?_, fun m hm => ?_⟩
  · have found : (m.body.flow (ctx.checking slots receiver S m.body) (.start [])).found = [] :=
      instanceFindings_eq_nil inConstructors m hm
    refine ⟨ctx.checking slots receiver S m.body, ⟨rfl, rfl, rfl⟩, fun x hx => ?_,
      fun f hf _ => ?_⟩
    · rw [found] at hx
      exact absurd hx List.not_mem_nil
    · have assigned := of_decide_eq_true (List.mem_filter.1 ((mem_constructedFields hf).2 m hm)).2
      -- the context in which constructors are summarized follows the same calls
      have same : (ctx.summarizing slots receiver S).SameCalls
        (ctx.checking slots receiver S m.body) := ⟨rfl, rfl⟩
      have level := Block.level_flow same m.body (.refl (.start []))
      simp only [Walk.assignedOnExit, level.state, level.exit] at assigned
      exact assigned
  · have found :
        (m.body.flow (ctx.checking slots receiver S m.body) (.start constructed)).found = [] :=
      instanceFindings_eq_nil inMethods m hm
    refine ⟨ctx.checking slots receiver S m.body, ⟨rfl, rfl, rfl⟩, fun x hx => ?_,
      fun f hf => absurd hf List.not_mem_nil⟩
    rw [found] at hx
    exact absurd hx List.not_mem_nil
  · obtain ⟨s, known⟩ := Summaries.exists_lookup regular hm
    obtain ⟨requires, assigns⟩ := Summaries.covers_of_merge_eq (settled m hm) known
    refine ⟨s, known, ctx.summarizing slots receiver S, ⟨rfl, rfl, rfl⟩, fun x hx hf => ?_,
      fun f hf _ => of_decide_eq_true (List.mem_filter.1 (assigns f hf)).2⟩
    refine requires _ hf (List.mem_filter.2 ⟨hf, decide_eq_true ?_⟩)
    exact List.mem_map_of_mem hx

/-! ### Classes within a program -/

/-- The early reads in a class are among those that have been found. -/
def ClassDecl.FoundIn (c : ClassDecl) (found : List Finding) : Prop :=
  ∃ ctx, c.findings ctx ⊆ found

/-- What is found of a class is found among more findings. -/
lemma ClassDecl.FoundIn.mono {found found' : List Finding} (h : c.FoundIn found)
    (sub : found ⊆ found') : c.FoundIn found' := by
  obtain ⟨ctx, h⟩ := h
  exact ⟨ctx, List.Subset.trans h sub⟩

mutual

/-- The early reads in the classes within an expression are found. -/
lemma Expr.foundIn {ctx : FlowContext} (deep : ctx.inDepth = true) : (e : Expr) → (w : Walk) →
    ∀ c ∈ e.classes, c.2.FoundIn (e.flow ctx w).found
  | .assign _ value _, w => Expr.foundIn deep value w
  | .call receiver name none line, w => fun c hc => by
    have first := Expr.foundIn deep receiver w c (by simpa [Expr.classes] using hc)
    rcases Expr.flow_call ctx receiver name none line w with ⟨-, eq⟩ | ⟨-, eq⟩
    · rw [eq]
      exact first.mono (Walk.leads_callOwn ..).found
    · rw [eq]
      exact first
  | .call receiver name (some es) line, w => fun c hc => by
    have given : c.2.FoundIn (exprFlow ctx es (receiver.flow ctx w)).found := by
      rcases List.mem_append.1 hc with hc | hc
      · exact (Expr.foundIn deep receiver w c hc).mono (leads_exprFlow ctx es _).found
      · exact exprFoundIn deep es _ c hc
    rcases Expr.flow_call ctx receiver name (some es) line w with ⟨-, eq⟩ | ⟨-, eq⟩
    · rw [eq]
      exact given.mono (Walk.leads_callOwn ..).found
    · rw [eq]
      exact given
  | .literal _ _, _ => fun _ hc => absurd hc List.not_mem_nil
  | .read _ _, _ => fun _ hc => absurd hc List.not_mem_nil
  | .logical _ left right _, w => fun c hc => by
    rcases List.mem_append.1 hc with hc | hc
    · exact (Expr.foundIn deep left w c hc).mono (Expr.leads_flow ctx right _).found
    · exact Expr.foundIn deep right _ c hc
  | .cls decl, w => fun c hc => by
    have all : decl.findings ctx ⊆ ((Expr.cls decl).flow ctx w).found := by
      rw [Expr.flow, if_pos deep]
      exact List.Subset.trans (List.subset_append_right _ _)
        (Walk.leads_readAll ctx ⟨w.state, w.exit, w.found ++ decl.findings ctx⟩ _ _).found
    rcases List.mem_cons.1 hc with rfl | hc
    · exact ⟨ctx, all⟩
    · exact (ClassDecl.foundIn ctx decl c hc).mono all

/-- The classes within expressions are checked by the walk through them. -/
lemma exprFoundIn {ctx : FlowContext} (deep : ctx.inDepth = true) : (es : List Expr) →
    (w : Walk) → ∀ c ∈ exprClasses es, c.2.FoundIn (exprFlow ctx es w).found
  | [], _ => fun _ hc => absurd hc List.not_mem_nil
  | e :: es, w => fun c hc => by
    rcases List.mem_append.1 hc with hc | hc
    · exact (Expr.foundIn deep e w c hc).mono (leads_exprFlow ctx es _).found
    · exact exprFoundIn deep es _ c hc

/-- The early reads in the classes within a statement are found. -/
lemma Stmt.foundIn {ctx : FlowContext} (deep : ctx.inDepth = true) : (s : Stmt) → (w : Walk) →
    ∀ c ∈ s.classes, c.2.FoundIn (s.flow ctx w).found
  | .block body, w => Block.foundIn deep body w
  | .branch condition yes none _, w => fun c hc => by
    rw [Stmt.classes, List.append_nil] at hc
    rcases List.mem_append.1 hc with hc | hc
    · exact (Expr.foundIn deep condition w c hc).mono (Stmt.leads_flow ctx yes _).found
    · exact Stmt.foundIn deep yes _ c hc
  | .branch condition yes (some no) _, w => fun c hc => by
    have last := (Stmt.leads_flow ctx no
      ((yes.flow ctx (condition.flow ctx w)).resume (condition.flow ctx w).state)).found
    rcases List.mem_append.1 hc with hc | hc
    · rcases List.mem_append.1 hc with hc | hc
      · exact ((Expr.foundIn deep condition w c hc).mono
          (Stmt.leads_flow ctx yes _).found).mono last
      · exact (Stmt.foundIn deep yes _ c hc).mono last
    · exact Stmt.foundIn deep no _ c hc
  | .loop condition body _, w => fun c hc => by
    rcases List.mem_append.1 hc with hc | hc
    · exact (Expr.foundIn deep condition w c hc).mono (Stmt.leads_flow ctx body _).found
    · exact Stmt.foundIn deep body _ c hc
  | .var _ none _, _ => fun _ hc => absurd hc List.not_mem_nil
  | .var _ (some e) _, w => Expr.foundIn deep e w
  | .ret none _, _ => fun _ hc => absurd hc List.not_mem_nil
  | .ret (some e) _, w => Expr.foundIn deep e w
  | .eval e, w => Expr.foundIn deep e w

/-- The classes within statements are checked by the walk through them. -/
lemma stmtFoundIn {ctx : FlowContext} (deep : ctx.inDepth = true) : (ss : List Stmt) →
    (w : Walk) → ∀ c ∈ stmtClasses ss, c.2.FoundIn (stmtFlow ctx ss w).found
  | [], _ => fun _ hc => absurd hc List.not_mem_nil
  | s :: ss, w => fun c hc => by
    rcases List.mem_append.1 hc with hc | hc
    · exact (Stmt.foundIn deep s w c hc).mono (leads_stmtFlow ctx ss _).found
    · exact stmtFoundIn deep ss _ c hc

/-- The early reads in the classes within a block are found. -/
lemma Block.foundIn {ctx : FlowContext} (deep : ctx.inDepth = true) : (b : Block) → (w : Walk) →
    ∀ c ∈ b.classesWithin, c.2.FoundIn (b.flow ctx w).found
  | ⟨statements, _, classes⟩, w => fun c hc => by
    rw [Block.flow, if_pos deep]
    rcases List.mem_append.1 hc with hc | hc
    · exact (classFoundIn ctx classes c hc).mono
        (List.Subset.trans (List.subset_append_right _ _) (leads_stmtFlow ctx statements
          ⟨w.state, w.exit, w.found ++ classFindings ctx classes⟩).found)
    · exact stmtFoundIn deep statements _ c hc

/-- Declared classes are checked, and so are those within them. -/
lemma classFoundIn (ctx : FlowContext) : (cs : List (Slot × ClassDecl)) →
    ∀ c ∈ declaredClasses cs, c.2.FoundIn (classFindings ctx cs)
  | [] => fun _ hc => absurd hc List.not_mem_nil
  | (_, d) :: cs => fun c hc => by
    rw [declaredClasses, List.cons_append] at hc
    rcases List.mem_cons.1 hc with rfl | hc
    · exact ⟨ctx, List.subset_append_left _ _⟩
    · rcases List.mem_append.1 hc with hc | hc
      · exact (ClassDecl.foundIn ctx d c hc).mono (List.subset_append_left _ _)
      · exact (classFoundIn ctx cs c hc).mono (List.subset_append_right _ _)

/-- The early reads in the classes within a class are found with those in the class. -/
lemma ClassDecl.foundIn (ctx : FlowContext) : (d : ClassDecl) →
    ∀ c ∈ d.classesWithin, c.2.FoundIn (d.findings ctx)
  | ⟨_, _, receiver, _, constructors, staticMethods, methods, fields, _⟩ => fun c hc => by
    rw [ClassDecl.findings]
    rcases List.mem_append.1 hc with hc | hc
    · rcases List.mem_append.1 hc with hc | hc
      · exact (instanceFoundIn ctx _ receiver _ _ constructors c hc).mono
          (List.Subset.trans (List.subset_append_left _ _) (List.subset_append_left _ _))
      · exact (staticFoundIn ctx staticMethods c hc).mono (List.subset_append_right _ _)
    · exact (instanceFoundIn ctx _ receiver _ _ methods c hc).mono
        (List.Subset.trans (List.subset_append_right _ _) (List.subset_append_left _ _))

/-- The classes within bodies of an instance are checked. -/
lemma instanceFoundIn (ctx : FlowContext) (fields : List Slot) (receiver : Slot) (S : Summaries)
    (entry : List Slot) : (ms : List Method) →
    ∀ c ∈ methodClasses ms, c.2.FoundIn (instanceFindings ctx fields receiver S entry ms)
  | [] => fun _ hc => absurd hc List.not_mem_nil
  | ⟨_, _, _, body, _⟩ :: ms => fun c hc => by
    have deep : (ctx.checking fields receiver S body).inDepth = true := rfl
    rw [instanceFindings]
    rcases List.mem_append.1 hc with hc | hc
    · exact (Block.foundIn deep body _ c hc).mono (List.subset_append_left _ _)
    · exact (instanceFoundIn ctx fields receiver S entry ms c hc).mono
        (List.subset_append_right _ _)

/-- The classes within bodies of a class itself are checked. -/
lemma staticFoundIn (ctx : FlowContext) : (ms : List Method) →
    ∀ c ∈ methodClasses ms, c.2.FoundIn (staticFindings ctx ms)
  | [] => fun _ hc => absurd hc List.not_mem_nil
  | ⟨_, _, _, body, _⟩ :: ms => fun c hc => by
    have deep : (ctx.plain body).inDepth = true := rfl
    rw [staticFindings]
    rcases List.mem_append.1 hc with hc | hc
    · exact (Block.foundIn deep body _ c hc).mono (List.subset_append_left _ _)
    · exact (staticFoundIn ctx ms c hc).mono (List.subset_append_right _ _)

end

end Program

/-! ### Whole programs -/

/-- The first of several findings is reported. -/
lemma eq_nil_of_distinctFindings {fs : List Finding} (none : distinctFindings [] fs = []) :
    fs = [] := by
  cases fs with
  | nil => rfl
  | cons f fs =>
    rw [distinctFindings, if_neg List.not_mem_nil] at none
    exact absurd none (List.cons_ne_nil _ _)

/-- In a program without early reads every class initializes its fields. -/
theorem initializes_of_earlyReads {script : Script} (none : earlyReads script = [])
    {o : Option Slot} {c : ClassDecl} (hc : (o, c) ∈ script.classes) :
    ∃ S constructed, c.Initializes S constructed := by
  have found : (script.root.flow (.ofScript script) (.start [])).found = [] :=
    eq_nil_of_distinctFindings none
  have deep : (FlowContext.ofScript script).inDepth = true := rfl
  obtain ⟨ctx, sub⟩ := Block.foundIn deep script.root (.start []) _ hc
  rw [found] at sub
  exact ClassDecl.initializes_of_findings (List.subset_nil.1 sub)

end Ember
