/-
The summaries of the methods of a class as the least solution of what the methods say of
each other.

* `Program.ClassDecl.Solves`: a table of summaries that agrees with the paths through the
  methods' bodies, when calls of own methods do what the table says;
* `Program.ClassDecl.Rising`: the invariant of summing up, which every visit of a method
  keeps. No solution is below such summaries, and each of them is exceeded by what its
  method is found to do;
* `settle_iterate`: how many rounds there are;
* `fieldSummaries_least`: the rounds end with the least solution, as does any other order
  of visits.
-/
import Mathlib
import Ember.Proofs.Flow.Comparing
import Ember.Proofs.Flow.Exactness
import Ember.Proofs.Flow.OwnWalks
import Ember.Proofs.Scope.Tables

namespace Ember

open Program

namespace Program

/-! ### Solutions -/

/-- A table of summaries that agrees with the bodies of a class: each method requires the
fields that some path through its body uses before it assigns them, and it assigns the
fields that every path assigns, when calls of own methods do what the table says. -/
structure ClassDecl.Solves (c : ClassDecl) (named : List (Slot × ClassDecl)) (captures : Captures)
    (S : Summaries) : Prop where
  known : ∀ method, (∃ s, S.lookup method = some s) ↔ ∃ m ∈ c.methods, m.selector = method
  requires : ∀ m ∈ c.methods, ∀ s, S.lookup m.selector = some s → ∀ f,
    f ∈ s.requires ↔ f ∈ c.fieldSlots ∧ m.MayNeed named captures c.receiver S f
  assigns : ∀ m ∈ c.methods, ∀ s, S.lookup m.selector = some s → ∀ f,
    f ∈ s.assigns ↔ f ∈ c.fieldSlots ∧ m.AlwaysAssigns named c.receiver S f

/-- No field of a class is a variable of its methods, and no two methods answer to one
selector. -/
structure ClassDecl.Distinct (c : ClassDecl) : Prop where
  fields : ∀ m ∈ c.methods, ∀ f ∈ c.fieldSlots, f ∉ m.body.locals
  methods : Unambiguous c.methods

section Visits

variable {ctx : FlowContext} {c : ClassDecl} {S T : Summaries} {m : Method}

/-- With summaries that require more and assign less, so does what a method is found
to do. -/
lemma ClassDecl.Distinct.summary_below (distinct : c.Distinct) (hm : m ∈ c.methods)
    (below : S.Below T) : (m.summary ctx c.fieldSlots c.receiver S).Below
      (m.summary ctx c.fieldSlots c.receiver T) := by
  constructor
  · intro f needed
    have hf : f ∈ c.fieldSlots := (List.mem_filter.1 needed).1
    have other := distinct.fields m hm f hf
    rw [m.mem_requires_summary hf other] at needed ⊢
    exact (Block.weaker below m.body other).early needed
  · intro f assigned
    have hf : f ∈ c.fieldSlots := (List.mem_filter.1 assigned).1
    have other := distinct.fields m hm f hf
    rw [m.mem_assigns_summary hf other] at assigned ⊢
    have weaker : Paths.Weaker ctx.captures f (m.body.ownPaths ctx.named c.receiver S)
      (m.body.ownPaths ctx.named c.receiver T) := Block.weaker below m.body other
    intro tr r path
    refine Bool.eq_false_iff.2 fun unassigned => ?_
    obtain ⟨tr', path', unassigned'⟩ := weaker.lets r ⟨tr, path, unassigned⟩
    rw [assigned tr' r path'] at unassigned'
    cases unassigned'

/-- Summaries from which a solution can still be reached by visits: each of them is
exceeded by what its method is found to do, and no solution is below them. -/
structure ClassDecl.Rising (c : ClassDecl) (ctx : FlowContext) (S : Summaries) : Prop where
  regular : S.Regular c.fieldSlots c.methods
  exceeded : ∀ m ∈ c.methods, ∀ s, S.lookup m.selector = some s →
    s.Below (m.summary ctx c.fieldSlots c.receiver S)
  least : ∀ T, c.Solves ctx.named ctx.captures T → S.Below T

/-- A solution is what the methods are found to do when it is used. -/
lemma ClassDecl.Solves.summary_below (solves : c.Solves ctx.named ctx.captures T)
    (distinct : c.Distinct) (hm : m ∈ c.methods) {t : Summary}
    (known : T.lookup m.selector = some t) :
    (m.summary ctx c.fieldSlots c.receiver T).Below t := by
  constructor
  · intro f needed
    have hf : f ∈ c.fieldSlots := (List.mem_filter.1 needed).1
    rw [m.mem_requires_summary hf (distinct.fields m hm f hf)] at needed
    exact (solves.requires m hm t known f).2 ⟨hf, needed⟩
  · intro f assigned
    obtain ⟨hf, always⟩ := (solves.assigns m hm t known f).1 assigned
    exact (m.mem_assigns_summary hf (distinct.fields m hm f hf)).2 always

/-- The summary of a method lists fields only, in their order. -/
lemma Method.regular_summary (m : Method) {fields : List Slot} {receiver : Slot} :
    (m.summary ctx fields receiver S).Regular fields := Summary.regular_filter fields _ _

/-- A table that says of each method what the method is found to do. -/
lemma ClassDecl.Distinct.solves_of_summaries (distinct : c.Distinct)
    (regular : S.Regular c.fieldSlots c.methods)
    (agrees : ∀ m ∈ c.methods,
      S.lookup m.selector = some (m.summary ctx c.fieldSlots c.receiver S)) :
    c.Solves ctx.named ctx.captures S where
  known method := by
    constructor
    · rintro ⟨s, known⟩
      have key : method ∈ S.map Prod.fst := List.mem_map_of_mem (mem_of_lookup known)
      rw [regular.keys] at key
      exact List.mem_map.1 key
    · rintro ⟨m, hm, rfl⟩
      exact ⟨_, agrees m hm⟩
  requires m hm s known f := by
    cases known.symm.trans (agrees m hm)
    constructor
    · intro needed
      have hf : f ∈ c.fieldSlots := m.regular_summary.mem_requires needed
      exact ⟨hf, (m.mem_requires_summary hf (distinct.fields m hm f hf)).1 needed⟩
    · rintro ⟨hf, needs⟩
      exact (m.mem_requires_summary hf (distinct.fields m hm f hf)).2 needs
  assigns m hm s known f := by
    cases known.symm.trans (agrees m hm)
    constructor
    · intro assigned
      have hf : f ∈ c.fieldSlots := m.regular_summary.mem_assigns assigned
      exact ⟨hf, (m.mem_assigns_summary hf (distinct.fields m hm f hf)).1 assigned⟩
    · rintro ⟨hf, always⟩
      exact (m.mem_assigns_summary hf (distinct.fields m hm f hf)).2 always

/-! ### Visits -/

/-- Every solution is above the summaries to begin with. -/
lemma ClassDecl.Solves.start_below (solves : c.Solves ctx.named ctx.captures T) :
    (Summaries.start c.fieldSlots c.methods).Below T := by
  intro k
  cases known : (Summaries.start c.fieldSlots c.methods).lookup k with
  | none =>
    cases ht : T.lookup k with
    | none => exact .none
    | some t =>
      obtain ⟨m, hm, rfl⟩ := (solves.known k).1 ⟨t, ht⟩
      obtain ⟨s, known'⟩ := Summaries.exists_lookup
        (Summaries.regular_start c.fieldSlots c.methods) hm
      rw [known] at known'
      cases known'
  | some s =>
    obtain ⟨rfl, m, hm, rfl⟩ := Summaries.of_lookup_start known
    obtain ⟨t, ht⟩ := (solves.known m.selector).2 ⟨m, hm, rfl⟩
    rw [ht]
    refine .some ⟨List.nil_subset _, fun f hf => ?_⟩
    exact ((solves.assigns m hm t ht f).1 hf).1

/-- A solution that is above some summaries is above them after a visit of a method. -/
lemma ClassDecl.Solves.visit_below (solves : c.Solves ctx.named ctx.captures T)
    (distinct : c.Distinct) (hm : m ∈ c.methods) (below : S.Below T) :
    (S.merge c.fieldSlots m.selector (m.summary ctx c.fieldSlots c.receiver S)).Below T := by
  intro k
  rw [Summaries.lookup_merge]
  cases hs : S.lookup k with
  | none =>
    have entry := below k
    rw [hs] at entry
    exact entry
  | some s =>
    obtain ⟨t, ht, entry⟩ := below.of_left hs
    rw [ht]
    refine .some ?_
    show Summary.Below (if k = m.selector then _ else s) t
    split
    · next same =>
      subst same
      have found : (m.summary ctx c.fieldSlots c.receiver S).Below t :=
        (distinct.summary_below hm below).trans (solves.summary_below distinct hm ht)
      exact entry.merge found fun f hf => ((solves.assigns m hm t ht f).1 hf).1
    · exact entry

/-- The summaries to begin with can only rise. -/
lemma ClassDecl.rising_start (c : ClassDecl) (ctx : FlowContext) :
    c.Rising ctx (Summaries.start c.fieldSlots c.methods) where
  regular := Summaries.regular_start _ _
  exceeded m hm s known := by
    obtain ⟨rfl, -⟩ := Summaries.of_lookup_start known
    exact ⟨List.nil_subset _, fun f hf => (List.mem_filter.1 hf).1⟩
  least T solves := solves.start_below

/-- A visit of a method keeps what is known of the summaries. -/
lemma ClassDecl.Rising.visit (rising : c.Rising ctx S) (distinct : c.Distinct)
    (hm : m ∈ c.methods) : c.Rising ctx
      (S.merge c.fieldSlots m.selector (m.summary ctx c.fieldSlots c.receiver S)) where
  regular := rising.regular.merge m.selector _
  exceeded k hk s known := by
    let found := m.summary ctx c.fieldSlots c.receiver S
    have grows : S.Below (S.merge c.fieldSlots m.selector found) :=
      rising.regular.below_merge m.selector found
    have later : (k.summary ctx c.fieldSlots c.receiver S).Below _ :=
      distinct.summary_below hk grows
    rw [Summaries.lookup_merge] at known
    obtain ⟨s₀, known₀, rfl⟩ := Option.map_eq_some_iff.1 known
    have before : s₀.Below (k.summary ctx c.fieldSlots c.receiver S) :=
      rising.exceeded k hk s₀ known₀
    split
    · next same =>
      -- no other method answers to this selector, so what was found is about this one
      obtain rfl : k = m := List.inj_on_of_nodup_map distinct.methods hk hm same
      have merged : (s₀.merge c.fieldSlots found).Below found :=
        before.merge (.refl found) fun f hf => (List.mem_filter.1 hf).1
      exact merged.trans later
    · exact before.trans later
  least T solves := solves.visit_below distinct hm (rising.least T solves)

/-- Any visits keep what is known of the summaries. -/
lemma ClassDecl.Rising.visits (rising : c.Rising ctx S) (distinct : c.Distinct)
    (order : List Method) (among : order ⊆ c.methods) :
    c.Rising ctx (summarizeMethods ctx c.fieldSlots c.receiver S order) := by
  induction order generalizing S with
  | nil => exact rising
  | cons m ms ih =>
    obtain ⟨hm, hms⟩ := List.cons_subset.1 among
    rw [summarizeMethods_cons]
    exact ih (rising.visit distinct hm) hms

/-- Visits of all methods that change nothing have found a solution. -/
lemma ClassDecl.Rising.solves (rising : c.Rising ctx S) (distinct : c.Distinct)
    (still : ∀ m ∈ c.methods,
      S.merge c.fieldSlots m.selector (m.summary ctx c.fieldSlots c.receiver S) = S) :
    c.Solves ctx.named ctx.captures S := by
  refine distinct.solves_of_summaries rising.regular fun m hm => ?_
  obtain ⟨s, known⟩ := Summaries.exists_lookup rising.regular hm
  have entry : s.Regular c.fieldSlots := rising.regular.entries _ (mem_of_lookup known)
  have found : (m.summary ctx c.fieldSlots c.receiver S).Regular c.fieldSlots := m.regular_summary
  obtain ⟨requires, assigns⟩ := Summaries.covers_of_merge_eq (still m hm) known
  have below : (m.summary ctx c.fieldSlots c.receiver S).Below s :=
    ⟨fun f hf => requires f (found.mem_requires hf) hf, assigns⟩
  rw [known, entry.eq_of_below found (rising.exceeded m hm s known) below]

/-- Visits that end with solutions all end with the same one. -/
lemma ClassDecl.Rising.eq (rising : c.Rising ctx S) (rising' : c.Rising ctx T)
    (distinct : c.Distinct) (solves : c.Solves ctx.named ctx.captures S)
    (solves' : c.Solves ctx.named ctx.captures T) : S = T :=
  rising.regular.eq_of_below distinct.methods rising'.regular (rising.least T solves')
    (rising'.least S solves)

/-- A round that finds nothing new of any method changes nothing. -/
lemma summarizeMethods_of_still {fields : List Slot} {receiver : Slot} {ms : List Method}
    (still : ∀ m ∈ ms, S.merge fields m.selector (m.summary ctx fields receiver S) = S) :
    summarizeMethods ctx fields receiver S ms = S := by
  induction ms with
  | nil => rfl
  | cons m ms ih =>
    obtain ⟨first, rest⟩ := List.forall_mem_cons.1 still
    rw [summarizeMethods_cons, first, ih rest]

/-- The rounds over all methods, in any order, end with a solution. -/
lemma ClassDecl.Distinct.fieldSummaries_spec (distinct : c.Distinct) (ctx : FlowContext)
    {order : List Method} (perm : order.Perm c.methods) :
    c.Rising ctx (c.fieldSummaries ctx order) ∧
      c.Solves ctx.named ctx.captures (c.fieldSummaries ctx order) := by
  have rising : c.Rising ctx (c.fieldSummaries ctx order) :=
    (settle_spec (Summaries.weight c.fieldSlots)
      (fun S => summarizeMethods ctx c.fieldSlots c.receiver S order) (P := c.Rising ctx)
      (fun S rising => rising.visits distinct order perm.subset) (c.rising_start ctx)).1
  refine ⟨rising, rising.solves distinct fun m hm => ?_⟩
  exact (c.fieldSummaries_settled ctx order).2 m (perm.mem_iff.2 hm)

end Visits

end Program

/-! ### Rounds -/

/-- Rounds are repeated a number of times that the weight bounds, and each of them makes
it fall. -/
lemma settle_iterate {α : Type} (weight : α → Nat) (round : α → α) (x : α) :
    ∃ n, settle weight round x = round^[n] x ∧ weight (round^[n] x) + n ≤ weight x ∧
      ∀ k < n, weight (round^[k + 1] x) < weight (round^[k] x) := by
  induction x using WellFounded.induction (measure weight).wf with
  | _ x ih =>
    rw [settle]
    split
    · next smaller =>
      have falls : weight (round x) < weight x := smaller
      obtain ⟨n, last, bound, each⟩ := ih (round x) falls
      refine ⟨n + 1, last, ?_, fun k hk => ?_⟩
      · rw [Function.iterate_succ_apply]
        omega
      · cases k with
        | zero => exact falls
        | succ k => exact each k (Nat.lt_of_succ_lt_succ hk)
    · exact ⟨0, rfl, Nat.le_refl _, fun k hk => absurd hk (Nat.not_lt_zero k)⟩

/-- To begin with nothing is required and each field is assigned by every method. -/
lemma Summaries.weight_start (fields : List Slot) (methods : List Method) :
    weight fields (start fields methods) = 2 * methods.length * fields.length := by
  induction methods with
  | nil => simp [start, weight]
  | cons m ms ih =>
    have rest : weight fields (start fields (m :: ms)) =
        fields.length + fields.length + weight fields (start fields ms) := rfl
    rw [rest, ih, List.length_cons]
    ring

/-- The methods of a class of a resolved program answer to different selectors, and none
of its fields is a variable of theirs. -/
lemma distinct_of_mem_classes (globals : List String) (program : List Syntax.Stmt)
    {c : Option Slot × ClassDecl} (hc : c ∈ (resolve globals program).1.classes) :
    c.2.Distinct where
  fields m hm f hf own := by
    have body : m.body ∈ (resolve globals program).1.bodies :=
      List.mem_cons_of_mem _ (mem_bodies.2 ⟨c, hc, m, List.mem_append_right _ hm, rfl⟩)
    exact not_mem_fieldSlots (resolve_nodup globals program) body own hc hf
  methods := (sorted_of_mem_classes globals program hc).methods.unambiguous

/-- The methods of a class are summarized in finitely many rounds: all but the last change
something, of which there are no more than two to each method and field. They end with a
table that agrees with the bodies of the methods when it is used for their calls of each
other, and of all such tables it requires the least and assigns the most. Rounds in any
other order end with the same table, and so do any visits of single methods that go on
until nothing changes. -/
theorem fieldSummaries_least (globals : List String) (program : List Syntax.Stmt)
    (o : Option Slot) (c : ClassDecl) (hc : (o, c) ∈ (resolve globals program).1.classes)
    (ctx : FlowContext) :
    let visit := summarizeMethods ctx c.fieldSlots c.receiver
    let start := Summaries.start c.fieldSlots c.methods
    let S := c.fieldSummaries ctx c.methods
    (∃ n ≤ 2 * c.methods.length * c.fieldSlots.length,
      S = (visit · c.methods)^[n] start ∧ visit S c.methods = S ∧
        ∀ k < n, visit ((visit · c.methods)^[k] start) c.methods ≠
          (visit · c.methods)^[k] start) ∧
      c.Solves ctx.named ctx.captures S ∧
      (∀ T, c.Solves ctx.named ctx.captures T → S.Below T) ∧
      (∀ order : List Method, order.Perm c.methods → c.fieldSummaries ctx order = S) ∧
      ∀ visits ⊆ c.methods,
        visit (visit start visits) c.methods = visit start visits → visit start visits = S := by
  intro visit start S
  have distinct : c.Distinct := distinct_of_mem_classes globals program hc
  obtain ⟨rising, solves⟩ := distinct.fieldSummaries_spec ctx (.refl c.methods)
  -- the weight of a table falls in each round that changes something
  obtain ⟨n, last, bound, falls⟩ := settle_iterate (Summaries.weight c.fieldSlots)
    (visit · c.methods) start
  refine ⟨⟨n, ?_, last, ?_, fun k hk same => ?_⟩, solves, rising.least, fun order perm => ?_,
    fun visits among still => ?_⟩
  · calc n ≤ Summaries.weight c.fieldSlots start := by omega
      _ = 2 * c.methods.length * c.fieldSlots.length := Summaries.weight_start _ _
  · exact summarizeMethods_of_still (c.fieldSummaries_settled ctx c.methods).2
  · have fall := falls k hk
    rw [Function.iterate_succ_apply', same] at fall
    exact absurd fall (Nat.lt_irrefl _)
  · obtain ⟨rising', solves'⟩ := distinct.fieldSummaries_spec ctx perm
    exact rising'.eq rising distinct solves' solves
  -- visits that change nothing any more have come to a solution, below all others as well
  · have rising' : c.Rising ctx (visit start visits) :=
      (c.rising_start ctx).visits distinct visits among
    have weighs : Summaries.weight c.fieldSlots (visit start visits) ≤
        Summaries.weight c.fieldSlots (visit (visit start visits) c.methods) := by rw [still]
    have settled := (summarizeMethods_spec rising'.regular c.methods).2.2 weighs
    exact rising'.eq rising distinct (rising'.solves distinct settled) solves

/-- A class two of whose methods call each other, while another one learns only from a
later one what it requires. -/
def stepsAndRests : List Syntax.Stmt :=
  [.cls ⟨"Walker", 1⟩
    [⟨.construct, ⟨"new", 2⟩, some [], [.eval (.call (.this 2) ⟨"rest", 2⟩ (some []) none)]⟩,
      ⟨.onInstance, ⟨"step", 3⟩, some [⟨"more", 3⟩],
        [.branch (.variable ⟨"more", 4⟩)
          (.eval (.call (.this 4) ⟨"rest", 4⟩ (some []) none))
          (some (.eval (.assign (.field ⟨"goal", 5⟩) (.literal (.boolean true) 5) 5))) 4]⟩,
      ⟨.onInstance, ⟨"rest", 6⟩, some [],
        [.eval (.call (.this 7) ⟨"step", 7⟩ (some [.literal (.boolean false) 7]) none),
          .ret (some (.call (.this 8) ⟨"ask", 8⟩ (some []) none)) 8]⟩,
      ⟨.onInstance, ⟨"ask", 9⟩, some [],
        [.ret (some (.call (.this 9) ⟨"look", 9⟩ (some []) none)) 9]⟩,
      ⟨.onInstance, ⟨"look", 10⟩, some [], [.ret (some (.field ⟨"goal", 10⟩)) 10]⟩],
    .eval (.variable ⟨"Walker", 11⟩)]

/-- The class once its names are resolved. -/
def steppedAndRested : ClassDecl where
  name := "Walker"
  line := 1
  receiver := ⟨1⟩
  staticReceiver := ⟨2⟩
  constructors :=
    [⟨"new", some [], [], ⟨[.eval (.call (.read ⟨1⟩ 2) "rest" (some []) 2)], [], []⟩, 2⟩]
  staticMethods := []
  methods :=
    [⟨"ask", some [], [], ⟨[.ret (some (.call (.read ⟨1⟩ 9) "look" (some []) 9)) 9], [], []⟩, 9⟩,
      ⟨"look", some [], [], ⟨[.ret (some (.read ⟨4⟩ 10)) 10], [], []⟩, 10⟩,
      ⟨"rest", some [], [],
        ⟨[.eval (.call (.read ⟨1⟩ 7) "step" (some [.literal (.boolean false) 7]) 7),
          .ret (some (.call (.read ⟨1⟩ 8) "ask" (some []) 8)) 8], [], []⟩, 6⟩,
      ⟨"step", some [⟨3⟩], [(⟨3⟩, "more")],
        ⟨[.branch (.read ⟨3⟩ 4) (.eval (.call (.read ⟨1⟩ 4) "rest" (some []) 4))
          (some (.eval (.assign ⟨4⟩ (.literal (.boolean true) 5) 5))) 4], [], []⟩, 3⟩]
  fields := [(⟨4⟩, "goal")]
  staticFields := []

/-- Summaries of its methods that say of two of them what is given, and of the others that
they require the field and do not assign it. -/
def walkerSummaries (inTurn : Summary) : Summaries :=
  [(⟨"ask", some 0⟩, ⟨[⟨4⟩], []⟩), (⟨"look", some 0⟩, ⟨[⟨4⟩], []⟩), (⟨"rest", some 0⟩, inTurn),
    (⟨"step", some 1⟩, inTurn)]

/-- The methods that call each other assign the field. A table by which they require it
agrees with their bodies too, but it is not the least, and no order of visits leads to
it. -/
theorem fieldSummaries_least_stepsAndRests :
    let script := (resolve [] stepsAndRests).1
    let ctx := FlowContext.ofScript script
    let c := steppedAndRested
    let S := walkerSummaries ⟨[], [⟨4⟩]⟩
    let T := walkerSummaries ⟨[⟨4⟩], []⟩
    (some ⟨0⟩, c) ∈ script.classes ∧ c.fieldSummaries ctx c.methods = S ∧
      c.Solves ctx.named ctx.captures S ∧ c.Solves ctx.named ctx.captures T ∧ S.Below T ∧
        S ≠ T ∧ c.fieldSummaries ctx c.methods.reverse = S := by
  intro script ctx c S T
  have only : (resolve [] stepsAndRests).1.classes = [(some ⟨0⟩, steppedAndRested)] := by cbv
  have mem : (some ⟨0⟩, c) ∈ script.classes := only ▸ List.mem_singleton_self _
  have found : c.fieldSummaries ctx c.methods = S := by decide +kernel
  have regular : T.Regular c.fieldSlots c.methods := by
    refine ⟨rfl, ?_⟩
    simp [T, c, walkerSummaries, Summary.Regular, ClassDecl.fieldSlots, steppedAndRested]
  have cautious : c.Solves ctx.named ctx.captures T :=
    (distinct_of_mem_classes [] stepsAndRests mem).solves_of_summaries regular (by decide +kernel)
  obtain ⟨-, solves, least, orders, -⟩ := fieldSummaries_least [] stepsAndRests (some ⟨0⟩) c mem ctx
  have reversed := orders c.methods.reverse (List.reverse_perm _)
  rw [found] at solves least reversed
  exact ⟨mem, found, solves, cautious, least T cautious, by decide, reversed⟩

end Ember
