/-
Demands that are made one after the other, also by attempts that are used more
than once: what is known only grows, no attempt is reported twice, and nothing is
left to do when all the demands are made again.

* `TypeGraph.Made`: the graphs that the operations on types lead to in any order;
* `TypeGraph.Extends`: a graph after more has become known. Bounds are appended;
* `TypeGraph.Tidy`: no bound is listed twice, and the bounds below a variable are
  labels and classes;
* `Attempt.Reports`: what a use of an attempt may do to it, and the reports;
* `TypeGraph.constrainEach`: a list of calls that share attempts;
* `constrainEach_monotone`: the facts about such a list.
-/
import Mathlib
import Ember.Proofs.Types.Saturation

namespace Ember

namespace TypeGraph

/-- The graphs that the operations on types lead to, in any order and with any
attempts. -/
inductive Made : TypeGraph → Prop
  | empty : Made .empty
  | fresh {g : TypeGraph} (h : Made g) : Made g.fresh.2
  | labeled {g : TypeGraph} (h : Made g) (name : String) (inner : TypeId) :
      Made (g.push (.labeled name inner)).2
  | cls {g : TypeGraph} (h : Made g) (shape : Shape) : Made (g.push (.cls shape)).2
  | bottom {g : TypeGraph} (h : Made g) : Made (g.push .bottom).2
  | addMethod {g : TypeGraph} (h : Made g) (t : TypeId) (method : Selector)
      (signature : Signature) : Made (g.addMethod t method signature)
  | constrain {g : TypeGraph} (h : Made g) (attempt : Attempt) (left right : TypeId) :
      Made (attempt.constrain g left right).2.1

/-! ### Lists of bounds -/

/-- A bound is added at the end. -/
lemma prefix_addBound (b : TypeId) (bounds : List TypeId) : bounds <+: addBound b bounds := by
  rw [addBound]
  split
  · exact List.prefix_refl bounds
  · exact List.prefix_append bounds [b]

/-- No bound is added twice. -/
lemma nodup_addBound {b : TypeId} {bounds : List TypeId} (h : bounds.Nodup) :
    (addBound b bounds).Nodup := by
  rw [addBound]
  split
  · exact h
  · rename_i hb
    refine h.append (List.nodup_singleton b) fun u hu hub => ?_
    exact hb (List.mem_singleton.1 hub ▸ hu)

/-- The bounds above a variable are left alone, or have the new one added. -/
lemma upper_addUpper (g : TypeGraph) (t b s : TypeId) :
    (g.addUpper t b).upper s = g.upper s ∨ (g.addUpper t b).upper s = addBound b (g.upper s) := by
  rw [TypeGraph.upper, node?_addUpper]
  by_cases hts : t = s
  · rw [if_pos hts]
    cases hn : g.node? s with
    | none => exact .inl (by rw [TypeGraph.upper, hn]; rfl)
    | some n =>
      cases n with
      | var upper lower => exact .inr (by rw [upper_eq hn]; rfl)
      | labeled | cls | bottom => exact .inl (by rw [TypeGraph.upper, hn]; rfl)
  · rw [if_neg hts]
    exact .inl rfl

/-- The bounds below a variable are left alone, or have the new one added. -/
lemma lower_addLower (g : TypeGraph) (t b s : TypeId) :
    (g.addLower t b).lower s = g.lower s ∨ (g.addLower t b).lower s = addBound b (g.lower s) := by
  rw [TypeGraph.lower, node?_addLower]
  by_cases hts : t = s
  · rw [if_pos hts]
    cases hn : g.node? s with
    | none => exact .inl (by rw [TypeGraph.lower, hn]; rfl)
    | some n =>
      cases n with
      | var upper lower => exact .inr (by rw [lower_eq hn]; rfl)
      | labeled | cls | bottom => exact .inl (by rw [TypeGraph.lower, hn]; rfl)
  · rw [if_neg hts]
    exact .inl rfl

/-- An expansion leaves each list of bounds above a type alone, or adds one bound. -/
lemma Expands.upper_eq_or {g g' : TypeGraph} {left right : TypeId} {goals : List Goal}
    (h : Expands g left right g' goals) (t : TypeId) :
    g'.upper t = g.upper t ∨ g'.upper t = addBound right (g.upper t) := by
  cases h with
  | varLeft => exact upper_addUpper _ left right t
  | varRight => exact .inl (upper_addLower _ right left t)
  | _ => exact .inl rfl

/-- An expansion leaves each list of bounds below a type alone, or adds a label or
a class. -/
lemma Expands.lower_eq_or {g g' : TypeGraph} {left right : TypeId} {goals : List Goal}
    (h : Expands g left right g' goals) (t : TypeId) :
    g'.lower t = g.lower t ∨ g'.lower t = addBound left (g.lower t) ∧
      (g.kind? left = some .labeled ∨ g.kind? left = some .cls) := by
  cases h with
  | varLeft => exact .inl (lower_addUpper _ left right t)
  | varRight hleft => exact (lower_addLower _ right left t).imp_right fun h => ⟨h, hleft⟩
  | _ => exact .inl rfl

/-! ### Graphs that only grow -/

/-- A graph with the same types of which more has become known. New bounds come
after the old ones. -/
structure Extends (g g' : TypeGraph) : Prop where
  size : g'.size = g.size
  established : g.established ⊆ g'.established
  upper : ∀ t, g.upper t <+: g'.upper t
  lower : ∀ t, g.lower t <+: g'.lower t

/-- A graph extends itself. -/
lemma Extends.refl (g : TypeGraph) : g.Extends g :=
  ⟨rfl, List.Subset.refl _, fun _ => List.prefix_refl _, fun _ => List.prefix_refl _⟩

/-- What extends an extension extends. -/
lemma Extends.trans {g₁ g₂ g₃ : TypeGraph} (h : g₁.Extends g₂) (h' : g₂.Extends g₃) :
    g₁.Extends g₃ where
  size := h'.size.trans h.size
  established := List.Subset.trans h.established h'.established
  upper t := (h.upper t).trans (h'.upper t)
  lower t := (h.lower t).trans (h'.lower t)

/-- A graph is extended where an open pair is expanded. -/
lemma extends_expand {g : TypeGraph} {left right : TypeId} (h : g.IsOpen left right) :
    g.Extends (g.expand left right).1 := by
  have hexpands := expands h.2.1 h.2.2.1
  constructor
  case size => exact size_expand g left right
  case established =>
    rw [established_expand]
    exact List.subset_cons_self _ _
  case upper =>
    intro t
    rcases hexpands.upper_eq_or t with ht | ht
    · rw [ht]
    · rw [ht]
      exact prefix_addBound right _
  case lower =>
    intro t
    rcases hexpands.lower_eq_or t with ht | ⟨ht, -⟩
    · rw [ht]
    · rw [ht]
      exact prefix_addBound left _

/-- A graph is extended by a demand. -/
lemma extends_constrain (g : TypeGraph) (left right : TypeId) :
    g.Extends (g.constrain left right).1 :=
  solve_rel Extends.refl (fun _ _ _ => Extends.trans) (fun _ _ _ => extends_expand) g _

/-! ### Bounds without repetition -/

/-- No bound is listed twice, and what is below a variable is a label or a class. -/
structure Tidy (g : TypeGraph) : Prop where
  upper : ∀ t, (g.upper t).Nodup
  lower : ∀ t, (g.lower t).Nodup
  kinds : ∀ t, ∀ u ∈ g.lower t, g.kind? u = some .labeled ∨ g.kind? u = some .cls

/-- A graph stays tidy where an open pair is expanded. -/
lemma Tidy.expand {g : TypeGraph} (hg : g.Tidy) {left right : TypeId}
    (h : g.IsOpen left right) : (g.expand left right).1.Tidy := by
  have hexpands := expands h.2.1 h.2.2.1
  have hkind : ∀ u, (g.expand left right).1.kind? u = g.kind? u := fun _ => hexpands.grows.kind?
  constructor
  case upper =>
    intro t
    rcases hexpands.upper_eq_or t with ht | ht <;> rw [ht]
    · exact hg.upper t
    · exact nodup_addBound (hg.upper t)
  case lower =>
    intro t
    rcases hexpands.lower_eq_or t with ht | ⟨ht, -⟩ <;> rw [ht]
    · exact hg.lower t
    · exact nodup_addBound (hg.lower t)
  case kinds =>
    intro t u hu
    rw [hkind]
    rcases hexpands.lower_eq_or t with ht | ⟨ht, hleft⟩ <;> rw [ht] at hu
    · exact hg.kinds t u hu
    · rcases mem_addBound.1 hu with rfl | hu
      · exact hleft
      · exact hg.kinds t u hu

/-- A graph stays tidy after a demand. -/
lemma Tidy.constrain {g : TypeGraph} (hg : g.Tidy) (left right : TypeId) :
    (g.constrain left right).1.Tidy :=
  solve_rel (R := fun g g' => g.Tidy → g'.Tidy) (fun _ => id) (fun _ _ _ h h' => h' ∘ h)
    (fun _ _ _ h hg => hg.expand h) g _ hg

/-- A new type without bounds leaves a graph tidy. -/
lemma Tidy.push {g : TypeGraph} (hg : g.Tidy) {n : TypeNode}
    (hvar : ∀ upper lower, n = .var upper lower → upper = [] ∧ lower = []) :
    (g.push n).2.Tidy := by
  have hkind : ∀ u k, g.kind? u = some k → (g.push n).2.kind? u = some k := by
    intro u k hk
    obtain ⟨m, hm, -⟩ := Option.map_eq_some_iff.1 hk
    rwa [kind?, node?_push, if_neg (Nat.ne_of_lt (node?_lt hm))]
  constructor
  case upper =>
    intro t
    rw [upper_push hvar]
    split_ifs
    · exact List.nodup_nil
    · exact hg.upper t
  case lower =>
    intro t
    rw [lower_push hvar]
    split_ifs
    · exact List.nodup_nil
    · exact hg.lower t
  case kinds =>
    intro t u hu
    rw [lower_push hvar] at hu
    split_ifs at hu
    · cases hu
    · exact (hg.kinds t u hu).imp (hkind u _) (hkind u _)

/-- A class that gets a method stays a class. -/
lemma kind?_addMethod (g : TypeGraph) (t : TypeId) (m : Selector) (s : Signature) (u : TypeId) :
    (g.addMethod t m s).kind? u = g.kind? u := by
  rw [kind?, kind?, node?_addMethod]
  split_ifs
  · cases g.node? u with
    | none => rfl
    | some n => cases n <;> rfl
  · rfl

/-- A graph stays tidy when a class gets a method. -/
lemma Tidy.addMethod {g : TypeGraph} (hg : g.Tidy) (t : TypeId) (m : Selector) (s : Signature) :
    (g.addMethod t m s).Tidy := by
  constructor
  case upper =>
    intro u
    rw [upper_addMethod]
    exact hg.upper u
  case lower =>
    intro u
    rw [lower_addMethod]
    exact hg.lower u
  case kinds =>
    intro u v hv
    rw [lower_addMethod] at hv
    rw [kind?_addMethod]
    exact hg.kinds u v hv

/-- Every graph that the operations lead to is tidy. -/
theorem Made.tidy {g : TypeGraph} (h : g.Made) : g.Tidy := by
  induction h with
  | empty => constructor <;> simp [TypeGraph.empty, TypeGraph.upper, TypeGraph.lower, node?]
  | fresh _ ih =>
    refine ih.push fun upper lower heq => ?_
    cases heq
    exact ⟨rfl, rfl⟩
  | labeled | cls | bottom => rename_i ih; exact ih.push fun _ _ heq => by cases heq
  | addMethod _ t m s ih => exact ih.addMethod t m s
  | constrain _ _ left right ih => exact ih.constrain left right

/-! ### Pairs that need no more work -/

/-- A demand that has been met before changes nothing and meets no conflict. -/
lemma constrain_of_not_isOpen {g : TypeGraph} {left right : TypeId} (h : ¬g.IsOpen left right) :
    g.constrain left right = (g, []) := by
  rw [constrain, solve_closed h, solve_nil]

/-- A pair that has been put in order once is not open any more. -/
lemma not_isOpen_constrain (g : TypeGraph) (left right : TypeId) :
    ¬(g.constrain left right).1.IsOpen left right := by
  by_cases h : g.IsOpen left right
  · rintro ⟨-, -, -, hnew⟩
    rw [constrain, solve_open h] at hnew
    exact hnew (established_solve _ _ (by simp))
  · rwa [constrain_of_not_isOpen h]

/-- What has been met stays so. -/
lemma Extends.not_isOpen {g g' : TypeGraph} (h : g.Extends g') {left right : TypeId}
    (hclosed : ¬g.IsOpen left right) : ¬g'.IsOpen left right := by
  rintro ⟨hne, hleft, hright, hnew⟩
  rw [h.size] at hleft hright
  exact hclosed ⟨hne, hleft, hright, fun hold => hnew (h.established hold)⟩

end TypeGraph

/-! ### Reports of one attempt -/

/-- What may become of an attempt, and the reports that come of it: it stays as it
was without a report, or it is reported once and counts as sent from then on. -/
inductive Attempt.Reports : Attempt → Attempt → List Diagnostic → Prop
  | silent (a : Attempt) : Reports a a []
  | sent (line : Line) (message : String) :
      Reports ⟨line, false⟩ ⟨line, true⟩ [Diagnostic.atLine .typecheck line message]

namespace Attempt

/-- An attempt that is used twice is not reported twice. -/
lemma Reports.append {a b c : Attempt} {first later : List Diagnostic} (h : a.Reports b first)
    (h' : b.Reports c later) : a.Reports c (first ++ later) := by
  cases h with
  | silent => exact h'
  | sent line message =>
    cases h' with
    | silent => exact .sent line message

/-- A message is sent unless there was one before. -/
lemma reports_send (a : Attempt) (message : String) :
    a.Reports (a.send message).1 (a.send message).2 := by
  obtain ⟨line, sent⟩ := a
  cases sent with
  | false => exact .sent line message
  | true => exact .silent ⟨line, true⟩

/-- Of several conflicts the first one is sent, unless there was one before. -/
lemma reports_sendAll (a : Attempt) (g : TypeGraph) (conflicts : List Conflict) :
    a.Reports (a.sendAll g conflicts).1 (a.sendAll g conflicts).2 := by
  induction conflicts generalizing a with
  | nil => exact .silent a
  | cons c rest ih => exact (a.reports_send (c.message g)).append (ih _)

/-- However many conflicts a call leads to, its attempt is reported at most once. -/
lemma reports_constrain (a : Attempt) (g : TypeGraph) (left right : TypeId) :
    a.Reports (a.constrain g left right).1 (a.constrain g left right).2.2 :=
  a.reports_sendAll _ _

end Attempt

/-! ### Calls that share attempts -/

/-- A demand that one type be below another, made on behalf of an attempt. -/
structure Call where
  left : TypeId
  right : TypeId
  attempt : Nat

/-- The types that a call is about. -/
def Call.pair (c : Call) : TypeId × TypeId := (c.left, c.right)

namespace TypeGraph

/-- Makes calls one after the other. Returns the attempts as they are in the end,
and the reports, each with the attempt it comes from. -/
def constrainEach (g : TypeGraph) (attempts : Nat → Attempt) :
    List Call → TypeGraph × (Nat → Attempt) × List (Nat × Diagnostic)
  | [] => (g, attempts, [])
  | c :: rest =>
    let first := (attempts c.attempt).constrain g c.left c.right
    let others := constrainEach first.2.1 (Function.update attempts c.attempt first.1) rest
    (others.1, others.2.1, first.2.2.map (Prod.mk c.attempt) ++ others.2.2)

/-- The reports that come from one attempt. -/
def reportsOf (i : Nat) (reports : List (Nat × Diagnostic)) : List Diagnostic :=
  (reports.filter fun r => r.1 = i).map Prod.snd

/-- The reports of an attempt in two parts of a list. -/
lemma reportsOf_append (i : Nat) (first later : List (Nat × Diagnostic)) :
    reportsOf i (first ++ later) = reportsOf i first ++ reportsOf i later := by
  simp [reportsOf]

/-- The reports of one use belong to its attempt. -/
lemma reportsOf_map (i j : Nat) (reports : List Diagnostic) :
    reportsOf i (reports.map (Prod.mk j)) = if j = i then reports else [] := by
  rw [reportsOf, List.filter_map, List.map_map]
  split_ifs with h <;> simp [Function.comp_def, h]

variable (g : TypeGraph) (attempts : Nat → Attempt) (calls : List Call)

/-- A graph is extended by one demand after the other. -/
lemma extends_constrainEach : g.Extends (g.constrainEach attempts calls).1 := by
  induction calls generalizing g attempts with
  | nil => exact .refl g
  | cons c rest ih => exact (extends_constrain g c.left c.right).trans (ih _ _)

/-- A graph stays tidy after one demand and the next. -/
lemma Tidy.constrainEach {g : TypeGraph} (hg : g.Tidy) :
    (g.constrainEach attempts calls).1.Tidy := by
  induction calls generalizing g attempts with
  | nil => exact hg
  | cons c rest ih => exact ih _ (hg.constrain c.left c.right)

/-- Over a whole list of calls each attempt is reported at most once. -/
lemma reports_constrainEach (i : Nat) :
    (attempts i).Reports ((g.constrainEach attempts calls).2.1 i)
      (reportsOf i (g.constrainEach attempts calls).2.2) := by
  induction calls generalizing g attempts with
  | nil => exact .silent _
  | cons c rest ih =>
    rw [constrainEach, reportsOf_append, reportsOf_map]
    dsimp only
    have hrest := ih ((attempts c.attempt).constrain g c.left c.right).2.1
      (Function.update attempts c.attempt ((attempts c.attempt).constrain g c.left c.right).1)
    by_cases hi : c.attempt = i
    · subst hi
      rw [Function.update_self] at hrest
      rw [if_pos rfl]
      exact ((attempts c.attempt).reports_constrain g c.left c.right).append hrest
    · rw [Function.update_of_ne (Ne.symm hi)] at hrest
      rw [if_neg hi]
      exact hrest

/-- After a list of calls none of its pairs is open. -/
lemma not_isOpen_constrainEach :
    ∀ c ∈ calls, ¬(g.constrainEach attempts calls).1.IsOpen c.left c.right := by
  induction calls generalizing g attempts with
  | nil => exact fun c hc => absurd hc List.not_mem_nil
  | cons c rest ih =>
    intro d hd
    rcases List.mem_cons.1 hd with rfl | hd
    · exact (extends_constrainEach _ _ rest).not_isOpen (not_isOpen_constrain g d.left d.right)
    · exact ih _ _ d hd

/-- Calls of which no pair is open change nothing and report nothing. -/
lemma constrainEach_of_not_isOpen (h : ∀ c ∈ calls, ¬g.IsOpen c.left c.right) :
    g.constrainEach attempts calls = (g, attempts, []) := by
  induction calls with
  | nil => rfl
  | cons c rest ih =>
    obtain ⟨hc, hrest⟩ := List.forall_mem_cons.1 h
    have hfirst : (attempts c.attempt).constrain g c.left c.right =
        (attempts c.attempt, g, []) := by
      rw [Attempt.constrain, constrain_of_not_isOpen hc]
      rfl
    rw [constrainEach, hfirst]
    dsimp only
    rw [Function.update_eq_self, ih hrest]
    rfl

/-- A list of calls, also ones that share attempts, only adds to what is known:
established pairs stay, bounds are appended, none is listed twice, and what is
below a variable is a label or a class. Each attempt is reported once if it is
sent by one of the calls, on its line, and not at all otherwise. The same pairs
asked for again, by whatever attempts, change nothing and lead to no report. -/
theorem constrainEach_monotone {g : TypeGraph} (h : g.Made) (attempts : Nat → Attempt)
    (calls : List Call) :
    g.established ⊆ (g.constrainEach attempts calls).1.established ∧
      (∀ t, g.upper t <+: (g.constrainEach attempts calls).1.upper t ∧
        g.lower t <+: (g.constrainEach attempts calls).1.lower t) ∧
      (∀ t, ((g.constrainEach attempts calls).1.upper t).Nodup ∧
        ((g.constrainEach attempts calls).1.lower t).Nodup) ∧
      (∀ t, ∀ u ∈ (g.constrainEach attempts calls).1.lower t,
        (g.constrainEach attempts calls).1.kind? u = some .labeled ∨
          (g.constrainEach attempts calls).1.kind? u = some .cls) ∧
      (∀ i, (attempts i).Reports ((g.constrainEach attempts calls).2.1 i)
        (reportsOf i (g.constrainEach attempts calls).2.2)) ∧
      ∀ (attempts' : Nat → Attempt) (calls' : List Call),
        calls'.map Call.pair = calls.map Call.pair →
          (g.constrainEach attempts calls).1.constrainEach attempts' calls' =
            ((g.constrainEach attempts calls).1, attempts', []) := by
  have hextends := extends_constrainEach g attempts calls
  have htidy := h.tidy.constrainEach attempts calls
  refine ⟨hextends.established, fun t => ⟨hextends.upper t, hextends.lower t⟩,
    fun t => ⟨htidy.upper t, htidy.lower t⟩, htidy.kinds,
    reports_constrainEach g attempts calls, fun attempts' calls' hpairs => ?_⟩
  refine constrainEach_of_not_isOpen _ attempts' calls' fun c hc => ?_
  have hmem : c.pair ∈ calls.map Call.pair := hpairs ▸ List.mem_map_of_mem hc
  obtain ⟨d, hd, hpair⟩ := List.mem_map.1 hmem
  have hleft : d.left = c.left := congrArg Prod.fst hpair
  have hright : d.right = c.right := congrArg Prod.snd hpair
  rw [← hleft, ← hright]
  exact not_isOpen_constrainEach g attempts calls d hd

/-- A class and a label without methods flow into a variable that has to have one:
two conflicts, of which the attempt that they share reports the first. -/
theorem constrainEach_monotone_shared_attempt :
    ∃ g : TypeGraph, g.Made ∧
      (g.constrainEach (fun i => .new i) [⟨1, 0, 7⟩, ⟨2, 0, 7⟩, ⟨0, 3, 7⟩, ⟨0, 3, 8⟩]).2.2 =
        [(7, .atLine .typecheck 7 "'\x7b\x7d' does not implement 'at'.")] ∧
      (g.constrainEach (fun i => .new i) [⟨1, 0, 7⟩, ⟨2, 0, 7⟩, ⟨0, 3, 7⟩, ⟨0, 3, 8⟩]).1.lower 0 =
        [1, 2] ∧
      ((g.constrainEach (fun i => .new i)
        [⟨1, 0, 7⟩, ⟨2, 0, 7⟩, ⟨0, 3, 7⟩, ⟨0, 3, 8⟩]).1.constrainEach (fun _ => .new 9)
          [⟨1, 0, 1⟩, ⟨2, 0, 2⟩, ⟨0, 3, 3⟩, ⟨0, 3, 4⟩]).2.2 = [] := by
  have hmade := (((Made.empty.fresh.cls []).labeled "Unit" 1).cls []).addMethod 3
    (.getter "at") ⟨none, 0⟩
  obtain ⟨-, -, -, -, -, hagain⟩ := constrainEach_monotone hmade (fun i => .new i)
    [⟨1, 0, 7⟩, ⟨2, 0, 7⟩, ⟨0, 3, 7⟩, ⟨0, 3, 8⟩]
  refine ⟨_, hmade, by cbv, by cbv, ?_⟩
  rw [hagain (fun _ => .new 9) [⟨1, 0, 1⟩, ⟨2, 0, 2⟩, ⟨0, 3, 3⟩, ⟨0, 3, 4⟩] rfl]

end TypeGraph

end Ember
