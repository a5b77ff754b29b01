/-
What is reported where the value of a class comes about.

* `Among`: a class that is declared or stands within a part. Mentions and values are about
  such classes;
* `Program.Expr.without_makes`, `Program.Stmt.without_makes`: the values of other classes
  come about on no path;
* `family_of_script`: the classes of a program are a family;
* `Captures.Tells`: what captures tell of a class;
* `captures_of_script`: the captures of a program, and what is reported for them.
-/
import Mathlib
import Ember.Proofs.Flow.Capturing
import Ember.Proofs.Flow.Exactness

namespace Ember

open Program

/-! ### Classes at hand -/

/-- A class is one of those declared anywhere, or stands within a part of a program. -/
def Among (named : List (Slot × ClassDecl)) (cs : List (Option Slot × ClassDecl)) (d : ClassDecl) :
    Prop :=
  d ∈ named.map Prod.snd ∨ d ∈ cs.map Prod.snd

section Among

variable {named : List (Slot × ClassDecl)} {cs ds : List (Option Slot × ClassDecl)} {d : ClassDecl}

/-- What is among some classes is among more. -/
lemma Among.mono (h : Among named cs d) (sub : cs ⊆ ds) : Among named ds d :=
  h.imp_right (List.map_subset _ sub ·)

/-- What is among the classes of a first part is among those of both. -/
lemma Among.left (h : Among named cs d) : Among named (cs ++ ds) d :=
  h.mono (List.subset_append_left _ _)

/-- What is among the classes of a second part is among those of both. -/
lemma Among.right (h : Among named ds d) : Among named (cs ++ ds) d :=
  h.mono (List.subset_append_right _ _)

/-- A class that is known by its slot is among any classes. -/
lemma among_of_lookup {s : Slot} (h : named.lookup s = some d) : Among named cs d :=
  .inl (List.mem_map.2 ⟨(s, d), mem_of_lookup h, rfl⟩)

end Among

namespace Program

variable {named : List (Slot × ClassDecl)} {d : ClassDecl}

mutual

/-- The classes that an expression mentions are at hand. -/
lemma Expr.mentioned_among : (e : Expr) → ∀ m ∈ e.mentions,
    Captures.mentioned? named m = some d → Among named e.classes d
  | .assign _ value _ => Expr.mentioned_among value
  | .call receiver _ none _ => fun m hm h => by
    rw [Expr.mentions, List.append_nil] at hm
    exact (Expr.mentioned_among receiver m hm h).left
  | .call receiver _ (some es) _ => fun m hm h =>
    (List.mem_append.1 hm).elim (fun hm => (Expr.mentioned_among receiver m hm h).left)
      fun hm => (exprMentioned_among es m hm h).right
  | .literal _ _ => fun _ hm => absurd hm List.not_mem_nil
  | .read s _ => fun m hm h => by
    cases List.mem_singleton.1 hm
    exact among_of_lookup h
  | .logical _ left right _ => fun m hm h =>
    (List.mem_append.1 hm).elim (fun hm => (Expr.mentioned_among left m hm h).left)
      fun hm => (Expr.mentioned_among right m hm h).right
  | .cls decl => fun m hm h => by
    cases List.mem_singleton.1 hm
    cases h
    exact .inr (List.mem_cons_self ..)

/-- A class that expressions mention is known or stands within them. -/
lemma exprMentioned_among : (es : List Expr) → ∀ m ∈ exprMentions es,
    Captures.mentioned? named m = some d → Among named (exprClasses es) d
  | [] => fun _ hm => absurd hm List.not_mem_nil
  | e :: es => fun m hm h =>
    (List.mem_append.1 hm).elim (fun hm => (Expr.mentioned_among e m hm h).left)
      fun hm => (exprMentioned_among es m hm h).right

end

/-- A class that is declared in a block comes with its slot. -/
lemma mem_declaredClasses {cs : List (Slot × ClassDecl)} {c : Slot × ClassDecl} (h : c ∈ cs) :
    (some c.1, c.2) ∈ declaredClasses cs := by
  induction cs with
  | nil => exact absurd h List.not_mem_nil
  | cons d cs ih =>
    cases h with
    | head => exact List.mem_cons_self ..
    | tail _ h => exact List.mem_append_right (_ :: d.2.classesWithin) (ih h)

mutual

/-- The classes that a statement mentions are at hand. -/
lemma Stmt.mentioned_among : (s : Stmt) → ∀ m ∈ s.mentions,
    Captures.mentioned? named m = some d → Among named s.classes d
  | .block body => Block.mentioned_among body
  | .branch condition yes none _ => fun m hm h => by
    rw [Stmt.mentions, List.append_nil] at hm
    rcases List.mem_append.1 hm with hm | hm
    · exact (condition.mentioned_among m hm h).left.left
    · exact (Stmt.mentioned_among yes m hm h).right.left
  | .branch condition yes (some no) _ => fun m hm h => by
    rcases List.mem_append.1 hm with hm | hm
    · rcases List.mem_append.1 hm with hm | hm
      · exact (condition.mentioned_among m hm h).left.left
      · exact (Stmt.mentioned_among yes m hm h).right.left
    · exact (Stmt.mentioned_among no m hm h).right
  | .loop condition body _ => fun m hm h =>
    (List.mem_append.1 hm).elim (fun hm => (condition.mentioned_among m hm h).left)
      fun hm => (Stmt.mentioned_among body m hm h).right
  | .var _ none _ => fun _ hm => absurd hm List.not_mem_nil
  | .var _ (some e) _ => e.mentioned_among
  | .ret none _ => fun _ hm => absurd hm List.not_mem_nil
  | .ret (some e) _ => e.mentioned_among
  | .eval e => e.mentioned_among

/-- A class that statements mention is known or stands within them. -/
lemma stmtMentioned_among : (ss : List Stmt) → ∀ m ∈ stmtMentions ss,
    Captures.mentioned? named m = some d → Among named (stmtClasses ss) d
  | [] => fun _ hm => absurd hm List.not_mem_nil
  | s :: ss => fun m hm h =>
    (List.mem_append.1 hm).elim (fun hm => (Stmt.mentioned_among s m hm h).left)
      fun hm => (stmtMentioned_among ss m hm h).right

/-- The classes that a block mentions are at hand. -/
lemma Block.mentioned_among : (b : Block) → ∀ m ∈ b.mentions,
    Captures.mentioned? named m = some d → Among named b.classesWithin d
  | ⟨statements, _, classes⟩ => fun m hm h => by
    rcases List.mem_append.1 hm with hm | hm
    · obtain ⟨c, hc, rfl⟩ := List.mem_map.1 hm
      cases h
      exact .inr (List.mem_map_of_mem (List.mem_append_left _ (mem_declaredClasses hc)))
    · exact (stmtMentioned_among statements m hm h).right

end

/-- The class values that come about in a body are those of classes at hand. -/
lemma Block.produced_among (b : Block) (h : d ∈ b.produced named) :
    Among named b.classesWithin d := by
  obtain ⟨m, hm, made⟩ := List.mem_filterMap.1 h
  refine b.mentioned_among m hm ?_
  cases m with
  | read s | made c => exact made
  | declares c => exact nomatch made

/-- A class that is among those within a body is among those within the methods. -/
lemma among_methodClasses {ms : List Method} {m : Method} (hm : m ∈ ms)
    (h : Among named m.body.classesWithin d) : Among named (methodClasses ms) d := by
  have inside : (m.body.part named).Inside (methodPart named ms) := inside_methods hm
  exact h.mono inside.classes

mutual

/-- The class values that come about in an expression are those of classes at hand. -/
lemma Expr.visits_among : (e : Expr) → d ∈ e.visits named → Among named e.classes d
  | .assign _ value _, h => Expr.visits_among value h
  | .call receiver _ none _, h => by
    rw [Expr.visits, List.append_nil] at h
    exact (Expr.visits_among receiver h).left
  | .call receiver _ (some es) _, h =>
    (List.mem_append.1 h).elim (fun h => (Expr.visits_among receiver h).left)
      fun h => (exprVisits_among es h).right
  | .literal _ _, h => absurd h List.not_mem_nil
  | .read _ _, h => among_of_lookup (Option.mem_toList.1 h)
  | .logical _ left right _, h =>
    (List.mem_append.1 h).elim (fun h => (Expr.visits_among left h).left)
      fun h => (Expr.visits_among right h).right
  | .cls decl, h => by
    rcases List.mem_append.1 h with h | h
    · exact (ClassDecl.visits_among decl h).mono (List.subset_cons_self _ _)
    · cases List.mem_singleton.1 h
      exact .inr (List.mem_cons_self ..)

/-- A class whose value comes about in expressions is known or stands within them. -/
lemma exprVisits_among : (es : List Expr) → d ∈ exprVisits named es → Among named (exprClasses es) d
  | [], h => absurd h List.not_mem_nil
  | e :: es, h =>
    (List.mem_append.1 h).elim (fun h => (Expr.visits_among e h).left)
      fun h => (exprVisits_among es h).right

/-- The class values that come about in a statement are those of classes at hand. -/
lemma Stmt.visits_among : (s : Stmt) → d ∈ s.visits named → Among named s.classes d
  | .block body, h => Block.visits_among body h
  | .branch condition yes none _, h => by
    rw [Stmt.visits, List.append_nil] at h
    rcases List.mem_append.1 h with h | h
    · exact (Expr.visits_among condition h).left.left
    · exact (Stmt.visits_among yes h).right.left
  | .branch condition yes (some no) _, h => by
    rcases List.mem_append.1 h with h | h
    · rcases List.mem_append.1 h with h | h
      · exact (Expr.visits_among condition h).left.left
      · exact (Stmt.visits_among yes h).right.left
    · exact (Stmt.visits_among no h).right
  | .loop condition body _, h =>
    (List.mem_append.1 h).elim (fun h => (Expr.visits_among condition h).left)
      fun h => (Stmt.visits_among body h).right
  | .var _ none _, h => absurd h List.not_mem_nil
  | .var _ (some e) _, h => Expr.visits_among e h
  | .ret none _, h => absurd h List.not_mem_nil
  | .ret (some e) _, h => Expr.visits_among e h
  | .eval e, h => Expr.visits_among e h

/-- A class whose value comes about in statements is known or stands within them. -/
lemma stmtVisits_among : (ss : List Stmt) → d ∈ stmtVisits named ss → Among named (stmtClasses ss) d
  | [], h => absurd h List.not_mem_nil
  | s :: ss, h =>
    (List.mem_append.1 h).elim (fun h => (Stmt.visits_among s h).left)
      fun h => (stmtVisits_among ss h).right

/-- The class values that come about in a block are those of classes at hand. -/
lemma Block.visits_among : (b : Block) → d ∈ b.visits named → Among named b.classesWithin d
  | ⟨statements, _, classes⟩, h =>
    (List.mem_append.1 h).elim (fun h => (classVisits_among classes h).left)
      fun h => (stmtVisits_among statements h).right

/-- A class whose value comes about in declared classes is known or stands within them. -/
lemma classVisits_among : (cs : List (Slot × ClassDecl)) → d ∈ classVisits named cs →
    Among named (declaredClasses cs) d
  | [], h => absurd h List.not_mem_nil
  | (s, c) :: cs, h => by
    rcases List.mem_append.1 h with h | h
    · exact ((ClassDecl.visits_among c h).mono (List.subset_cons_self _ _)).left
    · exact (classVisits_among cs h).right

/-- The class values that come about while a class is analysed are those of classes at
hand. -/
lemma ClassDecl.visits_among : (c : ClassDecl) → d ∈ c.visits named → Among named c.classesWithin d
  | ⟨_, _, _, _, constructors, staticMethods, methods, _, _⟩, h => by
    have first : Among named (methodClasses constructors) d → Among named (methodClasses
        constructors ++ methodClasses staticMethods ++ methodClasses methods) d := (·.left.left)
    have second : Among named (methodClasses methods) d → Among named (methodClasses
        constructors ++ methodClasses staticMethods ++ methodClasses methods) d := (·.right)
    rw [ClassDecl.visits, List.mem_append, List.mem_append, List.mem_append, List.mem_append] at h
    rcases h with (((h | h) | h) | h) | h
    · obtain ⟨m, hm, h⟩ := List.mem_flatMap.1 h
      exact second (among_methodClasses hm (m.body.produced_among h))
    · obtain ⟨m, hm, h⟩ := List.mem_flatMap.1 h
      exact first (among_methodClasses hm (m.body.produced_among h))
    · exact first (methodVisits_among constructors h)
    · exact second (methodVisits_among methods h)
    · exact (methodVisits_among staticMethods h).right.left

/-- A class whose value comes about in methods is known or stands within them. -/
lemma methodVisits_among : (ms : List Method) → d ∈ methodVisits named ms →
    Among named (methodClasses ms) d
  | [], h => absurd h List.not_mem_nil
  | ⟨_, _, _, body, _⟩ :: ms, h =>
    (List.mem_append.1 h).elim (fun h => (Block.visits_among body h).left)
      fun h => (methodVisits_among ms h).right

end

/-! ### Values on paths -/

section Makes

variable {c : ClassDecl} {line : Line}

mutual

/-- On a path through an expression no value comes about but those that an analysis of it
meets. -/
lemma Expr.without_makes : (e : Expr) → c ∉ e.visits named →
    (e.paths named).Without (.makes c line)
  | .assign _ value _, h =>
    (Expr.without_makes value h).andThen (Paths.without_one fun same => nomatch same)
  | .call receiver _ none _, h =>
    (Expr.without_makes receiver fun hc => h (List.mem_append_left _ hc)).andThen
      Paths.without_idle
  | .call receiver _ (some es) _, h =>
    (Expr.without_makes receiver fun hc => h (List.mem_append_left _ hc)).andThen
      (exprWithout_makes es fun hc => h (List.mem_append_right _ hc))
  | .literal _ _, _ => Paths.without_idle
  | .read s line', h => by
    have read : (Paths.one (.reads s line')).Without (.makes c line) :=
      Paths.without_one fun same => nomatch same
    rw [Expr.visits] at h
    rw [Expr.paths]
    refine read.andThen ?_
    cases known : named.lookup s with
    | none => exact Paths.without_idle
    | some d =>
      refine Paths.without_one fun same => ?_
      cases same
      exact h (Option.mem_toList.2 known)
  | .logical _ left right _, h =>
    (Expr.without_makes left fun hc => h (List.mem_append_left _ hc)).andThen
      ((Expr.without_makes right fun hc => h (List.mem_append_right _ hc)).either
        Paths.without_idle)
  | .cls decl, h => Paths.without_one fun same => by
    cases same
    exact h (List.mem_append_right _ (List.mem_singleton_self _))

/-- No path through expressions makes a class whose value does not come about in them. -/
lemma exprWithout_makes : (es : List Expr) → c ∉ exprVisits named es →
    (exprPaths named es).Without (.makes c line)
  | [], _ => Paths.without_idle
  | e :: es, h =>
    (Expr.without_makes e fun hc => h (List.mem_append_left _ hc)).andThen
      (exprWithout_makes es fun hc => h (List.mem_append_right _ hc))

end

mutual

/-- On a path through a statement no value comes about but those that an analysis of it
meets. -/
lemma Stmt.without_makes : (s : Stmt) → c ∉ s.visits named →
    (s.paths named).Without (.makes c line)
  | .block body, h => Block.without_makes body h
  | .branch condition yes none _, h => by
    rw [Stmt.visits, List.append_nil] at h
    exact (condition.without_makes fun hc => h (List.mem_append_left _ hc)).andThen
      ((Stmt.without_makes yes fun hc => h (List.mem_append_right _ hc)).either
        Paths.without_idle)
  | .branch condition yes (some no) _, h =>
    (condition.without_makes fun hc =>
      h (List.mem_append_left _ (List.mem_append_left _ hc))).andThen
      ((Stmt.without_makes yes fun hc =>
        h (List.mem_append_left _ (List.mem_append_right _ hc))).either
        (Stmt.without_makes no fun hc => h (List.mem_append_right _ hc)))
  | .loop condition body _, h =>
    (condition.without_makes fun hc => h (List.mem_append_left _ hc)).rounds
      (Stmt.without_makes body fun hc => h (List.mem_append_right _ hc))
  | .var _ none _, _ => Paths.without_one fun same => nomatch same
  | .var _ (some e) _, h =>
    (e.without_makes h).andThen (Paths.without_one fun same => nomatch same)
  | .ret none _, _ => Paths.without_leave
  | .ret (some e) _, h => (e.without_makes h).andThen Paths.without_leave
  | .eval e, h => e.without_makes h

/-- No path through statements makes a class whose value does not come about in them. -/
lemma stmtWithout_makes : (ss : List Stmt) → c ∉ stmtVisits named ss →
    (stmtPaths named ss).Without (.makes c line)
  | [], _ => Paths.without_idle
  | s :: ss, h =>
    (Stmt.without_makes s fun hc => h (List.mem_append_left _ hc)).andThen
      (stmtWithout_makes ss fun hc => h (List.mem_append_right _ hc))

/-- No path through a block makes a class whose value does not come about in it. -/
lemma Block.without_makes : (b : Block) → c ∉ b.visits named →
    (b.paths named).Without (.makes c line)
  | ⟨statements, _, _⟩, h => stmtWithout_makes statements fun hc => h (List.mem_append_right _ hc)

end

end Makes

/-! ### Whole programs -/

/-- All classes of a program, declared or made in place. -/
def Script.decls (s : Script) : List ClassDecl := s.classes.map Prod.snd

/-- What is among the classes of a program is declared in it. -/
lemma mem_decls_of_among {script : Script} {cs : List (Option Slot × ClassDecl)}
    (sub : cs ⊆ script.classes) (h : Among script.namedClasses cs d) : d ∈ script.decls := by
  rcases h with h | h
  · obtain ⟨⟨s, d⟩, hd, rfl⟩ := List.mem_map.1 h
    obtain ⟨⟨o, c⟩, hc, same⟩ := List.mem_filterMap.1 hd
    cases o with
    | none => exact nomatch same
    | some t =>
      cases same
      exact List.mem_map.2 ⟨_, hc, rfl⟩
  · exact List.map_subset _ sub h

/-- The class values that come about while a program is analysed are those of its
classes. -/
lemma visits_subset_decls (script : Script) :
    script.root.visits script.namedClasses ⊆ script.decls := fun _ h =>
  mem_decls_of_among (List.Subset.refl _) (script.root.visits_among h)

/-- The classes of a program are a family. -/
lemma family_of_script {script : Script} (once : script.slots.Nodup) :
    Captures.Family script.namedClasses script.decls := by
  refine ⟨fun c inside d inside' same => ?_, fun c inside d ⟨m, hm, mentioned⟩ => ?_⟩
  · obtain ⟨c, hc, rfl⟩ := List.mem_map.1 inside
    obtain ⟨d, hd, rfl⟩ := List.mem_map.1 inside'
    rw [eq_of_receiver_eq once hd hc same]
  · obtain ⟨c, hc, rfl⟩ := List.mem_map.1 inside
    obtain ⟨method, hmethod, hm⟩ := List.mem_flatMap.1 hm
    have body : (method.body.part []).Inside (c.2.part []) := inside_body hmethod
    have cls : (c.2.part []).Inside (script.root.part []) := script.root.houses c hc
    exact mem_decls_of_among (List.Subset.trans body.classes cls.classes)
      (method.body.mentioned_among m hm mentioned)

end Program

/-- What captures tell of a class: all that comes from ahead, nothing but what the class
captures, and so exactly that if no circle of different classes can be reached. -/
structure Captures.Tells (named : List (Slot × ClassDecl)) (K : Captures) (c : ClassDecl) :
    Prop where
  ahead : ∀ s, c.NeedsAhead named s → s ∈ K.of c
  sound : ∀ s ∈ K.of c, c.Needs named s
  straight : c.Straight named → ∀ s, s ∈ K.of c ↔ c.Needs named s

/-- Any order of visits tells of the classes visited. -/
lemma tells_inOrder {script : Script} (once : script.slots.Nodup) {fuel : ℕ}
    (room : script.classes.length < fuel) {order : List ClassDecl} (sub : order ⊆ script.decls)
    {c : ClassDecl} (hc : c ∈ order) :
    (Captures.inOrder script.namedClasses fuel order).Tells script.namedClasses c := by
  have room : script.decls.length < fuel := (List.length_map _).trans_lt room
  have found := Captures.of_inOrder (family_of_script once) room sub hc
  refine ⟨fun s => (found s).1, fun s => (found s).2, fun straight s => ⟨(found s).2, ?_⟩⟩
  exact fun needs => (found s).1 ((ClassDecl.needs_iff_of_straight straight).2 needs)

section Makes

variable {script : Script} {b : Block} {c : ClassDecl} {line : Line}

/-- The captures of a program tell of the classes whose values come about on its paths. -/
lemma tells_of_makes (once : script.slots.Nodup) (hb : b ∈ script.bodies) {tr : List PathStep}
    {r : PathEnd} (path : b.paths script.namedClasses tr r) (made : .makes c line ∈ tr) :
    (Captures.ofScript script).Tells script.namedClasses c := by
  have visited : c ∈ b.visits script.namedClasses := by
    by_contra other
    exact b.without_makes other tr r path made
  have inside : (b.part script.namedClasses).Inside (script.root.part script.namedClasses) :=
    inside_of_mem_bodies hb
  exact tells_inOrder once (Nat.lt_succ_self _) (visits_subset_decls script)
    (inside.visits visited)

/-- Where the value of a class comes about on a path, an unassigned variable of the body
that is among the captures of the class is reported. -/
lemma reported_of_makes (once : script.slots.Nodup)
    (closed : script.root.Closed true (script.globals.map Prod.fst)) (hb : b ∈ script.bodies)
    {before rest : List PathStep} {r : PathEnd}
    (path : b.paths script.namedClasses (before ++ .makes c line :: rest) r) {x : Slot}
    (hx : x ∈ b.locals) (unassigned : unassignedAfter x true before = true)
    (captured : x ∈ (Captures.ofScript script).of c) :
    (earlyReads script).count ⟨.variable, x, line⟩ = 1 := by
  have early : b.ReadsEarly script.namedClasses (Captures.ofScript script) x line :=
    ⟨_, r, path, before, .makes c line, rest, rfl, unassigned, captured, rfl⟩
  classical
  rw [count_earlyReads once closed hb hx line]
  exact if_pos early

end Makes

/-- Whatever class is visited first, the captures that are found of a class are some that
it has, and all of those that come from ahead of it. They are used wherever the value of
the class comes about on a path, and each variable of the body that is among them and
unassigned there is reported. -/
theorem captures_of_script (globals : List String) (program : List Syntax.Stmt) :
    let script := (resolve globals program).1
    let named := script.namedClasses
    let captures := Captures.ofScript script
    (∀ order ⊆ script.decls, ∀ fuel > script.classes.length, ∀ c ∈ order,
      (Captures.inOrder named fuel order).Tells named c) ∧
    (∀ b ∈ script.bodies, ∀ tr r, b.paths named tr r → ∀ c line, .makes c line ∈ tr →
      captures.Tells named c) ∧
    ((resolve globals program).2 = [] →
      ∀ b ∈ script.bodies, ∀ before c line rest r,
        b.paths named (before ++ .makes c line :: rest) r →
          ∀ x ∈ b.locals, unassignedAfter x true before = true → c.NeedsAhead named x →
            (earlyReads script).count ⟨.variable, x, line⟩ = 1) := by
  intro script named captures
  have once : script.slots.Nodup := resolve_nodup globals program
  refine ⟨fun order sub fuel room c hc => tells_inOrder once room sub hc,
    fun b hb tr r path c line made => tells_of_makes once hb path made, ?_⟩
  intro fine b hb before c line rest r path x hx unassigned ahead
  have tells := tells_of_makes once hb path (List.mem_append_right _ (List.mem_cons_self ..))
  exact reported_of_makes once (resolve_closed globals program fun _ => fine) hb path hx unassigned
    (tells.ahead x ahead)

/-- A class whose static method uses another class, which reads a variable. It is used
before the variable is assigned. -/
def borrowsOnce : List Syntax.Stmt :=
  [.eval (.call (.variable ⟨"B", 1⟩) ⟨"g", 1⟩ (some []) none),
    .var ⟨"x", 2⟩ (some (.literal (.boolean true) 2)),
    .cls ⟨"A", 3⟩ [⟨.onClass, ⟨"f", 3⟩, some [], [.ret (some (.variable ⟨"x", 3⟩)) 3]⟩],
    .cls ⟨"B", 4⟩
      [⟨.onClass, ⟨"g", 4⟩, some [],
        [.ret (some (.call (.variable ⟨"A", 4⟩) ⟨"f", 4⟩ (some []) none)) 4]⟩]]

/-- The class that reads the variable, once its names are resolved. -/
def lending : ClassDecl where
  name := "A"
  line := 3
  receiver := ⟨3⟩
  staticReceiver := ⟨4⟩
  constructors := []
  staticMethods := [⟨"f", some [], [], ⟨[.ret (some (.read ⟨2⟩ 3)) 3], [], []⟩, 3⟩]
  methods := []
  fields := []
  staticFields := []

/-- The class that uses it. -/
def borrowing : ClassDecl where
  name := "B"
  line := 4
  receiver := ⟨5⟩
  staticReceiver := ⟨6⟩
  constructors := []
  staticMethods :=
    [⟨"g", some [], [], ⟨[.ret (some (.call (.read ⟨0⟩ 4) "f" (some []) 4)) 4], [], []⟩, 4⟩]
  methods := []
  fields := []
  staticFields := []

/-- The one class leads to the other and not back. -/
lemma straight_borrowing :
    borrowing.Straight [(⟨0⟩, lending), (⟨1⟩, borrowing)] ∧
      borrowing.NeedsAhead [(⟨0⟩, lending), (⟨1⟩, borrowing)] ⟨2⟩ := by
  have last (d : ClassDecl) : ¬lending.Mentions [(⟨0⟩, lending), (⟨1⟩, borrowing)] d := by
    rintro ⟨m, hm, known⟩
    cases List.mem_singleton.1 (show m ∈ [.read ⟨2⟩] from hm)
    exact nomatch known
  have first {d : ClassDecl}
      (h : borrowing.Mentions [(⟨0⟩, lending), (⟨1⟩, borrowing)] d) : lending = d := by
    obtain ⟨m, hm, known⟩ := h
    cases List.mem_singleton.1 (show m ∈ [.read ⟨0⟩] from hm)
    exact Option.some.inj known
  have different : lending ≠ borrowing := fun same =>
    absurd (congrArg ClassDecl.name same) (by decide)
  have ahead : ¬ClassDecl.LeadsTo [(⟨0⟩, lending), (⟨1⟩, borrowing)] lending borrowing := by
    intro back
    rcases back.cases_head with same | ⟨d, mentions, -⟩
    · exact different same
    · exact last d mentions
  refine ⟨fun d e leads mentions back => ?_,
    .mention ⟨.read ⟨0⟩, List.mem_singleton_self _, rfl⟩ ahead
      (.read (List.mem_singleton_self _) (by decide)) (by decide)⟩
  rcases leads.cases_head with rfl | ⟨d', mentions', leads⟩
  · cases first mentions
    exact absurd back ahead
  · cases first mentions'
    rcases leads.cases_head with rfl | ⟨_, mentions', -⟩
    · exact absurd mentions (last e)
    · exact absurd mentions' (last _)

/-- The variable is captured through the other class, and is reported where the first one
is used. -/
theorem captures_of_script_borrowsOnce :
    let script := (resolve [] borrowsOnce).1
    let named := script.namedClasses
    (resolve [] borrowsOnce).2 = [] ∧ script.decls = [lending, borrowing] ∧
      borrowing.Straight named ∧
        (∀ s, s ∈ (Captures.ofScript script).of borrowing ↔ borrowing.Needs named s) ∧
          (∀ s, s ∈ (Captures.inOrder named 3 [lending, borrowing]).of borrowing ↔
            borrowing.Needs named s) ∧
              (earlyReads script).count ⟨.variable, ⟨2⟩, 1⟩ = 1 := by
  have fine : (resolve [] borrowsOnce).2 = [] := by cbv
  have decls : (resolve [] borrowsOnce).1.decls = [lending, borrowing] := by cbv
  have known : (resolve [] borrowsOnce).1.namedClasses =
      [(⟨0⟩, lending), (⟨1⟩, borrowing)] := by cbv
  have statements : (resolve [] borrowsOnce).1.root.statements =
      [.eval (.call (.read ⟨1⟩ 1) "g" (some []) 1),
        .var ⟨2⟩ (some (.literal (.boolean true) 2)) 2] := by cbv
  obtain ⟨anyOrder, ownOrder, reported⟩ := captures_of_script [] borrowsOnce
  obtain ⟨straight, ahead⟩ := straight_borrowing
  generalize resolve [] borrowsOnce = resolved at *
  intro script named
  have parts (b : Block) (named : List (Slot × ClassDecl)) :
      b.paths named = stmtPaths named b.statements ∧ b.locals = stmtLocals b.statements := by
    cases b
    exact ⟨rfl, rfl⟩
  have root : script.root ∈ script.bodies := List.mem_cons_self ..
  have own : ⟨2⟩ ∈ script.root.locals := by
    rw [(parts _ []).2, statements]
    exact List.mem_singleton_self _
  have path : script.root.paths [(⟨0⟩, lending), (⟨1⟩, borrowing)]
      ([.reads ⟨1⟩ 1] ++ .makes borrowing 1 :: [.assigns ⟨2⟩]) .through := by
    have read : (Expr.read ⟨1⟩ 1).paths [(⟨0⟩, lending), (⟨1⟩, borrowing)]
        [.reads ⟨1⟩ 1, .makes borrowing 1] .through :=
      .inl ⟨[.reads ⟨1⟩ 1], [.makes borrowing 1], ⟨rfl, rfl⟩, ⟨rfl, rfl⟩, rfl⟩
    rw [(parts _ _).1, statements]
    refine .inl ⟨[.reads ⟨1⟩ 1, .makes borrowing 1], [.assigns ⟨2⟩],
      .inl ⟨_, [], read, ⟨rfl, rfl⟩, rfl⟩, ?_, rfl⟩
    exact .inl ⟨[.assigns ⟨2⟩], [], .inl ⟨[], [.assigns ⟨2⟩], ⟨rfl, rfl⟩, ⟨rfl, rfl⟩, rfl⟩,
      ⟨rfl, rfl⟩, rfl⟩
  have few : script.classes.length < 3 := by
    have count : script.decls.length = 2 := congrArg List.length decls
    rw [Script.decls, List.length_map] at count
    omega
  have classes : [lending, borrowing] ⊆ script.decls := by
    rw [decls]
    exact List.Subset.refl _
  rw [← known] at straight ahead path
  refine ⟨fine, decls, straight, ?_, ?_, ?_⟩
  · exact (ownOrder _ root _ _ path borrowing 1 (by simp)).straight straight
  · exact (anyOrder _ classes 3 few borrowing (by simp)).straight straight
  · exact reported fine _ root _ borrowing 1 _ _ path ⟨2⟩ own rfl ahead

/-- The class that reads the variable, if it also uses the other one. -/
def lendingBack : ClassDecl :=
  { lending with
    staticMethods := lending.staticMethods ++
      [⟨"h", some [], [], ⟨[.ret (some (.call (.read ⟨1⟩ 5) "g" (some []) 5)) 5], [], []⟩, 5⟩] }

/-- Around a circle of classes it matters which one is visited first: what is found of a
class in the course of a visit of another one is kept. -/
example :
    let named := [(⟨0⟩, lendingBack), (⟨1⟩, borrowing)]
    borrowing.Needs named ⟨2⟩ ∧
      ⟨2⟩ ∈ (Captures.inOrder named 3 [borrowing, lendingBack]).of borrowing ∧
        ⟨2⟩ ∉ (Captures.inOrder named 3 [lendingBack, borrowing]).of borrowing := by
  refine ⟨.mention ⟨.read ⟨0⟩, List.mem_singleton_self _, rfl⟩ ?_ (by decide), ?_, ?_⟩
  · exact .read (List.mem_cons_self ..) (by decide)
  · decide +kernel
  · decide +kernel

end Ember
