/-
No guarded variable is used in a run before it is assigned.

* `Stretch.Watched`, `Task.Watched`: what is performed stands in trusted chains. While a
  variable is pending there, control has come to it before the variable is assigned, or it
  has nothing to do with the variable;
* `Site.Sound`: the frames mirror the scopes of the program and are guarded, with
  `Site.Sound.enter_body` and the others for what primitive steps do;
* `guarding`: the discipline that says so, `kept_guarding` that every run keeps it;
* `early_use_of_internal_failure`: the main theorem.
-/
import Mathlib
import Ember.Proofs.Run.Awaiting
import Ember.Proofs.Run.Failing

namespace Ember

open Program

variable {σ : Type} {α β : Type}

/-! ### What is watched -/

section Watching

variable (script : Script) (x : Slot)

/-- A stretch of code that stands in a trusted chain. While the variable is pending there,
control has come to the stretch before the variable is assigned, or the stretch has nothing
to do with the variable. A variable that the stretch declares is yet unassigned. -/
structure Stretch.Watched (w : Site σ) (chain : List Address) (p : Stretch) : Prop where
  classes : p.classes ⊆ script.classes
  trusted : w.Trusted script.namedClasses x chain
  pending : w.Pending x chain → p.Reached script x ∨ p.Shuns script.namedClasses x
  locals : x ∈ p.locals → p.Reached script x

/-- The code that a task performs is watched. The body of a method has nothing to do with a
variable that is pending around it. -/
def Task.Watched (w : Site σ) : {α : Type} → Task α → Prop
  | _, .call _ _ _ _ => True
  | _, .body m e _ =>
    m.body ∈ script.bodies ∧ w.Trusted script.namedClasses x e.chain ∧
      (w.Pending x e.chain → (m.body.stretch script.namedClasses).Shuns script.namedClasses x)
  | _, .block b e => (b.stretch script.namedClasses).Watched script x w e.chain
  | _, .stmts ss e => (stmtStretch script.namedClasses ss).Watched script x w e.chain
  | _, .stmt s e => (s.stretch script.namedClasses).Watched script x w e.chain
  | _, .loop condition inner e =>
    ((Stmt.loop condition inner 0).stretch script.namedClasses).Watched script x w e.chain
  | _, .test condition e => (condition.stretch script.namedClasses).Watched script x w e.chain
  | _, .eval expr e => (expr.stretch script.namedClasses).Watched script x w e.chain
  | _, .evalAll es e => (exprStretch script.namedClasses es).Watched script x w e.chain

/-- A task that stands where it is to be performed, is watched there, and is given harmless
values. -/
structure Task.Attended (w : Site σ) (t : Task α) : Prop where
  fits : t.Fits script.roles w.layers
  watched : t.Watched script x w
  given : ∀ v ∈ t.given, v.Harmless script x w

/-- Where control goes on after a statement there is a path through it, and the variable
that it declares is bound. -/
def Task.Passed (w : Site σ) : {α : Type} → Task α → α → Prop
  | _, .block b _, c => c = .normal → ∃ tr, b.paths script.namedClasses tr .through
  | _, .stmts ss _, c => c = .normal → ∃ tr, stmtPaths script.namedClasses ss tr .through
  | _, .stmt s e, c => c = .normal →
    (∃ tr, s.paths script.namedClasses tr .through) ∧
      ∀ y ∈ s.own, w.machine.heap.binds y e.own = true
  | _, .call _ _ _ _, _ | _, .body _ _ _, _ | _, .loop _ _ _, _ | _, .test _ _, _ | _, .eval _ _, _
  | _, .evalAll _ _, _ => True

/-- A task answers with values that fit and are harmless. -/
structure Task.Delivers (w : Site σ) (t : Task α) (a : α) : Prop where
  answers : t.Answers script.roles w.layers a
  harmless : ∀ v ∈ t.gives a, v.Harmless script x w
  passed : t.Passed script w a

/-- The frames mirror the scopes of the program, and their values are guarded. -/
structure Site.Sound (holds : σ → Value → Prop) (w : Site σ) : Prop where
  fits : w.machine.Fits script.roles holds w.layers []
  guarded : w.Guarded script x holds

/-- The discipline of a run in which no class that touches the variable is got hold of while
the variable is pending. The variable is not to blame for a failure. -/
def guarding (holds : σ → Value → Prop) : Discipline σ (Site σ) where
  Holds w m := w.machine = m ∧ w.Sound script x holds
  Allows := fun w _ t Q => t.Attended script x w ∧ Q = fun w' => t.Delivers script x w'
  Blames := fun _ _ _ err _ => err.cause ≠ .undefinedSlot x

end Watching

section Stretches

variable {script : Script} {x : Slot} {w w' : Site σ} {chain : List Address} {e : Environment}

open Stretch (Within)

namespace Stretch.Watched

variable {p q : Stretch}

/-- A stretch inside one that is watched is watched. -/
lemma within (watched : p.Watched script x w chain) (within : Within x q p) (h : w ≤ w') :
    q.Watched script x w' chain := by
  refine ⟨List.Subset.trans within.classes watched.classes, watched.trusted.mono h,
    fun pending => ?_, fun hx => (watched.locals (within.locals hx)).within within⟩
  have before := pending.of_le h fun _ ha => watched.trusted.lt ha
  exact (watched.pending before).imp (fun reached => reached.within within)
    fun shuns => shuns.mono within.mentions within.targets

/-- What is watched stays watched. -/
lemma mono (watched : p.Watched script x w chain) (h : w ≤ w') : p.Watched script x w' chain :=
  ⟨watched.classes, watched.trusted.mono h,
    fun pending => watched.pending (pending.of_le h fun _ ha => watched.trusted.lt ha),
    watched.locals⟩

/-- After the first of some statements the others are watched. -/
lemma rest {s : Stmt} {ss : List Stmt}
    (watched : (stmtStretch script.namedClasses (s :: ss)).Watched script x w e.chain)
    (h : w ≤ w') (fits : (Task.stmts (s :: ss) e).Fits script.roles w'.layers)
    {tr : List PathStep} (path : s.paths script.namedClasses tr .through)
    (bound : ∀ y ∈ s.own, w'.machine.heap.binds y e.own = true) :
    (stmtStretch script.namedClasses ss).Watched script x w' e.chain := by
  have inside : (stmtPart script.namedClasses ss).Inside
      (stmtPart script.namedClasses (s :: ss)) := (inside_stmts s ss).2
  refine ⟨List.Subset.trans inside.classes watched.classes, watched.trusted.mono h,
    fun pending => ?_, fun hx => ?_⟩
  · -- the first statement has bound its own variable, and what it declares within is not visible
    have fresh : x ∉ s.roles.map Prod.fst := fun mem => by
      rw [s.roles_eq, List.map_append, List.mem_append] at mem
      rcases mem with own | inner
      · obtain ⟨_, hr, rfl⟩ := List.mem_map.1 own
        obtain ⟨y, hy, rfl⟩ := List.mem_map.1 hr
        exact Bool.noConfusion ((bound y hy).symm.trans (pending.2 e.own (List.mem_cons_self ..)))
      · have room := fits.1.room x
        have visible := List.count_pos_iff.2 pending.1
        rw [stmtInnerRoles, List.flatMap_cons, List.map_append, List.count_append] at room
        have := List.count_pos_iff.2 inner
        omega
    have before := pending.of_le h fun _ ha => watched.trusted.lt ha
    exact (watched.pending before).imp (fun reached => reached.within (within_rest path fresh))
      fun shuns => shuns.mono (List.subset_append_right _ _) (List.subset_append_right _ _)
  · have reached := watched.locals (List.mem_append_right _ hx)
    obtain ⟨v, room⟩ := reached.room
    exact reached.within (within_rest path (room.apart (stmtVar_of_mem_locals ss hx)))

end Stretch.Watched

end Stretches

/-! ### Primitive steps -/

section Steps

variable {script : Script} {x : Slot} {holds : σ → Value → Prop} {host : Host σ} {w w' : Site σ}
  {a : Address} {s : Slot} {v : Value} {e : Environment}

namespace Site.Sound

/-- A value that fits and is harmless may be bound where its slot is visible. -/
lemma put (sound : w.Sound script x holds) (visible : s ∈ w.layers.slotsAt a)
    (fit : v.Fits script.roles w.layers) (harmless : v.Harmless script x w) :
    let m : Machine σ := { w.machine with heap := w.machine.heap.putAt a s v }
    w ≤ { w with machine := m } ∧ ({ w with machine := m } : Site σ).Sound script x holds := by
  intro m
  obtain ⟨grown, guarded⟩ := sound.guarded.put (a := a) (s := s) (.inl harmless)
  exact ⟨grown, (sound.fits.leave (List.nil_subset _)).put visible fit, guarded⟩

/-- A slot that is bound may be assigned. -/
lemma assign (sound : w.Sound script x holds) (near : w.machine.heap.nearest? e s = some a)
    (fit : v.Fits script.roles w.layers) (harmless : v.Harmless script x w) :
    let m : Machine σ := { w.machine with heap := w.machine.heap.putAt a s v }
    w ≤ { w with machine := m } ∧ ({ w with machine := m } : Site σ).Sound script x holds := by
  obtain ⟨u, got⟩ := Option.isSome_iff_exists.1 (Heap.nearest?_eq_some near).2
  exact sound.put (sound.fits.bound a s u got).1 fit harmless

/-- A body is entered with a frame that binds its parameters. -/
lemma enter_body (sound : w.Sound script x holds) {method : Method}
    {arguments : Option (List Value)}
    (fits : (Task.body method e arguments).Fits script.roles w.layers)
    (given : ∀ v ∈ arguments.getD [], v.Harmless script x w) :
    ∃ m₁ m₂, Run.child e w.machine = .done (e.inside w.layers.size) m₁ ∧
      Run.declareEach (e.inside w.layers.size) (method.params.getD []) (arguments.getD []) m₁ =
        .done () m₂ ∧
      w ≤ w.add [(.params method, e.chain)] m₂ ∧
        (w.add [(.params method, e.chain)] m₂).Sound script x holds := by
  obtain ⟨m₁, m₂, run₁, run₂, fits₂⟩ := fits.enter_body sound.fits
  obtain ⟨grown₁, guarded₁⟩ := sound.guarded.child e (.params method) e.chain
  obtain rfl := (Outcome.done.inj run₁).2
  obtain ⟨_, _, run, grown₂, guarded₂⟩ := guarded₁.declareEach (e.inside w.layers.size)
    (method.params.getD []) fun v hv => (given v hv).mono grown₁
  cases run.symm.trans run₂
  exact ⟨_, _, run₁, run₂, grown₁.trans grown₂, Site.layers_add w _ m₂ ▸ fits₂, guarded₂⟩

/-- A block is entered with a frame that binds its classes. -/
lemma enter_block (sound : w.Sound script x holds) (once : script.slots.Nodup) {b : Block}
    (classes : b.classesWithin ⊆ script.classes)
    (fits : (Task.block b e).Fits script.roles w.layers)
    (trusted : w.Trusted script.namedClasses x e.chain) :
    ∃ m₁ m₂, Run.child e w.machine = .done (e.inside w.layers.size) m₁ ∧
      makeClasses (e.inside w.layers.size) b.classes m₁ = .done () m₂ ∧
      let w' := (w.add [(.block b, e.chain)] m₁).add
        (b.classes.map fun c => (.statics c.2, (e.inside w.layers.size).chain)) m₂
      w ≤ w.add [(.block b, e.chain)] m₁ ∧ w.add [(.block b, e.chain)] m₁ ≤ w' ∧
        w'.layers = (w.layers.add [.block b]).add (b.classes.map fun c => .statics c.2) ∧
          w'.Sound script x holds := by
  obtain ⟨m₁, m₂, run₁, run₂, fits₂⟩ := fits.enter_block sound.fits
  obtain ⟨grown₁, guarded₁⟩ := sound.guarded.child e (.block b) e.chain
  obtain rfl := (Outcome.done.inj run₁).2
  have known : ∀ c ∈ b.classes,
      c.2 ∈ script.decls ∧ script.namedClasses.lookup c.1 = some c.2 := fun c hc => by
    have within : (some c.1, c.2) ∈ b.classesWithin := by
      obtain ⟨ss, names, cs⟩ := b
      exact List.mem_append_left _ (mem_declaredClasses hc)
    exact ⟨List.mem_map_of_mem (classes within), lookup_namedClasses once (classes within)⟩
  obtain ⟨_, _, run, grown₂, guarded₂⟩ := guarded₁.makeClasses (e := e.inside w.layers.size)
    known (trusted.inside grown₁.2 nofun)
  cases run.symm.trans run₂
  have layers (m m' : Machine σ) : ((w.add [(Layer.block b, e.chain)] m).add
      (b.classes.map fun c => (.statics c.2, (e.inside w.layers.size).chain)) m').layers =
        (w.layers.add [.block b]).add (b.classes.map fun c => .statics c.2) := by
    rw [Site.layers_add, Site.layers_add, List.map_map]
    rfl
  exact ⟨_, _, run₁, run₂, grown₁, grown₂, layers _ _, layers _ _ ▸ fits₂, guarded₂⟩

/-- A class is made in place. -/
lemma makeClass (sound : w.Sound script x holds) {decl : ClassDecl} (hc : decl ∈ script.decls)
    (fits : (Task.eval (.cls decl) e).Fits script.roles w.layers)
    (trusted : w.Trusted script.namedClasses x e.chain) :
    (makeClass decl e).Succeeds w.machine fun c m =>
      c = ⟨decl, e.inside w.layers.size⟩ ∧ w ≤ w.add [(.statics decl, e.chain)] m ∧
        (w.add [(.statics decl, e.chain)] m).Sound script x holds ∧
          c.Fits script.roles (w.add [(.statics decl, e.chain)] m).layers := by
  obtain ⟨c, m, run, object, fits'⟩ := fits_makeClass sound.fits fits
  obtain ⟨_, _, run', same, grown, guarded⟩ := sound.guarded.makeClass (e := e) hc trusted
  cases run'.symm.trans run
  have layers : (w.add [(.statics decl, e.chain)] m).layers = w.layers.add [.statics decl] :=
    w.layers_add _ m
  rw [← layers] at object fits'
  exact ⟨c, m, run, same, grown, ⟨fits', guarded⟩, object⟩

/-- An instance of a harmless class is made. -/
lemma makeInstance (sound : w.Sound script x holds) {c : ClassObject}
    (fits : c.Fits script.roles w.layers) (harmless : c.Harmless script x w) :
    (makeInstance c).Succeeds w.machine fun i m =>
      i = ⟨c, c.statics.inside w.layers.size⟩ ∧
        w ≤ w.add [(.fields c.decl, c.statics.chain)] m ∧
          (w.add [(.fields c.decl, c.statics.chain)] m).Sound script x holds ∧
            i.Fits script.roles (w.add [(.fields c.decl, c.statics.chain)] m).layers ∧
              (Value.obj i).Harmless script x (w.add [(.fields c.decl, c.statics.chain)] m) := by
  obtain ⟨i, m, run, -, object, fits'⟩ := fits_makeInstance sound.fits fits
  obtain ⟨_, _, run', rfl, grown, guarded, made⟩ := sound.guarded.makeInstance harmless
  cases run'.symm.trans run
  have layers : (w.add [(.fields c.decl, c.statics.chain)] m).layers =
      w.layers.add [.fields c.decl] := w.layers_add _ m
  rw [← layers] at object fits'
  exact ⟨_, m, run, rfl, grown, ⟨fits', guarded⟩, object, made⟩

/-- An honest host is asked for a value. -/
lemma ofHost (sound : w.Sound script x holds) (honest : host.Honest holds) {o : HostHandle}
    {method : Selector} {run : HostMethod σ} (found : host.findMethod? o method = some run)
    {arguments : List Value} (fit : ∀ v ∈ arguments, v.Fits script.roles w.layers)
    (given : ∀ v ∈ arguments, v.Harmless script x w) :
    let w' : Site σ :=
      { w with machine := { w.machine with host := (run arguments w.machine.host).2 } }
    w ≤ w' ∧ w'.Sound script x holds ∧
      ∀ v, (run arguments w.machine.host).1 = .ok v →
        v.Fits script.roles w'.layers ∧ v.Harmless script x w' := by
  intro w'
  obtain ⟨fits, answer⟩ := sound.fits.ofHost honest found fit
  obtain ⟨grown, guarded, harmless⟩ := Site.Guarded.ofHost honest found given sound.guarded
  exact ⟨grown, ⟨fits, guarded⟩, fun v ok => ⟨answer v ok, harmless v ok⟩⟩

end Site.Sound

/-! ### Parts of what is watched -/

section Parts

variable {method : Method} {arguments : Option (List Value)} {c : ClassObject} {i : Instance}
  {b : Block} {m : Machine σ}

/-- A visible variable that is not bound is pending. -/
lemma Site.pending_of_unbound (visible : x ∈ w.layers.visible e.chain)
    (unbound : w.machine.heap.get? e x = none) : w.Pending x e.chain := by
  refine ⟨visible, fun a ha => ?_⟩
  by_contra bound
  rw [Bool.not_eq_false] at bound
  have := Heap.get?_isSome.2 ⟨a, ha, bound⟩
  rw [unbound] at this
  exact Bool.noConfusion this

variable (guards : script.Guards x)
include guards

/-- The bodies of a harmless class have nothing to do with a variable that is pending along
the chain of the class. -/
lemma ClassObject.Harmless.shuns (harmless : c.Harmless script x w)
    (fits : c.Fits script.roles w.layers) (hm : method ∈ c.decl.allMethods)
    (pending : w.Pending x c.statics.chain) :
    (method.body.stretch script.namedClasses).Shuns script.namedClasses x := by
  obtain ⟨at_own, placed⟩ := fits
  have outer := pending.skip guards
    (List.Subset.trans (statics_roles_subset c.decl) placed.declared) nofun at_own
  have outside : x ∉ c.decl.slots := fun mem => by
    have room : (w.layers.visible c.statics.outer).count x + c.decl.slots.count x ≤ 1 :=
      placed.room x
    have := List.count_pos_iff.2 outer.1
    have := List.count_pos_iff.2 mem
    omega
  have trusted : w.Trusted script.namedClasses x (c.statics.own :: c.statics.outer) := harmless.2
  exact ClassDecl.shuns_body (trusted.2.1 c.decl at_own pending) outside hm

/-- The static methods of a harmless class are watched. -/
lemma ClassObject.Harmless.watched (harmless : c.Harmless script x w)
    (fits : c.Fits script.roles w.layers) (hm : method ∈ c.decl.allMethods)
    (arguments : Option (List Value)) :
    (Task.body method c.statics arguments).Watched script x w := by
  obtain ⟨d, hd, same⟩ := List.mem_map.1 harmless.1
  refine ⟨List.mem_cons_of_mem _ (mem_bodies.2 ⟨d, hd, method, same ▸ hm, rfl⟩), harmless.2,
    harmless.shuns guards fits hm⟩

/-- The methods of a harmless instance are watched. -/
lemma Instance.Fits.watched (fits : i.Fits script.roles w.layers)
    (harmless : (Value.obj i).Harmless script x w) (hm : method ∈ i.cls.decl.allMethods)
    (arguments : Option (List Value)) :
    (Task.body method i.env arguments).Watched script x w := by
  obtain ⟨cls, trusted⟩ := harmless
  refine ⟨(cls.watched guards fits.cls hm arguments).1, trusted, fun pending => ?_⟩
  have outer : w.Pending x i.env.outer := pending.skip guards
    (List.Subset.trans (fields_roles_subset i.cls.decl) fits.cls.2.declared) nofun fits.own
  rw [fits.outer] at outer
  exact cls.shuns guards fits.cls hm outer

/-- The body of a method is watched in the frame of its parameters. -/
lemma Task.Watched.inner (watched : (Task.body method e arguments).Watched script x w)
    (declared : method.roles ⊆ script.roles) (grown : w ≤ w.add [(.params method, e.chain)] m) :
    (Task.block method.body (e.inside w.layers.size)).Watched script x
      (w.add [(.params method, e.chain)] m) := by
  obtain ⟨hb, trusted, pending⟩ := watched
  have inside : (method.body.part []).Inside (script.root.part []) := inside_of_mem_bodies hb
  refine ⟨inside.classes, trusted.inside grown.2 nofun,
    fun later => .inr (pending ?_), guards.reached_body hb⟩
  have declared : (Layer.params method).roles ⊆ script.roles :=
    List.Subset.trans (List.subset_append_left _ _) declared
  have outer := later.skip guards declared nofun (w.at?_add_size _ e.chain m)
  exact outer.of_le grown fun _ ha => trusted.lt ha

/-- The statements of a block are watched in its frame. -/
lemma Task.Watched.statements (watched : (Task.block b e).Watched script x w)
    (declared : b.roles ⊆ script.roles) (grown : w ≤ w.add [(.block b, e.chain)] m)
    (later : w.add [(.block b, e.chain)] m ≤ w') :
    (Task.stmts b.statements (e.inside w.layers.size)).Watched script x w' := by
  have watched : (b.stretch script.namedClasses).Watched script x w e.chain := watched
  have declared : (Layer.block b).roles ⊆ script.roles :=
    List.Subset.trans (block_roles_subset b) declared
  have fresh : x ∉ b.classSlots := fun mem => by
    obtain ⟨c, hc, rfl⟩ := List.mem_map.1 mem
    have role : (c.1, SlotRole.cls) ∈ (Layer.block b).roles :=
      List.mem_append_right _ (List.mem_map_of_mem hc)
    exact nomatch guards.role_eq (declared role)
  have inside : Stretch.Within x (stmtStretch script.namedClasses b.statements)
    (b.stretch script.namedClasses) := within_statements fresh
  have at_own := w.at?_add_size (.block b) e.chain m
  have trusted := watched.trusted.inside grown.2 (l := .block b) nofun
  refine ⟨List.Subset.trans inside.classes watched.classes, trusted.mono later,
    fun pending => ?_, fun hx => (watched.locals (inside.locals hx)).within inside⟩
  have pending := pending.of_le later fun _ ha => trusted.lt ha
  -- a variable of the block is pending from here on; any other was so around it
  by_cases hx : x ∈ (Layer.block b).slots
  · obtain ⟨_, same, hv⟩ := guards.layer declared hx
    cases same
    obtain ⟨ss, names, cs⟩ := b
    exact .inl ((watched.locals (own_subset_stmtLocals ss hv)).within inside)
  · have outer := (pending.tail at_own hx).of_le grown fun _ ha => watched.trusted.lt ha
    exact (watched.pending outer).imp (fun reached => reached.within inside)
      fun shuns => shuns.mono inside.mentions inside.targets

end Parts

/-! ### Every run keeps the discipline -/

/-- A plan keeps the discipline from a machine on. -/
abbrev KeepsGuard (script : Script) (x : Slot) (holds : σ → Value → Prop) (p : Plan σ α)
    (w : Site σ) (m : Machine σ) (Q : Site σ → α → Prop) : Prop :=
  (guarding script x holds).Keeps (fun _ err _ => err.cause ≠ .undefinedSlot x) p w m Q

namespace KeepsGuard

variable {Q : Site σ → α → Prop} {Q' : Site σ → β → Prop}

/-- A task that is done answers as promised. -/
lemma done {a : α} (w' : Site σ) (grown : w ≤ w') (sound : w'.Sound script x holds)
    (answer : Q w' a) : KeepsGuard script x holds (pure a) w w'.machine Q :=
  Discipline.Keeps.pure grown ⟨rfl, sound⟩ answer

/-- A last step answers as promised. -/
lemma finish {y : Run σ α} {m : Machine σ} {a : α} (w' : Site σ)
    (run : y m = .done a w'.machine) (grown : w ≤ w') (sound : w'.Sound script x holds)
    (answer : Q w' a) : KeepsGuard script x holds (Plan.step y) w m Q :=
  Discipline.Keeps.finish run grown ⟨rfl, sound⟩ answer

/-- A task that starts another one goes on with what that delivers. -/
lemma start {t : Task α} {f : α → Plan σ β} (w' : Site σ) (grown : w ≤ w')
    (sound : w'.Sound script x holds) (attended : t.Attended script x w')
    (next : ∀ w'' a, w' ≤ w'' → w''.Sound script x holds → t.Delivers script x w'' a →
      KeepsGuard script x holds (f a) w'' w''.machine Q') :
    KeepsGuard script x holds (Plan.start t >>= f) w w'.machine Q' := by
  refine Discipline.Keeps.start _ grown ⟨rfl, sound⟩ ⟨attended, rfl⟩
    fun w'' m a later holding delivers => ?_
  obtain ⟨rfl, sound'⟩ := holding
  exact next w'' a later sound' delivers

/-- The last task of a plan delivers for it. -/
lemma last {t : Task α} (w' : Site σ) (grown : w ≤ w') (sound : w'.Sound script x holds)
    (attended : t.Attended script x w')
    (promise : ∀ w'' a, w' ≤ w'' → t.Delivers script x w'' a → Q w'' a) :
    KeepsGuard script x holds (Plan.start t) w w'.machine Q := by
  refine Discipline.Keeps.start (f := Plan.done) _ grown ⟨rfl, sound⟩ ⟨attended, rfl⟩
    fun w'' m a later holding delivers => ?_
  exact ⟨w'', le_refl w'', holding, promise w'' a later delivers⟩

end KeepsGuard

/-- A task keeps the discipline where it starts. -/
abbrev KeepsTask (script : Script) (x : Slot) (holds : σ → Value → Prop) (host : Host σ)
    (t : Task α) (w : Site σ) : Prop :=
  KeepsGuard script x holds (t.plan host) w w.machine fun w' => t.Delivers script x w'

section Tasks

variable (guards : script.Guards x) (honest : host.Honest holds) (words : host.FailsInWords)
  (sound : w.Sound script x holds)

include guards sound in
/-- A constructor or a static method of a harmless class is run. -/
lemma keeps_guarding_classCall {c : ClassObject} {name : String}
    {arguments : Option (List Value)} {line : Line} (fit : c.Fits script.roles w.layers)
    (fits : ∀ v ∈ arguments.getD [], v.Fits script.roles w.layers)
    (harmless : c.Harmless script x w)
    (given : ∀ v ∈ arguments.getD [], v.Harmless script x w) :
    KeepsTask script x holds host (.call (.cls c) name arguments line) w := by
  rw [KeepsTask, Task.plan]
  split
  · next method found =>
    obtain ⟨hm, length⟩ := findMethod?_spec found
    obtain ⟨_, m₁, run, rfl, grown, sound₁, object, made⟩ := sound.makeInstance fit harmless
    have own : method ∈ c.decl.allMethods :=
      List.mem_append_left _ (List.mem_append_left _ hm)
    refine .step run (KeepsGuard.start (w.add [(.fields c.decl, c.statics.chain)] m₁) grown sound₁
      ⟨⟨object.method (.inl hm), fun v hv => (fits v hv).mono (Site.layers_mono grown), length⟩,
        object.watched guards made own arguments, fun v hv => (given v hv).mono grown⟩
      fun w₂ v grown₂ sound₂ _ => KeepsGuard.done w₂ (le_refl w₂) sound₂
        ⟨?_, fun v hv => ?_, trivial⟩)
    · exact Value.Fits.mono (v := .obj _) (Site.layers_mono grown₂) object
    · rw [List.mem_singleton.1 hv]
      exact made.mono grown₂
  · split
    · next method found =>
      obtain ⟨hm, length⟩ := findMethod?_spec found
      have own : method ∈ c.decl.allMethods :=
        List.mem_append_left _ (List.mem_append_right _ hm)
      exact KeepsGuard.last w (le_refl w) sound
        ⟨⟨fit.static hm, fits, length⟩,
          harmless.watched guards fit own arguments, given⟩
        fun w' a _ delivers => ⟨delivers.answers, delivers.harmless, trivial⟩
    · exact .fail rfl fun same => (by cases same)

include honest words sound in
/-- A host fails in words of its own. -/
lemma keeps_guarding_hostCall {o : HostHandle} {name : String}
    {arguments : Option (List Value)} {line : Line}
    (fits : ∀ v ∈ arguments.getD [], v.Fits script.roles w.layers)
    (given : ∀ v ∈ arguments.getD [], v.Harmless script x w) :
    KeepsTask script x holds host (.call (.host o) name arguments line) w := by
  rw [KeepsTask, Task.plan]
  split
  · next method found =>
    obtain ⟨grown, sound₁, answer⟩ := sound.ofHost honest found fits given
    rcases Run.ofHost_cases line method (arguments.getD []) w.machine with
      ⟨v, ok, run⟩ | ⟨cause, error, run⟩
    · obtain ⟨fit, harmless⟩ := answer v ok
      exact KeepsGuard.finish _ run grown sound₁
        ⟨fit, List.forall_mem_singleton.2 harmless, trivial⟩
    · obtain ⟨message, rfl⟩ := words o _ method found _ w.machine.host cause error
      exact .fail run fun same => (by cases same)
  · exact .fail rfl fun same => (by cases same)

include guards honest words sound in
/-- A call runs a method of a harmless value with harmless arguments. -/
lemma keeps_guarding_call {receiver : Value} {name : String} {arguments : Option (List Value)}
    {line : Line} (attended : (Task.call receiver name arguments line).Attended script x w) :
    KeepsTask script x holds host (.call receiver name arguments line) w := by
  obtain ⟨fit, fits⟩ := attended.fits
  obtain ⟨harmless, given⟩ : receiver.Harmless script x w ∧
      ∀ v ∈ arguments.getD [], v.Harmless script x w := List.forall_mem_cons.1 attended.given
  cases receiver with
  | cls c => exact keeps_guarding_classCall guards sound fit fits harmless given
  | obj i =>
    have fit : i.Fits script.roles w.layers := fit
    rw [KeepsTask, Task.plan]
    split
    · next method found =>
      obtain ⟨hm, length⟩ := findMethod?_spec found
      have own : method ∈ i.cls.decl.allMethods := List.mem_append_right _ hm
      exact KeepsGuard.last w (le_refl w) sound
        ⟨⟨fit.method (.inr hm), fits, length⟩, fit.watched guards harmless own arguments, given⟩
        fun w' a _ delivers => ⟨delivers.answers, delivers.harmless, trivial⟩
    · exact .fail rfl fun same => (by cases same)
  | host o => exact keeps_guarding_hostCall honest words sound fits given
  | null | boolean _ | number _ | text _ =>
    simp only [KeepsTask, Task.plan]
    split
    · next method found =>
      rcases native_spec found (arguments.getD []) with ⟨v, run, plain⟩ | ⟨cause, run, outside⟩
      · rw [run]
        exact KeepsGuard.finish w rfl (le_refl w) sound
          ⟨plain.fits, List.forall_mem_singleton.2 (.of_isPlain plain), trivial⟩
      · rw [run]
        refine .fail rfl fun same => outside ?_
        rw [show cause = .undefinedSlot x from same]
        trivial
    · exact .fail rfl fun same => (by cases same)

include guards sound in
/-- A body runs in a frame of its own, with its parameters bound. -/
lemma keeps_guarding_body {method : Method} {arguments : Option (List Value)}
    (attended : (Task.body method e arguments).Attended script x w) :
    KeepsTask script x holds host (.body method e arguments) w := by
  obtain ⟨fits, watched, given⟩ := attended
  obtain ⟨m₁, m₂, run₁, run₂, grown, sound₂⟩ := sound.enter_body fits given
  have inner := fits.inner
  have layers : (w.add [(.params method, e.chain)] m₂).layers = w.layers.add [.params method] :=
    w.layers_add _ m₂
  rw [← layers] at inner
  refine .step run₁ (.step run₂ (KeepsGuard.start (w.add [(.params method, e.chain)] m₂) grown
    sound₂ ⟨inner, watched.inner guards fits.1.declared grown, List.forall_mem_nil _⟩
    fun w₃ c _ sound₃ delivers => ?_))
  cases c with
  | normal =>
    exact KeepsGuard.done w₃ (le_refl w₃) sound₃
      ⟨trivial, List.forall_mem_singleton.2 trivial, trivial⟩
  | returned v line =>
    exact KeepsGuard.done w₃ (le_refl w₃) sound₃ ⟨delivers.answers, delivers.harmless, trivial⟩

include guards sound in
/-- A block is executed in a frame of its own, with its classes bound. -/
lemma keeps_guarding_block {b : Block} (attended : (Task.block b e).Attended script x w) :
    KeepsTask script x holds host (.block b e) w := by
  obtain ⟨fits, watched, -⟩ := attended
  obtain ⟨m₁, m₂, run₁, run₂, grown₁, grown₂, layers, sound₂⟩ :=
    sound.enter_block guards.once watched.classes fits watched.trusted
  have placed : w.layers.Placed script.roles e.chain (b.Closed false) b.roles := fits
  have statements := fits.statements (b.classes.map fun c => .statics c.2)
  rw [← layers] at statements
  refine .step run₁ (.step run₂ (KeepsGuard.last _ (grown₁.trans grown₂) sound₂
    ⟨statements, Task.Watched.statements guards watched placed.declared grown₁ grown₂,
      List.forall_mem_nil _⟩
    fun w₃ c _ delivers => ⟨delivers.answers, delivers.harmless, ?_⟩))
  obtain ⟨ss, names, cs⟩ := b
  exact delivers.passed

include sound in
/-- Statements are executed one after the other, while the variable may be unassigned. -/
lemma keeps_guarding_stmts {ss : List Stmt} (attended : (Task.stmts ss e).Attended script x w) :
    KeepsTask script x holds host (.stmts ss e) w := by
  obtain ⟨fits, watched, -⟩ := attended
  cases ss with
  | nil =>
    exact KeepsGuard.done w (le_refl w) sound
      ⟨trivial, List.forall_mem_nil _, fun _ => ⟨[], rfl, rfl⟩⟩
  | cons s ss =>
    have watched : (stmtStretch script.namedClasses (s :: ss)).Watched script x w e.chain := watched
    refine KeepsGuard.start w (le_refl w) sound
      ⟨fits.first, watched.within (within_first s ss) (le_refl w), List.forall_mem_nil _⟩
      fun w₁ c grown sound₁ delivers => ?_
    cases c with
    | returned v line =>
      exact KeepsGuard.done w₁ (le_refl w₁) sound₁
        ⟨delivers.answers, delivers.harmless, nofun⟩
    | normal =>
      obtain ⟨⟨tr, path⟩, bound⟩ := delivers.passed rfl
      have fits := fits.mono (Site.layers_mono grown)
      refine KeepsGuard.last w₁ (le_refl w₁) sound₁
        ⟨fits.rest, watched.rest grown fits path bound, List.forall_mem_nil _⟩
        fun w₂ c _ delivers => ⟨delivers.answers, delivers.harmless, fun normal => ?_⟩
      exact Paths.exists_andThen ⟨tr, path⟩ (delivers.passed normal)

include sound in
/-- A path through the branch that is taken goes on through the conditional. -/
lemma keeps_guarding_branch {condition : Expr} {yes : Stmt} {no : Option Stmt} {line : Line}
    (fits : (Task.stmt (.branch condition yes no line) e).Fits script.roles w.layers)
    (watched : ((Stmt.branch condition yes no line).stretch script.namedClasses).Watched script x w
      e.chain) : KeepsTask script x holds host (.stmt (.branch condition yes no line) e) w := by
  obtain ⟨condition', branches⟩ := fits.branch
  obtain ⟨first, parts⟩ := within_branch script.namedClasses x condition yes no line
  refine KeepsGuard.start w (le_refl w) sound
    ⟨condition', watched.within first (le_refl w), List.forall_mem_nil _⟩
    fun w₁ c grown sound₁ _ => ?_
  have taken {t : Stmt} (ht : t = yes ∨ no = some t) :
      KeepsGuard script x holds (Plan.start (.stmt t e)) w₁ w₁.machine fun w' =>
        (Task.stmt (.branch condition yes no line) e).Delivers script x w' := by
    exact KeepsGuard.last w₁ (le_refl w₁) sound₁
      ⟨(branches t ht).mono (Site.layers_mono grown), watched.within (parts t ht) grown,
        List.forall_mem_nil _⟩
      fun w₂ c _ delivers => ⟨delivers.answers, delivers.harmless, fun normal =>
        ⟨Stmt.exists_through_branch _ ht (delivers.passed normal).1, List.forall_mem_nil _⟩⟩
  cases c with
  | true => exact taken (.inl rfl)
  | false =>
    cases no with
    | none =>
      have through := Paths.exists_andThen (condition.exists_path script.namedClasses)
        (Q := (yes.paths script.namedClasses).either .idle) ⟨[], .inr ⟨rfl, rfl⟩⟩
      exact KeepsGuard.done w₁ (le_refl w₁) sound₁
        ⟨trivial, List.forall_mem_nil _, fun _ => ⟨through, List.forall_mem_nil _⟩⟩
    | some no => exact taken (.inr rfl)

include sound in
/-- The statement of a variable binds it. -/
lemma keeps_guarding_var {slot : Slot} {init : Option Expr} {line : Line}
    (fits : (Task.stmt (.var slot init line) e).Fits script.roles w.layers)
    (watched : ((Stmt.var slot init line).stretch script.namedClasses).Watched script x w
      e.chain) : KeepsTask script x holds host (.stmt (.var slot init line) e) w := by
  have known := fits.1.known e.own (List.mem_cons_self ..)
  have declared {v : Value} {w₁ : Site σ} (grown : w ≤ w₁) (sound₁ : w₁.Sound script x holds)
      (fit : v.Fits script.roles w₁.layers) (harmless : v.Harmless script x w₁) :
      KeepsGuard script x holds (do
          Plan.step (Run.declare e slot v)
          return Completion.normal) w₁ w₁.machine fun w' =>
        (Task.stmt (.var slot init line) e).Delivers script x w' := by
    have visible := Layers.slotsAt_subset_mono (Site.layers_mono grown) known fits.2
      (List.mem_singleton_self slot)
    obtain ⟨grown₂, sound₂⟩ := sound₁.put visible fit harmless
    have lt : e.own < w₁.machine.heap.frames.size :=
      sound₁.guarded.size ▸ Nat.lt_of_lt_of_le known (Site.layers_mono grown).length_le
    exact .step rfl (KeepsGuard.done _ grown₂ sound₂
      ⟨trivial, List.forall_mem_nil _, fun _ => ⟨Stmt.exists_through_var _ slot init line,
        fun y hy => List.mem_singleton.1 hy ▸ Heap.binds_putAt_self lt slot v⟩⟩)
  cases init with
  | none => exact declared (v := .null) (le_refl w) sound trivial trivial
  | some init =>
    exact KeepsGuard.start w (le_refl w) sound
      ⟨fits.init, watched.within (within_var slot init line) (le_refl w), List.forall_mem_nil _⟩
      fun w₁ v grown sound₁ delivers => declared grown sound₁ delivers.answers
        (delivers.harmless v (List.mem_singleton_self v))

include sound in
/-- A statement touches the variable only once it is bound. -/
lemma keeps_guarding_stmt {s : Stmt} (attended : (Task.stmt s e).Attended script x w) :
    KeepsTask script x holds host (.stmt s e) w := by
  obtain ⟨fits, watched, -⟩ := attended
  have watched : (s.stretch script.namedClasses).Watched script x w e.chain := watched
  cases s with
  | block b =>
    exact KeepsGuard.last w (le_refl w) sound
      ⟨fits.1, watched.within (within_inner b) (le_refl w), List.forall_mem_nil _⟩
      fun w₁ c _ delivers => ⟨delivers.answers, delivers.harmless, fun normal =>
        ⟨delivers.passed normal, List.forall_mem_nil _⟩⟩
  | branch condition yes no line => exact keeps_guarding_branch sound fits watched
  | loop condition body line =>
    refine KeepsGuard.last w (le_refl w) sound ⟨fits.rounds, watched, List.forall_mem_nil _⟩
      fun w₁ c _ delivers => ⟨delivers.answers, delivers.harmless, fun _ =>
        ⟨?_, List.forall_mem_nil _⟩⟩
    obtain ⟨tr, path⟩ := condition.exists_path script.namedClasses
    exact ⟨tr, .done path⟩
  | var slot init line => exact keeps_guarding_var sound fits watched
  | ret value line =>
    cases value with
    | none =>
      exact KeepsGuard.done w (le_refl w) sound
        ⟨trivial, List.forall_mem_singleton.2 trivial, nofun⟩
    | some value =>
      exact KeepsGuard.start w (le_refl w) sound
        ⟨fits.1, watched.within (within_ret value line) (le_refl w), List.forall_mem_nil _⟩
        fun w₁ v _ sound₁ delivers => KeepsGuard.done w₁ (le_refl w₁) sound₁
          ⟨delivers.answers, delivers.harmless, nofun⟩
  | eval expr =>
    exact KeepsGuard.start w (le_refl w) sound
      ⟨fits.1, watched.within (within_eval expr) (le_refl w), List.forall_mem_nil _⟩
      fun w₁ v _ sound₁ _ => KeepsGuard.done w₁ (le_refl w₁) sound₁
        ⟨trivial, List.forall_mem_nil _, fun _ =>
          ⟨expr.exists_path script.namedClasses, List.forall_mem_nil _⟩⟩

include sound in
/-- A loop goes on for as long as its condition holds. -/
lemma keeps_guarding_loop {condition : Expr} {inner : Stmt}
    (attended : (Task.loop condition inner e).Attended script x w) :
    KeepsTask script x holds host (.loop condition inner e) w := by
  obtain ⟨fits, watched, -⟩ := attended
  obtain ⟨condition', inner'⟩ := fits.round
  obtain ⟨first, second⟩ := within_loop script.namedClasses x condition inner 0
  have watched : ((Stmt.loop condition inner 0).stretch script.namedClasses).Watched script x w
    e.chain := watched
  refine KeepsGuard.start w (le_refl w) sound
    ⟨condition', watched.within first (le_refl w), List.forall_mem_nil _⟩
    fun w₁ c grown sound₁ _ => ?_
  cases c with
  | false =>
    exact KeepsGuard.done w₁ (le_refl w₁) sound₁ ⟨trivial, List.forall_mem_nil _, trivial⟩
  | true =>
    refine KeepsGuard.start w₁ (le_refl w₁) sound₁
      ⟨inner'.mono (Site.layers_mono grown), watched.within second grown, List.forall_mem_nil _⟩
      fun w₂ c grown₂ sound₂ delivers => ?_
    cases c with
    | normal =>
      have grown := grown.trans grown₂
      exact KeepsGuard.last w₂ (le_refl w₂) sound₂
        ⟨fits.mono (Site.layers_mono grown), watched.mono grown, List.forall_mem_nil _⟩
        fun w₃ c _ delivers => delivers
    | returned v line =>
      exact KeepsGuard.done w₂ (le_refl w₂) sound₂
        ⟨delivers.answers, delivers.harmless, trivial⟩

include sound in
/-- A condition is evaluated and tested. -/
lemma keeps_guarding_test {condition : Expr}
    (attended : (Task.test condition e).Attended script x w) :
    KeepsTask script x holds host (.test condition e) w := by
  refine KeepsGuard.start w (le_refl w) sound
    ⟨attended.fits, attended.watched, List.forall_mem_nil _⟩ fun w₁ v _ sound₁ _ => ?_
  cases v with
  | boolean b =>
    exact KeepsGuard.done w₁ (le_refl w₁) sound₁ ⟨trivial, List.forall_mem_nil _, trivial⟩
  | null | number _ | text _ | cls _ | obj _ | host _ => exact .fail rfl fun same => (by cases same)

include sound in
/-- Where an assignment fails, the variable would be pending. -/
lemma keeps_guarding_assign {target : Slot} {value : Expr} {line : Line}
    (fits : (Task.eval (.assign target value line) e).Fits script.roles w.layers)
    (watched : ((Expr.assign target value line).stretch script.namedClasses).Watched script x w
      e.chain) : KeepsTask script x holds host (.eval (.assign target value line) e) w := by
  refine KeepsGuard.start w (le_refl w) sound
    ⟨fits.assign, watched.within (within_assign target value line) (le_refl w),
      List.forall_mem_nil _⟩ fun w₁ v grown sound₁ delivers => ?_
  have harmless := delivers.harmless v (List.mem_singleton_self v)
  rcases Run.assign_cases e target v line w₁.machine with ⟨a, near, run⟩ | ⟨unbound, run⟩
  · obtain ⟨grown₂, sound₂⟩ := sound₁.assign near delivers.answers harmless
    exact .step run (KeepsGuard.done _ grown₂ sound₂
      ⟨delivers.answers, List.forall_mem_singleton.2 (harmless.mono grown₂), trivial⟩)
  · refine .failFirst run fun same => ?_
    cases same
    have visible : x ∈ w₁.layers.visible e.chain :=
      (Layers.Placed.mono (Site.layers_mono grown) fits).closed.1
    -- what is assigned is visible and unbound, so the variable would be pending here
    rcases (watched.mono grown).pending (Site.pending_of_unbound visible unbound) with
      reached | shuns
    · exact reached.not_assign
    · exact shuns.assigns (List.mem_cons_self ..)

include guards sound in
/-- A class that is read comes about here, and a read that fails is not one of a pending
variable. -/
lemma keeps_guarding_read {line : Line}
    (fits : (Task.eval (.read s line) e).Fits script.roles w.layers)
    (watched : ((Expr.read s line).stretch script.namedClasses).Watched script x w e.chain) :
    KeepsTask script x holds host (.eval (.read s line) e) w := by
  have visible : s ∈ w.layers.visible e.chain := Layers.Placed.closed fits
  rcases Run.get_cases e s line w.machine with ⟨v, got, run⟩ | ⟨unbound, run⟩
  · have harmless : v.Harmless script x w :=
      sound.guarded.get guards sound.fits fits watched.trusted (fun c known pending => by
        rcases watched.pending pending with reached | shuns
        · exact reached.free_read guards known
        · exact shuns.classes _ (List.mem_singleton_self _) c known) got
    exact KeepsGuard.finish w run (le_refl w) sound
      ⟨sound.fits.get got, List.forall_mem_singleton.2 harmless, trivial⟩
  · refine .fail run fun same => ?_
    cases same
    rcases watched.pending (Site.pending_of_unbound visible unbound) with reached | shuns
    · exact reached.not_read
    · exact shuns.reads (List.mem_singleton_self _)

include guards sound in
/-- A class that is made in place comes about here. -/
lemma keeps_guarding_cls {decl : ClassDecl}
    (fits : (Task.eval (.cls decl) e).Fits script.roles w.layers)
    (watched : ((Expr.cls decl).stretch script.namedClasses).Watched script x w e.chain) :
    KeepsTask script x holds host (.eval (.cls decl) e) w := by
  have hc : decl ∈ script.decls :=
    List.mem_map.2 ⟨(none, decl), watched.classes (List.mem_cons_self ..), rfl⟩
  obtain ⟨_, m, run, rfl, grown, sound₁, object⟩ := sound.makeClass hc fits watched.trusted
  have declared : (Layer.statics decl).roles ⊆ script.roles :=
    List.Subset.trans (statics_roles_subset decl) (Layers.Placed.declared fits)
  have made := harmless_of_made guards hc declared watched.trusted (fun pending => by
    rcases watched.pending pending with reached | shuns
    · exact reached.free_cls guards
    · exact shuns.classes _ (List.mem_singleton_self _) decl rfl) grown
  exact .step run (KeepsGuard.done _ grown sound₁
    ⟨object, List.forall_mem_singleton.2 made, trivial⟩)

include guards sound in
/-- An expression touches the variable only once it is bound. -/
lemma keeps_guarding_eval {expr : Expr} (attended : (Task.eval expr e).Attended script x w) :
    KeepsTask script x holds host (.eval expr e) w := by
  obtain ⟨fits, watched, -⟩ := attended
  have watched : (expr.stretch script.namedClasses).Watched script x w e.chain := watched
  cases expr with
  | assign target value line => exact keeps_guarding_assign sound fits watched
  | call receiver name arguments line =>
    refine KeepsGuard.start w (le_refl w) sound
      ⟨fits.receiver, watched.within (within_receiver receiver name arguments line) (le_refl w),
        List.forall_mem_nil _⟩ fun w₁ v grown sound₁ delivers => ?_
    -- the value of the receiver stays harmless while the arguments are evaluated
    have harmless := delivers.harmless v (List.mem_singleton_self v)
    cases arguments with
    | none =>
      exact KeepsGuard.last w₁ (le_refl w₁) sound₁
        ⟨⟨delivers.answers, List.forall_mem_nil _⟩, trivial,
          List.forall_mem_singleton.2 harmless⟩
        fun w₂ u _ delivers => ⟨delivers.answers, delivers.harmless, trivial⟩
    | some es =>
      refine KeepsGuard.start w₁ (le_refl w₁) sound₁
        ⟨fits.arguments.mono (Site.layers_mono grown),
          watched.within (within_arguments receiver name es line) grown, List.forall_mem_nil _⟩
        fun w₂ vs grown₂ sound₂ delivers₂ => ?_
      exact KeepsGuard.last w₂ (le_refl w₂) sound₂
        ⟨⟨Value.Fits.mono (Site.layers_mono grown₂) delivers.answers, delivers₂.answers⟩, trivial,
          List.forall_mem_cons.2 ⟨harmless.mono grown₂, delivers₂.harmless⟩⟩
        fun w₃ u _ delivers => ⟨delivers.answers, delivers.harmless, trivial⟩
  | literal value line =>
    have plain : (Value.ofLiteral value).IsPlain := by cases value <;> trivial
    exact KeepsGuard.done w (le_refl w) sound
      ⟨plain.fits, List.forall_mem_singleton.2 (.of_isPlain plain), trivial⟩
  | read s line => exact keeps_guarding_read guards sound fits watched
  | logical op left right line =>
    obtain ⟨left', right'⟩ := fits.logical
    refine KeepsGuard.start w (le_refl w) sound
      ⟨left', watched.within (within_left op left right line) (le_refl w), List.forall_mem_nil _⟩
      fun w₁ v grown sound₁ _ => ?_
    cases v with
    | boolean b =>
      dsimp only
      split
      · exact KeepsGuard.done w₁ (le_refl w₁) sound₁
          ⟨trivial, List.forall_mem_singleton.2 trivial, trivial⟩
      · refine KeepsGuard.start w₁ (le_refl w₁) sound₁
          ⟨right'.mono (Site.layers_mono grown),
            watched.within (within_right op left right line) grown, List.forall_mem_nil _⟩
          fun w₂ v _ sound₂ _ => ?_
        cases v with
        | boolean b =>
          exact KeepsGuard.done w₂ (le_refl w₂) sound₂
            ⟨trivial, List.forall_mem_singleton.2 trivial, trivial⟩
        | null | number _ | text _ | cls _ | obj _ | host _ =>
          exact .fail rfl fun same => (by cases same)
    | null | number _ | text _ | cls _ | obj _ | host _ =>
      exact .fail rfl fun same => (by cases same)
  | cls decl => exact keeps_guarding_cls guards sound fits watched

include sound in
/-- Expressions are evaluated one after the other. -/
lemma keeps_guarding_evalAll {es : List Expr}
    (attended : (Task.evalAll es e).Attended script x w) :
    KeepsTask script x holds host (.evalAll es e) w := by
  obtain ⟨fits, watched, -⟩ := attended
  have watched : (exprStretch script.namedClasses es).Watched script x w e.chain := watched
  cases es with
  | nil =>
    exact KeepsGuard.done w (le_refl w) sound
      ⟨List.forall_mem_nil _, List.forall_mem_nil _, trivial⟩
  | cons expr rest =>
    obtain ⟨expr', rest'⟩ := fits.cons
    refine KeepsGuard.start w (le_refl w) sound
      ⟨expr', watched.within (within_head expr rest) (le_refl w), List.forall_mem_nil _⟩
      fun w₁ v grown sound₁ delivers => ?_
    have harmless := delivers.harmless v (List.mem_singleton_self v)
    refine KeepsGuard.start w₁ (le_refl w₁) sound₁
      ⟨rest'.mono (Site.layers_mono grown), watched.within (within_tail expr rest) grown,
        List.forall_mem_nil _⟩ fun w₂ vs grown₂ sound₂ delivers₂ => ?_
    exact KeepsGuard.done w₂ (le_refl w₂) sound₂
      ⟨List.forall_mem_cons.2
          ⟨Value.Fits.mono (Site.layers_mono grown₂) delivers.answers, delivers₂.answers⟩,
        List.forall_mem_cons.2 ⟨harmless.mono grown₂, delivers₂.harmless⟩, trivial⟩

end Tasks

/-- Every run keeps the discipline of a guarded variable. -/
theorem kept_guarding (guards : script.Guards x) (honest : host.Honest holds)
    (words : host.FailsInWords) (root : Activity σ) :
    (guarding script x holds).Kept host root := by
  intro α fuel t w Q m _ allowed holding
  obtain ⟨attended, rfl⟩ := allowed
  obtain ⟨rfl, sound⟩ := holding
  cases t with
  | call receiver name arguments line =>
    exact keeps_guarding_call guards honest words sound attended
  | body method e arguments => exact keeps_guarding_body guards sound attended
  | block b e => exact keeps_guarding_block guards sound attended
  | stmts ss e => exact keeps_guarding_stmts sound attended
  | stmt s e => exact keeps_guarding_stmt sound attended
  | loop condition inner e => exact keeps_guarding_loop sound attended
  | test condition e => exact keeps_guarding_test sound attended
  | eval expr e => exact keeps_guarding_eval guards sound attended
  | evalAll es e => exact keeps_guarding_evalAll sound attended

end Steps

/-! ### Whole programs -/

section Whole

variable {holds : σ → Value → Prop} {host : Host σ} {script : Script} {x : Slot}

/-- Before a program runs, only plain values are bound. -/
lemma sound_of_globals {m : Machine σ}
    (fits : m.Fits script.roles holds ⟨[.globals script.globals]⟩ []) :
    (⟨[(.globals script.globals, [])], m⟩ : Site σ).Sound script x holds :=
  ⟨fits, fits.size, fun a s v got => .inl (.of_isPlain (fits.bound a s v got).2.isPlain),
    fun v hv => .of_isPlain (fits.host v hv).isPlain⟩

/-- A program does not fail for a variable that is guarded. -/
lemma Program.Script.Guards.not_undefinedSlot {globals : List String}
    {program : List Syntax.Stmt} (guards : (resolve globals program).1.Guards x)
    (honest : host.Honest holds) (words : host.FailsInWords) {st : σ}
    (initially : ∀ v, holds st v → v.IsPlain) {fuel : Nat} {err : RuntimeError} {m' : Machine σ}
    (failed : interpret host fuel (resolve globals program).1 ⟨.empty, st⟩ = .failed err m') :
    err.cause ≠ .undefinedSlot x := by
  let script := (resolve globals program).1
  obtain ⟨_, m₀, entered, rfl, fits⟩ := fits_entered honest initially script
  let w₀ : Site σ := ⟨[(.globals script.globals, [])], m₀⟩
  let root : Activity σ := ⟨fuel, .block script.root ⟨0, []⟩, m₀⟩
  have reached : x ∈ script.root.locals →
      (script.root.stretch script.namedClasses).Reached script x :=
    guards.reached_body (List.mem_cons_self ..)
  have watched : (script.root.stretch script.namedClasses).Watched script x w₀ [0] := by
    refine ⟨List.Subset.refl _, ⟨rfl, fun c own => (by cases own), trivial⟩, fun pending => ?_,
      reached⟩
    have declared : (Layer.globals script.globals).roles ⊆ script.roles :=
      List.subset_append_left _ _
    have globals := pending.skip guards declared nofun rfl
    exact absurd globals.1 List.not_mem_nil
  have kept : (guarding script x holds).Kept host root := kept_guarding guards honest words root
  rcases interpret_failed failed entered with block | ⟨v, line, -, rfl⟩
  · have ends := kept.ends fuel root.task w₀ _ m₀ .refl
      ⟨⟨placed_root globals program, watched, List.forall_mem_nil _⟩, rfl⟩
      ⟨rfl, sound_of_globals fits⟩
    rw [block] at ends
    obtain ⟨_, _, -, -, other⟩ := ends
    exact other
  · exact nofun

/-- A program that all passes have let through fails with an internal error only for a
variable that a class touches and is used too early for: in the body of the variable the
value of the class comes about while the variable is unassigned. The variable is not among
the captures of the class. So the class does not need it, and it is only ever assigned in
the class and in those that it mentions, or the class leads to a circle of different
classes. -/
theorem early_use_of_internal_failure (honest : host.Honest holds) (words : host.FailsInWords)
    {st : σ} (initially : ∀ v, holds st v → v.IsPlain) {fuel : Nat} {program : List Syntax.Stmt}
    {report : Report} {m' : Machine σ}
    (ran : runProgram host .standard fuel program st = some (report, m')) {err : RuntimeError}
    (error : report.runtimeError = some err) (internal : err.cause.IsInternal) :
    let script := (resolve host.names program).1
    let named := script.namedClasses
    ∃ s, err.cause = .undefinedSlot s ∧ ∃ b ∈ script.bodies, s ∈ b.locals ∧
      ∃ c line, b.TouchesEarly named s c line ∧ s ∉ (Captures.ofScript script).of c ∧
        (c.Straight named → ¬c.Needs named s) := by
  intro script named
  obtain ⟨s, cause, var⟩ := internal_failure_of_runProgram honest words initially ran error internal
  obtain ⟨fine, clean, failed⟩ := failed_of_runProgram ran error
  have once : script.slots.Nodup := resolve_nodup host.names program
  have closed : script.root.Closed true (script.globals.map Prod.fst) :=
    resolve_closed host.names program fun _ => fine
  have silent : earlyReads script = [] :=
    List.map_eq_nil_iff.1 (staticDiagnostics_eq_nil_iff.1 clean).1
  refine ⟨s, cause, ?_⟩
  -- without such a class the variable would be guarded, since what is captured is reported
  by_contra none
  have guards : script.Guards s := by
    refine ⟨once, closed, var, fun b hb hx c line early => ?_⟩
    obtain ⟨before, rest, r, path, unassigned, touches⟩ := early
    have uncaptured : s ∉ (Captures.ofScript script).of c := fun captured => by
      have reported := reported_of_makes once closed hb path hx unassigned captured
      rw [silent] at reported
      exact nomatch reported
    have tells : (Captures.ofScript script).Tells named c :=
      tells_of_makes once hb path (List.mem_append_right _ (List.mem_cons_self ..))
    have early : b.TouchesEarly named s c line := ⟨before, rest, r, path, unassigned, touches⟩
    exact none ⟨b, hb, hx, c, line, early, uncaptured,
      fun straight needs => uncaptured ((tells.straight straight s).2 needs)⟩
  exact guards.not_undefinedSlot honest words initially failed cause

end Whole

/-- A class whose static method calls one of another class, which reads a variable and
refers back to the first class. It is used before the variable is assigned. -/
def borrowsEarly : List Syntax.Stmt :=
  [.eval (.call (.variable ⟨"B", 1⟩) ⟨"g", 1⟩ (some []) none),
    .var ⟨"x", 2⟩ (some (.literal (.boolean true) 2)),
    .cls ⟨"B", 3⟩
      [⟨.onClass, ⟨"g", 3⟩, some [],
        [.ret (some (.call (.variable ⟨"A", 3⟩) ⟨"f", 3⟩ (some []) none)) 3]⟩],
    .cls ⟨"A", 4⟩
      [⟨.onClass, ⟨"f", 4⟩, some [], [.ret (some (.variable ⟨"x", 4⟩)) 4]⟩,
        ⟨.onClass, ⟨"h", 5⟩, some [],
          [.ret (some (.call (.variable ⟨"B", 5⟩) ⟨"g", 5⟩ (some []) none)) 5]⟩]]

/-- Nothing is reported on such a program, and its run fails for the variable. What a class
captures is not followed around such a circle to the end. -/
theorem early_use_of_internal_failure_borrowsEarly :
    let host := Host.standard (fun c : Console => c) fun c _ => c
    let script := (resolve host.names borrowsEarly).1
    let named := script.namedClasses
    (∃ m', runProgram host .standard 40 borrowsEarly (.empty none) =
        some (⟨true, [], some ⟨4, .undefinedSlot ⟨3⟩⟩⟩, m')) ∧
      ∃ b ∈ script.bodies, ⟨3⟩ ∈ b.locals ∧
        ∃ c line, b.TouchesEarly named ⟨3⟩ c line ∧ ⟨3⟩ ∉ (Captures.ofScript script).of c ∧
          (c.Straight named → ¬c.Needs named ⟨3⟩) := by
  intro host script named
  have clean : staticDiagnostics host .standard (resolve host.names borrowsEarly).1 = [] :=
    staticDiagnostics_eq_nil_iff.2 ⟨by decide +kernel, by decide +kernel, by cbv⟩
  have error :
      (interpret host 40 (resolve host.names borrowsEarly).1 ⟨.empty, .empty none⟩).error? =
        some ⟨4, .undefinedSlot ⟨3⟩⟩ := by decide +kernel
  obtain ⟨m', failed⟩ := Outcome.error?_eq_some.1 error
  have ran := runProgram_of_failed (by decide +kernel) clean failed
  refine ⟨⟨m', ran⟩, ?_⟩
  obtain ⟨s, cause, early⟩ := early_use_of_internal_failure
    (Host.honest_standard (fun c : Console => c) fun c _ => c)
    (Host.failsInWords_standard _ _) (fun _ h => h.elim) ran rfl trivial
  cases cause
  exact early

/-- A class whose static method assigns a variable. It is used before the variable is
declared. -/
def writesEarly : List Syntax.Stmt :=
  [.eval (.call (.variable ⟨"A", 1⟩) ⟨"f", 1⟩ (some []) none),
    .var ⟨"x", 2⟩ (some (.literal (.boolean true) 2)),
    .cls ⟨"A", 3⟩
      [⟨.onClass, ⟨"f", 3⟩, some [],
        [.eval (.assign (.variable ⟨"x", 4⟩) (.literal (.boolean false) 4) 4)]⟩]]

/-- Nothing is reported on it either: what a class assigns is not among its captures. -/
example :
    let host := Host.standard (fun c : Console => c) fun c _ => c
    let script := (resolve host.names writesEarly).1
    (resolve host.names writesEarly).2 = [] ∧ staticDiagnostics host .standard script = [] ∧
      (interpret host 20 script ⟨.empty, .empty none⟩).error? =
        some ⟨4, .undefinedSlot ⟨2⟩⟩ :=
  ⟨by decide +kernel,
    staticDiagnostics_eq_nil_iff.2 ⟨by decide +kernel, by decide +kernel, by cbv⟩,
    by decide +kernel⟩

end Ember
