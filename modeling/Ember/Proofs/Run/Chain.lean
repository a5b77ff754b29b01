/-
The frames that running code sees mirror the scopes that its names were resolved
in.

* `Task.Fits`, `Task.Answers`: what is asked of the interpreter stands where all
  that it mentions is visible, and it answers with values that fit;
* `mirroring`, `scoping`: the discipline that says so, `kept_scoping` that every run
  keeps it;
* `Heap.BindsOnce`, `Program.Script.Finds`, `Program.Script.Awaits`: no slot is bound
  twice along an environment; a slot is bound unless it is a variable; a
  variable's statement has not been executed in the activation concerned;
* `scopes_mirrored`: the main theorem.
-/
import Mathlib
import Ember.Proofs.Run.Entry
import Ember.Proofs.Run.Natives
import Ember.Proofs.Run.Placing

namespace Ember

open Program

variable {σ : Type}

/-! ### The discipline -/

/-- A statement that ends with a value that fits, or with none. -/
def Completion.Fits (all : List (Slot × SlotRole)) (Λ : Layers) : Completion → Prop
  | .normal => True
  | .returned v _ => v.Fits all Λ

/-- What is asked of the interpreter stands where it is to be performed, and the
values that it is given fit. -/
def Task.Fits (all : List (Slot × SlotRole)) (Λ : Layers) : {α : Type} → Task α → Prop
  | _, .call receiver _ arguments _ =>
    receiver.Fits all Λ ∧ ∀ v ∈ arguments.getD [], v.Fits all Λ
  | _, .body m e arguments =>
    Λ.Placed all e.chain m.Closed m.roles ∧ (∀ v ∈ arguments.getD [], v.Fits all Λ) ∧
      (m.params.getD []).length = (arguments.getD []).length
  | _, .block b e => Λ.Placed all e.chain (b.Closed false) b.roles
  | _, .stmts ss e =>
    Λ.Placed all e.chain (fun v => stmtClosed false v ss) (stmtInnerRoles ss) ∧
      ∀ s ∈ ss, s.own ⊆ Λ.slotsAt e.own
  | _, .stmt s e =>
    Λ.Placed all e.chain (s.Closed false) s.innerRoles ∧ s.own ⊆ Λ.slotsAt e.own
  | _, .loop condition inner e =>
    Λ.Placed all e.chain (fun v => condition.Closed false v ∧ inner.Closed false v)
      (condition.roles ++ inner.roles) ∧ inner.own = []
  | _, .test condition e => Λ.Placed all e.chain (condition.Closed false) condition.roles
  | _, .eval expr e => Λ.Placed all e.chain (expr.Closed false) expr.roles
  | _, .evalAll es e => Λ.Placed all e.chain (fun v => exprClosed false v es) (exprRoles es)

/-- The values that a task answers with fit. -/
def Task.Answers (all : List (Slot × SlotRole)) (Λ : Layers) : {α : Type} → Task α → α → Prop
  | _, .call _ _ _ _, v | _, .body _ _ _, v | _, .eval _ _, v => v.Fits all Λ
  | _, .block _ _, c | _, .stmts _ _, c | _, .stmt _ _, c | _, .loop _ _ _, c => c.Fits all Λ
  | _, .test _ _, _ => True
  | _, .evalAll _ _, vs => ∀ v ∈ vs, v.Fits all Λ

/-- The frame at an address belongs to an activation of a block. -/
def Activity.Activates (host : Host σ) (root : Activity σ) (b : Block) (a : Address) : Prop :=
  ∃ fuel e m, root.Visits host ⟨fuel, .block b e, m⟩ ∧ m.heap.frames.size = a

/-- A slot is a variable of a block that is activated around an environment, and
it is not bound there. Which frames belong to activations of which blocks is told
by `active`. -/
def Machine.Lacks (all : List (Slot × SlotRole)) (active : Block → Address → Prop)
    (m : Machine σ) (e : Environment) (s : Slot) : Prop :=
  (s, .var) ∈ all ∧ m.heap.get? e s = none ∧ ∃ a ∈ e.chain, ∃ b, active b a ∧ s ∈ b.vars

/-- The same for the activations of a run. -/
abbrev Activity.Lacks (all : List (Slot × SlotRole)) (host : Host σ) (root : Activity σ)
    (m : Machine σ) (e : Environment) (s : Slot) : Prop :=
  m.Lacks all (root.Activates host) e s

/-- A method of the host fails with a cause of its own choice. -/
def Host.FailsWith (host : Host σ) (o : HostHandle) (method : Selector) (cause : Failure) : Prop :=
  ∃ run arguments st, host.findMethod? o method = some run ∧ (run arguments st).1 = .error cause

/-- A slot is found to be undefined only where it is mentioned, and only if it
is a variable, or else where the host says so. -/
def Task.Blames (all : List (Slot × SlotRole)) (host : Host σ) (active : Block → Address → Prop) :
    {α : Type} → Task α → RuntimeError → Machine σ → Prop
  | _, .eval (.read s _) e, err, m => err.cause = .undefinedSlot s ∧ m.Lacks all active e s
  | _, .eval (.assign s _ _) e, err, m =>
    err.cause = .undefinedSlot s ∧ m.Lacks all active e s
  | _, .call (.host o) name arguments _, err, _ =>
    (∀ s, err.cause ≠ .undefinedSlot s) ∨
      host.FailsWith o ⟨name, arguments.map List.length⟩ err.cause
  | _, _, err, _ => ∀ s, err.cause ≠ .undefinedSlot s

/-- The frames of a machine mirror the scopes of a program, with the frames of blocks
told by `active`. -/
def Machine.Mirrors (all : List (Slot × SlotRole)) (holds : σ → Value → Prop)
    (active : Block → Address → Prop) (Λ : Layers) (m : Machine σ) : Prop :=
  m.Fits all holds Λ [] ∧ ∀ a b, Λ.at? a = some (.block b) → active b a

/-- The discipline of frames that mirror the scopes of a program. They do so too when a
step fails. -/
def mirroring (all : List (Slot × SlotRole)) (holds : σ → Value → Prop) (host : Host σ)
    (active : Block → Address → Prop) : Discipline σ Layers where
  Holds Λ m := m.Mirrors all holds active Λ
  Allows := fun Λ _ t Q => t.Fits all Λ ∧ Q = fun Λ' => t.Answers all Λ'
  Blames := fun Λ _ t err m =>
    t.Blames all host active err m ∧ ∃ Λ', Λ ≤ Λ' ∧ m.Mirrors all holds active Λ'

/-- The discipline of a run whose frames mirror the scopes of its program. -/
abbrev scoping (all : List (Slot × SlotRole)) (holds : σ → Value → Prop) (host : Host σ)
    (root : Activity σ) : Discipline σ Layers :=
  { mirroring all holds host (root.Activates host) with
    Blames := fun _ _ t => t.Blames all host (root.Activates host) }

/-! ### Reading and writing -/

section Steps

variable {all : List (Slot × SlotRole)} {holds : σ → Value → Prop} {host : Host σ}
  {active : Block → Address → Prop} {Λ : Layers} {m : Machine σ} {e : Environment} {s : Slot}

/-- A visible slot that is not bound is a variable. -/
lemma lacks_of_get?_eq_none (fits : m.Mirrors all holds active Λ)
    (visible : s ∈ Λ.visible e.chain) (none : m.heap.get? e s = none) :
    m.Lacks all active e s := by
  obtain ⟨fits, active⟩ := fits
  obtain ⟨a, ha, l, at_a, hs⟩ := Layers.mem_visible.1 visible
  have loose : s ∉ l.firm := fun firm => by
    have bound := (fits.ready a l s at_a firm).resolve_right List.not_mem_nil
    have := Heap.get?_isSome.2 ⟨a, ha, bound⟩
    rw [none] at this
    exact Bool.noConfusion this
  obtain ⟨b, rfl, hv⟩ := Layer.var_of_not_firm hs loose
  refine ⟨fits.declared _ (List.mem_of_getElem? at_a) ?_, none, a, ha, b, active a b at_a, hv⟩
  rw [Layer.roles]
  exact List.mem_append_left _ (List.mem_map_of_mem hv)

/-- What is read fits. -/
lemma Machine.Fits.get {v : Value} (fits : m.Fits all holds Λ []) (got : m.heap.get? e s = some v) :
    v.Fits all Λ := by
  obtain ⟨a, -, got⟩ := Heap.get?_eq_some got
  exact (fits.bound a s v got).2

/-- A slot may be given another value that fits. -/
lemma Machine.Fits.assign {v : Value} {a : Address} (fits : m.Fits all holds Λ [])
    (fit : v.Fits all Λ) (near : m.heap.nearest? e s = some a) :
    ({ m with heap := m.heap.putAt a s v } : Machine σ).Fits all holds Λ [] := by
  obtain ⟨w, got⟩ := Option.isSome_iff_exists.1 (Heap.nearest?_eq_some near).2
  exact (fits.leave (List.nil_subset _)).put (fits.bound a s w got).1 fit

/-- Plain values have no frames. -/
lemma Value.IsPlain.fits {v : Value} (plain : v.IsPlain) : v.Fits all Λ := by
  cases v with
  | cls _ | obj _ => exact plain.elim
  | null | boolean _ | number _ | text _ | host _ => trivial

/-- What can be had from values that fit fits. -/
lemma Value.From.fits {given : Value → Prop} {v : Value} (h : v.From given)
    (fits : ∀ w, given w → w.Fits all Λ) : v.Fits all Λ :=
  h.induct (fun _ plain => plain.fits) fits fun _ fit => Instance.Fits.cls fit

/-- An honest host answers with values that fit, and stores no others. -/
lemma Machine.Fits.ofHost (honest : host.Honest holds) {o : HostHandle} {method : Selector}
    {run : HostMethod σ} (found : host.findMethod? o method = some run) {arguments : List Value}
    (given : ∀ v ∈ arguments, v.Fits all Λ) (fits : m.Fits all holds Λ []) :
    ({ m with host := (run arguments m.host).2 } : Machine σ).Fits all holds Λ [] ∧
      ∀ v, (run arguments m.host).1 = .ok v → v.Fits all Λ := by
  have fit {v : Value} (h : v.From fun w => w ∈ arguments ∨ holds m.host w) : v.Fits all Λ :=
    h.fits fun v hv => hv.elim (given v) (fits.host v)
  exact ⟨⟨fits.size, fits.declared, fits.bound, fits.ready,
    fun v hv => fit (honest.keeps o method run found arguments m.host v hv)⟩,
    fun v ok => fit (honest.answers o method run found arguments m.host v ok)⟩

/-- A built-in method answers with a plain value, and its failures are its own. -/
lemma native_spec {receiver : Value} {method : Selector} {run : NativeMethod}
    (found : ((NativeClass.of? receiver).bind fun c => c.find? method) = some run)
    (arguments : List Value) :
    (∃ v, run receiver arguments = .ok v ∧ v.IsPlain) ∨
      ∃ cause, run receiver arguments = .error cause ∧ ¬cause.IsInternal := by
  obtain ⟨c, own, found⟩ := Option.bind_eq_some_iff.1 found
  obtain ⟨operand, result, -, meets⟩ := NativeClass.meets_of_find? found
  cases h : run receiver arguments with
  | ok v =>
    have kind := meets.ok receiver arguments v own h
    refine .inl ⟨v, rfl, ?_⟩
    cases v with
    | cls _ | obj _ => exact nomatch kind
    | null | boolean _ | number _ | text _ | host _ => trivial
  | error cause =>
    refine .inr ⟨cause, rfl, ?_⟩
    rcases meets.error receiver arguments cause own h with rfl | rfl | ⟨-, rfl, -⟩ | ⟨-, rfl, -⟩ <;>
      exact id

/-! ### Parts of tasks -/

/-- The branches of a conditional stand where it does. -/
lemma Layers.Placed.branches {condition : Expr} {yes : Stmt} {no : Option Stmt} {line : Line}
    (placed : Λ.Placed all e.chain ((Stmt.branch condition yes no line).Closed false)
      (Stmt.branch condition yes no line).roles) :
    Λ.Placed all e.chain (condition.Closed false) condition.roles ∧
      ∀ t, t = yes ∨ no = some t →
        Λ.Placed all e.chain (t.Closed false) t.innerRoles ∧ t.own = [] := by
  have inner (t : Stmt) : t.innerRoles.Sublist t.roles := by
    rw [t.roles_eq]
    exact List.sublist_append_right _ _
  have left {xs ys zs : List (Slot × SlotRole)} : xs.Sublist (xs ++ ys ++ zs) :=
    (List.sublist_append_left _ _).trans (List.sublist_append_left _ _)
  have middle {xs ys zs : List (Slot × SlotRole)} : ys.Sublist (xs ++ ys ++ zs) :=
    (List.sublist_append_right _ _).trans (List.sublist_append_left _ _)
  cases no with
  | none =>
    refine ⟨placed.part (fun closed => closed.1) left, fun t ht => ?_⟩
    rcases ht with rfl | ht
    · exact ⟨placed.part (fun closed => closed.2.1.2) ((inner t).trans middle),
        placed.closed.2.1.1⟩
    · exact nomatch ht
  | some no =>
    refine ⟨placed.part (fun closed => closed.1) left, fun t ht => ?_⟩
    rcases ht with rfl | ht
    · exact ⟨placed.part (fun closed => closed.2.1.2) ((inner t).trans middle),
        placed.closed.2.1.1⟩
    · cases ht
      exact ⟨placed.part (fun closed => closed.2.2.2)
        ((inner no).trans (List.sublist_append_right _ _)), placed.closed.2.2.1⟩

namespace Task.Fits

variable {α : Type} {Λ' : Layers}

/-- What stands where it is to be performed still does when there are more frames. -/
lemma mono (h : Λ ≤ Λ') {t : Task α} (fits : t.Fits all Λ) : t.Fits all Λ' := by
  cases t with
  | call receiver name arguments line => exact ⟨fits.1.mono h, fun v hv => (fits.2 v hv).mono h⟩
  | body m e arguments =>
    exact ⟨fits.1.mono h, fun v hv => (fits.2.1 v hv).mono h, fits.2.2⟩
  | stmts ss e =>
    refine ⟨fits.1.mono h, fun s hs => ?_⟩
    exact Layers.slotsAt_subset_mono h (fits.1.known _ (List.mem_cons_self ..)) (fits.2 s hs)
  | stmt s e =>
    exact ⟨fits.1.mono h,
      Layers.slotsAt_subset_mono h (fits.1.known _ (List.mem_cons_self ..)) fits.2⟩
  | loop condition inner e => exact ⟨Layers.Placed.mono h fits.1, fits.2⟩
  | block b e => exact Layers.Placed.mono h fits
  | test condition e => exact Layers.Placed.mono h fits
  | eval expr e => exact Layers.Placed.mono h fits
  | evalAll es e => exact Layers.Placed.mono h fits

/-- The body of a method stands in the frame of its parameters. -/
lemma inner {m : Method} {arguments : Option (List Value)}
    (fits : (Task.body m e arguments).Fits all Λ) :
    (Task.block m.body (e.inside Λ.size)).Fits all (Λ.add [.params m]) :=
  (fits.1.mono (Λ.le_add _)).body (Λ.at?_add_size (.params m) [])

/-- A body is entered with a frame that binds its parameters. -/
lemma enter_body {method : Method} {arguments : Option (List Value)}
    (fits : (Task.body method e arguments).Fits all Λ) (fit : m.Fits all holds Λ []) :
    ∃ m₁ m₂, Run.child e m = .done (e.inside Λ.size) m₁ ∧
      Run.declareEach (e.inside Λ.size) (method.params.getD []) (arguments.getD []) m₁ =
        .done () m₂ ∧ m₂.Fits all holds (Λ.add [.params method]) [] := by
  obtain ⟨placed, given, length⟩ := fits
  have slots := Layers.slotsAt_of_at? (Λ.at?_add_size (.params method) [])
  rw [Layer.slots_params] at slots
  have declared : (Layer.params method).roles ⊆ all :=
    List.Subset.trans (List.subset_append_left _ _) placed.declared
  obtain ⟨frame, m₁, run₁, rfl, fits₁⟩ := fit.child (e := e) declared
  rw [Layer.firm_params] at fits₁
  obtain ⟨_, m₂, run₂, fits₂⟩ := fits₁.declareEach (e := e.inside Λ.size)
    (fun s hs => slots ▸ hs) (fun v hv => (given v hv).mono (Λ.le_add _)) length
  exact ⟨m₁, m₂, run₁, run₂, fits₂⟩

/-- A block is entered with a frame that binds its classes. -/
lemma enter_block {b : Block} (fits : (Task.block b e).Fits all Λ)
    (fit : m.Fits all holds Λ []) :
    ∃ m₁ m₂, Run.child e m = .done (e.inside Λ.size) m₁ ∧
      makeClasses (e.inside Λ.size) b.classes m₁ = .done () m₂ ∧
        m₂.Fits all holds ((Λ.add [.block b]).add (b.classes.map fun c => .statics c.2)) [] := by
  have placed : Λ.Placed all e.chain (b.Closed false) b.roles := fits
  have at_own := Λ.at?_add_size (.block b) []
  have slots := Layers.slotsAt_of_at? at_own
  rw [Layer.slots_block] at slots
  obtain ⟨frame, m₁, run₁, rfl, fits₁⟩ :=
    fit.child (e := e) (List.Subset.trans (block_roles_subset b) placed.declared)
  rw [Layer.firm_block, Block.classSlots, List.map_map] at fits₁
  obtain ⟨_, m₂, run₂, fits₂⟩ := fits_makeClasses (e := e.inside Λ.size) fits₁
    (fun c hc => by
      rw [Environment.inside, slots]
      exact List.mem_append_right _ (List.mem_map_of_mem hc))
    fun c hc => (placed.mono (Λ.le_add _)).classes at_own hc
  exact ⟨m₁, m₂, run₁, run₂, fits₂⟩

/-- The statements of a block stand in its frame, once its classes have been made. -/
lemma statements {b : Block} (fits : (Task.block b e).Fits all Λ) (ls : List Layer) :
    (Task.stmts b.statements (e.inside Λ.size)).Fits all ((Λ.add [.block b]).add ls) := by
  have placed : Λ.Placed all e.chain (b.Closed false) b.roles := fits
  have at_own := Λ.at?_add_size (.block b) []
  have grown := (Λ.add [.block b]).le_add ls
  refine ⟨((placed.mono (Λ.le_add _)).statements at_own).mono grown, fun s hs => ?_⟩
  refine Layers.slotsAt_subset_mono grown (Layers.lt_of_at? at_own) ?_
  rw [Environment.inside, Layers.slotsAt_of_at? at_own, Layer.slots_block]
  exact fun x hx => List.mem_append_left _ (List.mem_flatMap.2 ⟨s, hs, hx⟩)

/-- The first of some statements stands where they do. -/
lemma first {s : Stmt} {ss : List Stmt} (fits : (Task.stmts (s :: ss) e).Fits all Λ) :
    (Task.stmt s e).Fits all Λ :=
  ⟨fits.1.part (fun closed => closed.1) (List.sublist_append_left _ _),
    fits.2 s (List.mem_cons_self ..)⟩

/-- The other statements stand where the first one does. -/
lemma rest {s : Stmt} {ss : List Stmt} (fits : (Task.stmts (s :: ss) e).Fits all Λ) :
    (Task.stmts ss e).Fits all Λ := by
  obtain ⟨placed, owns⟩ := fits
  obtain ⟨own, owns⟩ := List.forall_mem_cons.1 owns
  refine ⟨placed.part (fun closed => stmtClosed_mono ?_ ss closed.2)
    (List.sublist_append_right _ _), owns⟩
  refine List.append_subset.2 ⟨List.Subset.trans own ?_, List.Subset.refl _⟩
  rw [Layers.visible, Environment.chain, List.flatMap_cons]
  exact List.subset_append_left _ _

/-- What a conditional consists of stands where it does. -/
lemma branch {condition : Expr} {yes : Stmt} {no : Option Stmt} {line : Line}
    (fits : (Task.stmt (.branch condition yes no line) e).Fits all Λ) :
    (Task.test condition e).Fits all Λ ∧
      ∀ t, t = yes ∨ no = some t → (Task.stmt t e).Fits all Λ := by
  obtain ⟨condition', branches⟩ := Layers.Placed.branches fits.1
  refine ⟨condition', fun t ht => ?_⟩
  obtain ⟨placed, own⟩ := branches t ht
  refine ⟨placed, ?_⟩
  rw [own]
  exact List.nil_subset _

/-- The rounds of a loop stand where the loop does. -/
lemma rounds {condition : Expr} {inner : Stmt} {line : Line}
    (fits : (Task.stmt (.loop condition inner line) e).Fits all Λ) :
    (Task.loop condition inner e).Fits all Λ :=
  ⟨fits.1.part (fun closed => ⟨closed.1, closed.2.2⟩) (List.Sublist.refl _), fits.1.closed.2.1⟩

/-- What a round of a loop consists of stands where the loop does. -/
lemma round {condition : Expr} {inner : Stmt} (fits : (Task.loop condition inner e).Fits all Λ) :
    (Task.test condition e).Fits all Λ ∧ (Task.stmt inner e).Fits all Λ := by
  obtain ⟨placed, own⟩ := fits
  refine ⟨placed.part (fun closed => closed.1) (List.sublist_append_left _ _),
    placed.part (fun closed => closed.2)
      (List.Sublist.trans ?_ (List.sublist_append_right _ _)), ?_⟩
  · rw [inner.roles_eq]
    exact List.sublist_append_right _ _
  · rw [own]
    exact List.nil_subset _

/-- The initializer of a variable stands where its declaration does. -/
lemma init {s : Slot} {init : Expr} {line : Line}
    (fits : (Task.stmt (.var s (some init) line) e).Fits all Λ) :
    (Task.eval init e).Fits all Λ := by
  have sub : s :: Λ.visible e.chain ⊆ Λ.visible e.chain := by
    refine List.cons_subset.2 ⟨?_, List.Subset.refl _⟩
    rw [Layers.visible, Environment.chain, List.flatMap_cons]
    exact List.mem_append_left _ (fits.2 (List.mem_singleton_self s))
  exact fits.1.part (fun closed => Expr.Closed.mono sub init closed) (List.Sublist.refl _)

/-- The value of an assignment stands where the assignment does. -/
lemma assign {target : Slot} {value : Expr} {line : Line}
    (fits : (Task.eval (.assign target value line) e).Fits all Λ) :
    (Task.eval value e).Fits all Λ :=
  Layers.Placed.part fits (fun closed => closed.2) (List.Sublist.refl _)

/-- The receiver of a call stands where the call does. -/
lemma receiver {receiver : Expr} {name : String} {arguments : Option (List Expr)} {line : Line}
    (fits : (Task.eval (.call receiver name arguments line) e).Fits all Λ) :
    (Task.eval receiver e).Fits all Λ := by
  cases arguments <;>
    exact Layers.Placed.part fits (fun closed => closed.1) (List.sublist_append_left _ _)

/-- The arguments of a call stand where the call does. -/
lemma arguments {receiver : Expr} {name : String} {es : List Expr} {line : Line}
    (fits : (Task.eval (.call receiver name (some es) line) e).Fits all Λ) :
    (Task.evalAll es e).Fits all Λ :=
  Layers.Placed.part fits (fun closed => closed.2) (List.sublist_append_right _ _)

/-- The operands of a connective stand where it does. -/
lemma logical {op : Connective} {left right : Expr} {line : Line}
    (fits : (Task.eval (.logical op left right line) e).Fits all Λ) :
    (Task.eval left e).Fits all Λ ∧ (Task.eval right e).Fits all Λ :=
  ⟨Layers.Placed.part fits (fun closed => closed.1) (List.sublist_append_left _ _),
    Layers.Placed.part fits (fun closed => closed.2) (List.sublist_append_right _ _)⟩

/-- Each of some expressions stands where they do. -/
lemma cons {expr : Expr} {rest : List Expr} (fits : (Task.evalAll (expr :: rest) e).Fits all Λ) :
    (Task.eval expr e).Fits all Λ ∧ (Task.evalAll rest e).Fits all Λ :=
  ⟨Layers.Placed.part fits (fun closed => closed.1) (List.sublist_append_left _ _),
    Layers.Placed.part fits (fun closed => closed.2) (List.sublist_append_right _ _)⟩

end Task.Fits

/-! ### Every run keeps the discipline -/

variable {Λ' : Layers}

/-- A task keeps the discipline where it starts. -/
abbrev KeepsScoping (all : List (Slot × SlotRole)) (holds : σ → Value → Prop) (host : Host σ)
    (active : Block → Address → Prop) (Λ : Layers) {α : Type} (t : Task α) (m : Machine σ) : Prop :=
  (mirroring all holds host active).Keeps
    (fun Λ' => (mirroring all holds host active).Blames Λ' t) (t.plan host) Λ m
      fun Λ' => t.Answers all Λ'

/-- A machine with more frames holds on, if those of blocks belong to activations. -/
lemma holds_add {ls : List Layer} (holding : m.Mirrors all holds active Λ)
    {m' : Machine σ} (fits : m'.Fits all holds (Λ.add ls) [])
    (new : ∀ i b, ls[i]? = some (.block b) → active b (Λ.size + i)) :
    m'.Mirrors all holds active (Λ.add ls) := by
  refine ⟨fits, fun a b at_a => ?_⟩
  rw [Layers.at?, Layers.add] at at_a
  rcases Nat.lt_or_ge a Λ.list.length with lt | ge
  · rw [List.getElem?_append_left lt] at at_a
    exact holding.2 a b at_a
  · rw [List.getElem?_append_right ge] at at_a
    have := new _ b at_a
    rwa [Layers.size, Nat.add_sub_cancel' ge] at this

/-- A frame for other things than a block activates none. -/
lemma holds_add_one {l : Layer} (plain : ∀ b, l ≠ .block b)
    (holding : m.Mirrors all holds active Λ) {m' : Machine σ}
    (fits : m'.Fits all holds (Λ.add [l]) []) :
    m'.Mirrors all holds active (Λ.add [l]) :=
  holds_add holding fits fun _ b at_i =>
    absurd (List.mem_singleton.1 (List.mem_of_getElem? at_i)).symm (plain b)

/-- A method that is found is in its table, and takes as many arguments as it is
called with. -/
lemma findMethod?_spec {name : String} {arguments : Option (List Value)} {table : List Method}
    {method : Method} (found : findMethod? ⟨name, arguments.map List.length⟩ table = some method) :
    method ∈ table ∧ (method.params.getD []).length = (arguments.getD []).length := by
  refine ⟨List.mem_of_find?_eq_some found, ?_⟩
  rw [findMethod?, findByKey?] at found
  have selector : method.selector = ⟨name, arguments.map List.length⟩ := by
    simpa only [decide_eq_true_eq] using List.find?_some found
  have arity := congrArg Selector.arity selector
  simp only [Method.selector] at arity
  cases h : method.params with
  | none =>
    rw [h] at arity
    cases arguments with
    | none => rfl
    | some vs => cases arity
  | some ps =>
    rw [h] at arity
    cases arguments with
    | none => cases arity
    | some vs => exact Option.some.inj arity

/-- A call runs a method in the frame of its class or instance, or asks a native method or
the host. -/
lemma keeps_scoping_call (honest : host.Honest holds) {receiver : Value} {name : String}
    {arguments : Option (List Value)} {line : Line}
    (fits : (Task.call receiver name arguments line).Fits all Λ)
    (holding : m.Mirrors all holds active Λ) :
    KeepsScoping all holds host active Λ (.call receiver name arguments line) m := by
  obtain ⟨receiverFits, given⟩ := fits
  cases receiver with
  | cls c =>
    rw [KeepsScoping, Task.plan]
    split
    · next method found =>
      obtain ⟨hm, length⟩ := findMethod?_spec found
      -- the frame of the new instance comes inside that of its class
      obtain ⟨i, m₁, run, rfl, iFits, fits₁⟩ := fits_makeInstance holding.1 receiverFits
      have grown := Λ.le_add [.fields i.cls.decl]
      refine .step run (.start _ grown (holds_add_one (fun b => by simp) holding fits₁)
        ⟨⟨iFits.method (.inl hm), fun v hv => (given v hv).mono grown, length⟩, rfl⟩
        fun Λ₂ m₂ v grown₂ holding₂ _ => .pure (le_refl Λ₂) holding₂ ?_)
      exact Value.Fits.mono (v := .obj i) grown₂ iFits
    · split
      · next method found =>
        obtain ⟨hm, length⟩ := findMethod?_spec found
        exact .last (le_refl Λ) holding
          ⟨⟨ClassObject.Fits.static receiverFits hm, given, length⟩, rfl⟩
      · exact .fail rfl ⟨fun s h => (by cases h), Λ, le_refl Λ, holding⟩
  | obj i =>
    rw [KeepsScoping, Task.plan]
    split
    · next method found =>
      obtain ⟨hm, length⟩ := findMethod?_spec found
      exact .last (le_refl Λ) holding
        ⟨⟨Instance.Fits.method receiverFits (.inr hm), given, length⟩, rfl⟩
    · exact .fail rfl ⟨fun s h => (by cases h), Λ, le_refl Λ, holding⟩
  | host o =>
    rw [KeepsScoping, Task.plan]
    split
    · next method found =>
      -- the host may fail with any cause it likes, which is then its own
      obtain ⟨fits', answer⟩ := holding.1.ofHost honest found given
      rcases Run.ofHost_cases line method (arguments.getD []) m with
        ⟨v, ok, run⟩ | ⟨cause, error, run⟩
      · exact .finish run (le_refl Λ) ⟨fits', holding.2⟩ (answer v ok)
      · exact .fail run ⟨.inr ⟨method, arguments.getD [], m.host, found, error⟩, Λ, le_refl Λ,
          fits', holding.2⟩
    · exact .fail rfl ⟨.inl fun s h => (by cases h), Λ, le_refl Λ, holding⟩
  | null | boolean _ | number _ | text _ =>
    simp only [KeepsScoping, Task.plan]
    split
    · next method found =>
      -- native methods know nothing of slots
      rcases native_spec found (arguments.getD []) with ⟨v, run, plain⟩ | ⟨cause, run, outside⟩
      · rw [run]
        exact .finish rfl (le_refl Λ) holding plain.fits
      · rw [run]
        refine .fail rfl ⟨fun s e => ?_, Λ, le_refl Λ, holding⟩
        rw [show cause = .undefinedSlot s from e] at outside
        exact outside trivial
    · exact .fail rfl ⟨fun s h => (by cases h), Λ, le_refl Λ, holding⟩

/-- The parameters of a body are bound in a frame of its own. -/
lemma keeps_scoping_body {method : Method} {arguments : Option (List Value)}
    (fits : (Task.body method e arguments).Fits all Λ)
    (holding : m.Mirrors all holds active Λ) :
    KeepsScoping all holds host active Λ (.body method e arguments) m := by
  obtain ⟨m₁, m₂, run₁, run₂, fits₂⟩ := fits.enter_body holding.1
  refine .step run₁ (.step run₂ (.start _ (Λ.le_add _)
    (holds_add_one (fun b => by simp) holding fits₂) ⟨fits.inner, rfl⟩
    fun Λ₂ m₃ c _ holding₂ answer => ?_))
  cases c with
  | normal => exact .pure (le_refl Λ₂) holding₂ trivial
  | returned v line => exact .pure (le_refl Λ₂) holding₂ answer

/-- The classes of a block are bound in a frame of its own before its statements are
executed. -/
lemma keeps_scoping_block {b : Block} (opens : active b m.heap.frames.size)
    (fits : (Task.block b e).Fits all Λ)
    (holding : m.Mirrors all holds active Λ) :
    KeepsScoping all holds host active Λ (.block b e) m := by
  obtain ⟨m₁, m₂, run₁, run₂, fits₂⟩ := fits.enter_block holding.1
  have holding₁ : m₂.Mirrors all holds active
      ((Λ.add [.block b]).add (b.classes.map fun c => .statics c.2)) := by
    rw [Layers.add_add] at fits₂ ⊢
    refine holds_add holding fits₂ fun i b' at_i => ?_
    cases i with
    | zero =>
      cases at_i
      exact holding.1.size ▸ opens
    | succ i =>
      have at_i : (b.classes.map fun c => Layer.statics c.2)[i]? = some (.block b') := at_i
      obtain ⟨c, -, h⟩ := List.mem_map.1 (List.mem_of_getElem? at_i)
      cases h
  exact .step run₁ (.step run₂ (.last ((Λ.le_add _).trans (Layers.le_add _ _)) holding₁
    ⟨fits.statements _, rfl⟩))

/-- Statements are executed in the frame around them. -/
lemma keeps_scoping_stmts {ss : List Stmt} (fits : (Task.stmts ss e).Fits all Λ)
    (holding : m.Mirrors all holds active Λ) :
    KeepsScoping all holds host active Λ (.stmts ss e) m := by
  cases ss with
  | nil => exact .pure (le_refl Λ) holding trivial
  | cons s ss =>
    refine .start _ (le_refl Λ) holding ⟨fits.first, rfl⟩ fun Λ₁ m₁ c grown holding₁ answer => ?_
    cases c with
    | returned v line => exact .pure (le_refl Λ₁) holding₁ answer
    | normal => exact .last (le_refl Λ₁) holding₁ ⟨fits.rest.mono grown, rfl⟩

/-- A statement binds at most its own variable. -/
lemma keeps_scoping_stmt {s : Stmt} (fits : (Task.stmt s e).Fits all Λ)
    (holding : m.Mirrors all holds active Λ) :
    KeepsScoping all holds host active Λ (.stmt s e) m := by
  have known := fits.1.known e.own (List.mem_cons_self ..)
  cases s with
  | block b => exact .last (le_refl Λ) holding ⟨fits.1, rfl⟩
  | branch condition yes no line =>
    obtain ⟨condition', branches⟩ := fits.branch
    refine .start _ (le_refl Λ) holding ⟨condition', rfl⟩ fun Λ₁ m₁ c grown holding₁ _ => ?_
    cases c with
    | true => exact .last (le_refl Λ₁) holding₁ ⟨(branches yes (.inl rfl)).mono grown, rfl⟩
    | false =>
      cases no with
      | none => exact .pure (le_refl Λ₁) holding₁ trivial
      | some no => exact .last (le_refl Λ₁) holding₁ ⟨(branches no (.inr rfl)).mono grown, rfl⟩
  | loop condition body line => exact .last (le_refl Λ) holding ⟨fits.rounds, rfl⟩
  | var slot init line =>
    have declared {v : Value} {Λ₁ : Layers} {m₁ : Machine σ} (grown : Λ ≤ Λ₁)
        (holding₁ : m₁.Mirrors all holds active Λ₁) (fit : v.Fits all Λ₁) :
        (mirroring all holds host active).Keeps
          (fun Λ' => (mirroring all holds host active).Blames Λ' (.stmt (.var slot init line) e))
          (do
            Plan.step (Run.declare e slot v)
            return Completion.normal) Λ₁ m₁ fun Λ' c => c.Fits all Λ' := by
      have visible := Layers.slotsAt_subset_mono grown known fits.2 (List.mem_singleton_self slot)
      obtain ⟨_, m₂, run, fits₂⟩ :=
        (holding₁.1.leave (List.nil_subset _)).declare v visible fit
      exact .step run (.pure (le_refl Λ₁) ⟨fits₂, holding₁.2⟩ trivial)
    cases init with
    | none => exact declared (v := .null) (le_refl Λ) holding trivial
    | some init =>
      exact .start _ (le_refl Λ) holding ⟨fits.init, rfl⟩ fun Λ₁ m₁ v grown holding₁ answer =>
        declared grown holding₁ answer
  | ret value line =>
    cases value with
    | none => exact .pure (le_refl Λ) holding trivial
    | some value =>
      exact .start _ (le_refl Λ) holding ⟨fits.1, rfl⟩ fun Λ₁ m₁ v _ holding₁ answer =>
        .pure (le_refl Λ₁) holding₁ answer
  | eval expr =>
    exact .start _ (le_refl Λ) holding ⟨fits.1, rfl⟩ fun Λ₁ m₁ v _ holding₁ _ =>
      .pure (le_refl Λ₁) holding₁ trivial

/-- The rounds of a loop stand in the frame around it. -/
lemma keeps_scoping_loop {condition : Expr} {inner : Stmt}
    (fits : (Task.loop condition inner e).Fits all Λ)
    (holding : m.Mirrors all holds active Λ) :
    KeepsScoping all holds host active Λ (.loop condition inner e) m := by
  obtain ⟨condition', inner'⟩ := fits.round
  refine .start _ (le_refl Λ) holding ⟨condition', rfl⟩ fun Λ₁ m₁ c grown holding₁ _ => ?_
  cases c with
  | false => exact .pure (le_refl Λ₁) holding₁ trivial
  | true =>
    refine .start _ (le_refl Λ₁) holding₁ ⟨inner'.mono grown, rfl⟩
      fun Λ₂ m₂ c grown₂ holding₂ answer => ?_
    cases c with
    | normal => exact .last (le_refl Λ₂) holding₂ ⟨fits.mono (grown.trans grown₂), rfl⟩
    | returned v line => exact .pure (le_refl Λ₂) holding₂ answer

/-- A condition binds nothing. -/
lemma keeps_scoping_test {condition : Expr} (fits : (Task.test condition e).Fits all Λ)
    (holding : m.Mirrors all holds active Λ) :
    KeepsScoping all holds host active Λ (.test condition e) m := by
  refine .start _ (le_refl Λ) holding ⟨fits, rfl⟩ fun Λ₁ m₁ v grown holding₁ _ => ?_
  cases v with
  | boolean b => exact .pure (le_refl Λ₁) holding₁ trivial
  | null | number _ | text _ | cls _ | obj _ | host _ =>
    exact .fail rfl ⟨fun s h => (by cases h), Λ₁, le_refl Λ₁, holding₁⟩

/-- An expression reads and assigns what is visible where it stands. -/
lemma keeps_scoping_eval {expr : Expr} (fits : (Task.eval expr e).Fits all Λ)
    (holding : m.Mirrors all holds active Λ) :
    KeepsScoping all holds host active Λ (.eval expr e) m := by
  cases expr with
  | assign target value line =>
    refine .start _ (le_refl Λ) holding ⟨fits.assign, rfl⟩ fun Λ₁ m₁ v grown holding₁ answer => ?_
    -- what is visible and has no frame yet is a variable whose turn has not come
    rcases Run.assign_cases e target v line m₁ with ⟨a, near, run⟩ | ⟨unbound, run⟩
    · exact .step run (.pure (le_refl Λ₁) ⟨holding₁.1.assign answer near, holding₁.2⟩ answer)
    · have visible : target ∈ Λ₁.visible e.chain := (Layers.Placed.mono grown fits).closed.1
      exact .failFirst run
        ⟨⟨rfl, lacks_of_get?_eq_none holding₁ visible unbound⟩, Λ₁, le_refl Λ₁, holding₁⟩
  | call receiver name arguments line =>
    refine .start _ (le_refl Λ) holding ⟨fits.receiver, rfl⟩ fun Λ₁ m₁ v grown holding₁ answer => ?_
    cases arguments with
    | none => exact .last (le_refl Λ₁) holding₁ ⟨⟨answer, fun w hw => by cases hw⟩, rfl⟩
    | some es =>
      refine .start _ (le_refl Λ₁) holding₁ ⟨fits.arguments.mono grown, rfl⟩
        fun Λ₂ m₂ vs grown₂ holding₂ answers => ?_
      exact .last (le_refl Λ₂) holding₂ ⟨⟨answer.mono grown₂, answers⟩, rfl⟩
  | literal value line =>
    refine .pure (le_refl Λ) holding ?_
    cases value <;> trivial
  | read s line =>
    have visible : s ∈ Λ.visible e.chain := Layers.Placed.closed fits
    rcases Run.get_cases e s line m with ⟨v, got, run⟩ | ⟨unbound, run⟩
    · exact .finish run (le_refl Λ) holding (holding.1.get got)
    · exact .fail run
        ⟨⟨rfl, lacks_of_get?_eq_none holding visible unbound⟩, Λ, le_refl Λ, holding⟩
  | logical op left right line =>
    obtain ⟨left', right'⟩ := fits.logical
    refine .start _ (le_refl Λ) holding ⟨left', rfl⟩ fun Λ₁ m₁ v grown holding₁ _ => ?_
    cases v with
    | boolean b =>
      dsimp only
      split
      · exact .pure (le_refl Λ₁) holding₁ trivial
      · refine .start _ (le_refl Λ₁) holding₁ ⟨right'.mono grown, rfl⟩
          fun Λ₂ m₂ v grown₂ holding₂ _ => ?_
        cases v with
        | boolean b => exact .pure (le_refl Λ₂) holding₂ trivial
        | null | number _ | text _ | cls _ | obj _ | host _ =>
          exact .fail rfl ⟨fun s h => (by cases h), Λ₂, le_refl Λ₂, holding₂⟩
    | null | number _ | text _ | cls _ | obj _ | host _ =>
      exact .fail rfl ⟨fun s h => (by cases h), Λ₁, le_refl Λ₁, holding₁⟩
  | cls decl =>
    obtain ⟨c, m₁, run, object, fits₁⟩ := fits_makeClass holding.1 fits
    exact .step run (.pure (Λ.le_add _) (holds_add_one (fun b => by simp) holding fits₁) object)

/-- Expressions bind nothing in the frame around them. -/
lemma keeps_scoping_evalAll {es : List Expr} (fits : (Task.evalAll es e).Fits all Λ)
    (holding : m.Mirrors all holds active Λ) :
    KeepsScoping all holds host active Λ (.evalAll es e) m := by
  cases es with
  | nil => exact .pure (le_refl Λ) holding fun v hv => nomatch hv
  | cons expr rest =>
    obtain ⟨expr', rest'⟩ := fits.cons
    refine .start _ (le_refl Λ) holding ⟨expr', rfl⟩ fun Λ₁ m₁ v grown holding₁ answer => ?_
    refine .start _ (le_refl Λ₁) holding₁ ⟨rest'.mono grown, rfl⟩
      fun Λ₂ m₂ vs grown₂ holding₂ answers => .pure (le_refl Λ₂) holding₂ ?_
    exact List.forall_mem_cons.2 ⟨answer.mono grown₂, answers⟩

/-- Every run keeps the discipline, if `active` tells of the frames of its blocks. -/
theorem kept_mirroring (honest : host.Honest holds) {root : Activity σ}
    (opens : ∀ fuel b e (m : Machine σ), root.Visits host ⟨fuel, .block b e, m⟩ →
      active b m.heap.frames.size) : (mirroring all holds host active).Kept host root := by
  intro α fuel t Λ Q m visited allowed holding
  obtain ⟨fits, rfl⟩ := allowed
  cases t with
  | call receiver name arguments line => exact keeps_scoping_call honest fits holding
  | body method e arguments => exact keeps_scoping_body fits holding
  | block b e => exact keeps_scoping_block (opens _ b e m visited) fits holding
  | stmts ss e => exact keeps_scoping_stmts fits holding
  | stmt s e => exact keeps_scoping_stmt fits holding
  | loop condition inner e => exact keeps_scoping_loop fits holding
  | test condition e => exact keeps_scoping_test fits holding
  | eval expr e => exact keeps_scoping_eval fits holding
  | evalAll es e => exact keeps_scoping_evalAll fits holding

/-- Every run keeps the discipline. -/
theorem kept_scoping (honest : host.Honest holds) {root : Activity σ} :
    (scoping all holds host root).Kept host root :=
  fun fuel t Λ Q m visited allowed holding =>
    have kept : (mirroring all holds host (root.Activates host)).Kept host root :=
      kept_mirroring honest fun fuel _ e m visited => ⟨fuel, e, m, visited, rfl⟩
    ((kept fuel t Λ Q m visited allowed holding).imp_blame fun _ _ _ => And.left).withBlames _

end Steps

/-! ### Whole programs -/

/-- No slot is bound in two frames of an environment. -/
def Heap.BindsOnce (h : Heap) (e : Environment) : Prop :=
  ∀ s, (e.chain.filter (h.binds s)).length ≤ 1

section BindsOnce

variable {h : Heap} {e : Environment} {s : Slot} {a b : Address}

/-- The only frame along an environment that binds a slot. -/
lemma Heap.BindsOnce.eq (once : h.BindsOnce e) (ha : a ∈ e.chain) (bound : h.binds s a = true)
    (hb : b ∈ e.chain) (bound' : h.binds s b = true) : b = a := by
  have two := once s
  have ha' : a ∈ e.chain.filter (h.binds s) := List.mem_filter.2 ⟨ha, bound⟩
  have hb' : b ∈ e.chain.filter (h.binds s) := List.mem_filter.2 ⟨hb, bound'⟩
  obtain ⟨d, eq⟩ := List.length_eq_one_iff.1
    (Nat.le_antisymm two (List.length_pos_of_mem ha'))
  rw [eq, List.mem_singleton] at ha' hb'
  rw [ha', hb']

/-- A slot that is bound once along an environment is read from the frame that binds it. -/
lemma Heap.BindsOnce.get?_eq (once : h.BindsOnce e) (ha : a ∈ e.chain)
    (bound : h.binds s a = true) : h.get? e s = (h.frame a).get? s := by
  obtain ⟨v, got⟩ := Option.isSome_iff_exists.1 (Heap.get?_isSome.2 ⟨a, ha, bound⟩)
  obtain ⟨b, hb, found⟩ := Heap.get?_eq_some got
  have bound' : h.binds s b = true := by rw [Heap.binds, found]; rfl
  rw [got, ← found, once.eq ha bound hb bound']

end BindsOnce

/-- A slot is one of the program, and it is bound along an environment if it is
the slot of a global, a class, a parameter, a field or a receiver. -/
def Program.Script.Finds (script : Script) (h : Heap) (e : Environment) (s : Slot) : Prop :=
  s ∈ script.slots ∧ ∀ role, (s, role) ∈ script.roles → role ≠ .var → (h.get? e s).isSome

/-- A slot is a variable of a block that is activated around an environment. It
is not bound there, for its statement has not been executed in that activation. -/
def Program.Script.Awaits (script : Script) (host : Host σ) (fuel : Nat) (start m : Machine σ)
    (e : Environment) (s : Slot) : Prop :=
  (s, .var) ∈ script.roles ∧ m.heap.get? e s = none ∧ ∃ a ∈ e.chain,
    (∃ fuel' b e' m', script.Visits host fuel start ⟨fuel', .block b e', m'⟩ ∧
      m'.heap.frames.size = a ∧ s ∈ b.vars) ∧
    ∀ fuel' init line e' m' c m'',
      script.Visits host fuel start ⟨fuel', .stmt (.var s init line) e', m'⟩ → e'.own = a →
        (Task.stmt (.var s init line) e').run host fuel' m' ≠ .done c m''

section Whole

variable {holds : σ → Value → Prop} {host : Host σ}

/-- The frame of the globals is complete before the program runs. -/
lemma fits_entered (honest : host.Honest holds) {st : σ} (initially : ∀ v, holds st v → v.IsPlain)
    (script : Script) :
    (script.entered host).Succeeds ⟨.empty, st⟩ fun e m => e = ⟨0, []⟩ ∧
      m.Fits script.roles holds ⟨[.globals script.globals]⟩ [] := by
  have empty : (⟨.empty, st⟩ : Machine σ).Fits script.roles holds ⟨[]⟩ [] := by
    refine ⟨rfl, (fun l hl => nomatch hl), fun a s v got => ?_, (fun a l s at_a => ?_),
      fun v hv => (initially v hv).fits⟩
    · rw [Heap.frame_of_le (Nat.zero_le a)] at got
      exact nomatch got
    · exact nomatch (List.getElem?_nil.symm.trans at_a : none = some l)
  have globals (Λ : Layers) (e : Environment) (gs : List (Slot × String)) :
      ∀ m : Machine σ, m.Fits script.roles holds Λ (gs.map fun g => (e.own, g.1)) →
        (∀ g ∈ gs, g.1 ∈ Λ.slotsAt e.own) →
          (bindGlobals host e gs).Succeeds m fun _ m' => m'.Fits script.roles holds Λ [] := by
    induction gs with
    | nil => exact fun m fits _ => .pure fits
    | cons g gs ih =>
      intro m fits hs
      refine (fits.declare _ (hs g (List.mem_cons_self ..))
        (honest.isPlain_global g.2).fits).bind fun _ m' fits' => ?_
      exact ih m' fits' fun g hg => hs g (List.mem_cons_of_mem _ hg)
  refine (empty.root (l := .globals script.globals) (List.subset_append_left _ _)).bind
    fun e m₁ fits₁ => ?_
  obtain ⟨rfl, fits₁⟩ := fits₁
  have slots : (Layers.mk [Layer.globals script.globals]).slotsAt 0 =
      script.globals.map Prod.fst := by
    rw [Layers.slotsAt, Layers.at?, List.getElem?_cons_zero, Option.elim_some]
    simp [Layer.slots, Layer.roles, Function.comp_def]
  refine (globals _ ⟨0, []⟩ script.globals m₁ ?_ fun g hg => ?_).bind fun _ m₂ fits₂ =>
    .pure ⟨rfl, fits₂⟩
  · refine fits₁.leave fun x hx => ?_
    simpa [Layer.firm, Layer.slots, Layer.roles, Layers.size] using hx
  · rw [slots]
    exact List.mem_map_of_mem hg

/-- Where there is no frame but that of the globals, all values are plain. -/
lemma Value.Fits.isPlain {all : List (Slot × SlotRole)} {gs : List (Slot × String)} {v : Value}
    (fits : v.Fits all ⟨[.globals gs]⟩) : v.IsPlain := by
  have globals {a : Address} {l : Layer}
      (at_a : (Layers.mk [.globals gs]).at? a = some l) : l = .globals gs :=
    List.mem_singleton.1 (List.mem_of_getElem? at_a)
  cases v with
  | cls c => cases globals fits.1
  | obj i => cases globals fits.own
  | null | boolean _ | number _ | text _ | host _ => trivial

/-- No slot is bound twice along an environment that code stands in. -/
lemma Machine.Fits.bindsOnce {all roles : List (Slot × SlotRole)} {Λ : Layers} {m : Machine σ}
    {e : Environment} {mentions : List Slot → Prop} (fits : m.Fits all holds Λ [])
    (placed : Λ.Placed all e.chain mentions roles) : m.heap.BindsOnce e := by
  intro s
  have counted (chain : List Address) :
      (chain.filter (m.heap.binds s)).length ≤ (Λ.visible chain).count s := by
    induction chain with
    | nil => exact Nat.zero_le _
    | cons a rest ih =>
      rw [Layers.visible, List.flatMap_cons, List.count_append, List.filter_cons]
      rw [Layers.visible] at ih
      split
      · next bound =>
        obtain ⟨v, got⟩ := Option.isSome_iff_exists.1 bound
        have := List.count_pos_iff.2 (fits.bound a s v got).1
        rw [List.length_cons]
        omega
      · omega
  have room := placed.room s
  have := counted e.chain
  omega

/-- A visible slot of a program is bound unless it is a variable. -/
lemma finds_of_visible {root : Activity σ} {script : Script} (once : script.slots.Nodup)
    {Λ : Layers} {m : Machine σ} {e : Environment} {s : Slot}
    (holding : (scoping script.roles holds host root).Holds Λ m)
    (visible : s ∈ Λ.visible e.chain) : script.Finds m.heap e s := by
  obtain ⟨a, -, l, at_a, hs⟩ := Layers.mem_visible.1 visible
  obtain ⟨r, hr, rfl⟩ := List.mem_map.1 hs
  refine ⟨List.mem_map_of_mem (holding.1.declared l (List.mem_of_getElem? at_a) hr),
    fun role declared other => ?_⟩
  by_contra unbound
  rw [Option.not_isSome_iff_eq_none] at unbound
  have var := (lacks_of_get?_eq_none holding visible unbound).1
  exact other (congrArg Prod.snd (List.inj_on_of_nodup_map once declared var rfl))

/-- The outermost block of a program stands in the frame of its globals. -/
lemma placed_root (globals : List String) (program : List Syntax.Stmt) :
    let script := (resolve globals program).1
    (Layers.mk [.globals script.globals]).Placed script.roles [0] (script.root.Closed false)
      script.root.roles := by
  intro script
  have visible : (Layers.mk [.globals script.globals]).visible [0] =
      script.globals.map Prod.fst := by
    rw [Layers.visible_cons rfl]
    simp [Layers.visible, Layer.slots, Layer.roles, Function.comp_def]
  refine ⟨fun a ha => ?_, ?_, fun s => ?_, List.subset_append_right _ _⟩
  · rw [List.mem_singleton.1 ha]
    exact Nat.zero_lt_one
  · rw [visible]
    exact resolve_closed globals program fun h => by cases h
  · have once := List.nodup_iff_count_le_one.1 (resolve_nodup globals program) s
    have slots : script.slots = script.globals.map Prod.fst ++ script.root.roles.map Prod.fst := by
      simp [Script.slots, Script.roles, Function.comp_def]
    change script.slots.count s ≤ 1 at once
    rwa [slots, List.count_append, ← visible] at once

/-- Where an undefined slot is to blame on a variable, the statement of the
variable has not been executed. -/
lemma awaits_of_lacks {script : Script} {fuel : Nat} {start m₀ m' : Machine σ}
    {e₀ e : Environment} {s : Slot} (entered : script.entered host start = .done e₀ m₀)
    (last : (Activity.outcome host ⟨fuel, .block script.root e₀, m₀⟩).machine? = some m')
    (known : ∀ fuel' t e m, script.Visits host fuel start ⟨fuel', .stmt t e, m⟩ →
      e.own < m.heap.frames.size)
    (lacks : Activity.Lacks script.roles host ⟨fuel, .block script.root e₀, m₀⟩ m' e s) :
    script.Awaits host fuel start m' e s := by
  obtain ⟨var, unbound, a, ha, b, ⟨fuel', e', m, visited, size⟩, hb⟩ := lacks
  refine ⟨var, unbound, a, ha,
    ⟨fuel', b, e', m, (Script.visits_iff entered).2 visited, size, hb⟩, ?_⟩
  intro fuel₁ init line e₁ m₁ c m₂ visited₁ own done
  obtain ⟨m₃, ended, grows⟩ := ((Script.visits_iff entered).1 visited₁).grows last
  rw [Activity.outcome, done] at ended
  cases ended
  have bound := grows.binds s a (own ▸ binds_var (known _ _ _ _ visited₁) done)
  have := Heap.get?_isSome.2 ⟨a, ha, bound⟩
  rw [unbound] at this
  exact Bool.noConfusion this

/-- A task that is to blame for an undefined slot is a call of a method of the
host, or it reads or assigns the slot. -/
lemma blames_undefinedSlot {all : List (Slot × SlotRole)} {active : Block → Address → Prop}
    {b : Activity σ} {err : RuntimeError} {m : Machine σ} {s : Slot}
    (blamed : b.task.Blames all host active err m)
    (cause : err.cause = .undefinedSlot s) :
    (∃ o name arguments line, b = ⟨b.fuel, .call (.host o) name arguments line, b.machine⟩ ∧
      host.FailsWith o ⟨name, arguments.map List.length⟩ err.cause) ∨
    ∃ expr e, b = ⟨b.fuel, .eval expr e, b.machine⟩ ∧
      (∃ line, expr = .read s line ∨ ∃ value, expr = .assign s value line) ∧
        m.Lacks all active e s := by
  obtain ⟨fuel, task, m₀⟩ := b
  cases task with
  | call receiver name arguments line =>
    cases receiver with
    | host o =>
      rcases blamed with other | fails
      · exact absurd cause (other s)
      · exact .inl ⟨o, name, arguments, line, rfl, fails⟩
    | null | boolean _ | number _ | text _ | cls _ | obj _ => exact absurd cause (blamed s)
  | eval expr e =>
    cases expr with
    | read t line =>
      obtain ⟨own, lacks⟩ := blamed
      cases cause.symm.trans own
      exact .inr ⟨_, e, rfl, ⟨line, .inl rfl⟩, lacks⟩
    | assign t value line =>
      obtain ⟨own, lacks⟩ := blamed
      cases cause.symm.trans own
      exact .inr ⟨_, e, rfl, ⟨line, .inr ⟨value, rfl⟩⟩, lacks⟩
    | call _ _ _ _ | literal _ _ | logical _ _ _ _ | cls _ => exact absurd cause (blamed s)
  | body _ _ _ | block _ _ | stmts _ _ | stmt _ _ | loop _ _ _ | test _ _ | evalAll _ _ =>
    exact absurd cause (blamed s)

/-- A run of a whole program keeps the discipline from its outermost block on. -/
lemma scoping_of_entered (honest : host.Honest holds) {st : σ}
    (initially : ∀ v, holds st v → v.IsPlain) (globals : List String)
    (program : List Syntax.Stmt) (fuel : Nat) :
    let script := (resolve globals program).1
    ∃ m₀, script.entered host ⟨.empty, st⟩ = .done ⟨0, []⟩ m₀ ∧
      let root : Activity σ := ⟨fuel, .block script.root ⟨0, []⟩, m₀⟩
      ∃ Λ, root.task.Fits script.roles Λ ∧ (scoping script.roles holds host root).Holds Λ m₀ := by
  intro script
  obtain ⟨e₀, m₀, entered, rfl, fits₀⟩ := fits_entered honest initially script
  refine ⟨m₀, entered, ⟨[.globals script.globals]⟩, placed_root globals program, fits₀,
    fun a b at_a => ?_⟩
  have := List.mem_singleton.1 (List.mem_of_getElem? at_a)
  exact nomatch this

/-- Wherever a run of a program comes, what is asked for stands there. -/
lemma scoping_of_visits (honest : host.Honest holds) {st : σ}
    (initially : ∀ v, holds st v → v.IsPlain) (globals : List String)
    (program : List Syntax.Stmt) (fuel : Nat) {b : Activity σ}
    (visited : (resolve globals program).1.Visits host fuel ⟨.empty, st⟩ b) :
    ∃ root Λ, b.task.Fits (resolve globals program).1.roles Λ ∧
      (scoping (resolve globals program).1.roles holds host root).Holds Λ b.machine ∧
        root.Visits host b := by
  obtain ⟨m₀, entered, Λ₀, fits₀, holding₀⟩ :=
    scoping_of_entered honest initially globals program fuel
  let root : Activity σ := ⟨fuel, .block (resolve globals program).1.root ⟨0, []⟩, m₀⟩
  have visited : root.Visits host b := (Script.visits_iff entered).1 visited
  have kept : (scoping (resolve globals program).1.roles holds host root).Kept host root :=
    kept_scoping honest
  obtain ⟨Λ, Q, ⟨fits, -⟩, holding⟩ := kept.allows ⟨fits₀, rfl⟩ holding₀ visited
  exact ⟨root, Λ, fits, holding, visited⟩

/-- The frames that running code sees mirror the scopes that its names were
resolved in. Whatever mistakes a program has, and whatever an honest host does:
where an expression is evaluated no slot is bound in two frames; what is read, or
assigned once its value is there, is a slot of the program, and it is bound
unless it is a variable; and if the run fails for an undefined slot, and not
because a method of the host says so, then the slot is read or assigned where it
is a variable of a block that is activated around, and its statement has not been
executed in that activation. -/
theorem scopes_mirrored (honest : host.Honest holds) {st : σ}
    (initially : ∀ v, holds st v → v.IsPlain) (globals : List String)
    (program : List Syntax.Stmt) (fuel : Nat) :
    let script := (resolve globals program).1
    let start : Machine σ := ⟨.empty, st⟩
    (∀ fuel' expr e m, script.Visits host fuel start ⟨fuel', .eval expr e, m⟩ →
      m.heap.BindsOnce e) ∧
    (∀ fuel' s line e m, script.Visits host fuel start ⟨fuel', .eval (.read s line) e, m⟩ →
      script.Finds m.heap e s) ∧
    (∀ fuel' s value line e m v m',
      script.Visits host fuel start ⟨fuel' + 1, .eval (.assign s value line) e, m⟩ →
        eval host fuel' value e m = .done v m' → script.Finds m'.heap e s) ∧
    (∀ err m' s, interpret host fuel script start = .failed err m' →
      err.cause = .undefinedSlot s →
        (∃ fuel' o name arguments line m,
          script.Visits host fuel start ⟨fuel', .call (.host o) name arguments line, m⟩ ∧
            host.FailsWith o ⟨name, arguments.map List.length⟩ err.cause) ∨
        ∃ fuel' expr e m, script.Visits host fuel start ⟨fuel', .eval expr e, m⟩ ∧
          (∃ line, expr = .read s line ∨ ∃ value, expr = .assign s value line) ∧
            script.Awaits host fuel start m' e s) := by
  intro script start
  have standing := @scoping_of_visits σ holds host honest st initially globals program fuel
  have once : script.slots.Nodup := resolve_nodup globals program
  refine ⟨fun fuel' expr e m h => ?_, fun fuel' s line e m h => ?_,
    fun fuel' s value line e m v m' h done => ?_, fun err m' s failed cause => ?_⟩
  · obtain ⟨root, Λ, fits, holding, -⟩ := standing h
    exact holding.1.bindsOnce fits
  · obtain ⟨root, Λ, fits, holding, -⟩ := standing h
    -- a read closed in the slots around it finds its frame
    have placed : Λ.Placed script.roles e.chain ((Expr.read s line).Closed false) _ := fits
    exact finds_of_visible once holding placed.closed
  · obtain ⟨root, Λ, fits, holding, visited⟩ := standing h
    -- the value is evaluated first, and what it leaves is where the slot must be found
    have placed : Λ.Placed script.roles e.chain ((Expr.assign s value line).Closed false)
      value.roles := fits
    have value' : (Task.eval value e).Fits script.roles Λ :=
      placed.part (fun closed => closed.2) (List.Sublist.refl _)
    have visited : root.Visits host ⟨fuel', .eval value e, m⟩ :=
      visited.tail ⟨fuel', rfl, .here ..⟩
    have kept : (scoping script.roles holds host root).Kept host root := kept_scoping honest
    have ends := kept.ends fuel' _ Λ _ m visited ⟨value', rfl⟩ holding
    rw [Task.run, done] at ends
    obtain ⟨Λ', grown, holding', -⟩ := ends
    exact finds_of_visible once holding' (placed.mono grown).closed.1
  · obtain ⟨m₀, entered, Λ₀, fits₀, holding₀⟩ :=
      scoping_of_entered honest initially globals program fuel
    let root : Activity σ := ⟨fuel, .block script.root ⟨0, []⟩, m₀⟩
    have kept : (scoping script.roles holds host root).Kept host root := kept_scoping honest
    -- a failure is that of the block, or of a return out of it
    rcases interpret_failed failed entered with block | ⟨v, line, -, rfl⟩
    · have ends := kept.ends fuel _ Λ₀ _ m₀ .refl ⟨fits₀, rfl⟩ holding₀
      rw [block] at ends
      obtain ⟨b, Λ, visited, -, blamed⟩ := ends
      have visited := (Script.visits_iff entered).2 visited
      have last : (root.outcome host).machine? = some m' := by
        rw [Activity.outcome, block]
        rfl
      -- the frames of all environments on the way exist
      have known (fuel' : Nat) (t : Stmt) (e : Environment) (m : Machine σ)
          (h : script.Visits host fuel start ⟨fuel', .stmt t e, m⟩) :
          e.own < m.heap.frames.size := by
        obtain ⟨root, Λ, ⟨placed, -⟩, holding, -⟩ := standing h
        rw [holding.1.size]
        exact placed.known e.own (List.mem_cons_self ..)
      rcases blames_undefinedSlot blamed cause with
        ⟨o, name, arguments, line, eq, fails⟩ | ⟨expr, e, eq, mention, lacks⟩
      · exact .inl ⟨b.fuel, o, name, arguments, line, b.machine, eq ▸ visited, fails⟩
      · exact .inr ⟨b.fuel, expr, e, b.machine, eq ▸ visited, mention,
          awaits_of_lacks entered last known lacks⟩
    · cases cause

end Whole

/-- A static method that is called before the statement of the variable that it
reads. -/
def earlyCall : List Syntax.Stmt :=
  [.eval (.call (.variable ⟨"A", 1⟩) ⟨"f", 1⟩ (some []) none),
   .var ⟨"x", 2⟩ (some (.literal .nil 2)),
   .cls ⟨"A", 3⟩ [⟨.onClass, ⟨"f", 3⟩, some [], [.ret (some (.variable ⟨"x", 4⟩)) 4]⟩]]

/-- With the standard host the run of such a program awaits the variable. -/
theorem scopes_mirrored_earlyCall :
    let host := Host.standard (fun c : Console => c) fun c _ => c
    let script := (resolve host.names earlyCall).1
    let start : Machine Console := ⟨.empty, .empty none⟩
    host.Honest (fun _ _ => False) ∧ ∃ m' e,
      interpret host 20 script start = .failed ⟨4, .undefinedSlot ⟨2⟩⟩ m' ∧
        script.Awaits host 20 start m' e ⟨2⟩ := by
  intro host script start
  have honest := Host.honest_standard (fun c : Console => c) fun c _ => c
  have failed : (interpret host 20 script start).error? = some ⟨4, .undefinedSlot ⟨2⟩⟩ := by
    decide +kernel
  obtain ⟨m', failed⟩ := Outcome.error?_eq_some.1 failed
  have initially (v : Value) (h : False) : v.IsPlain := h.elim
  obtain ⟨-, -, -, undefined⟩ := scopes_mirrored honest initially host.names earlyCall 20
  rcases undefined _ m' _ failed rfl with
    ⟨_, o, _, _, _, _, _, run, arguments, st, found, fails⟩ | ⟨_, _, e, _, _, _, awaits⟩
  · obtain ⟨message, h⟩ := Host.failsInWords_standard _ _ o _ run found arguments st _ fails
    exact nomatch h
  · exact ⟨honest, m', e, failed, awaits⟩

end Ember
