/-
What is watched in a run so that fields are assigned before they are read.

* `Program.ClassDecl.Discreet`: the bodies of the instances of a class make no classes
  and mention `this` only as the receiver of calls;
* `Activity.Mirrored`: no slot is bound twice around running code; `mirrored_of_visits`
  finds runs of resolved programs to be such;
* `Task.Outside`, `Task.Inside`: what is asked of the interpreter by code that sees no
  instance of the class, and by the bodies of one;
* `FlowState.Sound`: what a walk takes to be assigned is;
* `Task.Allowed`: where each of these may be started, with which promise;
* `Event.Fair`: a field is read only when it has been assigned; `priming` is the watch
  that asks for all of this.
-/
import Mathlib
import Ember.Proofs.Run.Custody

namespace Ember

open Program

variable {σ : Type} {α : Type}

/-! ### Discreet classes -/

namespace Program

mutual

/-- An expression that makes no class and mentions the slot of `this` only as the
receiver of a call. -/
def Expr.Discreet (this : Slot) : Expr → Prop
  | .assign target value _ => target ≠ this ∧ value.Discreet this
  | .call receiver _ arguments _ =>
    (receiver = .read this receiver.line ∨ receiver.Discreet this) ∧
      (match arguments with | none => True | some es => exprDiscreet this es)
  | .literal _ _ => True
  | .read s _ => s ≠ this
  | .logical _ left right _ => left.Discreet this ∧ right.Discreet this
  | .cls _ => False

/-- Discreet expressions. -/
def exprDiscreet (this : Slot) : List Expr → Prop
  | [] => True
  | e :: es => e.Discreet this ∧ exprDiscreet this es

/-- A statement of discreet expressions that declares no class. -/
def Stmt.Discreet (this : Slot) : Stmt → Prop
  | .block body => body.Discreet this
  | .branch condition yes no _ =>
    condition.Discreet this ∧ yes.Discreet this ∧
      (match no with | none => True | some s => s.Discreet this)
  | .loop condition body _ => condition.Discreet this ∧ body.Discreet this
  | .var _ init _ => match init with | none => True | some e => e.Discreet this
  | .ret value _ => match value with | none => True | some e => e.Discreet this
  | .eval e => e.Discreet this

/-- Discreet statements. -/
def stmtDiscreet (this : Slot) : List Stmt → Prop
  | [] => True
  | s :: ss => s.Discreet this ∧ stmtDiscreet this ss

/-- A block of discreet statements that declares no class. -/
def Block.Discreet (this : Slot) : Block → Prop
  | ⟨statements, _, classes⟩ => classes = [] ∧ stmtDiscreet this statements

end

variable {this : Slot}

/-- The receiver of a discreet call is `this` or discreet itself, and so are the arguments. -/
lemma Expr.discreet_call {receiver : Expr} {name : String} {arguments : Option (List Expr)}
    {line : Line} (h : (Expr.call receiver name arguments line).Discreet this) :
    (receiver = .read this receiver.line ∨ receiver.Discreet this) ∧
      exprDiscreet this (arguments.getD []) := by
  cases arguments with
  | none => exact ⟨h.1, trivial⟩
  | some es => exact h

/-- The constructors of a class and the methods of its instances make no classes and use
`this` only as the receiver of calls. -/
def ClassDecl.Discreet (c : ClassDecl) : Prop :=
  ∀ m ∈ c.constructors ++ c.methods, m.body.Discreet c.receiver

end Program

/-! ### Look-ups where no slot is bound twice -/

namespace Heap

variable {h : Heap} {e : Environment} {s : Slot} {a b : Address}

/-- The only frame that binds a slot is the nearest one that does. -/
lemma BindsOnce.nearest? (once : h.BindsOnce e) (ha : a ∈ e.chain)
    (bound : h.binds s a = true) : h.nearest? e s = some a := by
  obtain ⟨b, near⟩ := Option.isSome_iff_exists.1
    (isSome_nearest?.2 (get?_isSome.2 ⟨a, ha, bound⟩))
  have found := nearest?_eq_some near
  rw [near, once.eq ha bound found.1 found.2]

/-- A slot that is assigned stays bound nearest where it was. -/
lemma nearest?_putAt (near : h.nearest? e s = some a) (v : Value) :
    (h.putAt a s v).nearest? e s = some a := by
  have bound := (nearest?_eq_some near).2
  rw [← near, Heap.nearest?, Heap.nearest?]
  refine congrArg (fun p => e.chain.find? p) (funext fun b => ?_)
  cases same : h.binds s b with
  | true => exact binds_putAt same a s v
  | false =>
    rw [binds, frame_putAt, if_neg fun eq => ?_]
    · exact same
    · rw [eq.1, bound] at same
      exact Bool.noConfusion same

end Heap

/-- Code of a run sees no slot bound twice, and a variable is not bound around the frame
that it is declared in. -/
structure Activity.Mirrored (host : Host σ) (root : Activity σ) : Prop where
  evaluated : ∀ fuel expr e m, root.Visits host ⟨fuel, .eval expr e, m⟩ → m.heap.BindsOnce e
  assigned : ∀ fuel s value line e m v m',
    root.Visits host ⟨fuel + 1, .eval (.assign s value line) e, m⟩ →
      (Task.eval value e).run host fuel m = .done v m' → m'.heap.BindsOnce e
  declared : ∀ fuel s init line e m a, root.Visits host ⟨fuel, .stmt (.var s init line) e, m⟩ →
    a ∈ e.outer → m.heap.binds s a = false

/-- Runs of resolved programs are such. -/
lemma mirrored_of_visits {all : List (Slot × SlotRole)} {holds : σ → Value → Prop} {host : Host σ}
    (honest : host.Honest holds) {root : Activity σ} {Λ : Layers}
    (fits : root.task.Fits all Λ) (holding : (scoping all holds host root).Holds Λ root.machine) :
    root.Mirrored host := by
  have kept : (scoping all holds host root).Kept host root := kept_scoping honest
  have standing {b : Activity σ} (visited : root.Visits host b) : ∃ Λ, b.task.Fits all Λ ∧
      (scoping all holds host root).Holds Λ b.machine := by
    obtain ⟨Λ, Q, ⟨fits, -⟩, holding⟩ := kept.allows ⟨fits, rfl⟩ holding visited
    exact ⟨Λ, fits, holding⟩
  refine ⟨fun fuel expr e m visited => ?_, fun fuel s value line e m v m' visited done => ?_,
    fun fuel s init line e m a visited ha => ?_⟩
  · obtain ⟨Λ, fits, holding⟩ := standing visited
    exact holding.1.bindsOnce fits
  · obtain ⟨Λ, fits, holding⟩ := standing visited
    have placed : Λ.Placed all e.chain ((Expr.assign s value line).Closed false) value.roles := fits
    have value' : (Task.eval value e).Fits all Λ :=
      placed.part (fun closed => closed.2) (List.Sublist.refl _)
    have ends := kept.ends fuel (.eval value e) Λ _ m (visited.tail ⟨fuel, rfl, .here ..⟩)
      ⟨value', rfl⟩ holding
    rw [done] at ends
    obtain ⟨Λ', grown, holding', -⟩ := ends
    exact holding'.1.bindsOnce (placed.mono grown)
  · obtain ⟨Λ, ⟨placed, own⟩, holding⟩ := standing visited
    have here : s ∈ Λ.slotsAt e.own := own (List.mem_singleton_self s)
    by_contra bound
    rw [Bool.not_eq_false] at bound
    obtain ⟨v, got⟩ := Option.isSome_iff_exists.1 bound
    have there : s ∈ Λ.slotsAt a := (holding.1.bound a s v got).1
    have room := placed.room s
    rw [Environment.chain, Layers.visible, List.flatMap_cons, List.count_append] at room
    have first := List.count_pos_iff.2 here
    have second : 0 < (e.outer.flatMap Λ.slotsAt).count s :=
      List.count_pos_iff.2 (List.mem_flatMap.2 ⟨a, ha, there⟩)
    omega

/-! ### What is asked of the interpreter -/

/-- A statement that ends with a clear value, or with none. -/
def Completion.Clear (c : ClassDecl) (K : List Slot) (x : Point σ) : Completion → Prop
  | .normal => True
  | .returned v _ => v.Clear c K x

/-- What is asked by code that sees no instance of the class, or by a call of a clear
value, with clear arguments. -/
def Task.Outside (c : ClassDecl) (K : List Slot) (x : Point σ) : {α : Type} → Task α → Prop
  | _, .call receiver _ arguments _ =>
    receiver.Clear c K x ∧ ∀ v ∈ arguments.getD [], v.Clear c K x
  | _, .body _ e arguments => e.Apart c x ∧ ∀ v ∈ arguments.getD [], v.Clear c K x
  | _, .block _ e | _, .stmts _ e | _, .stmt _ e | _, .loop _ _ e | _, .test _ e | _, .eval _ e
  | _, .evalAll _ e => e.Apart c x

/-- What is asked by a discreet body of an instance of the class. -/
def Task.Inside (c : ClassDecl) (x : Point σ) (i : Instance) : {α : Type} → Task α → Prop
  | _, .call _ _ _ _ | _, .body _ _ _ => False
  | _, .block b e => b.Discreet c.receiver ∧ e.Within c x i
  | _, .stmts ss e => stmtDiscreet c.receiver ss ∧ e.Within c x i
  | _, .stmt s e => s.Discreet c.receiver ∧ e.Within c x i
  | _, .loop condition inner e =>
    (condition.Discreet c.receiver ∧ inner.Discreet c.receiver) ∧ e.Within c x i
  | _, .test condition e => condition.Discreet c.receiver ∧ e.Within c x i
  | _, .eval expr e => expr.Discreet c.receiver ∧ e.Within c x i
  | _, .evalAll es e => exprDiscreet c.receiver es ∧ e.Within c x i

/-- The values that a task answers with are clear, one for each expression. -/
def Task.Yields (c : ClassDecl) (K : List Slot) (x : Point σ) : {α : Type} → Task α → α → Prop
  | _, .call _ _ _ _, v | _, .body _ _ _, v | _, .eval _ _, v => v.Clear c K x
  | _, .block _ _, r | _, .stmts _ _, r | _, .stmt _ _, r | _, .loop _ _ _, r => r.Clear c K x
  | _, .test _ _, _ => True
  | _, .evalAll es _, vs => vs.length = es.length ∧ ∀ v ∈ vs, v.Clear c K x

/-- The walk over the code that a task is about. -/
def Task.walk (ctx : FlowContext) (w : Walk) : {α : Type} → Task α → Walk
  | _, .call _ _ _ _ | _, .body _ _ _ => w
  | _, .block b _ => b.flow ctx w
  | _, .stmts ss _ => stmtFlow ctx ss w
  | _, .stmt s _ => s.flow ctx w
  | _, .loop condition inner _ =>
    (inner.flow ctx (condition.flow ctx w)).resume (condition.flow ctx w).state
  | _, .test condition _ => condition.flow ctx w
  | _, .eval expr _ => expr.flow ctx w
  | _, .evalAll es _ => exprFlow ctx es w

/-- The state that a walk foresees for the way in which a statement ends. -/
def Completion.state (w : Walk) : Completion → FlowState
  | .normal => w.state
  | .returned _ _ => w.exit

/-- The state that a walk foresees for the answer of a task. -/
def Task.ending (w : Walk) : {α : Type} → Task α → α → FlowState
  | _, .block _ _, r | _, .stmts _ _, r | _, .stmt _ _, r | _, .loop _ _ _, r => r.state w
  | _, .call _ _ _ _, _ | _, .body _ _ _, _ | _, .test _ _, _ | _, .eval _ _, _
  | _, .evalAll _ _, _ => w.state

section Watching

variable {c : ClassDecl} {S : Summaries} {K : List Slot} {x y : Point σ} {a : Address}

/-- What a state takes to be assigned has been assigned, and the point that it describes
is one that control can reach. -/
def FlowState.Sound (c : ClassDecl) (x : Point σ) (a : Address) (st : FlowState) : Prop :=
  st.reachable = true ∧ ∀ f ∈ c.fieldSlots, f ∈ st.assigned → x.Wrote a f

/-- What has been assigned at a point is assigned at every later one. -/
lemma FlowState.Sound.mono {st : FlowState} (h : x ≤ y) (sound : st.Sound c x a) :
    st.Sound c y a :=
  ⟨sound.1, fun f hf assigned => (sound.2 f hf assigned).mono h⟩

/-- A state that takes less to be assigned is sound as well. -/
lemma FlowState.Sound.weaken {st st' : FlowState} (sound : st.Sound c x a)
    (weakens : st'.Weakens st) : st'.Sound c x a :=
  ⟨(weakens sound.1).1, fun f hf assigned => sound.2 f hf ((weakens sound.1).2 assigned)⟩

/-- The fields that are found to be read early have been assigned all the same. -/
def Excused (c : ClassDecl) (x : Point σ) (a : Address) (found : List Finding) : Prop :=
  ∀ f ∈ found, f.slot ∈ c.fieldSlots → x.Wrote a f.slot

lemma Excused.mono {found : List Finding} (h : x ≤ y) (excused : Excused c x a found) :
    Excused c y a found := fun f hf hc => (excused f hf hc).mono h

lemma Excused.subset {found found' : List Finding} (excused : Excused c x a found')
    (sub : found ⊆ found') : Excused c x a found := fun f hf hc => excused f (sub hf) hc

/-- Where each task may be started, with which promise about its answer.
* Code that sees no instance of the class asks for what it likes, and gets clear values.
* A body of an instance is followed by a walk: what the walk takes to be assigned is, and
  it stays so.
* A body may ask for its receiver, to call it.
* A call of a body's own method needs what the summary of the method requires.
* A body that is entered assigns what its walk has found that it does. -/
inductive Task.Allowed (c : ClassDecl) (S : Summaries) (K : List Slot) (x : Point σ) :
    {α : Type} → Task α → (Point σ → α → Prop) → Prop where
  | outside {α : Type} {t : Task α} (h : t.Outside c K x) :
      Task.Allowed c S K x t fun y r => t.Yields c K y r
  | inside {α : Type} {t : Task α} {i : Instance} {ctx : FlowContext} {w : Walk}
      (follows : ctx.Follows c S) (h : t.Inside c x i) (sound : w.state.Sound c x i.env.own)
      (excused : Excused c x i.env.own (t.walk ctx w).found) :
      Task.Allowed c S K x t fun y r =>
        t.Yields c K y r ∧ (t.ending (t.walk ctx w) r).Sound c y i.env.own
  | this {e : Environment} {line : Line} {i : Instance} (within : e.Within c x i)
      (wrote : c.receiver ∈ c.fieldSlots → x.Wrote i.env.own c.receiver) :
      Task.Allowed c S K x (.eval (.read c.receiver line) e) fun y v =>
        ∃ j, v = .obj j ∧ j.Sits c y ∧ j.env.own = i.env.own
  | own {i : Instance} {name : String} {arguments : Option (List Value)} {line : Line}
      (sits : i.Sits c x) (given : ∀ v ∈ arguments.getD [], v.Clear c K x)
      (requires : ∀ s, S.lookup ⟨name, arguments.map List.length⟩ = some s →
        ∀ f ∈ s.requires, f ∈ c.fieldSlots → x.Wrote i.env.own f) :
      Task.Allowed c S K x (.call (.obj i) name arguments line) fun y v => v.Clear c K y ∧
        ∀ s, S.lookup ⟨name, arguments.map List.length⟩ = some s →
          ∀ f ∈ s.assigns, f ∈ c.fieldSlots → y.Wrote i.env.own f
  | body {i : Instance} {m : Method} {arguments : Option (List Value)}
      {entry needs gives : List Slot} (sits : i.Sits c x)
      (given : ∀ v ∈ arguments.getD [], v.Clear c K x) (discreet : m.body.Discreet c.receiver)
      (meets : m.Meets c S entry needs gives)
      (assigned : ∀ f ∈ entry ++ needs, f ∈ c.fieldSlots → x.Wrote i.env.own f) :
      Task.Allowed c S K x (.body m i.env arguments) fun y v => v.Clear c K y ∧
        ∀ f ∈ gives, f ∈ c.fieldSlots → y.Wrote i.env.own f

/-- A field of an instance of the class is read only when it has been assigned. -/
def Event.Fair (c : ClassDecl) (past : List Event) : Event → Prop
  | .read a s => ∀ i, .made i ∈ past → i.cls.decl = c → i.env.own = a → s ∈ c.fieldSlots →
      .wrote a s ∈ past
  | .made _ | .wrote _ _ => True

/-- The watch over a class whose fields are assigned before they are read. -/
def priming (c : ClassDecl) (S : Summaries) (K : List Slot) (holds : σ → Value → Prop) :
    Watch σ where
  Holds x := x.Primed c K holds
  Allows x _ t Q := t.Allowed c S K x Q
  Admits := Event.Fair c

end Watching

end Ember
