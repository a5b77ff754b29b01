/-
A program whose types are consistent is called only in ways that it understands.

* `Machine.Typed`: every slot holds a value of its type;
* `Task.Typed`: what is asked of the interpreter is well typed, and the answer has a
  property that all values of its type have;
* `Task.MayFail`: which failures a task may be blamed for;
* `typing`: the discipline that says so, `kept_typing` that a run keeps it unless it
  calls a method of null;
* `type_soundness`: the main theorem.
-/
import Mathlib
import Ember.Proofs.Run.Entry
import Ember.Proofs.Run.Frames
import Ember.Proofs.Run.Values
import Ember.Report

namespace Ember

open Program

variable {σ : Type} {T : Inference}

/-! ### Typed machines -/

/-- Every slot that has a type holds a value of that type. -/
def Machine.Typed (T : Inference) (m : Machine σ) : Prop :=
  ∀ a s v t, (m.heap.frame a).get? s = some v → T.slot? s = some t → v.Typed T t

namespace Machine.Typed

variable {m : Machine σ} (typed : m.Typed T)
include typed

/-- A new frame binds nothing that has a type. -/
lemma child (e : Environment) :
    (Run.child e).Succeeds m fun _ m' => m'.Typed T := by
  refine ⟨_, _, rfl, fun a s v t got => typed a s v t ?_⟩
  rw [← m.heap.frame_newChild e a]
  exact got

/-- A slot may be bound to a value of its type. -/
lemma putAt {s : Slot} {v : Value} (fit : ∀ t, T.slot? s = some t → v.Typed T t) (a : Address) :
    ({ m with heap := m.heap.putAt a s v } : Machine σ).Typed T := by
  intro b s' v' t got slot
  rcases Heap.get?_frame_putAt got with ⟨-, rfl, rfl⟩ | got
  · exact fit t slot
  · exact typed b s' v' t got slot

/-- A slot may be bound to a value of its type. -/
lemma declare {s : Slot} {v : Value} (fit : ∀ t, T.slot? s = some t → v.Typed T t)
    (e : Environment) : (Run.declare e s v).Succeeds m fun _ m' => m'.Typed T :=
  ⟨(), _, rfl, typed.putAt fit e.own⟩

/-- Null has every type that a slot is declared with. -/
lemma declareNull (e : Environment) (ss : List (Slot × String)) :
    (Run.declareNull e ss).Succeeds m fun _ m' => m'.Typed T := by
  induction ss generalizing m with
  | nil => exact .pure typed
  | cons s ss ih =>
    exact (typed.declare (fun t _ => .null T t) e).bind fun _ _ typed' => ih typed'

/-- Slots may be bound to values of their types one by one. -/
lemma declareEach {ss : List Slot} {vs : List Value} {ts : List TypeId} (slots : T.Slots ss ts)
    (given : List.Forall₂ (Value.Typed T) vs ts) (e : Environment) :
    (Run.declareEach e ss vs).Succeeds m fun _ m' => m'.Typed T := by
  induction slots generalizing m vs with
  | nil =>
    cases given
    exact .pure typed
  | @cons s t ss ts slot _ ih =>
    cases given with
    | @cons v _ vs _ first rest =>
      have fit : ∀ u, T.slot? s = some u → v.Typed T u := by
        intro u hu
        rw [slot] at hu
        cases hu
        exact first
      exact (typed.declare fit e).bind fun _ _ typed' => ih typed' rest

/-- A class that is made has the types of its declaration. -/
lemma makeClass {decl : ClassDecl} {S I : TypeId} (hc : decl.Typed T S I) (e : Environment) :
    (Ember.makeClass decl e).Succeeds m fun c m' => m'.Typed T ∧
      ∀ t, T.slot? decl.staticReceiver = some t → (Value.cls c).Typed T t := by
  refine (typed.child e).bind fun statics m₁ typed₁ => ?_
  refine (typed₁.declareNull statics decl.staticFields).bind fun _ m₂ typed₂ => ?_
  have fit : ∀ t, T.slot? decl.staticReceiver = some t →
      (Value.cls ⟨decl, statics⟩).Typed T t := by
    intro t ht
    refine .inr ⟨S, ⟨I, hc⟩, ?_⟩
    obtain ⟨name, line, receiver, staticReceiver, constructors, staticMethods, methods, fields,
      staticFields⟩ := decl
    obtain ⟨_, _, _, _, _, ⟨slot, -, below⟩, -⟩ := hc
    rw [slot] at ht
    cases ht
    exact below
  exact (typed₂.declare fit statics).bind fun _ m₃ typed₃ => .pure ⟨typed₃, fit⟩

/-- The classes of a block have the types of their declarations. -/
lemma makeClasses {cs : List (Slot × ClassDecl)} (hcs : classTyped T cs) (e : Environment) :
    (Ember.makeClasses e cs).Succeeds m fun _ m' => m'.Typed T := by
  induction cs generalizing m with
  | nil => exact .pure typed
  | cons c cs ih =>
    obtain ⟨s, decl⟩ := c
    obtain ⟨⟨S, I, hc⟩, slot, hcs⟩ := hcs
    refine (typed.makeClass hc e).bind fun c m₁ ⟨typed₁, fit⟩ => ?_
    exact (typed₁.declare (fun t ht => fit t (slot ▸ ht)) e).bind fun _ m₂ typed₂ => ih typed₂ hcs

/-- An instance that is made has the types of its class. -/
lemma makeInstance {c : ClassObject} {S I : TypeId} (hc : c.decl.Typed T S I) :
    (Ember.makeInstance c).Succeeds m fun i m' => m'.Typed T ∧ i.cls = c := by
  refine (typed.child c.statics).bind fun e m₁ typed₁ => ?_
  refine (typed₁.declareNull e c.decl.fields).bind fun _ m₂ typed₂ => ?_
  have fit : ∀ t, T.slot? c.decl.receiver = some t → (Value.obj ⟨c, e⟩).Typed T t := by
    intro t ht
    refine .inr ⟨I, ⟨S, hc⟩, ?_⟩
    obtain ⟨⟨name, line, receiver, staticReceiver, constructors, staticMethods, methods, fields,
      staticFields⟩, statics⟩ := c
    obtain ⟨_, _, _, _, _, -, ⟨slot, -, below⟩, -⟩ := hc
    rw [slot] at ht
    cases ht
    exact below
  exact (typed₂.declare fit e).bind fun _ m₃ typed₃ => .pure ⟨typed₃, rfl⟩

end Machine.Typed

/-! ### The discipline -/

/-- A statement that ends with a value of a type, or with none. -/
def Completion.Typed (T : Inference) (t : TypeId) : Completion → Prop
  | .normal => True
  | .returned v _ => v.Typed T t

/-- What a statement returns has every type that its type flows into. -/
lemma Completion.Typed.flow (h : T.Consistent) {c : Completion} {t u : TypeId}
    (typed : c.Typed T t) (flows : T.Flows t u) : c.Typed T u := by
  cases c with
  | normal => trivial
  | returned v line => exact Value.Typed.flow h typed flows

/-- What is asked of the interpreter is well typed, and whatever has the type of the
answer is as promised. -/
def Task.Typed (T : Inference) : {α : Type} → Task α → (α → Prop) → Prop
  | _, .call receiver name arguments _, Q =>
    ∃ r params t, receiver.Typed T r ∧ T.Asks r ⟨name, arguments.map List.length⟩ params t ∧
      List.Forall₂ (Value.Typed T) (arguments.getD []) (params.getD []) ∧
        ∀ v : Value, v.Typed T t → Q v
  | _, .body m _ arguments, Q =>
    ∃ sig, m.Typed T sig ∧
      List.Forall₂ (Value.Typed T) (arguments.getD []) (sig.params.getD []) ∧
        ∀ v : Value, v.Typed T sig.result → Q v
  | _, .block b _, Q => ∃ t, b.Typed T t ∧ ∀ c : Completion, c.Typed T t → Q c
  | _, .stmts ss _, Q => ∃ t, stmtTyped T ss t ∧ ∀ c : Completion, c.Typed T t → Q c
  | _, .stmt s _, Q => ∃ t, s.Typed T t ∧ ∀ c : Completion, c.Typed T t → Q c
  | _, .loop condition inner _, Q =>
    ∃ t, (∀ line, (Stmt.loop condition inner line).Typed T t) ∧ ∀ c : Completion, c.Typed T t → Q c
  | _, .test condition _, Q =>
    (∃ t, condition.Typed T t ∧ T.Flows t T.builtins.boolean) ∧ ∀ b : Bool, Q b
  | _, .eval expr _, Q => ∃ t, expr.Typed T t ∧ ∀ v : Value, v.Typed T t → Q v
  | _, .evalAll es _, Q =>
    ∃ ts, exprTyped T es ts ∧ ∀ vs, List.Forall₂ (Value.Typed T) vs ts → Q vs

/-- A call of a method of a plain value, on some line, whose argument is null. -/
def Task.TakesNull : {α : Type} → Task α → Line → Prop
  | _, .call receiver _ arguments line, line' =>
    (NativeClass.of? receiver).isSome ∧ (∃ rest, arguments = some (.null :: rest)) ∧ line = line'
  | _, _, _ => False

/-- The failures that types do not exclude. An operand is wrong only if it is null. -/
def Task.MayFail {α : Type} (t : Task α) (err : RuntimeError) : Prop :=
  (∀ receiver method, err.cause ≠ .notImplemented receiver method) ∧
    err.cause ≠ .nonBooleanCondition ∧
      (err.cause = .rightOperandNumber ∨ err.cause = .rightOperandText → t.TakesNull err.line)

/-- The discipline of a run whose slots hold values of their types. -/
def typing (σ : Type) (T : Inference) : Discipline σ Unit where
  Holds _ m := m.Typed T
  Allows := fun _ _ t Q => t.Typed T (Q ())
  Blames := fun _ _ t err _ => t.MayFail err

/-! ### Every run keeps the discipline -/

section Steps

variable {host : Host σ} {m : Machine σ} {e : Environment}

/-- A task keeps the discipline where it starts. -/
abbrev KeepsTyping (T : Inference) (host : Host σ) {α : Type} (t : Task α) (m : Machine σ)
    (Q : α → Prop) : Prop :=
  (typing σ T).Keeps (fun _ err _ => t.MayFail err) (t.plan host) () m fun _ => Q

/-- A method of a plain value whose operand has the type that it asks for answers
with a value of its result's type, and the operand is null if it is wrong. -/
lemma meets_typed (h : T.Consistent) {run : NativeMethod} {c answer : NativeClass}
    {operand : Option NativeClass} (meets : run.Meets c operand answer) {sig : Signature}
    (agrees : sig.Agrees T.builtins (operand, answer)) {receiver : Value}
    (own : NativeClass.of? receiver = some c) {arguments : List Value}
    (given : List.Forall₂ (Value.Typed T) arguments (sig.params.getD [])) :
    (∃ v, run receiver arguments = .ok v ∧ v.Typed T sig.result) ∨
      ∃ cause, run receiver arguments = .error cause ∧ (cause = .overflow ∨
        cause = .divisionByZero ∨ (cause = .rightOperandNumber ∨ cause = .rightOperandText) ∧
          ∃ rest, arguments = .null :: rest) := by
  obtain ⟨result, params⟩ := agrees
  have null {d : NativeClass} (hd : operand = some d) (hlabel : d ≠ .null)
      (wrong : ∀ v rest, arguments = v :: rest → NativeClass.of? v ≠ some d) :
      ∃ rest, arguments = .null :: rest := by
    have one := params d hd
    cases hl : d.label? T.builtins with
    | none => cases d <;> first | exact absurd rfl hlabel | cases hl
    | some l =>
      rw [hl] at one
      rw [one] at given
      cases given with
      | @cons v _ vs _ first rest =>
        rcases first.of_label h hl with rfl | kind
        · exact ⟨vs, rfl⟩
        · exact absurd kind (wrong v vs rfl)
  cases hrun : run receiver arguments with
  | ok v => exact .inl ⟨v, rfl, .native (meets.ok receiver arguments v own hrun) result⟩
  | error cause =>
    refine .inr ⟨cause, rfl, ?_⟩
    rcases meets.error receiver arguments cause own hrun with
      rfl | rfl | ⟨hd, rfl, wrong⟩ | ⟨hd, rfl, wrong⟩
    · exact .inl rfl
    · exact .inr (.inl rfl)
    · exact .inr (.inr ⟨.inl rfl, null hd nofun wrong⟩)
    · exact .inr (.inr ⟨.inr rfl, null hd nofun wrong⟩)

/-- The type of a result is a variable. -/
lemma Program.Method.Typed.isVar {method : Method} {sig : Signature} (typed : method.Typed T sig) :
    T.IsVar sig.result := by
  obtain ⟨name, params, names, body, line⟩ := method
  exact typed.1.2 _ (List.mem_append_right _ (List.mem_singleton_self _))

/-- A native method is called with values of the types that it has. -/
lemma keeps_typing_native (h : T.Consistent) {receiver : Value} {name : String}
    {arguments : Option (List Value)} {line : Line} {Q : Value → Prop} {c : NativeClass}
    (own : NativeClass.of? receiver = some c) (null : receiver ≠ .null)
    (typed : (Task.call receiver name arguments line).Typed T Q) (holds : m.Typed T) :
    KeepsTyping T host (.call receiver name arguments line) m Q := by
  obtain ⟨r, params, t, hr, asks, given, promise⟩ := typed
  obtain ⟨run, operand, answer, sig, found, meets, agrees, fits⟩ :=
    offers_native h asks own null hr
  have simple : T.Simple sig.result := .inr (.inr (NativeClass.isLabel agrees.1))
  obtain ⟨given', flows⟩ := fit_call h asks fits simple given
  have plan : (Task.call receiver name arguments line).plan host =
      Plan.step (Run.ofExcept line (run receiver (arguments.getD []))) := by
    cases receiver with
    | cls _ | obj _ | host _ => cases own
    | null | boolean _ | number _ | text _ =>
      cases own
      simp only [Task.plan, NativeClass.of?, Option.bind_some, found]
  rw [KeepsTyping, plan]
  rcases meets_typed h meets agrees own given' with ⟨v, ok, hv⟩ | ⟨cause, failed, why⟩
  · rw [ok]
    exact .finish rfl le_rfl holds (promise v (hv.flow h flows))
  · rw [failed]
    refine .fail rfl ⟨?_, ?_, fun wrong => ?_⟩
    · rintro x y rfl
      rcases why with why | why | ⟨why | why, -⟩ <;> cases why
    · rintro rfl
      rcases why with why | why | ⟨why | why, -⟩ <;> cases why
    · have null : ∃ rest, arguments.getD [] = .null :: rest := by
        rcases why with rfl | rfl | ⟨-, why⟩
        · rcases wrong with h | h <;> cases h
        · rcases wrong with h | h <;> cases h
        · exact why
      obtain ⟨rest, hrest⟩ := null
      cases arguments with
      | none => cases hrest
      | some vs =>
        cases hrest
        exact ⟨Option.isSome_iff_exists.2 ⟨c, own⟩, ⟨rest, rfl⟩, rfl⟩

/-- A call finds a method that takes its arguments, and answers with a value of its type. -/
lemma keeps_typing_call (h : T.Consistent) {receiver : Value} {name : String}
    {arguments : Option (List Value)} {line : Line} {Q : Value → Prop} (null : receiver ≠ .null)
    (typed : (Task.call receiver name arguments line).Typed T Q) (holds : m.Typed T) :
    KeepsTyping T host (.call receiver name arguments line) m Q := by
  cases receiver with
  | null => exact absurd rfl null
  | boolean b => exact keeps_typing_native h rfl null typed holds
  | number n => exact keeps_typing_native h rfl null typed holds
  | text s => exact keeps_typing_native h rfl null typed holds
  | host o =>
    obtain ⟨r, params, t, hr, -⟩ := typed
    obtain ⟨p, ⟨c, own, -⟩, -⟩ := hr.resolve_left nofun
    cases own
  | cls c =>
    obtain ⟨r, params, t, hr, asks, given, promise⟩ := typed
    obtain ⟨method, sig, hm, fits, found⟩ := offers_class h asks hr
    obtain ⟨given', flows⟩ := fit_call h asks fits hm.isVar.simple given
    obtain ⟨p, ⟨I, hc⟩, -⟩ := hr.resolve_left nofun
    rw [KeepsTyping, Task.plan]
    rcases found with ⟨found, made⟩ | ⟨none, found⟩
    · simp only [found]
      obtain ⟨i, m₁, run, typed₁, cls⟩ := holds.makeInstance hc
      refine .step run (.start (fun _ _ => True) le_rfl typed₁
        ⟨sig, hm, given', fun _ _ => trivial⟩ fun _ m₂ _ _ typed₂ _ => .pure le_rfl typed₂ ?_)
      exact promise _ ((made i cls).flow h flows)
    · simp only [none, found]
      exact .last le_rfl holds ⟨sig, hm, given', fun v hv => promise v (hv.flow h flows)⟩
  | obj i =>
    obtain ⟨r, params, t, hr, asks, given, promise⟩ := typed
    obtain ⟨method, sig, hm, fits, found⟩ := offers_instance h asks hr
    obtain ⟨given', flows⟩ := fit_call h asks fits hm.isVar.simple given
    rw [KeepsTyping, Task.plan]
    simp only [found]
    exact .last le_rfl holds ⟨sig, hm, given', fun v hv => promise v (hv.flow h flows)⟩

/-- A body answers with a value of the type of its result. -/
lemma keeps_typing_body (h : T.Consistent) {method : Method} {arguments : Option (List Value)}
    {Q : Value → Prop} (typed : (Task.body method e arguments).Typed T Q) (holds : m.Typed T) :
    KeepsTyping T host (.body method e arguments) m Q := by
  obtain ⟨sig, hm, given, promise⟩ := typed
  obtain ⟨name, params, names, body, line⟩ := method
  obtain ⟨-, slots, t, hbody, flows⟩ := hm
  obtain ⟨frame, m₁, run₁, typed₁⟩ := holds.child e
  obtain ⟨_, m₂, run₂, typed₂⟩ := typed₁.declareEach slots given frame
  refine .step run₁ (.step run₂ (.start (fun _ c => c.Typed T t) le_rfl typed₂
    ⟨t, hbody, fun _ hc => hc⟩ fun _ m₃ c _ typed₃ hc => ?_))
  cases c with
  | normal => exact .pure le_rfl typed₃ (promise _ (.null T _))
  | returned v line => exact .pure le_rfl typed₃ (promise v (Value.Typed.flow h hc flows))

/-- A block returns values of its type. -/
lemma keeps_typing_block {b : Block} {Q : Completion → Prop}
    (typed : (Task.block b e).Typed T Q) (holds : m.Typed T) :
    KeepsTyping T host (.block b e) m Q := by
  obtain ⟨t, hb, promise⟩ := typed
  obtain ⟨ss, names, cs⟩ := b
  obtain ⟨hss, hcs⟩ := hb
  obtain ⟨frame, m₁, run₁, typed₁⟩ := holds.child e
  obtain ⟨_, m₂, run₂, typed₂⟩ := typed₁.makeClasses hcs frame
  exact .step run₁ (.step run₂ (.last le_rfl typed₂ ⟨t, hss, promise⟩))

/-- Statements return values of the type that theirs flow into. -/
lemma keeps_typing_stmts (h : T.Consistent) {ss : List Stmt} {Q : Completion → Prop}
    (typed : (Task.stmts ss e).Typed T Q) (holds : m.Typed T) :
    KeepsTyping T host (.stmts ss e) m Q := by
  obtain ⟨t, hss, promise⟩ := typed
  cases ss with
  | nil => exact .pure le_rfl holds (promise _ trivial)
  | cons s ss =>
    obtain ⟨⟨u, hs, flows⟩, hss⟩ := hss
    refine .start (fun _ c => c.Typed T u) le_rfl holds ⟨u, hs, fun _ hc => hc⟩
      fun _ m₁ c _ typed₁ hc => ?_
    cases c with
    | normal => exact .last le_rfl typed₁ ⟨t, hss, promise⟩
    | returned v line => exact .pure le_rfl typed₁ (promise _ (hc.flow h flows))

/-- A statement returns values of its type. -/
lemma keeps_typing_stmt (h : T.Consistent) {s : Stmt} {Q : Completion → Prop}
    (typed : (Task.stmt s e).Typed T Q) (holds : m.Typed T) :
    KeepsTyping T host (.stmt s e) m Q := by
  obtain ⟨t, hs, promise⟩ := typed
  cases s with
  | block b => exact .last le_rfl holds ⟨t, hs, promise⟩
  | branch condition yes no line =>
    cases no with
    | none =>
      obtain ⟨hcondition, ⟨u, hyes, yesFlows⟩, -⟩ := hs
      refine .start (fun _ _ => True) le_rfl holds ⟨hcondition, fun _ => trivial⟩
        fun _ m₁ c _ typed₁ _ => ?_
      cases c with
      | true => exact .last le_rfl typed₁ ⟨u, hyes, fun c hc => promise c (hc.flow h yesFlows)⟩
      | false => exact .pure le_rfl typed₁ (promise _ trivial)
    | some no =>
      obtain ⟨hcondition, ⟨u, hyes, yesFlows⟩, v, hno, noFlows⟩ := hs
      refine .start (fun _ _ => True) le_rfl holds ⟨hcondition, fun _ => trivial⟩
        fun _ m₁ c _ typed₁ _ => ?_
      cases c with
      | true => exact .last le_rfl typed₁ ⟨u, hyes, fun c hc => promise c (hc.flow h yesFlows)⟩
      | false => exact .last le_rfl typed₁ ⟨v, hno, fun c hc => promise c (hc.flow h noFlows)⟩
  | loop condition inner line => exact .last le_rfl holds ⟨t, fun _ => hs, promise⟩
  | var slot init line =>
    -- what a variable is given is of the type of its slot, null if there is no initializer
    have declared {v : Value} {m₁ : Machine σ} (typed₁ : m₁.Typed T)
        (fit : ∀ t, T.slot? slot = some t → v.Typed T t) :
        (typing σ T).Keeps (fun _ err _ => (Task.stmt (.var slot init line) e).MayFail err) (do
          Plan.step (Run.declare e slot v)
          return Completion.normal) () m₁ fun _ => Q := by
      obtain ⟨_, m₂, run, typed₂⟩ := typed₁.declare fit e
      exact .step run (.pure le_rfl typed₂ (promise _ trivial))
    cases init with
    | none => exact declared (v := .null) holds fun t _ => .null T t
    | some init =>
      obtain ⟨u, v, hinit, slot', flows⟩ := hs
      refine .start (fun _ w => w.Typed T u) le_rfl holds ⟨u, hinit, fun _ hw => hw⟩
        fun _ m₁ w _ typed₁ hw => declared typed₁ fun t ht => ?_
      -- the slot has a single type, that of the declaration
      rw [slot'] at ht
      cases ht
      exact hw.flow h flows
  | ret value line =>
    cases value with
    | none => exact .pure le_rfl holds (promise _ (.null T t))
    | some value =>
      exact .start (fun _ v => v.Typed T t) le_rfl holds ⟨t, hs, fun _ hv => hv⟩
        fun _ m₁ v _ typed₁ hv => .pure le_rfl typed₁ (promise _ hv)
  | eval expr =>
    obtain ⟨u, hexpr⟩ := hs
    exact .start (fun _ _ => True) le_rfl holds ⟨u, hexpr, fun _ _ => trivial⟩
      fun _ m₁ v _ typed₁ _ => .pure le_rfl typed₁ (promise _ trivial)

/-- A loop returns values of the type of its body. -/
lemma keeps_typing_loop (h : T.Consistent) {condition : Expr} {inner : Stmt}
    {Q : Completion → Prop} (typed : (Task.loop condition inner e).Typed T Q)
    (holds : m.Typed T) : KeepsTyping T host (.loop condition inner e) m Q := by
  obtain ⟨t, hs, promise⟩ := typed
  obtain ⟨hcondition, u, hinner, flows⟩ := hs 0
  refine .start (fun _ _ => True) le_rfl holds ⟨hcondition, fun _ => trivial⟩
    fun _ m₁ c _ typed₁ _ => ?_
  cases c with
  | false => exact .pure le_rfl typed₁ (promise _ trivial)
  | true =>
    refine .start (fun _ c => c.Typed T u) le_rfl typed₁ ⟨u, hinner, fun _ hc => hc⟩
      fun _ m₂ c _ typed₂ hc => ?_
    cases c with
    | normal => exact .last le_rfl typed₂ ⟨t, hs, promise⟩
    | returned v line => exact .pure le_rfl typed₂ (promise _ (hc.flow h flows))

/-- A condition is a boolean. -/
lemma keeps_typing_test (h : T.Consistent) {condition : Expr} {Q : Bool → Prop}
    (typed : (Task.test condition e).Typed T Q) (holds : m.Typed T) :
    KeepsTyping T host (.test condition e) m Q := by
  obtain ⟨⟨t, hcondition, flows⟩, promise⟩ := typed
  refine .start (fun _ v => v.Typed T t) le_rfl holds ⟨t, hcondition, fun _ hv => hv⟩
    fun _ m₁ v _ typed₁ hv => ?_
  rcases (hv.flow h flows).of_label h (c := .boolean) rfl with rfl | kind
  · exact .fail rfl ⟨by rintro _ _ ⟨⟩, by rintro ⟨⟩, by rintro (h | h) <;> cases h⟩
  · cases v with
    | boolean b => exact .pure le_rfl typed₁ (promise b)
    | null | number _ | text _ | cls _ | obj _ | host _ => cases kind

/-- An expression is evaluated to a value of its type. -/
lemma keeps_typing_eval (h : T.Consistent) {expr : Expr} {Q : Value → Prop}
    (typed : (Task.eval expr e).Typed T Q) (holds : m.Typed T) :
    KeepsTyping T host (.eval expr e) m Q := by
  obtain ⟨t, hexpr, promise⟩ := typed
  cases expr with
  | assign target value line =>
    obtain ⟨hvalue, u, slot, flows⟩ := hexpr
    refine .start (fun _ v => v.Typed T t) le_rfl holds ⟨t, hvalue, fun _ hv => hv⟩
      fun _ m₁ v _ typed₁ hv => ?_
    have fit : ∀ w, T.slot? target = some w → v.Typed T w := by
      intro w hw
      rw [slot] at hw
      cases hw
      exact hv.flow h flows
    rcases Run.assign_cases e target v line m₁ with ⟨a, -, run⟩ | ⟨-, run⟩
    · exact .step run (.pure le_rfl (typed₁.putAt fit a) (promise v hv))
    · exact .failFirst run ⟨by rintro _ _ ⟨⟩, by rintro ⟨⟩, by rintro (h | h) <;> cases h⟩
  | call receiver name arguments line =>
    cases arguments with
    | none =>
      obtain ⟨r, hreceiver, asks⟩ := hexpr
      exact .start (fun _ v => v.Typed T r) le_rfl holds ⟨r, hreceiver, fun _ hv => hv⟩
        fun _ m₁ v _ typed₁ hv => .last le_rfl typed₁ ⟨r, none, t, hv, asks, .nil, promise⟩
    | some es =>
      obtain ⟨r, hreceiver, ts, params, hes, flows, asks⟩ := hexpr
      refine .start (fun _ v => v.Typed T r) le_rfl holds ⟨r, hreceiver, fun _ hv => hv⟩
        fun _ m₁ v _ typed₁ hv => ?_
      refine .start (fun _ vs => List.Forall₂ (Value.Typed T) vs ts) le_rfl typed₁
        ⟨ts, hes, fun _ hvs => hvs⟩ fun _ m₂ vs _ typed₂ hvs => ?_
      -- as many arguments are passed as there are parameters in the demand
      rw [← length_of_exprTyped hes, ← hvs.length_eq] at asks
      exact .last le_rfl typed₂ ⟨r, some params, t, hv, asks, typed_flow h hvs flows, promise⟩
  | literal value line =>
    refine .pure le_rfl holds (promise _ ?_)
    cases value with
    | nil => exact .null T t
    | number _ | text _ | boolean _ => exact .native rfl (congrArg some hexpr.symm)
  | read s line =>
    -- whatever is written in a slot is of its type, and only that can be read
    rcases Run.get_cases e s line m with ⟨v, got, run⟩ | ⟨-, run⟩
    · obtain ⟨a, -, got⟩ := Heap.get?_eq_some got
      exact .finish run le_rfl holds (promise v (holds a s v t got hexpr))
    · exact .fail run ⟨by rintro _ _ ⟨⟩, by rintro ⟨⟩, by rintro (h | h) <;> cases h⟩
  | logical op left right line => exact hexpr.elim
  | cls decl =>
    obtain ⟨S, I, hdecl, slot⟩ := hexpr
    obtain ⟨c, m₁, run, typed₁, fit⟩ := holds.makeClass hdecl e
    exact .step run (.pure le_rfl typed₁ (promise _ (fit t slot)))

/-- Expressions are evaluated to values of their types. -/
lemma keeps_typing_evalAll {es : List Expr} {Q : List Value → Prop}
    (typed : (Task.evalAll es e).Typed T Q) (holds : m.Typed T) :
    KeepsTyping T host (.evalAll es e) m Q := by
  obtain ⟨ts, hes, promise⟩ := typed
  cases es with
  | nil =>
    cases hes
    exact .pure le_rfl holds (promise _ .nil)
  | cons expr rest =>
    obtain ⟨t, ts, rfl, hexpr, hrest⟩ := hes
    refine .start (fun _ v => v.Typed T t) le_rfl holds ⟨t, hexpr, fun _ hv => hv⟩
      fun _ m₁ v _ typed₁ hv => ?_
    exact .start (fun _ vs => List.Forall₂ (Value.Typed T) vs ts) le_rfl typed₁
      ⟨ts, hrest, fun _ hvs => hvs⟩ fun _ m₂ vs _ typed₂ hvs =>
        .pure le_rfl typed₂ (promise _ (.cons hv hvs))

/-- Every run that calls no method of null keeps the discipline. -/
theorem kept_typing (h : T.Consistent) {root : Activity σ}
    (nonNull : ∀ fuel name arguments line m,
      ¬root.Visits host ⟨fuel, .call .null name arguments line, m⟩) :
    (typing σ T).Kept host root := by
  intro α fuel t _ Q m visited typed holds
  have keeps : KeepsTyping T host t m (Q ()) := by
    cases t with
    | call receiver name arguments line =>
      refine keeps_typing_call h ?_ typed holds
      rintro rfl
      exact nonNull _ _ _ _ _ visited
    | body method e arguments => exact keeps_typing_body h typed holds
    | block b e => exact keeps_typing_block typed holds
    | stmts ss e => exact keeps_typing_stmts h typed holds
    | stmt s e => exact keeps_typing_stmt h typed holds
    | loop condition inner e => exact keeps_typing_loop h typed holds
    | test condition e => exact keeps_typing_test h typed holds
    | eval expr e => exact keeps_typing_eval h typed holds
    | evalAll es e => exact keeps_typing_evalAll typed holds
  exact keeps

end Steps

/-! ### Whole programs -/

/-- A run never calls a method of null. -/
def Program.Script.AvoidsNull (script : Script) (host : Host σ) (fuel : Nat) (start : Machine σ) :
    Prop :=
  ∀ fuel' name arguments line m,
    ¬script.Visits host fuel start ⟨fuel', .call .null name arguments line, m⟩

/-- The globals hold null before the program runs, if the host supplies none. -/
lemma typed_entered (T : Inference) (script : Script) (st : σ) :
    (script.entered .empty).Succeeds ⟨.empty, st⟩ fun _ m => m.Typed T := by
  have empty : (⟨.empty, st⟩ : Machine σ).Typed T := by
    intro a s v t got
    rw [Heap.frame_of_le (Nat.zero_le a)] at got
    exact nomatch got
  have bound (e : Environment) (globals : List (Slot × String)) {m : Machine σ}
      (typed : m.Typed T) : (bindGlobals .empty e globals).Succeeds m fun _ m' => m'.Typed T := by
    induction globals generalizing m with
    | nil => exact .pure typed
    | cons g globals ih =>
      exact (typed.declare (fun t _ => .null T t) e).bind fun _ _ typed' => ih typed'
  have root : (Run.root : Run σ Environment).Succeeds ⟨.empty, st⟩ fun _ m => m.Typed T := by
    refine ⟨_, _, rfl, fun a s v t got => empty a s v t ?_⟩
    rw [← Heap.empty.frame_newRoot a]
    exact got
  exact root.bind fun e _ typed => (bound e script.globals typed).bind fun _ _ typed' =>
    .pure typed'

/-- Inference says nothing about a program without connectives only if its types are
consistent. -/
lemma consistent_of_resolve (globals : List String) {program : List Syntax.Stmt}
    (unconnected : Syntax.stmtUnconnected program)
    (clean : typeDiagnostics [] (resolve globals program).1 = []) :
    let script := (resolve globals program).1
    let T := inferScript [] script
    T.Consistent ∧ ∃ t, script.root.Typed T t := by
  intro script T
  obtain ⟨valid, typed⟩ := inferScript_typed (resolve_nodup globals program)
    (resolve_closed globals program nofun) (resolve_plain globals unconnected)
  exact ⟨⟨valid, List.map_eq_nil_iff.1 clean⟩, typed⟩

/-- A program without connectives about whose types there is nothing to report never
lacks a method or tests anything but booleans, as long as no method of null is
called. If an operand is wrong then it is null, in a call of a method of a plain
value that fails for that reason. -/
theorem type_soundness {program : List Syntax.Stmt}
    (unconnected : Syntax.stmtUnconnected program) {st : σ} {fuel : Nat} :
    let host : Host σ := .empty
    let script := (resolve host.names program).1
    let start : Machine σ := ⟨.empty, st⟩
    typeDiagnostics host.types script = [] → script.AvoidsNull host fuel start →
      ∀ err m', interpret host fuel script start = .failed err m' →
        (∀ receiver method, err.cause ≠ .notImplemented receiver method) ∧
        err.cause ≠ .nonBooleanCondition ∧
        (err.cause = .rightOperandNumber ∨ err.cause = .rightOperandText →
          ∃ fuel' receiver name rest m,
            script.Visits host fuel start
              ⟨fuel', .call receiver name (some (.null :: rest)) err.line, m⟩ ∧
            call host fuel' receiver name (some (.null :: rest)) err.line m = .failed err m' ∧
            (NativeClass.of? receiver).isSome) := by
  intro host script start clean nonNull err m' failed
  obtain ⟨consistent, t, typed⟩ := consistent_of_resolve host.names unconnected clean
  obtain ⟨e₀, m₀, entered, typed₀⟩ := typed_entered (inferScript [] script) script st
  let root : Activity σ := ⟨fuel, .block script.root e₀, m₀⟩
  -- what the block visits calls no method of null, so the types hold throughout
  have kept : (typing σ (inferScript [] script)).Kept host root :=
    kept_typing consistent fun _ _ _ _ _ visited =>
      nonNull _ _ _ _ _ ((Script.visits_iff entered).2 visited)
  rcases interpret_failed failed entered with block | ⟨v, line, -, rfl⟩
  · have ends := kept.ends fuel _ () (fun _ _ => True) m₀ .refl
      ⟨t, typed, fun _ _ => trivial⟩ typed₀
    rw [block] at ends
    obtain ⟨⟨fuel', task, m⟩, -, visited, fails, missing, untested, operand⟩ := ends
    refine ⟨missing, untested, fun wrong => ?_⟩
    -- only a call can be blamed for a wrong operand
    have blamed := operand wrong
    cases task with
    | call receiver name arguments line =>
      obtain ⟨own, ⟨rest, rfl⟩, rfl⟩ := blamed
      exact ⟨fuel', receiver, name, rest, m, (Script.visits_iff entered).2 visited, fails, own⟩
    | body _ _ _ | block _ _ | stmts _ _ | stmt _ _ | loop _ _ _ | test _ _ | eval _ _
    | evalAll _ _ => exact blamed.elim
  · exact ⟨nofun, nofun, fun wrong => absurd wrong nofun⟩

/-- Whether a task is a call of a method of null. -/
def Task.callsNull : {α : Type} → Task α → Bool
  | _, .call .null _ _ _ => true
  | _, _ => false

/-- Whether a run is seen to call no method of null. -/
def Program.Script.seenToAvoidNull (script : Script) (host : Host σ) (fuel : Nat)
    (start : Machine σ) : Bool :=
  match script.entered host start with
  | .done e m => ((Task.block script.root e).visited host fuel m).all fun b => !b.task.callsNull
  | .failed _ _ | .exhausted => true

/-- That no method of null is called can be seen from a run. -/
lemma Program.Script.avoidsNull_of_seen {script : Script} {host : Host σ} {fuel : Nat}
    {start : Machine σ} (seen : script.seenToAvoidNull host fuel start = true) :
    script.AvoidsNull host fuel start := by
  rintro fuel' name arguments line m ⟨e₀, m₀, entered, visited⟩
  rw [seenToAvoidNull, entered] at seen
  exact absurd (List.all_eq_true.1 seen _ visited.mem_visited) (by simp [Task.callsNull])

/-- A counter is made, and null is added to it. -/
def addsNull : List Syntax.Stmt :=
  [.cls ⟨"Counter", 1⟩
    [⟨.construct, ⟨"new", 2⟩, some [⟨"start", 2⟩],
        [.eval (.assign (.field ⟨"count", 2⟩) (.variable ⟨"start", 2⟩) 2)]⟩,
      ⟨.onInstance, ⟨"add", 3⟩, some [⟨"n", 3⟩],
        [.ret (some (.call (.field ⟨"count", 3⟩) ⟨"+", 3⟩ (some [.variable ⟨"n", 3⟩]) none)) 3]⟩],
    .var ⟨"counter", 4⟩ (some (.call (.variable ⟨"Counter", 4⟩) ⟨"new", 4⟩
      (some [.literal (.number ⟨1, by decide, by decide⟩) 4]) none)),
    .eval (.call (.variable ⟨"counter", 5⟩) ⟨"add", 5⟩ (some [.literal .nil 5]) none)]

/-- The sum fails, and it is the call that adds null which does. -/
theorem type_soundness_addsNull :
    let host : Host Unit := .empty
    let script := (resolve host.names addsNull).1
    let start : Machine Unit := ⟨.empty, ()⟩
    Syntax.stmtUnconnected addsNull ∧ typeDiagnostics host.types script = [] ∧
      script.AvoidsNull host 13 start ∧
      ∃ m', interpret host 13 script start = .failed ⟨3, .rightOperandNumber⟩ m' ∧
        ∃ fuel' receiver name rest m,
          script.Visits host 13 start
            ⟨fuel', .call receiver name (some (.null :: rest)) 3, m⟩ ∧
          call host fuel' receiver name (some (.null :: rest)) 3 m =
            .failed ⟨3, .rightOperandNumber⟩ m' ∧
          (NativeClass.of? receiver).isSome := by
  intro host script start
  have unconnected : Syntax.stmtUnconnected addsNull := by
    simp [addsNull, Syntax.stmtUnconnected, Syntax.Stmt.Unconnected, Syntax.methodUnconnected,
      Syntax.Expr.Unconnected, Syntax.exprUnconnected]
  have clean : typeDiagnostics [] (resolve [] addsNull).1 = [] := by cbv
  have nonNull : script.AvoidsNull host 13 start :=
    Script.avoidsNull_of_seen (by decide +kernel)
  have failed : (interpret host 13 script start).error? = some ⟨3, .rightOperandNumber⟩ := by
    decide +kernel
  obtain ⟨m', failed⟩ := Outcome.error?_eq_some.1 failed
  obtain ⟨-, -, operand⟩ := type_soundness unconnected clean nonNull _ m' failed
  exact ⟨unconnected, clean, nonNull, m', failed, operand (.inl rfl)⟩

end Ember
