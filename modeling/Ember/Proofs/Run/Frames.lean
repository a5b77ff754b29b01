/-
What the primitive steps of a run do to the frames.

* `Heap.frame_newChild`, `Heap.frame_putAt`: the frames after a fresh frame and
  after a slot has been bound;
* `Heap.get?_isSome`, `Heap.nearest?_eq_some`: when a look-up along an
  environment succeeds;
* `Run.Succeeds`: a step that does not fail, and what holds then;
* `Run.get_cases`, `Run.assign_cases`, `Run.ofHost_cases`: what becomes of steps that may
  fail;
* `Machine.Nulls`: what slots that are bound to null change;
* `Machine.Grows`: what is bound stays bound. Every step of a run grows the
  machine, whether it succeeds or fails (`Task.grows`).
-/
import Mathlib
import Ember.Proofs.Run.Plan

namespace Ember

open Program

/-! ### Heaps -/

namespace Heap

/-- A fresh frame is empty, and so is every address that holds no frame. -/
@[simp]
lemma frame_push (h : Heap) (a : Address) : (⟨h.frames.push []⟩ : Heap).frame a = h.frame a := by
  simp only [frame, Array.getD_eq_getD_getElem?, Array.getElem?_push]
  split
  · next e => rw [e, Array.getElem?_eq_none (Nat.le_refl _)]; rfl
  · rfl

/-- Where there is no frame nothing is bound. -/
lemma frame_of_le {h : Heap} {a : Address} (le : h.frames.size ≤ a) : h.frame a = [] := by
  rw [frame, Array.getD_eq_getD_getElem?, Array.getElem?_eq_none le]
  rfl

/-- A new frame inside of another binds nothing, and others stay as they are. -/
@[simp]
lemma frame_newChild (h : Heap) (e : Environment) (a : Address) :
    (h.newChild e).2.frame a = h.frame a := h.frame_push a

/-- A new outermost frame binds nothing, and others stay as they are. -/
@[simp]
lemma frame_newRoot (h : Heap) (a : Address) : h.newRoot.2.frame a = h.frame a := h.frame_push a

/-- Binding a slot makes no frame. -/
@[simp]
lemma size_putAt (h : Heap) (a : Address) (s : Slot) (v : Value) :
    (h.putAt a s v).frames.size = h.frames.size := Array.size_modify ..

/-- Binding a slot at an address changes the frame there and no other. -/
lemma frame_putAt (h : Heap) (a b : Address) (s : Slot) (v : Value) :
    (h.putAt b s v).frame a =
      if a = b ∧ b < h.frames.size then (h.frame a).put s v else h.frame a := by
  simp only [frame, putAt, Array.getD_eq_getD_getElem?, Array.getElem?_modify]
  by_cases e : b = a
  · subst e
    by_cases lt : b < h.frames.size
    · rw [if_pos rfl, if_pos ⟨rfl, lt⟩, Array.getElem?_eq_getElem lt]
      rfl
    · rw [if_pos rfl, if_neg fun h => lt h.2, Array.getElem?_eq_none (Nat.le_of_not_lt lt)]
      rfl
  · rw [if_neg e, if_neg fun h => e h.1.symm]

/-- What a frame binds after a slot has been bound at an address. -/
lemma get?_frame_putAt {h : Heap} {a b : Address} {s t : Slot} {v w : Value}
    (got : ((h.putAt b s v).frame a).get? t = some w) :
    (a = b ∧ t = s ∧ w = v) ∨ (h.frame a).get? t = some w := by
  rw [frame_putAt] at got
  split at got
  · next c =>
    by_cases e : s = t
    · subst e
      rw [Frame.get?_put_self] at got
      exact .inl ⟨c.1, rfl, (Option.some.inj got).symm⟩
    · rw [Frame.get?_put_of_ne e] at got
      exact .inr got
  · exact .inr got

/-- A slot is bound in a frame that is there. -/
lemma binds_putAt_self {h : Heap} {a : Address} (lt : a < h.frames.size) (s : Slot) (v : Value) :
    (h.putAt a s v).binds s a = true := by
  rw [binds, frame_putAt, if_pos ⟨rfl, lt⟩, Frame.get?_put_self]
  rfl

/-- A slot that is bound stays bound. -/
lemma binds_putAt {h : Heap} {a : Address} {t : Slot} (bound : h.binds t a = true) (b : Address)
    (s : Slot) (v : Value) : (h.putAt b s v).binds t a = true := by
  rw [binds, frame_putAt]
  split
  · by_cases e : s = t
    · rw [e, Frame.get?_put_self]
      rfl
    · rw [Frame.get?_put_of_ne e]
      exact bound
  · exact bound

/-- A slot can be read where some frame of the environment binds it. -/
lemma get?_isSome {h : Heap} {e : Environment} {s : Slot} :
    (h.get? e s).isSome ↔ ∃ a ∈ e.chain, h.binds s a = true := by
  rw [get?, List.isSome_findSome?, List.any_eq_true]
  rfl

/-- A slot can be assigned where it can be read. -/
lemma isSome_nearest? {h : Heap} {e : Environment} {s : Slot} :
    (h.nearest? e s).isSome ↔ (h.get? e s).isSome := by
  rw [get?_isSome, nearest?, List.find?_isSome]

/-- What is found along an environment is bound in a frame of it. -/
lemma get?_eq_some {h : Heap} {e : Environment} {s : Slot} {v : Value} (got : h.get? e s = some v) :
    ∃ a ∈ e.chain, (h.frame a).get? s = some v := List.exists_of_findSome?_eq_some got

/-- The nearest frame that binds a slot is one of the environment and binds it. -/
lemma nearest?_eq_some {h : Heap} {e : Environment} {s : Slot} {a : Address}
    (near : h.nearest? e s = some a) : a ∈ e.chain ∧ h.binds s a = true :=
  ⟨List.mem_of_find?_eq_some near, List.find?_some near⟩

end Heap

/-! ### Steps that succeed -/

namespace Run

variable {σ α β : Type} {x : Run σ α} {f : α → Run σ β} {m : Machine σ}

/-- A step that does not fail, and what holds then. -/
def Succeeds (x : Run σ α) (m : Machine σ) (Q : α → Machine σ → Prop) : Prop :=
  ∃ a m', x m = .done a m' ∧ Q a m'

/-- A result that is at hand is no failure. -/
lemma Succeeds.pure {Q : α → Machine σ → Prop} {a : α} (h : Q a m) :
    (Pure.pure a : Run σ α).Succeeds m Q := ⟨a, m, rfl, h⟩

/-- Steps that succeed one after the other succeed. -/
lemma Succeeds.bind {P : α → Machine σ → Prop} {Q : β → Machine σ → Prop} (hx : x.Succeeds m P)
    (hf : ∀ a m', P a m' → (f a).Succeeds m' Q) : (x >>= f).Succeeds m Q := by
  obtain ⟨a, m', run, h⟩ := hx
  obtain ⟨b, m'', run', h'⟩ := hf a m' h
  refine ⟨b, m'', ?_, h'⟩
  change Run.bind x f m = _
  rw [Run.bind, run]
  exact run'

end Run

/-! ### Steps that may fail -/

namespace Run

variable {σ : Type}

/-- A slot is read, or found to be bound nowhere. -/
lemma get_cases (e : Environment) (s : Slot) (line : Line) (m : Machine σ) :
    (∃ v, m.heap.get? e s = some v ∧ get e s line m = .done v m) ∨
      (m.heap.get? e s = none ∧ get e s line m = .failed ⟨line, .undefinedSlot s⟩ m) := by
  rw [get]
  cases m.heap.get? e s with
  | some v => exact .inl ⟨v, rfl, rfl⟩
  | none => exact .inr ⟨rfl, rfl⟩

/-- A slot is assigned in the nearest frame that binds it, or found to be bound nowhere. -/
lemma assign_cases (e : Environment) (s : Slot) (v : Value) (line : Line) (m : Machine σ) :
    (∃ a, m.heap.nearest? e s = some a ∧
      assign e s v line m = .done () { m with heap := m.heap.putAt a s v }) ∨
      (m.heap.get? e s = none ∧ assign e s v line m = .failed ⟨line, .undefinedSlot s⟩ m) := by
  rw [assign, Heap.assign?]
  cases near : m.heap.nearest? e s with
  | some a => exact .inl ⟨a, rfl, rfl⟩
  | none =>
    refine .inr ⟨?_, rfl⟩
    rw [← Option.not_isSome_iff_eq_none, ← Heap.isSome_nearest?, near]
    exact Bool.noConfusion

/-- A method of the host answers, or says why it fails. -/
lemma ofHost_cases (line : Line) (method : HostMethod σ) (arguments : List Value)
    (m : Machine σ) :
    let m' : Machine σ := { m with host := (method arguments m.host).2 }
    (∃ v, (method arguments m.host).1 = .ok v ∧ ofHost line method arguments m = .done v m') ∨
      ∃ cause, (method arguments m.host).1 = .error cause ∧
        ofHost line method arguments m = .failed ⟨line, cause⟩ m' := by
  intro m'
  have same : m' = { m with host := (method arguments m.host).2 } := rfl
  rw [ofHost, same]
  cases method arguments m.host with
  | mk r st =>
    cases r with
    | ok v => exact .inl ⟨v, rfl, rfl⟩
    | error cause => exact .inr ⟨cause, rfl, rfl⟩

end Run

/-! ### Growth -/

/-- What is bound in one machine is bound in the other, which has no fewer
frames. -/
structure Machine.Grows {σ : Type} (m m' : Machine σ) : Prop where
  size : m.heap.frames.size ≤ m'.heap.frames.size
  binds : ∀ s a, m.heap.binds s a = true → m'.heap.binds s a = true

/-- A machine grows to itself. -/
lemma Machine.Grows.refl {σ : Type} (m : Machine σ) : m.Grows m :=
  ⟨Nat.le_refl _, fun _ _ h => h⟩

/-- A machine that has grown twice has grown. -/
lemma Machine.Grows.trans {σ : Type} {m m' m'' : Machine σ} (h : m.Grows m') (h' : m'.Grows m'') :
    m.Grows m'' :=
  ⟨Nat.le_trans h.size h'.size, fun s a bound => h'.binds s a (h.binds s a bound)⟩

/-- The machine that a step leaves behind, if it comes to an end. -/
def Outcome.machine? {σ α : Type} : Outcome σ α → Option (Machine σ)
  | .done _ m | .failed _ m => some m
  | .exhausted => none

namespace Run

variable {σ α β : Type} {x : Run σ α} {f : α → Run σ β}

/-- A step that unbinds nothing. -/
def Growing (x : Run σ α) : Prop := ∀ m m', (x m).machine? = some m' → m.Grows m'

/-- A step that does not touch the frames. -/
lemma Growing.of_heap (h : ∀ m m', (x m).machine? = some m' → m'.heap = m.heap) : x.Growing := by
  intro m m' run
  have same := h m m' run
  exact ⟨Nat.le_of_eq (by rw [same]), fun s a bound => by rw [same]; exact bound⟩

/-- A result that is at hand changes nothing. -/
lemma growing_pure (a : α) : (pure a : Run σ α).Growing :=
  .of_heap fun _ _ run => congrArg Machine.heap (Option.some.inj run).symm

/-- Steps that grow the machine, one after the other. -/
lemma Growing.bind (hx : x.Growing) (hf : ∀ a, (f a).Growing) : (x >>= f).Growing := by
  intro m m' run
  change (Run.bind x f m).machine? = some m' at run
  rw [Run.bind] at run
  cases h : x m with
  | done b m₁ =>
    rw [h] at run
    exact (hx m m₁ (by rw [h]; rfl)).trans (hf b m₁ m' run)
  | failed err m₁ =>
    rw [h] at run
    exact hx m m' (by rw [h]; exact run)
  | exhausted =>
    rw [h] at run
    cases run

/-- A failure changes nothing. -/
lemma growing_fail (line : Line) (cause : Failure) : (fail line cause : Run σ α).Growing :=
  .of_heap fun _ _ run => congrArg Machine.heap (Option.some.inj run).symm

/-- A new frame leaves what is bound. -/
lemma growing_child (e : Environment) : (child e : Run σ Environment).Growing := by
  intro m m' run
  cases run
  refine ⟨(Array.size_push ..).symm ▸ Nat.le_succ _, fun s a bound => ?_⟩
  rw [Heap.binds, ← Heap.frame_newChild m.heap e a] at bound
  exact bound

/-- What is declared leaves what is bound. -/
lemma growing_declare (e : Environment) (s : Slot) (v : Value) :
    (declare e s v : Run σ Unit).Growing := by
  intro m m' run
  cases run
  exact ⟨Nat.le_of_eq (Heap.size_putAt ..).symm, fun t a bound => Heap.binds_putAt bound e.own s v⟩

/-- Declaring slots as null leaves what is bound. -/
lemma growing_declareNull (e : Environment) (slots : List (Slot × String)) :
    (declareNull e slots : Run σ Unit).Growing := by
  induction slots with
  | nil => exact growing_pure ()
  | cons s rest ih => exact (growing_declare e s.1 .null).bind fun _ => ih

/-- Declaring slots one by one leaves what is bound. -/
lemma growing_declareEach (e : Environment) (ss : List Slot) (vs : List Value) :
    (declareEach e ss vs : Run σ Unit).Growing := by
  induction ss generalizing vs with
  | nil => cases vs <;> exact growing_pure ()
  | cons s ss ih =>
    cases vs with
    | nil => exact growing_pure ()
    | cons v vs => exact (growing_declare e s v).bind fun _ => ih vs

/-- A look-up changes nothing. -/
lemma growing_get (e : Environment) (s : Slot) (line : Line) :
    (get e s line : Run σ Value).Growing := by
  refine .of_heap fun m m' run => ?_
  rcases get_cases e s line m with ⟨v, -, got⟩ | ⟨-, got⟩
  all_goals
    rw [got] at run
    cases run
    rfl

/-- An assignment binds nothing anew. -/
lemma growing_assign (e : Environment) (s : Slot) (v : Value) (line : Line) :
    (assign e s v line : Run σ Unit).Growing := by
  intro m m' run
  rcases assign_cases e s v line m with ⟨b, -, assigned⟩ | ⟨-, assigned⟩
  · rw [assigned] at run
    cases run
    exact ⟨Nat.le_of_eq (Heap.size_putAt ..).symm, fun t a bound => Heap.binds_putAt bound b s v⟩
  · rw [assigned] at run
    cases run
    exact .refl m

/-- What may fail otherwise changes nothing. -/
lemma growing_ofExcept (line : Line) (r : Except Failure α) :
    (ofExcept line r : Run σ α).Growing := by
  cases r with
  | ok a => exact growing_pure a
  | error cause => exact growing_fail line cause

/-- The host changes its own state alone. -/
lemma growing_ofHost (line : Line) (method : HostMethod σ) (arguments : List Value) :
    (ofHost line method arguments).Growing := by
  refine .of_heap fun m m' run => ?_
  rcases ofHost_cases line method arguments m with ⟨v, -, answer⟩ | ⟨cause, -, answer⟩
  all_goals
    rw [answer] at run
    cases run
    rfl

end Run

variable {σ : Type}

/-- Making a class leaves what is bound. -/
lemma growing_makeClass (decl : ClassDecl) (e : Environment) :
    (makeClass decl e : Run σ ClassObject).Growing :=
  (Run.growing_child e).bind fun statics => (Run.growing_declareNull statics _).bind fun _ =>
    (Run.growing_declare statics _ _).bind fun _ => Run.growing_pure _

/-- Making classes leaves what is bound. -/
lemma growing_makeClasses (e : Environment) (cs : List (Slot × ClassDecl)) :
    (makeClasses e cs : Run σ Unit).Growing := by
  induction cs with
  | nil => exact Run.growing_pure ()
  | cons c rest ih =>
    exact (growing_makeClass c.2 e).bind fun _ => (Run.growing_declare e c.1 _).bind fun _ => ih

/-- Making an instance leaves what is bound. -/
lemma growing_makeInstance (c : ClassObject) : (makeInstance c : Run σ Instance).Growing :=
  (Run.growing_child c.statics).bind fun e => (Run.growing_declareNull e _).bind fun _ =>
    (Run.growing_declare e _ _).bind fun _ => Run.growing_pure _

/-! ### Slots that are bound to null -/

/-- What slots that are bound to null change: nothing but the frame that they are bound
in, and there they bind nothing else. -/
structure Machine.Nulls (e : Environment) (slots : List (Slot × String)) (m m' : Machine σ) :
    Prop where
  size : m'.heap.frames.size = m.heap.frames.size
  host : m'.host = m.host
  others : ∀ a, a ≠ e.own → m'.heap.frame a = m.heap.frame a
  own : ∀ s v, (m'.heap.frame e.own).get? s = some v →
    (m.heap.frame e.own).get? s = some v ∨ v = .null
  binds : e.own < m.heap.frames.size → ∀ s ∈ slots, m'.heap.binds s.1 e.own = true

/-- Slots that are declared as null are so afterwards. -/
lemma Run.declareNull_nulls (e : Environment) (slots : List (Slot × String)) (m : Machine σ) :
    (Run.declareNull e slots).Succeeds m fun _ m' => m.Nulls e slots m' := by
  induction slots generalizing m with
  | nil =>
    exact .pure ⟨rfl, rfl, fun _ _ => rfl, fun _ _ got => .inl got,
      fun _ s hs => absurd hs List.not_mem_nil⟩
  | cons s rest ih =>
    let m₁ : Machine σ := { m with heap := m.heap.putAt e.own s.1 .null }
    have size₁ : m₁.heap.frames.size = m.heap.frames.size := Heap.size_putAt ..
    obtain ⟨_, m₂, run₂, nulls⟩ := ih m₁
    refine ⟨(), m₂, run₂, nulls.size.trans size₁, nulls.host, fun a ne => ?_, fun t v got => ?_,
      fun lt => ?_⟩
    · rw [nulls.others a ne, Heap.frame_putAt, if_neg fun h => ne h.1]
    · rcases nulls.own t v got with got | null
      · exact (Heap.get?_frame_putAt got).symm.imp_right fun h => h.2.2
      · exact .inr null
    · refine List.forall_mem_cons.2 ⟨?_, nulls.binds (size₁.symm ▸ lt)⟩
      exact (Run.growing_declareNull e rest m₁ m₂ (by rw [run₂]; rfl)).binds _ _
        (Heap.binds_putAt_self lt s.1 .null)

/-! ### Plans -/

/-- All primitive steps of a plan unbind nothing. -/
def Plan.Growing {α : Type} : Plan σ α → Prop
  | .done _ => True
  | .act x next => x.Growing ∧ ∀ b, (next b).Growing
  | .sub _ next => ∀ b, (next b).Growing

namespace Plan

variable {α : Type} {p : Plan σ α}

/-- A plan whose primitive steps unbind nothing unbinds nothing, if no task does. -/
lemma Growing.run {host : Host σ} {fuel : Nat} (hp : p.Growing)
    (ht : ∀ {α : Type} (t : Task α), (t.run host fuel).Growing) : (p.run host fuel).Growing := by
  induction p with
  | done a => exact Run.growing_pure a
  | act x next ih => exact hp.1.bind fun b => ih b (hp.2 b)
  | sub t next ih => exact (ht t).bind fun b => ih b (hp b)

end Plan

/-- No primitive step unbinds a slot. -/
lemma Run.Primitive.growing {host : Host σ} {α : Type} {x : Run σ α} (h : x.Primitive host) :
    x.Growing := by
  cases h with
  | child e => exact Run.growing_child e
  | declare e s v => exact Run.growing_declare e s v
  | declareEach e ss vs => exact Run.growing_declareEach e ss vs
  | makeClass decl e => exact growing_makeClass decl e
  | makeClasses e cs => exact growing_makeClasses e cs
  | makeInstance c => exact growing_makeInstance c
  | get e s line => exact Run.growing_get e s line
  | assign e s v line => exact Run.growing_assign e s v line
  | ofHost found arguments line => exact Run.growing_ofHost line _ arguments
  | native found arguments line => exact Run.growing_ofExcept line _
  | fail ordinary => exact Run.growing_fail _ _

/-- Primitive steps leave what is bound. -/
lemma Plan.Primitive.growing {host : Host σ} {α : Type} {p : Plan σ α} (h : p.Primitive host) :
    p.Growing := by
  induction p with
  | done a => trivial
  | act x next ih => exact ⟨h.1.growing, fun b => ih b (h.2 b)⟩
  | sub t next ih => exact fun b => ih b (h b)

/-- No primitive step of a task unbinds a slot. -/
lemma Task.growing_plan (host : Host σ) {α : Type} (t : Task α) : (t.plan host).Growing :=
  (t.primitive_plan host).growing

/-- What is bound stays bound, whatever a program does. -/
theorem Task.grows (host : Host σ) (fuel : Nat) :
    ∀ {α : Type} (t : Task α), (t.run host fuel).Growing := by
  induction fuel with
  | zero =>
    intro α t m m' run
    rw [Task.run_zero] at run
    cases run
  | succ fuel ih =>
    intro α t
    rw [Task.run_succ]
    exact (t.growing_plan host).run ih

/-- A variable is bound once its statement has been executed. -/
lemma binds_var {host : Host σ} {fuel : Nat} {s : Slot} {init : Option Expr} {line : Line}
    {e : Environment} {m m' : Machine σ} {c : Completion} (known : e.own < m.heap.frames.size)
    (done : (Task.stmt (.var s init line) e).run host fuel m = .done c m') :
    m'.heap.binds s e.own = true := by
  cases fuel with
  | zero =>
    rw [Task.run_zero] at done
    cases done
  | succ fuel =>
    rw [Task.run_succ] at done
    cases init with
    | none =>
      cases done
      exact Heap.binds_putAt_self known s .null
    | some init =>
      simp only [Task.plan, Plan.run_bind, Plan.run_start] at done
      simp only [bind, Run.bind] at done
      cases h : (Task.eval init e).run host fuel m with
      | done v m₁ =>
        rw [h] at done
        cases done
        have grows := Task.grows host fuel _ m m₁ (by rw [h]; rfl)
        exact Heap.binds_putAt_self (Nat.lt_of_lt_of_le known grows.size) s v
      | failed err m₁ =>
        rw [h] at done
        cases done
      | exhausted =>
        rw [h] at done
        cases done

/-- How an activity ends. -/
def Activity.outcome (host : Host σ) (a : Activity σ) : Outcome σ a.α :=
  a.task.run host a.fuel a.machine

/-- A plan that comes to an end has ended all that it started, and has unbound
nothing since. -/
lemma Plan.Starts.grows {host : Host σ} {fuel : Nat} {α : Type} {p : Plan σ α} {m m' : Machine σ}
    {b : Activity σ} (starts : p.Starts host fuel m b) (growing : p.Growing)
    (last : (p.run host fuel m).machine? = some m') :
    ∃ m₁, (b.outcome host).machine? = some m₁ ∧ m₁.Grows m' := by
  induction starts with
  | here t next m =>
    simp only [Plan.run, Run.bind] at last
    rw [Activity.outcome]
    cases h : t.run host fuel m with
    | done r m₁ =>
      rw [h] at last
      exact ⟨m₁, rfl, (growing r).run (Task.grows host fuel) m₁ m' last⟩
    | failed err m₁ =>
      rw [h] at last
      cases last
      exact ⟨_, rfl, .refl _⟩
    | exhausted =>
      rw [h] at last
      cases last
  | afterAct h later ih =>
    simp only [Plan.run, Run.bind, h] at last
    exact ih (growing.2 _) last
  | afterSub h later ih =>
    simp only [Plan.run, Run.bind, h] at last
    exact ih (growing _) last

/-- A run that comes to an end has ended all that it visited, and has unbound
nothing since. -/
theorem Activity.Visits.grows {host : Host σ} {a b : Activity σ} (visited : a.Visits host b)
    {m' : Machine σ} (last : (a.outcome host).machine? = some m') :
    ∃ m, (b.outcome host).machine? = some m ∧ m.Grows m' := by
  induction visited with
  | refl => exact ⟨m', last, .refl m'⟩
  | @tail b c _ starts ih =>
    obtain ⟨m, middle, grows⟩ := ih
    obtain ⟨fuel, hf, starts⟩ := starts
    obtain ⟨_, t, m₀⟩ := b
    cases hf
    rw [Activity.outcome, Task.run_succ] at middle
    obtain ⟨m₁, first, grows'⟩ := starts.grows (t.growing_plan host) middle
    exact ⟨m₁, first, grows'.trans grows⟩

end Ember
