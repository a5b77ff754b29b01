/-
What a run does to instances and their slots, in the order in which it does it.

* `Event`: an instance is made, a slot of a frame is read, or a value is assigned to
  it; `Task.events` lists the events of a task, and `Program.Script.events` those of
  the run of a whole program;
* `Point`: a machine with what has happened so far;
* `Watch`: a property of points that is kept from step to step, and a condition on
  each event that may depend on what has happened before. If every plan keeps it then
  all events of a run meet the condition (`Watch.Kept.ends`).
-/
import Mathlib
import Ember.Proofs.Run.Entry
import Ember.Proofs.Run.Frames

namespace Ember

open Program

variable {σ α β : Type}

/-! ### Events -/

/-- What a run does to instances and slots. -/
inductive Event where
  | made (i : Instance)
  | read (a : Address) (s : Slot)
  | wrote (a : Address) (s : Slot)

/-- What happens as a task begins: a call of a constructor makes an instance. -/
def Task.opens : {α : Type} → Task α → Machine σ → List Event
  | _, .call (.cls c) name arguments _, m =>
    match findMethod? ⟨name, arguments.map List.length⟩ c.decl.constructors, makeInstance c m with
    | some _, .done i _ => [.made i]
    | _, _ => []
  | _, _, _ => []

/-- What has happened when a task is done: the slot of the nearest frame that binds it
has been read or assigned. -/
def Task.closes : {α : Type} → Task α → Machine σ → List Event
  | _, .eval (.read s _) e, m => (m.heap.nearest? e s).toList.map fun a => .read a s
  | _, .eval (.assign s _ _) e, m => (m.heap.nearest? e s).toList.map fun a => .wrote a s
  | _, _, _ => []

/-- The events of a task in their order, up to where it fails or runs out of fuel if
it does. -/
def Task.events (host : Host σ) : (fuel : Nat) → {α : Type} → Task α → Machine σ → List Event
  | 0, _, _, _ => []
  | fuel + 1, _, t, m =>
    t.opens m ++ (((t.plan host).started host fuel m).flatMap fun b =>
        b.task.events host fuel b.machine) ++
      match t.run host (fuel + 1) m with
      | .done _ m' => t.closes m'
      | .failed _ _ | .exhausted => []

/-- The events of the run of a program. -/
def Program.Script.events (host : Host σ) (fuel : Nat) (script : Script) (m : Machine σ) :
    List Event :=
  match script.entered host m with
  | .done e m' => (Task.block script.root e).events host fuel m'
  | .failed _ _ | .exhausted => []

/-- The events of the tasks that a plan starts. -/
def Plan.events (host : Host σ) (fuel : Nat) (p : Plan σ α) (m : Machine σ) : List Event :=
  (p.started host fuel m).flatMap fun b => b.task.events host fuel b.machine

namespace Plan

/-- A step that is done is followed by the events of the rest. -/
lemma events_act {host : Host σ} {fuel : Nat} {x : Run σ β} {next : β → Plan σ α}
    {m m' : Machine σ} {b : β} (h : x m = .done b m') :
    (Plan.act x next).events host fuel m = (next b).events host fuel m' := by
  simp only [events, started, h]

/-- A step that is not done is followed by nothing. -/
lemma events_act_of_not_done {host : Host σ} {fuel : Nat} {x : Run σ β} {next : β → Plan σ α}
    {m : Machine σ} (h : ∀ b m', x m ≠ .done b m') :
    (Plan.act x next).events host fuel m = [] := by
  rw [events, started]
  cases e : x m with
  | done b m' => exact absurd e (h b m')
  | failed _ _ | exhausted => rfl

/-- A task that is done has its events before those of the rest. -/
lemma events_sub {host : Host σ} {fuel : Nat} {t : Task β} {next : β → Plan σ α}
    {m m' : Machine σ} {b : β} (h : t.run host fuel m = .done b m') :
    (Plan.sub t next).events host fuel m =
      t.events host fuel m ++ (next b).events host fuel m' := by
  simp only [events, started, h, List.flatMap_cons]

/-- A task that is not done has its events, and nothing follows. -/
lemma events_sub_of_not_done {host : Host σ} {fuel : Nat} {t : Task β} {next : β → Plan σ α}
    {m : Machine σ} (h : ∀ b m', t.run host fuel m ≠ .done b m') :
    (Plan.sub t next).events host fuel m = t.events host fuel m := by
  rw [events, started]
  cases e : t.run host fuel m with
  | done b m' => exact absurd e (h b m')
  | failed _ _ | exhausted => simp

end Plan

/-- The events of a task with fuel left. -/
lemma Task.events_succ (host : Host σ) (fuel : Nat) (t : Task α) (m : Machine σ) :
    t.events host (fuel + 1) m =
      t.opens m ++ (t.plan host).events host fuel m ++
        match t.run host (fuel + 1) m with
        | .done _ m' => t.closes m'
        | .failed _ _ | .exhausted => [] := rfl

/-- Declaring slots as null does not fail. -/
lemma Run.declareNull_succeeds (e : Environment) (slots : List (Slot × String)) (m : Machine σ) :
    (Run.declareNull e slots).Succeeds m fun _ _ => True := by
  induction slots generalizing m with
  | nil => exact .pure trivial
  | cons s rest ih => exact ih _

/-- An instance that is made has a fresh frame. -/
lemma makeInstance_fresh (c : ClassObject) (m : Machine σ) :
    (makeInstance c).Succeeds m fun i _ => i = ⟨c, c.statics.inside m.heap.frames.size⟩ := by
  have child : (Run.child c.statics).Succeeds m fun e _ =>
      e = c.statics.inside m.heap.frames.size := ⟨_, _, rfl, rfl⟩
  refine child.bind fun e m₁ eq => (Run.declareNull_succeeds e _ m₁).bind fun _ m₂ _ => ?_
  subst eq
  exact ⟨_, _, rfl, rfl⟩

/-- An instance is made in the next frame. -/
lemma Task.opens_made {t : Task α} {m : Machine σ} {i : Instance} (h : .made i ∈ t.opens m) :
    i.env.own = m.heap.frames.size := by
  cases t with
  | call receiver name arguments line =>
    cases receiver with
    | cls c =>
      obtain ⟨_, m', made, rfl⟩ := makeInstance_fresh c m
      rw [Task.opens, made] at h
      split at h
      · next eq =>
        cases eq
        cases List.mem_singleton.1 h
        rfl
      · exact absurd h List.not_mem_nil
    | null | boolean _ | number _ | text _ | obj _ | host _ => exact absurd h List.not_mem_nil
  | body _ _ _ | block _ _ | stmts _ _ | stmt _ _ | loop _ _ _ | test _ _ | eval _ _
  | evalAll _ _ =>
    exact absurd h List.not_mem_nil

/-- No task closes with an instance that is made. -/
lemma Task.closes_made {t : Task α} {m : Machine σ} {i : Instance} : .made i ∉ t.closes m := by
  cases t with
  | eval expr e =>
    cases expr with
    | read s line => simp [Task.closes]
    | assign s value line => simp [Task.closes]
    | call _ _ _ _ | literal _ _ | logical _ _ _ _ | cls _ => exact List.not_mem_nil
  | call _ _ _ _ | body _ _ _ | block _ _ | stmts _ _ | stmt _ _ | loop _ _ _ | test _ _
  | evalAll _ _ => exact List.not_mem_nil

/-! ### Points -/

/-- A machine with what has happened so far. -/
structure Point (σ : Type) where
  past : List Event
  machine : Machine σ

namespace Point

/-- How many frames there are. -/
def size (x : Point σ) : Nat := x.machine.heap.frames.size

/-- The same machine when more has happened. -/
def after (x : Point σ) (es : List Event) : Point σ := ⟨x.past ++ es, x.machine⟩

/-- What has happened stays, what is bound stays bound, and instances that are made
have frames that were not there. -/
instance : Preorder (Point σ) where
  le x y := x.past <+: y.past ∧ x.machine.Grows y.machine ∧
    ∀ i, .made i ∈ y.past → .made i ∈ x.past ∨ x.size ≤ i.env.own
  le_refl x := ⟨List.prefix_refl _, .refl _, fun _ h => .inl h⟩
  le_trans x y z h h' := by
    refine ⟨h.1.trans h'.1, h.2.1.trans h'.2.1, fun i made => ?_⟩
    rcases h'.2.2 i made with before | fresh
    · exact h.2.2 i before
    · exact .inr (h.2.1.size.trans fresh)

variable {x y : Point σ}

/-- There are no fewer frames later. -/
lemma size_mono (h : x ≤ y) : x.size ≤ y.size := h.2.1.size

/-- A step that grows the machine comes later. -/
lemma le_step {m : Machine σ} (grows : x.machine.Grows m) : x ≤ ⟨x.past, m⟩ :=
  ⟨List.prefix_refl _, grows, fun _ h => .inl h⟩

/-- A point is later after events in which instances get new frames. -/
lemma le_after {es : List Event} (fresh : ∀ i, .made i ∈ es → x.size ≤ i.env.own) :
    x ≤ x.after es :=
  ⟨List.prefix_append _ _, .refl _, fun i h => (List.mem_append.1 h).imp_right (fresh i)⟩

/-- A point is later when a task opens. -/
lemma le_opens (t : Task α) : x ≤ x.after (t.opens x.machine) :=
  le_after fun _ h => Nat.le_of_eq (Task.opens_made h).symm

/-- A point is later when a task closes. -/
lemma le_closes (t : Task α) (m : Machine σ) : x ≤ x.after (t.closes m) :=
  le_after fun _ h => absurd h Task.closes_made

/-- Nothing happens. -/
@[simp]
lemma after_nil (x : Point σ) : x.after [] = x := by rw [after, List.append_nil]

end Point

/-! ### What a run keeps -/

/-- A property of points that steps keep, which tasks may be started at a point with
which promise about their answers, and which events may follow on what has happened. -/
structure Watch (σ : Type) where
  Holds : Point σ → Prop
  Allows : Point σ → {α : Type} → Task α → (Point σ → α → Prop) → Prop
  Admits : List Event → Event → Prop

namespace Watch

variable {V : Watch σ} {host : Host σ} {root : Activity σ} {fuel : Nat} {x : Point σ}
  {past : List Event}

/-- Each of several events may follow on what has happened before it. -/
def Orderly (V : Watch σ) : List Event → List Event → Prop
  | _, [] => True
  | past, e :: es => V.Admits past e ∧ V.Orderly (past ++ [e]) es

/-- Events of two parts are orderly one after the other. -/
lemma orderly_append {es fs : List Event} :
    V.Orderly past (es ++ fs) ↔ V.Orderly past es ∧ V.Orderly (past ++ es) fs := by
  induction es generalizing past with
  | nil => simp [Orderly]
  | cons e es ih => simp [Orderly, ih, and_assoc]

/-- What is known of events that are in order. -/
lemma Orderly.admits {before after : List Event} {e : Event}
    (h : V.Orderly past (before ++ e :: after)) : V.Admits (past ++ before) e :=
  (orderly_append.1 h).2.1

/-- A plan keeps a watch from a point on: where it starts a smaller task the watch
holds and allows the task, and where it ends the answer is as promised, once the
events that close the plan have been added. -/
def Keeps (V : Watch σ) (host : Host σ) (fuel : Nat) (closes : Machine σ → List Event) :
    Plan σ α → Point σ → (Point σ → α → Prop) → Prop
  | .done a, x, Q => V.Orderly x.past (closes x.machine) ∧
      V.Holds (x.after (closes x.machine)) ∧ Q (x.after (closes x.machine)) a
  | .act step next, x, Q => ∀ b m, step x.machine = .done b m →
      V.Keeps host fuel closes (next b) ⟨x.past, m⟩ Q
  | .sub t next, x, Q => ∃ Q', V.Holds x ∧ V.Allows x t Q' ∧ ∀ y b, x ≤ y →
      t.run host fuel x.machine = .done b y.machine → V.Holds y → Q' y b →
        V.Keeps host fuel closes (next b) y Q

/-- Every task that is allowed where the run comes to it keeps the watch. -/
def Kept (V : Watch σ) (host : Host σ) (root : Activity σ) : Prop :=
  ∀ {α : Type} (fuel : Nat) (t : Task α) (x : Point σ) (Q : Point σ → α → Prop),
    root.Visits host ⟨fuel + 1, t, x.machine⟩ → V.Allows x t Q → V.Holds x →
      V.Orderly x.past (t.opens x.machine) ∧
        V.Keeps host fuel t.closes (t.plan host) (x.after (t.opens x.machine)) Q

/-! ### The plans of a watch -/

/-- A plan that is done keeps its promise, if nothing closes it. -/
lemma Keeps.pure {Q : Point σ → α → Prop} {a : α} (holds : V.Holds x) (answer : Q x a) :
    V.Keeps host fuel (fun _ => []) (Pure.pure a : Plan σ α) x Q := by
  change V.Orderly _ [] ∧ V.Holds (x.after []) ∧ Q (x.after []) a
  rw [Point.after_nil]
  exact ⟨trivial, holds, answer⟩

variable {closes : Machine σ → List Event}

/-- A primitive step, followed by others. -/
lemma Keeps.step {step : Run σ α} {f : α → Plan σ β} {Q : Point σ → β → Prop}
    {P : α → Machine σ → Prop} (succeeds : step.Succeeds x.machine P)
    (next : ∀ a m, P a m → V.Keeps host fuel closes (f a) ⟨x.past, m⟩ Q) :
    V.Keeps host fuel closes (Plan.step step >>= f) x Q := by
  obtain ⟨a, m, run, h⟩ := succeeds
  intro b m' run'
  rw [run] at run'
  cases run'
  exact next a m h

/-- A primitive step that answers for the whole plan, if it does. -/
lemma Keeps.finish {step : Run σ α} {Q : Point σ → α → Prop}
    (answer : ∀ a m, step x.machine = .done a m →
      V.Keeps host fuel closes (Pure.pure a : Plan σ α) ⟨x.past, m⟩ Q) :
    V.Keeps host fuel closes (Plan.step step) x Q := answer

/-- A step that fails leaves nothing to be kept. -/
lemma Keeps.fail {line : Line} {cause : Failure} {Q : Point σ → α → Prop} :
    V.Keeps host fuel closes (Plan.step (Run.fail line cause)) x Q :=
  fun _ _ h => by cases h

/-- A smaller task, followed by others. -/
lemma Keeps.start {t : Task α} {f : α → Plan σ β} {Q : Point σ → β → Prop}
    (Q' : Point σ → α → Prop) (holds : V.Holds x) (allowed : V.Allows x t Q')
    (next : ∀ y a, x ≤ y → t.run host fuel x.machine = .done a y.machine → V.Holds y → Q' y a →
      V.Keeps host fuel closes (f a) y Q) :
    V.Keeps host fuel closes (Plan.start t >>= f) x Q := ⟨Q', holds, allowed, next⟩

/-- A smaller task that answers for the whole plan. -/
lemma Keeps.last {t : Task α} {Q Q' : Point σ → α → Prop} (holds : V.Holds x)
    (allowed : V.Allows x t Q') (answer : ∀ y a, x ≤ y → Q' y a → Q y a) :
    V.Keeps host fuel (fun _ => []) (Plan.start t) x Q :=
  ⟨Q', holds, allowed, fun y a later _ holds h => .pure holds (answer y a later h)⟩

/-! ### Whole runs -/

/-- A task ends well at a point: its events are in order, and if it answers then the
answer is as promised when they have happened. -/
def Ends (V : Watch σ) (host : Host σ) (fuel : Nat) (t : Task α) (x : Point σ)
    (Q : Point σ → α → Prop) : Prop :=
  V.Orderly x.past (t.events host fuel x.machine) ∧
    ∀ a m, t.run host fuel x.machine = .done a m →
      let y : Point σ := ⟨x.past ++ t.events host fuel x.machine, m⟩
      x ≤ y ∧ V.Holds y ∧ Q y a

/-- A plan that keeps a watch ends well, if all that it starts does. -/
lemma Keeps.ends (ih : ∀ {α : Type} (t : Task α) (x : Point σ) (Q : Point σ → α → Prop),
      root.Visits host ⟨fuel, t, x.machine⟩ → V.Allows x t Q → V.Holds x →
        V.Ends host fuel t x Q)
    (p : Plan σ α) (growing : p.Growing) {x : Point σ} {Q : Point σ → α → Prop}
    (reached : ∀ b, p.Starts host fuel x.machine b → root.Visits host b)
    (keeps : V.Keeps host fuel closes p x Q) :
    V.Orderly x.past (p.events host fuel x.machine) ∧
      ∀ a m, p.run host fuel x.machine = .done a m →
        let y : Point σ := ⟨x.past ++ p.events host fuel x.machine, m⟩
        x ≤ y ∧ V.Orderly y.past (closes m) ∧ V.Holds (y.after (closes m)) ∧
          Q (y.after (closes m)) a := by
  induction p generalizing x with
  | done a =>
    refine ⟨trivial, fun b m done => ?_⟩
    cases done
    change x ≤ x.after [] ∧ V.Orderly (x.after []).past _ ∧ V.Holds ((x.after []).after _) ∧
      Q ((x.after []).after _) a
    rw [Point.after_nil]
    exact ⟨le_refl x, keeps⟩
  -- a step of the machine alone is no event
  | act step next ih' =>
    cases h : step x.machine with
    | done b m =>
      have later : x ≤ ⟨x.past, m⟩ := Point.le_step (growing.1 _ _ (by rw [h]; rfl))
      obtain ⟨orderly, ends⟩ := ih' b (growing.2 b) (x := ⟨x.past, m⟩)
        (fun c hc => reached c (.afterAct h hc)) (keeps b m h)
      rw [Plan.events_act h]
      refine ⟨orderly, fun a m' done => ?_⟩
      simp only [Plan.run, Run.bind, h] at done
      obtain ⟨later', rest⟩ := ends a m' done
      exact ⟨later.trans later', rest⟩
    | failed err m =>
      rw [Plan.events_act_of_not_done (by simp [h])]
      refine ⟨trivial, fun a m' done => ?_⟩
      simp only [Plan.run, Run.bind, h] at done
      cases done
    | exhausted =>
      rw [Plan.events_act_of_not_done (by simp [h])]
      refine ⟨trivial, fun a m' done => ?_⟩
      simp only [Plan.run, Run.bind, h] at done
      cases done
  | sub t next ih' =>
    obtain ⟨Q', holds, allowed, continues⟩ := keeps
    obtain ⟨orderly, answers⟩ := ih t x Q' (reached _ (.here t next _)) allowed holds
    -- the events of what is started come before those of the rest
    cases h : t.run host fuel x.machine with
    | done b m =>
      obtain ⟨later, holds', answer⟩ := answers b m h
      obtain ⟨orderly', ends⟩ := ih' b (growing b) (fun c hc => reached c (.afterSub h hc))
        (continues _ b later h holds' answer)
      rw [Plan.events_sub h, ← List.append_assoc]
      refine ⟨orderly_append.2 ⟨orderly, orderly'⟩, fun a m' done => ?_⟩
      simp only [Plan.run, Run.bind, h] at done
      obtain ⟨later', rest⟩ := ends a m' done
      exact ⟨later.trans later', rest⟩
    | failed err m =>
      rw [Plan.events_sub_of_not_done (by simp [h])]
      refine ⟨orderly, fun a m' done => ?_⟩
      simp only [Plan.run, Run.bind, h] at done
      cases done
    | exhausted =>
      rw [Plan.events_sub_of_not_done (by simp [h])]
      refine ⟨orderly, fun a m' done => ?_⟩
      simp only [Plan.run, Run.bind, h] at done
      cases done

/-- Every task that the run comes to and that is allowed there ends well. -/
theorem Kept.ends (kept : V.Kept host root) (fuel : Nat) :
    ∀ {α : Type} (t : Task α) (x : Point σ) (Q : Point σ → α → Prop),
      root.Visits host ⟨fuel, t, x.machine⟩ → V.Allows x t Q → V.Holds x →
        V.Ends host fuel t x Q := by
  induction fuel with
  | zero =>
    intro α t x Q _ _ _
    refine ⟨trivial, fun a m done => ?_⟩
    rw [Task.run_zero] at done
    cases done
  | succ fuel ih =>
    intro α t x Q visited allowed holds
    obtain ⟨opened, keeps⟩ := kept fuel t x Q visited allowed holds
    have begun : x ≤ x.after (t.opens x.machine) := Point.le_opens t
    obtain ⟨orderly, ends⟩ := Keeps.ends (x := x.after (t.opens x.machine)) ih (t.plan host)
      (t.growing_plan host) (fun b hb => visited.tail ⟨fuel, rfl, hb⟩) keeps
    have before := orderly_append.2 ⟨opened, orderly⟩
    rw [Ends, Task.events_succ]
    cases h : t.run host (fuel + 1) x.machine with
    | done a m =>
      have done := h
      rw [Task.run_succ] at done
      obtain ⟨later, closed, holds', answer⟩ := ends a m done
      simp only [Point.after, List.append_assoc] at closed later holds' answer
      refine ⟨orderly_append.2 ⟨before, by simpa [List.append_assoc] using closed⟩,
        fun b m' same => ?_⟩
      cases same
      simp only [List.append_assoc]
      have closes := Point.le_closes (x := ⟨x.past ++ (t.opens x.machine ++
        (t.plan host).events host fuel x.machine), m⟩) t m
      exact ⟨(begun.trans later).trans (by simpa [Point.after, List.append_assoc] using closes),
        holds', answer⟩
    | failed err m =>
      simp only [List.append_nil]
      exact ⟨before, fun a m' done => by cases done⟩
    | exhausted =>
      simp only [List.append_nil]
      exact ⟨before, fun a m' done => by cases done⟩

end Watch

end Ember
