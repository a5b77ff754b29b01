/-
Where the instances of a class can be got hold of before their constructors are done.

* `Point.Owns`, `Point.Wrote`: the frame of an instance of the class, and a field of it
  that has been assigned;
* `Environment.Apart`, `Value.Clear`: code that sees no such frame, and a value that
  leads to none in which a field that every constructor assigns is unassigned;
* `Environment.Within`: the code of a body of such an instance;
* `Point.Primed`: an instance that is not clear is bound only to its own receiver;
* `Point.Primed.put`, `Point.Primed.child`: primitive steps keep it so, and
  `Point.Primed.makeInstance` where an instance of the class is made.
-/
import Mathlib
import Ember.Proofs.Flow.Findings
import Ember.Proofs.Run.Chain
import Ember.Proofs.Run.Events

namespace Ember

open Program

variable {σ : Type} {c : ClassDecl} {K : List Slot} {holds : σ → Value → Prop} {x y : Point σ}
  {e : Environment} {i : Instance} {v : Value}

/-! ### The frames of instances -/

namespace Point

/-- A frame is that of an instance of the class. -/
def Owns (x : Point σ) (c : ClassDecl) (a : Address) : Prop :=
  ∃ i, .made i ∈ x.past ∧ i.cls.decl = c ∧ i.env.own = a

/-- A value has been assigned to a slot of a frame. -/
def Wrote (x : Point σ) (a : Address) (s : Slot) : Prop := .wrote a s ∈ x.past

variable {a : Address} {s : Slot}

/-- A frame keeps the class that it belongs to. -/
lemma Owns.mono (h : x ≤ y) (own : x.Owns c a) : y.Owns c a := by
  obtain ⟨i, made, hi⟩ := own
  exact ⟨i, h.1.subset made, hi⟩

/-- A frame that is there already does not become that of an instance. -/
lemma Owns.of_lt (h : x ≤ y) (lt : a < x.size) (own : y.Owns c a) : x.Owns c a := by
  obtain ⟨i, made, decl, rfl⟩ := own
  rcases h.2.2 i made with before | fresh
  · exact ⟨i, before, decl, rfl⟩
  · exact absurd lt (Nat.not_lt.2 fresh)

/-- What has been assigned has been assigned. -/
lemma Wrote.mono (h : x ≤ y) (wrote : x.Wrote a s) : y.Wrote a s := h.1.subset wrote

end Point

/-! ### Environments and values -/

/-- Code sees no frame of an instance of the class. -/
def Environment.Apart (c : ClassDecl) (x : Point σ) (e : Environment) : Prop :=
  ∀ a ∈ e.chain, a < x.size ∧ ¬x.Owns c a

/-- Code that sees no such frame sees none later. -/
lemma Environment.Apart.mono (h : x ≤ y) (apart : e.Apart c x) : e.Apart c y := fun a ha =>
  ⟨Nat.lt_of_lt_of_le (apart a ha).1 (Point.size_mono h),
    fun own => (apart a ha).2 (own.of_lt h (apart a ha).1)⟩

/-- Code that sees no such frame does not stand in one. -/
lemma Environment.Apart.not_owns (apart : e.Apart c x) : ¬x.Owns c e.own :=
  (apart e.own (List.mem_cons_self ..)).2

/-- An instance of the class has its frame inside that of its class, where no others
are. -/
structure Instance.Sits (c : ClassDecl) (x : Point σ) (i : Instance) : Prop where
  decl : i.cls.decl = c
  own : x.Owns c i.env.own
  outer : i.env.outer = i.cls.statics.chain
  statics : i.cls.statics.Apart c x

/-- An instance keeps its frame. -/
lemma Instance.Sits.mono (h : x ≤ y) (sits : i.Sits c x) : i.Sits c y :=
  ⟨sits.decl, sits.own.mono h, sits.outer, sits.statics.mono h⟩

/-- A value leads to no instance of the class in which one of the fields in `K` is
unassigned. -/
def Value.Clear (c : ClassDecl) (K : List Slot) (x : Point σ) : Value → Prop
  | .cls o => o.statics.Apart c x
  | .obj i => (i.Sits c x ∧ ∀ f ∈ K, f ∈ c.fieldSlots → x.Wrote i.env.own f) ∨
      (i.cls.decl ≠ c ∧ i.cls.statics.Apart c x ∧ i.env.Apart c x)
  | .null | .boolean _ | .number _ | .text _ | .host _ => True

/-- A clear value stays clear. -/
lemma Value.Clear.mono (h : x ≤ y) (clear : v.Clear c K x) : v.Clear c K y := by
  cases v with
  | cls o => exact Environment.Apart.mono h clear
  | obj i =>
    rcases clear with ⟨sits, wrote⟩ | ⟨decl, statics, env⟩
    · exact .inl ⟨sits.mono h, fun f hf hc => (wrote f hf hc).mono h⟩
    · exact .inr ⟨decl, statics.mono h, env.mono h⟩
  | null | boolean _ | number _ | text _ | host _ => trivial

/-- A plain value leads to no frame. -/
lemma Value.Clear.of_isPlain (plain : v.IsPlain) : v.Clear c K x := by
  cases v with
  | cls _ | obj _ => exact plain.elim
  | null | boolean _ | number _ | text _ | host _ => trivial

/-- The class of an instance that is clear is clear. -/
lemma Value.Clear.cls (clear : (Value.obj i).Clear c K x) : (Value.cls i.cls).Clear c K x := by
  rcases clear with ⟨sits, -⟩ | ⟨-, statics, -⟩
  · exact sits.statics
  · exact statics

/-- Code sees the frame of one instance of the class, and of no other. -/
structure Environment.Around (c : ClassDecl) (x : Point σ) (i : Instance) (e : Environment) :
    Prop where
  sits : i.Sits c x
  inner : i.env.own ∈ e.chain
  chain : ∀ a ∈ e.chain, a < x.size ∧ (x.Owns c a → a = i.env.own)

/-- The code of a body of an instance of the class, in a frame of its own. -/
structure Environment.Within (c : ClassDecl) (x : Point σ) (i : Instance) (e : Environment) :
    Prop extends e.Around c x i where
  own : e.own ≠ i.env.own

/-- Code that sees the frame of one instance goes on to see no other. -/
lemma Environment.Around.mono (h : x ≤ y) (around : e.Around c x i) : e.Around c y i :=
  ⟨around.sits.mono h, around.inner, fun a ha =>
    ⟨Nat.lt_of_lt_of_le (around.chain a ha).1 (Point.size_mono h),
      fun own => (around.chain a ha).2 (own.of_lt h (around.chain a ha).1)⟩⟩

/-- The code of a body stays in it. -/
lemma Environment.Within.mono (h : x ≤ y) (within : e.Within c x i) : e.Within c y i :=
  ⟨within.toAround.mono h, within.own⟩

/-- The code of a body does not stand in the frame of its instance itself. -/
lemma Environment.Within.not_owns (within : e.Within c x i) : ¬x.Owns c e.own := fun own =>
  within.own ((within.chain e.own (List.mem_cons_self ..)).2 own)

/-- The frame of the instance is around the innermost one. -/
lemma Environment.Within.mem_outer (within : e.Within c x i) : i.env.own ∈ e.outer :=
  (List.mem_cons.1 within.inner).resolve_left within.own.symm

/-! ### Machines -/

namespace Point

/-- An instance of the class that is not clear is bound only to its own receiver.
The frame of every instance of the class binds its fields and the receiver. -/
structure Primed (c : ClassDecl) (K : List Slot) (holds : σ → Value → Prop) (x : Point σ) :
    Prop where
  bound : ∀ a s v, (x.machine.heap.frame a).get? s = some v →
    v.Clear c K x ∨ (x.Owns c a ∧ s = c.receiver)
  owned : ∀ a, x.Owns c a → a < x.size ∧
    (∀ s ∈ c.fieldSlots, x.machine.heap.binds s a = true) ∧
      ∃ i, (x.machine.heap.frame a).get? c.receiver = some (.obj i) ∧ i.Sits c x ∧ i.env.own = a
  host : ∀ v, holds x.machine.host v → v.Clear c K x

/-- A machine that comes next, and in which this is so as well. -/
def Primes (c : ClassDecl) (K : List Slot) (holds : σ → Value → Prop) (x : Point σ)
    (m : Machine σ) : Prop :=
  x ≤ ⟨x.past, m⟩ ∧ Primed c K holds ⟨x.past, m⟩

/-- One step after another. -/
lemma Primes.trans {m m' : Machine σ} (h : x.Primes c K holds m)
    (h' : Point.Primes c K holds ⟨x.past, m⟩ m') : x.Primes c K holds m' :=
  ⟨h.1.trans h'.1, h'.2⟩

/-- Nothing happens. -/
lemma Primed.primes (primed : x.Primed c K holds) : x.Primes c K holds x.machine :=
  ⟨le_refl x, primed⟩

/-- The receiver of an instance is bound in its frame. -/
lemma Primed.binds_receiver (primed : x.Primed c K holds) {a : Address} (own : x.Owns c a) :
    x.machine.heap.binds c.receiver a = true := by
  obtain ⟨-, -, i, got, -⟩ := primed.owned a own
  rw [Heap.binds, got]
  rfl

/-- A fresh frame is not that of an instance. -/
lemma Primed.not_owns_size (primed : x.Primed c K holds) : ¬x.Owns c x.size := fun own =>
  Nat.lt_irrefl _ (primed.owned _ own).1

/-- A clear value may be bound, unless it takes the place of an instance's own
receiver. -/
lemma Primed.put (primed : x.Primed c K holds) {a : Address} {s : Slot} (v : Value)
    (free : x.Owns c a → s ≠ c.receiver) (clear : v.Clear c K x) :
    x.Primes c K holds { x.machine with heap := x.machine.heap.putAt a s v } := by
  have later : x ≤ ⟨x.past, { x.machine with heap := x.machine.heap.putAt a s v }⟩ := by
    refine le_step ⟨Nat.le_of_eq (Heap.size_putAt ..).symm, fun t b bound => ?_⟩
    exact Heap.binds_putAt bound a s v
  refine ⟨later, fun b t w got => ?_, fun b own => ?_, fun w hw => (primed.host w hw).mono later⟩
  · rcases Heap.get?_frame_putAt got with ⟨-, -, rfl⟩ | old
    · exact .inl (clear.mono later)
    · exact (primed.bound b t w old).imp_left fun h => h.mono later
  · have own : x.Owns c b := own
    obtain ⟨lt, fields, i, got, sits, eq⟩ := primed.owned b own
    refine ⟨Nat.lt_of_lt_of_le lt (size_mono later), fun f hf => later.2.1.binds f b (fields f hf),
      i, ?_, sits.mono later, eq⟩
    rw [Heap.frame_putAt]
    split
    · next same => rwa [Frame.get?_put_of_ne (free (same.1 ▸ own))]
    · exact got

/-- A fresh frame binds nothing. -/
lemma Primed.push (primed : x.Primed c K holds) (e : Environment) :
    x.Primes c K holds { x.machine with heap := (x.machine.heap.newChild e).2 } := by
  have later : x ≤ ⟨x.past, { x.machine with heap := (x.machine.heap.newChild e).2 }⟩ :=
    le_step (Run.growing_child e x.machine _ rfl)
  refine ⟨later, fun b t w got => ?_, fun b own => ?_, fun w hw => (primed.host w hw).mono later⟩
  · rw [Heap.frame_newChild] at got
    exact (primed.bound b t w got).imp_left fun h => h.mono later
  · obtain ⟨lt, fields, i, got, sits, eq⟩ := primed.owned b own
    refine ⟨Nat.lt_of_lt_of_le lt (size_mono later), fun f hf => later.2.1.binds f b (fields f hf),
      i, ?_, sits.mono later, eq⟩
    rw [Heap.frame_newChild]
    exact got

/-- Other events than an instance of the class being made change nothing. -/
lemma Primed.after (primed : x.Primed c K holds) {es : List Event} (later : x ≤ x.after es)
    (other : ∀ i, .made i ∈ es → i.cls.decl ≠ c) : (x.after es).Primed c K holds := by
  have owns {a : Address} (own : (x.after es).Owns c a) : x.Owns c a := by
    obtain ⟨i, made, decl, rfl⟩ := own
    rcases List.mem_append.1 made with before | new
    · exact ⟨i, before, decl, rfl⟩
    · exact absurd decl (other i new)
  refine ⟨fun a s v got => ?_, fun a own => ?_, fun v hv => (primed.host v hv).mono later⟩
  · exact (primed.bound a s v got).imp (fun h => h.mono later) fun h => ⟨h.1.mono later, h.2⟩
  · obtain ⟨lt, fields, i, got, sits, eq⟩ := primed.owned a (owns own)
    exact ⟨lt, fields, i, got, sits.mono later, eq⟩

end Point

/-! ### Primitive steps -/

namespace Point.Primed

variable (primed : x.Primed c K holds)
include primed

/-- A frame inside of another is that of no instance. -/
lemma child (e : Environment) : (Run.child e).Succeeds x.machine fun e' m =>
    e' = e.inside x.size ∧ x.Primes c K holds m ∧ m.heap.frames.size = x.size + 1 :=
  ⟨_, _, rfl, rfl, primed.push e, Array.size_push ..⟩

/-- What is declared in a frame that is no instance's may be any clear value. -/
lemma declare (free : ¬x.Owns c e.own) (s : Slot) (clear : v.Clear c K x) :
    (Run.declare e s v).Succeeds x.machine fun _ m => x.Primes c K holds m :=
  ⟨(), _, rfl, primed.put v (fun own => absurd own free) clear⟩

/-- Slots may be declared as null in a frame that is no instance's. -/
lemma declareNull (free : ¬x.Owns c e.own) (slots : List (Slot × String)) :
    (Run.declareNull e slots).Succeeds x.machine fun _ m => x.Primes c K holds m := by
  induction slots generalizing x with
  | nil => exact .pure primed.primes
  | cons s rest ih =>
    refine (primed.declare (v := .null) free s.1 trivial).bind fun _ m₁ primes₁ => ?_
    obtain ⟨_, m₂, run₂, primes₂⟩ := ih primes₁.2 free
    exact ⟨(), m₂, run₂, primes₁.trans primes₂⟩

/-- Slots may be declared one by one as clear values in a frame that is no instance's. -/
lemma declareEach (free : ¬x.Owns c e.own) (ss : List Slot) {vs : List Value}
    (clear : ∀ v ∈ vs, v.Clear c K x) :
    (Run.declareEach e ss vs).Succeeds x.machine fun _ m => x.Primes c K holds m := by
  induction ss generalizing x vs with
  | nil => cases vs <;> exact .pure primed.primes
  | cons s ss ih =>
    cases vs with
    | nil => exact .pure primed.primes
    | cons v vs =>
      obtain ⟨first, rest⟩ := List.forall_mem_cons.1 clear
      refine (primed.declare free s first).bind fun _ m₁ primes₁ => ?_
      obtain ⟨_, m₂, run₂, primes₂⟩ := ih primes₁.2 free fun v hv => (rest v hv).mono primes₁.1
      exact ⟨(), m₂, run₂, primes₁.trans primes₂⟩

/-- A frame inside those of code that sees no instance of the class. -/
lemma apart_inside (apart : e.Apart c x) {m : Machine σ} (primes : x.Primes c K holds m)
    (size : m.heap.frames.size = x.size + 1) : (e.inside x.size).Apart c ⟨x.past, m⟩ := by
  refine List.forall_mem_cons.2 ⟨⟨?_, primed.not_owns_size⟩, apart.mono primes.1⟩
  change x.size < m.heap.frames.size
  omega

/-- A frame inside that of an instance of the class. -/
lemma within_inside (around : e.Around c x i) {m : Machine σ} (primes : x.Primes c K holds m)
    (size : m.heap.frames.size = x.size + 1) : (e.inside x.size).Within c ⟨x.past, m⟩ i := by
  have later := around.mono primes.1
  refine ⟨⟨later.sits, List.mem_cons_of_mem _ around.inner, ?_⟩, fun same => ?_⟩
  · refine List.forall_mem_cons.2 ⟨⟨?_, fun own => absurd own primed.not_owns_size⟩, later.chain⟩
    change x.size < m.heap.frames.size
    omega
  · have same : x.size = i.env.own := same
    exact Nat.lt_irrefl _ (same ▸ (around.chain _ around.inner).1)

/-- The frame of an instance of the class is the only one that its bodies see. -/
lemma around_env (sits : i.Sits c x) : i.env.Around c x i := by
  refine ⟨sits, List.mem_cons_self .., ?_⟩
  rw [Environment.chain, sits.outer]
  exact List.forall_mem_cons.2 ⟨⟨(primed.owned _ sits.own).1, fun _ => rfl⟩,
    fun a ha => ⟨(sits.statics a ha).1, fun own => absurd own (sits.statics a ha).2⟩⟩

/-- A class that is made away from such frames is clear. -/
lemma makeClass (apart : e.Apart c x) (decl : ClassDecl) :
    (makeClass decl e).Succeeds x.machine fun o m =>
      x.Primes c K holds m ∧ (Value.cls o).Clear c K ⟨x.past, m⟩ := by
  refine (primed.child e).bind fun e' m₁ h₁ => ?_
  obtain ⟨rfl, primes₁, size⟩ := h₁
  have apart₁ := primed.apart_inside apart primes₁ size
  refine (primes₁.2.declareNull apart₁.not_owns decl.staticFields).bind fun _ m₂ primes₂ => ?_
  have apart₂ := apart₁.mono primes₂.1
  have clear₂ : (Value.cls ⟨decl, e.inside x.size⟩).Clear c K (⟨x.past, m₂⟩ : Point σ) := apart₂
  refine (primes₂.2.declare apart₂.not_owns decl.staticReceiver clear₂).bind fun _ m₃ primes₃ => ?_
  exact .pure ⟨(primes₁.trans primes₂).trans primes₃, clear₂.mono primes₃.1⟩

/-- Classes that are made away from such frames are clear. -/
lemma makeClasses (apart : e.Apart c x) (cs : List (Slot × ClassDecl)) :
    (makeClasses e cs).Succeeds x.machine fun _ m => x.Primes c K holds m := by
  induction cs generalizing x with
  | nil => exact .pure primed.primes
  | cons d rest ih =>
    obtain ⟨s, decl⟩ := d
    refine (primed.makeClass apart decl).bind fun o m₁ h₁ => ?_
    obtain ⟨primes₁, clear₁⟩ := h₁
    have apart₁ := apart.mono primes₁.1
    refine (primes₁.2.declare apart₁.not_owns s clear₁).bind fun _ m₂ primes₂ => ?_
    obtain ⟨_, m₃, run₃, primes₃⟩ := ih primes₂.2 (apart₁.mono primes₂.1)
    exact ⟨(), m₃, run₃, (primes₁.trans primes₂).trans primes₃⟩

/-- An instance of another class has a frame that is not that of an instance of the
class. -/
lemma makeOther {o : ClassObject} (other : o.decl ≠ c) (apart : o.statics.Apart c x) :
    (makeInstance o).Succeeds x.machine fun i m => x.Primes c K holds m ∧ i.cls = o ∧
      i.env.Apart c ⟨x.past, m⟩ := by
  refine (primed.child o.statics).bind fun e' m₁ h₁ => ?_
  obtain ⟨rfl, primes₁, size⟩ := h₁
  have apart₁ := primed.apart_inside apart primes₁ size
  refine (primes₁.2.declareNull apart₁.not_owns o.decl.fields).bind fun _ m₂ primes₂ => ?_
  have apart₂ := apart₁.mono primes₂.1
  have clear₂ : (Value.obj ⟨o, o.statics.inside x.size⟩).Clear c K (⟨x.past, m₂⟩ : Point σ) :=
    .inr ⟨other, apart.mono (primes₁.1.trans primes₂.1), apart₂⟩
  refine (primes₂.2.declare apart₂.not_owns o.decl.receiver clear₂).bind fun _ m₃ primes₃ => ?_
  exact .pure ⟨(primes₁.trans primes₂).trans primes₃, rfl, apart₂.mono primes₃.1⟩

/-- An instance of the class is bound to its receiver, and its fields are there, once it
has been made. -/
lemma makeInstance {o : ClassObject} (decl : o.decl = c) (apart : o.statics.Apart c x) :
    (makeInstance o).Succeeds x.machine fun i m =>
      let y : Point σ := ⟨x.past ++ [.made i], m⟩
      i = ⟨o, o.statics.inside x.size⟩ ∧ x ≤ y ∧ y.Primed c K holds ∧ i.Sits c y := by
  let m₁ : Machine σ := { x.machine with heap := (x.machine.heap.newChild o.statics).2 }
  let i : Instance := ⟨o, o.statics.inside x.size⟩
  have size₁ : m₁.heap.frames.size = x.size + 1 := Array.size_push ..
  have run₁ : Run.child o.statics x.machine = .done i.env m₁ := rfl
  obtain ⟨_, m₂, run₂, nulls⟩ := Run.declareNull_nulls i.env o.decl.fields m₁
  let m₃ : Machine σ := { m₂ with heap := m₂.heap.putAt i.env.own o.decl.receiver (.obj i) }
  let y : Point σ := ⟨x.past ++ [.made i], m₃⟩
  have run : Ember.makeInstance o x.machine = .done i m₃ := by
    simp only [Ember.makeInstance, bind, Run.bind, run₁, run₂]
    rfl
  -- only the fresh frame has changed, which binds nothing but null and the instance
  have others {a : Address} (ne : a ≠ x.size) : m₃.heap.frame a = x.machine.heap.frame a := by
    rw [Heap.frame_putAt, if_neg fun h => ne h.1, nulls.others a ne, Heap.frame_newChild]
  have fresh {s : Slot} {v : Value} (got : (m₃.heap.frame x.size).get? s = some v) :
      s = c.receiver ∧ v = .obj i ∨ v = .null := by
    rcases Heap.get?_frame_putAt got with ⟨-, rfl, rfl⟩ | got
    · exact .inl ⟨decl ▸ rfl, rfl⟩
    · refine .inr ((nulls.own s v got).resolve_left fun got => ?_)
      have empty : x.machine.heap.frame x.size = [] := Heap.frame_of_le (Nat.le_refl _)
      have got : (x.machine.heap.frame x.size).get? s = some v := by
        rwa [Heap.frame_newChild] at got
      rw [empty] at got
      exact absurd got (by simp [Frame.get?, findByKey?])
  -- what has been known of earlier points stays known at the new one
  have grows : x.machine.Grows m₃ := (growing_makeInstance o) _ _ (by rw [run]; rfl)
  have later : x ≤ y := by
    refine ⟨List.prefix_append _ _, grows, fun j made => ?_⟩
    refine (List.mem_append.1 made).imp_right fun new => ?_
    cases List.mem_singleton.1 new
    exact Nat.le_refl _
  -- the addresses of the class are those from before and the fresh one
  have own : y.Owns c x.size := ⟨i, List.mem_append_right _ (List.mem_singleton_self _), decl, rfl⟩
  have owns {a : Address} (h : y.Owns c a) : a = x.size ∨ x.Owns c a := by
    obtain ⟨j, made, hj, rfl⟩ := h
    rcases List.mem_append.1 made with old | new
    · exact .inr ⟨j, old, hj, rfl⟩
    · cases List.mem_singleton.1 new
      exact .inl rfl
  have sits : i.Sits c y := ⟨decl, own, rfl, apart.mono later⟩
  have known : x.size < m₂.heap.frames.size := by
    rw [nulls.size, size₁]
    exact Nat.lt_succ_self _
  refine ⟨i, m₃, run, rfl, later, ⟨fun a s v got => ?_, fun a ha => ?_, fun v hv => ?_⟩, sits⟩
  · by_cases new : a = x.size
    · subst new
      rcases fresh got with ⟨rfl, rfl⟩ | rfl
      · exact .inr ⟨own, rfl⟩
      · exact .inl trivial
    · have got : (x.machine.heap.frame a).get? s = some v := others new ▸ got
      exact (primed.bound a s v got).imp (fun h => h.mono later) fun h => ⟨h.1.mono later, h.2⟩
  · rcases owns ha with rfl | old
    · refine ⟨Nat.lt_of_lt_of_eq known (Heap.size_putAt ..).symm, fun s hs => ?_, i, ?_, sits, rfl⟩
      · obtain ⟨f, hf, rfl⟩ := List.mem_map.1 hs
        exact Heap.binds_putAt (nulls.binds (size₁ ▸ Nat.lt_succ_self _) f (decl ▸ hf)) _ _ _
      · rw [← decl]
        change (m₃.heap.frame i.env.own).get? o.decl.receiver = _
        rw [Heap.frame_putAt, if_pos ⟨rfl, known⟩, Frame.get?_put_self]
    · obtain ⟨lt, fields, j, got, sits', eq⟩ := primed.owned a old
      refine ⟨Nat.lt_of_lt_of_le lt (Point.size_mono later),
        fun f hf => grows.binds f a (fields f hf), j, ?_, sits'.mono later, eq⟩
      change (m₃.heap.frame a).get? c.receiver = _
      rw [others (Nat.ne_of_lt lt)]
      exact got
  · refine (primed.host v ?_).mono later
    have same : m₃.host = x.machine.host := nulls.host
    rw [← same]
    exact hv

end Point.Primed

end Ember
