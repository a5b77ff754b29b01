/-
The receivers of classes and instances while a program runs.

* `Heap.Keeps`: frames that are there keep the receivers that they bind, and get no
  others;
* `Value.Runs`, `Value.Governs`: a method runs for a value; code stands in the frame
  of a method that runs for a value;
* `Value.Rooted`: the frame of a class or of an instance binds the receiver to that
  very class or instance, and the code of its methods minds receivers;
* `seating`: the discipline that says so of all values of a run;
* `keeps_seating_call` and its companions: each kind of task keeps it.
-/
import Mathlib
import Ember.Proofs.Run.Chain
import Ember.Proofs.Scope.Receivers

namespace Ember

open Program

variable {σ : Type}

/-! ### Frames that keep their receivers -/

/-- The frames of a heap are there in another one and bind the slots of receivers to
the same values, or still do not bind them. -/
structure Heap.Keeps (R : Slot → Prop) (h h' : Heap) : Prop where
  size : h.frames.size ≤ h'.frames.size
  same : ∀ a < h.frames.size, ∀ s, R s → (h'.frame a).get? s = (h.frame a).get? s

namespace Heap.Keeps

variable {R : Slot → Prop} {h h' h'' : Heap}

/-- A heap keeps its own receivers. -/
lemma refl (R : Slot → Prop) (h : Heap) : h.Keeps R h := ⟨le_refl _, fun _ _ _ _ => rfl⟩

/-- Receivers that are kept stay kept. -/
lemma trans (k : h.Keeps R h') (k' : h'.Keeps R h'') : h.Keeps R h'' :=
  ⟨k.size.trans k'.size, fun a lt s hs =>
    (k'.same a (Nat.lt_of_lt_of_le lt k.size) s hs).trans (k.same a lt s hs)⟩

/-- Other slots may be bound. -/
lemma putAt {s : Slot} (free : ¬R s) (h : Heap) (a : Address) (v : Value) :
    h.Keeps R (h.putAt a s v) := by
  refine ⟨Nat.le_of_eq (size_putAt ..).symm, fun b _ t ht => ?_⟩
  rw [frame_putAt]
  split
  · exact Frame.get?_put_of_ne (fun same : s = t => free (same ▸ ht)) v _
  · rfl

/-- A new frame changes no receivers. -/
lemma newChild (h : Heap) (e : Environment) : h.Keeps R (h.newChild e).2 :=
  ⟨(Array.size_push ..).symm ▸ Nat.le_succ _, fun a _ s _ => by rw [frame_newChild]⟩

end Heap.Keeps

/-- A heap as far as receivers are concerned. -/
structure Seats (R : Slot → Prop) where
  heap : Heap

/-- Receivers are kept. -/
instance (R : Slot → Prop) : Preorder (Seats R) where
  le w w' := w.heap.Keeps R w'.heap
  le_refl w := .refl R w.heap
  le_trans _ _ _ := .trans

/-! ### Methods and whom they run for -/

/-- A call has a method run for a value, which the method reads from a slot of the
environment that its body stands in: a static method runs for the class and a method
for the instance that the call is made on, a constructor for an instance of the class. -/
inductive Value.Runs : Value → Slot → Environment → Method → Task Value → Prop
  | static {c : ClassObject} {m : Method} {name : String} {arguments : Option (List Value)}
      {line : Line}
      (found : findMethod? ⟨name, arguments.map List.length⟩ c.decl.staticMethods = some m) :
      Value.Runs (.cls c) c.decl.staticReceiver c.statics m (.call (.cls c) name arguments line)
  | method {i : Instance} {m : Method} {name : String} {arguments : Option (List Value)}
      {line : Line}
      (found : findMethod? ⟨name, arguments.map List.length⟩ i.cls.decl.methods = some m) :
      Value.Runs (.obj i) i.cls.decl.receiver i.env m (.call (.obj i) name arguments line)
  | constructor {i : Instance} {m : Method} {name : String} {arguments : Option (List Value)}
      {line : Line}
      (found : findMethod? ⟨name, arguments.map List.length⟩ i.cls.decl.constructors = some m) :
      Value.Runs (.obj i) i.cls.decl.receiver i.env m (.call (.cls i.cls) name arguments line)

/-- Along a chain of frames lies that of a method that a call has run for a value, with
the frames that the method stands in. -/
def Value.Governs (acts : Activity σ → Prop) (v : Value) (s : Slot) (e : Environment)
    (chain : List Address) : Prop :=
  ∃ method call fuel m₀ fuel' arguments m, v.Runs s e method call ∧ acts ⟨fuel, call, m₀⟩ ∧
    acts ⟨fuel', .body method e arguments, m⟩ ∧ (e.inside m.heap.frames.size).chain <:+ chain

/-- The receiver of code, if it has one, is that of a method around it, and it is bound
to the value that the method runs for. -/
def Governed (R : Slot → Prop) (acts : Activity σ → Prop) (h : Heap) (own : Option Slot)
    (chain : List Address) : Prop :=
  ∀ s, own = some s → R s ∧ ∃ v e, v.Governs acts s e chain ∧ e.own < h.frames.size ∧
    (h.frame e.own).get? s = some v

/-! ### Values -/

/-- The frame of a class binds its receiver to the class. The code of its methods minds
receivers: those of a declared class have the receivers of the class, a block of code
has that of the method around it. -/
structure ClassObject.Rooted (R : Slot → Prop) (acts : Activity σ → Prop) (h : Heap)
    (c : ClassObject) : Prop where
  known : c.statics.own < h.frames.size
  bound : (h.frame c.statics.own).get? c.decl.staticReceiver = some (.cls c)
  marked : R c.decl.receiver ∧ R c.decl.staticReceiver
  code : c.decl.Minds R (some c.decl.receiver) (some c.decl.staticReceiver) ∨
    ∃ own, c.decl.Minds R own own ∧ Governed R acts h own c.statics.outer

/-- The frame of an instance lies in that of its class and binds its receiver to the
instance. -/
structure Instance.Rooted (R : Slot → Prop) (acts : Activity σ → Prop) (h : Heap)
    (i : Instance) : Prop where
  cls : i.cls.Rooted R acts h
  outer : i.env.outer = i.cls.statics.chain
  known : i.env.own < h.frames.size
  bound : (h.frame i.env.own).get? i.cls.decl.receiver = some (.obj i)

/-- Classes and instances are what their own receivers are bound to. -/
def Value.Rooted (R : Slot → Prop) (acts : Activity σ → Prop) (h : Heap) : Value → Prop
  | .cls c => c.Rooted R acts h
  | .obj i => i.Rooted R acts h
  | .null | .boolean _ | .number _ | .text _ | .host _ => True

/-- The values that a machine binds and those that the host holds are rooted. -/
structure Machine.Rooted (R : Slot → Prop) (acts : Activity σ → Prop) (holds : σ → Value → Prop)
    (m : Machine σ) : Prop where
  bound : ∀ a s v, (m.heap.frame a).get? s = some v → v.Rooted R acts m.heap
  host : ∀ v, holds m.host v → v.Rooted R acts m.heap

section Values

variable {R : Slot → Prop} {acts acts' : Activity σ → Prop} {h h' : Heap} {own : Option Slot}
  {chain chain' : List Address} {holds : σ → Value → Prop} {m m' : Machine σ} {e : Environment}

/-- Code without a receiver is governed by nothing. -/
lemma governed_none : Governed R acts h none chain := fun _ hs => nomatch hs

/-- Code further inside is governed by the same value, later in the run as well. -/
lemma Governed.mono (sub : ∀ b, acts b → acts' b) (keeps : h.Keeps R h')
    (governed : Governed R acts h own chain) (inner : chain <:+ chain') :
    Governed R acts' h' own chain' := by
  intro s hs
  obtain ⟨hR, v, e, ⟨method, call, fuel, m₀, fuel', arguments, m, runs, called, act, suffix⟩, lt,
    got⟩ := governed s hs
  refine ⟨hR, v, e, ⟨method, call, fuel, m₀, fuel', arguments, m, runs, sub _ called, sub _ act,
      suffix.trans inner⟩,
    Nat.lt_of_lt_of_le lt keeps.size, ?_⟩
  rw [keeps.same e.own lt s hR]
  exact got

/-- Code is governed where receivers are kept. -/
lemma Governed.later (governed : Governed R acts h own chain) (keeps : h.Keeps R h') :
    Governed R acts h' own chain := governed.mono (fun _ => id) keeps (List.suffix_refl _)

/-- Code in a frame of its own is governed as the code around is. -/
lemma Governed.inside (governed : Governed R acts h own e.chain) (a : Address) :
    Governed R acts h own (e.inside a).chain :=
  governed.mono (fun _ => id) (.refl R h) (List.suffix_cons _ _)

/-- A class stays rooted where receivers are kept, later in the run as well. -/
lemma ClassObject.Rooted.mono (sub : ∀ b, acts b → acts' b) (keeps : h.Keeps R h')
    {c : ClassObject} (rooted : c.Rooted R acts h) : c.Rooted R acts' h' where
  known := Nat.lt_of_lt_of_le rooted.known keeps.size
  bound := (keeps.same _ rooted.known _ rooted.marked.2).trans rooted.bound
  marked := rooted.marked
  code := rooted.code.imp_right fun h =>
    h.imp fun _ h => ⟨h.1, h.2.mono sub keeps (List.suffix_refl _)⟩

/-- A value stays rooted where receivers are kept, later in the run as well. -/
lemma Value.Rooted.mono (sub : ∀ b, acts b → acts' b) (keeps : h.Keeps R h') {v : Value}
    (rooted : v.Rooted R acts h) : v.Rooted R acts' h' := by
  cases v with
  | cls c => exact ClassObject.Rooted.mono sub keeps rooted
  | obj i =>
    have rooted : i.Rooted R acts h := rooted
    exact (⟨rooted.cls.mono sub keeps, rooted.outer,
      Nat.lt_of_lt_of_le rooted.known keeps.size,
      (keeps.same _ rooted.known _ rooted.cls.marked.1).trans rooted.bound⟩ :
        i.Rooted R acts' h')
  | null | boolean _ | number _ | text _ | host _ => trivial

/-- A value stays rooted where receivers are kept. -/
lemma Value.Rooted.later {v : Value} (rooted : v.Rooted R acts h) (keeps : h.Keeps R h') :
    v.Rooted R acts h' := rooted.mono (fun _ => id) keeps

/-- A plain value has no receiver. -/
lemma Value.Rooted.of_isPlain {v : Value} (plain : v.IsPlain) : v.Rooted R acts h := by
  cases v with
  | cls _ | obj _ => exact plain.elim
  | null | boolean _ | number _ | text _ | host _ => trivial

/-- What can be had from rooted values is rooted. -/
lemma Value.From.rooted {given : Value → Prop} {v : Value} (h' : v.From given)
    (rooted : ∀ w, given w → w.Rooted R acts h) : v.Rooted R acts h :=
  h'.induct (fun _ => Value.Rooted.of_isPlain) rooted fun _ => Instance.Rooted.cls

/-! ### Primitive steps -/

/-- A step after which receivers are kept and all values are rooted. -/
def Machine.Follows (R : Slot → Prop) (acts : Activity σ → Prop) (holds : σ → Value → Prop)
    (m m' : Machine σ) : Prop := m.heap.Keeps R m'.heap ∧ m'.Rooted R acts holds

/-- One step after another. -/
lemma Machine.Follows.trans {m'' : Machine σ} (h : m.Follows R acts holds m')
    (h' : m'.Follows R acts holds m'') : m.Follows R acts holds m'' := ⟨h.1.trans h'.1, h'.2⟩

namespace Machine.Rooted

/-- Nothing happens. -/
lemma follows (rooted : m.Rooted R acts holds) : m.Follows R acts holds m :=
  ⟨.refl R _, rooted⟩

/-- A rooted value may be bound to what is no receiver. -/
lemma put (rooted : m.Rooted R acts holds) {s : Slot} (free : ¬R s) {v : Value}
    (hv : v.Rooted R acts m.heap) (a : Address) :
    m.Follows R acts holds { m with heap := m.heap.putAt a s v } := by
  have keeps := Heap.Keeps.putAt free m.heap a v
  refine ⟨keeps, fun b t w got => ?_, fun w hw => (rooted.host w hw).later keeps⟩
  rcases Heap.get?_frame_putAt got with ⟨-, -, rfl⟩ | old
  · exact hv.later keeps
  · exact (rooted.bound b t w old).later keeps

/-- A new frame binds nothing. -/
lemma child (rooted : m.Rooted R acts holds) (e : Environment) :
    (Run.child e).Succeeds m fun e' m' =>
      e' = e.inside m.heap.frames.size ∧ m.Follows R acts holds m' := by
  have keeps := Heap.Keeps.newChild (R := R) m.heap e
  refine ⟨_, _, rfl, rfl, keeps, fun b t w got => ?_, fun w hw => (rooted.host w hw).later keeps⟩
  have got : ((m.heap.newChild e).2.frame b).get? t = some w := got
  rw [Heap.frame_newChild] at got
  exact (rooted.bound b t w got).later keeps

/-- A slot that is no receiver may be bound to any rooted value. -/
lemma declare (rooted : m.Rooted R acts holds) (e : Environment) {s : Slot} (free : ¬R s)
    {v : Value} (hv : v.Rooted R acts m.heap) :
    (Run.declare e s v).Succeeds m fun _ m' => m.Follows R acts holds m' :=
  ⟨(), _, rfl, rooted.put free hv e.own⟩

/-- Slots that are no receivers may be bound to rooted values one by one. -/
lemma declareEach (rooted : m.Rooted R acts holds) (e : Environment) {ss : List Slot}
    {vs : List Value} (free : ∀ s ∈ ss, ¬R s) (hv : ∀ v ∈ vs, v.Rooted R acts m.heap) :
    (Run.declareEach e ss vs).Succeeds m fun _ m' => m.Follows R acts holds m' := by
  induction ss generalizing m vs with
  | nil => cases vs <;> exact .pure rooted.follows
  | cons s ss ih =>
    cases vs with
    | nil => exact .pure rooted.follows
    | cons v vs =>
      obtain ⟨free, others⟩ := List.forall_mem_cons.1 free
      obtain ⟨first, rest⟩ := List.forall_mem_cons.1 hv
      refine (rooted.declare e free first).bind fun _ m₁ follows => ?_
      obtain ⟨_, m₂, run, follows'⟩ := ih follows.2 others fun v hv => (rest v hv).later follows.1
      exact ⟨(), m₂, run, follows.trans follows'⟩

end Machine.Rooted

/-- A machine with one frame more, which binds a slot to a value and other slots to
null. -/
structure Machine.Founds (m m' : Machine σ) (s : Slot) (v : Value) : Prop where
  size : m'.heap.frames.size = m.heap.frames.size + 1
  host : m'.host = m.host
  others : ∀ a < m.heap.frames.size, m'.heap.frame a = m.heap.frame a
  own : ∀ t w, (m'.heap.frame m.heap.frames.size).get? t = some w → w = v ∨ w = .null
  bound : (m'.heap.frame m.heap.frames.size).get? s = some v

/-- A fresh frame whose slots are null but for the last one founds it. -/
lemma founds_of_nulls {slots : List (Slot × String)}
    (nulls : ({ m with heap := (m.heap.newChild e).2 } : Machine σ).Nulls
      (e.inside m.heap.frames.size) slots m') (s : Slot) (v : Value) :
    m.Founds { m' with heap := m'.heap.putAt m.heap.frames.size s v } s v := by
  have grown : (m.heap.newChild e).2.frames.size = m.heap.frames.size + 1 := Array.size_push ..
  have size : m'.heap.frames.size = m.heap.frames.size + 1 := nulls.size.trans grown
  have lt : m.heap.frames.size < m'.heap.frames.size := by omega
  refine ⟨(Heap.size_putAt ..).trans size, nulls.host, fun a ha => ?_, fun t w got => ?_, ?_⟩
  · have other : a ≠ m.heap.frames.size := Nat.ne_of_lt ha
    rw [Heap.frame_putAt, if_neg fun h => other h.1, nulls.others a other, Heap.frame_newChild]
  · rcases Heap.get?_frame_putAt got with ⟨-, -, rfl⟩ | old
    · exact .inl rfl
    · refine .inr ((nulls.own t w old).resolve_left fun old => ?_)
      have old : (((m.heap.newChild e).2).frame m.heap.frames.size).get? t = some w := old
      rw [Heap.frame_newChild, Heap.frame_of_le (le_refl _)] at old
      exact nomatch old
  · rw [Heap.frame_putAt, if_pos ⟨rfl, lt⟩, Frame.get?_put_self]

/-- A class is made in a frame of its own, which binds its static receiver to it. -/
lemma makeClass_founds (decl : ClassDecl) (e : Environment) (m : Machine σ) :
    (makeClass decl e).Succeeds m fun c m' => c = ⟨decl, e.inside m.heap.frames.size⟩ ∧
      m.Founds m' decl.staticReceiver (.cls c) := by
  obtain ⟨_, m₁, run, nulls⟩ := Run.declareNull_nulls (e.inside m.heap.frames.size)
    decl.staticFields ({ m with heap := (m.heap.newChild e).2 } : Machine σ)
  refine .bind (P := fun e' m' => e' = e.inside m.heap.frames.size ∧
    m' = { m with heap := (m.heap.newChild e).2 }) ⟨_, _, rfl, rfl, rfl⟩ fun e' m' h => ?_
  obtain ⟨rfl, rfl⟩ := h
  refine .bind (P := fun _ m' => m' = m₁) ⟨_, _, run, rfl⟩ fun _ m' h => ?_
  subst h
  exact ⟨_, _, rfl, rfl, founds_of_nulls nulls _ _⟩

/-- An instance is made in a frame of its own, which binds the receiver to it. -/
lemma makeInstance_founds (c : ClassObject) (m : Machine σ) :
    (makeInstance c).Succeeds m fun i m' => i = ⟨c, c.statics.inside m.heap.frames.size⟩ ∧
      m.Founds m' c.decl.receiver (.obj i) := by
  obtain ⟨_, m₁, run, nulls⟩ := Run.declareNull_nulls (c.statics.inside m.heap.frames.size)
    c.decl.fields ({ m with heap := (m.heap.newChild c.statics).2 } : Machine σ)
  refine .bind (P := fun e' m' => e' = c.statics.inside m.heap.frames.size ∧
    m' = { m with heap := (m.heap.newChild c.statics).2 }) ⟨_, _, rfl, rfl, rfl⟩ fun e' m' h => ?_
  obtain ⟨rfl, rfl⟩ := h
  refine .bind (P := fun _ m' => m' = m₁) ⟨_, _, run, rfl⟩ fun _ m' h => ?_
  subst h
  exact ⟨_, _, rfl, rfl, founds_of_nulls nulls _ _⟩

namespace Machine

/-- A frame more changes no receivers. -/
lemma Founds.keeps {s : Slot} {v : Value} (founds : m.Founds m' s v) (R : Slot → Prop) :
    m.heap.Keeps R m'.heap :=
  ⟨founds.size ▸ Nat.le_succ _, fun a lt _ _ => by rw [founds.others a lt]⟩

/-- A frame that is founded for a rooted value leaves all values rooted. -/
lemma Founds.follows {s : Slot} {v : Value} (founds : m.Founds m' s v)
    (rooted : m.Rooted R acts holds) (hv : v.Rooted R acts m'.heap) :
    m.Follows R acts holds m' := by
  have keeps := founds.keeps R
  refine ⟨keeps, fun a t w got => ?_, fun w hw => ?_⟩
  · rcases Nat.lt_trichotomy a m.heap.frames.size with old | new | beyond
    · rw [founds.others a old] at got
      exact (rooted.bound a t w got).later keeps
    · subst new
      rcases founds.own t w got with rfl | rfl
      · exact hv
      · trivial
    · rw [Heap.frame_of_le (by have := founds.size; omega)] at got
      exact nomatch got
  · rw [founds.host] at hw
    exact (rooted.host w hw).later keeps

/-- A class whose code minds receivers is rooted once it has been made. -/
lemma Rooted.makeClass (rooted : m.Rooted R acts holds) {decl : ClassDecl}
    (marked : R decl.receiver ∧ R decl.staticReceiver)
    (code : decl.Minds R (some decl.receiver) (some decl.staticReceiver) ∨
      ∃ own, decl.Minds R own own ∧ Governed R acts m.heap own e.chain) :
    (makeClass decl e).Succeeds m fun c m' =>
      c.Rooted R acts m'.heap ∧ m.Follows R acts holds m' := by
  obtain ⟨_, m', run, rfl, founds⟩ := makeClass_founds decl e m
  have keeps := founds.keeps R
  have made : ClassObject.Rooted R acts m'.heap ⟨decl, e.inside m.heap.frames.size⟩ :=
    ⟨founds.size ▸ Nat.lt_succ_self _, founds.bound, marked,
      code.imp_right fun h => h.imp fun _ h => ⟨h.1, h.2.later keeps⟩⟩
  exact ⟨_, m', run, made, founds.follows rooted made⟩

/-- Declared classes are rooted once they have been made. -/
lemma Rooted.makeClasses (rooted : m.Rooted R acts holds) {cs : List (Slot × ClassDecl)}
    (minds : classMinds R cs) (marked : ∀ c ∈ cs, R c.2.receiver ∧ R c.2.staticReceiver) :
    (makeClasses e cs).Succeeds m fun _ m' => m.Follows R acts holds m' := by
  induction cs generalizing m with
  | nil => exact .pure rooted.follows
  | cons c cs ih =>
    obtain ⟨s, c⟩ := c
    obtain ⟨free, code, minds⟩ := minds
    obtain ⟨first, others⟩ := List.forall_mem_cons.1 marked
    refine (rooted.makeClass first (.inl code)).bind fun o m₁ h₁ => ?_
    obtain ⟨made, follows₁⟩ := h₁
    refine (follows₁.2.declare e free (v := .cls o) made).bind fun _ m₂ follows₂ => ?_
    obtain ⟨_, m₃, run, follows₃⟩ := ih follows₂.2 minds others
    exact ⟨(), m₃, run, (follows₁.trans follows₂).trans follows₃⟩

/-- An instance of a rooted class is rooted once it has been made. -/
lemma Rooted.makeInstance (rooted : m.Rooted R acts holds) {c : ClassObject}
    (hc : c.Rooted R acts m.heap) :
    (makeInstance c).Succeeds m fun i m' =>
      i = ⟨c, c.statics.inside m.heap.frames.size⟩ ∧ i.Rooted R acts m'.heap ∧
        m.Follows R acts holds m' := by
  obtain ⟨_, m', run, rfl, founds⟩ := makeInstance_founds c m
  have made : Instance.Rooted R acts m'.heap ⟨c, c.statics.inside m.heap.frames.size⟩ :=
    ⟨hc.mono (fun _ => id) (founds.keeps R), rfl, founds.size ▸ Nat.lt_succ_self _, founds.bound⟩
  exact ⟨_, m', run, rfl, made, founds.follows rooted made⟩

end Machine

end Values

/-! ### The discipline -/

/-- The values that a task is given. -/
def Task.given : {α : Type} → Task α → List Value
  | _, .call receiver _ arguments _ => receiver :: arguments.getD []
  | _, .body _ _ arguments => arguments.getD []
  | _, .block _ _ | _, .stmts _ _ | _, .stmt _ _ | _, .loop _ _ _ | _, .test _ _ | _, .eval _ _
  | _, .evalAll _ _ => []

/-- The value that a statement returns, if it returns one. -/
def Completion.value? : Completion → Option Value
  | .normal => none
  | .returned v _ => some v

/-- The values that a task answers with. -/
def Task.gives : {α : Type} → Task α → α → List Value
  | _, .call _ _ _ _, v | _, .body _ _ _, v | _, .eval _ _, v => [v]
  | _, .block _ _, c | _, .stmts _ _, c | _, .stmt _ _, c | _, .loop _ _ _, c => c.value?.toList
  | _, .test _ _, _ => []
  | _, .evalAll _ _, vs => vs

/-- The code that a task performs minds receivers, and is governed by the method that
it belongs to. The body of a method is about to be so. -/
def Task.Seated (R : Slot → Prop) (acts : Activity σ → Prop) (h : Heap) :
    {α : Type} → Task α → Prop
  | _, .call _ _ _ _ => True
  | _, .body m e _ =>
    (∃ v s call fuel m₀, v.Runs s e m call ∧ acts ⟨fuel, call, m₀⟩ ∧ m.Minds R (some s) ∧ R s ∧
      e.own < h.frames.size ∧ (h.frame e.own).get? s = some v) ∨
      ∃ own, m.Minds R own ∧ Governed R acts h own e.chain
  | _, .block b e => ∃ own, b.Minds R own ∧ Governed R acts h own e.chain
  | _, .stmts ss e => ∃ own, stmtMinds R own ss ∧ Governed R acts h own e.chain
  | _, .stmt s e => ∃ own, s.Minds R own ∧ Governed R acts h own e.chain
  | _, .loop condition inner e =>
    ∃ own, (condition.Minds R own ∧ inner.Minds R own) ∧ Governed R acts h own e.chain
  | _, .test condition e => ∃ own, condition.Minds R own ∧ Governed R acts h own e.chain
  | _, .eval expr e => ∃ own, expr.Minds R own ∧ Governed R acts h own e.chain
  | _, .evalAll es e => ∃ own, exprMinds R own es ∧ Governed R acts h own e.chain

/-- The discipline of a run in which receivers are kept and all values are rooted, also
when a step fails. -/
def seating (R : Slot → Prop) (acts : Activity σ → Prop) (holds : σ → Value → Prop) :
    Discipline σ (Seats R) where
  Holds w m := w.heap = m.heap ∧ m.Rooted R acts holds
  Allows := fun w _ t Q => (t.Seated R acts w.heap ∧ ∀ v ∈ t.given, v.Rooted R acts w.heap) ∧
    Q = fun w' a => ∀ v ∈ t.gives a, v.Rooted R acts w'.heap
  Blames := fun w _ _ _ m => w.heap.Keeps R m.heap ∧ m.Rooted R acts holds

section Steps

variable {R : Slot → Prop} {acts : Activity σ → Prop} {holds : σ → Value → Prop} {host : Host σ}
  {root : Activity σ} {m m' : Machine σ} {e : Environment} {α β : Type}

/-- A plan keeps the discipline from a machine on. -/
abbrev KeepsSeats (R : Slot → Prop) (acts : Activity σ → Prop) (holds : σ → Value → Prop)
    (p : Plan σ α) (h : Heap) (m : Machine σ) (gives : α → List Value) : Prop :=
  (seating R acts holds).Keeps (fun w _ m' => w.heap.Keeps R m'.heap ∧ m'.Rooted R acts holds) p
    ⟨h⟩ m fun w a => ∀ v ∈ gives a, v.Rooted R acts w.heap

namespace KeepsSeats

variable {h : Heap} {gives : α → List Value} {gives' : β → List Value}

/-- A task that is done answers with rooted values. -/
lemma done (keeps : h.Keeps R m.heap) (rooted : m.Rooted R acts holds) {a : α}
    (answer : ∀ v ∈ gives a, v.Rooted R acts m.heap) :
    KeepsSeats R acts holds (pure a) h m gives :=
  Discipline.Keeps.pure (show (⟨h⟩ : Seats R) ≤ ⟨m.heap⟩ from keeps) ⟨rfl, rooted⟩ answer

/-- A task that starts another one goes on with what comes out of it. -/
lemma start {t : Task α} {f : α → Plan σ β} (keeps : h.Keeps R m.heap)
    (rooted : m.Rooted R acts holds) (seated : t.Seated R acts m.heap)
    (given : ∀ v ∈ t.given, v.Rooted R acts m.heap)
    (next : ∀ m' a, m.Follows R acts holds m' → (∀ v ∈ t.gives a, v.Rooted R acts m'.heap) →
      KeepsSeats R acts holds (f a) m'.heap m' gives') :
    KeepsSeats R acts holds (Plan.start t >>= f) h m gives' := by
  refine Discipline.Keeps.start _ (show (⟨h⟩ : Seats R) ≤ ⟨m.heap⟩ from keeps) ⟨rfl, rooted⟩
    ⟨⟨seated, given⟩, rfl⟩ fun w m' a grown holding answer => ?_
  obtain ⟨h'⟩ := w
  obtain ⟨rfl, rooted'⟩ := holding
  exact next m' a ⟨grown, rooted'⟩ answer

/-- The last task of a plan answers for it. -/
lemma last {t : Task α} (keeps : h.Keeps R m.heap) (rooted : m.Rooted R acts holds)
    (seated : t.Seated R acts m.heap) (given : ∀ v ∈ t.given, v.Rooted R acts m.heap) :
    KeepsSeats R acts holds (Plan.start t) h m t.gives :=
  Discipline.Keeps.last (show (⟨h⟩ : Seats R) ≤ ⟨m.heap⟩ from keeps) ⟨rfl, rooted⟩
    ⟨⟨seated, given⟩, rfl⟩

/-- A last step answers for the plan. -/
lemma finish {x : Run σ α} {a : α} (run : x m = .done a m') (keeps : h.Keeps R m'.heap)
    (rooted : m'.Rooted R acts holds) (answer : ∀ v ∈ gives a, v.Rooted R acts m'.heap) :
    KeepsSeats R acts holds (Plan.step x) h m gives :=
  Discipline.Keeps.finish run (show (⟨h⟩ : Seats R) ≤ ⟨m'.heap⟩ from keeps) ⟨rfl, rooted⟩ answer

end KeepsSeats

/-- An honest host answers with rooted values, and stores no others. -/
lemma Machine.Rooted.ofHost (honest : host.Honest holds) {o : HostHandle} {method : Selector}
    {run : HostMethod σ} (found : host.findMethod? o method = some run) {arguments : List Value}
    (given : ∀ v ∈ arguments, v.Rooted R acts m.heap) (rooted : m.Rooted R acts holds) :
    ({ m with host := (run arguments m.host).2 } : Machine σ).Rooted R acts holds ∧
      ∀ v, (run arguments m.host).1 = .ok v → v.Rooted R acts m.heap := by
  have known (w : Value) (h : w ∈ arguments ∨ holds m.host w) : w.Rooted R acts m.heap :=
    h.elim (given w) (rooted.host w)
  exact ⟨⟨rooted.bound, fun v hv =>
      (honest.keeps o method run found arguments m.host v hv).rooted known⟩,
    fun v ok => (honest.answers o method run found arguments m.host v ok).rooted known⟩

/-- A method that runs for a value minds receivers. -/
lemma ClassObject.Rooted.seated {c : ClassObject} (rooted : c.Rooted R acts m.heap) {v : Value}
    {method : Method} {s : Slot} {call : Task Value} (runs : v.Runs s e method call) {fuel : Nat}
    {m₀ : Machine σ} (called : acts ⟨fuel, call, m₀⟩) (hs : R s)
    (known : e.own < m.heap.frames.size) (bound : (m.heap.frame e.own).get? s = some v)
    (inner : c.statics.outer <:+ e.chain)
    (own : c.decl.Minds R (some c.decl.receiver) (some c.decl.staticReceiver) →
      method.Minds R (some s))
    (made : ∀ own, c.decl.Minds R own own → method.Minds R own) (arguments : Option (List Value)) :
    (Task.body method e arguments).Seated R acts m.heap := by
  rcases rooted.code with declared | ⟨around, minds, governed⟩
  · exact .inl ⟨v, s, call, fuel, m₀, runs, called, own declared, hs, known, bound⟩
  · exact .inr ⟨around, made around minds, governed.mono (fun _ => id) (.refl R _) inner⟩

/-- The methods and constructors of an instance stand in its frame. -/
lemma Instance.Rooted.seated {i : Instance} (rooted : i.Rooted R acts m.heap) {method : Method}
    {call : Task Value} (runs : (Value.obj i).Runs i.cls.decl.receiver i.env method call)
    {fuel : Nat} {m₀ : Machine σ} (called : acts ⟨fuel, call, m₀⟩)
    (hm : method ∈ i.cls.decl.constructors ∨ method ∈ i.cls.decl.methods)
    (arguments : Option (List Value)) :
    (Task.body method i.env arguments).Seated R acts m.heap := by
  refine rooted.cls.seated runs called rooted.cls.marked.1 rooted.known rooted.bound ?_
    (fun minds => minds.method.1 hm) (fun _ minds => minds.method.1 hm) arguments
  rw [Environment.chain, rooted.outer]
  exact (List.suffix_cons _ _).trans (List.suffix_cons _ _)

/-- A call runs a method for its receiver, or asks a host or a native method. -/
lemma keeps_seating_call (honest : host.Honest holds) {receiver : Value} {name : String}
    {arguments : Option (List Value)} {line : Line} {fuel : Nat}
    (act : acts ⟨fuel, .call receiver name arguments line, m⟩)
    (given : ∀ v ∈ receiver :: arguments.getD [], v.Rooted R acts m.heap)
    (rooted : m.Rooted R acts holds) :
    KeepsSeats R acts holds ((Task.call receiver name arguments line).plan host) m.heap m
      (Task.call receiver name arguments line).gives := by
  have keeps := Heap.Keeps.refl R m.heap
  obtain ⟨receiver', others⟩ := List.forall_mem_cons.1 given
  cases receiver with
  | cls c =>
    have receiver' : c.Rooted R acts m.heap := receiver'
    rw [Task.plan]
    split
    -- a constructor runs for a new instance, and the call answers with that
    · next method found =>
      obtain ⟨hm, -⟩ := findMethod?_spec found
      obtain ⟨i, m₁, run, rfl, made, follows⟩ := rooted.makeInstance receiver'
      refine .step run (KeepsSeats.start follows.1 follows.2
        (made.seated (.constructor found) act (.inl hm) arguments)
        (fun v hv => (others v hv).later follows.1) fun m₂ v follows₂ _ => ?_)
      refine KeepsSeats.done (.refl R _) follows₂.2 fun v hv => ?_
      rw [List.mem_singleton.1 hv]
      exact Value.Rooted.later (v := .obj _) made follows₂.1
    · split
      -- a static method runs in the environment of the class
      · next method found =>
        obtain ⟨hm, -⟩ := findMethod?_spec found
        refine KeepsSeats.last keeps rooted ?_ others
        exact receiver'.seated (.static found) act receiver'.marked.2 receiver'.known
          receiver'.bound (List.suffix_cons _ _) (fun minds => minds.method.2 hm)
          (fun _ minds => minds.method.2 hm) arguments
      · exact .fail rfl rooted.follows
  | obj i =>
    have receiver' : i.Rooted R acts m.heap := receiver'
    rw [Task.plan]
    split
    · next method found =>
      exact KeepsSeats.last keeps rooted
        (receiver'.seated (.method found) act (.inr (findMethod?_spec found).1) arguments) others
    · exact .fail rfl rooted.follows
  | host o =>
    rw [Task.plan]
    split
    -- a host method may replace the state of the host, and answers with a value at hand
    · next method found =>
      obtain ⟨rooted', answer⟩ := rooted.ofHost honest found others
      rcases Run.ofHost_cases line method (arguments.getD []) m with
        ⟨v, ok, run⟩ | ⟨cause, -, run⟩
      · exact KeepsSeats.finish run keeps rooted' fun w hw =>
          List.mem_singleton.1 hw ▸ answer v ok
      · exact .fail run ⟨keeps, rooted'⟩
    · exact .fail rfl rooted.follows
  | null | boolean _ | number _ | text _ =>
    simp only [Task.plan]
    split
    · next method found =>
      rcases native_spec found (arguments.getD []) with ⟨v, run, plain⟩ | ⟨cause, run, -⟩
      · rw [run]
        exact KeepsSeats.finish rfl keeps rooted fun w hw =>
          List.mem_singleton.1 hw ▸ .of_isPlain plain
      · rw [run]
        exact .fail rfl rooted.follows
    · exact .fail rfl rooted.follows

/-- A body stands in a frame of its own, in which its parameters are bound. -/
lemma keeps_seating_body {method : Method} {arguments : Option (List Value)} {fuel : Nat}
    (act : acts ⟨fuel, .body method e arguments, m⟩)
    (seated : (Task.body method e arguments).Seated R acts m.heap)
    (given : ∀ v ∈ arguments.getD [], v.Rooted R acts m.heap) (rooted : m.Rooted R acts holds) :
    KeepsSeats R acts holds ((Task.body method e arguments).plan host) m.heap m
      (Task.body method e arguments).gives := by
  obtain ⟨own, minds, governed⟩ : ∃ own, method.Minds R own ∧
      Governed R acts m.heap own (e.inside m.heap.frames.size).chain := by
    rcases seated with ⟨v, s, call, fuel₀, m₀, runs, called, minds, hs, known, bound⟩ |
      ⟨own, minds, governed⟩
    · refine ⟨some s, minds, fun t ht => ?_⟩
      cases ht
      exact ⟨hs, v, e, ⟨method, call, fuel₀, m₀, fuel, arguments, m, runs, called, act,
        List.suffix_refl _⟩, known, bound⟩
    · exact ⟨own, minds, governed.inside _⟩
  obtain ⟨frame, m₁, run₁, rfl, follows₁⟩ := rooted.child e
  obtain ⟨_, m₂, run₂, follows₂⟩ := follows₁.2.declareEach (e.inside m.heap.frames.size) minds.1
    fun v hv => (given v hv).later follows₁.1
  have follows := follows₁.trans follows₂
  refine .step run₁ (.step run₂ (KeepsSeats.start follows.1 follows.2
    ⟨own, minds.2, governed.later follows.1⟩ (List.forall_mem_nil _)
    fun m₃ c follows₃ answer => ?_))
  cases c with
  | normal =>
    refine KeepsSeats.done (.refl R _) follows₃.2 fun v hv => ?_
    rw [List.mem_singleton.1 hv]
    trivial
  | returned v line => exact KeepsSeats.done (.refl R _) follows₃.2 answer

/-- A block files its classes in a frame of its own. -/
lemma keeps_seating_block {b : Block} {own : Option Slot} (minds : b.Minds R own)
    (governed : Governed R acts m.heap own e.chain)
    (marked : ∀ c ∈ b.classes, R c.2.receiver ∧ R c.2.staticReceiver)
    (rooted : m.Rooted R acts holds) :
    KeepsSeats R acts holds ((Task.block b e).plan host) m.heap m (Task.block b e).gives := by
  obtain ⟨ss, names, cs⟩ := b
  obtain ⟨frame, m₁, run₁, rfl, follows₁⟩ := rooted.child e
  obtain ⟨_, m₂, run₂, follows₂⟩ := follows₁.2.makeClasses (e := e.inside m.heap.frames.size)
    minds.1 marked
  have follows := follows₁.trans follows₂
  exact .step run₁ (.step run₂ (KeepsSeats.last follows.1 follows.2
    ⟨own, minds.2, (governed.inside _).later follows.1⟩ (List.forall_mem_nil _)))

/-- Statements are executed one after the other. -/
lemma keeps_seating_stmts {ss : List Stmt} {own : Option Slot} (minds : stmtMinds R own ss)
    (governed : Governed R acts m.heap own e.chain) (rooted : m.Rooted R acts holds) :
    KeepsSeats R acts holds ((Task.stmts ss e).plan host) m.heap m (Task.stmts ss e).gives := by
  have keeps := Heap.Keeps.refl R m.heap
  cases ss with
  | nil => exact KeepsSeats.done keeps rooted (List.forall_mem_nil _)
  | cons s ss =>
    refine KeepsSeats.start keeps rooted ⟨own, minds.1, governed⟩ (List.forall_mem_nil _)
      fun m₁ c follows answer => ?_
    cases c with
    | normal =>
      exact KeepsSeats.last (.refl R _) follows.2 ⟨own, minds.2, governed.later follows.1⟩
        (List.forall_mem_nil _)
    | returned v line => exact KeepsSeats.done (.refl R _) follows.2 answer

/-- A statement is executed in the frame around it. -/
lemma keeps_seating_stmt {s : Stmt} {own : Option Slot} (minds : s.Minds R own)
    (governed : Governed R acts m.heap own e.chain) (rooted : m.Rooted R acts holds) :
    KeepsSeats R acts holds ((Task.stmt s e).plan host) m.heap m (Task.stmt s e).gives := by
  have keeps := Heap.Keeps.refl R m.heap
  cases s with
  | block b => exact KeepsSeats.last keeps rooted ⟨own, minds, governed⟩ (List.forall_mem_nil _)
  | branch condition yes no line =>
    obtain ⟨first, second, third⟩ : condition.Minds R own ∧ yes.Minds R own ∧
        ∀ t, no = some t → t.Minds R own := by
      cases no with
      | none => exact ⟨minds.1, minds.2.1, by simp⟩
      | some no => exact ⟨minds.1, minds.2.1, fun t ht => Option.some.inj ht ▸ minds.2.2⟩
    refine KeepsSeats.start keeps rooted ⟨own, first, governed⟩ (List.forall_mem_nil _)
      fun m₁ c follows _ => ?_
    have governed₁ := governed.later follows.1
    cases c with
    | true =>
      exact KeepsSeats.last (.refl R _) follows.2 ⟨own, second, governed₁⟩
        (List.forall_mem_nil _)
    | false =>
      cases no with
      | none => exact KeepsSeats.done (.refl R _) follows.2 (List.forall_mem_nil _)
      | some no =>
        exact KeepsSeats.last (.refl R _) follows.2 ⟨own, third no rfl, governed₁⟩
          (List.forall_mem_nil _)
  | loop condition body line =>
    exact KeepsSeats.last keeps rooted ⟨own, minds, governed⟩ (List.forall_mem_nil _)
  | var slot init line =>
    -- a variable declares its own slot, which is no receiver
    have free : ¬R slot := by cases init <;> exact minds.1
    have declared {v : Value} {m₁ : Machine σ} {h : Heap} (kept : h.Keeps R m₁.heap)
        (rooted₁ : m₁.Rooted R acts holds) (hv : v.Rooted R acts m₁.heap) :
        KeepsSeats R acts holds (do
            Plan.step (Run.declare e slot v)
            return Completion.normal) h m₁ fun c => c.value?.toList := by
      obtain ⟨_, m₂, run, follows⟩ := rooted₁.declare e free hv
      exact .step run (KeepsSeats.done (kept.trans follows.1) follows.2 (List.forall_mem_nil _))
    cases init with
    | none => exact declared (v := .null) keeps rooted trivial
    | some init =>
      exact KeepsSeats.start keeps rooted ⟨own, minds.2, governed⟩ (List.forall_mem_nil _)
        fun m₁ v follows answer =>
          declared (.refl R _) follows.2 (answer v (List.mem_singleton_self v))
  | ret value line =>
    cases value with
    | none =>
      refine KeepsSeats.done keeps rooted fun v hv => ?_
      rw [List.mem_singleton.1 hv]
      trivial
    | some value =>
      exact KeepsSeats.start keeps rooted ⟨own, minds, governed⟩ (List.forall_mem_nil _)
        fun m₁ v follows answer => KeepsSeats.done (.refl R _) follows.2 answer
  | eval expr =>
    exact KeepsSeats.start keeps rooted ⟨own, minds, governed⟩ (List.forall_mem_nil _)
      fun m₁ v follows _ => KeepsSeats.done (.refl R _) follows.2 (List.forall_mem_nil _)

/-- A loop goes on for as long as its condition holds. -/
lemma keeps_seating_loop {condition : Expr} {inner : Stmt} {own : Option Slot}
    (minds : condition.Minds R own ∧ inner.Minds R own)
    (governed : Governed R acts m.heap own e.chain) (rooted : m.Rooted R acts holds) :
    KeepsSeats R acts holds ((Task.loop condition inner e).plan host) m.heap m
      (Task.loop condition inner e).gives := by
  refine KeepsSeats.start (.refl R _) rooted ⟨own, minds.1, governed⟩ (List.forall_mem_nil _)
    fun m₁ c follows₁ _ => ?_
  cases c with
  | false => exact KeepsSeats.done (.refl R _) follows₁.2 (List.forall_mem_nil _)
  | true =>
    refine KeepsSeats.start (.refl R _) follows₁.2 ⟨own, minds.2, governed.later follows₁.1⟩
      (List.forall_mem_nil _) fun m₂ c follows₂ answer => ?_
    cases c with
    | normal =>
      exact KeepsSeats.last (.refl R _) follows₂.2
        ⟨own, minds, governed.later (follows₁.1.trans follows₂.1)⟩ (List.forall_mem_nil _)
    | returned v line => exact KeepsSeats.done (.refl R _) follows₂.2 answer

/-- A condition is evaluated and tested. -/
lemma keeps_seating_test {condition : Expr} {own : Option Slot} (minds : condition.Minds R own)
    (governed : Governed R acts m.heap own e.chain) (rooted : m.Rooted R acts holds) :
    KeepsSeats R acts holds ((Task.test condition e).plan host) m.heap m
      (Task.test condition e).gives := by
  refine KeepsSeats.start (.refl R _) rooted ⟨own, minds, governed⟩ (List.forall_mem_nil _)
    fun m₁ v follows _ => ?_
  cases v with
  | boolean b => exact KeepsSeats.done (.refl R _) follows.2 (List.forall_mem_nil _)
  | null | number _ | text _ | cls _ | obj _ | host _ => exact .fail rfl follows.2.follows

/-- A value that is read is rooted. -/
lemma Machine.Rooted.get (rooted : m.Rooted R acts holds) {s : Slot} {v : Value}
    (got : m.heap.get? e s = some v) : v.Rooted R acts m.heap := by
  obtain ⟨a, -, got⟩ := Heap.get?_eq_some got
  exact rooted.bound a s v got

/-- An expression is evaluated to a rooted value, a class to a new one. -/
lemma keeps_seating_eval {expr : Expr} {own : Option Slot} (minds : expr.Minds R own)
    (governed : Governed R acts m.heap own e.chain)
    (marked : ∀ decl, expr = .cls decl → R decl.receiver ∧ R decl.staticReceiver)
    (rooted : m.Rooted R acts holds) :
    KeepsSeats R acts holds ((Task.eval expr e).plan host) m.heap m (Task.eval expr e).gives := by
  have keeps := Heap.Keeps.refl R m.heap
  cases expr with
  | assign target value line =>
    refine KeepsSeats.start keeps rooted ⟨own, minds.2, governed⟩ (List.forall_mem_nil _)
      fun m₁ v follows answer => ?_
    have hv := answer v (List.mem_singleton_self v)
    -- no receiver is assigned to, and any other slot may hold a rooted value
    rcases Run.assign_cases e target v line m₁ with ⟨a, -, run⟩ | ⟨-, run⟩
    · have follows₂ := follows.2.put minds.1 hv a
      refine .step run (KeepsSeats.done follows₂.1 follows₂.2 fun w hw => ?_)
      exact List.mem_singleton.1 hw ▸ hv.later follows₂.1
    · exact .failFirst run follows.2.follows
  | call receiver name arguments line =>
    have first : receiver.Minds R own := by cases arguments <;> exact minds.1
    refine KeepsSeats.start keeps rooted ⟨own, first, governed⟩ (List.forall_mem_nil _)
      fun m₁ v follows answer => ?_
    have hv := answer v (List.mem_singleton_self v)
    cases arguments with
    | none =>
      exact KeepsSeats.last (.refl R _) follows.2 trivial
        (List.forall_mem_cons.2 ⟨hv, List.forall_mem_nil _⟩)
    | some es =>
      refine KeepsSeats.start (.refl R _) follows.2 ⟨own, minds.2, governed.later follows.1⟩
        (List.forall_mem_nil _) fun m₂ vs follows₂ answers => ?_
      exact KeepsSeats.last (.refl R _) follows₂.2 trivial
        (List.forall_mem_cons.2 ⟨hv.later follows₂.1, answers⟩)
  | literal value line =>
    refine KeepsSeats.done keeps rooted fun v hv => ?_
    rw [List.mem_singleton.1 hv]
    cases value <;> trivial
  | read s line =>
    rcases Run.get_cases e s line m with ⟨v, got, run⟩ | ⟨-, run⟩
    · exact KeepsSeats.finish run keeps rooted fun w hw =>
        List.mem_singleton.1 hw ▸ rooted.get got
    · exact .fail run rooted.follows
  | logical op left right line =>
    refine KeepsSeats.start keeps rooted ⟨own, minds.1, governed⟩ (List.forall_mem_nil _)
      fun m₁ v follows answer => ?_
    cases v with
    | boolean b =>
      dsimp only
      split
      · exact KeepsSeats.done (.refl R _) follows.2 answer
      · refine KeepsSeats.start (.refl R _) follows.2 ⟨own, minds.2, governed.later follows.1⟩
          (List.forall_mem_nil _) fun m₂ v follows₂ answer => ?_
        cases v with
        | boolean b => exact KeepsSeats.done (.refl R _) follows₂.2 answer
        | null | number _ | text _ | cls _ | obj _ | host _ =>
          exact .fail rfl follows₂.2.follows
    | null | number _ | text _ | cls _ | obj _ | host _ => exact .fail rfl follows.2.follows
  | cls decl =>
    obtain ⟨c, m₁, run, made, follows⟩ :=
      rooted.makeClass (marked decl rfl) (.inr ⟨own, minds, governed⟩)
    refine .step run (KeepsSeats.done follows.1 follows.2 fun v hv => ?_)
    rw [List.mem_singleton.1 hv]
    exact made

/-- Expressions are evaluated one after the other. -/
lemma keeps_seating_evalAll {es : List Expr} {own : Option Slot} (minds : exprMinds R own es)
    (governed : Governed R acts m.heap own e.chain) (rooted : m.Rooted R acts holds) :
    KeepsSeats R acts holds ((Task.evalAll es e).plan host) m.heap m
      (Task.evalAll es e).gives := by
  have keeps := Heap.Keeps.refl R m.heap
  cases es with
  | nil => exact KeepsSeats.done keeps rooted (List.forall_mem_nil _)
  | cons expr rest =>
    refine KeepsSeats.start keeps rooted ⟨own, minds.1, governed⟩ (List.forall_mem_nil _)
      fun m₁ v follows₁ answer => ?_
    refine KeepsSeats.start (.refl R _) follows₁.2 ⟨own, minds.2, governed.later follows₁.1⟩
      (List.forall_mem_nil _) fun m₂ vs follows₂ answers => ?_
    refine KeepsSeats.done (.refl R _) follows₂.2 ?_
    exact List.forall_mem_cons.2
      ⟨(answer v (List.mem_singleton_self v)).later follows₂.1, answers⟩

end Steps

end Ember
