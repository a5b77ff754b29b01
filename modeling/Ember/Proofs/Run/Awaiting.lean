/-
Which classes running code can get hold of while a variable is pending.

* `Site`: the frames of a run, each with its layer and the frames that it lies in, and the
  machine;
* `Site.Pending`: a variable is visible along a chain of frames and bound in none of them;
* `Site.Trusted`: a chain of frames that lie in each other. A class whose frame is on the
  chain does not touch the variable while it is pending there;
* `Value.Harmless`: the code of a class or of an instance stands in a trusted chain;
* `ClassObject.Stowed`: a class that is kept in its own frame or in the frame that it is
  declared in, where it may be read later;
* `Site.Guarded`: all values in frames are harmless or stowed;
* `Site.Guarded.child`, `Site.Guarded.makeClass` and the others: primitive steps keep it so.
-/
import Mathlib
import Ember.Proofs.Flow.Production
import Ember.Proofs.Flow.Reaching
import Ember.Proofs.Run.Chain
import Ember.Proofs.Run.Receivers

namespace Ember

open Program

variable {σ : Type}

/-! ### Sites -/

/-- The frames of a run, each with its layer and with the frames that it lies in, and the
machine. -/
structure Site (σ : Type) where
  frames : List (Layer × List Address)
  machine : Machine σ

namespace Site

/-- Frames are only ever added, and what is bound stays bound. -/
instance : Preorder (Site σ) where
  le w w' := w.frames <+: w'.frames ∧ w.machine.Grows w'.machine
  le_refl w := ⟨List.prefix_refl _, .refl _⟩
  le_trans _ _ _ h h' := ⟨h.1.trans h'.1, h.2.trans h'.2⟩

/-- The layers of the frames. -/
def layers (w : Site σ) : Layers := ⟨w.frames.map Prod.fst⟩

/-- The frames that a frame lies in. -/
def outer? (w : Site σ) (a : Address) : Option (List Address) := (w.frames[a]?).map Prod.snd

/-- More frames, after the others, on another machine. -/
def add (w : Site σ) (fs : List (Layer × List Address)) (m : Machine σ) : Site σ :=
  ⟨w.frames ++ fs, m⟩

variable {w w' : Site σ} {a : Address} {chain : List Address}

/-- Layers stay later in a run. -/
lemma layers_mono (h : w ≤ w') : w.layers ≤ w'.layers := h.1.map Prod.fst

/-- New frames come with their layers. -/
lemma layers_add (w : Site σ) (fs : List (Layer × List Address)) (m : Machine σ) :
    (w.add fs m).layers = w.layers.add (fs.map Prod.fst) := by
  simp [layers, add, Layers.add]

/-- There is a layer for each frame. -/
lemma size_layers (w : Site σ) : w.layers.size = w.frames.length := List.length_map _

/-- A site with more frames is later. -/
lemma le_add {fs : List (Layer × List Address)} {m : Machine σ} (grows : w.machine.Grows m) :
    w ≤ w.add fs m := ⟨List.prefix_append _ _, grows⟩

/-- A site whose machine has grown is later. -/
lemma le_on {m : Machine σ} (grows : w.machine.Grows m) : w ≤ { w with machine := m } :=
  ⟨List.prefix_refl _, grows⟩

/-- The frames around a frame stay the same. -/
lemma outer?_mono (h : w ≤ w') (known : w.outer? a = some chain) : w'.outer? a = some chain := by
  obtain ⟨f, at_a, rfl⟩ := Option.map_eq_some_iff.1 known
  obtain ⟨rest, same⟩ := h.1
  have lt : a < w.frames.length := (List.getElem?_eq_some_iff.1 at_a).1
  rw [outer?, ← same, List.getElem?_append_left lt, at_a]
  rfl

/-- A frame with frames around it is one of the frames. -/
lemma lt_of_outer? (known : w.outer? a = some chain) : a < w.layers.size := by
  obtain ⟨f, at_a, rfl⟩ := Option.map_eq_some_iff.1 known
  rw [size_layers]
  exact (List.getElem?_eq_some_iff.1 at_a).1

/-- The first new frame lies in the frames it was made in. -/
lemma outer?_add_size (w : Site σ) (l : Layer) (outer : List Address) (m : Machine σ) :
    (w.add [(l, outer)] m).outer? w.layers.size = some outer := by
  simp [outer?, add, size_layers]

/-- The first new frame has its layer. -/
lemma at?_add_size (w : Site σ) (l : Layer) (outer : List Address) (m : Machine σ) :
    (w.add [(l, outer)] m).layers.at? w.layers.size = some l := by
  rw [layers_add]
  exact w.layers.at?_add_size l []

/-! ### Pending variables -/

/-- A variable is visible along a chain of frames, and none of them binds it. -/
def Pending (x : Slot) (w : Site σ) (chain : List Address) : Prop :=
  x ∈ w.layers.visible chain ∧ ∀ a ∈ chain, w.machine.heap.binds x a = false

/-- The frames of a chain lie in each other. A class whose frame is on the chain does not
touch a variable that is pending there. -/
def Trusted (named : List (Slot × ClassDecl)) (x : Slot) (w : Site σ) : List Address → Prop
  | [] => True
  | a :: rest =>
    w.outer? a = some rest ∧
      (∀ c, w.layers.at? a = some (.statics c) → w.Pending x (a :: rest) → ¬c.Touches named x) ∧
        Trusted named x w rest

variable {named : List (Slot × ClassDecl)} {x : Slot} {rest chain' : List Address} {l : Layer}

/-- What is pending later was so before. -/
lemma Pending.of_le (h : w ≤ w') (known : ∀ a ∈ chain, a < w.layers.size)
    (pending : w'.Pending x chain) : w.Pending x chain := by
  obtain ⟨visible, unbound⟩ := pending
  rw [Layers.visible_mono (layers_mono h) known] at visible
  refine ⟨visible, fun a ha => ?_⟩
  by_contra bound
  rw [Bool.not_eq_false] at bound
  exact Bool.noConfusion ((h.2.binds x a bound).symm.trans (unbound a ha))

/-- A frame that does not have the variable is not the one that it is pending in. -/
lemma Pending.tail (at_a : w.layers.at? a = some l) (other : x ∉ l.slots)
    (pending : w.Pending x (a :: rest)) : w.Pending x rest := by
  obtain ⟨visible, unbound⟩ := pending
  rw [Layers.visible_cons at_a] at visible
  exact ⟨(List.mem_append.1 visible).resolve_left other,
    fun b hb => unbound b (List.mem_cons_of_mem _ hb)⟩

/-- A variable that is pending further out is pending, where no slot is visible twice. -/
lemma Pending.of_suffix {all roles : List (Slot × SlotRole)} {holds : σ → Value → Prop}
    {mentions : List Slot → Prop} (fits : w.machine.Fits all holds w.layers [])
    (placed : w.layers.Placed all chain mentions roles) (sub : chain' <:+ chain)
    (pending : w.Pending x chain') : w.Pending x chain := by
  obtain ⟨front, rfl⟩ := sub
  obtain ⟨visible, unbound⟩ := pending
  have split : w.layers.visible (front ++ chain') =
      w.layers.visible front ++ w.layers.visible chain' := List.flatMap_append
  refine ⟨split ▸ List.mem_append_right _ visible, fun a ha => ?_⟩
  rcases List.mem_append.1 ha with ha | ha
  · by_contra bound
    rw [Bool.not_eq_false] at bound
    obtain ⟨v, got⟩ := Option.isSome_iff_exists.1 bound
    have first : x ∈ w.layers.visible front :=
      List.mem_flatMap.2 ⟨a, ha, (fits.bound a x v got).1⟩
    have room := placed.room x
    rw [split, List.count_append] at room
    have := List.count_pos_iff.2 first
    have := List.count_pos_iff.2 visible
    omega
  · exact unbound a ha

namespace Trusted

/-- Code further out is trusted as well. -/
lemma suffix (trusted : w.Trusted named x chain) (sub : chain' <:+ chain) :
    w.Trusted named x chain' := by
  induction chain with
  | nil =>
    rw [List.suffix_nil.1 sub]
    trivial
  | cons a rest ih =>
    rcases List.suffix_cons_iff.1 sub with rfl | sub
    · exact trusted
    · exact ih trusted.2.2 sub

/-- The frames that a frame of a trusted chain lies in are those further out. -/
lemma outer (trusted : w.Trusted named x chain) (ha : a ∈ chain) :
    ∃ rest, w.outer? a = some rest ∧ a :: rest <:+ chain := by
  obtain ⟨front, rest, rfl⟩ := List.append_of_mem ha
  have sub : a :: rest <:+ front ++ a :: rest := List.suffix_append _ _
  exact ⟨rest, (trusted.suffix sub).1, sub⟩

/-- A trusted chain consists of known frames. -/
lemma lt (trusted : w.Trusted named x chain) (ha : a ∈ chain) : a < w.layers.size := by
  obtain ⟨rest, known, -⟩ := trusted.outer ha
  exact lt_of_outer? known

/-- A chain stays trusted. -/
lemma mono (h : w ≤ w') (trusted : w.Trusted named x chain) : w'.Trusted named x chain := by
  induction chain with
  | nil => trivial
  | cons a rest ih =>
    refine ⟨outer?_mono h trusted.1, fun c at_a pending => ?_, ih trusted.2.2⟩
    have known := trusted.lt (List.mem_cons_self ..)
    obtain ⟨l, before⟩ : ∃ l, w.layers.at? a = some l :=
      ⟨_, List.getElem?_eq_getElem known⟩
    rw [Layers.at?_mono (layers_mono h) before] at at_a
    exact trusted.2.1 c (before.trans at_a) (pending.of_le h fun b hb => trusted.lt hb)

/-- A fresh frame in a trusted chain, which is not that of a class. -/
lemma inside (trusted : w.Trusted named x chain) {m : Machine σ} (grows : w.machine.Grows m)
    (plain : ∀ c, l ≠ .statics c) :
    (w.add [(l, chain)] m).Trusted named x (w.layers.size :: chain) := by
  refine ⟨outer?_add_size .., fun c at_a => ?_, trusted.mono (le_add grows)⟩
  rw [at?_add_size] at at_a
  exact absurd (Option.some.inj at_a) (plain c)

end Trusted

end Site

/-! ### Values -/

section Values

variable (script : Script) (x : Slot)

/-- The code of a class of the program stands in a trusted chain, in which its own frame
is. -/
def ClassObject.Harmless (w : Site σ) (c : ClassObject) : Prop :=
  c.decl ∈ script.decls ∧ w.Trusted script.namedClasses x c.statics.chain

/-- The code of a class or of an instance stands in a trusted chain. -/
def Value.Harmless (w : Site σ) : Value → Prop
  | .cls c => c.Harmless script x w
  | .obj i => i.cls.Harmless script x w ∧ w.Trusted script.namedClasses x i.env.chain
  | .null | .boolean _ | .number _ | .text _ | .host _ => True

/-- A class is bound to a slot of its own frame, or to the slot that it is declared by in the
frame around it. The frames around it are trusted. -/
structure ClassObject.Stowed (w : Site σ) (a : Address) (s : Slot) (c : ClassObject) : Prop where
  decl : c.decl ∈ script.decls
  own : w.outer? c.statics.own = some c.statics.outer
  outer : w.Trusted script.namedClasses x c.statics.outer
  place : a = c.statics.own ∨
    script.namedClasses.lookup s = some c.decl ∧ ∃ rest, c.statics.outer = a :: rest

/-- A value that may be bound to a slot of a frame. -/
def Site.Admits (w : Site σ) (a : Address) (s : Slot) (v : Value) : Prop :=
  v.Harmless script x w ∨ ∃ c, v = .cls c ∧ c.Stowed script x w a s

/-- All values that frames bind are harmless or stowed, and those of the host are
harmless. -/
structure Site.Guarded (holds : σ → Value → Prop) (w : Site σ) : Prop where
  size : w.machine.heap.frames.size = w.layers.size
  bound : ∀ a s v, (w.machine.heap.frame a).get? s = some v → w.Admits script x a s v
  host : ∀ v, holds w.machine.host v → v.Harmless script x w

end Values

section Steps

variable {script : Script} {x : Slot} {w w' : Site σ} {a : Address} {s : Slot} {v : Value}
  {c : ClassObject} {holds : σ → Value → Prop} {e : Environment} {m : Machine σ}

/-- A harmless class stays so. -/
lemma ClassObject.Harmless.mono (h : w ≤ w') (harmless : c.Harmless script x w) :
    c.Harmless script x w' := ⟨harmless.1, harmless.2.mono h⟩

/-- A harmless value stays so. -/
lemma Value.Harmless.mono (h : w ≤ w') (harmless : v.Harmless script x w) :
    v.Harmless script x w' := by
  cases v with
  | cls c => exact ClassObject.Harmless.mono h harmless
  | obj i => exact ⟨ClassObject.Harmless.mono h harmless.1, harmless.2.mono h⟩
  | null | boolean _ | number _ | text _ | host _ => trivial

/-- A plain value is harmless. -/
lemma Value.Harmless.of_isPlain (plain : v.IsPlain) : v.Harmless script x w := by
  cases v with
  | cls _ | obj _ => exact plain.elim
  | null | boolean _ | number _ | text _ | host _ => trivial

/-- What can be had from harmless values is harmless. -/
lemma Value.From.harmless {given : Value → Prop} (h : v.From given)
    (known : ∀ u, given u → u.Harmless script x w) : v.Harmless script x w :=
  h.induct (fun _ plain => .of_isPlain plain) known fun _ harmless => harmless.1

/-- What may be bound may be bound later as well. -/
lemma Site.Admits.mono (h : w ≤ w') (admits : w.Admits script x a s v) :
    w'.Admits script x a s v := by
  rcases admits with harmless | ⟨c, rfl, stowed⟩
  · exact .inl (harmless.mono h)
  · exact .inr ⟨c, rfl, stowed.decl, Site.outer?_mono h stowed.own, stowed.outer.mono h,
      stowed.place⟩

namespace Site.Guarded

/-- A later site in which what is new may be bound where it is. -/
lemma later (guarded : w.Guarded script x holds) (h : w ≤ w')
    (size : w'.machine.heap.frames.size = w'.layers.size)
    (bound : ∀ a s v, (w'.machine.heap.frame a).get? s = some v →
      (w.machine.heap.frame a).get? s = some v ∨ w'.Admits script x a s v)
    (host : ∀ v, holds w'.machine.host v → holds w.machine.host v ∨ v.Harmless script x w') :
    w'.Guarded script x holds := by
  refine ⟨size, fun a s v got => ?_, fun v hv => ?_⟩
  · exact (bound a s v got).elim (fun old => (guarded.bound a s v old).mono h) id
  · exact (host v hv).elim (fun old => (guarded.host v old).mono h) id

/-- A fresh frame binds nothing. -/
lemma child (guarded : w.Guarded script x holds) (e : Environment) (l : Layer)
    (outer : List Address) :
    let m : Machine σ := { w.machine with heap := (w.machine.heap.newChild e).2 }
    w ≤ w.add [(l, outer)] m ∧ (w.add [(l, outer)] m).Guarded script x holds := by
  intro m
  have grown : w ≤ w.add [(l, outer)] m := le_add (Run.growing_child e w.machine m rfl)
  refine ⟨grown, guarded.later grown ?_ (fun a s v got => .inl ?_) fun v hv => .inl hv⟩
  · rw [layers_add, Layers.size_add, ← guarded.size]
    exact Array.size_push ..
  · rwa [← Heap.frame_newChild w.machine.heap e a]

/-- A value may be bound that is admitted. -/
lemma put (guarded : w.Guarded script x holds) (admits : w.Admits script x a s v) :
    let m : Machine σ := { w.machine with heap := w.machine.heap.putAt a s v }
    w ≤ { w with machine := m } ∧ ({ w with machine := m } : Site σ).Guarded script x holds := by
  intro m
  have grown : w ≤ { w with machine := m } := le_on
    ⟨Nat.le_of_eq (Heap.size_putAt ..).symm, fun t b bound => Heap.binds_putAt bound a s v⟩
  refine ⟨grown, guarded.later grown ((Heap.size_putAt ..).trans guarded.size)
    (fun b t u got => ?_) fun v hv => .inl hv⟩
  rcases Heap.get?_frame_putAt got with ⟨rfl, rfl, rfl⟩ | old
  · exact .inr (admits.mono grown)
  · exact .inl old

/-- Harmless values may be bound to any slots. -/
lemma declareEach (guarded : w.Guarded script x holds) (e : Environment) (ss : List Slot)
    {vs : List Value} (harmless : ∀ v ∈ vs, v.Harmless script x w) :
    (Run.declareEach e ss vs).Succeeds w.machine fun _ m =>
      w ≤ { w with machine := m } ∧
        ({ w with machine := m } : Site σ).Guarded script x holds := by
  induction ss generalizing w vs with
  | nil => cases vs <;> exact .pure ⟨le_refl w, guarded⟩
  | cons s ss ih =>
    cases vs with
    | nil => exact .pure ⟨le_refl w, guarded⟩
    | cons v vs =>
      obtain ⟨first, others⟩ := List.forall_mem_cons.1 harmless
      obtain ⟨grown, guarded₁⟩ := guarded.put (a := e.own) (s := s) (.inl first)
      obtain ⟨_, m₂, run, grown₂, guarded₂⟩ := ih guarded₁ fun v hv => (others v hv).mono grown
      exact ⟨(), m₂, run, grown.trans grown₂, guarded₂⟩

/-- A frame that is founded for a value which it may bind. -/
lemma founds {s : Slot} (guarded : w.Guarded script x holds)
    (founds : w.machine.Founds m s v) (grows : w.machine.Grows m) {l : Layer}
    {outer : List Address}
    (admits : ∀ t, (w.add [(l, outer)] m).Admits script x w.layers.size t v) :
    (w.add [(l, outer)] m).Guarded script x holds := by
  refine guarded.later (le_add grows) ?_ (fun a t u got => ?_) fun u hu => .inl ?_
  · rw [layers_add, Layers.size_add, ← guarded.size]
    exact founds.size
  · rcases Nat.lt_trichotomy a w.machine.heap.frames.size with old | new | beyond
    · have got : (m.heap.frame a).get? t = some u := got
      rw [founds.others a old] at got
      exact .inl got
    · subst new
      rcases founds.own t u got with rfl | rfl
      · exact .inr (guarded.size ▸ admits t)
      · exact .inr (.inl trivial)
    · have got : (m.heap.frame a).get? t = some u := got
      rw [Heap.frame_of_le (by have := founds.size; omega)] at got
      exact nomatch got
  · have hu : holds m.host u := hu
    rwa [founds.host] at hu

/-- A declared class may be bound in its own frame. -/
lemma makeClass (guarded : w.Guarded script x holds) {decl : ClassDecl}
    (hc : decl ∈ script.decls) (trusted : w.Trusted script.namedClasses x e.chain) :
    (makeClass decl e).Succeeds w.machine fun c m =>
      c = ⟨decl, e.inside w.layers.size⟩ ∧ w ≤ w.add [(.statics decl, e.chain)] m ∧
        (w.add [(.statics decl, e.chain)] m).Guarded script x holds := by
  obtain ⟨_, m, run, rfl, founded⟩ := makeClass_founds decl e w.machine
  have grows := growing_makeClass decl e w.machine m (by rw [run]; rfl)
  rw [guarded.size] at run founded
  refine ⟨_, m, run, rfl, le_add grows, guarded.founds founded grows fun t => .inr ⟨_, rfl, ?_⟩⟩
  exact ⟨hc, outer?_add_size .., trusted.mono (le_add grows), .inl rfl⟩

/-- The classes of a block may be bound in its frame. -/
lemma makeClasses (guarded : w.Guarded script x holds) {cs : List (Slot × ClassDecl)}
    (known : ∀ c ∈ cs, c.2 ∈ script.decls ∧ script.namedClasses.lookup c.1 = some c.2)
    (trusted : w.Trusted script.namedClasses x e.chain) :
    (makeClasses e cs).Succeeds w.machine fun _ m =>
      w ≤ w.add (cs.map fun c => (.statics c.2, e.chain)) m ∧
        (w.add (cs.map fun c => (.statics c.2, e.chain)) m).Guarded script x holds := by
  induction cs generalizing w with
  | nil =>
    have same : w.add [] w.machine = w := by rw [add, List.append_nil]
    refine .pure ?_
    rw [List.map_nil, same]
    exact ⟨le_refl w, guarded⟩
  | cons c cs ih =>
    obtain ⟨s, decl⟩ := c
    obtain ⟨⟨hc, named⟩, known⟩ := List.forall_mem_cons.1 known
    obtain ⟨_, m₁, run₁, rfl, grown₁, guarded₁⟩ := guarded.makeClass hc trusted
    have stowed : ClassObject.Stowed script x (w.add [(.statics decl, e.chain)] m₁) e.own s
        ⟨decl, e.inside w.layers.size⟩ :=
      ⟨hc, outer?_add_size .., trusted.mono grown₁, .inr ⟨named, e.outer, rfl⟩⟩
    obtain ⟨grown₂, guarded₂⟩ := guarded₁.put (.inr ⟨_, rfl, stowed⟩)
    obtain ⟨_, m₃, run₃, grown₃, guarded₃⟩ :=
      ih guarded₂ known (trusted.mono (grown₁.trans grown₂))
    have grown := (grown₁.trans grown₂).trans grown₃
    rw [add, add, List.append_assoc] at grown guarded₃
    refine ⟨(), m₃, ?_, grown, guarded₃⟩
    simp only [Ember.makeClasses, bind, Run.bind, run₁]
    exact run₃

/-- An instance of a harmless class is harmless. -/
lemma makeInstance (guarded : w.Guarded script x holds) (harmless : c.Harmless script x w) :
    (makeInstance c).Succeeds w.machine fun i m =>
      i = ⟨c, c.statics.inside w.layers.size⟩ ∧
        w ≤ w.add [(.fields c.decl, c.statics.chain)] m ∧
          (w.add [(.fields c.decl, c.statics.chain)] m).Guarded script x holds ∧
            (Value.obj i).Harmless script x (w.add [(.fields c.decl, c.statics.chain)] m) := by
  obtain ⟨_, m, run, rfl, founded⟩ := makeInstance_founds c w.machine
  have grows := growing_makeInstance c w.machine m (by rw [run]; rfl)
  rw [guarded.size] at run founded
  have made : (Value.obj ⟨c, c.statics.inside w.layers.size⟩).Harmless script x
      (w.add [(.fields c.decl, c.statics.chain)] m) :=
    ⟨harmless.mono (le_add grows), harmless.2.inside grows nofun⟩
  exact ⟨_, m, run, rfl, le_add grows, guarded.founds founded grows fun _ => .inl made, made⟩

/-- What a host answers and stores is harmless, if it is honest. -/
lemma ofHost {host : Host σ} (honest : host.Honest holds) {o : HostHandle} {method : Selector}
    {run : HostMethod σ} (found : host.findMethod? o method = some run) {arguments : List Value}
    (given : ∀ v ∈ arguments, v.Harmless script x w) (guarded : w.Guarded script x holds) :
    let w' : Site σ :=
      { w with machine := { w.machine with host := (run arguments w.machine.host).2 } }
    w ≤ w' ∧ w'.Guarded script x holds ∧
      ∀ v, (run arguments w.machine.host).1 = .ok v → v.Harmless script x w' := by
  intro w'
  have grown : w ≤ w' := le_on ⟨Nat.le_refl _, fun _ _ bound => bound⟩
  have known (u : Value) (h : u ∈ arguments ∨ holds w.machine.host u) :
      u.Harmless script x w := h.elim (given u) (guarded.host u)
  refine ⟨grown, guarded.later grown guarded.size (fun _ _ _ got => .inl got) fun v hv => ?_,
    fun v ok => ?_⟩
  · exact .inr (((honest.keeps o method run found _ _ v hv).harmless known).mono grown)
  · exact ((honest.answers o method run found _ _ v ok).harmless known).mono grown

end Site.Guarded

/-! ### Guarded variables -/

section Guards

variable (guards : script.Guards x)
include guards

/-- A guarded variable is bound in no other frames than those of the block that declares
it. -/
lemma Program.Script.Guards.layer {l : Layer} (declared : l.roles ⊆ script.roles)
    (h : x ∈ l.slots) : ∃ b, l = .block b ∧ x ∈ b.vars := by
  obtain ⟨⟨_, role⟩, hr, rfl⟩ := List.mem_map.1 h
  obtain rfl := guards.role_eq (declared hr)
  cases l <;> simp [Layer.roles] at hr
  exact ⟨_, rfl, hr⟩

/-- A frame of another kind is not the one that a guarded variable is pending in. -/
lemma Site.Pending.skip {l : Layer} {rest : List Address}
    (declared : l.roles ⊆ script.roles) (plain : ∀ b, l ≠ .block b)
    (at_a : w.layers.at? a = some l) (pending : w.Pending x (a :: rest)) : w.Pending x rest :=
  pending.tail at_a fun h => by
    obtain ⟨b, same, -⟩ := guards.layer declared h
    exact plain b same

/-- A class that is made in place is harmless, if it does not touch a variable that is
pending there. -/
lemma harmless_of_made {decl : ClassDecl} (hc : decl ∈ script.decls)
    (declared : (Layer.statics decl).roles ⊆ script.roles)
    (trusted : w.Trusted script.namedClasses x e.chain)
    (free : w.Pending x e.chain → ¬decl.Touches script.namedClasses x)
    (grown : w ≤ w.add [(.statics decl, e.chain)] m) :
    ClassObject.Harmless script x (w.add [(.statics decl, e.chain)] m)
      ⟨decl, e.inside w.layers.size⟩ := by
  refine ⟨hc, Site.outer?_add_size .., fun d at_own pending => ?_, trusted.mono grown⟩
  have own := w.at?_add_size (.statics decl) e.chain m
  cases own.symm.trans at_own
  exact free (.of_le grown (fun b hb => trusted.lt hb) (pending.skip guards declared nofun own))

/-- What is read is harmless, if a class that is read does not touch a variable that is
pending there. -/
lemma Site.Guarded.get {roles : List (Slot × SlotRole)} {mentions : List Slot → Prop}
    (guarded : w.Guarded script x holds)
    (fits : w.machine.Fits script.roles holds w.layers [])
    (placed : w.layers.Placed script.roles e.chain mentions roles)
    (trusted : w.Trusted script.namedClasses x e.chain)
    (free : ∀ c, script.namedClasses.lookup s = some c → w.Pending x e.chain →
      ¬c.Touches script.namedClasses x)
    (got : w.machine.heap.get? e s = some v) : v.Harmless script x w := by
  obtain ⟨a, ha, got⟩ := Heap.get?_eq_some got
  rcases guarded.bound a s v got with harmless | ⟨c, rfl, stowed⟩
  · exact harmless
  · obtain ⟨at_own, -⟩ : c.Fits script.roles w.layers := (fits.bound a s _ got).2
    obtain ⟨rest, around, sub⟩ := trusted.outer ha
    refine ⟨stowed.decl, stowed.own, fun d same pending => ?_, stowed.outer⟩
    cases at_own.symm.trans same
    -- a class reads its own frame from inside; its block's frame only where it may come about
    rcases stowed.place with rfl | ⟨named, rest', outer⟩
    · cases around.symm.trans stowed.own
      exact (trusted.suffix sub).2.1 c.decl at_own pending
    · have outward := stowed.outer
      rw [outer] at outward pending
      cases around.symm.trans outward.1
      have pending := pending.skip guards (fits.declared _ (List.mem_of_getElem? at_own)) nofun
        at_own
      exact free c.decl named (pending.of_suffix fits placed sub)

end Guards

end Steps

end Ember
