/-
The frames of a running program, each with the part of the program that it was
made for.

* `Layer`: a part of a program that frames are made for, with the slots that
  such a frame may bind, and those that it binds as soon as it is in use;
* `Layers`: the layers of all frames by their addresses. Layers are only ever
  added;
* `Layers.visible`: the slots that the frames of a chain may bind;
* `Layers.Placed`: a part of a program stands where all that it mentions is
  visible, and nothing that it declares;
* `Value.Fits`: a class or an instance has the frames that its declaration says;
* `Machine.Fits`: all frames bind what their layers say, and only that, up to
  slots that are yet to be bound;
* `fits_makeClass`, `fits_makeClasses`, `fits_makeInstance`: the frames of
  classes and instances are complete once they have been made.
-/
import Mathlib
import Ember.Proofs.Run.Frames
import Ember.Proofs.Scope.Closed

namespace Ember

open Program

/-! ### Layers -/

/-- A part of a program that frames are made for. -/
inductive Layer where
  | globals (gs : List (Slot × String))
  | params (m : Method)
  | block (b : Block)
  /-- The static side of a class. -/
  | statics (c : ClassDecl)
  /-- An instance of a class. -/
  | fields (c : ClassDecl)

namespace Layer

/-- The slots that a frame may bind, each with its role. -/
def roles : Layer → List (Slot × SlotRole)
  | globals gs => gs.map fun g => (g.1, .global)
  | params m => (m.params.getD []).map fun p => (p, .param)
  | block b => b.vars.map (fun s => (s, .var)) ++ b.classes.map fun c => (c.1, .cls)
  | statics c => (c.staticReceiver, .receiver) :: c.staticFields.map fun f => (f.1, .field)
  | fields c => (c.receiver, .receiver) :: c.fields.map fun f => (f.1, .field)

/-- The slots that a frame may bind. -/
def slots (l : Layer) : List Slot := l.roles.map Prod.fst

/-- The slots that a frame binds as soon as it is in use: all but the variables. -/
def firm : Layer → List Slot
  | block b => b.classSlots
  | l => l.slots

/-- The frame of a method may bind its parameters. -/
@[simp]
lemma slots_params (m : Method) : (params m).slots = m.params.getD [] := by
  simp [slots, roles, Function.comp_def]

/-- The frame of a block may bind its variables and its classes. -/
@[simp]
lemma slots_block (b : Block) : (block b).slots = b.vars ++ b.classSlots := by
  simp [slots, roles, Block.classSlots, Function.comp_def]

/-- The frame of a class may bind what its static side has. -/
@[simp]
lemma slots_statics (c : ClassDecl) : (statics c).slots = c.staticSlots := by
  simp [slots, roles, ClassDecl.staticSlots, Function.comp_def]

/-- The frame of an instance may bind what its side has. -/
@[simp]
lemma slots_fields (c : ClassDecl) : (fields c).slots = c.instanceSlots := by
  simp [slots, roles, ClassDecl.instanceSlots, Function.comp_def]

/-- Parameters are bound at once. -/
@[simp]
lemma firm_params (m : Method) : (params m).firm = m.params.getD [] := slots_params m

/-- The classes of a block are bound at once, its variables later. -/
@[simp]
lemma firm_block (b : Block) : (block b).firm = b.classSlots := rfl

/-- The static side of a class is bound at once. -/
@[simp]
lemma firm_statics (c : ClassDecl) : (statics c).firm = c.staticSlots := slots_statics c

/-- The side of an instance is bound at once. -/
@[simp]
lemma firm_fields (c : ClassDecl) : (fields c).firm = c.instanceSlots := slots_fields c

/-- A slot that need not be bound is a variable of its block. -/
lemma var_of_not_firm {l : Layer} {s : Slot} (h : s ∈ l.slots) (loose : s ∉ l.firm) :
    ∃ b, l = .block b ∧ s ∈ b.vars := by
  cases l with
  | block b =>
    rw [slots_block, List.mem_append] at h
    exact ⟨b, rfl, h.resolve_right loose⟩
  | globals _ | params _ | statics _ | fields _ => exact absurd h loose

end Layer

/-- The layers of all frames, by their addresses. -/
structure Layers where
  list : List Layer

namespace Layers

/-- Layers are only ever added. -/
instance : Preorder Layers where
  le Λ Λ' := Λ.list <+: Λ'.list
  le_refl Λ := List.prefix_refl Λ.list
  le_trans _ _ _ := List.IsPrefix.trans

/-- How many frames there are. -/
def size (Λ : Layers) : Nat := Λ.list.length

/-- The layer of the frame at an address. -/
def at? (Λ : Layers) (a : Address) : Option Layer := Λ.list[a]?

/-- More frames, after the others. -/
def add (Λ : Layers) (ls : List Layer) : Layers := ⟨Λ.list ++ ls⟩

/-- The slots that the frame at an address may bind. -/
def slotsAt (Λ : Layers) (a : Address) : List Slot := (Λ.at? a).elim [] Layer.slots

/-- The slots that the frames of a chain may bind. -/
def visible (Λ : Layers) (chain : List Address) : List Slot := chain.flatMap Λ.slotsAt

variable {Λ Λ' : Layers} {a : Address} {l : Layer} {s : Slot} {chain : List Address}

/-- Layers that are added come after those that are there. -/
lemma le_add (Λ : Layers) (ls : List Layer) : Λ ≤ Λ.add ls := List.prefix_append Λ.list ls

/-- Layers that are added twice are added together. -/
lemma add_add (Λ : Layers) (ls ms : List Layer) : (Λ.add ls).add ms = Λ.add (ls ++ ms) := by
  rw [add, add, add, List.append_assoc]

/-- Each layer that is added is one more. -/
@[simp]
lemma size_add (Λ : Layers) (ls : List Layer) : (Λ.add ls).size = Λ.size + ls.length :=
  List.length_append

/-- A frame keeps its layer. -/
lemma at?_mono (h : Λ ≤ Λ') (at_a : Λ.at? a = some l) : Λ'.at? a = some l := by
  obtain ⟨rest, h⟩ := h
  have lt : a < Λ.list.length := (List.getElem?_eq_some_iff.1 at_a).1
  rw [at?, ← h, List.getElem?_append_left lt]
  exact at_a

/-- A frame with a layer is one of the frames. -/
lemma lt_of_at? (at_a : Λ.at? a = some l) : a < Λ.size := (List.getElem?_eq_some_iff.1 at_a).1

/-- The first layer that is added is that of the next frame. -/
@[simp]
lemma at?_add_size (Λ : Layers) (l : Layer) (ls : List Layer) :
    (Λ.add (l :: ls)).at? Λ.size = some l := by
  simp [at?, add, size]

/-- The slots of a frame are those of its layer. -/
lemma slotsAt_of_at? (at_a : Λ.at? a = some l) : Λ.slotsAt a = l.slots := by
  rw [slotsAt, at_a, Option.elim_some]

/-- A slot that may be bound has a layer. -/
lemma at?_of_mem_slotsAt (h : s ∈ Λ.slotsAt a) : ∃ l, Λ.at? a = some l ∧ s ∈ l.slots := by
  rw [slotsAt] at h
  cases at_a : Λ.at? a with
  | none => rw [at_a] at h; exact absurd h List.not_mem_nil
  | some l => rw [at_a] at h; exact ⟨l, rfl, h⟩

/-- The frames that are there keep their layers. -/
lemma slotsAt_mono (h : Λ ≤ Λ') (lt : a < Λ.size) : Λ'.slotsAt a = Λ.slotsAt a := by
  have at_a : Λ.at? a = some (Λ.list.get ⟨a, lt⟩) := List.getElem?_eq_getElem lt
  rw [slotsAt_of_at? at_a, slotsAt_of_at? (at?_mono h at_a)]

/-- A frame may still bind what it could. -/
lemma slotsAt_subset_mono (grown : Λ ≤ Λ') {ss : List Slot} (lt : a < Λ.size)
    (h : ss ⊆ Λ.slotsAt a) : ss ⊆ Λ'.slotsAt a := by
  rw [slotsAt_mono grown lt]
  exact h

/-- What is visible along a chain of known frames stays the same. -/
lemma visible_mono (h : Λ ≤ Λ') (known : ∀ a ∈ chain, a < Λ.size) :
    Λ'.visible chain = Λ.visible chain := by
  induction chain with
  | nil => rfl
  | cons a rest ih =>
    rw [visible, visible, List.flatMap_cons, List.flatMap_cons]
    rw [slotsAt_mono h (known a (List.mem_cons_self ..))]
    exact congrArg _ (ih fun b hb => known b (List.mem_cons_of_mem a hb))

/-- What is visible along a chain is what its first frame binds and what the others do. -/
lemma visible_cons (at_a : Λ.at? a = some l) (chain : List Address) :
    Λ.visible (a :: chain) = l.slots ++ Λ.visible chain := by
  rw [visible, List.flatMap_cons, slotsAt_of_at? at_a, visible]

/-- A slot is visible along a chain of frames whose layers mention it. -/
lemma mem_visible : s ∈ Λ.visible chain ↔ ∃ a ∈ chain, ∃ l, Λ.at? a = some l ∧ s ∈ l.slots := by
  rw [visible, List.mem_flatMap]
  refine exists_congr fun a => and_congr_right fun _ => ⟨at?_of_mem_slotsAt, fun h => ?_⟩
  obtain ⟨l, at_a, hs⟩ := h
  rw [slotsAt_of_at? at_a]
  exact hs

end Layers

/-! ### Parts of a program and where they stand -/

/-- A part of a program stands where all that it mentions is visible along a
chain of frames, and nothing that it declares is. What it declares is declared by
the program, whose slots are `all`. -/
structure Layers.Placed (all : List (Slot × SlotRole)) (Λ : Layers) (chain : List Address)
    (mentions : List Slot → Prop) (roles : List (Slot × SlotRole)) : Prop where
  known : ∀ a ∈ chain, a < Λ.size
  closed : mentions (Λ.visible chain)
  room : ∀ s, (Λ.visible chain).count s + (roles.map Prod.fst).count s ≤ 1
  declared : roles ⊆ all

namespace Layers.Placed

variable {all roles roles' : List (Slot × SlotRole)} {Λ Λ' : Layers} {chain : List Address}
  {mentions mentions' : List Slot → Prop}

/-- More frames do no harm. -/
lemma mono (h : Λ ≤ Λ') (placed : Λ.Placed all chain mentions roles) :
    Λ'.Placed all chain mentions roles := by
  have visible := visible_mono h placed.known
  refine ⟨fun a ha => Nat.lt_of_lt_of_le (placed.known a ha) h.length_le, ?_, fun s => ?_,
    placed.declared⟩
  · rw [visible]
    exact placed.closed
  · rw [visible]
    exact placed.room s

/-- A part of what stands somewhere stands there too. -/
lemma part (placed : Λ.Placed all chain mentions roles)
    (closed : mentions (Λ.visible chain) → mentions' (Λ.visible chain))
    (sub : roles'.Sublist roles) : Λ.Placed all chain mentions' roles' := by
  refine ⟨placed.known, closed placed.closed, fun s => ?_,
    List.Subset.trans sub.subset placed.declared⟩
  have room := placed.room s
  have := (sub.map Prod.fst).count_le s
  omega

/-- What stands in a frame of its own sees all that the frame may bind. -/
lemma enter {a : Address} {l : Layer} (placed : Λ.Placed all chain mentions roles)
    (at_a : Λ.at? a = some l)
    (closed : mentions (Λ.visible chain) → mentions' (l.slots ++ Λ.visible chain))
    (room : ∀ s, l.slots.count s + (roles'.map Prod.fst).count s ≤ (roles.map Prod.fst).count s)
    (sub : roles' ⊆ roles) : Λ.Placed all (a :: chain) mentions' roles' := by
  refine ⟨List.forall_mem_cons.2 ⟨lt_of_at? at_a, placed.known⟩, ?_, fun s => ?_,
    List.Subset.trans sub placed.declared⟩
  · rw [visible_cons at_a]
    exact closed placed.closed
  · have h := placed.room s
    have h' := room s
    rw [visible_cons at_a, List.count_append]
    omega

end Layers.Placed

/-! ### Values -/

/-- A class has its frame inside the frames that it was declared in. -/
def ClassObject.Fits (all : List (Slot × SlotRole)) (Λ : Layers) (c : ClassObject) : Prop :=
  Λ.at? c.statics.own = some (.statics c.decl) ∧
    Λ.Placed all c.statics.outer (c.decl.Closed false) c.decl.roles

/-- An instance has its frame inside that of its class. -/
structure Instance.Fits (all : List (Slot × SlotRole)) (Λ : Layers) (i : Instance) : Prop where
  cls : i.cls.Fits all Λ
  outer : i.env.outer = i.cls.statics.chain
  own : Λ.at? i.env.own = some (.fields i.cls.decl)

/-- Classes and instances have the frames that their declarations say. -/
def Value.Fits (all : List (Slot × SlotRole)) (Λ : Layers) : Value → Prop
  | .cls c => c.Fits all Λ
  | .obj i => i.Fits all Λ
  | .null | .boolean _ | .number _ | .text _ | .host _ => True

/-- A class still has its frames when there are more. -/
lemma ClassObject.Fits.mono {all : List (Slot × SlotRole)} {Λ Λ' : Layers} (h : Λ ≤ Λ')
    {c : ClassObject} (fits : c.Fits all Λ) : c.Fits all Λ' :=
  ⟨Layers.at?_mono h fits.1, fits.2.mono h⟩

/-- A value still has its frames when there are more. -/
lemma Value.Fits.mono {all : List (Slot × SlotRole)} {Λ Λ' : Layers} (h : Λ ≤ Λ') {v : Value}
    (fits : v.Fits all Λ) : v.Fits all Λ' := by
  cases v with
  | cls c => exact ClassObject.Fits.mono h fits
  | obj i =>
    have fits : i.Fits all Λ := fits
    exact (⟨fits.cls.mono h, fits.outer, Layers.at?_mono h fits.own⟩ : i.Fits all Λ')
  | null | boolean _ | number _ | text _ | host _ => trivial

/-- The slots that a method declares and those within its body. -/
def Program.Method.roles (m : Method) : List (Slot × SlotRole) :=
  (m.params.getD []).map (fun p => (p, .param)) ++ m.body.roles

/-- The body of a method mentions only visible slots and its parameters. -/
def Program.Method.Closed (m : Method) (v : List Slot) : Prop :=
  m.body.Closed false (m.params.getD [] ++ v)

/-- What a method declares is declared by the methods of its class. -/
lemma Program.roles_sublist_methodRoles {m : Method} {ms : List Method} (h : m ∈ ms) :
    m.roles.Sublist (methodRoles ms) := by
  induction ms with
  | nil => exact absurd h List.not_mem_nil
  | cons m' ms ih =>
    have cons : methodRoles (m' :: ms) = m'.roles ++ methodRoles ms := by
      cases m'
      rw [methodRoles, Method.roles, List.append_assoc]
    rw [cons]
    cases h with
    | head => exact List.sublist_append_left _ _
    | tail _ h => exact (ih h).trans (List.sublist_append_right _ _)

/-! ### Machines -/

/-- The frames of a machine bind what their layers say and nothing else, up to
the slots of `todo`, which are yet to be bound. The values in them and those
that the host holds fit. -/
structure Machine.Fits {σ : Type} (all : List (Slot × SlotRole)) (holds : σ → Value → Prop)
    (Λ : Layers) (todo : List (Address × Slot)) (m : Machine σ) : Prop where
  size : m.heap.frames.size = Λ.size
  declared : ∀ l ∈ Λ.list, l.roles ⊆ all
  bound : ∀ a s v, (m.heap.frame a).get? s = some v → s ∈ Λ.slotsAt a ∧ v.Fits all Λ
  ready : ∀ a l s, Λ.at? a = some l → s ∈ l.firm → m.heap.binds s a = true ∨ (a, s) ∈ todo
  host : ∀ v, holds m.host v → v.Fits all Λ

section Building

variable {σ : Type} {all : List (Slot × SlotRole)} {holds : σ → Value → Prop} {Λ : Layers}
  {todo : List (Address × Slot)} {m : Machine σ} {e : Environment}

namespace Machine.Fits

/-- More slots may be left to be bound. -/
lemma leave {todo' : List (Address × Slot)} (fits : m.Fits all holds Λ todo)
    (sub : todo ⊆ todo') : m.Fits all holds Λ todo' :=
  ⟨fits.size, fits.declared, fits.bound,
    fun a l s at_a hs => (fits.ready a l s at_a hs).imp_right fun h => sub h, fits.host⟩

/-- A fresh frame has all its slots yet to bind. -/
lemma push {l : Layer} {h : Heap} (fits : m.Fits all holds Λ todo) (declared : l.roles ⊆ all)
    (size : h.frames.size = m.heap.frames.size + 1) (same : ∀ a, h.frame a = m.heap.frame a) :
    ({ m with heap := h } : Machine σ).Fits all holds (Λ.add [l])
      (l.firm.map (fun s => (Λ.size, s)) ++ todo) := by
  have grown := Λ.le_add [l]
  refine ⟨?_, fun l' hl => ?_, fun a s v got => ?_, fun a l' s at_a hs => ?_, fun v hv => ?_⟩
  · rw [size, fits.size, Layers.size_add]
    rfl
  · rcases List.mem_append.1 hl with old | new
    · exact fits.declared l' old
    · exact List.mem_singleton.1 new ▸ declared
  · rw [same] at got
    obtain ⟨hs, fit⟩ := fits.bound a s v got
    obtain ⟨l', at_a, -⟩ := Layers.at?_of_mem_slotsAt hs
    rw [Layers.slotsAt_mono grown (Layers.lt_of_at? at_a)]
    exact ⟨hs, fit.mono grown⟩
  · have lt : a < Λ.size + 1 := by
      have := Layers.lt_of_at? at_a
      rwa [Layers.size_add] at this
    rw [Heap.binds, same]
    rcases Nat.lt_succ_iff_lt_or_eq.1 lt with old | new
    · have at_old : Λ.at? a = some l' := by
        rw [Layers.at?, Layers.add, List.getElem?_append_left old] at at_a
        exact at_a
      exact (fits.ready a l' s at_old hs).imp_right (List.mem_append_right _)
    · subst new
      rw [Layers.at?_add_size] at at_a
      cases at_a
      exact .inr (List.mem_append_left _ (List.mem_map_of_mem hs))
  · exact (fits.host v hv).mono grown

/-- A slot is bound that was left to be bound. -/
lemma put {a : Address} {s : Slot} {v : Value} (fits : m.Fits all holds Λ ((a, s) :: todo))
    (hs : s ∈ Λ.slotsAt a) (fit : v.Fits all Λ) :
    ({ m with heap := m.heap.putAt a s v } : Machine σ).Fits all holds Λ todo := by
  obtain ⟨l, at_a, -⟩ := Layers.at?_of_mem_slotsAt hs
  have lt : a < m.heap.frames.size := fits.size ▸ Layers.lt_of_at? at_a
  refine ⟨?_, fits.declared, fun b t w got => ?_, fun b l' t at_b ht => ?_, fits.host⟩
  · rw [Heap.size_putAt, fits.size]
  · rcases Heap.get?_frame_putAt got with ⟨rfl, rfl, rfl⟩ | old
    · exact ⟨hs, fit⟩
    · exact fits.bound b t w old
  · rcases fits.ready b l' t at_b ht with old | new
    · exact .inl (Heap.binds_putAt old a s v)
    · rcases List.mem_cons.1 new with e | later
      · cases e
        exact .inl (Heap.binds_putAt_self lt s v)
      · exact .inr later

/-- A new frame inside of another has yet to bind what its layer has at once. -/
lemma child {l : Layer} (fits : m.Fits all holds Λ todo) (declared : l.roles ⊆ all) :
    (Run.child e).Succeeds m fun e' m' => e' = e.inside Λ.size ∧
      m'.Fits all holds (Λ.add [l]) (l.firm.map (fun s => (Λ.size, s)) ++ todo) := by
  refine ⟨_, _, rfl, ?_, fits.push declared (Array.size_push ..) (Heap.frame_push m.heap)⟩
  rw [← fits.size]

/-- A new outermost frame has yet to bind what its layer has at once. -/
lemma root {l : Layer} (fits : m.Fits all holds Λ todo) (declared : l.roles ⊆ all) :
    Run.root.Succeeds m fun e' m' => e' = ⟨Λ.size, []⟩ ∧
      m'.Fits all holds (Λ.add [l]) (l.firm.map (fun s => (Λ.size, s)) ++ todo) := by
  refine ⟨_, _, rfl, ?_, fits.push declared (Array.size_push ..) (Heap.frame_push m.heap)⟩
  rw [← fits.size]

/-- A slot that was yet to be bound is bound. -/
lemma declare {s : Slot} (v : Value) (fits : m.Fits all holds Λ ((e.own, s) :: todo))
    (hs : s ∈ Λ.slotsAt e.own) (fit : v.Fits all Λ) :
    (Run.declare e s v).Succeeds m fun _ m' => m'.Fits all holds Λ todo :=
  ⟨(), _, rfl, fits.put hs fit⟩

/-- Slots that were yet to be bound are bound to null. -/
lemma declareNull {slots : List (Slot × String)}
    (fits : m.Fits all holds Λ (slots.map (fun s => (e.own, s.1)) ++ todo))
    (hs : ∀ s ∈ slots, s.1 ∈ Λ.slotsAt e.own) :
    (Run.declareNull e slots).Succeeds m fun _ m' => m'.Fits all holds Λ todo := by
  induction slots generalizing m with
  | nil => exact .pure fits
  | cons s rest ih =>
    obtain ⟨s, name⟩ := s
    refine (fits.declare .null (hs _ (List.mem_cons_self ..)) trivial).bind fun _ m' fits' => ?_
    exact ih fits' fun t ht => hs t (List.mem_cons_of_mem _ ht)

/-- Slots that were yet to be bound are bound one by one. -/
lemma declareEach {ss : List Slot} {vs : List Value}
    (fits : m.Fits all holds Λ (ss.map (fun s => (e.own, s)) ++ todo))
    (hs : ∀ s ∈ ss, s ∈ Λ.slotsAt e.own) (hv : ∀ v ∈ vs, v.Fits all Λ)
    (length : ss.length = vs.length) :
    (Run.declareEach e ss vs).Succeeds m fun _ m' => m'.Fits all holds Λ todo := by
  induction ss generalizing m vs with
  | nil =>
    cases vs with
    | nil => exact .pure fits
    | cons v vs => exact nomatch length
  | cons s ss ih =>
    cases vs with
    | nil => exact nomatch length
    | cons v vs =>
      refine (fits.declare v (hs s (List.mem_cons_self ..)) (hv v (List.mem_cons_self ..))).bind
        fun _ m' fits' => ?_
      exact ih fits' (fun t ht => hs t (List.mem_cons_of_mem _ ht))
        (fun w hw => hv w (List.mem_cons_of_mem _ hw)) (Nat.succ.inj length)

end Machine.Fits

/-! ### Classes and instances -/

/-- The slots that the static side of a class binds are declared by the class. -/
lemma statics_roles_subset (c : ClassDecl) : (Layer.statics c).roles ⊆ c.roles := by
  intro r hr
  cases c
  simp only [Layer.roles, ClassDecl.roles, List.mem_cons, List.mem_append] at hr ⊢
  tauto

/-- What a class declares for its instances is declared by the class. -/
lemma fields_roles_subset (c : ClassDecl) : (Layer.fields c).roles ⊆ c.roles := by
  intro r hr
  cases c
  simp only [Layer.roles, ClassDecl.roles, List.mem_cons, List.mem_append] at hr ⊢
  tauto

/-- A class that stands where it is declared gets a frame of its own there. -/
lemma fits_makeClass {c : ClassDecl} (fits : m.Fits all holds Λ todo)
    (placed : Λ.Placed all e.chain (c.Closed false) c.roles) :
    (makeClass c e).Succeeds m fun o m' => o.Fits all (Λ.add [.statics c]) ∧
      m'.Fits all holds (Λ.add [.statics c]) todo := by
  have at_own := Λ.at?_add_size (.statics c) []
  have slots := Layers.slotsAt_of_at? at_own
  rw [Layer.slots_statics] at slots
  have object : (⟨c, e.inside Λ.size⟩ : ClassObject).Fits all (Λ.add [.statics c]) :=
    ⟨at_own, placed.mono (Λ.le_add _)⟩
  refine (fits.child (List.Subset.trans (statics_roles_subset c) placed.declared)).bind
    fun e' m₁ fits₁ => ?_
  obtain ⟨rfl, fits₁⟩ := fits₁
  have fits₁ : m₁.Fits all holds (Λ.add [.statics c])
      (c.staticFields.map (fun s => ((e.inside Λ.size).own, s.1)) ++
        (Λ.size, c.staticReceiver) :: todo) := by
    refine fits₁.leave fun x hx => ?_
    simp only [Layer.firm_statics, ClassDecl.staticSlots, List.map_cons, List.map_map,
      List.cons_append, List.mem_cons, List.mem_append, Function.comp_def,
      Environment.inside] at hx ⊢
    tauto
  refine (fits₁.declareNull fun s hs => ?_).bind fun _ m₂ fits₂ => ?_
  · rw [Environment.inside, slots]
    exact List.mem_cons_of_mem _ (List.mem_map_of_mem hs)
  refine (fits₂.declare (.cls _) ?_ object).bind fun _ m₃ fits₃ => .pure ⟨object, fits₃⟩
  rw [Environment.inside, slots]
  exact List.mem_cons_self ..

/-- The classes of a block are bound once all of them have been made. -/
lemma fits_makeClasses {cs : List (Slot × ClassDecl)}
    (fits : m.Fits all holds Λ (cs.map (fun c => (e.own, c.1)) ++ todo))
    (hs : ∀ c ∈ cs, c.1 ∈ Λ.slotsAt e.own)
    (placed : ∀ c ∈ cs, Λ.Placed all e.chain (c.2.Closed false) c.2.roles) :
    (makeClasses e cs).Succeeds m fun _ m' =>
      m'.Fits all holds (Λ.add (cs.map fun c => .statics c.2)) todo := by
  induction cs generalizing m Λ with
  | nil =>
    refine .pure ?_
    rw [Layers.add, List.map_nil, List.append_nil]
    exact fits
  | cons c rest ih =>
    obtain ⟨s, c⟩ := c
    have placed' := List.forall_mem_cons.1 placed
    have hs' := List.forall_mem_cons.1 hs
    have grown := Λ.le_add [.statics c]
    have known : e.own < Λ.size := placed'.1.known e.own (List.mem_cons_self ..)
    have same := Layers.slotsAt_mono grown known
    refine (fits_makeClass fits placed'.1).bind fun o m₁ made => ?_
    refine (made.2.declare (.cls o) (same ▸ hs'.1) made.1).bind fun _ m₂ fits₂ => ?_
    have rest := ih fits₂ (fun d hd => same ▸ hs'.2 d hd) fun d hd => (placed'.2 d hd).mono grown
    rw [Layers.add_add] at rest
    exact rest

/-- An instance gets a frame of its own inside that of its class. -/
lemma fits_makeInstance {c : ClassObject} (fits : m.Fits all holds Λ todo)
    (object : c.Fits all Λ) :
    (makeInstance c).Succeeds m fun i m' => i.cls = c ∧
      i.Fits all (Λ.add [.fields c.decl]) ∧ m'.Fits all holds (Λ.add [.fields c.decl]) todo := by
  have at_own := Λ.at?_add_size (.fields c.decl) []
  have slots := Layers.slotsAt_of_at? at_own
  rw [Layer.slots_fields] at slots
  have instanceFits : (⟨c, c.statics.inside Λ.size⟩ : Instance).Fits all (Λ.add [.fields c.decl]) :=
    ⟨object.mono (Λ.le_add _), rfl, at_own⟩
  refine (fits.child (List.Subset.trans (fields_roles_subset c.decl) object.2.declared)).bind
    fun e m₁ fits₁ => ?_
  obtain ⟨rfl, fits₁⟩ := fits₁
  have fits₁ : m₁.Fits all holds (Λ.add [.fields c.decl])
      (c.decl.fields.map (fun s => ((c.statics.inside Λ.size).own, s.1)) ++
        (Λ.size, c.decl.receiver) :: todo) := by
    refine fits₁.leave fun x hx => ?_
    simp only [Layer.firm_fields, ClassDecl.instanceSlots, List.map_cons, List.map_map,
      List.cons_append, List.mem_cons, List.mem_append, Function.comp_def, Environment.inside]
        at hx ⊢
    tauto
  refine (fits₁.declareNull fun s hs => ?_).bind fun _ m₂ fits₂ => ?_
  · rw [Environment.inside, slots]
    exact List.mem_cons_of_mem _ (List.mem_map_of_mem hs)
  refine (fits₂.declare (.obj _) ?_ instanceFits).bind
    fun _ m₃ fits₃ => .pure ⟨rfl, instanceFits, fits₃⟩
  rw [Environment.inside, slots]
  exact List.mem_cons_self ..

end Building

end Ember
