/-
Environments are nested scopes whose slots can be changed.

* `EnvOp`, `EnvTable`: the operations on environments, and the environments that have been
  made so far with the frames behind them; `EnvTable.apply` performs an operation;
* `Record`: an account of a course of operations without any frames: which frame lies
  inside which, and what has been written where. `Record.Runs` keeps the account;
* `Record.Walk`, `Record.Nearest`: the way outward from a frame, and the first frame on it
  that has a slot;
* `Record.Describes`: what the operations do, in terms of the account;
* `environments_nest`: every course of operations has one account, which describes the
  environments that come of it.
-/
import Mathlib
import Ember.Proofs.Run.Frames

namespace Ember

/-! ### Look-ups and writes -/

namespace Heap

variable {h : Heap} {e : Environment} {s u : Slot} {b : Address}

/-- A look-up reads the nearest frame that binds the slot. -/
lemma get?_eq_bind (h : Heap) (e : Environment) (s : Slot) :
    h.get? e s = (h.nearest? e s).bind fun a => (h.frame a).get? s := by
  rw [get?, nearest?]
  induction e.chain with
  | nil => rfl
  | cons a rest ih =>
    rw [List.findSome?_cons, List.find?_cons, binds]
    cases found : (h.frame a).get? s with
    | none => exact ih
    | some v => exact found.symm

/-- A frame that binds a slot is one of the frames. -/
lemma lt_of_binds (bound : h.binds s b = true) : b < h.frames.size := by
  by_contra beyond
  rw [binds, frame_of_le (Nat.le_of_not_lt beyond)] at bound
  exact Bool.false_ne_true bound

/-- A write to a frame changes one slot of it. -/
lemma get?_frame_putAt_eq (lt : b < h.frames.size) (s : Slot) (v : Value) (a : Address)
    (u : Slot) : ((h.putAt b s v).frame a).get? u =
      if a = b ∧ u = s then some v else (h.frame a).get? u := by
  rw [frame_putAt]
  by_cases same : a = b
  · rw [if_pos ⟨same, lt⟩]
    by_cases slot : u = s
    · rw [if_pos ⟨same, slot⟩, slot, Frame.get?_put_self]
    · rw [if_neg fun h => slot h.2, Frame.get?_put_of_ne (Ne.symm slot)]
  · rw [if_neg fun h => same h.1, if_neg fun h => same h.1]

/-- A write to a slot that is bound already moves no binding, so it is seen exactly where
its frame is the nearest. -/
lemma get?_putAt (bound : h.binds s b = true) (v : Value) (e : Environment) (u : Slot) :
    (h.putAt b s v).get? e u =
      if u = s ∧ h.nearest? e u = some b then some v else h.get? e u := by
  have slots := get?_frame_putAt_eq (lt_of_binds bound) s v
  have still : (h.putAt b s v).nearest? e u = h.nearest? e u := by
    rw [nearest?, nearest?]
    congr 1
    funext a
    rw [binds, slots, binds]
    split
    · next same =>
      rw [same.1, same.2]
      exact bound.symm
    · rfl
  rw [get?_eq_bind, still, get?_eq_bind]
  cases near : h.nearest? e u with
  | none => simp
  | some a =>
    simp only [Option.bind_some, slots, Option.some.injEq]
    by_cases same : u = s ∧ a = b
    · rw [if_pos ⟨same.2, same.1⟩, if_pos same]
    · rw [if_neg fun h => same h.symm, if_neg same]

end Heap

/-! ### Operations on environments -/

/-- An operation on environments, which are numbered in the order in which they are made.
A clone is another name of the same environment. -/
inductive EnvOp where
  | new
  | child (e : Nat)
  | clone (e : Nat)
  | declare (e : Nat) (s : Slot) (v : Value)
  | assign (e : Nat) (s : Slot) (v : Value)
  | get (e : Nat) (s : Slot)
  | has (e : Nat) (s : Slot)

/-- The environment that an operation is about. -/
def EnvOp.env? : EnvOp → Option Nat
  | new => none
  | child e | clone e | declare e _ _ | assign e _ _ | get e _ | has e _ => some e

/-- What an operation answers. -/
inductive EnvAnswer where
  | made (e : Nat)
  | done
  | value (v : Value)
  | told (b : Bool)
  | failed (cause : Failure)
  /-- There is no such environment. -/
  | stray

/-- The environments that have been made, and the frames. -/
structure EnvTable where
  heap : Heap
  envs : List Environment

namespace EnvTable

/-- Nothing has been made. -/
def empty : EnvTable := ⟨.empty, []⟩

/-- Goes on with an environment, if there is such a one. -/
def on (t : EnvTable) (e : Nat) (f : Environment → EnvAnswer × EnvTable) : EnvAnswer × EnvTable :=
  match t.envs[e]? with
  | none => (.stray, t)
  | some env => f env

/-- Gives an environment the next number. -/
def add (t : EnvTable) (made : Environment × Heap) : EnvAnswer × EnvTable :=
  (.made t.envs.length, ⟨made.2, t.envs ++ [made.1]⟩)

/-- Performs an operation. -/
def apply (t : EnvTable) : EnvOp → EnvAnswer × EnvTable
  | .new => t.add t.heap.newRoot
  | .child e => t.on e fun env => t.add (t.heap.newChild env)
  | .clone e => t.on e fun env => t.add (env, t.heap)
  | .declare e s v => t.on e fun env => (.done, { t with heap := t.heap.declare env s v })
  | .assign e s v => t.on e fun env =>
    match t.heap.assign? env s v with
    | some heap => (.done, { t with heap })
    | none => (.failed (.undefinedSlot s), t)
  | .get e s => t.on e fun env =>
    match t.heap.get? env s with
    | some v => (.value v, t)
    | none => (.failed (.undefinedSlot s), t)
  | .has e s => t.on e fun env => (.told (t.heap.binds s env.own), t)

/-- Performs operations one after another. -/
def run (t : EnvTable) (ops : List EnvOp) : EnvTable := ops.foldl (fun t op => (t.apply op).2) t

variable {t : EnvTable} {e : Nat} {env : Environment} {s : Slot} {v : Value} {b : Address}

/-- An operation on an environment that is there. -/
lemma on_some (found : t.envs[e]? = some env) (f : Environment → EnvAnswer × EnvTable) :
    t.on e f = f env := by rw [on, found]

/-- An operation on an environment that has not been made does nothing. -/
lemma apply_stray {op : EnvOp} (about : op.env? = some e) (none : t.envs[e]? = none) :
    t.apply op = (.stray, t) := by
  cases op <;> cases about <;> rw [apply, on, none]

/-- A look-up answers with the value of the nearest frame that binds the slot. -/
lemma apply_get (found : t.envs[e]? = some env) (s : Slot) :
    t.apply (.get e s) =
      (((t.heap.get? env s).map .value).getD (.failed (.undefinedSlot s)), t) := by
  rw [apply, on_some found]
  cases t.heap.get? env s <;> rfl

/-- A look-up answers with a value exactly if it finds one. -/
lemma apply_get_value (found : t.envs[e]? = some env) :
    (t.apply (.get e s)).1 = .value v ↔ t.heap.get? env s = some v := by
  rw [apply_get found]
  cases t.heap.get? env s <;> simp

/-- An assignment changes the nearest frame that binds the slot. -/
lemma apply_assign (found : t.envs[e]? = some env) (near : t.heap.nearest? env s = some b)
    (v : Value) : t.apply (.assign e s v) = (.done, { t with heap := t.heap.putAt b s v }) := by
  rw [apply, on_some found, Heap.assign?, near]
  rfl

/-- An assignment without such a frame is refused. -/
lemma apply_assign_none (found : t.envs[e]? = some env) (none : t.heap.nearest? env s = none)
    (v : Value) : t.apply (.assign e s v) = (.failed (.undefinedSlot s), t) := by
  rw [apply, on_some found, Heap.assign?, none]
  rfl

/-- Whether a frame binds a slot itself is told. -/
lemma apply_has (found : t.envs[e]? = some env) (s : Slot) :
    t.apply (.has e s) = (.told (t.heap.binds s env.own), t) := by
  rw [apply, on_some found]

end EnvTable

/-! ### Accounts of operations -/

/-- An account of operations: for every frame the one that it lies in, for every
environment its frame, and all that has been written to slots of frames, the latest
first. -/
structure Record where
  parents : List (Option Address)
  owners : List Address
  writes : List ((Address × Slot) × Value)

namespace Record

/-- Nothing has been done. -/
def empty : Record := ⟨[], [], []⟩

/-- What has last been written to a slot of a frame. -/
def last? (r : Record) (a : Address) (s : Slot) : Option Value := r.writes.lookup (a, s)

/-- The frames on the way outward from a frame, which ends at one that lies in no other. -/
inductive Walk (r : Record) : Address → List Address → Prop
  | ends {a : Address} (outermost : r.parents[a]? = some none) : Walk r a [a]
  | goes {a p : Address} {rest : List Address} (inside : r.parents[a]? = some (some p))
      (walk : Walk r p rest) : Walk r a (a :: rest)

/-- The first frame on the way outward that has a slot. -/
inductive Nearest (r : Record) (s : Slot) : Address → Address → Prop
  | here {a : Address} (has : (r.last? a s).isSome = true) : Nearest r s a a
  | outside {a p b : Address} (lacks : (r.last? a s).isSome = false)
      (inside : r.parents[a]? = some (some p)) (near : Nearest r s p b) : Nearest r s a b

/-- Takes down a new frame and the environment that has it. -/
def addFrame (r : Record) (parent : Option Address) : Record :=
  { r with parents := r.parents ++ [parent], owners := r.owners ++ [r.parents.length] }

/-- Takes down a write. -/
def write (r : Record) (a : Address) (s : Slot) (v : Value) : Record :=
  { r with writes := ((a, s), v) :: r.writes }

/-- What an operation adds to an account. An assignment writes to the nearest frame that
has the slot; without such a frame it writes nothing. -/
inductive Step (r : Record) : EnvOp → Record → Prop
  | new : Step r .new (r.addFrame none)
  | child {e : Nat} {a : Address} (own : r.owners[e]? = some a) :
      Step r (.child e) (r.addFrame (some a))
  | clone {e : Nat} {a : Address} (own : r.owners[e]? = some a) :
      Step r (.clone e) { r with owners := r.owners ++ [a] }
  | declare {e : Nat} {a : Address} {s : Slot} {v : Value} (own : r.owners[e]? = some a) :
      Step r (.declare e s v) (r.write a s v)
  | assign {e : Nat} {a b : Address} {s : Slot} {v : Value} (own : r.owners[e]? = some a)
      (near : r.Nearest s a b) : Step r (.assign e s v) (r.write b s v)
  | refuse {e : Nat} {a : Address} {s : Slot} {v : Value} (own : r.owners[e]? = some a)
      (nowhere : ∀ b, ¬r.Nearest s a b) : Step r (.assign e s v) r
  | get {e : Nat} {s : Slot} : Step r (.get e s) r
  | has {e : Nat} {s : Slot} : Step r (.has e s) r
  | stray {op : EnvOp} {e : Nat} (about : op.env? = some e) (none : r.owners[e]? = none) :
      Step r op r

/-- What operations add to an account, one after another. -/
inductive Runs : Record → List EnvOp → Record → Prop
  | nil {r : Record} : Runs r [] r
  | cons {r r₁ r₂ : Record} {op : EnvOp} {ops : List EnvOp} (step : r.Step op r₁)
      (rest : Runs r₁ ops r₂) : Runs r (op :: ops) r₂

/-- A write to a slot of a frame changes that slot and no other, and it is seen through
every environment for which the frame is the nearest that has the slot, and through no
other. -/
structure Updates (r : Record) (t t' : EnvTable) (b : Address) (s : Slot) (v : Value) :
    Prop where
  envs : t'.envs = t.envs
  slots : ∀ (a : Address) (u : Slot), (t'.heap.frame a).get? u =
    if a = b ∧ u = s then some v else (t.heap.frame a).get? u
  seen : ∀ (e : Nat) (a : Address), r.owners[e]? = some a → r.Nearest s a b →
    (t'.apply (.get e s)).1 = .value v
  unseen : ∀ (e : Nat) (a : Address) (u : Slot), r.owners[e]? = some a →
    ¬(u = s ∧ r.Nearest u a b) → (t'.apply (.get e u)).1 = (t.apply (.get e u)).1

/-- An account describes environments: what the operations do to them is told in terms of
the frames that lie inside each other and of what has last been written. -/
structure Describes (r : Record) (t : EnvTable) : Prop where
  envs : r.owners.length = t.envs.length
  /-- Every walk outward ends. -/
  ends : ∀ a < r.parents.length, ∃ l, r.Walk a l ∧ l.length ≤ r.parents.length
  owners : ∀ a ∈ r.owners, a < r.parents.length
  has : ∀ (e : Nat) (a : Address) (s : Slot), r.owners[e]? = some a →
    (t.apply (.has e s)).1 = .told (r.last? a s).isSome
  found : ∀ (e : Nat) (a : Address) (s : Slot), r.owners[e]? = some a →
    ((∃ v, (t.apply (.get e s)).1 = .value v) ↔
      ∃ l, r.Walk a l ∧ ∃ b ∈ l, (r.last? b s).isSome = true)
  get : ∀ (e : Nat) (a : Address) (s : Slot) (v : Value), r.owners[e]? = some a →
    ((t.apply (.get e s)).1 = .value v ↔ ∃ b, r.Nearest s a b ∧ r.last? b s = some v)
  declare : ∀ (e : Nat) (a : Address) (s : Slot) (v : Value), r.owners[e]? = some a →
    (t.apply (.declare e s v)).1 = .done ∧ ∀ (b : Address) (u : Slot),
      ((t.apply (.declare e s v)).2.heap.frame b).get? u =
        if b = a ∧ u = s then some v else (t.heap.frame b).get? u
  assign : ∀ (e : Nat) (a b : Address) (s : Slot) (v : Value), r.owners[e]? = some a →
    r.Nearest s a b → (t.apply (.assign e s v)).1 = .done ∧
      r.Updates t (t.apply (.assign e s v)).2 b s v
  /-- An assignment succeeds where a look-up does, and otherwise changes nothing. -/
  refuse : ∀ (e : Nat) (s : Slot) (v : Value), e < t.envs.length →
    ((∃ w, (t.apply (.get e s)).1 = .value w) ↔ (t.apply (.assign e s v)).1 = .done) ∧
      ((∀ w, (t.apply (.get e s)).1 ≠ .value w) →
        t.apply (.assign e s v) = (.failed (.undefinedSlot s), t))

/-! ### Ways outward -/

section Walks

variable {r r' : Record} {a b c : Address} {l l' : List Address} {s u : Slot}

/-- A walk starts at a frame of the account. -/
lemma Walk.lt (walk : r.Walk a l) : a < r.parents.length := by
  cases walk with
  | ends outermost => exact (List.getElem?_eq_some_iff.1 outermost).1
  | goes inside _ => exact (List.getElem?_eq_some_iff.1 inside).1

/-- Frames that are added later leave the way outward as it is. -/
lemma Walk.mono (walk : r.Walk a l)
    (more : ∀ {a : Address} {x : Option Address}, r.parents[a]? = some x →
      r'.parents[a]? = some x) :
    r'.Walk a l := by
  induction walk with
  | ends outermost => exact .ends (more outermost)
  | goes inside _ ih => exact .goes (more inside) ih

/-- There is one way outward from a frame. -/
lemma Walk.unique (walk : r.Walk a l) (walk' : r.Walk a l') : l = l' := by
  induction walk generalizing l' with
  | ends outermost =>
    cases walk' with
    | ends _ => rfl
    | goes inside _ =>
      rw [outermost] at inside
      cases inside
  | goes inside _ ih =>
    cases walk' with
    | ends outermost =>
      rw [inside] at outermost
      cases outermost
    | goes inside' rest' =>
      rw [inside] at inside'
      cases inside'
      rw [ih rest']

/-- One frame is the nearest. -/
lemma Nearest.unique (near : r.Nearest s a b) (near' : r.Nearest s a c) : b = c := by
  induction near with
  | here has =>
    cases near' with
    | here _ => rfl
    | outside lacks _ _ =>
      rw [has] at lacks
      cases lacks
  | outside lacks inside _ ih =>
    cases near' with
    | here has =>
      rw [lacks] at has
      cases has
    | outside _ inside' near' =>
      rw [inside] at inside'
      cases inside'
      exact ih near'

/-- The nearest frame with a slot is the first such frame on the way outward. -/
lemma Walk.find?_eq_some (walk : r.Walk a l) :
    l.find? (fun c => (r.last? c s).isSome) = some b ↔ r.Nearest s a b := by
  induction walk with
  | @ends a outermost =>
    rw [List.find?_singleton]
    split
    · next has => exact ⟨fun same => Option.some.inj same ▸ .here has, fun near =>
        congrArg some ((Nearest.here has).unique near)⟩
    · next lacks =>
      refine ⟨nofun, fun near => ?_⟩
      cases near with
      | here has => exact absurd has lacks
      | outside _ inside _ =>
        rw [outermost] at inside
        cases inside
  | @goes a p rest inside _ ih =>
    rw [List.find?_cons]
    split
    · next has => exact ⟨fun same => Option.some.inj same ▸ .here has, fun near =>
        congrArg some ((Nearest.here has).unique near)⟩
    · next lacks =>
      rw [ih]
      refine ⟨.outside lacks inside, fun near => ?_⟩
      cases near with
      | here has =>
        rw [lacks] at has
        cases has
      | outside _ inside' near =>
        rw [inside] at inside'
        cases inside'
        exact near

/-- Every frame lies in older ones only, so that the way outward ends. -/
def Ordered (r : Record) : Prop := ∀ a p : Address, r.parents[a]? = some (some p) → p < a

/-- From every frame of an orderly account there is a way outward, which ends. -/
lemma Ordered.exists_walk (ordered : r.Ordered) (lt : a < r.parents.length) :
    ∃ l, r.Walk a l ∧ l.length ≤ a + 1 := by
  induction a using Nat.strong_induction_on with
  | _ a ih =>
    cases inside : r.parents[a] with
    | none => exact ⟨[a], .ends (List.getElem?_eq_some_iff.2 ⟨lt, inside⟩), by simp⟩
    | some p =>
      have parent : r.parents[a]? = some (some p) := List.getElem?_eq_some_iff.2 ⟨lt, inside⟩
      have older := ordered a p parent
      obtain ⟨l, walk, short⟩ := ih p older (Nat.lt_trans older lt)
      exact ⟨a :: l, .goes parent walk, Nat.succ_le_succ (short.trans older)⟩

end Walks

/-- What has been written last, after one more write. -/
lemma last?_write (r : Record) (a b : Address) (s u : Slot) (v : Value) :
    (r.write b s v).last? a u = if a = b ∧ u = s then some v else r.last? a u := by
  rw [last?, write, List.lookup_cons, last?]
  by_cases same : a = b ∧ u = s
  · rw [if_pos same, same.1, same.2, beq_self_eq_true]
  · have other : ((a, u) == (b, s)) = false := by simpa using same
    rw [if_neg same, other]

/-! ### Steps -/

variable {r r₁ r₂ : Record} {t : EnvTable} {op : EnvOp} {ops : List EnvOp}

/-- An account goes on in one way only. -/
lemma Step.unique (step : r.Step op r₁) (step' : r.Step op r₂) : r₁ = r₂ := by
  cases step with
  | assign own near =>
    cases step' with
    | assign own' near' =>
      rw [own] at own'
      cases own'
      rw [near.unique near']
    | refuse own' nowhere =>
      rw [own] at own'
      cases own'
      exact absurd near (nowhere _)
    | stray about none =>
      cases about
      rw [own] at none
      cases none
  | refuse own nowhere =>
    cases step' with
    | assign own' near' =>
      rw [own] at own'
      cases own'
      exact absurd near' (nowhere _)
    | refuse _ _ | stray _ _ => rfl
  | new | child own | clone own | declare own | get | has | stray about none =>
    cases step' <;> simp_all [EnvOp.env?]

/-- An account tells of the environments with their frames, and of what the slots of these
hold. -/
structure Matches (r : Record) (t : EnvTable) : Prop where
  owners : r.owners = t.envs.map Environment.own
  frames : r.parents.length = t.heap.frames.size
  ordered : r.Ordered
  walks : ∀ env ∈ t.envs, r.Walk env.own env.chain
  slots : ∀ a s, (t.heap.frame a).get? s = r.last? a s

namespace Matches

/-- The empty account matches no environments. -/
lemma empty : Record.empty.Matches .empty where
  owners := rfl
  frames := rfl
  ordered _ _ inside := nomatch inside
  walks _ member := absurd member List.not_mem_nil
  slots _ _ := rfl

/-- The numbers of the environments. -/
lemma env_of_owner (h : r.Matches t) {e : Nat} {a : Address} (own : r.owners[e]? = some a) :
    ∃ env, t.envs[e]? = some env ∧ env.own = a ∧ r.Walk a env.chain := by
  rw [h.owners, List.getElem?_map, Option.map_eq_some_iff] at own
  obtain ⟨env, found, rfl⟩ := own
  exact ⟨env, found, rfl, h.walks env (List.mem_of_getElem? found)⟩

/-- What has no owner is no environment. -/
lemma none_of_owner (h : r.Matches t) {e : Nat} (none : r.owners[e]? = none) :
    t.envs[e]? = .none := by
  rwa [h.owners, List.getElem?_map, Option.map_eq_none_iff] at none

/-- A frame binds what has been written in it. -/
lemma binds (h : r.Matches t) (s : Slot) (a : Address) :
    t.heap.binds s a = (r.last? a s).isSome := by rw [Heap.binds, h.slots]

/-- The nearest frame is the same in the heap and in the account. -/
lemma nearest? (h : r.Matches t) {env : Environment} (walk : r.Walk env.own env.chain)
    (s : Slot) (b : Address) : t.heap.nearest? env s = some b ↔ r.Nearest s env.own b := by
  rw [Heap.nearest?, ← walk.find?_eq_some, funext (h.binds s)]

/-- A frame is added and an environment that has it. -/
lemma add {parent : Option Address} {e : Environment} (h : r.Matches t)
    (own : e.own = t.heap.frames.size) (older : ∀ p ∈ parent, p < t.heap.frames.size)
    (walk : (r.addFrame parent).Walk e.own e.chain) :
    (r.addFrame parent).Matches ⟨⟨t.heap.frames.push []⟩, t.envs ++ [e]⟩ where
  owners := by
    rw [addFrame, List.map_append, ← h.owners, h.frames, ← own]
    rfl
  frames := by simp [addFrame, h.frames]
  ordered a p inside := by
    rw [addFrame, List.getElem?_append] at inside
    split at inside
    · exact h.ordered a p inside
    · next beyond =>
      rw [List.getElem?_singleton] at inside
      split at inside
      · exact Nat.lt_of_lt_of_le (older p (Option.some.inj inside))
          (h.frames ▸ Nat.le_of_not_lt beyond)
      · cases inside
  walks env member := by
    have more {a : Address} {x : Option Address} (known : r.parents[a]? = some x) :
        (r.addFrame parent).parents[a]? = some x :=
      (List.getElem?_append_left (List.getElem?_eq_some_iff.1 known).1).trans known
    rcases List.mem_append.1 member with old | new
    · exact (h.walks env old).mono more
    · rw [List.mem_singleton.1 new]
      exact walk
  slots a s := by
    rw [Heap.frame_push]
    exact h.slots a s

/-- A slot of a frame is written. -/
lemma write (h : r.Matches t) {b : Address} (lt : b < r.parents.length) (s : Slot) (v : Value) :
    (r.write b s v).Matches { t with heap := t.heap.putAt b s v } where
  owners := h.owners
  frames := h.frames.trans (Heap.size_putAt ..).symm
  ordered := h.ordered
  walks env member := (h.walks env member).mono fun known => known
  slots a u := by
    rw [Heap.get?_frame_putAt_eq (h.frames ▸ lt), last?_write, h.slots]

/-- A nearest frame is one of the account. -/
lemma lt_of_nearest (h : r.Matches t) {s : Slot} {a b : Address} (near : r.Nearest s a b) :
    b < r.parents.length := by
  rw [h.frames]
  refine Heap.lt_of_binds (s := s) ?_
  rw [h.binds]
  induction near with
  | here has => exact has
  | outside _ _ _ ih => exact ih

/-- What an operation does agrees with what it adds to the account. -/
lemma step (h : r.Matches t) (step : r.Step op r₁) : r₁.Matches (t.apply op).2 := by
  have fresh (parent : Option Address) :
      (r.addFrame parent).parents[r.parents.length]? = some parent := by simp [addFrame]
  cases step with
  -- a frame that is new is the last, and nothing is written to it yet
  | new =>
    refine h.add (e := ⟨t.heap.frames.size, []⟩) rfl nofun ?_
    exact .ends (h.frames ▸ fresh none)
  | child own =>
    obtain ⟨env, found, rfl, walk⟩ := h.env_of_owner own
    rw [EnvTable.apply, EnvTable.on_some found]
    refine h.add (e := env.inside t.heap.frames.size) rfl (fun p hp => ?_) ?_
    · cases hp
      exact h.frames ▸ walk.lt
    · refine .goes (h.frames ▸ fresh (some env.own)) (walk.mono fun known => ?_)
      exact (List.getElem?_append_left (List.getElem?_eq_some_iff.1 known).1).trans known
  | clone own =>
    obtain ⟨env, found, rfl, walk⟩ := h.env_of_owner own
    rw [EnvTable.apply, EnvTable.on_some found]
    -- a copy of an environment shares its frames
    refine ⟨?_, h.frames, h.ordered, fun env' member => ?_, h.slots⟩
    · simp [EnvTable.add, h.owners]
    · rcases List.mem_append.1 member with old | new
      · exact (h.walks env' old).mono fun known => known
      · rw [List.mem_singleton.1 new]
        exact walk.mono fun known => known
  | declare own =>
    obtain ⟨env, found, rfl, walk⟩ := h.env_of_owner own
    rw [EnvTable.apply, EnvTable.on_some found]
    exact h.write walk.lt _ _
  | assign own near =>
    obtain ⟨env, found, rfl, walk⟩ := h.env_of_owner own
    rw [EnvTable.apply_assign found ((h.nearest? walk _ _).2 near)]
    exact h.write (h.lt_of_nearest near) _ _
  | refuse own nowhere =>
    obtain ⟨env, found, rfl, walk⟩ := h.env_of_owner own
    have none : t.heap.nearest? env _ = none :=
      Option.eq_none_iff_forall_not_mem.2 fun b near => nowhere b ((h.nearest? walk _ b).1 near)
    rwa [EnvTable.apply_assign_none found none]
  | @get e s =>
    cases found : t.envs[e]? with
    | none => rwa [EnvTable.apply_stray rfl found]
    | some env => rwa [EnvTable.apply_get found]
  | @has e s =>
    cases found : t.envs[e]? with
    | none => rwa [EnvTable.apply_stray rfl found]
    | some env => rwa [EnvTable.apply_has found]
  | stray about none => rwa [EnvTable.apply_stray about (h.none_of_owner none)]

end Matches

/-- Every operation can be taken down. -/
lemma exists_step (r : Record) (op : EnvOp) : ∃ r', r.Step op r' := by
  cases about : op.env? with
  | none =>
    cases op <;> cases about
    exact ⟨_, .new⟩
  | some e =>
    cases own : r.owners[e]? with
    | none => exact ⟨r, .stray about own⟩
    | some a =>
      cases op <;> cases about
      · exact ⟨_, .child own⟩
      · exact ⟨_, .clone own⟩
      · exact ⟨_, .declare own⟩
      · next s v =>
        by_cases near : ∃ b, r.Nearest s a b
        · obtain ⟨b, near⟩ := near
          exact ⟨_, .assign own near⟩
        · exact ⟨r, .refuse own fun b found => near ⟨b, found⟩⟩
      · exact ⟨r, .get⟩
      · exact ⟨r, .has⟩

/-- A write to a slot that a frame has already is seen where the frame is the nearest. -/
lemma Matches.updates (h : r.Matches t) {b : Address} {s : Slot}
    (bound : t.heap.binds s b = true) (v : Value) :
    r.Updates t { t with heap := t.heap.putAt b s v } b s v := by
  let t' : EnvTable := { t with heap := t.heap.putAt b s v }
  refine ⟨rfl, Heap.get?_frame_putAt_eq (Heap.lt_of_binds bound) s v, fun e a own near => ?_,
    fun e a u own other => ?_⟩
  · obtain ⟨env, found, rfl, walk⟩ := h.env_of_owner own
    refine (EnvTable.apply_get_value (t := t') found).2 ?_
    rw [Heap.get?_putAt bound, if_pos ⟨rfl, (h.nearest? walk s b).2 near⟩]
  · obtain ⟨env, found, rfl, walk⟩ := h.env_of_owner own
    rw [← h.nearest? walk] at other
    rw [EnvTable.apply_get (t := t') found, EnvTable.apply_get found, Heap.get?_putAt bound,
      if_neg other]

/-- An account that agrees with the environments describes them. -/
lemma Matches.describes (h : r.Matches t) : r.Describes t where
  envs := by rw [h.owners, List.length_map]
  ends a lt := by
    obtain ⟨l, walk, short⟩ := h.ordered.exists_walk lt
    exact ⟨l, walk, short.trans lt⟩
  owners a member := by
    rw [h.owners, List.mem_map] at member
    obtain ⟨env, made, rfl⟩ := member
    exact (h.walks env made).lt
  has e a s own := by
    obtain ⟨env, found, rfl, -⟩ := h.env_of_owner own
    rw [EnvTable.apply_has found, h.binds]
  found e a s own := by
    obtain ⟨env, found, rfl, walk⟩ := h.env_of_owner own
    simp only [EnvTable.apply_get_value found, ← Option.isSome_iff_exists, Heap.get?_isSome,
      h.binds]
    refine ⟨fun has => ⟨env.chain, walk, has⟩, ?_⟩
    rintro ⟨l, walk', has⟩
    rwa [walk.unique walk']
  get e a s v own := by
    obtain ⟨env, found, rfl, walk⟩ := h.env_of_owner own
    rw [EnvTable.apply_get_value found, Heap.get?_eq_bind, Option.bind_eq_some_iff]
    simp only [h.nearest? walk, h.slots]
  declare e a s v own := by
    obtain ⟨env, found, rfl, walk⟩ := h.env_of_owner own
    rw [EnvTable.apply, EnvTable.on_some found]
    exact ⟨rfl, Heap.get?_frame_putAt_eq (h.frames ▸ walk.lt) s v⟩
  assign e a b s v own near := by
    obtain ⟨env, found, rfl, walk⟩ := h.env_of_owner own
    have nearest := (h.nearest? walk s b).2 near
    rw [EnvTable.apply_assign found nearest]
    exact ⟨rfl, h.updates (Heap.nearest?_eq_some nearest).2 v⟩
  refuse e s v lt := by
    have found : t.envs[e]? = some t.envs[e] := List.getElem?_eq_getElem lt
    have same := Heap.isSome_nearest? (h := t.heap) (e := t.envs[e]) (s := s)
    simp only [EnvTable.apply_get_value found, ← Option.isSome_iff_exists, ← same]
    cases near : t.heap.nearest? t.envs[e] s with
    | none =>
      rw [EnvTable.apply_assign_none found near]
      exact ⟨by simp, fun _ => rfl⟩
    | some b =>
      rw [EnvTable.apply_assign found near]
      refine ⟨by simp, fun none => ?_⟩
      rw [near] at same
      obtain ⟨w, got⟩ := Option.isSome_iff_exists.1 (same.1 rfl)
      exact absurd ((EnvTable.apply_get_value found).2 got) (none w)

end Record

/-- Every course of operations has exactly one account, and the account describes the
environments that have come of it: which slots an environment has itself, what a look-up
finds and in which frame, that a declaration writes to the own frame and an assignment to
the nearest one that has the slot, for every environment that sees this frame, and that an
assignment is refused, without a trace, exactly where a look-up finds nothing. -/
theorem environments_nest (ops : List EnvOp) :
    ∃ r, Record.empty.Runs ops r ∧ (∀ r', Record.empty.Runs ops r' → r' = r) ∧
      r.Describes (EnvTable.empty.run ops) := by
  suffices all : ∀ {r : Record} {t : EnvTable}, r.Matches t → ∃ r', r.Runs ops r' ∧
      (∀ r'', r.Runs ops r'' → r'' = r') ∧ r'.Matches (t.run ops) by
    obtain ⟨r, runs, unique, agrees⟩ := all .empty
    exact ⟨r, runs, unique, agrees.describes⟩
  induction ops with
  | nil =>
    intro r t h
    refine ⟨r, .nil, fun r' runs => ?_, h⟩
    cases runs
    rfl
  | cons op ops ih =>
    intro r t h
    obtain ⟨r₁, step⟩ := r.exists_step op
    obtain ⟨r', runs, unique, agrees⟩ := ih (h.step step)
    refine ⟨r', .cons step runs, fun r'' runs' => ?_, agrees⟩
    cases runs' with
    | cons step' rest =>
      rw [step'.unique step] at rest
      exact unique r'' rest

end Ember
