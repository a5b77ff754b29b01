/-
What receivers are bound to, in a run of a program and in calls that are made later.

* `Value.Whole`, `Machine.Whole`: the frames of classes and instances bind what they
  should, and are theirs alone;
* `Program.Script.Session`: a run of a program, and calls from outside with what has come
  out of it;
* `integrity`: the discipline in which frames mirror scopes and receivers are kept,
  `kept_integrity` that every run keeps it;
* `Program.Script.Stage`: what holds at a stage of a session, `Script.Session.stage` at
  each;
* `receivers_intact`: the main theorem.
-/
import Mathlib
import Ember.Proofs.Run.Order
import Ember.Proofs.Run.Receivers

namespace Ember

open Program

variable {σ : Type}

/-! ### Whole frames -/

/-- The frame of a class binds the receiver of its static side to the class, and besides
that exactly the static fields. -/
structure ClassObject.Whole (h : Heap) (c : ClassObject) : Prop where
  slots : ∀ s, h.binds s c.statics.own = true ↔ s ∈ c.decl.staticSlots
  receiver : (h.frame c.statics.own).get? c.decl.staticReceiver = some (.cls c)

/-- The frame of an instance binds the receiver of the class to the instance, and besides
that exactly the fields. It lies in the frame of the class. -/
structure Instance.Whole (h : Heap) (i : Instance) : Prop where
  slots : ∀ s, h.binds s i.env.own = true ↔ s ∈ i.cls.decl.instanceSlots
  receiver : (h.frame i.env.own).get? i.cls.decl.receiver = some (.obj i)
  parent : i.env.outer = i.cls.statics.chain
  cls : i.cls.Whole h

/-- Classes and instances have whole frames. -/
def Value.Whole (h : Heap) : Value → Prop
  | .cls c => c.Whole h
  | .obj i => i.Whole h
  | .null | .boolean _ | .number _ | .text _ | .host _ => True

/-- The address of the frame of a class or of an instance. -/
def Value.frame? : Value → Option Address
  | .cls c => some c.statics.own
  | .obj i => some i.env.own
  | .null | .boolean _ | .number _ | .text _ | .host _ => none

/-- What can be had while some values are at hand: from these, from what is bound and
from what the host holds. -/
def Machine.Has (holds : σ → Value → Prop) (m : Machine σ) (hand : Value → Prop) : Value → Prop :=
  Value.From fun w => hand w ∨ holds m.host w ∨ ∃ a s, (m.heap.frame a).get? s = some w

/-- All classes and instances that can be had have whole frames, and no two of them the
same frame. -/
structure Machine.Whole (holds : σ → Value → Prop) (m : Machine σ) (hand : Value → Prop) :
    Prop where
  whole : ∀ v, m.Has holds hand v → v.Whole m.heap
  apart : ∀ a v w, m.Has holds hand v → m.Has holds hand w → v.frame? = some a →
    w.frame? = some a → v = w

section Frames

variable {all : List (Slot × SlotRole)} {R : Slot → Prop} {acts : Activity σ → Prop}
  {holds : σ → Value → Prop} {active : Block → Address → Prop} {Λ : Layers} {m : Machine σ}

/-- A frame with a layer that is no block binds exactly the slots of the layer. -/
lemma Machine.Fits.binds_iff (fits : m.Fits all holds Λ []) {a : Address} {l : Layer}
    (at_a : Λ.at? a = some l) (firm : l.firm = l.slots) {s : Slot} :
    m.heap.binds s a = true ↔ s ∈ l.slots := by
  refine ⟨fun bound => ?_, fun hs => ?_⟩
  · obtain ⟨v, got⟩ := Option.isSome_iff_exists.1 bound
    have := (fits.bound a s v got).1
    rwa [Layers.slotsAt_of_at? at_a] at this
  · exact (fits.ready a l s at_a (firm ▸ hs)).resolve_right List.not_mem_nil

lemma ClassObject.Fits.whole (fits : m.Fits all holds Λ []) {c : ClassObject} (hc : c.Fits all Λ)
    (rooted : c.Rooted R acts m.heap) : c.Whole m.heap where
  slots s := by rw [fits.binds_iff hc.1 rfl, Layer.slots_statics]
  receiver := rooted.bound

/-- A value that fits, and that is rooted, has a whole frame. -/
lemma Value.Fits.whole (fits : m.Fits all holds Λ []) {v : Value} (hv : v.Fits all Λ)
    (rooted : v.Rooted R acts m.heap) : v.Whole m.heap := by
  cases v with
  | cls c => exact ClassObject.Fits.whole fits hv rooted
  | obj i =>
    have hv : i.Fits all Λ := hv
    have rooted : i.Rooted R acts m.heap := rooted
    have own (s : Slot) : m.heap.binds s i.env.own = true ↔ s ∈ i.cls.decl.instanceSlots := by
      rw [fits.binds_iff hv.own rfl, Layer.slots_fields]
    exact (⟨own, rooted.bound, rooted.outer, ClassObject.Fits.whole fits hv.cls rooted.cls⟩ :
      i.Whole m.heap)
  | null | boolean _ | number _ | text _ | host _ => trivial

/-- Two values that fit, and that are rooted in the same frame, are the same. -/
lemma Value.Fits.eq_of_frame? {h : Heap} {a : Address} {v w : Value} (hv : v.Fits all Λ)
    (hw : w.Fits all Λ) (rv : v.Rooted R acts h) (rw' : w.Rooted R acts h)
    (fv : v.frame? = some a) (fw : w.frame? = some a) : v = w := by
  cases v with
  | cls c =>
    have hv : c.Fits all Λ := hv
    have rv : c.Rooted R acts h := rv
    cases fv
    cases w with
    | cls d =>
      have hw : d.Fits all Λ := hw
      have rw' : d.Rooted R acts h := rw'
      have same : c.statics.own = d.statics.own := (Option.some.inj fw).symm
      have at_d := hw.1
      rw [← same, hv.1] at at_d
      have decl : c.decl = d.decl := Layer.statics.inj (Option.some.inj at_d)
      have bound := rw'.bound
      rw [← same, ← decl, rv.bound] at bound
      exact Option.some.inj bound
    | obj j =>
      have hw : j.Fits all Λ := hw
      have at_j := hw.own
      rw [Option.some.inj fw, hv.1] at at_j
      exact nomatch Option.some.inj at_j
    | null | boolean _ | number _ | text _ | host _ => exact nomatch fw
  | obj i =>
    have hv : i.Fits all Λ := hv
    have rv : i.Rooted R acts h := rv
    cases fv
    cases w with
    | cls d =>
      have hw : d.Fits all Λ := hw
      have at_d := hw.1
      rw [Option.some.inj fw, hv.own] at at_d
      exact nomatch Option.some.inj at_d
    | obj j =>
      have hw : j.Fits all Λ := hw
      have rw' : j.Rooted R acts h := rw'
      have same : i.env.own = j.env.own := (Option.some.inj fw).symm
      have at_j := hw.own
      rw [← same, hv.own] at at_j
      have decl : i.cls.decl = j.cls.decl := Layer.fields.inj (Option.some.inj at_j)
      have bound := rw'.bound
      rw [← same, ← decl, rv.bound] at bound
      exact Option.some.inj bound
    | null | boolean _ | number _ | text _ | host _ => exact nomatch fw
  | null | boolean _ | number _ | text _ | host _ => exact nomatch fv

end Frames

/-! ### Sessions -/

/-- What a run shows of an activity: the machine that it starts on and the one that it
ends on, each with the values at hand. -/
inductive Activity.Shows (host : Host σ) (b : Activity σ) : Machine σ → (Value → Prop) → Prop
  | start : Activity.Shows host b b.machine (· ∈ b.task.given)
  | done {a : b.α} {m : Machine σ} (run : b.outcome host = .done a m) :
      Activity.Shows host b m (· ∈ b.task.gives a)
  | failed {err : RuntimeError} {m : Machine σ} (run : b.outcome host = .failed err m) :
      Activity.Shows host b m fun _ => False

/-- A value that an activity has answered with. -/
def Activity.Yields (host : Host σ) (b : Activity σ) (v : Value) : Prop :=
  ∃ a m, b.outcome host = .done a m ∧ v ∈ b.task.gives a

/-- Everything that an activity visits, in order. -/
def Activity.visited (host : Host σ) (b : Activity σ) : List (Activity σ) :=
  b.task.visited host b.fuel b.machine

/-- The run of a program, and calls that are made from outside when it has ended, by
itself or with a failure: what has been visited so far, which values have come out, and
the machine that is left, unless fuel has run out. Between calls the state of the host
may be replaced. What is given to a call, or to the host, has come out or is held by the
host. -/
inductive Program.Script.Session (host : Host σ) (holds : σ → Value → Prop) (script : Script)
    (st : σ) : List (Activity σ) → (Value → Prop) → Option (Machine σ) → Prop
  | run {fuel : Nat} {e : Environment} {m : Machine σ} {b : Activity σ}
      (entered : script.entered host ⟨.empty, st⟩ = .done e m)
      (root : b = ⟨fuel, .block script.root e, m⟩) :
      Script.Session host holds script st (b.visited host) (fun _ => False)
        (interpret host fuel script ⟨.empty, st⟩).machine?
  | call {past : List (Activity σ)} {out : Value → Prop} {m : Machine σ} {fuel : Nat}
      {receiver : Value} {name : String} {arguments : Option (List Value)} {line : Line}
      {b : Activity σ} (before : Script.Session host holds script st past out (some m))
      (given : ∀ v ∈ receiver :: arguments.getD [], v.From fun w => out w ∨ holds m.host w)
      (root : b = ⟨fuel, .call receiver name arguments line, m⟩) :
      Script.Session host holds script st (past ++ b.visited host)
        (fun v => out v ∨ b.Yields host v) (b.outcome host).machine?
  | replace {past : List (Activity σ)} {out : Value → Prop} {m : Machine σ} {st' : σ}
      (before : Script.Session host holds script st past out (some m))
      (given : ∀ v, holds st' v → v.From fun w => out w ∨ holds m.host w) :
      Script.Session host holds script st past (fun v => out v ∨ holds m.host v)
        (some { m with host := st' })

/-! ### The discipline -/

/-- The discipline in which frames mirror the scopes of a program and receivers are
kept. -/
abbrev integrity (script : Script) (holds : σ → Value → Prop) (host : Host σ)
    (acts : Activity σ → Prop) : Discipline σ (Layers × Seats script.IsReceiver) :=
  (mirroring script.roles holds host fun _ _ => True).both (seating script.IsReceiver acts holds)

section Integrity

variable {script : Script} {holds : σ → Value → Prop} {host : Host σ} {acts : Activity σ → Prop}
  {root : Activity σ}

/-- The receivers of a class whose slots are declared by the program are receivers of the
program. -/
lemma marked_of_roles_subset {c : ClassDecl} (sub : c.roles ⊆ script.roles) :
    script.IsReceiver c.receiver ∧ script.IsReceiver c.staticReceiver := by
  cases c
  exact ⟨sub (by simp [ClassDecl.roles]), sub (by simp [ClassDecl.roles])⟩

/-- Every run keeps the discipline, if `acts` tells of what it visits. -/
theorem kept_integrity (honest : host.Honest holds) (visits : ∀ b, root.Visits host b → acts b) :
    (integrity script holds host acts).Kept host root := by
  intro α fuel t w Q m visited allowed holding
  obtain ⟨Λ, seats⟩ := w
  obtain ⟨P, S, ⟨fits, rfl⟩, ⟨⟨seated, given⟩, rfl⟩, rfl⟩ := allowed
  obtain ⟨mirrors, same, rooted⟩ := holding
  obtain ⟨heap⟩ := seats
  dsimp only at fits seated given mirrors same rooted
  subst same
  -- the frames are in order in any run, so that the seats remain to be kept
  have kept : (mirroring script.roles holds host fun _ _ => True).Kept host root :=
    kept_mirroring honest fun _ _ _ _ _ => trivial
  suffices keeps : KeepsSeats script.IsReceiver acts holds (t.plan host) m.heap m t.gives from
    (kept fuel t Λ _ m visited ⟨fits, rfl⟩ mirrors).both keeps
  have act := visits _ visited
  cases t with
  | call receiver name arguments line => exact keeps_seating_call honest act given rooted
  | body method e arguments => exact keeps_seating_body (visits _ visited) seated given rooted
  | block b e =>
    obtain ⟨own, minds, governed⟩ := seated
    -- a class that is made in a block is one of the program, and so are its receivers
    have placed : Λ.Placed script.roles e.chain (b.Closed false) b.roles := fits
    refine keeps_seating_block minds governed (fun c hc => ?_) rooted
    refine marked_of_roles_subset (List.Subset.trans ?_ placed.declared)
    obtain ⟨ss, names, cs⟩ := b
    exact List.Subset.trans (roles_sublist_classRoles hc).subset (by simp [Block.roles])
  | stmts ss e =>
    obtain ⟨own, minds, governed⟩ := seated
    exact keeps_seating_stmts minds governed rooted
  | stmt s e =>
    obtain ⟨own, minds, governed⟩ := seated
    exact keeps_seating_stmt minds governed rooted
  | loop condition inner e =>
    obtain ⟨own, minds, governed⟩ := seated
    exact keeps_seating_loop minds governed rooted
  | test condition e =>
    obtain ⟨own, minds, governed⟩ := seated
    exact keeps_seating_test minds governed rooted
  | eval expr e =>
    obtain ⟨own, minds, governed⟩ := seated
    have placed : Λ.Placed script.roles e.chain (expr.Closed false) expr.roles := fits
    refine keeps_seating_eval minds governed (fun decl same => ?_) rooted
    subst same
    exact marked_of_roles_subset placed.declared
  | evalAll es e =>
    obtain ⟨own, minds, governed⟩ := seated
    exact keeps_seating_evalAll minds governed rooted

/-- The worlds of the discipline account for receivers that are kept. -/
lemma traces_integrity : (integrity script holds host acts).Traces fun m m' =>
    m.heap.Keeps script.IsReceiver m'.heap where
  trans := Heap.Keeps.trans
  step hw holding holding' := by
    have grown := hw.2
    obtain ⟨-, same, -⟩ := holding
    obtain ⟨-, same', -⟩ := holding'
    rw [← same, ← same']
    exact grown
  fails := by
    intro w α t err m blamed
    obtain ⟨⟨-, Λ, grown, mirrors⟩, keeps, rooted⟩ := blamed
    exact ⟨(Λ, ⟨m.heap⟩), ⟨grown, keeps⟩, mirrors, rfl, rooted⟩

/-! ### Stages -/

/-- The machine fits the discipline, together with the values at hand. -/
def Program.Script.Settled (script : Script) (holds : σ → Value → Prop) (host : Host σ)
    (acts : Activity σ → Prop) (m : Machine σ) (hand : Value → Prop) : Prop :=
  ∃ w, (integrity script holds host acts).Holds w m ∧
    ∀ v, hand v → v.Fits script.roles w.1 ∧ v.Rooted script.IsReceiver acts m.heap

/-- The discipline allows an activity. -/
def Program.Script.Admits (script : Script) (holds : σ → Value → Prop) (host : Host σ)
    (acts : Activity σ → Prop) (b : Activity σ) : Prop :=
  ∃ w Q, (integrity script holds host acts).Allows w b.task Q ∧
    (integrity script holds host acts).Holds w b.machine

/-- What holds at a stage of a session: receivers have been kept all along, what has been
visited was allowed, and machines have fitted the discipline. -/
structure Program.Script.Stage (script : Script) (holds : σ → Value → Prop) (host : Host σ)
    (acts : Activity σ → Prop) (past : List (Activity σ)) (out : Value → Prop)
    (last : Option (Machine σ)) : Prop where
  inner : past.Pairwise fun b c => b.machine.heap.Keeps script.IsReceiver c.machine.heap
  admits : ∀ b ∈ past, script.Admits holds host acts b
  shows : ∀ b ∈ past, ∀ m hand, b.Shows host m hand → script.Settled holds host acts m hand ∧
    b.machine.heap.Keeps script.IsReceiver m.heap
  last : ∀ m, last = some m → script.Settled holds host acts m out ∧
    ∀ b ∈ past, b.machine.heap.Keeps script.IsReceiver m.heap

variable {past : List (Activity σ)} {out hand hand' : Value → Prop} {last : Option (Machine σ)}
  {m : Machine σ} {b : Activity σ} {st : σ}

namespace Program.Script

/-- What can be had from values at hand is settled with them. -/
lemma Settled.of_from (settled : script.Settled holds host acts m hand)
    (given : ∀ v, hand' v → v.From fun w => hand w ∨ holds m.host w) :
    script.Settled holds host acts m hand' := by
  obtain ⟨w, ⟨mirrors, same, rooted⟩, fit⟩ := settled
  exact ⟨w, ⟨mirrors, same, rooted⟩, fun v hv =>
    ⟨(given v hv).fits fun u hu => hu.elim (fun h => (fit u h).1) (mirrors.1.host u),
      (given v hv).rooted fun u hu => hu.elim (fun h => (fit u h).2) (rooted.host u)⟩⟩

/-- Where a machine is settled, its frames are whole. -/
lemma Settled.whole (settled : script.Settled holds host acts m hand) : m.Whole holds hand := by
  obtain ⟨w, ⟨mirrors, same, rooted⟩, fit⟩ := settled
  have suits (v : Value) (hv : m.Has holds hand v) :
      v.Fits script.roles w.1 ∧ v.Rooted script.IsReceiver acts m.heap := by
    refine ⟨Value.From.fits hv fun u hu => ?_, Value.From.rooted hv fun u hu => ?_⟩
    · rcases hu with hu | hu | ⟨a, s, got⟩
      · exact (fit u hu).1
      · exact mirrors.1.host u hu
      · exact (mirrors.1.bound a s u got).2
    · rcases hu with hu | hu | ⟨a, s, got⟩
      · exact (fit u hu).2
      · exact rooted.host u hu
      · exact rooted.bound a s u got
  exact ⟨fun v hv => Value.Fits.whole mirrors.1 (suits v hv).1 (suits v hv).2,
    fun a v u hv hu fv fu =>
      Value.Fits.eq_of_frame? (suits v hv).1 (suits u hu).1 (suits v hv).2 (suits u hu).2 fv fu⟩

end Program.Script

/-- The values that a task is given fit where the task does. -/
lemma Task.Fits.given {all : List (Slot × SlotRole)} {Λ : Layers} {α : Type} {t : Task α}
    (fits : t.Fits all Λ) : ∀ v ∈ t.given, v.Fits all Λ := by
  cases t with
  | call receiver name arguments line => exact List.forall_mem_cons.2 fits
  | body method e arguments => exact fits.2.1
  | block _ _ | stmts _ _ | stmt _ _ | loop _ _ _ | test _ _ | eval _ _ | evalAll _ _ =>
    exact fun v hv => nomatch hv

/-- The values that a task answers with fit if its answer does. -/
lemma Task.Answers.gives {all : List (Slot × SlotRole)} {Λ : Layers} {α : Type} {t : Task α}
    {a : α} (answers : t.Answers all Λ a) : ∀ v ∈ t.gives a, v.Fits all Λ := by
  have completion (c : Completion) (hc : c.Fits all Λ) : ∀ v ∈ c.value?.toList, v.Fits all Λ := by
    cases c with
    | normal => exact fun v hv => nomatch hv
    | returned w line => exact fun v hv => List.mem_singleton.1 hv ▸ hc
  cases t with
  | call _ _ _ _ | body _ _ _ | eval _ _ =>
    exact fun v hv => List.mem_singleton.1 hv ▸ answers
  | block _ _ | stmts _ _ | stmt _ _ | loop _ _ _ => exact completion a answers
  | test _ _ => exact fun v hv => nomatch hv
  | evalAll _ _ => exact answers

/-- What a run shows of an activity that is allowed is settled. -/
lemma settled_of_shows (honest : host.Honest holds) (visits : ∀ c, root.Visits host c → acts c)
    (visited : root.Visits host b) (admits : script.Admits holds host acts b)
    (shows' : b.Shows host m hand) : script.Settled holds host acts m hand ∧
      b.machine.heap.Keeps script.IsReceiver m.heap := by
  obtain ⟨w, Q, allowed, holding⟩ := admits
  have kept : (integrity script holds host acts).Kept host root := kept_integrity honest visits
  have ends {m' : Machine σ} := kept.last traces_integrity visited allowed holding (m := m')
  obtain ⟨P, S, ⟨fits, rfl⟩, ⟨⟨-, given⟩, rfl⟩, rfl⟩ := allowed
  cases shows' with
  | start =>
    refine ⟨⟨w, holding, fun v hv => ⟨fits.given v hv, ?_⟩⟩, .refl _ _⟩
    have := given v hv
    rwa [holding.2.1] at this
  | @done a m run =>
    obtain ⟨w', grown, holding', answers⟩ := ends (by rw [run]; rfl)
    obtain ⟨fit, rooted⟩ := answers a run
    refine ⟨⟨w', holding', fun v hv => ⟨Task.Answers.gives fit v hv, ?_⟩⟩,
      traces_integrity.step grown holding holding'⟩
    have := rooted v hv
    rwa [holding'.2.1] at this
  | failed run =>
    obtain ⟨w', grown, holding', -⟩ := ends (by rw [run]; rfl)
    exact ⟨⟨w', holding', fun v hv => hv.elim⟩, traces_integrity.step grown holding holding'⟩

/-- An activity that is allowed comes to a stage of its own. -/
lemma stage_of_visited (out : Value → Prop) (honest : host.Honest holds)
    (visits : ∀ c ∈ b.visited host, acts c)
    {w : Layers × Seats script.IsReceiver} {Q : Layers × Seats script.IsReceiver → b.α → Prop}
    (allowed : (integrity script holds host acts).Allows w b.task Q)
    (holding : (integrity script holds host acts).Holds w b.machine)
    (fit : ∀ v, out v → v.Fits script.roles w.1 ∧ v.Rooted script.IsReceiver acts b.machine.heap) :
    script.Stage holds host acts (b.visited host) (fun v => out v ∨ b.Yields host v)
        (b.outcome host).machine? ∧
      ∀ c ∈ b.visited host, b.machine.heap.Keeps script.IsReceiver c.machine.heap := by
  have visits' (c : Activity σ) (hc : b.Visits host c) : acts c :=
    visits c (Activity.visits_iff.1 hc)
  have kept : (integrity script holds host acts).Kept host b := kept_integrity honest visits'
  have order := kept.inOrder traces_integrity b.fuel b.task w Q b.machine .refl allowed holding
  have admits (c : Activity σ) (hc : c ∈ b.visited host) : script.Admits holds host acts c :=
    kept.allows allowed holding (Activity.visits_iff.2 hc)
  refine ⟨⟨order.inner, admits, fun c hc m hand shows' => ?_, fun m last => ⟨?_, ?_⟩⟩, order.first⟩
  · exact settled_of_shows honest visits' (Activity.visits_iff.2 hc) (admits c hc) shows'
  · obtain ⟨w', grown, holding', answers⟩ := kept.last traces_integrity .refl allowed holding last
    have keeps := traces_integrity.step grown holding holding'
    refine ⟨w', holding', fun v hv => ?_⟩
    rcases hv with hv | ⟨a, m', run, hv⟩
    · exact ⟨(fit v hv).1.mono grown.1, (fit v hv).2.later keeps⟩
    · obtain ⟨P, S, ⟨-, rfl⟩, ⟨-, rfl⟩, rfl⟩ := allowed
      rw [run] at last
      cases last
      obtain ⟨answer, rooted⟩ := answers a run
      have := rooted v hv
      rw [holding'.2.1] at this
      exact ⟨Task.Answers.gives answer v hv, this⟩
  · exact (order.last m last).2

/-- A stage of a session goes on with an activity that starts on the machine that is
left. -/
lemma Program.Script.Stage.append {out' : Value → Prop} {visited : List (Activity σ)}
    (stage : script.Stage holds host acts past out (some m))
    (next : script.Stage holds host acts visited out' last)
    (first : ∀ c ∈ visited, m.heap.Keeps script.IsReceiver c.machine.heap)
    (ends : ∀ m', last = some m' → m.heap.Keeps script.IsReceiver m'.heap) :
    script.Stage holds host acts (past ++ visited) out' last := by
  obtain ⟨-, before⟩ := stage.last m rfl
  refine ⟨List.pairwise_append.2 ⟨stage.inner, next.inner, fun b hb c hc =>
    (before b hb).trans (first c hc)⟩, fun c hc => ?_, fun c hc => ?_, fun m' hm =>
      ⟨(next.last m' hm).1, fun c hc => ?_⟩⟩
  · exact (List.mem_append.1 hc).elim (stage.admits c) (next.admits c)
  · exact (List.mem_append.1 hc).elim (stage.shows c) (next.shows c)
  · exact (List.mem_append.1 hc).elim (fun h => (before c h).trans (ends m' hm))
      ((next.last m' hm).2 c)

/-- Once the globals are bound all values are rooted: they are plain. -/
lemma rooted_entered (honest : host.Honest holds) (initially : ∀ v, holds st v → v.IsPlain)
    (free : ∀ g ∈ script.globals, ¬script.IsReceiver g.1) :
    (script.entered host).Succeeds ⟨.empty, st⟩ fun _ m =>
      m.Rooted script.IsReceiver acts holds := by
  have globals (e : Environment) (gs : List (Slot × String)) :
      ∀ m : Machine σ, m.Rooted script.IsReceiver acts holds →
        (∀ g ∈ gs, ¬script.IsReceiver g.1) → (bindGlobals host e gs).Succeeds m fun _ m' =>
          m'.Rooted script.IsReceiver acts holds := by
    induction gs with
    | nil => exact fun m rooted _ => .pure rooted
    | cons g gs ih =>
      intro m rooted free
      obtain ⟨first, others⟩ := List.forall_mem_cons.1 free
      exact (rooted.declare e first (.of_isPlain (honest.isPlain_global g.2))).bind
        fun _ m' follows => ih m' follows.2 others
  have root : (Run.root : Run σ Environment).Succeeds ⟨.empty, st⟩ fun _ m =>
      m.Rooted script.IsReceiver acts holds := by
    refine ⟨_, _, rfl, fun a s v got => ?_, fun v hv => .of_isPlain (initially v hv)⟩
    have got : ((⟨Heap.empty.frames.push []⟩ : Heap).frame a).get? s = some v := got
    rw [Heap.frame_push Heap.empty, Heap.frame_of_le (Nat.zero_le a)] at got
    exact nomatch got
  exact root.bind fun e m rooted => (globals e script.globals m rooted free).bind
    fun _ m' rooted' => .pure rooted'

/-- No global is the receiver of a class. -/
lemma free_globals (once : script.slots.Nodup) : ∀ g ∈ script.globals, ¬script.IsReceiver g.1 := by
  intro g hg receiver
  have global : (g.1, SlotRole.global) ∈ script.roles :=
    List.mem_append_left _ (List.mem_map_of_mem hg)
  exact nomatch congrArg Prod.snd (List.inj_on_of_nodup_map once global receiver rfl)

/-- A program leaves the machine that its outermost block leaves. -/
lemma machine?_interpret {fuel : Nat} {e : Environment}
    (entered : script.entered host ⟨.empty, st⟩ = .done e m) :
    (interpret host fuel script ⟨.empty, st⟩).machine? =
      (Activity.outcome host ⟨fuel, .block script.root e, m⟩).machine? := by
  rw [interpret_eq]
  simp only [bind, Run.bind, entered]
  change _ = (runBlock host fuel script.root e m).machine?
  cases runBlock host fuel script.root e m with
  | done c m' => cases c <;> rfl
  | failed err m' | exhausted => rfl

/-- A program comes to a stage of its own. -/
lemma stage_of_run (honest : host.Honest holds) (initially : ∀ v, holds st v → v.IsPlain)
    (globals : List String) (program : List Syntax.Stmt) {e : Environment} {fuel : Nat} :
    let script := (resolve globals program).1
    script.entered host ⟨.empty, st⟩ = .done e m → b = ⟨fuel, .block script.root e, m⟩ →
      (∀ c ∈ b.visited host, acts c) → script.Stage holds host acts (b.visited host)
        (fun _ => False) (interpret host fuel script ⟨.empty, st⟩).machine? := by
  intro script entered eq visits
  subst eq
  rw [machine?_interpret entered]
  obtain ⟨e₀, m₀, run, rfl, fits⟩ := fits_entered honest initially script
  have roots : (script.entered host).Succeeds ⟨.empty, st⟩ fun _ m =>
      m.Rooted script.IsReceiver acts holds :=
    rooted_entered honest initially (free_globals (resolve_nodup globals program))
  obtain ⟨e₁, m₁, run', rooted⟩ := roots
  rw [entered] at run run'
  cases run
  cases run'
  have placed := placed_root globals program
  have stage := (stage_of_visited (fun _ => False) honest visits
    (w := ((⟨[.globals script.globals]⟩, ⟨m.heap⟩) : Layers × Seats script.IsReceiver))
    ⟨_, _, ⟨placed, rfl⟩, ⟨⟨⟨none, resolve_minds globals program, governed_none⟩,
      fun v hv => nomatch hv⟩, rfl⟩, rfl⟩ ⟨⟨fits, fun _ _ _ => trivial⟩, rfl, rooted⟩
    fun v hv => hv.elim).1
  refine ⟨stage.inner, stage.admits, stage.shows, fun m' last => ?_⟩
  obtain ⟨settled, before⟩ := stage.last m' last
  exact ⟨settled.of_from fun v hv => hv.elim, before⟩

/-- A call that is made from outside comes to a stage of its own. -/
lemma stage_of_call (honest : host.Honest holds) {fuel : Nat} {receiver : Value} {name : String}
    {arguments : Option (List Value)} {line : Line}
    (settled : script.Settled holds host acts m out)
    (given : ∀ v ∈ receiver :: arguments.getD [], v.From fun w => out w ∨ holds m.host w)
    (root : b = ⟨fuel, .call receiver name arguments line, m⟩)
    (visits : ∀ c ∈ b.visited host, acts c) :
    script.Stage holds host acts (b.visited host) (fun v => out v ∨ b.Yields host v)
        (b.outcome host).machine? ∧
      ∀ c ∈ b.visited host, m.heap.Keeps script.IsReceiver c.machine.heap := by
  have handed : script.Settled holds host acts m fun v =>
      out v ∨ v ∈ receiver :: arguments.getD [] :=
    settled.of_from fun v hv => hv.elim (fun h => .given (.inl h)) (given v)
  obtain ⟨w, holding, fit⟩ := handed
  have fits (v : Value) (hv : v ∈ receiver :: arguments.getD []) := (fit v (.inr hv)).1
  subst root
  refine stage_of_visited out honest visits (w := w)
    ⟨_, _, ⟨List.forall_mem_cons.1 fits, rfl⟩, ⟨⟨trivial, fun v hv => ?_⟩, rfl⟩, rfl⟩ holding
    fun v hv => fit v (.inl hv)
  rw [holding.2.1]
  exact (fit v (.inr hv)).2

/-- The state of the host may be replaced. -/
lemma Program.Script.Settled.replace {st' : σ} (settled : script.Settled holds host acts m out)
    (given : ∀ v, holds st' v → v.From fun w => out w ∨ holds m.host w) :
    script.Settled holds host acts { m with host := st' } fun v => out v ∨ holds m.host v := by
  obtain ⟨w, ⟨⟨fits, active⟩, same, rooted⟩, fit⟩ := settled
  have fit' (v : Value) (hv : out v ∨ holds m.host v) :
      v.Fits script.roles w.1 ∧ v.Rooted script.IsReceiver acts m.heap :=
    hv.elim (fit v) fun h => ⟨fits.host v h, rooted.host v h⟩
  refine ⟨w, ⟨⟨⟨fits.size, fits.declared, fits.bound, fits.ready, fun v hv => ?_⟩, active⟩, same,
    rooted.bound, fun v hv => ?_⟩, fit'⟩
  · exact (given v hv).fits fun u hu => (fit' u hu).1
  · exact (given v hv).rooted fun u hu => (fit' u hu).2

/-- Every session comes to a stage. -/
theorem Program.Script.Session.stage (honest : host.Honest holds)
    (initially : ∀ v, holds st v → v.IsPlain) (globals : List String)
    (program : List Syntax.Stmt)
    (session : (resolve globals program).1.Session host holds st past out last)
    (visits : ∀ b ∈ past, acts b) :
    (resolve globals program).1.Stage holds host acts past out last := by
  induction session with
  | run entered root => exact stage_of_run honest initially globals program entered root visits
  | @call past out m fuel receiver name arguments line b before given root ih =>
    obtain ⟨visits, visits'⟩ := List.forall_mem_append.1 visits
    have stage := ih visits
    obtain ⟨next, first⟩ := stage_of_call honest (stage.last m rfl).1 given root visits'
    refine stage.append next first fun m' last => ?_
    -- the call itself is the first activity that it visits
    have self : b ∈ b.visited host := Activity.visits_iff.1 .refl
    exact (first b self).trans ((next.last m' last).2 b self)
  | @replace past out m st' before given ih =>
    have stage := ih visits
    refine ⟨stage.inner, stage.admits, stage.shows, fun m' same => ?_⟩
    cases same
    obtain ⟨settled, kept⟩ := stage.last m rfl
    exact ⟨settled.replace given, kept⟩

end Integrity

/-! ### The theorem -/

/-- Receivers stay intact. Whatever mistakes a program has, and whatever an honest host
does, in its run and in all calls that follow: wherever a task starts or ends, the frames
of all classes and instances are whole and their own, and the task keeps receivers; so it
is where the session has got to; receivers are kept from each task that is started to
each later one and to the end; and where the receiver of a class is read, the answer is
the value for which a call has run the method around. -/
theorem receivers_intact {holds : σ → Value → Prop} {host : Host σ} (honest : host.Honest holds)
    {st : σ} (initially : ∀ v, holds st v → v.IsPlain) (globals : List String)
    (program : List Syntax.Stmt) :
    let script := (resolve globals program).1
    ∀ past out last, script.Session host holds st past out last →
      (∀ b ∈ past, ∀ m hand, b.Shows host m hand →
        m.Whole holds hand ∧ b.machine.heap.Keeps script.IsReceiver m.heap) ∧
      (∀ m, last = some m → m.Whole holds out ∧
        ∀ b ∈ past, b.machine.heap.Keeps script.IsReceiver m.heap) ∧
      past.Pairwise (fun b c => b.machine.heap.Keeps script.IsReceiver c.machine.heap) ∧
      ∀ fuel s line e m, ⟨fuel + 1, .eval (.read s line) e, m⟩ ∈ past → script.IsReceiver s →
        ∃ v e', v.Governs (· ∈ past) s e' e.chain ∧
          eval host (fuel + 1) (.read s line) e m = .done v m := by
  intro script past out last session
  have stage : script.Stage holds host (· ∈ past) past out last :=
    session.stage honest initially globals program fun _ hb => hb
  refine ⟨fun b hb m hand shows' => ?_, fun m hm => ?_, stage.inner,
    fun fuel s line e m visited receiver => ?_⟩
  · obtain ⟨settled, kept⟩ := stage.shows b hb m hand shows'
    exact ⟨settled.whole, kept⟩
  · obtain ⟨settled, kept⟩ := stage.last m hm
    exact ⟨settled.whole, kept⟩
  · obtain ⟨w, Q, ⟨P, S, ⟨fits, -⟩, ⟨⟨⟨own, minds, governed⟩, -⟩, -⟩, -⟩, ⟨mirrors, same, -⟩⟩ :=
      stage.admits _ visited
    -- the receiver is bound in a frame around, and no other frame around binds it
    obtain ⟨-, v, e', governs, -, got⟩ := governed s (minds receiver)
    rw [same] at got
    have around : e'.own ∈ e.chain := by
      obtain ⟨_, _, _, _, _, _, m', -, -, -, suffix⟩ := governs
      exact suffix.subset (List.mem_cons_of_mem _ (List.mem_cons_self ..))
    have once : m.heap.BindsOnce e := mirrors.1.bindsOnce fits
    have bound : m.heap.binds s e'.own = true := by
      rw [Heap.binds, got]
      rfl
    refine ⟨v, e', governs, ?_⟩
    change (Task.eval (.read s line) e).run host (fuel + 1) m = _
    rw [Task.run_succ, Task.plan, Plan.run_step, Run.get, once.get?_eq around bound, got]

/-- A class whose instances pass on a block of code that answers with the receiver. -/
def passesOn : List Syntax.Stmt :=
  [.cls ⟨"Box", 1⟩
      [⟨.construct, ⟨"make", 2⟩, some [], []⟩,
       ⟨.onInstance, ⟨"run", 3⟩, some [⟨"code", 3⟩],
         [.ret (some (.call (.variable ⟨"code", 3⟩) ⟨"call", 3⟩ (some []) none)) 3]⟩,
       ⟨.onInstance, ⟨"me", 4⟩, some [],
         [.ret (some (.call (.this 4) ⟨"run", 4⟩ (some [])
           (some ⟨[], [.ret (some (.this 5)) 5], 5⟩))) 4]⟩],
    .eval (.call (.call (.variable ⟨"Box", 6⟩) ⟨"make", 6⟩ (some []) none) ⟨"me", 6⟩ (some [])
      none)]

/-- An activity reads a slot on a line, and has fuel for it. -/
def Activity.reads (s : Slot) (line : Line) (b : Activity σ) : Bool :=
  match b with
  | ⟨_ + 1, .eval (.read t line') _, _⟩ => decide (t = s ∧ line' = line)
  | _ => false

/-- An activity that reads a slot is the evaluation of that read. -/
lemma Activity.reads_eq_true {s : Slot} {line : Line} {b : Activity σ}
    (h : b.reads s line = true) :
    ∃ fuel e m, b = ⟨fuel + 1, .eval (.read s line) e, m⟩ := by
  unfold Activity.reads at h
  split at h
  · obtain ⟨rfl, rfl⟩ := of_decide_eq_true h
    exact ⟨_, _, _, rfl⟩
  · cases h

/-- In the run of such a program the frames are whole at the end, and the receiver that is
read in the block of code is the value for which a call has run the method around. -/
theorem receivers_intact_passesOn :
    let host : Host Unit := Host.empty
    let script := (resolve [] passesOn).1
    host.Honest (fun _ _ => False) ∧ ∃ past out m,
      script.Session host (fun _ _ => False) () past out (some m) ∧ m.Whole (fun _ _ => False) out ∧
      ∃ fuel e m v e', ⟨fuel + 1, .eval (.read ⟨1⟩ 5) e, m⟩ ∈ past ∧
        v.Governs (· ∈ past) ⟨1⟩ e' e.chain ∧
          eval host (fuel + 1) (.read ⟨1⟩ 5) e m = .done v m := by
  intro host script
  let root : Activity Unit := ⟨30, .block script.root ⟨0, []⟩, ⟨⟨#[[]]⟩, ()⟩⟩
  have entered : script.entered host ⟨.empty, ()⟩ = .done ⟨0, []⟩ ⟨⟨#[[]]⟩, ()⟩ := by
    have globals : (resolve [] passesOn).1.globals = [] := by decide +kernel
    rw [Script.entered, show script.globals = [] from globals]
    rfl
  have session : script.Session host (fun _ _ => False) () (root.visited host) (fun _ => False)
      (interpret host 30 script ⟨.empty, ()⟩).machine? := .run entered rfl
  have ends : (interpret host 30 script ⟨.empty, ()⟩).machine?.isSome = true := by decide +kernel
  obtain ⟨m, last⟩ := Option.isSome_iff_exists.1 ends
  have some : (root.visited host).any (Activity.reads ⟨1⟩ 5) = true := by decide +kernel
  obtain ⟨b, visited, hb⟩ := List.any_eq_true.1 some
  obtain ⟨fuel, e, m', rfl⟩ := Activity.reads_eq_true hb
  have receiver : script.IsReceiver ⟨1⟩ := by
    have : (⟨1⟩, SlotRole.receiver) ∈ (resolve [] passesOn).1.roles := by decide +kernel
    exact this
  obtain ⟨-, whole, -, reads⟩ := receivers_intact Host.honest_empty (fun v (h : False) => h.elim) []
    passesOn _ _ _ session
  obtain ⟨v, e', governs, run⟩ := reads fuel ⟨1⟩ 5 e m' visited receiver
  rw [last] at session
  exact ⟨Host.honest_empty, _, _, m, session, (whole m last).1, fuel, e, m', v, e', visited,
    governs, run⟩

end Ember
