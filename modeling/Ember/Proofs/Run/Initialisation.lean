/-
Fields are assigned before they are read.

* `keeps_outside`: code that sees no instance of the class keeps the watch `priming`;
* `keeps_inside`: so do the discreet bodies of an instance, for which the walk foresees
  what is assigned;
* `keeps_own`, `keeps_body`: a body calls a method of its own by the summary of the
  method, and the method's walk accounts for the summary;
* `kept_priming`: every run keeps the watch;
* `fields_assigned_before_read`: the main theorem.
-/
import Mathlib
import Ember.Proofs.Run.Priming

namespace Ember

open Program

variable {σ : Type} {c : ClassDecl} {S : Summaries} {K : List Slot} {holds : σ → Value → Prop}
  {host : Host σ} {root : Activity σ} {fuel : Nat} {x y : Point σ} {e : Environment}

/-- A plan keeps the watch, when the task's first event has happened. -/
abbrev KeepsPriming (c : ClassDecl) (S : Summaries) (K : List Slot) (holds : σ → Value → Prop)
    (host : Host σ) (fuel : Nat) {α : Type} (t : Task α) (x : Point σ) (Q : Point σ → α → Prop) :
    Prop :=
  (priming c S K holds).Keeps host fuel t.closes (t.plan host) x Q

/-! ### Reading and writing -/

/-- A slot is read where it is not a field of an instance of the class, or has been
assigned. -/
lemma keeps_read {s : Slot} {line : Line} {Q : Point σ → Value → Prop}
    (primed : x.Primed c K holds)
    (fair : ∀ a, x.machine.heap.nearest? e s = some a → x.Owns c a → s ∈ c.fieldSlots →
      x.Wrote a s)
    (answer : ∀ y v, x ≤ y → x.machine.heap.get? e s = some v → Q y v) :
    KeepsPriming c S K holds host fuel (.eval (.read s line) e) x Q := by
  refine .finish fun v m run => ?_
  obtain ⟨got, rfl⟩ : x.machine.heap.get? e s = some v ∧ m = x.machine := by
    rcases Run.get_cases e s line x.machine with ⟨w, got, done⟩ | ⟨-, failed⟩
    · rw [done] at run
      cases run
      exact ⟨got, rfl⟩
    · rw [failed] at run
      cases run
  have later := Point.le_closes (x := x) (.eval (.read s line) e) x.machine
  refine ⟨?_, primed.after later fun i h => absurd h Task.closes_made, answer _ v later got⟩
  rw [Task.closes]
  cases near : x.machine.heap.nearest? e s with
  | none => trivial
  | some a => exact ⟨fun i made decl own hs => fair a near ⟨i, made, decl, own⟩ hs, trivial⟩

/-- A slot is assigned a clear value, where it is not an instance's own receiver. -/
lemma keeps_assign {s : Slot} {value : Expr} {line : Line} {v : Value}
    {Q : Point σ → Value → Prop} (primed : x.Primed c K holds)
    (free : ∀ a, x.machine.heap.nearest? e s = some a → x.Owns c a → s ≠ c.receiver)
    (clear : v.Clear c K x)
    (answer : ∀ y, x ≤ y → (∀ a, x.machine.heap.nearest? e s = some a → y.Wrote a s) → Q y v) :
    (priming c S K holds).Keeps host fuel (Task.eval (.assign s value line) e).closes
      (do
        Plan.step (Run.assign e s v line)
        return v) x Q := by
  intro _ m run
  rcases Run.assign_cases e s v line x.machine with ⟨a, near, done⟩ | ⟨-, failed⟩
  · rw [done] at run
    cases run
    have primes := primed.put v (free a near) clear
    have closes : (Task.eval (.assign s value line) e).closes
        { x.machine with heap := x.machine.heap.putAt a s v } = [.wrote a s] := by
      rw [Task.closes, Heap.nearest?_putAt near v]
      rfl
    have later := Point.le_closes (.eval (.assign s value line) e)
      { x.machine with heap := x.machine.heap.putAt a s v }
      (x := ⟨x.past, { x.machine with heap := x.machine.heap.putAt a s v }⟩)
    refine ⟨?_, primes.2.after later fun i h => absurd h Task.closes_made,
      answer _ (primes.1.trans later) fun b hb => ?_⟩
    · rw [closes]
      exact ⟨trivial, trivial⟩
    · rw [near] at hb
      cases hb
      change Event.wrote a s ∈ _ ++ _
      rw [closes]
      exact List.mem_append_right _ (List.mem_singleton_self _)
  · rw [failed] at run
    cases run

/-! ### Code that sees no instance of the class -/

/-- The nearest frame that binds a slot is none of an instance of the class. -/
lemma Environment.Apart.nearest (apart : e.Apart c x) {s : Slot} {a : Address}
    (near : x.machine.heap.nearest? e s = some a) : ¬x.Owns c a :=
  (apart a (Heap.nearest?_eq_some near).1).2

/-- What is read by code that sees no instance of the class is clear. -/
lemma Environment.Apart.clear (apart : e.Apart c x) (primed : x.Primed c K holds) {s : Slot}
    {v : Value} (got : x.machine.heap.get? e s = some v) : v.Clear c K x := by
  obtain ⟨a, ha, got⟩ := Heap.get?_eq_some got
  exact (primed.bound a s v got).resolve_right fun h => (apart a ha).2 h.1

/-- A host answers with clear values, and stores no others. -/
lemma Point.Primed.ofHost (primed : x.Primed c K holds) (honest : host.Honest holds)
    {o : HostHandle} {method : Selector} {run : HostMethod σ}
    (found : host.findMethod? o method = some run) {arguments : List Value}
    (given : ∀ v ∈ arguments, v.Clear c K x) :
    let m : Machine σ := { x.machine with host := (run arguments x.machine.host).2 }
    x.Primes c K holds m ∧ ∀ v, (run arguments x.machine.host).1 = .ok v → v.Clear c K x := by
  intro m
  have clear {v : Value} (h : v.From fun w => w ∈ arguments ∨ holds x.machine.host w) :
      v.Clear c K x :=
    h.induct (fun v plain => .of_isPlain plain) (fun v hv => hv.elim (given v) (primed.host v))
      fun i clear => clear.cls
  have later : x ≤ ⟨x.past, m⟩ := Point.le_step ⟨Nat.le_refl _, fun _ _ bound => bound⟩
  refine ⟨⟨later, fun a s v got => ?_, fun a own => ?_, fun v hv => ?_⟩, fun v ok => ?_⟩
  · exact (primed.bound a s v got).imp_left fun h => h.mono later
  · obtain ⟨lt, fields, i, got, sits, eq⟩ := primed.owned a own
    exact ⟨lt, fields, i, got, sits.mono later, eq⟩
  · exact (clear (honest.keeps o method run found arguments _ v hv)).mono later
  · exact clear (honest.answers o method run found arguments _ v ok)

/-- A task keeps the watch if nothing happens as it begins. -/
lemma keeps_of_quiet {α : Type} {t : Task α} {Q : Point σ → α → Prop}
    (quiet : t.opens x.machine = []) (keeps : KeepsPriming c S K holds host fuel t x Q) :
    (priming c S K holds).Orderly x.past (t.opens x.machine) ∧
      KeepsPriming c S K holds host fuel t (x.after (t.opens x.machine)) Q := by
  rw [quiet, Point.after_nil]
  exact ⟨trivial, keeps⟩

/-- A call of a constructor makes an instance. -/
lemma keeps_construct (init : c.Initializes S K) (discreet : c.Discreet)
    (primed : x.Primed c K holds) {o : ClassObject} {constructor : Method} {name : String}
    {arguments : Option (List Value)} {line : Line} (apart : o.statics.Apart c x)
    (given : ∀ v ∈ arguments.getD [], v.Clear c K x)
    (found : findMethod? ⟨name, arguments.map List.length⟩ o.decl.constructors = some constructor) :
    let t := Task.call (.cls o) name arguments line
    (priming c S K holds).Orderly x.past (t.opens x.machine) ∧
      KeepsPriming c S K holds host fuel t (x.after (t.opens x.machine))
        fun y v => v.Clear c K y := by
  intro t
  obtain ⟨_, _, run, rfl⟩ := makeInstance_fresh o x.machine
  have opens : t.opens x.machine = [.made ⟨o, o.statics.inside x.size⟩] := by
    simp only [t, Task.opens, found, run]
    rfl
  have plan : t.plan host = (do
      let i ← Plan.step (makeInstance o)
      let _ ← Plan.start (.body constructor i.env arguments)
      return .obj i) := by
    simp only [t, Task.plan, found]
  have hm : constructor ∈ o.decl.constructors := (findMethod?_spec found).1
  have begun := Point.le_opens (x := x) t
  rw [KeepsPriming, plan]
  rw [opens] at begun ⊢
  refine ⟨⟨trivial, trivial⟩, ?_⟩
  -- a constructor of the class begins with nothing assigned
  by_cases decl : o.decl = c
  · refine .step (primed.makeInstance decl apart) fun i m h => ?_
    obtain ⟨rfl, later, primed', sits⟩ := h
    have body := discreet constructor (List.mem_append_left _ (decl ▸ hm))
    refine .start _ primed' (.body sits (fun v hv => (given v hv).mono later) body
      (init.constructors constructor (decl ▸ hm)) fun f hf => absurd hf List.not_mem_nil)
      fun z v later' _ primed'' answer => .pure primed'' (.inl ⟨sits.mono later', answer.2⟩)
  -- an instance of another class has nothing to set
  · have primed' := primed.after begun fun i made => by
      cases List.mem_singleton.1 made
      exact decl
    refine .step (primed'.makeOther decl (apart.mono begun)) fun i m h => ?_
    obtain ⟨primes, rfl, env⟩ := h
    have later := begun.trans primes.1
    refine .start _ primes.2 (.outside ⟨env, fun v hv => (given v hv).mono later⟩)
      fun z v later' _ primed'' _ => .pure primed'' ?_
    exact .inr ⟨decl, apart.mono (later.trans later'), env.mono later'⟩

/-- A call from outside of the class answers with a clear value, be it a new instance. -/
lemma keeps_call (honest : host.Honest holds) (init : c.Initializes S K) (discreet : c.Discreet)
    (primed : x.Primed c K holds) {receiver : Value} {name : String}
    {arguments : Option (List Value)} {line : Line}
    (h : (Task.call receiver name arguments line).Outside c K x) :
    let t := Task.call receiver name arguments line
    (priming c S K holds).Orderly x.past (t.opens x.machine) ∧
      KeepsPriming c S K holds host fuel t (x.after (t.opens x.machine))
        fun y v => v.Clear c K y := by
  obtain ⟨clear, given⟩ := h
  cases receiver with
  | cls o =>
    -- a constructor alone may see its instance before the fields are set
    cases found : findMethod? ⟨name, arguments.map List.length⟩ o.decl.constructors with
    | some constructor => exact keeps_construct init discreet primed clear given found
    | none =>
      refine keeps_of_quiet (by simp only [Task.opens, found]) ?_
      simp only [KeepsPriming, Task.plan, found]
      split
      · exact .last primed (.outside ⟨clear, given⟩) fun _ _ _ answer => answer
      · exact .fail
  | obj i =>
    refine keeps_of_quiet rfl ?_
    rw [KeepsPriming, Task.plan]
    split
    · next method found =>
      have hm : method ∈ i.cls.decl.methods := (findMethod?_spec found).1
      -- an instance of the class that is called from outside has all its fields by now
      rcases clear with ⟨sits, wrote⟩ | ⟨-, -, env⟩
      · have hm : method ∈ c.methods := sits.decl ▸ hm
        refine .last primed (.body sits given (discreet method (List.mem_append_right _ hm))
          (init.methods method hm) fun f hf => ?_) fun _ _ _ answer => answer.1
        rw [List.append_nil] at hf
        exact wrote f hf
      · exact .last primed (.outside ⟨env, given⟩) fun _ _ _ answer => answer
    · exact .fail
  | host o =>
    refine keeps_of_quiet rfl ?_
    rw [KeepsPriming, Task.plan]
    split
    · next method found =>
      obtain ⟨primes, answers⟩ := primed.ofHost honest found given
      refine .finish fun v m run => ?_
      rcases Run.ofHost_cases line method (arguments.getD []) x.machine with
        ⟨w, ok, answer⟩ | ⟨cause, -, answer⟩
      · rw [answer] at run
        cases run
        exact .pure primes.2 ((answers v ok).mono primes.1)
      · rw [answer] at run
        cases run
    · exact .fail
  | null | boolean _ | number _ | text _ =>
    refine keeps_of_quiet rfl ?_
    simp only [KeepsPriming, Task.plan]
    split
    · next method found =>
      rcases native_spec found (arguments.getD []) with ⟨v, run, plain⟩ | ⟨cause, run, -⟩
      · rw [run]
        refine .finish fun w m done => ?_
        cases done
        exact .pure primed (.of_isPlain plain)
      · rw [run]
        exact .fail
    · exact .fail

section Outside

variable (primed : x.Primed c K holds) (apart : e.Apart c x)

include primed apart

/-- The parameters of a body outside of the class are clear. -/
lemma keeps_outside_body {method : Method} {arguments : Option (List Value)}
    (given : ∀ v ∈ arguments.getD [], v.Clear c K x) :
    KeepsPriming c S K holds host fuel (.body method e arguments) x
      fun y r => (Task.body method e arguments).Yields c K y r := by
  refine .step (primed.child e) fun e' m₁ h₁ => ?_
  obtain ⟨rfl, primes₁, size⟩ := h₁
  have apart₁ := primed.apart_inside apart primes₁ size
  refine .step (primes₁.2.declareEach apart₁.not_owns _ fun v hv => (given v hv).mono primes₁.1)
    fun _ m₂ primes₂ => .start _ primes₂.2 (.outside (apart₁.mono primes₂.1))
      fun y r _ _ primed' answer => ?_
  cases r with
  | normal => exact .pure primed' trivial
  | returned v line => exact .pure primed' answer

/-- A block outside of the class makes classes that are clear. -/
lemma keeps_outside_block {b : Block} :
    KeepsPriming c S K holds host fuel (.block b e) x
      fun y r => (Task.block b e).Yields c K y r := by
  refine .step (primed.child e) fun e' m₁ h₁ => ?_
  obtain ⟨rfl, primes₁, size⟩ := h₁
  have apart₁ := primed.apart_inside apart primes₁ size
  exact .step (primes₁.2.makeClasses apart₁ b.classes) fun _ m₂ primes₂ =>
    .last primes₂.2 (.outside (apart₁.mono primes₂.1)) fun _ _ _ answer => answer

/-- Statements outside of the class are executed one after the other. -/
lemma keeps_outside_stmts {ss : List Stmt} :
    KeepsPriming c S K holds host fuel (.stmts ss e) x
      fun y r => (Task.stmts ss e).Yields c K y r := by
  cases ss with
  | nil => exact .pure primed trivial
  | cons s ss =>
    refine .start _ primed (.outside apart) fun y r later _ primed' answer => ?_
    cases r with
    | normal => exact .last primed' (.outside (apart.mono later)) fun _ _ _ answer => answer
    | returned v line => exact .pure primed' answer

/-- A variable outside of the class gets a clear value. -/
lemma keeps_outside_var {s : Slot} {init : Option Expr} {line : Line} :
    KeepsPriming c S K holds host fuel (.stmt (.var s init line) e) x
      fun y r => (Task.stmt (.var s init line) e).Yields c K y r := by
  have declared {v : Value} {y : Point σ} (later : x ≤ y) (primed' : y.Primed c K holds)
      (clear : v.Clear c K y) :
      (priming c S K holds).Keeps host fuel (fun _ => []) (do
        Plan.step (Run.declare e s v)
        return Completion.normal) y fun z r => r.Clear c K z :=
    .step (primed'.declare (apart.mono later).not_owns s clear) fun _ m primes =>
      .pure primes.2 trivial
  cases init with
  | none => exact declared (le_refl x) primed (v := .null) trivial
  | some init =>
    exact .start _ primed (.outside apart) fun y v later _ primed' answer =>
      declared later primed' answer

/-- A statement outside of the class returns clear values. -/
lemma keeps_outside_stmt {s : Stmt} :
    KeepsPriming c S K holds host fuel (.stmt s e) x
      fun y r => (Task.stmt s e).Yields c K y r := by
  cases s with
  | block b => exact .last primed (.outside apart) fun _ _ _ answer => answer
  | branch condition yes no line =>
    refine .start _ primed (.outside apart) fun y r later _ primed' _ => ?_
    cases r with
    | true => exact .last primed' (.outside (apart.mono later)) fun _ _ _ answer => answer
    | false =>
      cases no with
      | none => exact .pure primed' trivial
      | some no => exact .last primed' (.outside (apart.mono later)) fun _ _ _ answer => answer
  | loop condition inner line => exact .last primed (.outside apart) fun _ _ _ answer => answer
  | var s init line => exact keeps_outside_var primed apart
  | ret value line =>
    cases value with
    | none => exact .pure primed trivial
    | some value =>
      exact .start _ primed (.outside apart) fun y v later _ primed' answer =>
        .pure primed' answer
  | eval expr =>
    exact .start _ primed (.outside apart) fun y v later _ primed' _ => .pure primed' trivial

/-- A loop outside of the class returns clear values. -/
lemma keeps_outside_loop {condition : Expr} {inner : Stmt} :
    KeepsPriming c S K holds host fuel (.loop condition inner e) x
      fun y r => (Task.loop condition inner e).Yields c K y r := by
  refine .start _ primed (.outside apart) fun y r later _ primed' _ => ?_
  cases r with
  | false => exact .pure primed' trivial
  | true =>
    refine .start _ primed' (.outside (apart.mono later)) fun z r later' _ primed'' answer => ?_
    cases r with
    | normal =>
      exact .last primed'' (.outside (apart.mono (later.trans later'))) fun _ _ _ answer => answer
    | returned v line => exact .pure primed'' answer

/-- A condition outside of the class is tested. -/
lemma keeps_outside_test {condition : Expr} :
    KeepsPriming c S K holds host fuel (.test condition e) x
      fun y r => (Task.test condition e).Yields c K y r := by
  refine .start _ primed (.outside apart) fun y v _ _ primed' _ => ?_
  cases v with
  | boolean b => exact .pure primed' trivial
  | null | number _ | text _ | cls _ | obj _ | host _ => exact .fail

/-- A call outside of the class hands over clear values. -/
lemma keeps_outside_call {receiver : Expr} {name : String} {arguments : Option (List Expr)}
    {line : Line} :
    KeepsPriming c S K holds host fuel (.eval (.call receiver name arguments line) e) x
      fun y r => (Task.eval (.call receiver name arguments line) e).Yields c K y r := by
  refine .start _ primed (.outside apart) fun y v later _ primed' clear => ?_
  cases arguments with
  | none =>
    exact .last primed' (.outside ⟨clear, fun w hw => absurd hw List.not_mem_nil⟩)
      fun _ _ _ answer => answer
  | some es =>
    refine .start _ primed' (.outside (apart.mono later)) fun z vs later' _ primed'' answers => ?_
    exact .last primed'' (.outside ⟨clear.mono later', answers.2⟩) fun _ _ _ answer => answer

/-- A connective outside of the class answers with a clear value. -/
lemma keeps_outside_logical {op : Connective} {left right : Expr} {line : Line} :
    KeepsPriming c S K holds host fuel (.eval (.logical op left right line) e) x
      fun y r => (Task.eval (.logical op left right line) e).Yields c K y r := by
  refine .start _ primed (.outside apart) fun y v later _ primed' _ => ?_
  cases v with
  | boolean b =>
    dsimp only
    split
    · exact .pure primed' trivial
    · refine .start _ primed' (.outside (apart.mono later)) fun z v _ _ primed'' _ => ?_
      cases v with
      | boolean b => exact .pure primed'' trivial
      | null | number _ | text _ | cls _ | obj _ | host _ => exact .fail
  | null | number _ | text _ | cls _ | obj _ | host _ => exact .fail

/-- An expression outside of the class has a clear value. -/
lemma keeps_outside_eval {expr : Expr} :
    KeepsPriming c S K holds host fuel (.eval expr e) x
      fun y r => (Task.eval expr e).Yields c K y r := by
  cases expr with
  | assign target value line =>
    refine .start _ primed (.outside apart) fun y v later _ primed' clear => ?_
    have apart' := apart.mono later
    exact keeps_assign primed' (fun a near own => absurd own (apart'.nearest near)) clear
      fun z later' _ => clear.mono later'
  | call receiver name arguments line => exact keeps_outside_call primed apart
  | literal value line =>
    refine .pure primed (.of_isPlain ?_)
    cases value <;> trivial
  | read s line =>
    exact keeps_read primed (fun a near own => absurd own (apart.nearest near))
      fun y v later got => (apart.clear primed got).mono later
  | logical op left right line => exact keeps_outside_logical primed apart
  | cls decl =>
    exact .step (primed.makeClass apart decl) fun o m h => .pure h.1.2 h.2

/-- Expressions outside of the class have clear values. -/
lemma keeps_outside_evalAll {es : List Expr} :
    KeepsPriming c S K holds host fuel (.evalAll es e) x
      fun y r => (Task.evalAll es e).Yields c K y r := by
  cases es with
  | nil => exact .pure primed ⟨rfl, fun v hv => absurd hv List.not_mem_nil⟩
  | cons expr rest =>
    refine .start _ primed (.outside apart) fun y v later _ primed' clear => ?_
    refine .start _ primed' (.outside (apart.mono later)) fun z vs later' _ primed'' answers => ?_
    exact .pure primed'' ⟨congrArg Nat.succ answers.1,
      List.forall_mem_cons.2 ⟨clear.mono later', answers.2⟩⟩

end Outside

/-- Code that sees no instance of the class keeps the watch. -/
lemma keeps_outside (honest : host.Honest holds) (init : c.Initializes S K)
    (discreet : c.Discreet) (primed : x.Primed c K holds) {α : Type} {t : Task α}
    (h : t.Outside c K x) :
    (priming c S K holds).Orderly x.past (t.opens x.machine) ∧
      KeepsPriming c S K holds host fuel t (x.after (t.opens x.machine))
        fun y r => t.Yields c K y r := by
  cases t with
  | call receiver name arguments line => exact keeps_call honest init discreet primed h
  | body method e arguments => exact keeps_of_quiet rfl (keeps_outside_body primed h.1 h.2)
  | block b e => exact keeps_of_quiet rfl (keeps_outside_block primed h)
  | stmts ss e => exact keeps_of_quiet rfl (keeps_outside_stmts primed h)
  | stmt s e => exact keeps_of_quiet rfl (keeps_outside_stmt primed h)
  | loop condition inner e => exact keeps_of_quiet rfl (keeps_outside_loop primed h)
  | test condition e => exact keeps_of_quiet rfl (keeps_outside_test primed h)
  | eval expr e => exact keeps_of_quiet rfl (keeps_outside_eval primed h)
  | evalAll es e => exact keeps_of_quiet rfl (keeps_outside_evalAll primed h)

/-! ### The bodies of an instance -/

/-- A variable that is declared is no field of the instance around. -/
lemma Environment.Within.not_field {i : Instance} (within : e.Within c x i)
    (mirrored : root.Mirrored host) (primed : x.Primed c K holds) {s : Slot}
    {init : Option Expr} {line : Line}
    (visited : root.Visits host ⟨fuel, .stmt (.var s init line) e, x.machine⟩) :
    s ∉ c.fieldSlots := fun hs => by
  have bound := (primed.owned _ within.sits.own).2.1 s hs
  rw [mirrored.declared fuel s init line e _ _ visited within.mem_outer] at bound
  exact Bool.noConfusion bound

/-- What a summary requires has been assigned where a body calls its own method. -/
lemma requires_callOwn {i : Instance} {ctx : FlowContext} {w : Walk} {method : Selector}
    {line : Line} (follows : ctx.Follows c S) (sound : w.state.Sound c x i.env.own)
    (excused : Excused c x i.env.own (w.callOwn ctx method line).found) {s : Summary}
    (known : S.lookup method = some s) {f : Slot} (hf : f ∈ s.requires) (hc : f ∈ c.fieldSlots) :
    x.Wrote i.env.own f := by
  rcases Walk.found_callOwn (follows.summaries ▸ known) hf sound.1 (follows.fields ▸ hc) line with
    assigned | found
  · exact sound.2 f hc assigned
  · exact excused _ found hc

/-- What a method's summary assigns has been assigned once the method has been called. -/
lemma FlowState.Sound.callOwn {a : Address} {ctx : FlowContext} {w : Walk} {method : Selector}
    {line : Line} (follows : ctx.Follows c S) (sound : w.state.Sound c x a)
    (assigns : ∀ s, S.lookup method = some s → ∀ f ∈ s.assigns, f ∈ c.fieldSlots → x.Wrote a f) :
    (w.callOwn ctx method line).state.Sound c x a := by
  refine ⟨by rw [Walk.reachable_callOwn, sound.1], fun f hf assigned => ?_⟩
  rcases Walk.assigned_callOwn assigned with before | ⟨s, known, hs⟩
  · exact sound.2 f hf before
  · exact assigns s (follows.summaries ▸ known) f hs hf

/-- A call in a body keeps the watch, be it of the body's own method or of another
value's. -/
lemma keeps_inside_call (primed : x.Primed c K holds) {receiver : Expr} {name : String}
    {arguments : Option (List Expr)} {line : Line} {i : Instance} {ctx : FlowContext} {w : Walk}
    (follows : ctx.Follows c S)
    (discreet : (Expr.call receiver name arguments line).Discreet c.receiver)
    (within : e.Within c x i) (sound : w.state.Sound c x i.env.own)
    (excused : Excused c x i.env.own ((Expr.call receiver name arguments line).flow ctx w).found) :
    KeepsPriming c S K holds host fuel (.eval (.call receiver name arguments line) e) x fun y v =>
      v.Clear c K y ∧
        ((Expr.call receiver name arguments line).flow ctx w).state.Sound c y i.env.own := by
  obtain ⟨callee, given⟩ := Expr.discreet_call discreet
  let w₁ := receiver.flow ctx w
  -- a call on the own instance is known by its summary, and any other one from outside
  rcases Expr.flow_call ctx receiver name arguments line w with ⟨⟨s, l, rfl, own⟩, eq⟩ | ⟨other, eq⟩
  · obtain rfl : c.receiver = s := Option.some.inj (follows.receiver.symm.trans own)
    -- the receiver is read first, which leaves the state as it is
    have level := Expr.level_flow_read ctx c.receiver l w
    have sound₁ : w₁.state.Sound c x i.env.own := level.state ▸ sound
    rw [eq] at excused ⊢
    have called := Walk.leads_callOwn ctx (exprFlow ctx (arguments.getD []) w₁)
      ⟨name, arguments.map List.length⟩ line
    have first : Excused c x i.env.own w₁.found :=
      excused.subset (List.Subset.trans (leads_exprFlow ctx _ w₁).found called.found)
    have wrote (hs : c.receiver ∈ c.fieldSlots) : x.Wrote i.env.own c.receiver := by
      rcases Walk.found_read sound.1 (follows.fields ▸ hs) l with assigned | found
      · exact sound.2 _ hs assigned
      · exact first _ (Expr.found_flow_read ctx _ l w found) hs
    refine .start _ primed (.this within wrote) fun y v later _ primed' answer => ?_
    obtain ⟨j, rfl, sits, same⟩ := answer
    cases arguments with
    | none =>
      refine .last primed'
        (.own sits (fun v hv => absurd hv List.not_mem_nil) fun s known f hf hc => ?_)
        fun z v later' answer => ⟨answer.1, ?_⟩
      · rw [same]
        exact requires_callOwn follows (sound₁.mono later) (excused.mono later) known hf hc
      · rw [same] at answer
        exact (sound₁.mono (later.trans later')).callOwn follows answer.2
    | some es =>
      refine .start _ primed' (.inside follows ⟨given, within.mono later⟩ (sound₁.mono later)
        ((excused.subset called.found).mono later)) fun z vs later' _ primed'' answers => ?_
      obtain ⟨⟨length, clear⟩, sound₂⟩ := answers
      have selector : (⟨name, some vs.length⟩ : Selector) = ⟨name, some es.length⟩ := by rw [length]
      refine .last primed'' (.own (sits.mono later') clear fun s known f hf hc => ?_)
        fun u v later'' answer => ⟨answer.1, ?_⟩
      · rw [same]
        exact requires_callOwn follows sound₂ (excused.mono (later.trans later'))
          (selector ▸ known) hf hc
      · rw [same] at answer
        exact (sound₂.mono later'').callOwn follows (selector ▸ answer.2)
  -- the receiver is not `this`, and so discreet itself
  · have callee : receiver.Discreet c.receiver := callee.resolve_left fun same =>
      other _ _ same follows.receiver
    rw [eq] at excused ⊢
    refine .start _ primed (.inside follows ⟨callee, within⟩ sound
      (excused.subset (leads_exprFlow ctx _ w₁).found)) fun y v later _ primed' answer => ?_
    obtain ⟨clear, sound₁⟩ := answer
    cases arguments with
    | none =>
      exact .last primed' (.outside ⟨clear, fun v hv => absurd hv List.not_mem_nil⟩)
        fun z v later' answer => ⟨answer, sound₁.mono later'⟩
    | some es =>
      refine .start _ primed' (.inside follows ⟨given, within.mono later⟩ sound₁
        (excused.mono later)) fun z vs later' _ primed'' answers => ?_
      exact .last primed'' (.outside ⟨clear.mono later', answers.1.2⟩)
        fun u v later'' answer => ⟨answer, answers.2.mono later''⟩

/-- An expression of a body keeps the watch. -/
lemma keeps_inside_eval (mirrored : root.Mirrored host) (primed : x.Primed c K holds)
    {expr : Expr} (visited : root.Visits host ⟨fuel + 1, .eval expr e, x.machine⟩) {i : Instance}
    {ctx : FlowContext} {w : Walk} (follows : ctx.Follows c S)
    (discreet : expr.Discreet c.receiver) (within : e.Within c x i)
    (sound : w.state.Sound c x i.env.own)
    (excused : Excused c x i.env.own (expr.flow ctx w).found) :
    KeepsPriming c S K holds host fuel (.eval expr e) x fun y v =>
      v.Clear c K y ∧ ((expr.flow ctx w).state).Sound c y i.env.own := by
  cases expr with
  | assign target value line =>
    obtain ⟨other, discreet⟩ := discreet
    refine .start _ primed (.inside follows ⟨discreet, within⟩ sound excused)
      fun y v later done primed' answer => ?_
    obtain ⟨clear, sound'⟩ := answer
    refine keeps_assign primed' (fun a _ _ => other) clear fun z later' wrote => ?_
    refine ⟨clear.mono later', sound'.1, fun f hf assigned => ?_⟩
    rcases mem_addSlots.1 assigned with before | now
    · exact (sound'.2 f hf before).mono later'
    · cases List.mem_singleton.1 now
      have within' := within.mono later
      exact wrote _ ((mirrored.assigned fuel target value line e _ v _ visited done).nearest?
        within'.inner ((primed'.owned _ within'.sits.own).2.1 target hf))
  | call receiver name arguments line =>
    exact keeps_inside_call primed follows discreet within sound excused
  | literal value line =>
    refine .pure primed ⟨.of_isPlain ?_, sound⟩
    cases value <;> trivial
  | read s line =>
    refine keeps_read primed (fun a near own hs => ?_) fun y v later got => ⟨?_, ?_⟩
    · cases (within.chain a (Heap.nearest?_eq_some near).1).2 own
      rcases Walk.found_read sound.1 (follows.fields ▸ hs) line with assigned | found
      · exact sound.2 s hs assigned
      · exact excused _ (Expr.found_flow_read ctx s line w found) hs
    · obtain ⟨a, ha, got⟩ := Heap.get?_eq_some got
      exact ((primed.bound a s v got).resolve_right fun h => discreet h.2).mono later
    · rw [(Expr.level_flow_read ctx s line w).state]
      exact sound.mono later
  | logical op left right line =>
    obtain ⟨first, second⟩ := discreet
    refine .start _ primed (.inside follows ⟨first, within⟩ sound
      (excused.subset (Expr.leads_flow ctx right _).found)) fun y v later _ primed' answer => ?_
    cases v with
    | boolean b =>
      dsimp only
      split
      · exact .pure primed' ⟨trivial, answer.2⟩
      · refine .start _ primed' (.inside follows ⟨second, within.mono later⟩ answer.2
          (excused.mono later)) fun z v later' _ primed'' _ => ?_
        cases v with
        | boolean b => exact .pure primed'' ⟨trivial, answer.2.mono later'⟩
        | null | number _ | text _ | cls _ | obj _ | host _ => exact .fail
    | null | number _ | text _ | cls _ | obj _ | host _ => exact .fail
  | cls decl => exact discreet.elim

/-- A conditional of a body keeps the watch: what it leaves behind promises no more than
either of its branches. -/
lemma keeps_branch (primed : x.Primed c K holds) {condition : Expr} {yes : Stmt}
    {no : Option Stmt} {line : Line} {i : Instance} {ctx : FlowContext} {w : Walk}
    (follows : ctx.Follows c S)
    (discreet : (Stmt.branch condition yes no line).Discreet c.receiver)
    (within : e.Within c x i) (sound : w.state.Sound c x i.env.own)
    (excused : Excused c x i.env.own ((Stmt.branch condition yes no line).flow ctx w).found) :
    KeepsPriming c S K holds host fuel (.stmt (.branch condition yes no line) e) x fun y r =>
      r.Clear c K y ∧
        (r.state ((Stmt.branch condition yes no line).flow ctx w)).Sound c y i.env.own := by
  -- the branches are walked one after the other, each from the state after the condition
  let w₁ := condition.flow ctx w
  let w₂ := yes.flow ctx w₁
  have leads₂ : w₁.Leads w₂ := Stmt.leads_flow ctx yes w₁
  cases no with
  | none =>
    obtain ⟨test, first, -⟩ := discreet
    refine .start _ primed (.inside follows ⟨test, within⟩ sound (excused.subset leads₂.found))
      fun y b later _ primed' answer => ?_
    cases b with
    | true =>
      refine .last primed'
        (.inside follows ⟨first, within.mono later⟩ answer.2 (excused.mono later))
        fun z r _ answer' => ⟨answer'.1, ?_⟩
      cases r with
      | normal => exact answer'.2.weaken (FlowState.join_weakens_left _ _)
      | returned v line => exact answer'.2
    | false => exact .pure primed' ⟨trivial, answer.2.weaken (FlowState.join_weakens_right _ _)⟩
  | some no =>
    obtain ⟨test, first, second⟩ := discreet
    let w₃ := no.flow ctx (w₂.resume w₁.state)
    have leads₃ : w₂.Leads w₃ := ((Walk.Leads.refl w₂).resume w₁.state).trans
      (Stmt.leads_flow ctx no _)
    have excused₂ : Excused c x i.env.own w₂.found := excused.subset leads₃.found
    refine .start _ primed (.inside follows ⟨test, within⟩ sound (excused₂.subset leads₂.found))
      fun y b later _ primed' answer => ?_
    cases b with
    | true =>
      refine .last primed'
        (.inside follows ⟨first, within.mono later⟩ answer.2 (excused₂.mono later))
        fun z r _ answer' => ⟨answer'.1, ?_⟩
      cases r with
      | normal => exact answer'.2.weaken (FlowState.join_weakens_left _ _)
      | returned v line => exact answer'.2.weaken leads₃.exit
    | false =>
      refine .last primed' (.inside (w := w₂.resume w₁.state) follows ⟨second, within.mono later⟩
        answer.2 (excused.mono later)) fun z r _ answer' => ⟨answer'.1, ?_⟩
      cases r with
      | normal => exact answer'.2.weaken (FlowState.join_weakens_right _ _)
      | returned v line => exact answer'.2

/-- A statement of a body keeps the watch. -/
lemma keeps_inside_stmt (mirrored : root.Mirrored host) (primed : x.Primed c K holds)
    {s : Stmt} (visited : root.Visits host ⟨fuel + 1, .stmt s e, x.machine⟩) {i : Instance}
    {ctx : FlowContext} {w : Walk} (follows : ctx.Follows c S)
    (discreet : s.Discreet c.receiver) (within : e.Within c x i)
    (sound : w.state.Sound c x i.env.own)
    (excused : Excused c x i.env.own (s.flow ctx w).found) :
    KeepsPriming c S K holds host fuel (.stmt s e) x fun y r =>
      r.Clear c K y ∧ (r.state (s.flow ctx w)).Sound c y i.env.own := by
  cases s with
  | block b =>
    exact .last primed (.inside follows ⟨discreet, within⟩ sound excused) fun _ _ _ answer => answer
  | branch condition yes no line => exact keeps_branch primed follows discreet within sound excused
  | loop condition inner line =>
    exact .last primed (.inside follows ⟨discreet, within⟩ sound excused) fun _ _ _ answer => answer
  | var s init line =>
    have notField := within.not_field mirrored primed visited
    have declared {v : Value} {y : Point σ} {st : FlowState} (later : x ≤ y)
        (primed' : y.Primed c K holds) (clear : v.Clear c K y) (sound' : st.Sound c y i.env.own) :
        (priming c S K holds).Keeps host fuel (fun _ => []) (do
          Plan.step (Run.declare e s v)
          return Completion.normal) y fun z r =>
            r.Clear c K z ∧ (r.state ⟨st, w.exit, []⟩).Sound c z i.env.own :=
      .step (primed'.declare (within.mono later).not_owns s clear) fun _ m primes =>
        .pure primes.2 ⟨trivial, sound'.mono primes.1⟩
    cases init with
    | none =>
      refine declared (le_refl x) primed (v := .null) trivial (sound.weaken fun reachable => ?_)
      exact ⟨reachable, List.filter_subset_self _⟩
    | some init =>
      refine .start _ primed (.inside follows ⟨discreet, within⟩ sound excused)
        fun y v later _ primed' answer => declared later primed' answer.1 ⟨answer.2.1, ?_⟩
      intro f hf assigned
      rcases mem_addSlots.1 assigned with before | now
      · exact answer.2.2 f hf before
      · cases List.mem_singleton.1 now
        exact absurd hf notField
  | ret value line =>
    cases value with
    | none =>
      exact .pure primed ⟨trivial, sound.weaken (FlowState.join_weakens_right _ _)⟩
    | some value =>
      exact .start _ primed (.inside follows ⟨discreet, within⟩ sound excused)
        fun y v _ _ primed' answer => .pure primed'
          ⟨answer.1, answer.2.weaken (FlowState.join_weakens_right _ _)⟩
  | eval expr =>
    exact .start _ primed (.inside follows ⟨discreet, within⟩ sound excused)
      fun y v _ _ primed' answer => .pure primed' ⟨trivial, answer.2⟩

/-- A task keeps the watch, and what is assigned as it ends is what the walk foresees. -/
abbrev KeepsForeseen (c : ClassDecl) (S : Summaries) (K : List Slot) (holds : σ → Value → Prop)
    (host : Host σ) (fuel : Nat) {α : Type} (t : Task α) (x : Point σ) (i : Instance)
    (ctx : FlowContext) (w : Walk) : Prop :=
  KeepsPriming c S K holds host fuel t x fun y r =>
    t.Yields c K y r ∧ (t.ending (t.walk ctx w) r).Sound c y i.env.own

section Inside

variable (primed : x.Primed c K holds) {i : Instance} {ctx : FlowContext} {w : Walk}
  (follows : ctx.Follows c S)

include primed follows

/-- A block in a body of the class has no classes, and ends as its walk foresees. -/
lemma keeps_inside_block {b : Block} (h : (Task.block b e).Inside c x i)
    (sound : w.state.Sound c x i.env.own)
    (excused : Excused c x i.env.own ((Task.block b e).walk ctx w).found) :
    KeepsForeseen c S K holds host fuel (Task.block b e) x i ctx w := by
  obtain ⟨ss, names, cs⟩ := b
  obtain ⟨⟨rfl, discreet⟩, within⟩ := h
  let w' : Walk := if ctx.inDepth then { w with found := w.found ++ classFindings ctx [] } else w
  have state : w'.state = w.state := by
    simp only [w']
    split <;> rfl
  refine .step (primed.child e) fun e' m₁ h₁ => ?_
  obtain ⟨rfl, primes₁, size⟩ := h₁
  have within₁ := primed.within_inside within.toAround primes₁ size
  have none : (makeClasses (e.inside x.size) []).Succeeds m₁ fun _ m => m = m₁ := .pure rfl
  refine .step none fun _ m₂ same => ?_
  subst same
  exact .last primes₁.2 (.inside (w := w') follows ⟨discreet, within₁⟩
    (state ▸ sound.mono primes₁.1) (excused.mono primes₁.1)) fun _ _ _ answer => answer

/-- Statements in a body of the class end as their walk foresees. -/
lemma keeps_inside_stmts {ss : List Stmt} (h : (Task.stmts ss e).Inside c x i)
    (sound : w.state.Sound c x i.env.own)
    (excused : Excused c x i.env.own ((Task.stmts ss e).walk ctx w).found) :
    KeepsForeseen c S K holds host fuel (Task.stmts ss e) x i ctx w := by
  obtain ⟨discreet, within⟩ := h
  cases ss with
  | nil => exact .pure primed ⟨trivial, sound⟩
  | cons s ss =>
    have rest := leads_stmtFlow ctx ss (s.flow ctx w)
    refine .start _ primed (.inside follows ⟨discreet.1, within⟩ sound
      (excused.subset rest.found)) fun y r later _ primed' answer => ?_
    cases r with
    | normal =>
      exact .last primed' (.inside follows ⟨discreet.2, within.mono later⟩ answer.2
        (excused.mono later)) fun _ _ _ answer => answer
    | returned v line => exact .pure primed' ⟨answer.1, answer.2.weaken rest.exit⟩

/-- A loop in a body of the class ends as its walk foresees, after any number of rounds. -/
lemma keeps_inside_loop {condition : Expr} {inner : Stmt}
    (h : (Task.loop condition inner e).Inside c x i) (sound : w.state.Sound c x i.env.own)
    (excused : Excused c x i.env.own ((Task.loop condition inner e).walk ctx w).found) :
    KeepsForeseen c S K holds host fuel (Task.loop condition inner e) x i ctx w := by
  obtain ⟨⟨test, discreet⟩, within⟩ := h
  have leads := Stmt.leads_flow ctx inner (condition.flow ctx w)
  refine .start _ primed (.inside follows ⟨test, within⟩ sound
    (excused.subset leads.found)) fun y b later _ primed' answer => ?_
  cases b with
  | false => exact .pure primed' ⟨trivial, answer.2⟩
  | true =>
    refine .start _ primed' (.inside follows ⟨discreet, within.mono later⟩ answer.2
      (excused.mono later)) fun z r later' _ primed'' answer' => ?_
    cases r with
    | normal =>
      -- the next round starts from what was known before the first one
      have later₂ := later.trans later'
      exact .last primed'' (.inside follows ⟨⟨test, discreet⟩, within.mono later₂⟩
        (sound.mono later₂) (excused.mono later₂)) fun _ _ _ answer => answer
    | returned v line => exact .pure primed'' answer'

/-- Expressions in a body of the class end as their walk foresees. -/
lemma keeps_inside_evalAll {es : List Expr} (h : (Task.evalAll es e).Inside c x i)
    (sound : w.state.Sound c x i.env.own)
    (excused : Excused c x i.env.own ((Task.evalAll es e).walk ctx w).found) :
    KeepsForeseen c S K holds host fuel (Task.evalAll es e) x i ctx w := by
  obtain ⟨discreet, within⟩ := h
  cases es with
  | nil => exact .pure primed ⟨⟨rfl, fun v hv => absurd hv List.not_mem_nil⟩, sound⟩
  | cons expr rest =>
    have leads := leads_exprFlow ctx rest (expr.flow ctx w)
    refine .start _ primed (.inside follows ⟨discreet.1, within⟩ sound
      (excused.subset leads.found)) fun y v later _ primed' answer => ?_
    refine .start _ primed' (.inside follows ⟨discreet.2, within.mono later⟩ answer.2
      (excused.mono later)) fun z vs later' _ primed'' answers => ?_
    exact .pure primed'' ⟨⟨congrArg Nat.succ answers.1.1,
      List.forall_mem_cons.2 ⟨answer.1.mono later', answers.1.2⟩⟩, answers.2⟩

end Inside

/-- A discreet body of an instance keeps the watch, as its walk foresees. -/
lemma keeps_inside (mirrored : root.Mirrored host) (primed : x.Primed c K holds) {α : Type}
    {t : Task α} (visited : root.Visits host ⟨fuel + 1, t, x.machine⟩) {i : Instance}
    {ctx : FlowContext} {w : Walk} (follows : ctx.Follows c S) (h : t.Inside c x i)
    (sound : w.state.Sound c x i.env.own)
    (excused : Excused c x i.env.own (t.walk ctx w).found) :
    (priming c S K holds).Orderly x.past (t.opens x.machine) ∧
      KeepsForeseen c S K holds host fuel t (x.after (t.opens x.machine)) i ctx w := by
  cases t with
  | call _ _ _ _ | body _ _ _ => exact h.elim
  | block b e =>
    exact keeps_of_quiet rfl (keeps_inside_block primed follows h sound excused)
  | stmts ss e =>
    exact keeps_of_quiet rfl (keeps_inside_stmts primed follows h sound excused)
  | stmt s e =>
    exact keeps_of_quiet rfl
      (keeps_inside_stmt mirrored primed visited follows h.1 h.2 sound excused)
  | loop condition inner e =>
    exact keeps_of_quiet rfl (keeps_inside_loop primed follows h sound excused)
  | test condition e =>
    refine keeps_of_quiet rfl (.start _ primed (.inside follows h sound excused)
      fun y v _ _ primed' answer => ?_)
    cases v with
    | boolean b => exact .pure primed' ⟨trivial, answer.2⟩
    | null | number _ | text _ | cls _ | obj _ | host _ => exact .fail
  | eval expr e =>
    refine keeps_of_quiet (by cases expr <;> rfl)
      (keeps_inside_eval mirrored primed visited follows h.1 h.2 sound excused)
  | evalAll es e =>
    exact keeps_of_quiet rfl (keeps_inside_evalAll primed follows h sound excused)

/-- The receiver that a body asks for is its own. -/
lemma keeps_this (mirrored : root.Mirrored host) (primed : x.Primed c K holds) {line : Line}
    (visited : root.Visits host ⟨fuel, .eval (.read c.receiver line) e, x.machine⟩) {i : Instance}
    (within : e.Within c x i)
    (wrote : c.receiver ∈ c.fieldSlots → x.Wrote i.env.own c.receiver) :
    KeepsPriming c S K holds host fuel (.eval (.read c.receiver line) e) x fun y v =>
      ∃ j, v = .obj j ∧ j.Sits c y ∧ j.env.own = i.env.own := by
  refine keeps_read primed (fun a near own hs => ?_) fun y v later got => ?_
  · cases (within.chain a (Heap.nearest?_eq_some near).1).2 own
    exact wrote hs
  · have once := mirrored.evaluated _ _ _ _ visited
    rw [once.get?_eq within.inner (primed.binds_receiver within.sits.own)] at got
    obtain ⟨-, -, j, bound, sits, same⟩ := primed.owned _ within.sits.own
    rw [bound] at got
    cases got
    exact ⟨j, rfl, sits.mono later, same⟩

/-- A body that is entered keeps the watch: its walk starts from what is assigned then. -/
lemma keeps_body (primed : x.Primed c K holds) {i : Instance} {m : Method}
    {arguments : Option (List Value)} {entry needs gives : List Slot} (sits : i.Sits c x)
    (given : ∀ v ∈ arguments.getD [], v.Clear c K x) (discreet : m.body.Discreet c.receiver)
    (meets : m.Meets c S entry needs gives)
    (assigned : ∀ f ∈ entry ++ needs, f ∈ c.fieldSlots → x.Wrote i.env.own f) :
    KeepsPriming c S K holds host fuel (.body m i.env arguments) x fun y v => v.Clear c K y ∧
      ∀ f ∈ gives, f ∈ c.fieldSlots → y.Wrote i.env.own f := by
  obtain ⟨ctx, follows, found, exits⟩ := meets
  let w : Walk := m.body.flow ctx (.start entry)
  refine .step (primed.child i.env) fun e' m₁ h₁ => ?_
  obtain ⟨rfl, primes₁, size⟩ := h₁
  have within₁ := primed.within_inside (primed.around_env sits) primes₁ size
  refine .step (primes₁.2.declareEach within₁.not_owns _ fun v hv => (given v hv).mono primes₁.1)
    fun _ m₂ primes₂ => ?_
  have later := primes₁.1.trans primes₂.1
  have sound : (Walk.start entry).state.Sound c (⟨x.past, m₂⟩ : Point σ) i.env.own :=
    ⟨rfl, fun f hf he => (assigned f (List.mem_append_left _ he) hf).mono later⟩
  have excused : Excused c (⟨x.past, m₂⟩ : Point σ) i.env.own w.found := fun f hf hc =>
    (assigned _ (List.mem_append_right _ (found f hf hc)) hc).mono later
  -- both ways out promise what they have in common
  have gives {y : Point σ} (ends : (w.exit.join w.state).Sound c y i.env.own) :
      ∀ f ∈ gives, f ∈ c.fieldSlots → y.Wrote i.env.own f := fun f hf hc => by
    have exit := exits f hf hc
    rw [Walk.assignedOnExit, if_pos ends.1] at exit
    exact ends.2 f hc exit
  refine .start _ primes₂.2 (.inside follows ⟨discreet, within₁.mono primes₂.1⟩ sound excused)
    fun y r _ _ primed' answer => ?_
  cases r with
  | normal =>
    exact .pure primed' ⟨trivial, gives (answer.2.weaken (FlowState.join_weakens_right _ _))⟩
  | returned v line =>
    exact .pure primed' ⟨answer.1, gives (answer.2.weaken (FlowState.join_weakens_left _ _))⟩

/-- A method that is found answers to what was looked for. -/
lemma selector_of_findMethod? {s : Selector} {table : List Method} {m : Method}
    (found : findMethod? s table = some m) : m.selector = s := by
  rw [findMethod?, findByKey?] at found
  simpa only [decide_eq_true_eq] using List.find?_some found

/-- A call of a body's own method keeps the watch. -/
lemma keeps_own (init : c.Initializes S K) (discreet : c.Discreet)
    (primed : x.Primed c K holds) {i : Instance} {name : String}
    {arguments : Option (List Value)} {line : Line} (sits : i.Sits c x)
    (given : ∀ v ∈ arguments.getD [], v.Clear c K x)
    (requires : ∀ s, S.lookup ⟨name, arguments.map List.length⟩ = some s →
      ∀ f ∈ s.requires, f ∈ c.fieldSlots → x.Wrote i.env.own f) :
    KeepsPriming c S K holds host fuel (.call (.obj i) name arguments line) x fun y v =>
      v.Clear c K y ∧ ∀ s, S.lookup ⟨name, arguments.map List.length⟩ = some s →
        ∀ f ∈ s.assigns, f ∈ c.fieldSlots → y.Wrote i.env.own f := by
  rw [KeepsPriming, Task.plan]
  split
  · next method found =>
    have hm : method ∈ c.methods := sits.decl ▸ (findMethod?_spec found).1
    obtain ⟨s, known, meets⟩ := init.summarized method hm
    rw [selector_of_findMethod? found] at known
    refine .last primed (.body sits given (discreet method (List.mem_append_right _ hm)) meets
      fun f hf => requires s known f hf) fun y v _ answer => ⟨answer.1, fun s' known' => ?_⟩
    rw [known] at known'
    cases known'
    exact answer.2
  · exact .fail

/-- Every run keeps the watch over a discreet class that initializes its fields. -/
theorem kept_priming (honest : host.Honest holds) (mirrored : root.Mirrored host)
    (init : c.Initializes S K) (discreet : c.Discreet) :
    (priming c S K holds).Kept host root := by
  intro α fuel t x Q visited allowed primed
  cases allowed with
  | outside h => exact keeps_outside honest init discreet primed h
  | inside follows h sound excused =>
    exact keeps_inside mirrored primed visited follows h sound excused
  | this within wrote => exact keeps_of_quiet rfl (keeps_this mirrored primed visited within wrote)
  | own sits given requires =>
    exact keeps_of_quiet rfl (keeps_own init discreet primed sits given requires)
  | body sits given body meets assigned =>
    exact keeps_of_quiet rfl (keeps_body primed sits given body meets assigned)

/-! ### Whole programs -/

/-- The fields of an instance of the class are read only after they have been assigned. -/
def AssignsBeforeReading (c : ClassDecl) (events : List Event) : Prop :=
  ∀ before a s after, events = before ++ .read a s :: after →
    ∀ i, .made i ∈ before → i.cls.decl = c → i.env.own = a → s ∈ c.fieldSlots →
      .wrote a s ∈ before

/-- Before anything has happened there are no instances. -/
lemma Point.not_owns_nil {m : Machine σ} {a : Address} : ¬(⟨[], m⟩ : Point σ).Owns c a := by
  rintro ⟨i, made, -⟩
  exact absurd made List.not_mem_nil

/-- Globals are clear values. -/
lemma primed_of_globals {all : List (Slot × SlotRole)} {gs : List (Slot × String)}
    {m : Machine σ} (fits : m.Fits all holds ⟨[.globals gs]⟩ []) :
    (⟨[], m⟩ : Point σ).Primed c K holds := by
  have clear {v : Value} (h : v.Fits all ⟨[.globals gs]⟩) : v.Clear c K (⟨[], m⟩ : Point σ) :=
    .of_isPlain h.isPlain
  exact ⟨fun a s v got => .inl (clear (fits.bound a s v got).2),
    fun a own => absurd own Point.not_owns_nil, fun v hv => clear (fits.host v hv)⟩

/-- In a program without reports of early reads, every field of a class whose bodies are
discreet is assigned before it is read, in every instance and however the run goes: in
half-made instances that their constructors call methods of as in finished ones. The
program may have other mistakes. -/
theorem fields_assigned_before_read (honest : host.Honest holds) {st : σ}
    (initially : ∀ v, holds st v → v.IsPlain) (globals : List String)
    (program : List Syntax.Stmt) (fuel : Nat) :
    let script := (resolve globals program).1
    earlyReadDiagnostics script = [] → ∀ o c, (o, c) ∈ script.classes → c.Discreet →
      AssignsBeforeReading c (script.events host fuel ⟨.empty, st⟩) := by
  intro script clean o c hc discreet before a s after split
  obtain ⟨S, K, init⟩ := initializes_of_earlyReads (List.map_eq_nil_iff.1 clean) hc
  obtain ⟨m₀, entered, Λ, fits, holding⟩ :=
    scoping_of_entered honest initially globals program fuel
  obtain ⟨e₀, m, entered', rfl, fits₀⟩ := fits_entered honest initially script
  cases entered.symm.trans entered'
  let root : Activity σ := ⟨fuel, .block script.root ⟨0, []⟩, m₀⟩
  have mirrored : root.Mirrored host := mirrored_of_visits honest fits holding
  have primed : (⟨[], m₀⟩ : Point σ).Primed c K holds := primed_of_globals fits₀
  have apart : (⟨0, []⟩ : Environment).Apart c (⟨[], m₀⟩ : Point σ) := by
    refine List.forall_mem_singleton.2 ⟨?_, Point.not_owns_nil⟩
    change 0 < m₀.heap.frames.size
    rw [fits₀.size]
    exact Nat.zero_lt_one
  have kept : (priming c S K holds).Kept host root := kept_priming honest mirrored init discreet
  obtain ⟨orderly, -⟩ := kept.ends fuel (.block script.root ⟨0, []⟩) ⟨[], m₀⟩ _ .refl
    (.outside apart) primed
  have events : script.events host fuel ⟨.empty, st⟩ = root.task.events host fuel m₀ := by
    rw [Script.events, entered]
  rw [events] at split
  rw [split] at orderly
  exact Watch.Orderly.admits orderly

/-- A class whose constructor assigns its field through two methods that call each
other. -/
def fillsInTurn : List Syntax.Stmt :=
  [.cls ⟨"Counter", 1⟩
    [⟨.construct, ⟨"new", 2⟩, some [],
        [.eval (.call (.this 2) ⟨"fill", 2⟩ (some [.literal (.boolean false) 2]) none)]⟩,
      ⟨.onInstance, ⟨"fill", 3⟩, some [⟨"last", 3⟩],
        [.branch (.variable ⟨"last", 4⟩)
          (.eval (.assign (.field ⟨"count", 4⟩) (.literal (.boolean true) 4) 4))
          (some (.eval (.call (.this 5) ⟨"refill", 5⟩ (some []) none))) 4]⟩,
      ⟨.onInstance, ⟨"refill", 6⟩, some [],
        [.eval (.call (.this 6) ⟨"fill", 6⟩ (some [.literal (.boolean true) 6]) none)]⟩,
      ⟨.onInstance, ⟨"count", 7⟩, none, [.ret (some (.field ⟨"count", 7⟩)) 7]⟩],
    .eval (.call (.call (.variable ⟨"Counter", 8⟩) ⟨"new", 8⟩ (some []) none) ⟨"count", 8⟩
      none none)]

/-- The class once its names are resolved. -/
def filledInTurn : ClassDecl where
  name := "Counter"
  line := 1
  receiver := ⟨1⟩
  staticReceiver := ⟨2⟩
  constructors :=
    [⟨"new", some [], [],
      ⟨[.eval (.call (.read ⟨1⟩ 2) "fill" (some [.literal (.boolean false) 2]) 2)], [], []⟩, 2⟩]
  staticMethods := []
  methods :=
    [⟨"count", none, [], ⟨[.ret (some (.read ⟨4⟩ 7)) 7], [], []⟩, 7⟩,
      ⟨"fill", some [⟨3⟩], [(⟨3⟩, "last")],
        ⟨[.branch (.read ⟨3⟩ 4) (.eval (.assign ⟨4⟩ (.literal (.boolean true) 4) 4))
          (some (.eval (.call (.read ⟨1⟩ 5) "refill" (some []) 5))) 4], [], []⟩, 3⟩,
      ⟨"refill", some [], [],
        ⟨[.eval (.call (.read ⟨1⟩ 6) "fill" (some [.literal (.boolean true) 6]) 6)], [], []⟩, 6⟩]
  fields := [(⟨4⟩, "count")]
  staticFields := []

/-- A slot is read. -/
def Event.reads (s : Slot) : Event → Bool
  | .read _ t => s = t
  | .made _ | .wrote _ _ => false

/-- Its field is read when the run asks for the count, and has been assigned by then. -/
theorem fields_assigned_before_read_inTurn :
    let script := (resolve [] fillsInTurn).1
    let events := script.events Host.empty 40 ⟨.empty, ()⟩
    earlyReadDiagnostics script = [] ∧ script.classes = [(some ⟨0⟩, filledInTurn)] ∧
      filledInTurn.Discreet ∧ filledInTurn.fieldSlots = [⟨4⟩] ∧
        events.any (Event.reads ⟨4⟩) = true ∧ AssignsBeforeReading filledInTurn events := by
  intro script events
  have honest : (Host.empty : Host Unit).Honest fun _ _ => False := Host.honest_empty
  have clean : earlyReadDiagnostics script = [] := by decide +kernel
  have only : (resolve [] fillsInTurn).1.classes = [(some ⟨0⟩, filledInTurn)] := by cbv
  have discreet : filledInTurn.Discreet := by
    simp [filledInTurn, ClassDecl.Discreet, Block.Discreet, stmtDiscreet, Stmt.Discreet,
      exprDiscreet, Expr.Discreet, Expr.line]
  have read : events.any (Event.reads ⟨4⟩) = true := by decide +kernel
  exact ⟨clean, only, discreet, rfl, read,
    fields_assigned_before_read honest (fun _ h => h.elim) [] fillsInTurn 40 clean (some ⟨0⟩)
      filledInTurn (only ▸ List.mem_singleton_self _) discreet⟩

end Ember
