/-
The order in which a run goes about its tasks.

* `Activity.visits_iff`: the activities that a run visits are those in its list, which
  is in the order in which they are started;
* `Discipline.both`: two disciplines kept at once;
* `Discipline.InOrder`: a relation between machines from the start of a run through
  everything that it visits to its end, whether it succeeds or fails;
* `Discipline.Kept.last`: a discipline holds again where a task ends;
* `Discipline.Kept.inOrder`: what its worlds account for holds all along.
-/
import Mathlib
import Ember.Proofs.Run.Frames

namespace Ember

variable {σ α β : Type}

/-! ### Lists of visited activities -/

/-- What a plan has started is something that it starts. -/
lemma Plan.starts_of_mem_started {host : Host σ} {fuel : Nat} {p : Plan σ α} {m : Machine σ}
    {b : Activity σ} (h : b ∈ p.started host fuel m) : p.Starts host fuel m b := by
  induction p generalizing m with
  | done a => exact absurd h List.not_mem_nil
  | act x next ih =>
    rw [Plan.started] at h
    cases hx : x m with
    | done c m' =>
      rw [hx] at h
      exact .afterAct hx (ih c h)
    | failed err m' | exhausted =>
      rw [hx] at h
      exact absurd h List.not_mem_nil
  | sub t next ih =>
    rw [Plan.started] at h
    rcases List.mem_cons.1 h with rfl | h
    · exact .here t next m
    · cases ht : t.run host fuel m with
      | done c m' =>
        rw [ht] at h
        exact .afterSub ht (ih c h)
      | failed err m' | exhausted =>
        rw [ht] at h
        exact absurd h List.not_mem_nil

/-- What a task has visited is something that it visits. -/
lemma Task.visits_of_mem_visited {host : Host σ} {fuel : Nat} {t : Task α} {m : Machine σ}
    {c : Activity σ} (h : c ∈ t.visited host fuel m) : Activity.Visits host ⟨fuel, t, m⟩ c := by
  induction fuel generalizing α m with
  | zero =>
    cases List.mem_singleton.1 h
    exact .refl
  | succ fuel ih =>
    rw [Task.visited] at h
    rcases List.mem_cons.1 h with rfl | h
    · exact .refl
    · obtain ⟨b, hb, hc⟩ := List.mem_flatMap.1 h
      have starts := Plan.starts_of_mem_started hb
      obtain ⟨same, -⟩ := starts.mem_started
      have later : Activity.Visits host b c := by
        obtain ⟨_, t', m'⟩ := b
        cases same
        exact ih hc
      exact .head ⟨fuel, rfl, starts⟩ later

/-- The activities that a run visits are those in its list. -/
theorem Activity.visits_iff {host : Host σ} {a b : Activity σ} :
    a.Visits host b ↔ b ∈ a.task.visited host a.fuel a.machine :=
  ⟨Activity.Visits.mem_visited, Task.visits_of_mem_visited⟩

/-! ### Two disciplines -/

namespace Discipline

variable {W V : Type} [Preorder W] [Preorder V]

/-- Two disciplines at once. -/
def both (D : Discipline σ W) (E : Discipline σ V) : Discipline σ (W × V) where
  Holds w m := D.Holds w.1 m ∧ E.Holds w.2 m
  Allows := fun w _ t Q => ∃ P S, D.Allows w.1 t P ∧ E.Allows w.2 t S ∧
    Q = fun w' a => P w'.1 a ∧ S w'.2 a
  Blames := fun w _ t err m => D.Blames w.1 t err m ∧ E.Blames w.2 t err m

/-- A plan that keeps two disciplines keeps them at once. -/
lemma Keeps.both {D : Discipline σ W} {E : Discipline σ V}
    {blame : W → RuntimeError → Machine σ → Prop} {blame' : V → RuntimeError → Machine σ → Prop}
    {p : Plan σ α} {w : W} {v : V} {m : Machine σ} {P : W → α → Prop} {S : V → α → Prop}
    (keeps : D.Keeps blame p w m P) (keeps' : E.Keeps blame' p v m S) :
    (D.both E).Keeps (fun w err m => blame w.1 err m ∧ blame' w.2 err m) p (w, v) m
      fun w a => P w.1 a ∧ S w.2 a := by
  induction p generalizing w v m with
  | done a =>
    obtain ⟨w', hw, holds, answer⟩ := keeps
    obtain ⟨v', hv, holds', answer'⟩ := keeps'
    exact ⟨(w', v'), ⟨hw, hv⟩, ⟨holds, holds'⟩, answer, answer'⟩
  | act x next ih =>
    simp only [Keeps] at keeps keeps' ⊢
    cases hx : x m with
    | done b m' =>
      rw [hx] at keeps keeps'
      exact ih b keeps keeps'
    | failed err m' =>
      rw [hx] at keeps keeps'
      exact ⟨keeps, keeps'⟩
    | exhausted => trivial
  | sub t next ih =>
    obtain ⟨w', P', hw, holds, allowed, later⟩ := keeps
    obtain ⟨v', S', hv, holds', allowed', later'⟩ := keeps'
    refine ⟨(w', v'), fun u b => P' u.1 b ∧ S' u.2 b, ⟨hw, hv⟩, ⟨holds, holds'⟩,
      ⟨P', S', allowed, allowed', rfl⟩, fun u m' b hu holds answer => ?_⟩
    exact ih b (later u.1 m' b hu.1 holds.1 answer.1) (later' u.2 m' b hu.2 holds.2 answer.2)

/-! ### What happens all along -/

/-- A relation between an earlier and a later machine that the worlds of a discipline
account for. -/
structure Traces (D : Discipline σ W) (r : Machine σ → Machine σ → Prop) : Prop where
  trans : ∀ {m m' m''}, r m m' → r m' m'' → r m m''
  step : ∀ {w w' m m'}, w ≤ w' → D.Holds w m → D.Holds w' m' → r m m'
  fails : ∀ {w} {α : Type} {t : Task α} {err m}, D.Blames w t err m → ∃ w', w ≤ w' ∧ D.Holds w' m

/-- A relation holds from a first machine on, through everything that is visited, to the
last machine if there is one. -/
structure InOrder (r : Machine σ → Machine σ → Prop) (m : Machine σ)
    (visited : List (Activity σ)) (out : Option (Machine σ)) : Prop where
  first : ∀ b ∈ visited, r m b.machine
  inner : visited.Pairwise fun b c => r b.machine c.machine
  last : ∀ m', out = some m' → r m m' ∧ ∀ b ∈ visited, r b.machine m'

variable {D : Discipline σ W} {host : Host σ} {root : Activity σ}
  {r : Machine σ → Machine σ → Prop} {fuel : Nat}

/-- Where a task that is allowed comes to an end the discipline holds again, also if the
task fails. -/
lemma Kept.last (traces : D.Traces r) (kept : D.Kept host root) {b : Activity σ} {w : W}
    {Q : W → b.α → Prop} (visited : root.Visits host b) (allowed : D.Allows w b.task Q)
    (holds : D.Holds w b.machine) {m : Machine σ} (last : (b.outcome host).machine? = some m) :
    ∃ w', w ≤ w' ∧ D.Holds w' m ∧ ∀ a, b.outcome host = .done a m → Q w' a := by
  have ends := kept.endsAbove b.fuel b.task w Q b.machine visited allowed holds
  rw [Activity.outcome] at last ⊢
  cases run : b.task.run host b.fuel b.machine with
  | done a m' =>
    rw [run] at last ends
    cases last
    obtain ⟨w', hw, holds', answer⟩ := ends
    refine ⟨w', hw, holds', fun a' same => ?_⟩
    cases same
    exact answer
  | failed err m' =>
    rw [run] at last ends
    cases last
    obtain ⟨c, w₁, hw₁, -, -, blamed⟩ := ends
    obtain ⟨w', hw, holds'⟩ := traces.fails blamed
    refine ⟨w', hw₁.trans hw, holds', fun a same => ?_⟩
    cases same
  | exhausted =>
    rw [run] at last
    cases last

/-- The relation holds all along a plan, if it does along all that the plan starts. -/
lemma Keeps.inOrder (traces : D.Traces r) (kept : D.Kept host root)
    (ih : ∀ {α : Type} (t : Task α) (w : W) (Q : W → α → Prop) (m : Machine σ),
      root.Visits host ⟨fuel, t, m⟩ → D.Allows w t Q → D.Holds w m →
        InOrder r m (t.visited host fuel m) (t.run host fuel m).machine?)
    {t₀ : Task β} {w₀ : W} {m₀ : Machine σ} (p : Plan σ α) {w : W} {m : Machine σ}
    {Q : W → α → Prop} (reached : ∀ b, p.Starts host fuel m b → root.Visits host b)
    (keeps : D.Keeps (fun w' => D.Blames w' t₀) p w m Q) (later : w₀ ≤ w)
    (holds₀ : D.Holds w₀ m₀) :
    InOrder r m₀ ((p.started host fuel m).flatMap fun b => b.task.visited host fuel b.machine)
      (p.run host fuel m).machine? := by
  induction p generalizing w m w₀ m₀ with
  -- nothing is started, and the machine stays as it is
  | done a =>
    obtain ⟨w', hw, holds, -⟩ := keeps
    refine ⟨fun b hb => absurd hb List.not_mem_nil, .nil, fun m' hm => ?_⟩
    cases hm
    exact ⟨traces.step (later.trans hw) holds₀ holds, fun b hb => absurd hb List.not_mem_nil⟩
  | act x next ih' =>
    simp only [Keeps, Plan.run, Run.bind, Plan.started] at keeps ⊢
    cases hx : x m with
    | done b m' =>
      rw [hx] at keeps
      exact ih' b (fun c hc => reached c (.afterAct hx hc)) keeps later holds₀
    | failed err m' =>
      rw [hx] at keeps
      obtain ⟨w', hw, holds⟩ := traces.fails keeps
      refine ⟨fun b hb => absurd hb List.not_mem_nil, .nil, fun m'' hm => ?_⟩
      cases hm
      exact ⟨traces.step (later.trans hw) holds₀ holds, fun b hb => absurd hb List.not_mem_nil⟩
    | exhausted =>
      refine ⟨fun b hb => absurd hb List.not_mem_nil, .nil, fun m'' hm => ?_⟩
      cases hm
  | sub t next ih' =>
    -- what is started first is ordered, and everything that follows comes after it
    obtain ⟨w', Q', hw, holds, allowed, rest⟩ := keeps
    have visited := reached _ (.here t next m)
    have start := traces.step (later.trans hw) holds₀ holds
    have inner := ih t w' Q' m visited allowed holds
    have ends := kept.ends fuel t w' Q' m visited allowed holds
    simp only [Plan.run, Run.bind, Plan.started, List.flatMap_cons]
    cases ht : t.run host fuel m with
    | done b m' =>
      rw [ht] at inner ends
      obtain ⟨w'', hw', holds', answer⟩ := ends
      obtain ⟨between, before⟩ := inner.last m' rfl
      have after := ih' b (fun c hc => reached c (.afterSub ht hc))
        (rest w'' m' b hw' holds' answer) (le_refl w'') holds'
      refine ⟨fun c hc => ?_,
        List.pairwise_append.2 ⟨inner.inner, after.inner, fun c hc d hd => ?_⟩,
        fun m'' hm => ⟨?_, fun c hc => ?_⟩⟩
      · rcases List.mem_append.1 hc with hc | hc
        · exact traces.trans start (inner.first c hc)
        · exact traces.trans (traces.trans start between) (after.first c hc)
      · exact traces.trans (before c hc) (after.first d hd)
      · exact traces.trans (traces.trans start between) (after.last m'' hm).1
      · rcases List.mem_append.1 hc with hc | hc
        · exact traces.trans (before c hc) (after.last m'' hm).1
        · exact (after.last m'' hm).2 c hc
    | failed err m' | exhausted =>
      rw [ht] at inner
      rw [List.flatMap_nil, List.append_nil]
      exact ⟨fun c hc => traces.trans start (inner.first c hc), inner.inner, fun m'' hm =>
        ⟨traces.trans start (inner.last m'' hm).1, (inner.last m'' hm).2⟩⟩

/-- What the worlds of a discipline account for holds all along a run. -/
theorem Kept.inOrder (traces : D.Traces r) (kept : D.Kept host root) (fuel : Nat) :
    ∀ {α : Type} (t : Task α) (w : W) (Q : W → α → Prop) (m : Machine σ),
      root.Visits host ⟨fuel, t, m⟩ → D.Allows w t Q → D.Holds w m →
        InOrder r m (t.visited host fuel m) (t.run host fuel m).machine? := by
  induction fuel with
  | zero =>
    intro α t w Q m _ _ holds
    refine ⟨fun b hb => ?_, List.pairwise_singleton .., fun m' hm => ?_⟩
    · cases List.mem_singleton.1 hb
      exact traces.step (le_refl w) holds holds
    · rw [Task.run_zero] at hm
      cases hm
  | succ fuel ih =>
    intro α t w Q m visited allowed holds
    have inner := Keeps.inOrder traces kept ih (t.plan host)
      (fun b hb => visited.tail ⟨fuel, rfl, hb⟩) (kept fuel t w Q m visited allowed holds)
      (le_refl w) holds
    rw [Task.run_succ, Task.visited]
    refine ⟨List.forall_mem_cons.2 ⟨traces.step (le_refl w) holds holds, inner.first⟩,
      List.pairwise_cons.2 ⟨inner.first, inner.inner⟩, fun m' hm => ⟨(inner.last m' hm).1, ?_⟩⟩
    exact List.forall_mem_cons.2 ⟨(inner.last m' hm).1, (inner.last m' hm).2⟩

end Discipline

end Ember
