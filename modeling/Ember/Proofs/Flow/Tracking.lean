/-
Walks that keep up with the paths through a part of a body.

* `FlowState.Allows`: control can come to a point of a body, and a variable may be
  unassigned there;
* `Program.Block.Shows`, `FlowContext.Shown`: a finding is an early read of a body, or of
  a body of one of the classes within a part;
* `Walk.Tracks`: a walk knows of a variable what the paths through a part make of it,
  and finds what they come by;
* `Walk.Tracks.one`, `Walk.Tracks.andThen`, `Walk.Tracks.either`, `Walk.Tracks.rounds`,
  `Walk.Tracks.within`: the ways in which parts are put together.
-/
import Mathlib
import Ember.Proofs.Flow.Findings
import Ember.Proofs.Flow.Paths

namespace Ember

open Program

/-! ### What a state allows -/

namespace FlowState

variable {a b st : FlowState} {x : Slot} {u u' v : Bool}

/-- Control can come to a point, and if `u` tells so a variable may be unassigned there. -/
def Allows (st : FlowState) (x : Slot) (u : Bool) : Prop :=
  st.reachable = true ∧ (u = true → x ∉ st.assigned)

/-- A state allows a slot to be assigned if it allows it to be unassigned. -/
lemma Allows.mono (h : st.Allows x v) (le : u ≤ v) : st.Allows x u :=
  ⟨h.1, fun unassigned => h.2 (le unassigned)⟩

/-- What holds on both of two ways allows what either way allows. -/
lemma allows_join : (a.join b).Allows x u ↔ a.Allows x u ∨ b.Allows x u := by
  rw [join]
  split
  · next closed => exact ⟨.inl, fun h => h.resolve_right fun h => by simp [h.1] at closed⟩
  · next second =>
    split
    · next closed => exact ⟨.inr, fun h => h.resolve_left fun h => by simp [h.1] at closed⟩
    · next first =>
      simp only [Bool.not_eq_true, Bool.not_eq_false'] at first second
      cases u with
      | false => simp [Allows, first]
      | true =>
        simp only [Allows, first, second, List.mem_filter, decide_eq_true_eq, true_and,
          forall_const]
        tauto

/-- An assignment allows what was allowed before, but for its own slot, which it assigns. -/
lemma allows_assign (s : Slot) :
    (st.assign s).Allows x u' ↔ ∃ u, st.Allows x u ∧ u' ≤ (PathStep.assigns s).after x u := by
  simp only [Allows, assign, mem_addSlots, List.mem_singleton, PathStep.after]
  by_cases same : s = x
  · subst same
    simp only [or_true, not_true_eq_false, imp_false, Bool.not_eq_true, if_true]
    constructor
    · rintro ⟨open_, rfl⟩
      exact ⟨false, ⟨open_, fun h => absurd h Bool.false_ne_true⟩, le_refl _⟩
    · rintro ⟨u, ⟨open_, -⟩, le⟩
      exact ⟨open_, Bool.eq_false_of_le_false le⟩
  · simp only [Ne.symm same, or_false, if_neg same]
    refine ⟨fun h => ⟨u', h, le_refl _⟩, ?_⟩
    rintro ⟨u, ⟨open_, unset⟩, le⟩
    exact ⟨open_, fun h => unset (le h)⟩

/-- After a slot is forgotten either is allowed of it, and of the others what was before. -/
lemma allows_forget (s : Slot) :
    (st.forget s).Allows x u' ↔ ∃ u, st.Allows x u ∧ u' ≤ (PathStep.forgets s).after x u := by
  simp only [Allows, forget, List.mem_filter, ne_eq, decide_eq_true_eq, PathStep.after]
  by_cases same : s = x
  · subst same
    simp only [not_true_eq_false, and_false, not_false_eq_true, implies_true, and_true, if_true]
    constructor
    · exact fun open_ => ⟨false, ⟨open_, fun h => absurd h Bool.false_ne_true⟩, Bool.le_true _⟩
    · rintro ⟨u, ⟨open_, -⟩, -⟩
      exact open_
  · simp only [Ne.symm same, not_false_eq_true, and_true, if_neg same]
    refine ⟨fun h => ⟨u', h, le_refl _⟩, ?_⟩
    rintro ⟨u, ⟨open_, unset⟩, le⟩
    exact ⟨open_, fun h => unset (le h)⟩

/-- Wherever control can come to a point, a variable is unassigned there. -/
def Unset (st : FlowState) (x : Slot) : Prop := st.reachable = true → x ∉ st.assigned

/-- What is unassigned for certain may be assigned or not, for all that a state allows. -/
lemma Unset.allows (unset : st.Unset x) (h : st.Allows x u) (v : Bool) : st.Allows x v :=
  ⟨h.1, fun _ => unset h.1⟩

end FlowState

/-! ### What is found -/

/-- A body of a context may report a finding: it is about one of its variables. -/
def FlowContext.Watches (ctx : FlowContext) (f : Finding) : Prop :=
  f.kind = .variable ∧ f.slot ∈ ctx.locals

/-- A finding is an early read of a body: of one of its variables. -/
def Program.Block.Shows (named : List (Slot × ClassDecl)) (captures : Captures) (f : Finding)
    (b : Block) : Prop :=
  f.kind = .variable ∧ f.slot ∈ b.locals ∧ b.ReadsEarly named captures f.slot f.line

/-- A finding is an early read of a body of one of the classes. -/
def FlowContext.Shown (ctx : FlowContext) (f : Finding) (cs : List (Option Slot × ClassDecl)) :
    Prop :=
  ∃ b ∈ bodies cs, b.Shows ctx.named ctx.captures f

/-- A body of some classes or of others shows a finding if one of either does. -/
lemma FlowContext.shown_append (ctx : FlowContext) (f : Finding)
    (cs ds : List (Option Slot × ClassDecl)) :
    ctx.Shown f (cs ++ ds) ↔ ctx.Shown f cs ∨ ctx.Shown f ds := by
  simp only [Shown, bodies, List.flatMap_append, List.mem_append, or_and_right, exists_or]

/-- Where there are no classes nothing is shown. -/
lemma FlowContext.not_shown_nil (ctx : FlowContext) (f : Finding) : ¬ctx.Shown f [] := by
  simp [Shown, bodies]

namespace Walk

variable {ctx : FlowContext} {f : Finding} {P Q : Paths} {cs ds : List (Option Slot × ClassDecl)}
  {w w₁ w₂ : Walk}

/-- What is found where a slot is read. -/
lemma mem_found_read (other : f.slot ∉ ctx.fields) (s : Slot) (line : Line) :
    f ∈ (w.read ctx s line).found ↔
      f ∈ w.found ∨ ctx.Watches f ∧ w.state.Allows f.slot true ∧ s = f.slot ∧ line = f.line := by
  rw [read]
  split
  · next skipped =>
    refine ⟨.inl, fun h => h.resolve_right ?_⟩
    rintro ⟨-, ⟨open_, unassigned⟩, rfl, -⟩
    have assigned : f.slot ∈ w.state.assigned := by simpa [open_] using skipped
    exact unassigned rfl assigned
  · next seen =>
    simp only [Bool.or_eq_true, Bool.not_eq_true', decide_eq_true_eq, not_or,
      Bool.not_eq_false] at seen
    obtain ⟨kind, slot, l⟩ := f
    split
    · next field =>
      have apart : s ≠ slot := fun same => other (same ▸ field)
      simp [apart, Ne.symm apart]
    · split
      · next local_ =>
        simp only [List.mem_append, List.mem_singleton, Finding.mk.injEq]
        refine or_congr_right ⟨?_, ?_⟩
        · rintro ⟨rfl, rfl, rfl⟩
          exact ⟨⟨rfl, local_⟩, ⟨seen.1, fun _ => seen.2⟩, rfl, rfl⟩
        · rintro ⟨⟨own, -⟩, -, rfl, rfl⟩
          exact ⟨own, rfl, rfl⟩
      · next unwatched =>
        refine ⟨.inl, fun h => h.resolve_right ?_⟩
        rintro ⟨⟨-, watched⟩, -, rfl, -⟩
        exact unwatched watched

/-- What is found where slots are read one by one. -/
lemma mem_found_readAll (other : f.slot ∉ ctx.fields) (slots : List Slot) (line : Line) :
    f ∈ (w.readAll ctx slots line).found ↔
      f ∈ w.found ∨
        ctx.Watches f ∧ w.state.Allows f.slot true ∧ f.slot ∈ slots ∧ line = f.line := by
  induction slots generalizing w with
  | nil => simp [readAll]
  | cons s slots ih =>
    have later : f ∈ ((w.read ctx s line).readAll ctx slots line).found ↔ _ := ih
    rw [mem_found_read other, state_read] at later
    change f ∈ ((w.read ctx s line).readAll ctx slots line).found ↔ _
    rw [later, List.mem_cons, eq_comm (a := s)]
    tauto

/-! ### Walks along paths -/

/-- A walk over a part of a body that begins as `w` and ends as `w'` keeps up with the
paths through the part: at its end it allows what they leave, and it finds a variable's
early read if some path comes by it, or if it is one of the classes within the part. -/
structure Tracks (ctx : FlowContext) (f : Finding) (P : Paths)
    (cs : List (Option Slot × ClassDecl)) (w w' : Walk) : Prop where
  passes : ∃ tr r, P tr r
  allows : ∀ u', w'.state.Allows f.slot u' ↔
    ∃ u tr, w.state.Allows f.slot u ∧ P tr .through ∧ u' ≤ unassignedAfter f.slot u tr
  found : f ∈ w'.found ↔ f ∈ w.found ∨
    (ctx.Watches f ∧ ∃ u tr r, w.state.Allows f.slot u ∧ P tr r ∧
      Hits ctx.captures f.slot f.line u tr) ∨ ctx.Shown f cs

namespace Tracks

/-- A walk that does nothing keeps up with the path that does nothing. -/
lemma idle (w : Walk) : Tracks ctx f .idle [] w w where
  passes := ⟨[], .through, rfl, rfl⟩
  allows u' := by
    constructor
    · exact fun h => ⟨u', [], h, ⟨rfl, rfl⟩, le_refl _⟩
    · rintro ⟨u, tr, h, ⟨rfl, -⟩, le⟩
      exact h.mono le
  found := by
    refine ⟨.inl, fun h => h.resolve_right ?_⟩
    rintro (⟨-, u, tr, r, -, ⟨rfl, -⟩, hits⟩ | shown)
    · exact not_hits_nil hits
    · exact ctx.not_shown_nil f shown

/-- A path of one step. -/
lemma one {st : PathStep}
    (allows : ∀ u', w₁.state.Allows f.slot u' ↔
      ∃ u, w.state.Allows f.slot u ∧ u' ≤ st.after f.slot u)
    (found : f ∈ w₁.found ↔ f ∈ w.found ∨
      ctx.Watches f ∧ w.state.Allows f.slot true ∧ st.Uses ctx.captures f.slot f.line) :
    Tracks ctx f (.one st) [] w w₁ where
  passes := ⟨[st], .through, rfl, rfl⟩
  allows u' := by
    rw [allows]
    constructor
    · rintro ⟨u, h, le⟩
      exact ⟨u, [st], h, ⟨rfl, rfl⟩, le⟩
    · rintro ⟨u, tr, h, ⟨rfl, -⟩, le⟩
      exact ⟨u, h, le⟩
  found := by
    rw [found, or_iff_left (ctx.not_shown_nil f)]
    refine or_congr_right (and_congr_right fun _ => ?_)
    constructor
    · rintro ⟨h, uses⟩
      exact ⟨true, [st], .through, h, ⟨rfl, rfl⟩, hits_one.2 ⟨rfl, uses⟩⟩
    · rintro ⟨u, tr, r, h, ⟨rfl, -⟩, hits⟩
      obtain ⟨rfl, uses⟩ := hits_one.1 hits
      exact ⟨h, uses⟩

/-- A step that only reads leaves the state as it is. -/
lemma use {st : PathStep} (same : w₁.state = w.state) (still : ∀ u, st.after f.slot u = u)
    (found : f ∈ w₁.found ↔ f ∈ w.found ∨
      ctx.Watches f ∧ w.state.Allows f.slot true ∧ st.Uses ctx.captures f.slot f.line) :
    Tracks ctx f (.one st) [] w w₁ := by
  refine one (fun u' => ?_) found
  rw [same]
  exact ⟨fun h => ⟨u', h, (still u').ge⟩, fun ⟨u, h, le⟩ => h.mono (le.trans (still u).le)⟩

/-- A read keeps up with the step that reads, unless the slot is a field. -/
lemma read (other : f.slot ∉ ctx.fields) (w : Walk) (s : Slot) (line : Line) :
    Tracks ctx f (.one (.reads s line)) [] w (w.read ctx s line) :=
  use (state_read ..) (fun _ => rfl) (mem_found_read other s line)

/-- An instance that is made keeps up with the step that makes it. -/
lemma produce (other : f.slot ∉ ctx.fields) (w : Walk) (c : ClassDecl) (line : Line) :
    Tracks ctx f (.one (.makes c line)) [] w (w.produce ctx c line) :=
  use (state_readAll ..) (fun _ => rfl) (mem_found_readAll other (ctx.captures.of c) line)

/-- An assignment keeps up with the step that assigns. -/
lemma assign (w : Walk) (s : Slot) : Tracks ctx f (.one (.assigns s)) [] w (w.assign s) :=
  one (fun _ => FlowState.allows_assign s) (by simp [PathStep.Uses, Walk.assign])

/-- A declaration without a value keeps up with the step that forgets. -/
lemma forget (w : Walk) (s : Slot) :
    Tracks ctx f (.one (.forgets s)) [] w (w.resume (w.state.forget s)) :=
  one (fun _ => FlowState.allows_forget s) (by simp [PathStep.Uses, Walk.resume])

/-- A return keeps up with the path that leaves: nothing is allowed after it. -/
lemma leave (w : Walk) : Tracks ctx f .leave [] w w.leave where
  passes := ⟨[], .left, rfl, rfl⟩
  allows u' := by
    refine ⟨fun h => (nomatch h.1), ?_⟩
    rintro ⟨u, tr, -, ⟨-, left⟩, -⟩
    exact nomatch left
  found := by
    refine ⟨.inl, fun h => h.resolve_right ?_⟩
    rintro (⟨-, u, tr, r, -, ⟨rfl, -⟩, hits⟩ | shown)
    · exact not_hits_nil hits
    · exact ctx.not_shown_nil f shown

/-- One part after another. -/
lemma andThen (h : Tracks ctx f P cs w w₁) (h' : Tracks ctx f Q ds w₁ w₂) :
    Tracks ctx f (P.andThen Q) (cs ++ ds) w w₂ where
  passes := by
    obtain ⟨tr, r, hP⟩ := h.passes
    obtain ⟨tr', r', hQ⟩ := h'.passes
    cases r with
    | through => exact ⟨tr ++ tr', r', .inl ⟨tr, tr', hP, hQ, rfl⟩⟩
    | left => exact ⟨tr, .left, .inr ⟨hP, rfl⟩⟩
  allows u' := by
    rw [h'.allows]
    constructor
    · rintro ⟨u₁, tr', h₁, hQ, le'⟩
      obtain ⟨u, tr, h₀, hP, le⟩ := (h.allows u₁).1 h₁
      refine ⟨u, tr ++ tr', h₀, .inl ⟨tr, tr', hP, hQ, rfl⟩, ?_⟩
      rw [unassignedAfter_append]
      exact le'.trans (unassignedAfter_mono le tr')
    · rintro ⟨u, tr, h₀, ⟨tr₁, tr₂, hP, hQ, rfl⟩ | ⟨-, left⟩, le⟩
      · rw [unassignedAfter_append] at le
        exact ⟨_, tr₂, (h.allows _).2 ⟨u, tr₁, h₀, hP, le_refl _⟩, hQ, le⟩
      · exact nomatch left
  found := by
    rw [ctx.shown_append, h'.found]
    constructor
    · rintro (first | ⟨watched, u₁, tr', r', h₁, hQ, hits⟩ | shown)
      · rcases h.found.1 first with before | ⟨watched, u, tr, r, h₀, hP, hits⟩ | shown
        · exact .inl before
        -- what is read early before is read early on the longer path, which goes on somehow
        · refine .inr (.inl ⟨watched, ?_⟩)
          cases r with
          | through =>
            obtain ⟨tr', r', hQ⟩ := h'.passes
            exact ⟨u, tr ++ tr', r', h₀, .inl ⟨tr, tr', hP, hQ, rfl⟩, hits_append.2 (.inl hits)⟩
          | left => exact ⟨u, tr, .left, h₀, .inr ⟨hP, rfl⟩, hits⟩
        · exact .inr (.inr (.inl shown))
      -- a path through the second part begins with one through the first
      · obtain ⟨u, tr, h₀, hP, le⟩ := (h.allows u₁).1 h₁
        exact .inr (.inl ⟨watched, u, tr ++ tr', r', h₀, .inl ⟨tr, tr', hP, hQ, rfl⟩,
          hits_append.2 (.inr (hits.mono le))⟩)
      · exact .inr (.inr (.inr shown))
    -- the other way round a path is split where the second part begins
    · rintro (before | ⟨watched, u, tr, r, h₀, ⟨tr₁, tr₂, hP, hQ, rfl⟩ | ⟨hP, -⟩, hits⟩ |
        shown | shown)
      · exact .inl (h.found.2 (.inl before))
      · rcases hits_append.1 hits with hits | hits
        · exact .inl (h.found.2 (.inr (.inl ⟨watched, u, tr₁, .through, h₀, hP, hits⟩)))
        · exact .inr (.inl ⟨watched, _, tr₂, r, (h.allows _).2 ⟨u, tr₁, h₀, hP, le_refl _⟩, hQ,
            hits⟩)
      · exact .inl (h.found.2 (.inr (.inl ⟨watched, u, tr, .left, h₀, hP, hits⟩)))
      · exact .inl (h.found.2 (.inr (.inr shown)))
      · exact .inr (.inr shown)

/-- Two parts of which one is gone through, both from one state. -/
lemma either (h : Tracks ctx f P cs w w₁) (h' : Tracks ctx f Q ds (w₁.resume w.state) w₂) :
    Tracks ctx f (P.either Q) (cs ++ ds) w (w₂.resume (w₁.state.join w₂.state)) where
  passes := h.passes.imp fun _ => Exists.imp fun _ => .inl
  allows u' := by
    rw [resume, FlowState.allows_join, h.allows, h'.allows]
    constructor
    · rintro (⟨u, tr, h₀, hP, le⟩ | ⟨u, tr, h₀, hQ, le⟩)
      · exact ⟨u, tr, h₀, .inl hP, le⟩
      · exact ⟨u, tr, h₀, .inr hQ, le⟩
    · rintro ⟨u, tr, h₀, hP | hQ, le⟩
      · exact .inl ⟨u, tr, h₀, hP, le⟩
      · exact .inr ⟨u, tr, h₀, hQ, le⟩
  found := by
    rw [ctx.shown_append]
    change f ∈ w₂.found ↔ _
    rw [h'.found]
    change f ∈ w₁.found ∨ (_ ∧ ∃ u tr r, w.state.Allows f.slot u ∧ _) ∨ _ ↔ _
    rw [h.found]
    constructor
    · rintro ((before | ⟨watched, u, tr, r, h₀, hP, hits⟩ | shown) |
        ⟨watched, u, tr, r, h₀, hQ, hits⟩ | shown)
      · exact .inl before
      · exact .inr (.inl ⟨watched, u, tr, r, h₀, .inl hP, hits⟩)
      · exact .inr (.inr (.inl shown))
      · exact .inr (.inl ⟨watched, u, tr, r, h₀, .inr hQ, hits⟩)
      · exact .inr (.inr (.inr shown))
    · rintro (before | ⟨watched, u, tr, r, h₀, hP | hQ, hits⟩ | shown | shown)
      · exact .inl (.inl before)
      · exact .inl (.inr (.inl ⟨watched, u, tr, r, h₀, hP, hits⟩))
      · exact .inr (.inl ⟨watched, u, tr, r, h₀, hQ, hits⟩)
      · exact .inl (.inr (.inr shown))
      · exact .inr (.inr shown)

/-- A walk that allows and has found the same. -/
lemma congr (h : Tracks ctx f P cs w w₁)
    (allows : ∀ u, w₂.state.Allows f.slot u ↔ w₁.state.Allows f.slot u)
    (found : f ∈ w₂.found ↔ f ∈ w₁.found) : Tracks ctx f P cs w w₂ where
  passes := h.passes
  allows u' := (allows u').trans (h.allows u')
  found := found.trans h.found

/-- Where no path forgets a variable, it is not unassigned later than before. -/
lemma allows_of_without (h : Tracks ctx f P cs w w₁) (keeps : P.Without (.forgets f.slot))
    {u : Bool} (later : w₁.state.Allows f.slot u) : w.state.Allows f.slot u := by
  obtain ⟨u₀, tr, h₀, hP, le⟩ := (h.allows u).1 later
  exact h₀.mono (le.trans (unassignedAfter_le (keeps tr .through hP)))

/-- Where no path assigns a variable, it stays unassigned. -/
lemma unset (h : Tracks ctx f P cs w w₁) (keeps : P.Without (.assigns f.slot))
    (unset : w.state.Unset f.slot) : w₁.state.Unset f.slot := by
  intro reachable
  obtain ⟨u, tr, h₀, hP, -⟩ := (h.allows false).1 ⟨reachable, fun h => absurd h Bool.false_ne_true⟩
  have after := unassignedAfter_eq_true (keeps tr .through hP)
  exact ((h.allows true).2 ⟨true, tr, unset.allows h₀ true, hP, after.ge⟩).2 rfl

/-- A part that may be skipped. What is assigned in it does not count afterwards. -/
lemma skip (h : Tracks ctx f P cs w w₁) (keeps : P.Without (.forgets f.slot)) :
    Tracks ctx f (P.either .idle) cs w (w₁.resume w.state) := by
  have skipped : Tracks ctx f .idle [] (w₁.resume w.state) (w₁.resume w.state) := idle _
  have both := h.either skipped
  rw [List.append_nil] at both
  refine both.congr (fun u => ?_) Iff.rfl
  change w.state.Allows f.slot u ↔ (w₁.state.join w.state).Allows f.slot u
  rw [FlowState.allows_join]
  exact ⟨.inr, fun later => later.elim (h.allows_of_without keeps) id⟩

/-- The rounds of a loop of which one is walked. It is enough if a round leaves nothing
that was not allowed before it. -/
lemma rounds (h : Tracks ctx f P cs w w₁) (h' : Tracks ctx f Q ds w₁ w₂)
    (through : P.Through)
    (back : ∀ u, w₂.state.Allows f.slot u → w.state.Allows f.slot u) :
    Tracks ctx f (.Rounds P Q) (cs ++ ds) w (w₂.resume w₁.state) := by
  -- what a whole round allows was allowed before it, so rounds can be taken together
  have round {u : Bool} {tr₁ tr₂ : List PathStep} (h₀ : w.state.Allows f.slot u)
      (hP : P tr₁ .through) (hQ : Q tr₂ .through) :
      w.state.Allows f.slot (unassignedAfter f.slot u (tr₁ ++ tr₂)) := by
    rw [unassignedAfter_append]
    exact back _ ((h'.allows _).2
      ⟨_, tr₂, (h.allows _).2 ⟨u, tr₁, h₀, hP, le_refl _⟩, hQ, le_refl _⟩)
  refine ⟨?_, fun u' => ?_, ?_⟩
  · obtain ⟨tr, r, hP⟩ := h.passes
    cases through tr r hP
    exact ⟨tr, .through, .done hP⟩
  · change w₁.state.Allows f.slot u' ↔ _
    rw [h.allows]
    constructor
    · rintro ⟨u, tr, h₀, hP, le⟩
      exact ⟨u, tr, h₀, .done hP, le⟩
    -- by induction on the rounds: all but the last can be left out
    · rintro ⟨u, tr, h₀, path, le⟩
      generalize ended : PathEnd.through = r at path
      induction path generalizing u with
      | done hP => exact ⟨u, _, h₀, hP, le⟩
      | again hP hQ rest ih =>
        rw [unassignedAfter_append] at le
        exact ih _ (round h₀ hP hQ) le ended
      | left => exact nomatch ended
  · rw [ctx.shown_append]
    change f ∈ w₂.found ↔ _
    rw [h'.found, h.found]
    constructor
    · rintro ((before | ⟨watched, u, tr, r, h₀, hP, hits⟩ | shown) |
        ⟨watched, u₁, tr₂, r, h₁, hQ, hits⟩ | shown)
      · exact .inl before
      · cases through tr r hP
        exact .inr (.inl ⟨watched, u, tr, .through, h₀, .done hP, hits⟩)
      · exact .inr (.inr (.inl shown))
      -- an early read in the body is on a path that goes round at least once
      · obtain ⟨u, tr₁, h₀, hP, le⟩ := (h.allows u₁).1 h₁
        have both : Hits ctx.captures f.slot f.line u (tr₁ ++ tr₂) :=
          hits_append.2 (.inr (hits.mono le))
        refine .inr (.inl ⟨watched, u, ?_⟩)
        cases r with
        | through =>
          exact ⟨tr₁ ++ tr₂ ++ tr₁, .through, h₀, .again hP hQ (.done hP),
            hits_append.2 (.inl both)⟩
        | left => exact ⟨tr₁ ++ tr₂, .left, h₀, .left hP hQ, both⟩
      · exact .inr (.inr (.inr shown))
    · rintro (before | ⟨watched, u, tr, r, h₀, path, hits⟩ | shown | shown)
      · exact .inl (.inl before)
      -- an early read in a later round is one in the first, from what that round allows
      · have condition {u : Bool} {tr : List PathStep} (h₀ : w.state.Allows f.slot u)
            (hP : P tr .through) : w₁.state.Allows f.slot (unassignedAfter f.slot u tr) :=
          (h.allows _).2 ⟨u, tr, h₀, hP, le_refl _⟩
        induction path generalizing u with
        | done hP => exact .inl (.inr (.inl ⟨watched, u, _, .through, h₀, hP, hits⟩))
        | again hP hQ rest ih =>
          rcases hits_append.1 hits with hits | hits
          · rcases hits_append.1 hits with hits | hits
            · exact .inl (.inr (.inl ⟨watched, u, _, .through, h₀, hP, hits⟩))
            · exact .inr (.inl ⟨watched, _, _, .through, condition h₀ hP, hQ, hits⟩)
          · exact ih _ (round h₀ hP hQ) hits
        | left hP hQ =>
          rcases hits_append.1 hits with hits | hits
          · exact .inl (.inr (.inl ⟨watched, u, _, .through, h₀, hP, hits⟩))
          · exact .inr (.inl ⟨watched, _, _, .left, condition h₀ hP, hQ, hits⟩)
      · exact .inl (.inr (.inr shown))
      · exact .inr (.inr shown)

/-- What is found in classes is found on the way. -/
lemma within {found : List Finding} (classes : f ∈ found ↔ ctx.Shown f cs)
    (h : Tracks ctx f P ds ⟨w.state, w.exit, w.found ++ found⟩ w₁) :
    Tracks ctx f P (cs ++ ds) w w₁ where
  passes := h.passes
  allows := h.allows
  found := by
    rw [h.found, ctx.shown_append, List.mem_append, classes]
    constructor
    · rintro ((before | shown) | path | shown)
      · exact .inl before
      · exact .inr (.inr (.inl shown))
      · exact .inr (.inl path)
      · exact .inr (.inr (.inr shown))
    · rintro (before | path | shown | shown)
      · exact .inl (.inl before)
      · exact .inr (.inl path)
      · exact .inl (.inr shown)
      · exact .inr (.inr shown)

end Tracks

end Walk

end Ember
