/-
What a class captures, and what a search for it finds.

* `Program.ClassDecl.Needs`: the slots that a class captures, the least solution of their
  equations;
* `Program.ClassDecl.NeedsAhead`: those that reach it only through classes that do not
  lead back. `Program.ClassDecl.needs_iff_of_straight`: these are all if no circle of
  different classes can be reached;
* `Captures.visit_sound`: a visit finds nothing else than what classes capture;
* `Captures.visit_complete`: what comes from ahead is found, whichever classes are being
  visited meanwhile;
* `Captures.of_inOrder`: any order of visits.
-/
import Mathlib
import Ember.Proofs.Flow.Walks

namespace Ember

open Program

/-! ### Captured slots -/

namespace Program

section Needs

variable (named : List (Slot × ClassDecl))

/-- A class mentions another one: its bodies read a slot that holds the other, or declare
it, or make it in place. -/
def ClassDecl.Mentions (c d : ClassDecl) : Prop :=
  ∃ m ∈ c.mentions, Captures.mentioned? named m = some d

/-- A class leads to another one, from mention to mention. -/
abbrev ClassDecl.LeadsTo : ClassDecl → ClassDecl → Prop :=
  Relation.ReflTransGen (ClassDecl.Mentions named)

/-- A class captures a slot from outside: its bodies read it, or a class that they mention
captures it, and the class does not declare it. -/
inductive ClassDecl.Needs : ClassDecl → Slot → Prop
  | read {c : ClassDecl} {s : Slot} (h : .read s ∈ c.mentions) (outside : s ∉ c.declared) :
      Needs c s
  | mention {c d : ClassDecl} {s : Slot} (h : c.Mentions named d) (later : Needs d s)
      (outside : s ∉ c.declared) : Needs c s

/-- A class captures a slot through classes each of which does not lead back to the one
before. -/
inductive ClassDecl.NeedsAhead : ClassDecl → Slot → Prop
  | read {c : ClassDecl} {s : Slot} (h : .read s ∈ c.mentions) (outside : s ∉ c.declared) :
      NeedsAhead c s
  | mention {c d : ClassDecl} {s : Slot} (h : c.Mentions named d)
      (ahead : ¬ClassDecl.LeadsTo named d c) (later : NeedsAhead d s)
      (outside : s ∉ c.declared) : NeedsAhead c s

/-- No circle of different classes can be reached from a class. -/
def ClassDecl.Straight (c : ClassDecl) : Prop :=
  ∀ d e, ClassDecl.LeadsTo named c d → d.Mentions named e → ClassDecl.LeadsTo named e d → e = d

variable {named : List (Slot × ClassDecl)} {c d : ClassDecl} {s : Slot}

/-- What a class captures ahead it captures. -/
lemma ClassDecl.NeedsAhead.needs (h : c.NeedsAhead named s) : c.Needs named s := by
  induction h with
  | read h outside => exact .read h outside
  | mention h _ _ outside later => exact .mention h later outside

/-- A class that a straight one leads to is straight. -/
lemma ClassDecl.Straight.of_leadsTo (h : c.Straight named) (leads : ClassDecl.LeadsTo named c d) :
    d.Straight named := fun d' e leads' => h d' e (leads.trans leads')

/-- Without circles everything comes from ahead. -/
lemma ClassDecl.needs_iff_of_straight (straight : c.Straight named) :
    c.NeedsAhead named s ↔ c.Needs named s := by
  refine ⟨ClassDecl.NeedsAhead.needs, fun h => ?_⟩
  induction h with
  | read h outside => exact .read h outside
  | @mention c d s h _ outside ih =>
    have later : d.NeedsAhead named s := ih (straight.of_leadsTo (.single h))
    by_cases back : ClassDecl.LeadsTo named d c
    · rwa [straight c d .refl h back] at later
    · exact .mention h back later outside

end Needs

end Program

/-! ### Notes of captures -/

/-- A look-up after an entry has been put. -/
lemma lookup_putByKey {κ β : Type} [DecidableEq κ] (k : κ) (v : β) (xs : List (κ × β)) (k' : κ) :
    (putByKey Prod.fst (k, v) xs).lookup k' = if k' = k then some v else xs.lookup k' := by
  have lookup_cons (k₀ : κ) (v₀ : β) (ys : List (κ × β)) :
      List.lookup k' ((k₀, v₀) :: ys) = if k' = k₀ then some v₀ else ys.lookup k' := by
    by_cases same : k' = k₀
    · rw [same, List.lookup_cons_self, if_pos rfl]
    · rw [List.lookup_cons, beq_false_of_ne same, if_neg same]
  induction xs with
  | nil => exact lookup_cons k v []
  | cons x xs ih =>
    obtain ⟨k₀, v₀⟩ := x
    rw [putByKey, lookup_cons]
    split
    · next same =>
      cases same
      rw [lookup_cons]
      split <;> rfl
    · next other =>
      rw [lookup_cons, ih]
      by_cases first : k' = k₀
      · rw [if_pos first, if_pos first, if_neg (first ▸ other)]
      · rw [if_neg first, if_neg first]

namespace Captures

variable {named : List (Slot × ClassDecl)} {U P : List ClassDecl} {K K' : Captures}
  {c d : ClassDecl} {s : Slot} {fuel : ℕ}

/-- Notes have been taken of a class. -/
def Knows (K : Captures) (c : ClassDecl) : Prop := (K.lookup c.receiver).isSome = true

/-- Later notes leave earlier ones as they are. -/
def Extends (K K' : Captures) : Prop :=
  ∀ r found, K.lookup r = some found → K'.lookup r = some found

/-- Captures extend themselves. -/
lemma Extends.refl (K : Captures) : K.Extends K := fun _ _ h => h

/-- What extends an extension extends. -/
lemma Extends.trans {K'' : Captures} (h : K.Extends K') (h' : K'.Extends K'') : K.Extends K'' :=
  fun r found known => h' r found (h r found known)

/-- A class that is known stays known. -/
lemma Extends.knows (h : K.Extends K') (known : K.Knows c) : K'.Knows c := by
  obtain ⟨found, known⟩ := Option.isSome_iff_exists.1 known
  exact Option.isSome_iff_exists.2 ⟨found, h _ _ known⟩

/-- Captures that are put down are found under the receiver of their class. -/
lemma lookup_put (K : Captures) (c : ClassDecl) (slots : List Slot) (r : Slot) :
    (K.put c slots).lookup r = if r = c.receiver then some slots else K.lookup r :=
  lookup_putByKey ..

/-- A class is known once its captures are put down. -/
lemma knows_put_self (K : Captures) (c : ClassDecl) (slots : List Slot) :
    (K.put c slots).Knows c := by
  rw [Knows, lookup_put, if_pos rfl]
  rfl

/-- The captures of a class are those put down. -/
lemma of_put_self (K : Captures) (c : ClassDecl) (slots : List Slot) :
    (K.put c slots).of c = slots := by
  rw [of, lookup_put, if_pos rfl]
  rfl

/-- Captures of one class do not make others known. -/
lemma knows_put_of_ne (K : Captures) (slots : List Slot) (h : d.receiver ≠ c.receiver) :
    (K.put c slots).Knows d ↔ K.Knows d := by
  rw [Knows, lookup_put, if_neg h, Knows]

/-- Captures of one class do not matter to others. -/
lemma of_put_of_ne (K : Captures) (slots : List Slot) (h : d.receiver ≠ c.receiver) :
    (K.put c slots).of d = K.of d := by
  rw [of, lookup_put, if_neg h, of]

/-- Notes on a class that has not been noted leave the others as they are. -/
lemma extends_put (unknown : ¬K.Knows c) (slots : List Slot) : K.Extends (K.put c slots) := by
  intro r found known
  have other : r ≠ c.receiver := by
    rintro rfl
    exact unknown (Option.isSome_iff_exists.2 ⟨found, known⟩)
  rw [lookup_put, if_neg other, known]

/-! ### One visit -/

/-- What is made of a mention in the course of a visit. -/
def note (named : List (Slot × ClassDecl)) (fuel : ℕ) (p : Captures × List Slot) (m : Mention) :
    Captures × List Slot :=
  match mentioned? named m with
  | none => (p.1, addSlots p.2 (slotsRead m))
  | some d =>
    (visit named fuel d p.1,
      addSlots (addSlots p.2 (slotsRead m)) ((visit named fuel d p.1).of d))

/-- A class is visited once: what is found is put down, and nothing until then. -/
lemma visit_succ (named : List (Slot × ClassDecl)) (fuel : ℕ) (c : ClassDecl) (K : Captures) :
    visit named (fuel + 1) c K =
      if (K.lookup c.receiver).isSome then K
      else
        let p := c.mentions.foldl (note named fuel) (K.put c [], [])
        p.1.put c (p.2.filter fun s => s ∉ c.declared) := by
  rw [visit]
  split <;> rfl

/-- Classes with receivers of their own that mention no others. -/
structure Family (named : List (Slot × ClassDecl)) (U : List ClassDecl) : Prop where
  apart : ∀ c ∈ U, ∀ d ∈ U, d.receiver = c.receiver → d = c
  mentioned : ∀ c ∈ U, ∀ d, c.Mentions named d → d ∈ U

/-- Nothing is noted but what the classes capture. -/
def Sound (named : List (Slot × ClassDecl)) (U : List ClassDecl) (K : Captures) : Prop :=
  ∀ c ∈ U, ∀ s ∈ K.of c, c.Needs named s

/-- Captures stay sound if what is put down is captured. -/
lemma Sound.put (family : Family named U) (hc : c ∈ U) (h : K.Sound named U) {slots : List Slot}
    (own : ∀ s ∈ slots, c.Needs named s) : (K.put c slots).Sound named U := by
  intro d hd s hs
  by_cases same : d.receiver = c.receiver
  · obtain rfl := family.apart c hc d hd same
    rw [of_put_self] at hs
    exact own s hs
  · rw [of_put_of_ne K slots same] at hs
    exact h d hd s hs

/-- A visit notes nothing but what the classes capture. -/
lemma visit_sound (family : Family named U) :
    ∀ fuel {c : ClassDecl} {K : Captures}, c ∈ U → K.Sound named U →
      (visit named fuel c K).Sound named U
  | 0, _, _, _, h => h
  | fuel + 1, c, K, hc, h => by
    rw [visit_succ]
    split
    · exact h
    -- no set holds more than is captured, nor do the slots gathered so far
    · let Fine (p : Captures × List Slot) : Prop :=
        p.1.Sound named U ∧ ∀ s ∈ p.2, s ∉ c.declared → c.Needs named s
      have fine : Fine (c.mentions.foldl (note named fuel) (K.put c [], [])) := by
        refine List.foldlRecOn c.mentions (note named fuel)
          ⟨h.put family hc fun s hs => absurd hs List.not_mem_nil,
            fun s hs => absurd hs List.not_mem_nil⟩ fun p ⟨sound, reads⟩ m hm => ?_
        have own : ∀ s ∈ addSlots p.2 (slotsRead m), s ∉ c.declared → c.Needs named s := by
          intro s hs outside
          rcases mem_addSlots.1 hs with hs | hs
          · exact reads s hs outside
          · cases m with
            | read t =>
              cases List.mem_singleton.1 hs
              exact .read hm outside
            | made _ | declares _ => exact absurd hs List.not_mem_nil
        cases known : mentioned? named m with
        | none =>
          simp only [note, known]
          exact ⟨sound, own⟩
        | some d =>
          have mentions : c.Mentions named d := ⟨m, hm, known⟩
          have sound' : (visit named fuel d p.1).Sound named U :=
            visit_sound family fuel (family.mentioned c hc d mentions) sound
          simp only [note, known]
          refine ⟨sound', fun s hs outside => ?_⟩
          rcases mem_addSlots.1 hs with hs | hs
          · exact own s hs outside
          -- the mentioned class captures it, and it is declared outside of this one too
          · exact .mention mentions (sound' d (family.mentioned c hc d mentions) s hs) outside
      refine fine.1.put family hc fun s hs => ?_
      obtain ⟨hs, outside⟩ := List.mem_filter.1 hs
      exact fine.2 s hs (of_decide_eq_true outside)

/-- All that comes from ahead is noted of each class that notes have been taken of, those
aside that are being visited. -/
def Complete (named : List (Slot × ClassDecl)) (U P : List ClassDecl) (K : Captures) : Prop :=
  ∀ c ∈ U, K.Knows c → c ∉ P → ∀ s, c.NeedsAhead named s → s ∈ K.of c

/-- The receivers of the classes that no notes have been taken of. -/
def unknown (U : List ClassDecl) (K : Captures) : Finset Slot :=
  (U.map ClassDecl.receiver).toFinset.filter fun r => (K.lookup r).isNone

/-- Where captures are extended, fewer classes are unknown. -/
lemma Extends.unknown_subset (h : K.Extends K') : unknown U K' ⊆ unknown U K := by
  intro r hr
  obtain ⟨own, none⟩ := Finset.mem_filter.1 hr
  refine Finset.mem_filter.2 ⟨own, ?_⟩
  cases known : K.lookup r with
  | none => rfl
  | some found =>
    rw [h r found known] at none
    exact none

/-- A class whose captures are put down is unknown no more. -/
lemma card_unknown_put_lt (hc : c ∈ U) (new : ¬K.Knows c) (slots : List Slot) :
    (unknown U (K.put c slots)).card < (unknown U K).card := by
  refine Finset.card_lt_card ⟨(extends_put new slots).unknown_subset, fun sub => ?_⟩
  have before : c.receiver ∈ unknown U K := by
    refine Finset.mem_filter.2 ⟨List.mem_toFinset.2 (List.mem_map_of_mem hc), ?_⟩
    cases noted : K.lookup c.receiver with
    | none => rfl
    | some slots => exact absurd (Option.isSome_iff_exists.2 ⟨slots, noted⟩) new
  have after := (Finset.mem_filter.1 (sub before)).2
  rw [lookup_put, if_pos rfl] at after
  exact nomatch after

/-- What a visit of a class brings, while the classes in `P` are being visited. -/
structure Visited (named : List (Slot × ClassDecl)) (U P : List ClassDecl) (c : ClassDecl)
    (K K' : Captures) : Prop where
  extends_ : K.Extends K'
  knows : K'.Knows c
  complete : K'.Complete named U P

/-- What the mentions of a class bring, if the visits of classes bring what they should. -/
lemma foldl_note (family : Family named U) (hc : c ∈ U)
    (visits : ∀ {d K}, d ∈ U → c.Mentions named d → (unknown U K).card < fuel →
      Complete named U P K → Visited named U P d K (visit named fuel d K))
    {ms : List Mention} (sub : ∀ m ∈ ms, m ∈ c.mentions) {p : Captures × List Slot}
    (room : (unknown U p.1).card < fuel) (complete : p.1.Complete named U P) :
    let q := ms.foldl (note named fuel) p
    p.1.Extends q.1 ∧ q.1.Complete named U P ∧ p.2 ⊆ q.2 ∧
      ∀ m ∈ ms, slotsRead m ⊆ q.2 ∧
        ∀ d, mentioned? named m = some d → d ∉ P → ∀ s, d.NeedsAhead named s → s ∈ q.2 := by
  induction ms generalizing p with
  | nil =>
    exact ⟨.refl _, complete, List.Subset.refl _, fun m hm => absurd hm List.not_mem_nil⟩
  | cons m ms ih =>
    obtain ⟨own, others⟩ := List.forall_mem_cons.1 sub
    -- one mention reads its slots, and brings what the class that it names needs from ahead
    have step : p.1.Extends (note named fuel p m).1 ∧
        (note named fuel p m).1.Complete named U P ∧ p.2 ⊆ (note named fuel p m).2 ∧
          slotsRead m ⊆ (note named fuel p m).2 ∧
            ∀ d, mentioned? named m = some d → d ∉ P → ∀ s, d.NeedsAhead named s →
              s ∈ (note named fuel p m).2 := by
      cases known : mentioned? named m with
      | none =>
        simp only [note, known]
        exact ⟨.refl _, complete, fun s hs => mem_addSlots.2 (.inl hs),
          fun s hs => mem_addSlots.2 (.inr hs), fun d same => nomatch same⟩
      | some d =>
        have hd : d ∈ U := family.mentioned c hc d ⟨m, own, known⟩
        have visited := visits hd ⟨m, own, known⟩ room complete
        simp only [note, known]
        refine ⟨visited.extends_, visited.complete,
          fun s hs => mem_addSlots.2 (.inl (mem_addSlots.2 (.inl hs))),
          fun s hs => mem_addSlots.2 (.inl (mem_addSlots.2 (.inr hs))), fun d' same => ?_⟩
        cases same
        exact fun free s needs =>
          mem_addSlots.2 (.inr (visited.complete d hd visited.knows free s needs))
    obtain ⟨extends₁, complete₁, reads₁, read, ahead⟩ := step
    obtain ⟨extends₂, complete₂, reads₂, rest⟩ := ih others
      ((Finset.card_le_card extends₁.unknown_subset).trans_lt room) complete₁
    refine ⟨extends₁.trans extends₂, complete₂, List.Subset.trans reads₁ reads₂,
      List.forall_mem_cons.2 ⟨⟨List.Subset.trans read reads₂, fun d same free s needs => ?_⟩, rest⟩⟩
    exact reads₂ (ahead d same free s needs)

/-- A visit finds all that comes from ahead, while classes that lead to the visited one
are being visited. A class that does not lead back is none of these. -/
lemma visit_complete (family : Family named U) :
    ∀ fuel {c : ClassDecl} {K : Captures} {P : List ClassDecl}, c ∈ U →
      (∀ p ∈ P, ClassDecl.LeadsTo named p c) → (unknown U K).card < fuel →
        K.Complete named U P → Visited named U P c K (visit named fuel c K)
  | 0, _, _, _, _, _, room, _ => absurd room (Nat.not_lt_zero _)
  | fuel + 1, c, K, P, hc, leads, room, complete => by
    rw [visit_succ]
    split
    · next known => exact ⟨.refl K, known, complete⟩
    · next new =>
      -- the noted empty set makes room for the visits within, and is not complete yet
      have room₁ := card_unknown_put_lt hc new []
      have complete₁ : (K.put c []).Complete named U (c :: P) := by
        intro d hd known free
        have apart : d.receiver ≠ c.receiver := fun same =>
          List.ne_of_not_mem_cons free (family.apart c hc d hd same)
        rw [of_put_of_ne K [] apart]
        exact complete d hd ((knows_put_of_ne K [] apart).1 known)
          (List.not_mem_of_not_mem_cons free)
      have stack : ∀ p ∈ c :: P, ClassDecl.LeadsTo named p c :=
        List.forall_mem_cons.2 ⟨.refl, leads⟩
      obtain ⟨extends₂, complete₂, -, found⟩ := foldl_note family hc
        (fun hd mentions room complete => visit_complete family fuel hd
          (fun p hp => (stack p hp).tail mentions) room complete)
        (fun m hm => hm) (p := (K.put c [], [])) (Nat.lt_of_lt_of_le room₁ (Nat.le_of_lt_succ room))
        complete₁
      dsimp only
      generalize c.mentions.foldl (note named fuel) (K.put c [], []) = q at *
      -- the set is complete now, be it of this class or of one finished meanwhile
      refine ⟨fun r slots known => ?_, knows_put_self .., fun d hd known free s needs => ?_⟩
      · have other : r ≠ c.receiver := by
          rintro rfl
          exact new (Option.isSome_iff_exists.2 ⟨slots, known⟩)
        rw [lookup_put, if_neg other]
        exact extends₂ r slots (extends_put new [] r slots known)
      · by_cases same : d = c
        · subst same
          rw [of_put_self]
          cases needs with
          | read h outside =>
            exact List.mem_filter.2
              ⟨(found _ h).1 (List.mem_singleton_self _), decide_eq_true outside⟩
          | mention h ahead later outside =>
            obtain ⟨m, hm, known⟩ := h
            refine List.mem_filter.2 ⟨(found m hm).2 _ known ?_ s later, decide_eq_true outside⟩
            -- if the mentioned class led back, the slot would not come from ahead
            exact fun back => ahead (stack _ back)
        · have apart : d.receiver ≠ c.receiver := fun eq => same (family.apart c hc d hd eq)
          rw [of_put_of_ne _ _ apart]
          exact complete₂ d hd ((knows_put_of_ne _ _ apart).1 known)
            (List.not_mem_cons_of_ne_of_not_mem same free) s needs

/-! ### Visits in an order -/

/-- The captures that visits in an order find. -/
def inOrder (named : List (Slot × ClassDecl)) (fuel : ℕ) (order : List ClassDecl) : Captures :=
  order.foldl (fun K c => visit named fuel c K) []

/-- Whatever the order of the visits, what is found is captured. -/
lemma sound_inOrder (family : Family named U) {order : List ClassDecl} (sub : order ⊆ U) :
    (inOrder named fuel order).Sound named U :=
  List.foldlRecOn order (fun K c => visit named fuel c K)
    (fun _ _ _ hs => absurd hs List.not_mem_nil)
    fun _ sound _ hc => visit_sound family fuel (sub hc) sound

/-- After visits with enough fuel nothing that is captured ahead is missing. -/
lemma complete_foldl (family : Family named U) (room : U.length < fuel) {order : List ClassDecl}
    (sub : order ⊆ U) (complete : K.Complete named U []) :
    let K' := order.foldl (fun K c => visit named fuel c K) K
    K.Extends K' ∧ K'.Complete named U [] ∧ ∀ c ∈ order, K'.Knows c := by
  induction order generalizing K with
  | nil => exact ⟨.refl K, complete, fun c hc => absurd hc List.not_mem_nil⟩
  | cons c order ih =>
    obtain ⟨hc, rest⟩ := List.cons_subset.1 sub
    have few : (unknown U K).card < fuel :=
      calc (unknown U K).card ≤ (U.map ClassDecl.receiver).toFinset.card :=
            Finset.card_filter_le _ _
        _ ≤ (U.map ClassDecl.receiver).length := List.toFinset_card_le _
        _ = U.length := List.length_map _
        _ < fuel := room
    have visited := visit_complete family fuel hc (fun p hp => absurd hp List.not_mem_nil) few
      complete
    obtain ⟨extends_, complete', known⟩ := ih rest visited.complete
    exact ⟨visited.extends_.trans extends_, complete',
      List.forall_mem_cons.2 ⟨extends_.knows visited.knows, known⟩⟩

/-- Whatever class is visited first: what is found of a class that is visited lies between
what comes from ahead and what the class captures. -/
lemma of_inOrder (family : Family named U) (room : U.length < fuel) {order : List ClassDecl}
    (sub : order ⊆ U) (hc : c ∈ order) (s : Slot) :
    (c.NeedsAhead named s → s ∈ (inOrder named fuel order).of c) ∧
      (s ∈ (inOrder named fuel order).of c → c.Needs named s) := by
  have nothing : Complete named U [] [] := fun _ _ known => nomatch known
  obtain ⟨-, complete, known⟩ := complete_foldl family room sub nothing
  exact ⟨complete c (sub hc) (known c hc) List.not_mem_nil s,
    sound_inOrder family sub c (sub hc) s⟩

end Captures

end Ember
