/-
Where the parts of a block and of a class stand once their frames are there.

* `Stmt.innerRoles`: the slots declared within a statement, the variable that it
  declares aside;
* `Layers.Placed.statements`, `Layers.Placed.classes`: in the frame of a block
  stand its statements and its classes;
* `Layers.Placed.body`: in the frame of the parameters stands the body of a method;
* `ClassObject.Fits.static`, `Instance.Fits.method`: in the frame of a class stand
  its static methods, in that of an instance its constructors and methods.
-/
import Mathlib
import Ember.Proofs.Run.Layers
import Ember.Proofs.Scope.Allotment

namespace Ember

open Program

/-! ### Parts of blocks -/

namespace Program

/-- The slots declared within a statement, the variable that it declares aside. -/
def Stmt.innerRoles : Stmt → List (Slot × SlotRole)
  | .var _ init _ => match init with | none => [] | some e => e.roles
  | .block body => body.roles
  | .branch condition yes no line => (Stmt.branch condition yes no line).roles
  | .loop condition body line => (Stmt.loop condition body line).roles
  | .ret value line => (Stmt.ret value line).roles
  | .eval e => e.roles

/-- The slots of a statement are that of its variable and those within. -/
lemma Stmt.roles_eq (s : Stmt) : s.roles = s.own.map (fun x => (x, .var)) ++ s.innerRoles := by
  cases s with
  | var slot init line => cases init <;> rfl
  | block _ | branch _ _ _ _ | loop _ _ _ | ret _ _ | eval _ => rfl

/-- The slots declared within statements, their own variables aside. -/
def stmtInnerRoles (ss : List Stmt) : List (Slot × SlotRole) := ss.flatMap Stmt.innerRoles

/-- A slot is declared among statements by them or within them. -/
lemma count_stmtRoles (ss : List Stmt) (x : Slot) :
    ((stmtRoles ss).map Prod.fst).count x =
      (ss.flatMap Stmt.own).count x + ((stmtInnerRoles ss).map Prod.fst).count x := by
  induction ss with
  | nil => rfl
  | cons s ss ih =>
    have own : (s.own.map (fun x => (x, SlotRole.var))).map Prod.fst = s.own := by
      rw [List.map_map]
      exact List.map_id _
    rw [stmtRoles, Stmt.roles_eq]
    simp only [stmtInnerRoles, List.flatMap_cons, List.map_append, List.count_append, own] at ih ⊢
    omega

/-- What is declared within statements is among their slots. -/
lemma stmtInnerRoles_subset (ss : List Stmt) : stmtInnerRoles ss ⊆ stmtRoles ss := by
  induction ss with
  | nil => exact List.Subset.refl _
  | cons s ss ih =>
    rw [stmtRoles, Stmt.roles_eq]
    intro r hr
    rw [stmtInnerRoles, List.flatMap_cons, List.mem_append] at hr
    simp only [List.mem_append]
    exact hr.imp .inr (@ih r)

/-- The variables of statements are among their slots. -/
lemma own_subset_stmtRoles (ss : List Stmt) {s : Slot} (h : s ∈ ss.flatMap Stmt.own) :
    (s, .var) ∈ stmtRoles ss := by
  induction ss with
  | nil => exact absurd h List.not_mem_nil
  | cons t ss ih =>
    rw [stmtRoles, Stmt.roles_eq]
    rw [List.flatMap_cons, List.mem_append] at h
    simp only [List.mem_append, List.mem_map]
    exact h.imp (fun h => .inl ⟨s, h, rfl⟩) ih

/-- The slots of a class are among those of the classes of its scope. -/
lemma roles_sublist_classRoles {c : Slot × ClassDecl} {cs : List (Slot × ClassDecl)} (h : c ∈ cs) :
    c.2.roles.Sublist (classRoles cs) := by
  induction cs with
  | nil => exact absurd h List.not_mem_nil
  | cons d cs ih =>
    rw [classRoles]
    cases h with
    | head => exact List.sublist_append_left _ _
    | tail _ h => exact (ih h).trans (List.sublist_append_right _ _)

end Program

/-- The slots that the frame of a block binds are declared by the block. -/
lemma block_roles_subset (b : Block) : (Layer.block b).roles ⊆ b.roles := by
  intro r hr
  obtain ⟨ss, names, cs⟩ := b
  simp only [Layer.roles, Block.vars, Block.roles, List.mem_append, List.mem_map] at hr ⊢
  rcases hr with ⟨s, hs, rfl⟩ | hc
  · exact .inr (.inr (own_subset_stmtRoles ss hs))
  · exact .inl hc

section Placing

variable {all : List (Slot × SlotRole)} {Λ : Layers} {chain : List Address} {a : Address}

/-- The statements of a block stand in its frame. -/
lemma Layers.Placed.statements {b : Block} (placed : Λ.Placed all chain (b.Closed false) b.roles)
    (at_a : Λ.at? a = some (.block b)) :
    Λ.Placed all (a :: chain) (fun v => stmtClosed false v b.statements)
      (stmtInnerRoles b.statements) := by
  obtain ⟨ss, names, cs⟩ := b
  refine placed.enter at_a (fun closed => stmtClosed_mono (fun x hx => ?_) ss closed.1)
    (fun x => ?_) fun r hr => ?_
  · rw [Layer.slots_block, List.append_assoc]
    exact List.mem_append_right _ hx
  · rw [Layer.slots_block]
    change _ ≤ (Block.slots ⟨ss, names, cs⟩).count x
    rw [Block.slots_eq]
    have count := count_stmtRoles ss x
    simp only [Block.vars, Block.classSlots, stmtSlots, List.count_append] at count ⊢
    omega
  · rw [Block.roles]
    exact List.mem_append_right _ (List.mem_append_right _ (stmtInnerRoles_subset ss hr))

/-- The classes of a block stand in its frame. -/
lemma Layers.Placed.classes {b : Block} (placed : Λ.Placed all chain (b.Closed false) b.roles)
    (at_a : Λ.at? a = some (.block b)) {c : Slot × ClassDecl} (hc : c ∈ b.classes) :
    Λ.Placed all (a :: chain) (c.2.Closed false) c.2.roles := by
  obtain ⟨ss, names, cs⟩ := b
  have sub := roles_sublist_classRoles hc
  refine placed.enter at_a (fun closed => ?_) (fun x => ?_) fun r hr => ?_
  · rw [Layer.slots_block, List.append_assoc]
    exact classClosed_iff.1 closed.2 c hc
  · rw [Layer.slots_block]
    change _ ≤ (Block.slots ⟨ss, names, cs⟩).count x
    rw [Block.slots_eq]
    have count := count_stmtRoles ss x
    have inner : _ ≤ (innerSlots cs).count x := (sub.map Prod.fst).count_le x
    simp only [Block.vars, Block.classSlots, stmtSlots, List.count_append] at count ⊢
    omega
  · rw [Block.roles]
    exact List.mem_append_right _ (List.mem_append_left _ (sub.subset hr))

/-- A method's body stands in the frame of its parameters. -/
lemma Layers.Placed.body {m : Method} (placed : Λ.Placed all chain m.Closed m.roles)
    (at_a : Λ.at? a = some (.params m)) :
    Λ.Placed all (a :: chain) (m.body.Closed false) m.body.roles := by
  refine placed.enter at_a (fun closed => ?_) (fun x => ?_) (List.subset_append_right _ _)
  · rw [Layer.slots_params]
    exact closed
  · rw [Layer.slots_params]
    simp only [Method.roles, List.map_append, List.map_map, List.count_append, Function.comp_def]
    simp

/-- The static methods of a class stand in its frame. -/
lemma ClassObject.Fits.static {c : ClassObject} (fits : c.Fits all Λ) {m : Method}
    (hm : m ∈ c.decl.staticMethods) : Λ.Placed all c.statics.chain m.Closed m.roles := by
  obtain ⟨at_own, placed⟩ := fits
  obtain ⟨⟨name, line, receiver, staticReceiver, constructors, staticMethods, methods, fields,
    staticFields⟩, statics⟩ := c
  have sub := roles_sublist_methodRoles hm
  refine placed.enter at_own (fun closed => ?_) (fun x => ?_) fun r hr => ?_
  · rw [Layer.slots_statics]
    exact methodClosed_iff.1 closed.2.1 m hm
  · rw [Layer.slots_statics]
    have inner : _ ≤ (methodSlots staticMethods).count x := (sub.map Prod.fst).count_le x
    change _ ≤ (ClassDecl.slots _).count x
    rw [ClassDecl.slots_eq]
    simp only [ClassDecl.staticSlots, List.count_append, List.count_cons]
    omega
  · simp only [ClassDecl.roles, List.mem_append]
    exact .inr (.inr (.inr (.inr (.inl (sub.subset hr)))))

/-- The constructors of a class and the methods of its instances stand in the
frame of an instance. -/
lemma Instance.Fits.method {i : Instance} (fits : i.Fits all Λ) {m : Method}
    (hm : m ∈ i.cls.decl.constructors ∨ m ∈ i.cls.decl.methods) :
    Λ.Placed all i.env.chain m.Closed m.roles := by
  obtain ⟨⟨at_statics, placed⟩, outer, at_own⟩ := fits
  obtain ⟨⟨⟨name, line, receiver, staticReceiver, constructors, staticMethods, methods, fields,
    staticFields⟩, statics⟩, env⟩ := i
  dsimp only at at_statics placed outer at_own hm
  have sub : m.roles.Sublist (methodRoles constructors ++ (methodRoles staticMethods ++
      methodRoles methods)) := by
    rcases hm with hm | hm
    · exact (roles_sublist_methodRoles hm).trans (List.sublist_append_left _ _)
    · exact (roles_sublist_methodRoles hm).trans
        ((List.sublist_append_right _ _).trans (List.sublist_append_right _ _))
  have own := Layer.slots_fields ⟨name, line, receiver, staticReceiver, constructors, staticMethods,
    methods, fields, staticFields⟩
  rw [Layer.slots] at own
  -- the frame of the class comes first, then that of the instance within it
  have both : Λ.Placed all statics.chain
      (fun v => m.Closed ((receiver :: fields.map Prod.fst) ++ v))
      ((Layer.fields ⟨name, line, receiver, staticReceiver, constructors, staticMethods, methods,
        fields, staticFields⟩).roles ++ m.roles) := by
    refine placed.enter at_statics (fun closed => ?_) (fun x => ?_) fun r hr => ?_
    · rw [Layer.slots_statics]
      rcases hm with hm | hm
      · exact methodClosed_iff.1 closed.1 m hm
      · exact methodClosed_iff.1 closed.2.2 m hm
    · rw [Layer.slots_statics]
      have inner := (sub.map Prod.fst).count_le x
      change _ ≤ (ClassDecl.slots _).count x
      rw [ClassDecl.slots_eq, List.map_append, own]
      simp only [methodSlots, ClassDecl.staticSlots, ClassDecl.instanceSlots, List.map_append,
        List.count_append, List.count_cons] at inner ⊢
      omega
    · simp only [Layer.roles, ClassDecl.roles, List.cons_append, List.nil_append, List.mem_cons,
        List.mem_append] at hr ⊢
      rcases hr with rfl | hf | hm
      · exact .inl rfl
      · exact .inr (.inr (.inr (.inl hf)))
      · have := sub.subset hm
        simp only [List.mem_append] at this
        exact .inr (.inr (.inr (.inr this)))
  have chain : env.chain = env.own :: statics.chain := by
    rw [Environment.chain, outer]
  rw [chain]
  refine both.enter at_own (fun closed => ?_) (fun x => ?_) (List.subset_append_right _ _)
  · rw [Layer.slots_fields]
    exact closed
  · rw [List.map_append, List.count_append, ← Layer.slots]

end Placing

end Ember
