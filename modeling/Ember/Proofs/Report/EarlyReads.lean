/-
The pass over early reads as it goes: it reports an early read when it comes upon it,
unless it has reported one of that slot on that line before.

* `ReadLog`: the early reads reported so far, and all reports of whatever kind;
* `Tour`: a walk over a body that reports what it finds. While it sums a body up, it takes
  down what the body requires instead;
* `Expr.tour`, `Stmt.tour`, `ClassDecl.reportReads` and their companions: the pass;
* `Walk.told`: the tour that has come as far as a walk, and has reported what the walk has
  found; `Expr.tour_told` and its companions: tours go on as walks do;
* `checkEarlyReads_adds`: the pass adds the early reads of a program.
-/
import Mathlib
import Ember.Proofs.Flow.Walks
import Ember.Proofs.Report.Returns

namespace Ember

open Program

/-! ### Reports of early reads -/

/-- The early reads that have been reported, and the reports of every kind. -/
structure ReadLog where
  reported : List (Line × Slot)
  bag : List Diagnostic

namespace ReadLog

variable (names : List (Slot × String))

/-- Reports an early read, unless there was one of this slot on this line. -/
def report (log : ReadLog) (f : Finding) : ReadLog :=
  if log.reported.contains (f.line, f.slot) then log
  else ⟨(f.line, f.slot) :: log.reported, log.bag ++ [f.diagnostic names]⟩

/-- Reports early reads one by one. -/
def reportAll (log : ReadLog) (fs : List Finding) : ReadLog := fs.foldl (report names) log

/-- What is reported of findings is reported of one part after the other. -/
lemma reportAll_append (log : ReadLog) (fs gs : List Finding) :
    log.reportAll names (fs ++ gs) = (log.reportAll names fs).reportAll names gs :=
  List.foldl_append

/-- Of the early reads of a slot on a line only the first is reported, and the reports
come after those that were made before. -/
lemma bag_reportAll (log : ReadLog) (fs : List Finding) :
    (log.reportAll names fs).bag =
      log.bag ++ (distinctFindings log.reported fs).map (Finding.diagnostic names) := by
  induction fs generalizing log with
  | nil => exact (List.append_nil _).symm
  | cons f fs ih =>
    change ((log.report names f).reportAll names fs).bag = _
    rw [ih, report, distinctFindings]
    simp only [List.contains_iff_mem]
    split
    · rfl
    · rw [List.map_cons, List.append_assoc]
      rfl

end ReadLog

/-! ### Tours -/

/-- A walk over a body that reports what it finds. -/
structure Tour where
  state : FlowState
  exit : FlowState
  /-- What a body that is summed up reads before it assigns it. -/
  requires : List Slot
  log : ReadLog

namespace Tour

variable (names : List (Slot × String)) (ctx : FlowContext) (t : Tour)

/-- A tour that has not begun. -/
def start (entry : List Slot) (log : ReadLog) : Tour := ⟨⟨entry, true⟩, .unreachable, [], log⟩

/-- Comes upon an early read. -/
def find (f : Finding) : Tour :=
  if ctx.inDepth then { t with log := t.log.report names f }
  else { t with requires := addSlots t.requires [f.slot] }

/-- Reads a slot on a line. -/
def read (s : Slot) (line : Line) : Tour :=
  if !t.state.reachable || s ∈ t.state.assigned then t
  else if s ∈ ctx.fields then t.find names ctx ⟨.field, s, line⟩
  else if s ∈ ctx.locals then t.find names ctx ⟨.variable, s, line⟩
  else t

/-- Reads slots on a line one by one. -/
def readAll (slots : List Slot) (line : Line) : Tour :=
  slots.foldl (fun t s => t.read names ctx s line) t

/-- A class value comes about. -/
def produce (c : ClassDecl) (line : Line) : Tour :=
  t.readAll names ctx (ctx.captures.of c) line

/-- Notes an assignment. -/
def assign (s : Slot) : Tour := { t with state := t.state.assign s }

/-- A method is called on the body's own instance. -/
def callOwn (method : Selector) (line : Line) : Tour :=
  match ctx.summaries.lookup method with
  | none => t
  | some summary =>
    let t := t.readAll names ctx summary.requires line
    if t.state.reachable then
      { t with state := { t.state with assigned := addSlots t.state.assigned summary.assigns } }
    else t

/-- Goes on from another state. -/
def resume (st : FlowState) : Tour := { t with state := st }

/-- Leaves the body. -/
def leave : Tour :=
  { t with exit := t.exit.join t.state, state := { t.state with reachable := false } }

/-- What a finished tour has found out about its body. -/
def summary : Summary :=
  let exit := t.exit.join t.state
  let assigned := if exit.reachable then exit.assigned else ctx.fields
  ⟨ctx.fields.filter fun f => f ∈ t.requires, ctx.fields.filter fun f => f ∈ assigned⟩

end Tour

namespace Program

variable (names : List (Slot × String))

mutual

/-- The tour of an expression. -/
def Expr.tour (ctx : FlowContext) : Expr → Tour → Tour
  | .assign target value _, t => (value.tour ctx t).assign target
  | .call receiver name arguments line, t =>
    let t := receiver.tour ctx t
    let t := match arguments with
      | none => t
      | some es => exprTour ctx es t
    match receiver with
    | .read s _ =>
      if ctx.receiver = some s then t.callOwn names ctx ⟨name, arguments.map List.length⟩ line
      else t
    | _ => t
  | .literal _ _, t => t
  | .read s line, t =>
    let t := t.read names ctx s line
    match ctx.named.lookup s with
    | none => t
    | some c => t.produce names ctx c line
  | .logical _ left right _, t =>
    let t := left.tour ctx t
    (right.tour ctx t).resume t.state
  | .cls decl, t =>
    let t := if ctx.inDepth then { t with log := decl.reportReads ctx t.log } else t
    t.produce names ctx decl decl.line

/-- The tour of expressions, from left to right. -/
def exprTour (ctx : FlowContext) : List Expr → Tour → Tour
  | [], t => t
  | e :: es, t => exprTour ctx es (e.tour ctx t)

/-- The tour of a statement. -/
def Stmt.tour (ctx : FlowContext) : Stmt → Tour → Tour
  | .block body, t => body.tour ctx t
  | .branch condition yes no _, t =>
    let t := condition.tour ctx t
    let first := yes.tour ctx t
    let second := match no with
      | none => first.resume t.state
      | some s => s.tour ctx (first.resume t.state)
    second.resume (first.state.join second.state)
  | .loop condition body _, t =>
    let t := condition.tour ctx t
    (body.tour ctx t).resume t.state
  | .var s init _, t =>
    match init with
    | none => t.resume (t.state.forget s)
    | some e => (e.tour ctx t).assign s
  | .ret value _, t =>
    match value with
    | none => t.leave
    | some e => (e.tour ctx t).leave
  | .eval e, t => e.tour ctx t

/-- The tour of statements, in order. -/
def stmtTour (ctx : FlowContext) : List Stmt → Tour → Tour
  | [], t => t
  | s :: ss, t => stmtTour ctx ss (s.tour ctx t)

/-- The tour of a block. -/
def Block.tour (ctx : FlowContext) : Block → Tour → Tour
  | ⟨statements, _, classes⟩, t =>
    stmtTour ctx statements
      (if ctx.inDepth then { t with log := reportClassReads ctx classes t.log } else t)

/-- Reports the early reads in the classes of a block. -/
def reportClassReads (ctx : FlowContext) : List (Slot × ClassDecl) → ReadLog → ReadLog
  | [], log => log
  | (_, c) :: cs, log => reportClassReads ctx cs (c.reportReads ctx log)

/-- Reports the early reads in a class. Its bodies are summed up first, which reports
nothing. -/
def ClassDecl.reportReads (ctx : FlowContext) : ClassDecl → ReadLog → ReadLog
  | ⟨_, _, receiver, _, constructors, staticMethods, methods, fields, _⟩, log =>
    let fields := fields.map Prod.fst
    let settled := settle (fun p => Summaries.weight fields p.1)
      (fun p => summarizeTour ctx fields receiver p methods)
      (Summaries.start fields methods, log)
    let constructed := constructedTour ctx fields receiver settled.1
      (fields, settled.2) constructors
    reportStaticReads ctx staticMethods
      (reportInstanceReads ctx fields receiver settled.1 constructed.1 methods
        (reportInstanceReads ctx fields receiver settled.1 [] constructors constructed.2))

/-- One round over the methods, each summed up with what is known by then. -/
def summarizeTour (ctx : FlowContext) (fields : List Slot) (receiver : Slot)
    (p : Summaries × ReadLog) : List Method → Summaries × ReadLog
  | [] => p
  | m@⟨_, _, _, body, _⟩ :: ms =>
    let own := ctx.summarizing fields receiver p.1
    let t := body.tour own (.start [] p.2)
    summarizeTour ctx fields receiver (p.1.merge fields m.selector (t.summary own), t.log) ms

/-- The fields that every constructor assigns. -/
def constructedTour (ctx : FlowContext) (fields : List Slot) (receiver : Slot)
    (summaries : Summaries) (p : List Slot × ReadLog) : List Method → List Slot × ReadLog
  | [] => p
  | ⟨_, _, _, body, _⟩ :: ms =>
    let own := ctx.summarizing fields receiver summaries
    let t := body.tour own (.start [] p.2)
    constructedTour ctx fields receiver summaries
      (p.1.filter fun f => f ∈ (t.summary own).assigns, t.log) ms

/-- Reports the early reads in bodies of an instance that find `entry` assigned. -/
def reportInstanceReads (ctx : FlowContext) (fields : List Slot) (receiver : Slot)
    (summaries : Summaries) (entry : List Slot) : List Method → ReadLog → ReadLog
  | [], log => log
  | ⟨_, _, _, body, _⟩ :: ms, log =>
    reportInstanceReads ctx fields receiver summaries entry ms
      (body.tour (ctx.checking fields receiver summaries body) (.start entry log)).log

/-- Reports the early reads in static methods. -/
def reportStaticReads (ctx : FlowContext) : List Method → ReadLog → ReadLog
  | [], log => log
  | ⟨_, _, _, body, _⟩ :: ms, log =>
    reportStaticReads ctx ms (body.tour (ctx.plain body) (.start [] log)).log

end

end Program

/-! ### Tours go on as walks do -/

namespace Walk

variable (names : List (Slot × String)) (ctx : FlowContext) (log : ReadLog) (w : Walk)

/-- The tour that has come as far as a walk. In a body that is summed up, what the walk
has found is what the body requires; in any other it has been reported. -/
def told : Tour where
  state := w.state
  exit := w.exit
  requires := if ctx.inDepth then [] else addSlots [] (w.found.map Finding.slot)
  log := if ctx.inDepth then log.reportAll names w.found else log

/-- What has been told does not matter to the state of a walk. -/
@[simp] lemma state_told : (w.told names ctx log).state = w.state := rfl

/-- A walk goes on from another state with what has been told. -/
@[simp] lemma told_resume (st : FlowState) :
    (w.told names ctx log).resume st = (w.resume st).told names ctx log := rfl

/-- Nothing has been told at the start of a walk. -/
lemma told_start (entry : List Slot) : (start entry).told names ctx log = .start entry log := by
  rw [told]
  cases ctx.inDepth <;> rfl

/-- More has been found in a body that is not summed up. -/
lemma told_found (deep : ctx.inDepth = true) (fs : List Finding) :
    { w.told names ctx log with log := (w.told names ctx log).log.reportAll names fs } =
      ({ w with found := w.found ++ fs } : Walk).told names ctx log := by
  simp only [told, deep, if_true, ReadLog.reportAll_append]

/-- A finding is told when it is made. -/
lemma told_find (f : Finding) :
    (w.told names ctx log).find names ctx f =
      ({ w with found := w.found ++ [f] } : Walk).told names ctx log := by
  rw [Tour.find]
  split
  · next deep => exact told_found names ctx log w deep [f]
  · next shallow =>
    simp only [told, if_neg shallow, List.map_append, addSlots, List.foldl_append]
    rfl

/-- A read tells what the walk finds at it. -/
lemma told_read (s : Slot) (line : Line) :
    (w.told names ctx log).read names ctx s line = (w.read ctx s line).told names ctx log := by
  rw [Tour.read, read, state_told]
  split_ifs
  · rfl
  · exact told_find names ctx log w _
  · exact told_find names ctx log w _
  · rfl

/-- Reads one by one tell what the walk finds at each of them. -/
lemma told_readAll (slots : List Slot) (line : Line) :
    (w.told names ctx log).readAll names ctx slots line =
      (w.readAll ctx slots line).told names ctx log := by
  induction slots generalizing w with
  | nil => rfl
  | cons s slots ih =>
    rw [readAll, Tour.readAll, List.foldl_cons, List.foldl_cons, told_read]
    exact ih (w.read ctx s line)

/-- A class whose value comes about tells of the slots that its bodies read. -/
lemma told_produce (c : ClassDecl) (line : Line) :
    (w.told names ctx log).produce names ctx c line =
      (w.produce ctx c line).told names ctx log :=
  told_readAll names ctx log w _ line

/-- The call of an own method tells of the fields that the method reads. -/
lemma told_callOwn (method : Selector) (line : Line) :
    (w.told names ctx log).callOwn names ctx method line =
      (w.callOwn ctx method line).told names ctx log := by
  rw [Tour.callOwn, callOwn]
  cases ctx.summaries.lookup method with
  | none => rfl
  | some summary =>
    simp only [told_readAll, state_told]
    split_ifs <;> rfl

/-- A body is summed up alike. -/
lemma summary_told (shallow : ctx.inDepth = false) :
    (w.told names ctx log).summary ctx = w.summary ctx := by
  rw [Tour.summary, summary]
  refine congrArg₂ Summary.mk (List.filter_congr fun f _ => ?_) rfl
  simp [told, shallow, mem_addSlots]

end Walk

/-- Rounds that leave what they carry along as it is settle as they do without it. -/
lemma settle_carrying {α β : Type} (weight : α → Nat) {round : α → α}
    (carrying : α × β → α × β) {b : β} (same : ∀ x, carrying (x, b) = (round x, b)) (x : α) :
    settle (fun p => weight p.1) carrying (x, b) = (settle weight round x, b) := by
  induction x using WellFounded.induction (measure weight).wf with
  | _ x ih =>
    rw [settle, same]
    conv_rhs => rw [settle]
    by_cases falls : weight (round x) < weight x
    · simp only [if_pos falls]
      exact ih (round x) falls
    · simp only [if_neg falls]

namespace Program

variable (names : List (Slot × String))

/-- The tour of a call goes on as the walk does if the tours of its parts do. -/
lemma Expr.tour_call_told (receiver : Expr) (ctx : FlowContext) (log : ReadLog) (name : String)
    (arguments : Option (List Expr)) (line : Line) (w : Walk)
    (parts :
      exprTour names ctx (arguments.getD []) (receiver.tour names ctx (w.told names ctx log)) =
        (exprFlow ctx (arguments.getD []) (receiver.flow ctx w)).told names ctx log) :
    (Expr.call receiver name arguments line).tour names ctx (w.told names ctx log) =
      ((Expr.call receiver name arguments line).flow ctx w).told names ctx log := by
  cases receiver with
  | read s l =>
    have tour (t : Tour) : (Expr.call (.read s l) name arguments line).tour names ctx t =
        if ctx.receiver = some s then
          (exprTour names ctx (arguments.getD []) ((Expr.read s l).tour names ctx t)).callOwn
            names ctx ⟨name, arguments.map List.length⟩ line
        else exprTour names ctx (arguments.getD []) ((Expr.read s l).tour names ctx t) := by
      cases arguments <;> rfl
    rw [tour, parts]
    rcases Expr.flow_call ctx (.read s l) name arguments line w with ⟨own, walk⟩ | ⟨other, walk⟩
    · obtain ⟨_, _, same, receiver⟩ := own
      cases same
      rw [walk, if_pos receiver]
      exact Walk.told_callOwn names ctx log _ _ line
    · rw [walk, if_neg (other s l rfl)]
  | assign _ _ _ | call _ _ _ _ | literal _ _ | logical _ _ _ _ | cls _ =>
    cases arguments <;> exact parts

-- The induction is on the program. A tour that has come as far as a walk stays level with
-- it, whatever had been reported before the two set out.
mutual

/-- The tour of an expression goes on as the walk does. -/
theorem Expr.tour_told (ctx : FlowContext) (log : ReadLog) : (e : Expr) → (w : Walk) →
    e.tour names ctx (w.told names ctx log) = (e.flow ctx w).told names ctx log
  | .assign target value _, w => by
    rw [Expr.tour, Expr.flow, value.tour_told ctx log w]
    rfl
  | .call receiver name arguments line, w => by
    refine receiver.tour_call_told names ctx log name arguments line w ?_
    rw [receiver.tour_told ctx log w]
    cases arguments with
    | none => rfl
    | some es => exact exprTour_told ctx log es _
  | .literal _ _, _ => rfl
  | .read s line, w => by
    rw [Expr.tour, Expr.flow, Walk.told_read]
    cases ctx.named.lookup s with
    | none => rfl
    | some c => exact Walk.told_produce names ctx log _ c line
  | .logical _ left right _, w => by
    rw [Expr.tour, Expr.flow, left.tour_told ctx log w, right.tour_told ctx log]
    rfl
  | .cls decl, w => by
    rw [Expr.tour, Expr.flow]
    by_cases deep : ctx.inDepth = true
    · simp only [if_pos deep, decl.reportReads_eq ctx,
        Walk.told_found names ctx log w deep, Walk.told_produce]
    · simp only [if_neg deep, Walk.told_produce]

/-- The tour of expressions tells what the walk through them finds. -/
theorem exprTour_told (ctx : FlowContext) (log : ReadLog) : (es : List Expr) → (w : Walk) →
    exprTour names ctx es (w.told names ctx log) = (exprFlow ctx es w).told names ctx log
  | [], _ => rfl
  | e :: es, w => by
    rw [exprTour, exprFlow, e.tour_told ctx log w]
    exact exprTour_told ctx log es _

/-- The tour of a statement goes on as the walk does. -/
theorem Stmt.tour_told (ctx : FlowContext) (log : ReadLog) : (s : Stmt) → (w : Walk) →
    s.tour names ctx (w.told names ctx log) = (s.flow ctx w).told names ctx log
  | .block body, w => by
    rw [Stmt.tour, Stmt.flow]
    exact body.tour_told ctx log w
  | .branch condition yes none _, w => by
    rw [Stmt.tour, Stmt.flow, condition.tour_told ctx log w, yes.tour_told ctx log]
    rfl
  | .branch condition yes (some no) _, w => by
    rw [Stmt.tour, Stmt.flow, condition.tour_told ctx log w, yes.tour_told ctx log]
    simp only [Walk.state_told, Walk.told_resume, no.tour_told ctx log]
  | .loop condition body _, w => by
    rw [Stmt.tour, Stmt.flow, condition.tour_told ctx log w, body.tour_told ctx log]
    rfl
  | .var _ none _, _ => rfl
  | .var _ (some e) _, w => by
    rw [Stmt.tour, Stmt.flow, e.tour_told ctx log w]
    rfl
  | .ret none _, _ => rfl
  | .ret (some e) _, w => by
    rw [Stmt.tour, Stmt.flow, e.tour_told ctx log w]
    rfl
  | .eval e, w => by
    rw [Stmt.tour, Stmt.flow]
    exact e.tour_told ctx log w

/-- The tour of statements tells what the walk through them finds. -/
theorem stmtTour_told (ctx : FlowContext) (log : ReadLog) : (ss : List Stmt) → (w : Walk) →
    stmtTour names ctx ss (w.told names ctx log) = (stmtFlow ctx ss w).told names ctx log
  | [], _ => rfl
  | s :: ss, w => by
    rw [stmtTour, stmtFlow, s.tour_told ctx log w]
    exact stmtTour_told ctx log ss _

/-- The tour of a block tells what the walk through it finds. -/
theorem Block.tour_told (ctx : FlowContext) (log : ReadLog) : (b : Block) → (w : Walk) →
    b.tour names ctx (w.told names ctx log) = (b.flow ctx w).told names ctx log
  | ⟨statements, _, classes⟩, w => by
    rw [Block.tour, Block.flow]
    by_cases deep : ctx.inDepth = true
    · simp only [if_pos deep, reportClassReads_eq ctx classes,
        Walk.told_found names ctx log w deep, stmtTour_told ctx log statements]
    · simp only [if_neg deep, stmtTour_told ctx log statements]

/-- The classes of a block are reported with their findings. -/
theorem reportClassReads_eq (ctx : FlowContext) : (cs : List (Slot × ClassDecl)) →
    (log : ReadLog) →
    reportClassReads names ctx cs log = log.reportAll names (classFindings ctx cs)
  | [], _ => rfl
  | (_, c) :: cs, log => by
    rw [reportClassReads, classFindings, ReadLog.reportAll_append, c.reportReads_eq ctx log]
    exact reportClassReads_eq ctx cs _

/-- What is reported of a class is what is found in it. -/
theorem ClassDecl.reportReads_eq (ctx : FlowContext) : (c : ClassDecl) → (log : ReadLog) →
    c.reportReads names ctx log = log.reportAll names (c.findings ctx)
  | ⟨_, _, receiver, _, constructors, staticMethods, methods, fields, _⟩, log => by
    have settled := settle_carrying (Summaries.weight (fields.map Prod.fst))
      (fun p => summarizeTour names ctx (fields.map Prod.fst) receiver p methods)
      (fun S => summarizeTour_eq ctx (fields.map Prod.fst) receiver methods S log)
      (Summaries.start (fields.map Prod.fst) methods)
    rw [ClassDecl.reportReads, ClassDecl.findings]
    simp only [settled, constructedTour_eq ctx _ receiver _ constructors,
      reportInstanceReads_eq ctx _ receiver _ _ constructors,
      reportInstanceReads_eq ctx _ receiver _ _ methods, reportStaticReads_eq ctx staticMethods,
      ReadLog.reportAll_append]

/-- A round over the methods reports nothing. -/
theorem summarizeTour_eq (ctx : FlowContext) (fields : List Slot) (receiver : Slot) :
    (ms : List Method) → (S : Summaries) → (log : ReadLog) →
    summarizeTour names ctx fields receiver (S, log) ms =
      (summarizeMethods ctx fields receiver S ms, log)
  | [], _, _ => rfl
  | ⟨_, _, _, body, _⟩ :: ms, S, log => by
    have whole := body.tour_told (ctx.summarizing fields receiver S) log (.start [])
    rw [Walk.told_start] at whole
    rw [summarizeTour, summarizeMethods, whole, Walk.summary_told _ _ _ _ rfl]
    exact summarizeTour_eq ctx fields receiver ms _ log

/-- The tour of constructors leaves the fields that all of them assign, and tells nothing. -/
theorem constructedTour_eq (ctx : FlowContext) (fields : List Slot) (receiver : Slot)
    (S : Summaries) : (ms : List Method) → (among : List Slot) → (log : ReadLog) →
    constructedTour names ctx fields receiver S (among, log) ms =
      (constructedFields ctx fields receiver S among ms, log)
  | [], _, _ => rfl
  | ⟨_, _, _, body, _⟩ :: ms, among, log => by
    have whole := body.tour_told (ctx.summarizing fields receiver S) log (.start [])
    rw [Walk.told_start] at whole
    rw [constructedTour, constructedFields, whole, Walk.summary_told _ _ _ _ rfl]
    exact constructedTour_eq ctx fields receiver S ms _ log

/-- The methods of an instance are reported with their findings. -/
theorem reportInstanceReads_eq (ctx : FlowContext) (fields : List Slot) (receiver : Slot)
    (S : Summaries) (entry : List Slot) : (ms : List Method) → (log : ReadLog) →
    reportInstanceReads names ctx fields receiver S entry ms log =
      log.reportAll names (instanceFindings ctx fields receiver S entry ms)
  | [], _ => rfl
  | ⟨_, _, _, body, _⟩ :: ms, log => by
    have whole := body.tour_told (ctx.checking fields receiver S body) log (.start entry)
    rw [Walk.told_start] at whole
    rw [reportInstanceReads, instanceFindings, ReadLog.reportAll_append, whole]
    exact reportInstanceReads_eq ctx fields receiver S entry ms _

/-- The methods of a class itself are reported with their findings. -/
theorem reportStaticReads_eq (ctx : FlowContext) : (ms : List Method) → (log : ReadLog) →
    reportStaticReads names ctx ms log = log.reportAll names (staticFindings ctx ms)
  | [], _ => rfl
  | ⟨_, _, _, body, _⟩ :: ms, log => by
    have whole := body.tour_told (ctx.plain body) log (.start [])
    rw [Walk.told_start] at whole
    rw [reportStaticReads, staticFindings, ReadLog.reportAll_append, whole]
    exact reportStaticReads_eq ctx ms _

end

end Program

/-! ### Whole programs -/

/-- The pass over the early reads of a program. -/
def checkEarlyReads (script : Script) : Reporting Unit :=
  modify fun bag =>
    (script.root.tour script.names (.ofScript script) (.start [] ⟨[], bag⟩)).log.bag

/-- The pass adds the reports on the early reads of the program to any others. -/
theorem checkEarlyReads_adds (script : Script) :
    (checkEarlyReads script).Adds () (earlyReadDiagnostics script) := by
  intro bag
  have whole := script.root.tour_told script.names (.ofScript script) ⟨[], bag⟩ (.start [])
  rw [Walk.told_start] at whole
  change ((), (script.root.tour script.names _ _).log.bag) = _
  rw [whole]
  exact congrArg (Prod.mk ()) (ReadLog.bag_reportAll script.names ⟨[], bag⟩ _)

end Ember
