import FolGraph.Proofs.Formula.Arity
import FolGraph.Proofs.Graph.Fuel
import FolGraph.Proofs.Graph.Scan
import Mathlib.Logic.Relation

/-!
# Decoding step by step

The decoder as a machine: it marks nodes in a list of flags, keeps the applications whose arguments
are still being read on a stack, and checks every position that it looks at. A step from a valid
moment has no fault (`step_eq`), leads to a valid moment and leaves the outcome as it was
(`resume_eq`), and every step uses up part of a weight. So a run ends, with what the decoder returns
(`decodeWithin_eq`), and no node is expanded twice on the way (`valid_of_leads`).
-/

namespace FolGraph.Checked

open FolGraph.Graph

/-! ## The machine -/

/-- An application of which some arguments have been read and others have not. -/
structure Frame where
  label : String
  done : List Formula
  rest : List Nat
  deriving DecidableEq, Repr

inductive Task where
  | read (id : Nat)
  /-- A formula has been read and goes to the last frame. -/
  | give (f : Formula)
  deriving DecidableEq, Repr

structure Moment where
  /-- Whether each node has been visited. -/
  marks : List Bool
  /-- The nodes that have been expanded, the last one first. -/
  log : List Nat
  task : Task
  frames : List Frame
  deriving DecidableEq, Repr

/-- Refuses a declaration that has arguments. -/
def checkDeclarations (g : Graph) : List Nat → Checked DecodeError Unit
  | [] => .ok ()
  | id :: ids => do
    let successors ← children g id
    match successors, g.node? id with
    | _ :: _, some node => refuse (.nonTerminalNameNode node successors.length)
    | _, _ => checkDeclarations g ids

/-- The declarations among the arguments of a quantifier: all but the last. -/
def declarations (kids : List Nat) : Checked DecodeError (List Nat) := do
  let body ← minus kids.length 1
  .ok (kids.take body)

/-- Refuses a number of arguments that the label does not take. -/
def checkCount (node : Node) (kids : List Nat) : Checked DecodeError Unit :=
  match Arity.ofLabel? node.label with
  | none => .ok ()
  | some arity =>
    if arity.admits kids.length then .ok ()
    else refuse (.wrongSuccessorCount node arity kids.length)

/-- Holds a node to the arity of its label. -/
def checkArity (g : Graph) (node : Node) (kids : List Nat) : Checked DecodeError Unit := do
  checkCount node kids
  if isQuantifier node.label then checkDeclarations g (← declarations kids)

namespace Moment

def start (g : Graph) (root : Nat) : Moment := ⟨List.replicate g.size false, [], .read root, []⟩

/-- Goes on with the first argument of a node that has been expanded. -/
def descend (m : Moment) (marks : List Bool) (id : Nat) (label : String) : List Nat → Moment
  | [] => ⟨marks, id :: m.log, .give (.node label []), m.frames⟩
  | kid :: kids => ⟨marks, id :: m.log, .read kid, ⟨label, [], kids⟩ :: m.frames⟩

/-- Goes on with the next argument after a formula has been read, or with the application itself if
it was the last. -/
def ascend (m : Moment) (f : Formula) : Moment :=
  match m.frames with
  | [] => m
  | ⟨label, done, []⟩ :: frames =>
    { m with task := .give (.node label (done ++ [f])), frames := frames }
  | ⟨label, done, id :: rest⟩ :: frames =>
    { m with task := .read id, frames := ⟨label, done ++ [f], rest⟩ :: frames }

/-- The formula and the marks when there is nothing left to do. -/
def result? (m : Moment) : Option (Formula × List Bool) :=
  match m.task, m.frames with
  | .give f, [] => some (f, m.marks)
  | _, _ => none

end Moment

/-- One step of the machine. -/
def step (g : Graph) (strict : Bool) (m : Moment) : Checked DecodeError Moment :=
  match m.task with
  | .read id => do
    let node ← fetch g.nodes id
    let seen ← fetch m.marks id
    let marks ← store m.marks id true
    if seen then refuse (.revisitedNode node)
    let kids ← orderSiblings g node (← children g id)
    if strict then checkArity g node kids
    .ok (m.descend marks id node.label kids)
  | .give f => .ok (m.ascend f)

/-- The outcome of a run, if it ends within some steps. -/
def run (g : Graph) (strict : Bool) :
    Nat → Moment → Option (Checked DecodeError (Formula × List Bool))
  | 0, m => m.result?.map .ok
  | steps + 1, m =>
    match m.result? with
    | some r => some (.ok r)
    | none =>
      match step g strict m with
      | .error stop => some (.error stop)
      | .ok m' => run g strict steps m'

/-- The formula that was read, if it left no node out. -/
def finish (f : Formula) : Nat → Except DecodeError Formula
  | 0 => .ok f
  | count => .error (.unreachableNodes count)

/-- The formula that a graph stands for, if the machine finds it within some steps. -/
def decodeWithin (g : Graph) (strict : Bool) (steps : Nat) : Option (Checked DecodeError Formula) :=
  match g.startingNode with
  | .error cause => some (refuse cause)
  | .ok root =>
    (run g strict steps (.start g root.id)).map fun outcome => do
      let (f, marks) ← outcome
      safe (finish f (marks.count false))

/-! ## Checks of arity -/

theorem checkDeclarations_eq {g : Graph} (sound : g.Sound) (ids : List Nat) :
    checkDeclarations g ids = safe (g.checkDeclarations ids) := by
  induction ids with
  | nil => rfl
  | cons id ids ih =>
    rw [checkDeclarations, children_eq sound, Graph.checkDeclarations]
    cases kids : g.children id with
    | nil => exact ih
    | cons c cs =>
      have arc := sound.mem_children.mp (kids ▸ List.mem_cons_self : c ∈ g.children id)
      obtain ⟨n, _, found⟩ := sound.exists_node? (hasEnds_iff.mp (sound.ends _ arc)).1
      rw [found]
      rfl

/-- An admitted quantifier has a body, so its declarations can be told apart. -/
theorem declarations_of_admits {label : String} {kids : List Nat}
    (quantifier : isQuantifier label = true)
    (admitted : (Arity.ofLabel? label).all (·.admits kids.length) = true) :
    declarations kids = .ok kids.dropLast := by
  have several : 1 ≤ kids.length := by
    rcases isQuantifier_iff.mp quantifier with rfl | rfl
    all_goals
      have two : 2 ≤ kids.length := by
        simpa [Arity.ofLabel?, isQuantifier, Arity.admits] using admitted
      omega
  rw [declarations, minus_of_le several, List.dropLast_eq_take]
  rfl

theorem checkArity_eq {g : Graph} (sound : g.Sound) (node : Node) (kids : List Nat) :
    checkArity g node kids = safe (g.checkArity node kids) := by
  cases arity : Arity.ofLabel? node.label with
  | none =>
    simp only [checkArity, checkCount, Graph.checkArity, arity,
      Formula.isQuantifier_eq_false_of_ofLabel?_eq_none arity]
    rfl
  | some a =>
    simp only [checkArity, checkCount, Graph.checkArity, arity]
    cases admitted : a.admits kids.length with
    | false => simp [refuse, bind, Except.bind]
    | true =>
      simp only [if_true, Bool.not_true, Bool.false_eq_true, if_false]
      cases quantifier : isQuantifier node.label with
      | false => rfl
      | true =>
        have split : declarations kids = .ok kids.dropLast :=
          declarations_of_admits quantifier (by simp [arity, admitted])
        change (declarations kids >>= checkDeclarations g) =
          safe (g.checkDeclarations kids.dropLast)
        rw [split, ← checkDeclarations_eq sound]
        rfl

/-! ## Valid moments -/

/-- The marks are those of the nodes that have been expanded, and the nodes that are still to be
read are nodes of the graph. -/
structure Moment.Valid (g : Graph) (m : Moment) : Prop where
  marks : m.marks = (List.range g.size).map m.log.contains
  log : g.Visits m.log
  task : ∀ id, m.task = .read id → id < g.size
  frames : ∀ fr ∈ m.frames, ∀ id ∈ fr.rest, id < g.size

/-- A step as the decoder makes it, which keeps the list of nodes visited. -/
def advance (g : Graph) (strict : Bool) (m : Moment) : Except DecodeError Moment :=
  match m.task with
  | .read id => do
    let (node, kids) ← g.expand strict id m.log
    .ok (m.descend (m.marks.set id true) id node.label kids)
  | .give f => .ok (m.ascend f)

theorem Moment.Valid.start {g : Graph} {root : Nat} (inside : root < g.size) :
    (Moment.start g root).Valid g where
  marks := by
    refine (List.eq_replicate_iff.mpr ?_).symm
    simp [Moment.start]
  log := .nil g
  task id h := by
    obtain rfl : root = id := by simpa [Moment.start] using h
    exact inside
  frames := by simp [Moment.start]

/-- A step from a valid moment has no fault. -/
theorem step_eq {g : Graph} (sound : g.Sound) (strict : Bool) {m : Moment} (valid : m.Valid g) :
    step g strict m = safe (advance g strict m) := by
  cases task : m.task with
  | give f => simp only [step, advance, task, safe_ok]
  | read id =>
    have inside := valid.task id task
    obtain ⟨n, rfl, found⟩ := sound.exists_node? inside
    have node : (fetch g.nodes n.id : Checked DecodeError _) = .ok n := fetch_of_getElem? found
    have mark : m.marks[n.id]? = some (m.log.contains n.id) := by
      rw [valid.marks, List.getElem?_map, List.getElem?_range inside, Option.map_some]
    have seen : (fetch m.marks n.id : Checked DecodeError _) = .ok (m.log.contains n.id) :=
      fetch_of_getElem? mark
    have marked : (store m.marks n.id true : Checked DecodeError _) = .ok (m.marks.set n.id true) :=
      store_of_lt (List.getElem?_eq_some_iff.mp mark).1 true
    have kids : (children g n.id : Checked DecodeError _) = .ok (g.children n.id) :=
      children_eq sound n.id
    have ordered : orderSiblings g n (g.children n.id) = safe (g.arguments n) := by
      rw [← arguments_eq sound, arguments, kids]
      rfl
    simp only [step, advance, task, node, seen, marked, kids, expand]
    -- the machine looks the node up in its marks, the decoder in the list of nodes visited
    by_cases visited : n.id ∈ m.log
    · have shown : m.log.contains n.id = true := by simpa using visited
      rw [enter_of_mem found visited, shown]
      rfl
    · have shown : m.log.contains n.id = false := by simpa using visited
      rw [enter_eq_ok.mpr ⟨found, visited⟩, shown]
      cases order : g.arguments n with
      | error cause => simp [ordered, order, refuse, bind, Except.bind]
      | ok args =>
        cases strict with
        | false => simp [ordered, order, bind, Except.bind]
        | true =>
          have checked := checkArity_eq sound n args
          cases check : g.checkArity n args <;>
            simp [ordered, order, checked, check, refuse, bind, Except.bind]

/-- Expanding a node marks it and leaves its arguments to be read. -/
theorem Moment.Valid.descend {g : Graph} {m : Moment} (valid : m.Valid g) {id : Nat}
    {label : String} {kids : List Nat} (inside : id < g.size) (fresh : id ∉ m.log)
    (nodes : ∀ c ∈ kids, c < g.size) :
    (m.descend (m.marks.set id true) id label kids).Valid g := by
  have marks : m.marks.set id true = (List.range g.size).map (id :: m.log).contains := by
    rw [valid.marks]
    apply List.ext_getElem (by simp)
    intro v _ _
    by_cases same : id = v
    · simp [same]
    · simp [same, Ne.symm same]
  have log := valid.log.cons inside fresh
  cases kids with
  | nil => exact ⟨marks, log, by simp [Moment.descend], valid.frames⟩
  | cons kid kids =>
    obtain ⟨first, rest⟩ := List.forall_mem_cons.mp nodes
    refine ⟨marks, log, fun v h => ?_, List.forall_mem_cons.mpr ⟨rest, valid.frames⟩⟩
    obtain rfl : kid = v := by simpa [Moment.descend] using h
    exact first

theorem Moment.Valid.ascend {g : Graph} {m : Moment} (valid : m.Valid g) (f : Formula) :
    (m.ascend f).Valid g := by
  unfold Moment.ascend
  cases frames : m.frames with
  | nil => exact valid
  | cons fr frs =>
    have nodes := valid.frames
    rw [frames] at nodes
    obtain ⟨here, others⟩ := List.forall_mem_cons.mp nodes
    obtain ⟨label, done, _ | ⟨id, rest⟩⟩ := fr
    · exact ⟨valid.marks, valid.log, by simp, others⟩
    · obtain ⟨first, later⟩ := List.forall_mem_cons.mp here
      refine ⟨valid.marks, valid.log, fun v h => ?_, List.forall_mem_cons.mpr ⟨later, others⟩⟩
      obtain rfl : id = v := by simpa using h
      exact first

/-- What a step does. It expands a node that has not been expanded before, or hands on a formula
that has been read. -/
theorem advance_cases {g : Graph} {strict : Bool} {m m' : Moment}
    (h : advance g strict m = .ok m') :
    (∃ id n kids, m.task = .read id ∧ g.expand strict id m.log = .ok (n, kids) ∧
      m' = m.descend (m.marks.set id true) id n.label kids) ∨
    ∃ f, m.task = .give f ∧ m' = m.ascend f := by
  unfold advance at h
  cases task : m.task with
  | read id =>
    rw [task] at h
    obtain ⟨⟨n, kids⟩, expanded, h⟩ := bind_eq_ok.mp h
    exact .inl ⟨id, n, kids, rfl, expanded, (Except.ok.inj h).symm⟩
  | give f =>
    rw [task] at h
    exact .inr ⟨f, rfl, (Except.ok.inj h).symm⟩

theorem Moment.Valid.advance {g : Graph} (sound : g.Sound) {strict : Bool} {m m' : Moment}
    (valid : m.Valid g) (h : advance g strict m = .ok m') : m'.Valid g := by
  obtain ⟨id, n, kids, task, expanded, rfl⟩ | ⟨f, _, rfl⟩ := advance_cases h
  · obtain ⟨_, fresh, order⟩ := expand_eq_ok expanded
    exact valid.descend (valid.task id task) fresh (lt_size_of_arguments sound order)
  · exact valid.ascend f

/-- How many steps a run can take: two for each node that is still to be expanded, one for each
frame and one for a formula that is to be handed on. -/
def Moment.weight (g : Graph) (m : Moment) : Nat :=
  2 * (g.size - m.log.length) + m.frames.length +
    match m.task with
    | .read _ => 0
    | .give _ => 1

theorem weight_advance {g : Graph} {strict : Bool} {m m' : Moment}
    (valid : m.Valid g) (h : advance g strict m = .ok m') (going : m.result? = none) :
    m'.weight g < m.weight g := by
  obtain ⟨id, n, kids, task, expanded, rfl⟩ | ⟨f, task, rfl⟩ := advance_cases h
  · obtain ⟨found, fresh, _⟩ := expand_eq_ok expanded
    have length := (valid.log.cons (valid.task id task) fresh).length_le
    rw [List.length_cons] at length
    -- the two steps of the node pay for what it leaves: a formula to hand on, or a new frame
    cases kids with
    | nil =>
      simp only [Moment.weight, Moment.descend, task, List.length_cons]
      omega
    | cons kid kids =>
      simp only [Moment.weight, Moment.descend, task, List.length_cons]
      omega
  · cases frames : m.frames with
    | nil => simp [Moment.result?, task, frames] at going
    | cons fr frs =>
      obtain ⟨label, done, _ | ⟨id, rest⟩⟩ := fr
      -- a frame is closed, or the formula in hand is put down for the next argument
      · simp only [Moment.weight, Moment.ascend, task, frames, List.length_cons]
        omega
      · simp only [Moment.weight, Moment.ascend, task, frames, List.length_cons]
        omega

/-! ## What a moment leads to -/

/-- What becomes of a formula that has been read below some frames. -/
def plug (g : Graph) (strict : Bool) (f : Formula) (log : List Nat) :
    List Frame → Except DecodeError (Formula × List Nat)
  | [] => .ok (f, log)
  | ⟨label, done, rest⟩ :: frames =>
    readAll (g.read strict g.size) rest log >>= fun r =>
      plug g strict (.node label (done ++ f :: r.1)) r.2 frames

/-- The outcome of the reading that a moment is one of. -/
def Moment.resume (g : Graph) (strict : Bool) (m : Moment) :
    Except DecodeError (Formula × List Nat) :=
  match m.task with
  | .read id => g.read strict g.size id m.log >>= fun r => plug g strict r.1 r.2 m.frames
  | .give f => plug g strict f m.log m.frames

/-- An expanded node waits for the reading of its arguments. -/
theorem resume_descend {g : Graph} {strict : Bool} (m : Moment) (marks : List Bool) (id : Nat)
    (label : String) (kids : List Nat) :
    (m.descend marks id label kids).resume g strict =
      readAll (g.read strict g.size) kids (id :: m.log) >>= fun r =>
        plug g strict (.node label r.1) r.2 m.frames := by
  cases kids with
  | nil => rfl
  | cons kid kids =>
    change (g.read strict g.size kid (id :: m.log) >>= _) = _
    rw [readAll]
    cases g.read strict g.size kid (id :: m.log) with
    | error cause => rfl
    | ok r =>
      change (readAll _ kids r.2 >>= _) = (readAll _ kids r.2 >>= _) >>= _
      cases readAll (g.read strict g.size) kids r.2 <;> rfl

theorem resume_ascend {g : Graph} {strict : Bool} {m : Moment} {f : Formula}
    (task : m.task = .give f) : (m.ascend f).resume g strict = plug g strict f m.log m.frames := by
  unfold Moment.ascend
  cases frames : m.frames with
  | nil => rw [Moment.resume, task, frames]
  | cons fr frs =>
    obtain ⟨label, done, _ | ⟨id, rest⟩⟩ := fr
    · rfl
    · change (g.read strict g.size id m.log >>= _) = _
      rw [plug, readAll]
      cases g.read strict g.size id m.log with
      | error cause => rfl
      | ok r =>
        change (readAll _ rest r.2 >>= _) = (readAll _ rest r.2 >>= _) >>= _
        cases readAll (g.read strict g.size) rest r.2 with
        | error cause => rfl
        | ok rs => simp [bind, Except.bind]

/-- A step does not change the outcome, and a refused step is the outcome. -/
theorem resume_eq {g : Graph} (sound : g.Sound) {strict : Bool} {m : Moment} (valid : m.Valid g) :
    m.resume g strict = advance g strict m >>= fun m' => m'.resume g strict := by
  cases task : m.task with
  | read id =>
    -- the reading of a node has fuel to spare for that of its arguments
    have more := read_succ_eq sound strict valid.log (valid.task id task)
      (Nat.le_add_right _ _)
    simp only [Moment.resume, advance, task, ← more, read_succ, bind_assoc]
    cases g.expand strict id m.log with
    | error cause => rfl
    | ok r => exact (resume_descend m _ id _ r.2).symm
  | give f =>
    rw [Moment.resume, task, advance, task]
    exact (resume_ascend task).symm

/-! ## Runs -/

theorem result?_eq_some {m : Moment} {r : Formula × List Bool} (h : m.result? = some r) :
    ∃ f, m.task = .give f ∧ m.frames = [] ∧ r = (f, m.marks) := by
  unfold Moment.result? at h
  split at h
  case h_1 f task frames => exact ⟨f, task, frames, (Option.some.inj h).symm⟩
  case h_2 => cases h

/-- The run from a valid moment ends within its weight, without faults, with the outcome that the
moment leads to and the marks of the nodes expanded. -/
theorem run_eq {g : Graph} (sound : g.Sound) {strict : Bool} {steps : Nat} {m : Moment}
    (valid : m.Valid g) (enough : m.weight g < steps) :
    run g strict steps m =
      some (safe ((m.resume g strict).map fun r =>
        (r.1, (List.range g.size).map r.2.contains))) := by
  induction steps generalizing m with
  | zero => omega
  | succ steps ih =>
    rw [run]
    cases going : m.result? with
    | some r =>
      obtain ⟨f, task, frames, rfl⟩ := result?_eq_some going
      rw [Moment.resume, task, frames, valid.marks]
      rfl
    | none =>
      rw [step_eq sound strict valid, resume_eq sound valid]
      cases stepped : advance g strict m with
      | error cause => rfl
      | ok m' =>
        have lighter := weight_advance valid stepped going
        exact ih (valid.advance sound stepped) (by omega)

/-- The nodes left unmarked are those that the decoder counts as not visited. -/
theorem count_false_marks {g : Graph} (sound : g.Sound) (log : List Nat) :
    ((List.range g.size).map log.contains).count false =
      (g.nodes.filter (!log.contains ·.id)).length := by
  rw [← sound.map_id_nodes, List.map_map, List.count, List.countP_map, List.countP_eq_length_filter]
  congr 2
  funext n
  simp

/-- The machine decodes what the decoder decodes, within two steps for each node and one more,
without faults. -/
theorem decodeWithin_eq {g : Graph} (sound : g.Sound) (strict : Bool) {steps : Nat}
    (enough : 2 * g.size < steps) :
    decodeWithin g strict steps = some (safe (g.decode strict)) := by
  rw [decodeWithin, decode]
  cases start : g.startingNode with
  | error cause => rfl
  | ok root =>
    have inside := lt_size_of_node? ((startingNode_eq_ok_iff sound).mp start).1
    have light : (Moment.start g root.id).weight g < steps := by
      simpa [Moment.weight, Moment.start] using enough
    have outcome : (Moment.start g root.id).resume g strict = g.read strict g.size root.id [] := by
      change (g.read strict g.size root.id [] >>= fun r => .ok (r.1, r.2)) = _
      cases g.read strict g.size root.id [] <;> rfl
    simp only [run_eq sound (Moment.Valid.start inside) light, outcome]
    change some _ = some (safe (g.read strict g.size root.id [] >>= _))
    cases g.read strict g.size root.id [] with
    | error cause => rfl
    | ok r =>
      change some (safe (finish r.1 (((List.range g.size).map r.2.contains).count false))) = _
      rw [count_false_marks sound]
      rfl

/-- One moment leads to another one by steps of the machine. -/
def Leads (g : Graph) (strict : Bool) : Moment → Moment → Prop :=
  Relation.ReflTransGen fun m m' => step g strict m = .ok m'

theorem valid_of_leads {g : Graph} (sound : g.Sound) {strict : Bool} {m m' : Moment}
    (valid : m.Valid g) (leads : Leads g strict m m') : m'.Valid g := by
  induction leads with
  | refl => exact valid
  | @tail m' _ _ stepped ih =>
    rw [step_eq sound strict ih, safe_eq_ok_iff] at stepped
    exact ih.advance sound stepped

end FolGraph.Checked
