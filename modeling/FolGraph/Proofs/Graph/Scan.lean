import FolGraph.Proofs.Outcome
import FolGraph.Proofs.Graph.Spelling

/-!
# Scanning the arguments of a node

One pass over the arcs that leave the arguments of a node notes, for every position, the position
that it is linked to and whether it is entered. From the only position that is not entered, a walk
follows the links. `arguments_eq` says that this works without faults and finds the order that the
decoder uses.
-/

namespace FolGraph.Checked

open FolGraph.Graph

/-- What has been noted about the positions of some arguments. -/
structure Links where
  /-- The position that each position is linked to. -/
  next : List (Option Nat)
  /-- Whether each position is linked from another one or itself. -/
  entered : List Bool
  /-- The number of arcs noted. -/
  count : Nat
  deriving DecidableEq, Repr

def Links.start (count : Nat) : Links :=
  ⟨List.replicate count none, List.replicate count false, 0⟩

/-- Notes an arc between two positions. It must be the first that leaves or enters them. -/
def Links.note (parent : Node) (l : Links) (arc : Edge) : Checked DecodeError Links := do
  if arc.role ≠ .ncs then refuse (.invalidChildArrangement parent)
  if (← fetch l.next arc.source).isSome then refuse (.invalidChildArrangement parent)
  if ← fetch l.entered arc.target then refuse (.invalidChildArrangement parent)
  let next ← store l.next arc.source (some arc.target)
  let entered ← store l.entered arc.target true
  .ok ⟨next, entered, l.count + 1⟩

/-- Notes an arc that leaves the argument at position `i`, if it bears on the order: it must lead
to an argument, and not from a declaration of a quantifier into the body. -/
def Links.visit (parent : Node) (children : List Nat) (body i : Nat) (l : Links) (e : Edge) :
    Checked DecodeError Links :=
  match lastIndexOf? e.target children with
  | none => .ok l
  | some j =>
    if e.role == .ddg && isQuantifier parent.label && decide (i < body) && j == body then .ok l
    else l.note parent ⟨i, j, e.role⟩

/-- The arcs that leave a node, taken from the recorded positions. -/
def outEdges {ε : Type} (g : Graph) (id : Nat) : Checked ε (List Edge) :=
  (g.outgoing[id]?.getD []).mapM (fetch g.edges)

/-- The arguments of a node in the order of insertion. -/
def children {ε : Type} (g : Graph) (id : Nat) : Checked ε (List Nat) := do
  let arcs ← outEdges g id
  .ok ((arcs.filter (·.role == .ast)).map (·.target))

/-- Visits all arcs that leave the arguments of a node. -/
def scan (g : Graph) (parent : Node) (children : List Nat) (body : Nat) :
    Checked DecodeError Links :=
  children.zipIdx.foldlM (fun l ci => do
    let arcs ← outEdges g ci.1
    arcs.foldlM (Links.visit parent children body ci.2) l) (.start children.length)

/-- Those of some positions that are not entered. -/
def heads (l : Links) : List Nat → Checked DecodeError (List Nat)
  | [] => .ok []
  | i :: is => do
    let seen ← fetch l.entered i
    let rest ← heads l is
    .ok (if seen then rest else i :: rest)

/-- The arguments on the way along the links. A walk that passes more than `room` positions is too
long. -/
def walk (children : List Nat) (l : Links) : Nat → Option Nat → Checked DecodeError (List Nat)
  | _, none => .ok []
  | 0, some _ => .error (.fault (.overlong children.length))
  | room + 1, some i => do
    let child ← fetch children i
    let next ← fetch l.next i
    let rest ← walk children l room next
    .ok (child :: rest)

@[simp] theorem walk_none (children : List Nat) (l : Links) (room : Nat) :
    walk children l room none = .ok [] := by
  cases room <;> rfl

/-- The arguments in the order of the walk from the only head. -/
def walkFrom (parent : Node) (children : List Nat) (l : Links) :
    List Nat → Checked DecodeError (List Nat)
  | [head] => do
    let ordered ← walk children l children.length (some head)
    if ordered.length = children.length then .ok ordered
    else refuse (.invalidChildArrangement parent)
  | _ => refuse (.invalidChildArrangement parent)

/-- Some arguments of a node in their order. -/
def orderSiblings (g : Graph) (parent : Node) (children : List Nat) :
    Checked DecodeError (List Nat) :=
  if children.length < 2 then .ok children
  else do
    let body ← minus children.length 1
    let links ← scan g parent children body
    if links.count = 0 then .ok children
    else walkFrom parent children links (← heads links (List.range children.length))

/-- The arguments of a node in their order. -/
def arguments (g : Graph) (n : Node) : Checked DecodeError (List Nat) := do
  orderSiblings g n (← children g n.id)

/-! ## What a scan notes -/

/-- Whether arcs are `ncs` arcs of which no two leave or enter the same position. -/
def Plain (arcs : List Edge) : Prop :=
  (∀ e ∈ arcs, e.role = .ncs) ∧ (arcs.map (·.source)).Nodup ∧ (arcs.map (·.target)).Nodup

instance (arcs : List Edge) : Decidable (Plain arcs) := by
  unfold Plain
  infer_instance

/-- The notes on some arcs between `count` positions. -/
def Links.ofArcs (count : Nat) (arcs : List Edge) : Links where
  next := (List.range count).map (nextOf? arcs)
  entered := (List.range count).map (arcs.map (·.target)).contains
  count := arcs.length

theorem Links.start_eq (count : Nat) : Links.start count = .ofArcs count [] := by
  simp only [start, ofArcs, List.map_nil, List.length_nil, Links.mk.injEq, and_true]
  refine ⟨(List.eq_replicate_iff.mpr ?_).symm, (List.eq_replicate_iff.mpr ?_).symm⟩
  · simp [nextOf?]
  · simp

theorem Plain.of_append {arcs more : List Edge} (plain : Plain (arcs ++ more)) : Plain arcs := by
  obtain ⟨roles, sources, targets⟩ := plain
  rw [List.map_append] at sources targets
  exact ⟨fun e he => roles e (List.mem_append_left more he), sources.of_append_left,
    targets.of_append_left⟩

/-- Another arc keeps arcs plain if it is an `ncs` arc whose ends are still free. -/
theorem plain_append_iff {arcs : List Edge} (plain : Plain arcs) (arc : Edge) :
    Plain (arcs ++ [arc]) ↔
      arc.role = .ncs ∧ nextOf? arcs arc.source = none ∧ arc.target ∉ arcs.map (·.target) := by
  obtain ⟨roles, sources, targets⟩ := plain
  have free : nextOf? arcs arc.source = none ↔ arc.source ∉ arcs.map (·.source) := by
    simp only [nextOf?, Option.map_eq_none_iff, List.find?_eq_none, List.mem_map, beq_iff_eq,
      not_exists, not_and]
  have last : ∀ f : Edge → Nat, ((arcs ++ [arc]).map f).Nodup ↔
      (arcs.map f).Nodup ∧ f arc ∉ arcs.map f := by
    intro f
    rw [List.map_append, List.map_singleton, List.nodup_append_comm, List.singleton_append,
      List.nodup_cons, and_comm]
  simp only [Plain, last, sources, targets, true_and, free, List.forall_mem_append,
    List.forall_mem_singleton, and_iff_right roles]

theorem nextOf?_append {arcs : List Edge} {arc : Edge}
    (free : nextOf? arcs arc.source = none) (i : Nat) :
    nextOf? (arcs ++ [arc]) i = if arc.source = i then some arc.target else nextOf? arcs i := by
  by_cases same : arc.source = i
  · subst same
    have none := Option.map_eq_none_iff.mp free
    simp [nextOf?, none]
  · simp [nextOf?, same]

theorem Links.store_ofArcs (count : Nat) {arcs : List Edge} {arc : Edge}
    (free : nextOf? arcs arc.source = none) :
    (Links.ofArcs count arcs).next.set arc.source (some arc.target) =
        (Links.ofArcs count (arcs ++ [arc])).next ∧
      (Links.ofArcs count arcs).entered.set arc.target true =
        (Links.ofArcs count (arcs ++ [arc])).entered := by
  constructor
  · apply List.ext_getElem (by simp [ofArcs])
    intro i _ _
    simp [ofArcs, List.getElem_set, nextOf?_append free]
  · apply List.ext_getElem (by simp [ofArcs])
    intro i _ _
    by_cases same : arc.target = i
    · simp [ofArcs, same]
    · simp [ofArcs, same, Ne.symm same]

/-- Noting an arc between two positions needs no other position, and refuses an arc that does not
keep the arcs noted plain. -/
theorem Links.note_ofArcs {count : Nat} {arcs : List Edge} (plain : Plain arcs) {arc : Edge}
    (inside : arc.source < count ∧ arc.target < count) (parent : Node) :
    (Links.ofArcs count arcs).note parent arc =
      if Plain (arcs ++ [arc]) then .ok (.ofArcs count (arcs ++ [arc]))
      else refuse (.invalidChildArrangement parent) := by
  have next : (fetch (Links.ofArcs count arcs).next arc.source : Checked DecodeError _) =
      .ok (nextOf? arcs arc.source) := fetch_of_getElem? (by simp [ofArcs, inside.1])
  have entered : (fetch (Links.ofArcs count arcs).entered arc.target : Checked DecodeError _) =
      .ok ((arcs.map (·.target)).contains arc.target) :=
    fetch_of_getElem? (by simp [ofArcs, inside.2])
  simp only [note, next, entered, plain_append_iff plain]
  by_cases role : arc.role = .ncs
  case neg => simp [role, refuse, bind, Except.bind]
  cases free : nextOf? arcs arc.source with
  | some j => simp [role, refuse, bind, Except.bind]
  | none =>
    by_cases seen : arc.target ∈ arcs.map (·.target)
    case pos =>
      have shown : (arcs.map (·.target)).contains arc.target = true := by simpa using seen
      simp only [role, shown, seen, refuse, bind, Except.bind]
      simp
    have shown : (arcs.map (·.target)).contains arc.target = false := by simpa using seen
    obtain ⟨next', entered'⟩ := store_ofArcs count free
    have storeNext : (store (Links.ofArcs count arcs).next arc.source (some arc.target) :
        Checked DecodeError _) = .ok (Links.ofArcs count (arcs ++ [arc])).next := by
      rw [store_of_lt (by simp [ofArcs, inside.1]), next']
    have storeEntered : (store (Links.ofArcs count arcs).entered arc.target true :
        Checked DecodeError _) = .ok (Links.ofArcs count (arcs ++ [arc])).entered := by
      rw [store_of_lt (by simp [ofArcs, inside.2]), entered']
    simp only [role, shown, seen, storeNext, storeEntered, bind, Except.bind]
    simp [ofArcs]

/-- Arcs are noted one after the other as long as they stay plain. -/
theorem Links.foldlM_note {count : Nat} {arcs more : List Edge} (plain : Plain arcs)
    (inside : ∀ e ∈ more, e.source < count ∧ e.target < count) (parent : Node) :
    more.foldlM (Links.note parent) (.ofArcs count arcs) =
      if Plain (arcs ++ more) then .ok (.ofArcs count (arcs ++ more))
      else refuse (.invalidChildArrangement parent) := by
  induction more generalizing arcs with
  | nil =>
    rw [List.foldlM_nil, List.append_nil, if_pos plain]
    rfl
  | cons arc more ih =>
    obtain ⟨here, rest⟩ := List.forall_mem_cons.mp inside
    have regroup : arcs ++ arc :: more = (arcs ++ [arc]) ++ more := by simp
    rw [List.foldlM_cons, note_ofArcs plain here]
    by_cases kept : Plain (arcs ++ [arc])
    · rw [if_pos kept, regroup, ← ih kept rest]
      rfl
    · have broken : ¬ Plain (arcs ++ arc :: more) := fun all => kept (regroup ▸ all).of_append
      rw [if_neg kept, if_neg broken]
      rfl

/-! ## The scan of some arguments -/

theorem outEdges_eq {ε : Type} {g : Graph} (sound : g.Sound) (id : Nat) :
    (outEdges g id : Checked ε _) = .ok (g.outEdges id) := by
  refine mapM_fetch fun k hk => ?_
  rw [sound.outgoing_getD] at hk
  simpa using List.lt_add_of_mem_findIdxs k hk

theorem children_eq {ε : Type} {g : Graph} (sound : g.Sound) (id : Nat) :
    (children g id : Checked ε _) = .ok (g.children id) := by
  rw [children, outEdges_eq sound]
  rfl

theorem foldlM_flatMap {m : Type → Type} [Monad m] [LawfulMonad m] {α β γ : Type}
    (f : γ → β → m γ) (k : α → List β) (xs : List α) (start : γ) :
    (xs.flatMap k).foldlM f start = xs.foldlM (fun c x => (k x).foldlM f c) start := by
  induction xs generalizing start with
  | nil => rfl
  | cons x xs ih => simp only [List.flatMap_cons, List.foldlM_append, List.foldlM_cons, ih]

/-- The scan notes the arcs that bear on the order. -/
theorem scan_eq_foldlM {g : Graph} (sound : g.Sound) (parent : Node) (children : List Nat) :
    scan g parent children (children.length - 1) =
      (g.siblingArcs parent.label children).foldlM (Links.note parent)
        (.start children.length) := by
  rw [siblingArcs_eq, List.foldlM_filter, positionArcs, foldlM_flatMap, scan]
  congr 1
  funext l ci
  obtain ⟨child, i⟩ := ci
  rw [outEdges_eq sound, List.foldlM_filterMap]
  change (g.outEdges child).foldlM _ l = _
  -- both sides go over the arcs that leave one argument: compare what they do with one arc
  congr 1
  funext l e
  rw [Links.visit]
  cases found : lastIndexOf? e.target children with
  | none => rfl
  | some j =>
    have inside := (List.getElem?_eq_some_iff.mp (getElem?_of_lastIndexOf? found)).1
    have same : (e.role == .ddg && isQuantifier parent.label && decide (i < children.length - 1) &&
        j == children.length - 1) = bindsBody parent.label children.length ⟨i, j, e.role⟩ := by
      have before : i < children.length - 1 ↔ i + 1 < children.length := by omega
      have last : j = children.length - 1 ↔ j + 1 = children.length := by omega
      rw [Bool.eq_iff_iff]
      simp only [bindsBody, Bool.and_eq_true, beq_iff_eq, decide_eq_true_eq, before, last,
        and_comm (a := e.role = .ddg)]
    simp only [Option.map_some, same]
    cases bindsBody parent.label children.length ⟨i, j, e.role⟩ <;> rfl

/-- The scan refuses arcs that are not plain, and notes all of them else. -/
theorem scan_eq {g : Graph} (sound : g.Sound) (parent : Node) (children : List Nat) :
    scan g parent children (children.length - 1) =
      if Plain (g.siblingArcs parent.label children) then
        .ok (.ofArcs children.length (g.siblingArcs parent.label children))
      else refuse (.invalidChildArrangement parent) := by
  rw [scan_eq_foldlM sound, Links.start_eq,
    Links.foldlM_note (by simp [Plain]) fun _ h => bounded_of_mem_siblingArcs h, List.nil_append]

theorem heads_ofArcs {count : Nat} {arcs : List Edge} {is : List Nat}
    (inside : ∀ i ∈ is, i < count) :
    heads (.ofArcs count arcs) is = .ok (is.filter (!(arcs.map (·.target)).contains ·)) := by
  induction is with
  | nil => rfl
  | cons i is ih =>
    obtain ⟨here, rest⟩ := List.forall_mem_cons.mp inside
    have seen : (fetch (Links.ofArcs count arcs).entered i : Checked DecodeError _) =
        .ok ((arcs.map (·.target)).contains i) := fetch_of_getElem? (by simp [Links.ofArcs, here])
    rw [heads, seen, ih rest, List.filter_cons]
    cases (arcs.map (·.target)).contains i <;> rfl

/-- The walk passes the positions that following the arcs passes, if there is room for them. -/
theorem walk_ofArcs {children : List Nat} {arcs : List Edge}
    (bounded : ∀ e ∈ arcs, e.target < children.length) {room i : Nat}
    (hi : i < children.length) (enough : (follow arcs (room + 1) i).length ≤ room) :
    walk children (.ofArcs children.length arcs) room (some i) =
      .ok ((follow arcs (room + 1) i).filterMap (children[·]?)) := by
  induction room generalizing i with
  | zero => simp [follow] at enough
  | succ room ih =>
    have next : (fetch (Links.ofArcs children.length arcs).next i : Checked DecodeError _) =
        .ok (nextOf? arcs i) := fetch_of_getElem? (by simp [Links.ofArcs, hi])
    have child := List.getElem?_eq_getElem hi
    rw [walk, fetch_of_getElem? child, next, follow, List.filterMap_cons, child]
    cases found : nextOf? arcs i with
    | none =>
      change (walk children _ room none >>= _) = _
      rw [walk_none]
      rfl
    | some j =>
      -- the links lead to positions only, so the walk can go on from there
      obtain ⟨e, he, _, rfl⟩ := mem_of_nextOf?_eq_some found
      rw [follow, found] at enough
      have rest := ih (bounded e he) (by simpa using enough)
      change (walk children _ room (some e.target) >>= _) = _
      rw [rest]
      rfl

/-- The only position that no arc enters is a position, and no arc enters it. -/
theorem head_of_filter {count head : Nat} {arcs : List Edge}
    (only : (List.range count).filter (!(arcs.map (·.target)).contains ·) = [head]) :
    head < count ∧ head ∉ arcs.map (·.target) := by
  have member : head ∈ [head] := List.mem_singleton_self head
  rw [← only, List.mem_filter] at member
  exact ⟨List.mem_range.mp member.1, by simpa using member.2⟩

/-- Following plain arcs from where none of them ends passes every position at most once, however
long one follows them. -/
theorem follow_length_le {count head : Nat} {arcs : List Edge} (plain : Plain arcs)
    (bounded : ∀ e ∈ arcs, e.target < count)
    (only : (List.range count).filter (!(arcs.map (·.target)).contains ·) = [head]) (fuel : Nat) :
    (follow arcs fuel head).Nodup ∧ (follow arcs fuel head).length ≤ count := by
  obtain ⟨inside, start⟩ := head_of_filter only
  have nodup := nodup_follow plain.2.2 start fuel
  have within : follow arcs fuel head ⊆ List.range count :=
    fun i hi => List.mem_range.mpr (follow_lt bounded inside hi)
  exact ⟨nodup, by simpa using (List.subperm_of_subset nodup within).length_le⟩

theorem plain_iff {arcs : List Edge} :
    Plain arcs ↔
      (arcs.all (·.role == .ncs) && (arcs.map (·.source)).Nodup && (arcs.map (·.target)).Nodup) =
        true := by
  simp [Plain, and_assoc]

theorem pathOrder?_of_not_plain {arcs : List Edge} (broken : ¬ Plain arcs) (count : Nat) :
    pathOrder? arcs count = none := if_neg (plain_iff.not.mp broken)

theorem pathOrder?_of_plain {arcs : List Edge} (plain : Plain arcs) (count : Nat) :
    pathOrder? arcs count =
      match (List.range count).filter (!(arcs.map (·.target)).contains ·) with
      | [head] =>
        if (follow arcs (count + 1) head).length = count then some (follow arcs (count + 1) head)
        else none
      | _ => none := if_pos (plain_iff.mp plain)

/-- Where arcs were noted, the walk from the only head finds the order of siblings. -/
theorem walkFrom_ofArcs {parent : Node} {children : List Nat} {arcs : List Edge}
    (plain : Plain arcs) (bounded : ∀ e ∈ arcs, e.target < children.length) :
    walkFrom parent children (.ofArcs children.length arcs)
        ((List.range children.length).filter (!(arcs.map (·.target)).contains ·)) =
      match (pathOrder? arcs children.length).map (·.filterMap (children[·]?)) with
      | some ordered => .ok ordered
      | none => refuse (.invalidChildArrangement parent) := by
  rw [pathOrder?_of_plain plain]
  generalize only : (List.range children.length).filter (!(arcs.map (·.target)).contains ·) = free
  rcases free with _ | ⟨head, _ | ⟨second, others⟩⟩
  case nil => rfl
  case cons.cons => rfl
  case cons.nil =>
    have inside := (head_of_filter only).1
    have enough := (follow_length_le plain bounded only (children.length + 1)).2
    have full : ((follow arcs (children.length + 1) head).filterMap (children[·]?)).length =
        (follow arcs (children.length + 1) head).length := by
      rw [filterMap_getElem?_eq_map fun i hi => follow_lt bounded inside hi, List.length_map]
    rw [walkFrom, walk_ofArcs bounded inside enough]
    change (if _ = _ then _ else _) = _
    rw [full]
    dsimp only
    split <;> rfl

/-- The order of arguments is found without faults. -/
theorem orderSiblings_eq {g : Graph} (sound : g.Sound) (parent : Node) (children : List Nat) :
    orderSiblings g parent children =
      match g.orderSiblings? parent.label children with
      | some ordered => .ok ordered
      | none => refuse (.invalidChildArrangement parent) := by
  by_cases few : children.length < 2
  · simp [orderSiblings, orderSiblings?, few]
  have inside := fun arc (h : arc ∈ g.siblingArcs parent.label children) =>
    bounded_of_mem_siblingArcs h
  rw [orderSiblings, if_neg few, minus_of_le (by omega), orderSiblings?, if_neg few]
  change (scan g parent children (children.length - 1) >>= _) = _
  rw [scan_eq sound]
  generalize g.siblingArcs parent.label children = arcs at inside ⊢
  by_cases none : arcs = []
  · subst none
    rfl
  have shown : arcs.isEmpty = false := by simpa using none
  simp only [shown, Bool.false_eq_true, if_false]
  by_cases plain : Plain arcs
  · have noted : (Links.ofArcs children.length arcs).count ≠ 0 := by simpa [Links.ofArcs] using none
    rw [if_pos plain, ← walkFrom_ofArcs plain fun e he => (inside e he).2]
    change (if _ then _ else heads _ _ >>= _) = _
    rw [if_neg noted, heads_ofArcs fun i hi => List.mem_range.mp hi]
    rfl
  · rw [if_neg plain, pathOrder?_of_not_plain plain]
    rfl

theorem arguments_eq {g : Graph} (sound : g.Sound) (n : Node) :
    arguments g n = safe (g.arguments n) := by
  rw [arguments, children_eq sound]
  change orderSiblings g n (g.children n.id) = _
  rw [orderSiblings_eq sound, Graph.arguments]
  cases g.orderSiblings? n.label (g.children n.id) <;> rfl

end FolGraph.Checked
