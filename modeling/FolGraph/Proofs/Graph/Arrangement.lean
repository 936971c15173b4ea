import FolGraph.Proofs.Graph.Built
import FolGraph.Proofs.Graph.Path

/-!
# Arrangements of arguments

The order of the arguments of a node is computed on positions in the list of arguments. Here it is
stated on the nodes themselves: `Arranged` says that no arc between the arguments bears on their
order, or that the arcs that do are exactly a path through all of them. `orderSiblings?_eq_some_iff`
says that the computation finds such an order exactly if there is one.
-/

namespace FolGraph.Graph

/-- Whether an arc is one from another argument of a quantifier into the argument inserted last. -/
def entersBody (label : String) (children : List Nat) (e : Edge) : Bool :=
  isQuantifier label && e.role == .ddg && e.source != e.target &&
    children.getLast? == some e.target

theorem entersBody_iff {label : String} {children : List Nat} {e : Edge} :
    entersBody label children e = true ↔
      isQuantifier label = true ∧ e.role = .ddg ∧ e.source ≠ e.target ∧
        children.getLast? = some e.target := by
  simp [entersBody, and_assoc]

/-- The arcs between the arguments of a node that bear on their order. -/
def argumentArcs (g : Graph) (label : String) (children : List Nat) : List Edge :=
  g.edges.filter fun e =>
    (children.contains e.source && children.contains e.target) && !entersBody label children e

theorem mem_argumentArcs {g : Graph} {label : String} {children : List Nat} {e : Edge} :
    e ∈ g.argumentArcs label children ↔
      e ∈ g.edges ∧ e.source ∈ children ∧ e.target ∈ children ∧
        entersBody label children e = false := by
  simp [argumentArcs, and_assoc]

/-- An order of the arguments of a node: that of insertion if no arc runs between them, else that
of the path which the arcs between them form. -/
def Arranged (g : Graph) (label : String) (children ordered : List Nat) : Prop :=
  (g.argumentArcs label children = [] ∧ ordered = children) ∨
    (ordered.Perm children ∧ (g.argumentArcs label children).Perm (chainArcs ordered))

/-- The arcs between arguments, with positions in the list of arguments in place of ids. -/
def positionArcs (g : Graph) (children : List Nat) : List Edge :=
  children.zipIdx.flatMap fun (child, i) =>
    (g.outEdges child).filterMap fun e =>
      (lastIndexOf? e.target children).map fun j => ⟨i, j, e.role⟩

/-- The arc between the arguments at two positions. -/
def resolve (children : List Nat) (arc : Edge) : Edge :=
  ⟨children[arc.source]?.getD 0, children[arc.target]?.getD 0, arc.role⟩

/-- The positions of the ends of an arc between arguments. -/
def locate (children : List Nat) (e : Edge) : Edge :=
  ⟨children.idxOf e.source, children.idxOf e.target, e.role⟩

theorem getElem?_of_lastIndexOf? {x j : Nat} {xs : List Nat} (h : lastIndexOf? x xs = some j) :
    xs[j]? = some x := by
  obtain ⟨i, found, rfl⟩ := Option.map_eq_some_iff.mp h
  obtain ⟨bound, rfl, _⟩ := List.idxOf?_eq_some_iff.mp found
  rw [List.length_reverse] at bound
  rw [List.getElem_reverse, List.getElem?_eq_getElem]

theorem lastIndexOf?_eq_none {x : Nat} {xs : List Nat} :
    lastIndexOf? x xs = none ↔ x ∉ xs := by
  simp [lastIndexOf?, List.idxOf?_eq_none_iff]

theorem siblingArcs_eq (g : Graph) (label : String) (children : List Nat) :
    g.siblingArcs label children =
      (g.positionArcs children).filter fun arc => !bindsBody label children.length arc := rfl

theorem bounded_of_mem_positionArcs {g : Graph} {children : List Nat} {arc : Edge}
    (h : arc ∈ g.positionArcs children) :
    arc.source < children.length ∧ arc.target < children.length := by
  simp only [positionArcs, List.mem_flatMap, List.mem_filterMap] at h
  obtain ⟨⟨child, i⟩, hi, e, _, he⟩ := h
  obtain ⟨j, found, rfl⟩ := Option.map_eq_some_iff.mp he
  exact ⟨(List.getElem?_eq_some_iff.mp (List.mem_zipIdx_iff_getElem?.mp hi)).1,
    (List.getElem?_eq_some_iff.mp (getElem?_of_lastIndexOf? found)).1⟩

theorem bounded_of_mem_siblingArcs {g : Graph} {label : String} {children : List Nat} {arc : Edge}
    (h : arc ∈ g.siblingArcs label children) :
    arc.source < children.length ∧ arc.target < children.length := by
  rw [siblingArcs_eq, List.mem_filter] at h
  exact bounded_of_mem_positionArcs h.1

/-- With ids put back, the arcs between arguments are those of the graph, argument by argument. -/
theorem map_resolve_positionArcs {g : Graph} (sound : g.Sound) (children : List Nat) :
    (g.positionArcs children).map (resolve children) =
      children.flatMap fun c => (g.outEdges c).filter fun e => children.contains e.target := by
  have numbered (f : Nat → List Edge) :
      children.flatMap f = children.zipIdx.flatMap fun ci => f ci.1 := by
    rw [← List.flatMap_map Prod.fst f, List.zipIdx_map_fst]
  rw [numbered, positionArcs, List.map_flatMap]
  apply List.flatMap_congr
  rintro ⟨c, i⟩ hc
  have hi := List.mem_zipIdx_iff_getElem?.mp hc
  rw [List.map_filterMap, ← List.filterMap_eq_filter]
  apply List.filterMap_congr
  intro e he
  have source : e.source = c := by
    rw [sound.outEdges_eq] at he
    simpa using (List.mem_filter.mp he).2
  cases found : lastIndexOf? e.target children with
  | none =>
    have absent := lastIndexOf?_eq_none.mp found
    simp [Option.guard, absent]
  | some j =>
    have target := getElem?_of_lastIndexOf? found
    have present : e.target ∈ children := List.mem_of_getElem? target
    simp [Option.guard, present, resolve, hi, target, ← source]

theorem flatMap_filter_perm {children : List Nat} (nodup : children.Nodup) (es : List Edge) :
    (children.flatMap fun c => es.filter (·.source == c)).Perm
      (es.filter fun e => children.contains e.source) := by
  induction children with
  | nil => simp
  | cons c cs ih =>
    obtain ⟨new, rest⟩ := List.nodup_cons.mp nodup
    have here : es.filter (·.source == c) =
        (es.filter fun e => (c :: cs).contains e.source).filter (·.source == c) := by
      rw [List.filter_filter]
      apply List.filter_congr
      intro e _
      by_cases h : e.source = c <;> simp [h]
    have elsewhere : (es.filter fun e => cs.contains e.source) =
        (es.filter fun e => (c :: cs).contains e.source).filter (!·.source == c) := by
      rw [List.filter_filter]
      apply List.filter_congr
      intro e _
      by_cases h : e.source = c <;> simp [h, new]
    rw [List.flatMap_cons, here]
    refine ((ih rest).append_left _).trans ?_
    rw [elsewhere]
    exact List.filter_append_perm _ _

theorem bindsBody_eq_entersBody {label : String} {children : List Nat} (nodup : children.Nodup)
    {arc : Edge} (hs : arc.source < children.length) (ht : arc.target < children.length) :
    bindsBody label children.length arc = entersBody label children (resolve children arc) := by
  have last : children.getLast? = children[children.length - 1]? := List.getLast?_eq_getElem?
  have apart : ∀ {i j : Nat} (hi : i < children.length) (hj : j < children.length),
      children[i] = children[j] ↔ i = j := fun _ _ => nodup.getElem_inj_iff
  rw [Bool.eq_iff_iff]
  simp only [bindsBody, entersBody, resolve, last, List.getElem?_eq_getElem hs,
    List.getElem?_eq_getElem ht, List.getElem?_eq_getElem (show children.length - 1 <
      children.length by omega), Option.getD_some, Bool.and_eq_true, decide_eq_true_eq,
    beq_iff_eq, bne_iff_ne, ne_eq, Option.some.injEq, apart]
  constructor
  · rintro ⟨⟨kind, source⟩, target⟩
    exact ⟨⟨kind, by omega⟩, by omega⟩
  · rintro ⟨⟨kind, source⟩, target⟩
    exact ⟨⟨kind, by omega⟩, by omega⟩

/-- The arcs that the order of siblings is read off are those between the arguments. -/
theorem map_resolve_siblingArcs {g : Graph} (sound : g.Sound) (label : String)
    {children : List Nat} (nodup : children.Nodup) :
    ((g.siblingArcs label children).map (resolve children)).Perm
      (g.argumentArcs label children) := by
  have kept : (g.siblingArcs label children).map (resolve children) =
      ((g.positionArcs children).map (resolve children)).filter
        fun e => !entersBody label children e := by
    rw [siblingArcs_eq, List.filter_map]
    congr 1
    apply List.filter_congr
    intro arc harc
    obtain ⟨hs, ht⟩ := bounded_of_mem_positionArcs harc
    rw [bindsBody_eq_entersBody nodup hs ht]
    rfl
  have between : ((g.positionArcs children).map (resolve children)).Perm
      (g.edges.filter fun e => children.contains e.source && children.contains e.target) := by
    have grouped := (flatMap_filter_perm nodup
      (g.edges.filter fun e => children.contains e.target))
    rw [List.filter_filter] at grouped
    rw [map_resolve_positionArcs sound]
    simpa only [sound.outEdges_eq, List.filter_filter, Bool.and_comm] using grouped
  rw [kept, argumentArcs]
  have filtered := between.filter fun e => !entersBody label children e
  rw [List.filter_filter] at filtered
  simpa only [Bool.and_comm] using filtered

theorem locate_resolve {children : List Nat} (nodup : children.Nodup) {arc : Edge}
    (hs : arc.source < children.length) (ht : arc.target < children.length) :
    locate children (resolve children arc) = arc := by
  simp only [locate, resolve, List.getElem?_eq_getElem hs, List.getElem?_eq_getElem ht,
    Option.getD_some, nodup.idxOf_getElem]

theorem map_locate_siblingArcs {g : Graph} {label : String} {children : List Nat}
    (nodup : children.Nodup) :
    ((g.siblingArcs label children).map (resolve children)).map (locate children) =
      g.siblingArcs label children := by
  rw [List.map_map]
  conv_rhs => rw [← List.map_id (g.siblingArcs label children)]
  apply List.map_congr_left
  intro arc harc
  obtain ⟨hs, ht⟩ := bounded_of_mem_siblingArcs harc
  exact locate_resolve nodup hs ht

theorem exists_lastIndexOf? {x : Nat} {xs : List Nat} (member : x ∈ xs) :
    ∃ j, lastIndexOf? x xs = some j :=
  Option.ne_none_iff_exists'.mp fun none => lastIndexOf?_eq_none.mp none member

/-- An argument is the last one exactly if its last position is the last. -/
theorem lastIndexOf?_succ_eq_length {x j : Nat} {xs : List Nat}
    (found : lastIndexOf? x xs = some j) : j + 1 = xs.length ↔ xs.getLast? = some x := by
  constructor
  · intro last
    rw [List.getLast?_eq_getElem?, ← last]
    exact getElem?_of_lastIndexOf? found
  · intro last
    rw [← List.head?_reverse, List.head?_eq_getElem?] at last
    obtain ⟨i, first, rfl⟩ := Option.map_eq_some_iff.mp found
    obtain ⟨bound, _, before⟩ := List.idxOf?_eq_some_iff.mp first
    rw [List.length_reverse] at bound
    have front : i = 0 := by
      by_contra later
      have other := before 0 (by omega)
      obtain ⟨_, here⟩ := List.getElem?_eq_some_iff.mp last
      exact other here
    omega

theorem mem_siblingArcs {g : Graph} (sound : g.Sound) {label : String} {children : List Nat}
    {arc : Edge} :
    arc ∈ g.siblingArcs label children ↔
      (∃ e ∈ g.edges, children[arc.source]? = some e.source ∧
        lastIndexOf? e.target children = some arc.target ∧ e.role = arc.role) ∧
        bindsBody label children.length arc = false := by
  rw [siblingArcs_eq, List.mem_filter, positionArcs, Bool.not_eq_true']
  refine and_congr_left fun _ => ?_
  simp only [List.mem_flatMap, List.mem_filterMap, sound.outEdges_eq, List.mem_filter, beq_iff_eq,
    Option.map_eq_some_iff]
  constructor
  · rintro ⟨⟨child, i⟩, hi, e, ⟨he, rfl⟩, j, hj, rfl⟩
    exact ⟨e, he, List.mem_zipIdx_iff_getElem?.mp hi, hj, rfl⟩
  · rintro ⟨e, he, hi, hj, role⟩
    exact ⟨(e.source, arc.source), List.mem_zipIdx_iff_getElem?.mpr hi, e, ⟨he, rfl⟩, arc.target,
      hj, by rw [role]⟩

/-- No arc between positions bears on the order exactly if none between arguments does, also where
an argument is listed several times. -/
theorem siblingArcs_eq_nil_iff {g : Graph} (sound : g.Sound) (label : String)
    (children : List Nat) :
    g.siblingArcs label children = [] ↔ g.argumentArcs label children = [] := by
  simp only [List.eq_nil_iff_forall_not_mem]
  constructor
  · intro none e he
    obtain ⟨he, source, target, bears⟩ := mem_argumentArcs.mp he
    obtain ⟨i, hi⟩ := exists_lastIndexOf? source
    obtain ⟨j, hj⟩ := exists_lastIndexOf? target
    refine none ⟨i, j, e.role⟩ ((mem_siblingArcs sound).mpr
      ⟨⟨e, he, getElem?_of_lastIndexOf? hi, hj, rfl⟩, ?_⟩)
    by_contra binds
    obtain ⟨⟨⟨kind, ddg⟩, before⟩, body⟩ := by
      simpa only [bindsBody, Bool.not_eq_false, Bool.and_eq_true, beq_iff_eq,
        decide_eq_true_eq] using binds
    have apart : e.source ≠ e.target := by
      intro same
      rw [same, hj] at hi
      obtain rfl := Option.some.inj hi
      omega
    have enters := entersBody_iff.mpr ⟨kind, ddg, apart, (lastIndexOf?_succ_eq_length hj).mp body⟩
    rw [bears] at enters
    cases enters
  · intro none arc harc
    obtain ⟨⟨e, he, hi, hj, role⟩, bears⟩ := (mem_siblingArcs sound).mp harc
    have target := getElem?_of_lastIndexOf? hj
    refine none e (mem_argumentArcs.mpr
      ⟨he, List.mem_of_getElem? hi, List.mem_of_getElem? target, ?_⟩)
    -- an arc into the body leads to the last position, and such arcs were left out already
    by_contra enters
    obtain ⟨kind, ddg, apart, last⟩ := entersBody_iff.mp (by simpa using enters)
    have body := (lastIndexOf?_succ_eq_length hj).mpr last
    have early : arc.source ≠ arc.target := by
      intro same
      rw [same, target] at hi
      exact apart (Option.some.inj hi).symm
    have bound := (List.getElem?_eq_some_iff.mp hi).1
    have binds : arc.source + 1 < children.length := by omega
    simp [bindsBody, kind, ← role, ddg, binds, body] at bears

theorem filterMap_getElem?_eq_map {children path : List Nat}
    (within : ∀ i ∈ path, i < children.length) :
    path.filterMap (children[·]?) = path.map fun i => children[i]?.getD 0 := by
  rw [← List.filterMap_eq_map]
  apply List.filterMap_congr
  intro i hi
  simp [List.getElem?_eq_getElem (within i hi)]

theorem filterMap_getElem?_range (children : List Nat) :
    (List.range children.length).filterMap (children[·]?) = children := by
  induction children using List.reverseRecOn with
  | nil => rfl
  | append_singleton cs c ih =>
    have old : (List.range cs.length).filterMap ((cs ++ [c])[·]?) = cs := by
      conv_rhs => rw [← ih]
      apply List.filterMap_congr
      intro i hi
      exact List.getElem?_append_left (List.mem_range.mp hi)
    rw [List.length_append, List.length_singleton, List.range_succ, List.filterMap_append, old]
    simp

/-- An order of siblings lists the arguments, each as often as there are arcs to it. -/
theorem perm_of_orderSiblings? {g : Graph} {label : String} {children ordered : List Nat}
    (h : g.orderSiblings? label children = some ordered) : ordered.Perm children := by
  unfold orderSiblings? at h
  split at h
  case isTrue => exact .of_eq (Option.some.inj h).symm
  case isFalse several =>
    simp only at h
    split at h
    case isTrue => exact .of_eq (Option.some.inj h).symm
    case isFalse =>
      obtain ⟨path, found, rfl⟩ := Option.map_eq_some_iff.mp h
      have bounded : ∀ arc ∈ g.siblingArcs label children, arc.target < children.length :=
        fun _ harc => (bounded_of_mem_siblingArcs harc).2
      have all := ((pathOrder?_eq_some_iff bounded (by omega)).mp found).1
      exact (all.filterMap _).trans (.of_eq (filterMap_getElem?_range children))

theorem orderSiblings?_of_length_lt_two {g : Graph} {label : String} {children : List Nat}
    (few : children.length < 2) : g.orderSiblings? label children = some children := by
  rw [orderSiblings?, if_pos few]

/-- A path through the positions of the arguments is a path through the arguments. -/
theorem exists_path_iff {g : Graph} (sound : g.Sound) {label : String}
    {children ordered : List Nat} (nodup : children.Nodup) :
    (∃ path, (path.Perm (List.range children.length) ∧
        (g.siblingArcs label children).Perm (chainArcs path)) ∧
        path.filterMap (children[·]?) = ordered) ↔
      ordered.Perm children ∧ (g.argumentArcs label children).Perm (chainArcs ordered) := by
  have same := map_resolve_siblingArcs sound label nodup
  constructor
  · rintro ⟨path, ⟨all, chain⟩, rfl⟩
    have within : ∀ i ∈ path, i < children.length :=
      fun i hi => List.mem_range.mp (all.mem_iff.mp hi)
    refine ⟨(all.filterMap _).trans (.of_eq (filterMap_getElem?_range children)), ?_⟩
    rw [filterMap_getElem?_eq_map within, chainArcs_map]
    exact same.symm.trans (chain.map (resolve children))
  · rintro ⟨all, chain⟩
    refine ⟨ordered.map children.idxOf, ⟨?_, ?_⟩, ?_⟩
    · refine (all.map _).trans (.of_eq ?_)
      apply List.ext_getElem (by simp)
      intro i hi _
      simp [nodup.idxOf_getElem]
    · rw [chainArcs_map]
      have located := (same.trans chain).map (locate children)
      rwa [map_locate_siblingArcs nodup] at located
    · rw [List.filterMap_map]
      conv_rhs => rw [← List.filterMap_some (l := ordered)]
      apply List.filterMap_congr
      intro x hx
      exact List.getElem?_idxOf (all.mem_iff.mp hx)

/-- Arguments get an order exactly if they are arranged, and then it is the one they get. -/
theorem orderSiblings?_eq_some_iff {g : Graph} (sound : g.Sound) {label : String}
    {children ordered : List Nat} (nodup : children.Nodup) (several : 2 ≤ children.length) :
    g.orderSiblings? label children = some ordered ↔ g.Arranged label children ordered := by
  have bounded : ∀ arc ∈ g.siblingArcs label children, arc.target < children.length :=
    fun _ harc => (bounded_of_mem_siblingArcs harc).2
  have unlinked := siblingArcs_eq_nil_iff sound label children
  unfold orderSiblings?
  rw [if_neg (by omega)]
  simp only
  by_cases none : g.siblingArcs label children = []
  · simp only [none, List.isEmpty_nil, if_true, Option.some.injEq]
    constructor
    · rintro rfl
      exact Or.inl ⟨unlinked.mp none, rfl⟩
    · rintro (⟨_, rfl⟩ | ⟨all, chain⟩)
      · rfl
      · have length := chain.length_eq
        rw [unlinked.mp none, length_chainArcs, all.length_eq, List.length_nil] at length
        omega
  · have shown : (g.siblingArcs label children).isEmpty = false := by simpa using none
    simp only [shown, Bool.false_eq_true, if_false, Option.map_eq_some_iff,
      pathOrder?_eq_some_iff bounded (show 0 < children.length by omega),
      exists_path_iff sound nodup, Arranged]
    constructor
    · exact Or.inr
    · rintro (⟨apart, _⟩ | path)
      · exact absurd (unlinked.mpr apart) none
      · exact path

/-- Arguments have an order exactly if no arc bears on it or the arcs that do are a path. -/
theorem exists_orderSiblings?_iff {g : Graph} (sound : g.Sound) {label : String}
    {children : List Nat} (nodup : children.Nodup) (several : 2 ≤ children.length) :
    (∃ ordered, g.orderSiblings? label children = some ordered) ↔
      g.argumentArcs label children = [] ∨
        ∃ path, path.Perm children ∧ (g.argumentArcs label children).Perm (chainArcs path) := by
  simp only [orderSiblings?_eq_some_iff sound nodup several, Arranged]
  constructor
  · rintro ⟨ordered, ⟨none, _⟩ | path⟩
    · exact Or.inl none
    · exact Or.inr ⟨ordered, path⟩
  · rintro (none | ⟨ordered, path⟩)
    · exact ⟨children, Or.inl ⟨none, rfl⟩⟩
    · exact ⟨ordered, Or.inr path⟩

end FolGraph.Graph
