import FolGraph.Proofs.Encoding.RoundTrip
import FolGraph.Proofs.Graph.Strict

/-!
# Faults of arity

What a strict reading reports of the graph of a formula: the first node in pre-order that does not
keep its arity. `FaultAt` says of a position what is reported of it. A node is checked before its
arguments are read, from the first to the last, so a reading comes upon the faults in pre-order:
`read_encode_of_firstFault` says that it stops at the first of them.
-/

namespace FolGraph.Formula

/-- A node has another number of arguments than its label asks for. -/
inductive WrongCount (s : Formula) (expected : Arity) : Prop where
  | negation (label : s.label = "~") (count : s.args.length ≠ 1)
      (text : expected.text = "exactly 1")
  | equality (label : s.label = "=" ∨ s.label = "!=") (count : s.args.length ≠ 2)
      (text : expected.text = "exactly 2")
  | quantifier (label : s.label = "!" ∨ s.label = "?") (count : s.args.length < 2)
      (text : expected.text = "at least 2")

/-- The argument number `i` of a quantifier is the first declaration that has arguments. -/
structure FirstCompound (s : Formula) (i : Nat) (d : Formula) : Prop where
  quantifier : s.label = "!" ∨ s.label = "?"
  declaration : i + 1 < s.args.length
  arg : s.args[i]? = some d
  compound : d.args ≠ []
  before : ∀ j < i, ∀ c, s.args[j]? = some c → c.args = []

/-- What is reported of the node at a position that does not keep its arity. -/
inductive FaultAt (f : Formula) (p : List Nat) : DecodeError → Prop where
  | count {s : Formula} {expected : Arity} (found : f.sub? p = some s)
      (wrong : s.WrongCount expected) :
      FaultAt f p
        (.wrongSuccessorCount ⟨f.index p, .ofLabel s.label, s.label⟩ expected s.args.length)
  | declaration {s d : Formula} {i : Nat} (found : f.sub? p = some s)
      (first : s.FirstCompound i d) :
      FaultAt f p
        (.nonTerminalNameNode ⟨f.index (p ++ [i]), .ofLabel d.label, d.label⟩ d.args.length)

/-- The node at a position keeps its arity. -/
def KeepsAt (f : Formula) (p : List Nat) : Prop := ∀ s, f.sub? p = some s → s.KeepsArity

/-- What is reported of the first of some positions that does not keep its arity. -/
def FirstFault (f : Formula) (ps : List (List Nat)) (cause : DecodeError) : Prop :=
  ∃ before q after, ps = before ++ q :: after ∧ (∀ r ∈ before, f.KeepsAt r) ∧ f.FaultAt q cause

/-! ## The check of one node -/

theorem wrongCount_iff {s : Formula} {expected : Arity} :
    s.WrongCount expected ↔
      Arity.ofLabel? s.label = some expected ∧ expected.admits s.args.length = false := by
  constructor
  · rintro (⟨label, count, text⟩ | ⟨label, count, text⟩ | ⟨label, count, text⟩)
    · cases expected <;> simp_all [Arity.text, Arity.ofLabel?, Arity.admits]
    · cases expected <;> rcases label with label | label <;>
        simp_all [Arity.text, Arity.ofLabel?, Arity.admits]
    · cases expected <;> rcases label with label | label <;>
        simp_all [Arity.text, Arity.ofLabel?, Arity.admits, isQuantifier]
  · rintro ⟨arity, count⟩
    unfold Arity.ofLabel? at arity
    split at arity
    case isTrue label =>
      obtain rfl := Option.some.inj arity
      exact .negation (by simpa using label) (by simpa [Arity.admits] using count) rfl
    case isFalse =>
      split at arity
      case isTrue label =>
        obtain rfl := Option.some.inj arity
        exact .equality (by simpa using label) (by simpa [Arity.admits] using count) rfl
      case isFalse =>
        split at arity
        case isTrue label =>
          obtain rfl := Option.some.inj arity
          exact .quantifier (isQuantifier_iff.mp label) (by simpa [Arity.admits] using count) rfl
        case isFalse => cases arity

section
variable {f s : Formula} {p : List Nat} {cause : DecodeError}

theorem length_children_encode (hs : f.sub? p = some s) :
    (f.encode.children (f.index p)).length = s.args.length := by
  rw [children_encode hs, List.length_map, List.length_range]

theorem children_encode_eq_nil_iff (hs : f.sub? p = some s) :
    f.encode.children (f.index p) = [] ↔ s.args = [] := by
  rw [← List.length_eq_zero_iff, length_children_encode hs, List.length_eq_zero_iff]

/-- The declarations of a node are its arguments but the last, each at its position. -/
theorem getElem?_dropLast_children (hs : f.sub? p = some s) {i id : Nat} :
    (f.encode.children (f.index p)).dropLast[i]? = some id ↔
      i + 1 < s.args.length ∧ id = f.index (p ++ [i]) := by
  rw [List.getElem?_dropLast, length_children_encode hs, children_encode hs]
  by_cases early : i + 1 < s.args.length
  · rw [if_pos (by omega), List.getElem?_map, List.getElem?_range (by omega)]
    simp [early, eq_comm]
  · rw [if_neg (by omega)]
    simp [early]

/-- The declarations of an encoded node fail at the first one that has arguments. -/
theorem checkDeclarations_encode_eq_error_iff (hs : f.sub? p = some s) :
    f.encode.checkDeclarations (f.encode.children (f.index p)).dropLast = .error cause ↔
      ∃ i d, i + 1 < s.args.length ∧ s.args[i]? = some d ∧ d.args ≠ [] ∧
        (∀ j < i, ∀ c, s.args[j]? = some c → c.args = []) ∧
        cause = .nonTerminalNameNode ⟨f.index (p ++ [i]), .ofLabel d.label, d.label⟩
          d.args.length := by
  have argument : ∀ {i d}, s.args[i]? = some d → f.sub? (p ++ [i]) = some d :=
    fun ha => (sub?_snoc hs _).trans ha
  rw [Graph.checkDeclarations_eq_error_iff]
  · simp only [getElem?_dropLast_children hs]
    constructor
    · rintro ⟨i, _, n, ⟨early, rfl⟩, found, some, before, rfl⟩
      have ha := List.getElem?_eq_getElem (Nat.lt_of_succ_lt early)
      have hd := argument ha
      obtain rfl := Option.some.inj ((node?_encode hd).symm.trans found)
      refine ⟨i, _, early, ha, mt (children_encode_eq_nil_iff hd).mpr some, fun j hj c hc => ?_, ?_⟩
      · exact (children_encode_eq_nil_iff (argument hc)).mp (before j hj _ ⟨by omega, rfl⟩)
      · rw [length_children_encode hd]
    · rintro ⟨i, d, early, ha, some, before, rfl⟩
      have hd := argument ha
      refine ⟨i, _, _, ⟨early, rfl⟩, node?_encode hd, mt (children_encode_eq_nil_iff hd).mp some,
        ?_, ?_⟩
      · rintro j hj _ ⟨early', rfl⟩
        have hc := List.getElem?_eq_getElem (Nat.lt_of_succ_lt early')
        exact (children_encode_eq_nil_iff (argument hc)).mpr (before j hj _ hc)
      · rw [length_children_encode hd]
  · intro id hid
    obtain ⟨i, hi⟩ := List.mem_iff_getElem?.mp hid
    obtain ⟨early, rfl⟩ := (getElem?_dropLast_children hs).mp hi
    exact ⟨_, node?_encode (argument (List.getElem?_eq_getElem (Nat.lt_of_succ_lt early)))⟩

/-- The check of a node reports what is wrong with it. -/
theorem checkArity_encode_eq_error_iff (hs : f.sub? p = some s) :
    f.encode.checkArity ⟨f.index p, .ofLabel s.label, s.label⟩ (f.encode.children (f.index p)) =
      .error cause ↔ f.FaultAt p cause := by
  rw [Graph.checkArity_eq_error_iff, length_children_encode hs,
    checkDeclarations_encode_eq_error_iff hs]
  constructor
  · rintro (⟨expected, arity, count, rfl⟩ | ⟨_, kind, i, d, early, ha, some, before, rfl⟩)
    · exact .count hs (wrongCount_iff.mpr ⟨arity, count⟩)
    · exact .declaration hs ⟨isQuantifier_iff.mp kind, early, ha, some, before⟩
  · intro fault
    cases fault with
    | @count s' expected found wrong =>
      obtain rfl := Option.some.inj (hs.symm.trans found)
      obtain ⟨arity, count⟩ := wrongCount_iff.mp wrong
      exact Or.inl ⟨expected, arity, count, rfl⟩
    | @declaration s' d i found first =>
      obtain rfl := Option.some.inj (hs.symm.trans found)
      refine Or.inr ⟨?_, isQuantifier_iff.mpr first.quantifier, i, d, first.declaration, first.arg,
        first.compound, first.before, rfl⟩
      have several : 2 ≤ s.args.length := Nat.le_trans (by omega) first.declaration
      rw [admits_iff]
      rcases first.quantifier with label | label <;> simp [label, several]

theorem checkArity_encode_eq_ok_iff (hs : f.sub? p = some s) :
    f.encode.checkArity ⟨f.index p, .ofLabel s.label, s.label⟩ (f.encode.children (f.index p)) =
      .ok () ↔ s.KeepsArity := by
  cases s with
  | node label args =>
    have rest := spellsAll_encode f hs 0 args rfl
    rw [← List.range_eq_range', ← args_node label args, ← children_encode hs] at rest
    exact Graph.checkArity_eq_ok_iff_keepsArity (sound_encode f) rest

/-- Something is reported of a node exactly if it does not keep its arity. -/
theorem exists_faultAt_iff : (∃ cause, f.FaultAt p cause) ↔ ¬ f.KeepsAt p := by
  constructor
  · rintro ⟨cause, fault⟩ keeps
    obtain ⟨s, hs⟩ : ∃ s, f.sub? p = some s := by
      cases fault with
      | count found => exact ⟨_, found⟩
      | declaration found => exact ⟨_, found⟩
    have check := (checkArity_encode_eq_error_iff hs).mpr fault
    rw [(checkArity_encode_eq_ok_iff hs).mpr (keeps s hs)] at check
    cases check
  · intro broken
    simp only [KeepsAt, not_forall] at broken
    obtain ⟨s, hs, broken⟩ := broken
    rw [← checkArity_encode_eq_ok_iff hs] at broken
    cases check : f.encode.checkArity ⟨f.index p, .ofLabel s.label, s.label⟩
        (f.encode.children (f.index p)) with
    | ok => exact absurd check broken
    | error cause => exact ⟨cause, (checkArity_encode_eq_error_iff hs).mp check⟩

/-! ## The first fault -/

theorem not_firstFault_nil : ¬ f.FirstFault [] cause := by
  rintro ⟨before, q, after, empty, _⟩
  simp at empty

theorem firstFault_cons {ps : List (List Nat)} :
    f.FirstFault (p :: ps) cause ↔
      f.FaultAt p cause ∨ (f.KeepsAt p ∧ f.FirstFault ps cause) := by
  constructor
  · rintro ⟨before, q, after, split, keeps, fault⟩
    cases before with
    | nil =>
      obtain rfl := (List.cons.inj split).1
      exact Or.inl fault
    | cons r before =>
      obtain ⟨rfl, rfl⟩ := List.cons.inj split
      obtain ⟨here, keeps⟩ := List.forall_mem_cons.mp keeps
      exact Or.inr ⟨here, before, q, after, rfl, keeps, fault⟩
  · rintro (fault | ⟨here, before, q, after, rfl, keeps, fault⟩)
    · exact ⟨[], p, ps, rfl, by simp, fault⟩
    · exact ⟨p :: before, q, after, rfl, List.forall_mem_cons.mpr ⟨here, keeps⟩, fault⟩

theorem firstFault_append {ps qs : List (List Nat)} :
    f.FirstFault (ps ++ qs) cause ↔
      f.FirstFault ps cause ∨ ((∀ r ∈ ps, f.KeepsAt r) ∧ f.FirstFault qs cause) := by
  induction ps with
  | nil => simp [not_firstFault_nil]
  | cons p ps ih =>
    rw [List.cons_append, firstFault_cons, ih, firstFault_cons, List.forall_mem_cons]
    tauto

theorem exists_firstFault {ps : List (List Nat)} (broken : ∃ p ∈ ps, ¬ f.KeepsAt p) :
    ∃ cause, f.FirstFault ps cause := by
  induction ps with
  | nil => simp at broken
  | cons p ps ih =>
    by_cases here : f.KeepsAt p
    · obtain ⟨q, hq, broken⟩ := broken
      rcases List.mem_cons.mp hq with rfl | later
      · exact absurd here broken
      · obtain ⟨cause, first⟩ := ih ⟨q, later, broken⟩
        exact ⟨cause, firstFault_cons.mpr (Or.inr ⟨here, first⟩)⟩
    · obtain ⟨cause, fault⟩ := exists_faultAt_iff.mpr here
      exact ⟨cause, firstFault_cons.mpr (Or.inl fault)⟩

/-- A part of a formula has its arity if all its positions do. -/
theorem hasArity_of_keepsAt (hs : f.sub? p = some s)
    (keeps : ∀ r ∈ s.positions.map (p ++ ·), f.KeepsAt r) : s.hasArity = true := by
  rw [hasArity_iff]
  intro q t ht
  refine keeps (p ++ q) (List.mem_map.mpr ⟨q, (mem_positions s q).mpr ⟨t, ht⟩, rfl⟩) t ?_
  rw [sub?_append hs, ht]

/-! ## Strict readings -/

/-- A part of the graph that has its arity is read. -/
theorem read_encode_of_keepsAt (hs : f.sub? p = some s) {fuel : Nat} {visited : List Nat}
    (enough : s.height ≤ fuel) (fresh : (List.range' (f.index p) s.size).Disjoint visited)
    (keeps : ∀ r ∈ s.positions.map (p ++ ·), f.KeepsAt r) :
    f.encode.read true fuel (f.index p) visited =
      .ok (s, (List.range' (f.index p) s.size).reverse ++ visited) :=
  (Graph.read_true_eq_ok_iff (sound_encode f)).mpr
    ⟨(spells_encode f s hs).read_eq enough (List.nodup_range' 1) fresh,
      hasArity_of_keepsAt hs keeps⟩

end

mutual

/-- A strict reading stops at the first fault in pre-order. -/
theorem read_encode_of_firstFault {f : Formula} {cause : DecodeError} {fuel : Nat}
    {visited : List Nat} : (s : Formula) → {p : List Nat} → f.sub? p = some s → s.height ≤ fuel →
    (List.range' (f.index p) s.size).Disjoint visited →
    f.FirstFault (s.positions.map (p ++ ·)) cause →
    f.encode.read true fuel (f.index p) visited = .error cause
  | .node label args, p, hs, enough, fresh, first => by
    have start : f.index (p ++ [0]) = f.index p + 1 := by
      rw [index_append hs, index_singleton, List.take_zero, sizeAll]
    rw [height] at enough
    obtain ⟨fuel, rfl⟩ : ∃ n, fuel = n + 1 := ⟨fuel - 1, by omega⟩
    rw [size, Nat.add_comm 1, List.range'_succ, ← start, List.disjoint_cons_left] at fresh
    rw [positions, List.map_cons, List.append_nil, firstFault_cons] at first
    have order := arguments_encode hs
    rw [← children_encode hs] at order
    rcases first with fault | ⟨keeps, first⟩
    · have check := (checkArity_encode_eq_error_iff hs).mpr fault
      exact Graph.read_true_of_check (node?_encode hs) fresh.1 order check
    · have check := (checkArity_encode_eq_ok_iff hs).mpr (keeps _ hs)
      have below : (List.range' (f.index (p ++ [0])) (sizeAll args)).Disjoint
          (f.index p :: visited) := by
        refine List.disjoint_cons_right.mpr ⟨fun member => ?_, fresh.2⟩
        have bound := (List.mem_range'_1.mp member).1
        omega
      have enough : heightAll args ≤ fuel := by omega
      have rest := readAll_encode_of_firstFault hs 0 args rfl enough below first
      rw [← List.range_eq_range', ← args_node label args, ← children_encode hs] at rest
      exact Graph.read_true_of_readAll (node?_encode hs) fresh.1 order check rest

theorem readAll_encode_of_firstFault {f : Formula} {cause : DecodeError} {fuel : Nat}
    {s : Formula} {p : List Nat} (hs : f.sub? p = some s) : (k : Nat) → (fs : List Formula) →
    {visited : List Nat} → s.args.drop k = fs → heightAll fs ≤ fuel →
    (List.range' (f.index (p ++ [k])) (sizeAll fs)).Disjoint visited →
    f.FirstFault ((positionsAll k fs).map (p ++ ·)) cause →
    Graph.readAll (f.encode.read true fuel)
      ((List.range' k fs.length).map fun i => f.index (p ++ [i])) visited = .error cause
  | _, [], _, _, _, _, first => absurd first not_firstFault_nil
  | k, a :: fs, visited, h, enough, fresh, first => by
    have ha : s.args[k]? = some a := by
      rw [← List.head?_drop, h, List.head?_cons]
    have tail : s.args.drop (k + 1) = fs := by
      rw [← List.drop_drop, h, List.drop_one, List.tail_cons]
    have found := (sub?_snoc hs k).trans ha
    have next : f.index (p ++ [k + 1]) = f.index (p ++ [k]) + a.size := by
      rw [index_append hs, index_append hs, index_succ ha, Nat.add_assoc]
    have here : (a.positions.map (k :: ·)).map (p ++ ·) = a.positions.map (p ++ [k] ++ ·) := by
      simp
    have enoughArg : a.height ≤ fuel := by rw [heightAll] at enough; omega
    have enoughRest : heightAll fs ≤ fuel := by rw [heightAll] at enough; omega
    rw [sizeAll, ← List.range'_append_1, ← next, List.disjoint_append_left] at fresh
    rw [positionsAll, List.map_append, here, firstFault_append] at first
    rw [List.length_cons, List.range'_succ, List.map_cons]
    rcases first with first | ⟨keeps, first⟩
    · have fault := read_encode_of_firstFault a found enoughArg fresh.1 first
      exact Graph.readAll_cons_of_error fault _
    · have read := read_encode_of_keepsAt found enoughArg fresh.1 keeps
      refine Graph.readAll_cons_of_ok read ?_
      refine readAll_encode_of_firstFault hs (k + 1) fs tail enoughRest ?_ first
      -- the nodes of the later arguments come after those of this one
      refine List.disjoint_append_right.mpr ⟨fun id later earlier => ?_, fresh.2⟩
      rw [List.mem_reverse, List.mem_range'_1] at earlier
      rw [List.mem_range'_1] at later
      omega

end

/-! ## Strict decoding -/

section
variable {f : Formula} {cause : DecodeError}

theorem decode_true_encode_of_keepsArity (keeps : ∀ p s, f.sub? p = some s → s.KeepsArity) :
    f.encode.decode true = .ok f := by
  have decoded := (Graph.decode_eq_ok_iff (sound_encode f)).mpr (exists_spells_encode f)
  exact (Graph.decode_true_eq_ok_iff_hasArity (sound_encode f)).mpr
    ⟨decoded, (hasArity_iff f).mpr keeps⟩

theorem decode_true_encode_of_firstFault (first : f.FirstFault f.positions cause) :
    f.encode.decode true = .error cause := by
  have enough : f.height ≤ f.encode.size := size_encode f ▸ height_le_size f
  have whole : f.positions.map ([] ++ ·) = f.positions := by simp
  have read := read_encode_of_firstFault f (sub?_nil f) enough (List.disjoint_nil_right _)
    (whole.symm ▸ first)
  rw [index_nil, ← rootId] at read
  rw [Graph.decode, startingNode_encode]
  simp [read, bind, Except.bind]

/-- A strict decoder accepts the graph of a formula unless there is a fault in it, and reports the
first one. -/
theorem decode_true_encode_cases (f : Formula) :
    ((∀ p s, f.sub? p = some s → s.KeepsArity) ∧ f.encode.decode true = .ok f) ∨
      ((¬ ∀ p s, f.sub? p = some s → s.KeepsArity) ∧
        ∃ cause, f.FirstFault f.positions cause ∧ f.encode.decode true = .error cause) := by
  by_cases keeps : ∀ p s, f.sub? p = some s → s.KeepsArity
  · exact Or.inl ⟨keeps, decode_true_encode_of_keepsArity keeps⟩
  · have broken : ∃ p ∈ f.positions, ¬ f.KeepsAt p := by
      simp only [not_forall] at keeps
      obtain ⟨p, s, hs, broken⟩ := keeps
      exact ⟨p, (mem_positions f p).mpr ⟨s, hs⟩, fun keeps => broken (keeps s hs)⟩
    obtain ⟨cause, first⟩ := exists_firstFault broken
    exact Or.inr ⟨keeps, cause, first, decode_true_encode_of_firstFault first⟩

theorem decode_true_encode_eq_ok_iff {t : Formula} : f.encode.decode true = .ok t ↔
    t = f ∧ ∀ p s, f.sub? p = some s → s.KeepsArity := by
  rcases decode_true_encode_cases f with ⟨keeps, decoded⟩ | ⟨broken, cause, _, refused⟩
  · rw [decoded, Except.ok.injEq, eq_comm, and_iff_left keeps]
  · rw [refused]
    simp [broken]

theorem decode_true_encode_eq_error_iff :
    f.encode.decode true = .error cause ↔ f.FirstFault f.positions cause := by
  constructor
  · intro refused
    rcases decode_true_encode_cases f with ⟨_, decoded⟩ | ⟨_, cause', first, refused'⟩
    · rw [decoded] at refused
      cases refused
    · rw [refused', Except.error.injEq] at refused
      exact refused ▸ first
  · exact decode_true_encode_of_firstFault

end

end FolGraph.Formula
