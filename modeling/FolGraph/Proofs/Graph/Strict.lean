import FolGraph.Proofs.Formula.Arity
import FolGraph.Proofs.Graph.Spelling

/-!
# Strict decoding

A strict reading checks every node before it reads the arguments, on the graph alone: how many
arguments there are, and that the declarations among them have none. `read_true_eq_ok_iff` says
that this amounts to checking the formula afterwards, and `decode_true_eq_ok_iff` that a strict
decoder accepts exactly the graphs of formulas that keep their arities, without changing them.
`checkArity_eq_error_iff` says what a node is refused for.
-/

namespace FolGraph.Graph

theorem checkDeclarations_eq_ok_iff {g : Graph} {ids : List Nat} :
    g.checkDeclarations ids = .ok () ↔ ∀ id ∈ ids, g.children id = [] := by
  induction ids with
  | nil => simp [checkDeclarations]
  | cons id ids ih =>
    rw [checkDeclarations, List.forall_mem_cons, ← ih]
    cases g.children id with
    | nil => simp
    | cons c cs => cases g.node? id <;> simp

/-- The check of declarations fails at the first one that has arguments. -/
theorem checkDeclarations_eq_error_iff {g : Graph} {ids : List Nat} {cause : DecodeError}
    (nodes : ∀ id ∈ ids, ∃ n, g.node? id = some n) :
    g.checkDeclarations ids = .error cause ↔
      ∃ (i id : Nat) (n : Node), ids[i]? = some id ∧ g.node? id = some n ∧ g.children id ≠ [] ∧
        (∀ j < i, ∀ id', ids[j]? = some id' → g.children id' = []) ∧
        cause = .nonTerminalNameNode n (g.children id).length := by
  induction ids with
  | nil => simp [checkDeclarations]
  | cons id ids ih =>
    obtain ⟨⟨n, found⟩, nodes⟩ := List.forall_mem_cons.mp nodes
    rw [checkDeclarations]
    cases here : g.children id with
    | nil =>
      simp only [ih nodes]
      constructor
      · rintro ⟨i, id', n', hi, found', some, before, rfl⟩
        refine ⟨i + 1, id', n', hi, found', some, fun j hj other hother => ?_, rfl⟩
        cases j with
        | zero =>
          obtain rfl := Option.some.inj hother
          exact here
        | succ j => exact before j (by omega) other hother
      · rintro ⟨i, id', n', hi, found', some, before, rfl⟩
        cases i with
        | zero =>
          obtain rfl := Option.some.inj hi
          exact absurd here some
        | succ i => exact ⟨i, id', n', hi, found', some, fun j hj => before (j + 1) (by omega), rfl⟩
    | cons c cs =>
      simp only [found, Except.error.injEq]
      constructor
      · rintro rfl
        exact ⟨0, id, n, rfl, found, by simp [here], by simp, by rw [here]⟩
      · rintro ⟨i, id', n', hi, found', _, before, rfl⟩
        cases i with
        | zero =>
          obtain rfl := Option.some.inj hi
          obtain rfl := Option.some.inj (found.symm.trans found')
          rw [here]
        | succ i =>
          have none := before 0 (by omega) id rfl
          rw [here] at none
          cases none

/-- A node passes the check exactly if it has the number of arguments that its label asks for and
no declaration among them has arguments. -/
theorem checkArity_eq_ok_iff {g : Graph} {n : Node} {kids : List Nat} :
    g.checkArity n kids = .ok () ↔
      (Arity.ofLabel? n.label).all (·.admits kids.length) = true ∧
        (isQuantifier n.label = true → ∀ id ∈ kids.dropLast, g.children id = []) := by
  unfold checkArity
  cases arity : Arity.ofLabel? n.label with
  | none =>
    simp [Formula.isQuantifier_eq_false_of_ofLabel?_eq_none arity]
  | some a =>
    by_cases admitted : a.admits kids.length = true
    · by_cases quantifier : isQuantifier n.label = true
      · simp [admitted, quantifier, checkDeclarations_eq_ok_iff]
      · simp [admitted, quantifier]
    · simp [admitted]

/-- A check fails for the number of arguments, or else for a declaration of a quantifier. -/
theorem checkArity_eq_error_iff {g : Graph} {n : Node} {kids : List Nat} {cause : DecodeError} :
    g.checkArity n kids = .error cause ↔
      (∃ a, Arity.ofLabel? n.label = some a ∧ a.admits kids.length = false ∧
        cause = .wrongSuccessorCount n a kids.length) ∨
      ((Arity.ofLabel? n.label).all (·.admits kids.length) = true ∧
        isQuantifier n.label = true ∧ g.checkDeclarations kids.dropLast = .error cause) := by
  unfold checkArity
  cases arity : Arity.ofLabel? n.label with
  | none => simp [Formula.isQuantifier_eq_false_of_ofLabel?_eq_none arity]
  | some a =>
    cases admitted : a.admits kids.length with
    | true => cases isQuantifier n.label <;> simp [admitted]
    | false =>
      simp only [Bool.not_false, if_true, Except.error.injEq, Option.some.injEq, Option.all_some,
        admitted, Bool.false_eq_true, false_and, or_false]
      constructor
      · rintro rfl
        exact ⟨a, rfl, admitted, rfl⟩
      · rintro ⟨_, rfl, _, rfl⟩
        rfl

/-- A node that is read has arguments exactly if the formula read has. -/
theorem Spells.args_eq_nil_iff {g : Graph} (sound : g.Sound) {id : Nat} {f : Formula}
    {ids : List Nat} (h : g.Spells id f ids) : f.args = [] ↔ g.children id = [] := by
  cases h with
  | @node _ n kids _ args found ordered rest =>
    have same := (perm_of_orderSiblings? (arguments_eq_ok.mp ordered)).length_eq
    rw [sound.ids id n found, rest.length_eq_length] at same
    rw [Formula.args_node, ← List.length_eq_zero_iff, same, List.length_eq_zero_iff]

/-- The declarations read are leaves exactly if their nodes have no arguments. -/
theorem SpellsAll.dropLast_args_eq_nil_iff {g : Graph} (sound : g.Sound) {kids ids : List Nat}
    {fs : List Formula} (h : g.SpellsAll kids fs ids) :
    (∀ d ∈ fs.dropLast, d.args = []) ↔ ∀ id ∈ kids.dropLast, g.children id = [] := by
  induction fs generalizing kids ids with
  | nil =>
    cases h
    simp
  | cons f fs ih =>
    cases h with
    | @cons id _ kids _ _ _ first others =>
      have length := others.length_eq_length
      have rest := ih others
      cases fs with
      | nil =>
        obtain rfl := List.length_eq_zero_iff.mp length
        simp
      | cons f' fs =>
        cases kids with
        | nil => simp at length
        | cons id' kids =>
          rw [List.dropLast_cons_cons, List.dropLast_cons_cons, List.forall_mem_cons,
            List.forall_mem_cons, rest, first.args_eq_nil_iff sound]

/-- The check of a node on the graph is the check of the formula that is read from it. -/
theorem checkArity_eq_ok_iff_keepsArity {g : Graph} (sound : g.Sound) {n : Node}
    {kids ids : List Nat} {args : List Formula} (h : g.SpellsAll kids args ids) :
    g.checkArity n kids = .ok () ↔ (Formula.node n.label args).KeepsArity := by
  rw [checkArity_eq_ok_iff, Formula.keepsArity_iff, Formula.label_node, Formula.args_node,
    h.length_eq_length, h.dropLast_args_eq_nil_iff sound]

theorem readAll_true_eq_ok_iff {g : Graph} {fuel : Nat}
    (step : ∀ {id visited f last}, g.read true fuel id visited = .ok (f, last) ↔
      g.read false fuel id visited = .ok (f, last) ∧ f.hasArity = true)
    {kids visited last : List Nat} {fs : List Formula} :
    readAll (g.read true fuel) kids visited = .ok (fs, last) ↔
      readAll (g.read false fuel) kids visited = .ok (fs, last) ∧
        Formula.hasArityAll fs = true := by
  induction kids generalizing visited fs with
  | nil =>
    simp only [readAll, Except.ok.injEq, Prod.mk.injEq]
    constructor
    · rintro ⟨rfl, rfl⟩
      exact ⟨⟨rfl, rfl⟩, rfl⟩
    · exact And.left
  | cons id kids ih =>
    simp only [readAll_cons_eq_ok, step, ih]
    constructor
    · rintro ⟨f, after, rest, ⟨first, keeps⟩, ⟨others, keepsAll⟩, rfl⟩
      refine ⟨⟨f, after, rest, first, others, rfl⟩, ?_⟩
      rw [Formula.hasArityAll, keeps, keepsAll, Bool.and_self]
    · rintro ⟨⟨f, after, rest, first, others, rfl⟩, keeps⟩
      rw [Formula.hasArityAll, Bool.and_eq_true] at keeps
      exact ⟨f, after, rest, ⟨first, keeps.1⟩, ⟨others, keeps.2⟩, rfl⟩

/-- A strict reading succeeds exactly if the reading does and the formula read has its arity. -/
theorem read_true_eq_ok_iff {g : Graph} (sound : g.Sound) {fuel id : Nat}
    {visited last : List Nat} {f : Formula} :
    g.read true fuel id visited = .ok (f, last) ↔
      g.read false fuel id visited = .ok (f, last) ∧ f.hasArity = true := by
  induction fuel generalizing id visited f last with
  | zero =>
    have stuck : ∀ strict, g.read strict 0 id visited ≠ .ok (f, last) := by
      intro strict h
      obtain ⟨_, _, h⟩ := bind_eq_ok.mp h
      cases h
    simp [stuck]
  | succ fuel ih =>
    simp only [read_succ_eq_ok, readAll_true_eq_ok_iff ih]
    constructor
    · rintro ⟨n, kids, args, found, fresh, ordered, check, ⟨rest, keeps⟩, rfl⟩
      obtain ⟨ids, spells, _⟩ := spellsAll_of_readAll spells_of_read rest
      refine ⟨⟨n, kids, args, found, fresh, ordered, by simp, rest, rfl⟩, ?_⟩
      rw [Formula.hasArity_node_iff]
      exact ⟨(checkArity_eq_ok_iff_keepsArity sound spells).mp (check trivial), keeps⟩
    · rintro ⟨⟨n, kids, args, found, fresh, ordered, _, rest, rfl⟩, keeps⟩
      obtain ⟨ids, spells, _⟩ := spellsAll_of_readAll spells_of_read rest
      obtain ⟨here, below⟩ := Formula.hasArity_node_iff.mp keeps
      exact ⟨n, kids, args, found, fresh, ordered,
        fun _ => (checkArity_eq_ok_iff_keepsArity sound spells).mpr here, ⟨rest, below⟩, rfl⟩

section
variable {g : Graph} {fuel id : Nat} {visited kids : List Nat} {n : Node} {cause : DecodeError}

/-- A strict reading of a node fails with its check. -/
theorem read_true_of_check (found : g.node? id = some n) (fresh : id ∉ visited)
    (order : g.arguments n = .ok kids) (check : g.checkArity n kids = .error cause) :
    g.read true (fuel + 1) id visited = .error cause := by
  rw [read, enter_eq_ok.mpr ⟨found, fresh⟩]
  simp [order, check, bind, Except.bind]

/-- A node that passes its check fails with the reading of its arguments. -/
theorem read_true_of_readAll (found : g.node? id = some n) (fresh : id ∉ visited)
    (order : g.arguments n = .ok kids) (check : g.checkArity n kids = .ok ())
    (rest : readAll (g.read true fuel) kids (id :: visited) = .error cause) :
    g.read true (fuel + 1) id visited = .error cause := by
  rw [read, enter_eq_ok.mpr ⟨found, fresh⟩]
  simp [order, check, rest, bind, Except.bind]

end

theorem readAll_cons_of_error {ε : Type} {read : Nat → List Nat → Except ε (Formula × List Nat)}
    {id : Nat} {visited : List Nat} {cause : ε} (first : read id visited = .error cause)
    (ids : List Nat) : readAll read (id :: ids) visited = .error cause := by
  rw [readAll, first]
  rfl

theorem readAll_cons_of_ok {ε : Type} {read : Nat → List Nat → Except ε (Formula × List Nat)}
    {id : Nat} {ids visited after : List Nat} {f : Formula} {cause : ε}
    (first : read id visited = .ok (f, after)) (rest : readAll read ids after = .error cause) :
    readAll read (id :: ids) visited = .error cause := by
  rw [readAll, first]
  simp [rest, bind, Except.bind]

/-- From a starting node, decoding succeeds if the reading does and leaves no node out. -/
theorem decode_eq_ok_iff_read {g : Graph} {strict : Bool} {root : Node} {f : Formula}
    (start : g.startingNode = .ok root) :
    g.decode strict = .ok f ↔ ∃ visited, g.read strict g.size root.id [] = .ok (f, visited) ∧
      (g.nodes.filter (!visited.contains ·.id)).length = 0 := by
  rw [decode, start]
  change (g.read strict g.size root.id [] >>= _) = _ ↔ _
  rw [bind_eq_ok]
  constructor
  · rintro ⟨⟨f', visited⟩, read, h⟩
    simp only at h
    split at h
    case h_1 none =>
      cases h
      exact ⟨visited, read, none⟩
    case h_2 => cases h
  · rintro ⟨visited, read, none⟩
    exact ⟨(f, visited), read, by simp only [none]⟩

/-- Strict decoding is decoding followed by a test of the formula. -/
theorem decode_true_eq_ok_iff_hasArity {g : Graph} (sound : g.Sound) {f : Formula} :
    g.decode true = .ok f ↔ g.decode false = .ok f ∧ f.hasArity = true := by
  cases start : g.startingNode with
  | error e => simp [decode, start, bind, Except.bind]
  | ok root =>
    simp only [decode_eq_ok_iff_read start, read_true_eq_ok_iff sound]
    constructor
    · rintro ⟨visited, ⟨read, keeps⟩, all⟩
      exact ⟨⟨visited, read, all⟩, keeps⟩
    · rintro ⟨⟨visited, read, all⟩, keeps⟩
      exact ⟨visited, ⟨read, keeps⟩, all⟩

/-- A quantifier whose declaration was inserted after its body and is chained before it. -/
def chainedQuantifier : Graph :=
  [⟨0, 1, .ast⟩, ⟨0, 2, .ast⟩, ⟨1, 3, .ast⟩, ⟨2, 1, .ncs⟩].foldl .link
    (["!", "p", "X", "c"].foldl .addNode .empty)

theorem built_chainedQuantifier : chainedQuantifier.Built :=
  (Built.empty.foldl_addNode ["!", "p", "X", "c"]).foldl_link (by decide)

/-- The strict decoder returns exactly what the decoder returns and keeps its arities: one argument
of `~`, two of `=` and `!=`, at least two of a quantifier, whose declarations are leaves. -/
theorem decode_true_eq_ok_iff {g : Graph} (built : g.Built) {t : Formula} :
    g.decode true = .ok t ↔
      g.decode false = .ok t ∧ ∀ p s, t.sub? p = some s → s.KeepsArity := by
  rw [decode_true_eq_ok_iff_hasArity built.sound, Formula.hasArity_iff]

theorem decode_true_chainedQuantifier : chainedQuantifier.Built ∧
    chainedQuantifier.decode true =
      .ok (.node "!" [.leaf "X", .node "p" [.leaf "c"]]) :=
  ⟨built_chainedQuantifier, (decode_true_eq_ok_iff built_chainedQuantifier).mpr
    ⟨rfl, (Formula.hasArity_iff _).mp (by decide)⟩⟩

end FolGraph.Graph
