import FolGraph.Conversion
import FolGraph.Proofs.Encoding.RoundTrip
import FolGraph.Proofs.Graph.Renumbering

/-!
# Verification of renumbered graphs

The graph of a formula is verified under any ids and with its arcs inserted in any order, if only
the arguments of each quantifier stay in their order. The arguments of an ordinary application are
put in order by their chain, and those of an unordered operator need not be. `verify_renumbered`
says that the formula read then is the one given, up to the order of operands.
-/

namespace FolGraph

/-- The `ast` arcs that leave a quantifier come in the order that they had. -/
def Graph.KeepsQuantifiers (σ : Nat → Nat) (g g' : Graph) : Prop :=
  ∀ v n, g.node? v = some n → n.label = "!" ∨ n.label = "?" →
    g'.astFrom (σ v) = (g.astFrom v).map (Edge.renumber σ)

namespace Formula

open FolGraph.Graph (Renumbers KeepsQuantifiers KeepsArguments length_chainArcs)

section
variable {f : Formula} {σ : Nat → Nat} {g : Graph}

theorem children_eq_of_quantifier (sound : g.Sound) (order : KeepsQuantifiers σ f.encode g)
    {s : Formula} {p : List Nat} (hs : f.sub? p = some s) (kind : isQuantifier s.label = true) :
    g.children (σ (f.index p)) = (f.encode.children (f.index p)).map σ :=
  Graph.children_eq_of_astFrom_eq (sound_encode f) sound
    (order _ _ (node?_encode hs) (isQuantifier_iff.mp kind))

/-- Without arcs between them, the arguments of a node that is no unordered operator are those of
a quantifier or too few to have an order. -/
theorem children_eq_of_argumentArcs_eq_nil (sound : g.Sound) (renumbers : Renumbers σ f.encode g)
    (order : KeepsQuantifiers σ f.encode g) {s : Formula} {p : List Nat} (hs : f.sub? p = some s)
    (ordered : isUnordered s.label = false)
    (none : f.encode.argumentArcs s.label (f.encode.children (f.index p)) = []) :
    g.children (σ (f.index p)) = (f.encode.children (f.index p)).map σ := by
  cases kind : isQuantifier s.label with
  | true => exact children_eq_of_quantifier sound order hs kind
  | false =>
    have layout := Layout.ofLabel_eq_chained_iff.mpr ⟨kind, ordered⟩
    have length := (argumentArcs_encode_of_chained hs layout (children_encode hs)).length_eq
    rw [none, List.length_nil, length_chainArcs] at length
    refine Graph.eq_of_perm_of_length_lt_two ?_ (by rw [List.length_map]; omega)
    exact renumbers.children_perm (sound_encode f) sound
      (Graph.lt_size_of_node? (node?_encode hs))

theorem keepsArguments_of_renumbers (sound : g.Sound) (renumbers : Renumbers σ f.encode g)
    (order : KeepsQuantifiers σ f.encode g) : KeepsArguments σ f.encode g := by
  intro v n kids found arguments
  have bound := Graph.lt_size_of_node? found
  obtain ⟨p, s, hs, rfl⟩ := exists_index (size_encode f ▸ bound)
  obtain rfl := Option.some.inj ((node?_encode hs).symm.trans found)
  have nodup := nodup_children_encode hs
  obtain ⟨n', found', label⟩ := renumbers.label _ _ found
  obtain ⟨kids', ordered, all, same⟩ := renumbers.exists_orderSiblings? (sound_encode f) sound bound
    nodup (children_eq_of_quantifier sound order hs) (Graph.arguments_eq_ok.mp arguments)
  refine ⟨n', kids', found', label, Graph.arguments_eq_ok.mpr ?_, all, fun ordered =>
    same (children_eq_of_argumentArcs_eq_nil sound renumbers order hs ordered)⟩
  rw [label, sound.ids _ n' found']
  exact ordered

end

/-- A quantified conjunction, one operand of which has two arguments. -/
def quantified : Formula :=
  node "!" [leaf "X", node "&" [node "p" [leaf "X", leaf "a"], leaf "b"]]

/-- Its graph with all ids and, but for the arguments of the quantifier, all arcs in reverse. -/
def mirrored : Graph :=
  [⟨4, 0, .ast⟩, ⟨2, 1, .ncs⟩, ⟨3, 1, .ast⟩, ⟨5, 2, .ddg⟩, ⟨3, 2, .ast⟩, ⟨4, 3, .ast⟩,
      ⟨6, 5, .ast⟩, ⟨6, 4, .ast⟩].foldl .link
    (["b", "a", "X", "p", "&", "X", "!"].foldl .addNode .empty)

theorem built_mirrored : mirrored.Built :=
  (Graph.Built.empty.foldl_addNode _).foldl_link (by decide)

theorem renumbers_mirrored : Renumbers (6 - ·) quantified.encode mirrored where
  bijOn := by
    change Set.BijOn (6 - ·) {v | v < 7} {v | v < 7}
    refine ⟨fun v hv => ?_, fun u hu v hv same => ?_, fun v hv => ⟨6 - v, ?_, ?_⟩⟩ <;>
      simp only [Set.mem_ofPred_eq] at * <;> omega
  label := by
    intro v n found
    have labels : ∀ v < 7, (mirrored.node? (6 - v)).map (·.label) =
        (quantified.encode.node? v).map (·.label) := by decide
    have same := labels v (Graph.lt_size_of_node? found)
    rwa [found, Option.map_some, Option.map_eq_some_iff] at same
  edges := by decide

/-- A graph that is the graph of a formula, under any ids and with its arcs in any order that keeps
those of every quantifier in line, is decoded to the formula up to the order of operands, and so
it is verified. -/
theorem verify_renumbered {f : Formula} {σ : Nat → Nat} {g : Graph} (built : g.Built)
    (renumbers : Renumbers σ f.encode g) (order : KeepsQuantifiers σ f.encode g) :
    (∃ f', g.decode false = .ok f' ∧ f'.isEquivalent f = true) ∧ verify f g false = .ok () := by
  have given := (Graph.decode_eq_ok_iff (sound_encode f)).mpr (exists_spells_encode f)
  have keeps := keepsArguments_of_renumbers built.sound renumbers order
  obtain ⟨f', decoded, reordered⟩ :=
    renumbers.exists_decode (sound_encode f) built.sound keeps given
  have equivalent := (isEquivalent_iff f' f).mpr reordered
  refine ⟨⟨f', decoded, equivalent⟩, ?_⟩
  rw [verify, decoded]
  simp only [equivalent, if_true]

/-- The operands come out in reverse and the arguments in their order. -/
theorem verify_renumbered_mirrored :
    mirrored.decode false =
        .ok (node "!" [leaf "X", node "&" [leaf "b", node "p" [leaf "X", leaf "a"]]]) ∧
      verify quantified mirrored false = .ok () := by
  have order : KeepsQuantifiers (6 - ·) quantified.encode mirrored := by
    intro v n found label
    have root : ∀ v < 7, (quantified.encode.node? v).map (·.label) = some "!" ∨
        (quantified.encode.node? v).map (·.label) = some "?" → v = 0 := by decide
    have first := root v (Graph.lt_size_of_node? found) (by simpa [found] using label)
    rw [first]
    decide
  exact ⟨by decide, (verify_renumbered built_mirrored renumbers_mirrored order).2⟩

end Formula

end FolGraph
