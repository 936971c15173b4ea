import FolGraph.Proofs.Encoding.Encoded
import FolGraph.Proofs.Formula.Relabelling

/-!
# Encoding relabelled formulas

How a graph depends on the labels of its formula. The kinds decide how arguments are laid out, so
new labels of the old kinds leave all nodes, quantifiers, bodies and declarations in place.
`edges_relabel` says that they change no arc, if every declaration binds what it bound before.
-/

namespace FolGraph

/-- The layout of the arguments of a node of a given kind. -/
def Layout.ofKind : Kind → Layout
  | .universal | .existential => .binding
  | .var | .application => .chained
  | _ => .unchained

theorem Layout.ofKind_ofLabel (label : String) :
    Layout.ofKind (Kind.ofLabel label) = Layout.ofLabel label := by
  by_cases symbol : label ∈ ["&", "|", "~", "!", "?", "=", "!="]
  · simp only [List.mem_cons, List.not_mem_nil, or_false] at symbol
    rcases symbol with rfl | rfl | rfl | rfl | rfl | rfl | rfl <;> decide
  · simp only [List.mem_cons, List.not_mem_nil, or_false, not_or] at symbol
    have chained : Layout.ofLabel label = .chained := by
      simp [Layout.ofLabel, isQuantifier, isUnordered, symbol]
    have named : Kind.ofLabel label = .var ∨ Kind.ofLabel label = .application := by
      simp only [Kind.ofLabel, symbol, beq_iff_eq, if_false]
      split
      · split
        · exact Or.inl rfl
        · exact Or.inr rfl
      · exact Or.inr rfl
    rcases named with kind | kind <;> rw [kind, chained] <;> rfl

namespace Formula

/-- Every new label is of the kind of the old one. -/
def KeepsKinds (f : Formula) (new : List Nat → String → String) : Prop :=
  ∀ p s, f.sub? p = some s → Kind.ofLabel (new p s.label) = Kind.ofLabel s.label

section
variable {f : Formula} {new : List Nat → String → String}

theorem KeepsKinds.layout_eq (h : f.KeepsKinds new) {s : Formula} {p : List Nat}
    (hs : f.sub? p = some s) : Layout.ofLabel (new p s.label) = Layout.ofLabel s.label := by
  rw [← Layout.ofKind_ofLabel, h p s hs, Layout.ofKind_ofLabel]

theorem KeepsKinds.isQuantifier_iff (h : f.KeepsKinds new) {s : Formula} {p : List Nat}
    (hs : f.sub? p = some s) :
    isQuantifier (new p s.label) = true ↔ isQuantifier s.label = true := by
  rw [← Layout.ofLabel_eq_binding_iff, h.layout_eq hs, Layout.ofLabel_eq_binding_iff]

theorem kinds_relabel (h : f.KeepsKinds new) :
    (f.relabel new).encode.nodes.map (·.kind) = f.encode.nodes.map (·.kind) := by
  have size : (f.relabel new).encode.nodes.length = f.encode.nodes.length := by
    change (f.relabel new).encode.size = f.encode.size
    rw [size_encode, size_encode, size_relabel]
  apply List.ext_getElem?
  intro k
  by_cases inside : k < f.encode.nodes.length
  · have bound : k < f.size := by rwa [← size_encode]
    obtain ⟨p, s, hs, rfl⟩ := exists_index bound
    have node := node?_encode (sub?_relabel_of_sub? new hs)
    have old := node?_encode hs
    rw [index_relabel, label_relabel_append, h p s hs, Graph.node?] at node
    rw [Graph.node?] at old
    rw [List.getElem?_map, List.getElem?_map, node, old]
    rfl
  · rw [List.getElem?_eq_none (by simpa [size] using inside),
      List.getElem?_eq_none (by simpa using inside)]

/-! ## Binding -/

/-- The same arguments are declarations as before, under their new names. -/
theorem declares_relabel_iff (h : f.KeepsKinds new) {q : List Nat} {i : Nat} {name : String} :
    (f.relabel new).Declares q i name ↔
      ∃ old, f.Declares q i old ∧ name = new (q ++ [i]) old := by
  constructor
  · rintro ⟨_, _, found, kind, early, argument, rfl⟩
    obtain ⟨s, hs, rfl⟩ := exists_of_sub?_relabel found
    rw [getElem?_args_relabel] at argument
    obtain ⟨d, hd, rfl⟩ := Option.map_eq_some_iff.mp argument
    rw [label_relabel_append, h.isQuantifier_iff hs] at kind
    rw [length_args_relabel] at early
    refine ⟨d.label, ⟨s, d, hs, kind, early, hd, rfl⟩, ?_⟩
    rw [label_relabel]
  · rintro ⟨_, ⟨s, d, hs, kind, early, hd, rfl⟩, rfl⟩
    refine ⟨_, d.relabel fun p => new (q ++ i :: p), sub?_relabel_of_sub? new hs, ?_, ?_, ?_, ?_⟩
    · rwa [label_relabel_append, h.isQuantifier_iff hs]
    · rwa [length_args_relabel]
    · rw [getElem?_args_relabel, hd, Option.map_some]
    · rw [label_relabel]

theorem inDeclaration_relabel_iff (h : f.KeepsKinds new) {q v : List Nat} :
    (f.relabel new).InDeclaration q v ↔ f.InDeclaration q v := by
  constructor
  · rintro ⟨i, w, name, declares, rfl⟩
    obtain ⟨old, declares, _⟩ := (declares_relabel_iff h).mp declares
    exact ⟨i, w, old, declares, rfl⟩
  · rintro ⟨i, w, old, declares, rfl⟩
    exact ⟨i, w, _, (declares_relabel_iff h).mpr ⟨old, declares, rfl⟩, rfl⟩

theorem inBody_relabel_iff (h : f.KeepsKinds new) {q v : List Nat} :
    (f.relabel new).InBody q v ↔ f.InBody q v := by
  constructor
  · rintro ⟨_, j, w, found, kind, last, rfl⟩
    obtain ⟨s, hs, rfl⟩ := exists_of_sub?_relabel found
    rw [label_relabel_append, h.isQuantifier_iff hs] at kind
    rw [length_args_relabel] at last
    exact ⟨s, j, w, hs, kind, last, rfl⟩
  · rintro ⟨s, j, w, hs, kind, last, rfl⟩
    refine ⟨_, j, w, sub?_relabel_of_sub? new hs, ?_, ?_, rfl⟩
    · rwa [label_relabel_append, h.isQuantifier_iff hs]
    · rwa [length_args_relabel]

/-! ## Arcs -/

theorem parent_placeAt_relabel {s : Formula} {p : List Nat} (hs : f.sub? p = some s) :
    ((f.relabel new).placeAt .root rootId p).parent = (f.placeAt .root rootId p).parent := by
  rcases p.eq_nil_or_concat' with rfl | ⟨p, k, rfl⟩
  · rw [placeAt, placeAt]
  · obtain ⟨t, ht, ha⟩ := sub?_snoc_eq_some.mp hs
    have ht' := sub?_relabel_of_sub? new ht
    have ha' := (getElem?_args_relabel (fun q => new (p ++ q)) t k).trans (congrArg _ ha)
    rw [placeAt_snoc ht' ha', placeAt_snoc ht ha, argPlace, argPlace, index_relabel]

theorem previous_placeAt_relabel (h : f.KeepsKinds new) {s : Formula} {p : List Nat}
    (hs : f.sub? p = some s) :
    ((f.relabel new).placeAt .root rootId p).previous = (f.placeAt .root rootId p).previous := by
  rcases p.eq_nil_or_concat' with rfl | ⟨p, k, rfl⟩
  · rw [placeAt, placeAt]
  · obtain ⟨t, ht, ha⟩ := sub?_snoc_eq_some.mp hs
    have ht' := sub?_relabel_of_sub? new ht
    have ha' := (getElem?_args_relabel (fun q => new (p ++ q)) t k).trans (congrArg _ ha)
    rw [placeAt_snoc ht' ha', placeAt_snoc ht ha, argPlace, argPlace, previousArg, previousArg,
      label_relabel_append, h.layout_eq ht, index_relabel, index_relabel]

/-- A name is bound by one declaration at most, so its binders are known from which they are. -/
theorem binders_relabel (same : ∀ b v, (f.relabel new).Binds b v ↔ f.Binds b v) {s t : Formula}
    {v : List Nat} (hs : f.sub? v = some s) (ht : (f.relabel new).sub? v = some t) :
    ((f.relabel new).scopeAt v).binders t.label = (f.scopeAt v).binders s.label := by
  have member : ∀ id, id ∈ ((f.relabel new).scopeAt v).binders t.label ↔
      id ∈ (f.scopeAt v).binders s.label := by
    intro id
    simp only [mem_binders_scopeAt_iff ht, mem_binders_scopeAt_iff hs, same, index_relabel]
  have few := (distinct_scopeAt ht).length_binders_le_one t.label
  have few' := (distinct_scopeAt hs).length_binders_le_one s.label
  generalize ((f.relabel new).scopeAt v).binders t.label = xs at member few
  generalize (f.scopeAt v).binders s.label = ys at member few'
  match xs, ys with
  | [], [] => rfl
  | [], y :: _ => simpa using (member y).mpr List.mem_cons_self
  | x :: _, [] => simpa using (member x).mp List.mem_cons_self
  | [x], [y] => rw [List.mem_singleton.mp ((member x).mp List.mem_cons_self)]

/-- New labels of the old kinds change no arc, if the bindings stay. -/
theorem edges_relabel (h : f.KeepsKinds new)
    (same : ∀ b v, (f.relabel new).Binds b v ↔ f.Binds b v) :
    (f.relabel new).encode.edges = f.encode.edges := by
  rw [edges_encode, edges_encode, positions_relabel]
  apply List.flatMap_congr
  intro p hp
  obtain ⟨s, hs⟩ := (mem_positions f p).mp hp
  have ht := sub?_relabel_of_sub? new hs
  have binders := binders_relabel same hs ht
  rw [scopeAt, scopeAt] at binders
  rw [arrivalsAt_eq hs, arrivalsAt_eq ht, index_relabel, Place.arrivals, Place.arrivals,
    parent_placeAt_relabel hs, previous_placeAt_relabel h hs, binders]

end

end Formula

end FolGraph
