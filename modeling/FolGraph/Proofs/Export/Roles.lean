import FolGraph.Export.Record
import FolGraph.Proofs.Encoding.ArcOrder
import FolGraph.Proofs.Encoding.Relabelling

/-!
# Roles that need not be exported

The record without roles says the role of every arc of an encoded formula. The first arc that enters
a node comes from its parent. Any other comes from the argument before it or from its declaration,
and only a declaration has a quantifier as its parent. So the typed record can be made from the
other one (`typed_ofGraph`).
-/

namespace FolGraph

namespace Export

namespace DglRecord

/-- The arcs as pairs. -/
def arcs (r : DglRecord) : List (Nat × Nat) := r.sources.zip r.targets

/-- The node from which the first arc into a node comes. -/
def parent? (r : DglRecord) (id : Nat) : Option Nat := (r.arcs.find? (·.2 == id)).map (·.1)

/-- Whether a node is a quantifier. -/
def isQuantifier (r : DglRecord) (id : Nat) : Bool :=
  r.features[id]? == some (feature .universal) || r.features[id]? == some (feature .existential)

/-- The role that an arc has by its place in the record. -/
def role (r : DglRecord) (arc : Nat × Nat) : Role :=
  if r.parent? arc.2 = some arc.1 then .ast
  else if (r.parent? arc.1).any r.isQuantifier then .ddg
  else .ncs

/-- The record with roles. -/
def typed (r : DglRecord) : PygRecord :=
  { kinds := r.features.map (·.idxOf 1)
    sources := r.sources
    targets := r.targets
    roles := r.arcs.map fun arc => (r.role arc).ordinal }

theorem idxOf_feature (k : Kind) : (feature k).idxOf 1 = k.ordinal := by
  cases k <;> decide

theorem arcs_ofGraph (g : Graph) :
    (ofGraph g).arcs = g.edges.map fun e => (e.source, e.target) := by
  rw [arcs, ofGraph, List.zip_map']

theorem parent?_ofGraph (g : Graph) (id : Nat) :
    (ofGraph g).parent? id = ((g.entering id).head?).map (·.source) := by
  rw [parent?, arcs_ofGraph, List.find?_map, Graph.entering, List.head?_filter, Option.map_map]
  rfl

theorem isQuantifier_ofGraph {g : Graph} {id : Nat} {n : Node} (found : g.node? id = some n) :
    (ofGraph g).isQuantifier id = true ↔ Layout.ofKind n.kind = .binding := by
  have row : (ofGraph g).features[id]? = some (feature n.kind) := by
    rw [Graph.node?] at found
    rw [ofGraph, List.getElem?_map, found, Option.map_some]
  rw [isQuantifier, row]
  cases n.kind <;> decide

end DglRecord

end Export

namespace Formula

open Export

section
variable {f s t : Formula} {p : List Nat} {i : Nat}

theorem parent?_encode (ht : f.sub? (p ++ [i]) = some t) :
    (DglRecord.ofGraph f.encode).parent? (f.index (p ++ [i])) = some (f.index p) := by
  obtain ⟨previous, binder, entering⟩ := entering_encode ht
  rw [DglRecord.parent?_ofGraph, entering]
  rfl

theorem isQuantifier_encode (hs : f.sub? p = some s) :
    (DglRecord.ofGraph f.encode).isQuantifier (f.index p) = true ↔
      Layout.ofLabel s.label = .binding := by
  rw [DglRecord.isQuantifier_ofGraph (node?_encode hs), Layout.ofKind_ofLabel]

/-- What a declaration binds is no argument of it. -/
theorem Binds.ne_parent {b p : List Nat} {k : Nat} (h : f.Binds b (p ++ [k])) : p ≠ b := by
  obtain ⟨q, i, _, rfl, _, inForce⟩ := h
  obtain ⟨s, j, w, hs, _, last, place⟩ := inForce.inBody
  obtain ⟨s', _, hs', _, early, _⟩ := inForce.declares
  obtain rfl := Option.some.inj (hs.symm.trans hs')
  rintro rfl
  have same : i = j := by
    rw [List.append_assoc] at place
    exact (List.cons.inj (List.append_cancel_left place)).1
  omega

/-- The role of an arc of an encoded formula can be told from the record without roles. -/
theorem role_encode {e : Edge} (he : e ∈ f.encode.edges) :
    (DglRecord.ofGraph f.encode).role (e.source, e.target) = e.role := by
  obtain ⟨a, b, role⟩ := e
  cases role with
  | ast =>
    obtain ⟨p, i, t, ht, rfl, rfl⟩ := ast_mem_encode.mp he
    rw [DglRecord.role, if_pos (parent?_encode ht)]
  | ncs =>
    -- the argument before is no parent, and what it has as its parent is no quantifier
    obtain ⟨p, i, s, hs, layout, bound, rfl, rfl⟩ := ncs_mem_encode.mp he
    have before := (sub?_snoc hs i).trans (List.getElem?_eq_getElem (Nat.lt_of_succ_lt bound))
    have after := (sub?_snoc hs (i + 1)).trans (List.getElem?_eq_getElem bound)
    have lt : f.index p < f.index (p ++ [i]) := index_lt_index_append hs (by simp)
    have ordinary : (DglRecord.ofGraph f.encode).isQuantifier (f.index p) ≠ true := by
      rw [ne_eq, isQuantifier_encode hs, layout]
      decide
    have parent := parent?_encode before
    rw [DglRecord.role, parent?_encode after, if_neg, parent, Option.any_some, if_neg ordinary]
    exact fun same => Nat.ne_of_lt lt (Option.some.inj same)
  | ddg =>
    obtain ⟨b, v, binds, rfl, rfl⟩ := ddg_mem_encode.mp he
    obtain ⟨s, t, hb, hv⟩ := binds.positions
    obtain ⟨p, k, rfl⟩ := (v.eq_nil_or_concat').resolve_left binds.ne_nil
    have apart := binds.ne_parent
    obtain ⟨w, hw, _⟩ := sub?_snoc_eq_some.mp hv
    have parent := parent?_encode hv
    obtain ⟨q, i, _, rfl, _, inForce⟩ := binds
    obtain ⟨u, _, hu, kind, _⟩ := inForce.declares
    have quantifier := (isQuantifier_encode hu).mpr (Layout.ofLabel_eq_binding_iff.mpr kind)
    have above := parent?_encode hb
    rw [DglRecord.role, parent, if_neg, above, Option.any_some, if_pos quantifier]
    exact fun same => apart (index_injective hw hb (Option.some.inj same))

/-- The kinds of the nodes and the ends of the arcs say the roles of the arcs. -/
theorem typed_ofGraph (f : Formula) :
    (DglRecord.ofGraph f.encode).typed = PygRecord.ofGraph f.encode := by
  have kinds : (DglRecord.ofGraph f.encode).features.map (·.idxOf 1) =
      f.encode.nodes.map fun n => n.kind.ordinal := by
    rw [DglRecord.ofGraph, List.map_map]
    exact List.map_congr_left fun n _ => DglRecord.idxOf_feature n.kind
  have roles : (DglRecord.ofGraph f.encode).arcs.map
      (fun arc => ((DglRecord.ofGraph f.encode).role arc).ordinal) =
        f.encode.edges.map fun e => e.role.ordinal := by
    rw [DglRecord.arcs_ofGraph, List.map_map]
    exact List.map_congr_left fun e he => congrArg Role.ordinal (role_encode he)
  rw [DglRecord.typed, kinds, roles]
  rfl

/-- Formulas that have the same record without roles have the same record with roles. -/
theorem pygRecord_of_dglRecord {f f' : Formula}
    (same : DglRecord.ofGraph f.encode = DglRecord.ofGraph f'.encode) :
    PygRecord.ofGraph f.encode = PygRecord.ofGraph f'.encode := by
  rw [← typed_ofGraph, ← typed_ofGraph, same]

end

/-- A quantified predicate of a constant and the bound variable. -/
def generalized : Formula := .node "!" [.leaf "X", .node "p" [.leaf "c", .leaf "X"]]

/-- The same under other names. -/
def generalizedRenamed : Formula := .node "!" [.leaf "Y", .node "q" [.leaf "d", .leaf "Y"]]

theorem pygRecord_of_dglRecord_generalized :
    generalized.labels ≠ generalizedRenamed.labels ∧
      DglRecord.ofGraph generalized.encode = DglRecord.ofGraph generalizedRenamed.encode ∧
      PygRecord.ofGraph generalized.encode = PygRecord.ofGraph generalizedRenamed.encode := by
  have same : DglRecord.ofGraph generalized.encode =
      DglRecord.ofGraph generalizedRenamed.encode := by decide
  exact ⟨by decide, same, pygRecord_of_dglRecord same⟩

end Formula

end FolGraph
