import FolGraph.Export.Render
import FolGraph.Proofs.Encoding.Encoded
import FolGraph.Proofs.Export.Bytes
import FolGraph.Proofs.Json.Unambiguous

/-!
# What exported records say

Both encodings of a record are unambiguous, so two graphs are exported alike exactly if they have
the same record. The typed record holds the kinds of the nodes and the arcs with their roles, and
the other one the kinds and the ends of the arcs (`render_eq_iff`).
-/

namespace FolGraph

/-- The number of nodes of a graph fits into 64 bits and the ids of its arcs into 32, the widths
that counts and ids have where graphs are written. -/
structure Graph.Representable (g : Graph) : Prop where
  size : g.size < 2 ^ 64
  ends : ∀ e ∈ g.edges, e.source < 2 ^ 32 ∧ e.target < 2 ^ 32

/-- They do if the ids of all nodes fit into 32 bits. -/
theorem Graph.Built.representable {g : Graph} (built : g.Built) (fits : g.size ≤ 2 ^ 32) :
    g.Representable where
  size := by omega
  ends e mem := by
    obtain ⟨source, target⟩ := hasEnds_iff.mp (built.sound.ends e mem)
    omega

namespace Export

open Bytes

/-! ## JSON -/

theorem numbers_injective {ms ns : List Nat} (h : numbers ms = numbers ns) : ms = ns :=
  List.map_injective_iff.mpr (fun _ _ => Json.number.inj) (Json.array.inj h)

theorem PygRecord.toJson_injective {r r' : PygRecord} (h : r.toJson = r'.toJson) : r = r' := by
  simp only [toJson, Json.object.injEq, List.cons.injEq, Prod.mk.injEq, true_and, and_true] at h
  obtain ⟨kinds, sources, targets, roles⟩ := h
  cases r
  cases r'
  rw [PygRecord.mk.injEq]
  exact ⟨numbers_injective kinds, numbers_injective sources, numbers_injective targets,
    numbers_injective roles⟩

theorem DglRecord.toJson_injective {r r' : DglRecord} (h : r.toJson = r'.toJson) : r = r' := by
  simp only [toJson, Json.object.injEq, List.cons.injEq, Prod.mk.injEq, true_and, and_true,
    Json.array.injEq] at h
  obtain ⟨features, sources, targets⟩ := h
  cases r
  cases r'
  rw [DglRecord.mk.injEq]
  have rows : Function.Injective fun row : List Nat => Json.object [("feature", numbers row)] := by
    intro row row' same
    simp only [Json.object.injEq, List.cons.injEq, Prod.mk.injEq, true_and, and_true] at same
    exact numbers_injective same
  exact ⟨List.map_injective_iff.mpr rows features, numbers_injective sources,
    numbers_injective targets⟩

/-! ## Bytes -/

/-- A record of numbers that fit into their width, with columns of the same number of arcs. -/
structure PygRecord.Fits (r : PygRecord) : Prop where
  size : r.kinds.length < 2 ^ 64
  kinds : ∀ n ∈ r.kinds, n < 2 ^ 32
  arcs : Columns r.sources.length [r.sources, r.targets, r.roles]

structure DglRecord.Fits (r : DglRecord) : Prop where
  size : r.features.length < 2 ^ 64
  features : ∀ row ∈ r.features, row.length < 2 ^ 64 ∧ ∀ n ∈ row, n < 256 ^ 1
  arcs : Columns r.sources.length [r.sources, r.targets]

theorem PygRecord.toBytes_inj {r r' : PygRecord} (fits : r.Fits) (fits' : r'.Fits)
    (h : r.toBytes = r'.toBytes) : r = r' := by
  have columns (r : PygRecord) : r.toBytes =
      words r.kinds ++ [r.sources, r.targets, r.roles].flatMap words := by
    simp [toBytes]
  rw [columns, columns] at h
  obtain ⟨kinds, rest⟩ := (separable_littleEndian 4).list.inj ⟨fits.size, fits.kinds⟩
    ⟨fits'.size, fits'.kinds⟩ h
  have arcs := columns_injective fits.arcs fits'.arcs rest (by simp) rfl
  cases r
  cases r'
  simp_all

theorem DglRecord.toBytes_inj {r r' : DglRecord} (fits : r.Fits) (fits' : r'.Fits)
    (h : r.toBytes = r'.toBytes) : r = r' := by
  have columns (r : DglRecord) : r.toBytes =
      list (list (littleEndian 1)) r.features ++ [r.sources, r.targets].flatMap words := by
    simp [toBytes]
  rw [columns, columns] at h
  obtain ⟨features, rest⟩ := (separable_littleEndian 1).list.list.inj ⟨fits.size, fits.features⟩
    ⟨fits'.size, fits'.features⟩ h
  have arcs := columns_injective fits.arcs fits'.arcs rest (by simp) rfl
  cases r
  cases r'
  simp_all

/-! ## Records of graphs -/

/-- Two columns are those of the pairs. -/
theorem map_pair_eq_iff {α β γ : Type} {f : α → β} {h : α → γ} {as bs : List α} :
    as.map (fun a => (f a, h a)) = bs.map (fun a => (f a, h a)) ↔
      as.map f = bs.map f ∧ as.map h = bs.map h := by
  induction as generalizing bs with
  | nil => cases bs <;> simp
  | cons a as ih =>
    cases bs with
    | nil => simp
    | cons b bs =>
      simp only [List.map_cons, List.cons.injEq, Prod.mk.injEq, ih]
      tauto

/-- A column of codes says which values have been coded. -/
theorem map_code_eq_iff {α β γ : Type} {code : β → γ} (injective : Function.Injective code)
    {f : α → β} {as bs : List α} :
    as.map (fun a => code (f a)) = bs.map (fun a => code (f a)) ↔ as.map f = bs.map f := by
  have split (as : List α) : as.map (fun a => code (f a)) = (as.map f).map code := by
    rw [List.map_map]
    rfl
  rw [split, split]
  exact (List.map_injective_iff.mpr injective).eq_iff

theorem DglRecord.feature_injective : Function.Injective feature := by
  have all : ∀ k ∈ Kind.all, ∀ l ∈ Kind.all, feature k = feature l → k = l := by decide
  intro k l
  exact all k k.mem_all l l.mem_all

section
variable {g g' : Graph}

theorem PygRecord.ofGraph_eq_iff : ofGraph g = ofGraph g' ↔
    g.nodes.map (·.kind) = g'.nodes.map (·.kind) ∧ g.edges = g'.edges := by
  have told : Function.Injective fun e : Edge => (e.source, e.target, e.role) := by
    intro e e' same
    cases e
    cases e'
    simpa using same
  have edges : (g.edges.map (·.source) = g'.edges.map (·.source) ∧
      g.edges.map (·.target) = g'.edges.map (·.target) ∧
      g.edges.map (·.role.ordinal) = g'.edges.map (·.role.ordinal)) ↔ g.edges = g'.edges := by
    rw [map_code_eq_iff (f := Edge.role) fun _ _ => Role.ordinal_injective, ← map_pair_eq_iff,
      ← map_pair_eq_iff]
    exact (List.map_injective_iff.mpr told).eq_iff
  rw [ofGraph, ofGraph, PygRecord.mk.injEq, edges,
    map_code_eq_iff (f := Node.kind) fun _ _ => Kind.ordinal_injective]

theorem DglRecord.ofGraph_eq_iff : ofGraph g = ofGraph g' ↔
    g.nodes.map (·.kind) = g'.nodes.map (·.kind) ∧
      g.edges.map (fun e => (e.source, e.target)) =
        g'.edges.map (fun e => (e.source, e.target)) := by
  rw [ofGraph, ofGraph, DglRecord.mk.injEq, map_pair_eq_iff,
    map_code_eq_iff (f := Node.kind) feature_injective]

theorem PygRecord.Fits.ofGraph (representable : g.Representable) : (PygRecord.ofGraph g).Fits where
  size := by simpa [PygRecord.ofGraph, Graph.size] using representable.size
  kinds := by
    intro n mem
    obtain ⟨node, _, rfl⟩ := List.mem_map.mp mem
    cases node.kind <;> decide
  arcs := by
    have ends := representable.ends
    have role (r : Role) : r.ordinal < 2 ^ 32 := by cases r <;> decide
    simp only [Columns, PygRecord.ofGraph, List.forall_mem_cons, List.length_map,
      List.forall_mem_map, List.not_mem_nil, false_implies, implies_true, and_true, true_and]
    exact ⟨fun e mem => (ends e mem).1, fun e mem => (ends e mem).2, fun e _ => role e.role⟩

theorem DglRecord.Fits.ofGraph (representable : g.Representable) : (DglRecord.ofGraph g).Fits where
  size := by simpa [DglRecord.ofGraph, Graph.size] using representable.size
  features := by
    intro row mem
    obtain ⟨node, _, rfl⟩ := List.mem_map.mp mem
    cases node.kind <;> decide
  arcs := by
    have ends := representable.ends
    simp only [Columns, DglRecord.ofGraph, List.forall_mem_cons, List.length_map,
      List.forall_mem_map, List.not_mem_nil, false_implies, implies_true, and_true, true_and]
    exact ⟨fun e mem => (ends e mem).1, fun e mem => (ends e mem).2⟩

/-! ## Rendered records -/

theorem renderRecord_inj {encoding : Encoding} {json json' : Json} {bytes bytes' : List UInt8}
    (h : renderRecord encoding json bytes = renderRecord encoding json' bytes') :
    json = json' ∨ bytes = bytes' := by
  cases encoding with
  | json => exact Or.inl (Json.compact_injective (String.toByteArray_inj.mp h))
  | bincode =>
    have data := congrArg ByteArray.data h
    exact Or.inr (Array.mk.inj data)

/-- In either encoding, two graphs have the same typed export exactly if they have the same kinds of
nodes and the same arcs, and the same export without roles exactly if they have the same kinds of
nodes and the same ends of arcs. -/
theorem render_eq_iff (representable : g.Representable) (representable' : g'.Representable)
    (encoding : Encoding) :
    (render .pyg encoding g = render .pyg encoding g' ↔
      g.nodes.map (·.kind) = g'.nodes.map (·.kind) ∧ g.edges = g'.edges) ∧
    (render .dgl encoding g = render .dgl encoding g' ↔
      g.nodes.map (·.kind) = g'.nodes.map (·.kind) ∧
        g.edges.map (fun e => (e.source, e.target)) =
          g'.edges.map (fun e => (e.source, e.target))) := by
  rw [← PygRecord.ofGraph_eq_iff, ← DglRecord.ofGraph_eq_iff]
  refine ⟨⟨?_, ?_⟩, ?_, ?_⟩
  · intro same
    rcases renderRecord_inj same with json | bytes
    · exact PygRecord.toJson_injective json
    · exact PygRecord.toBytes_inj (.ofGraph representable) (.ofGraph representable') bytes
  · intro same
    simp only [render, same]
  · intro same
    rcases renderRecord_inj same with json | bytes
    · exact DglRecord.toJson_injective json
    · exact DglRecord.toBytes_inj (.ofGraph representable) (.ofGraph representable') bytes
  · intro same
    simp only [render, same]

end

/-- A predicate of one argument. -/
def unary : Graph := (Formula.node "p" [.leaf "c"]).encode

/-- The same with another role for its arc. -/
def unaryRetyped : Graph := { unary with edges := [⟨0, 1, .ddg⟩] }

/-- The role of an arc shows in one export and not in the other. -/
theorem render_eq_iff_unary :
    unary.Representable ∧ unaryRetyped.Representable ∧
      render .dgl .bincode unary = render .dgl .bincode unaryRetyped ∧
      render .pyg .bincode unary ≠ render .pyg .bincode unaryRetyped := by
  have first : unary.Representable := (Formula.built_encode _).representable (by decide)
  have second : unaryRetyped.Representable := ⟨by decide, by decide⟩
  obtain ⟨typed, untyped⟩ := render_eq_iff first second .bincode
  refine ⟨first, second, untyped.mpr (by decide), ?_⟩
  intro same
  exact absurd (typed.mp same).2 (by decide)

end Export

end FolGraph
