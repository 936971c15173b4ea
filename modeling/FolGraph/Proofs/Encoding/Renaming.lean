import FolGraph.Export.Render
import FolGraph.Proofs.Encoding.Binding
import FolGraph.Proofs.Encoding.Relabelling

/-!
# Renaming of bound variables

A declaration and everything that it binds may take another name of the same kind, if nothing in
the quantifier has that name. `binds_rename_iff` says that every declaration then binds what it
bound before: no occurrence is captured by another declaration and none is released to one.
`encode_rename` draws the consequence: no arc and no kind changes, and neither does a record.
-/

namespace FolGraph

/-- Records leave the labels out: they are made of the kinds of the nodes and of the arcs. -/
theorem Export.render_congr {g h : Graph} (edges : g.edges = h.edges)
    (kinds : g.nodes.map (·.kind) = h.nodes.map (·.kind)) (encoding : Export.Encoding) :
    Export.render .pyg encoding g = Export.render .pyg encoding h ∧
      Export.render .dgl encoding g = Export.render .dgl encoding h := by
  have ordinals : (g.nodes.map fun n => n.kind.ordinal) = h.nodes.map fun n => n.kind.ordinal := by
    simpa [Function.comp_def] using congrArg (List.map Kind.ordinal) kinds
  have features : (g.nodes.map fun n => DglRecord.feature n.kind) =
      h.nodes.map fun n => DglRecord.feature n.kind := by
    simpa [Function.comp_def] using congrArg (List.map DglRecord.feature) kinds
  simp only [render, PygRecord.ofGraph, DglRecord.ofGraph, edges, ordinals, features, and_self]

namespace Formula

/-- The label of a node after a declaration and all that the graph links to it take a new name. -/
def newLabel (f : Formula) (b : List Nat) (name : String) (p : List Nat) (label : String) :
    String :=
  if p = b ∨ ⟨f.index b, f.index p, .ddg⟩ ∈ f.encode.edges then name else label

/-- The formula with a new name for the declaration at a position and for all that it binds. -/
def rename (f : Formula) (b : List Nat) (name : String) : Formula := f.relabel (f.newLabel b name)

/-- The argument number `i` of the quantifier at `q` is a declaration that may take a name: one of
the kind of its own name, which no node of the quantifier has. -/
structure Renames (f : Formula) (q : List Nat) (i : Nat) (name : String) : Prop where
  declares : ∃ old, f.Declares q i old ∧ Kind.ofLabel name = Kind.ofLabel old
  fresh : ∀ w t, f.sub? (q ++ w) = some t → t.label ≠ name

theorem InBody.trans {f : Formula} {q r v : List Nat} (h : f.InBody q r) (h' : f.InBody r v) :
    f.InBody q v := by
  obtain ⟨s, j, w, hs, kind, last, rfl⟩ := h
  obtain ⟨_, k, x, _, _, _, rfl⟩ := h'
  exact ⟨s, j, w ++ k :: x, hs, kind, last, by simp⟩

theorem Declares.eq_name {f : Formula} {q : List Nat} {i : Nat} {name other : String}
    (h : f.Declares q i name) (h' : f.Declares q i other) : name = other := by
  obtain ⟨s, d, hs, _, _, hd, rfl⟩ := h
  obtain ⟨t, d', ht, _, _, hd', rfl⟩ := h'
  obtain rfl := Option.some.inj (hs.symm.trans ht)
  rw [Option.some.inj (hd.symm.trans hd')]

theorem Declares.sub? {f : Formula} {q : List Nat} {i : Nat} {name : String}
    (h : f.Declares q i name) : ∃ d, f.sub? (q ++ [i]) = some d ∧ d.label = name := by
  obtain ⟨s, d, hs, _, _, hd, rfl⟩ := h
  exact ⟨d, (sub?_snoc hs i).trans hd, rfl⟩

section
variable {f : Formula} {q : List Nat} {i : Nat} {name : String}

theorem newLabel_self (f : Formula) (b : List Nat) (name label : String) :
    f.newLabel b name b label = name := by
  simp [newLabel]

theorem newLabel_of_binds {b v : List Nat} (h : f.Binds b v) (label : String) :
    f.newLabel b name v label = name := by
  rw [newLabel, if_pos (Or.inr (ddg_mem_encode.mpr ⟨b, v, h, rfl, rfl⟩))]

/-- Nodes that the declaration does not bind keep their labels. -/
theorem Renames.newLabel_eq (h : f.Renames q i name) {t : Formula} {v : List Nat}
    (hv : f.sub? v = some t) (other : v ≠ q ++ [i]) (free : ¬ f.Binds (q ++ [i]) v)
    (label : String) : f.newLabel (q ++ [i]) name v label = label := by
  obtain ⟨_, declares, _⟩ := h.declares
  obtain ⟨d, hd, _⟩ := declares.sub?
  have absent := mt (ddg_index_mem_encode_iff hd hv).mp free
  rw [newLabel, if_neg (not_or.mpr ⟨other, absent⟩)]

theorem Renames.keepsKinds (h : f.Renames q i name) :
    f.KeepsKinds (f.newLabel (q ++ [i]) name) := by
  obtain ⟨old, declares, kind⟩ := h.declares
  intro p s hs
  by_cases self : p = q ++ [i]
  · obtain ⟨d, hd, rfl⟩ := declares.sub?
    rw [self] at hs ⊢
    rw [newLabel_self, kind, Option.some.inj (hd.symm.trans hs)]
  · by_cases binds : f.Binds (q ++ [i]) p
    · rw [newLabel_of_binds binds, kind]
      obtain ⟨_, _, t, same, ht, inForce⟩ := binds
      obtain ⟨rfl, rfl⟩ := List.append_singleton_inj.mp same
      obtain rfl := Option.some.inj (hs.symm.trans ht)
      rw [declares.eq_name inForce.declares]
    · rw [h.newLabel_eq hs self binds]

/-! ## The declarations after a renaming -/

theorem Renames.declares_rename_self_iff (h : f.Renames q i name) {other : String} :
    (f.rename (q ++ [i]) name).Declares q i other ↔ other = name := by
  obtain ⟨old, declares, _⟩ := h.declares
  rw [rename, declares_relabel_iff h.keepsKinds]
  simp only [newLabel_self]
  exact ⟨fun ⟨_, _, same⟩ => same, fun same => ⟨old, declares, same⟩⟩

/-- Nothing binds a declaration, so the other declarations keep their names. -/
theorem Renames.declares_rename_iff (h : f.Renames q i name) {r : List Nat} {k : Nat}
    (other : r ++ [k] ≠ q ++ [i]) {n : String} :
    (f.rename (q ++ [i]) name).Declares r k n ↔ f.Declares r k n := by
  have kept : ∀ {m}, f.Declares r k m → f.newLabel (q ++ [i]) name (r ++ [k]) m = m := by
    intro m declares
    obtain ⟨d, hd, _⟩ := declares.sub?
    exact h.newLabel_eq hd other (free_of_declared ⟨r, k, m, declares, rfl⟩ _) m
  rw [rename, declares_relabel_iff h.keepsKinds]
  constructor
  · rintro ⟨m, declares, rfl⟩
    rwa [kept declares]
  · exact fun declares => ⟨n, declares, (kept declares).symm⟩

theorem Renames.not_declares (h : f.Renames q i name) (w : List Nat) (k : Nat) :
    ¬ f.Declares (q ++ w) k name := by
  intro declares
  obtain ⟨d, hd, label⟩ := declares.sub?
  exact h.fresh (w ++ [k]) d (by rw [← List.append_assoc, hd]) label

theorem Renames.inBody_rename_iff (h : f.Renames q i name) {r v : List Nat} :
    (f.rename (q ++ [i]) name).InBody r v ↔ f.InBody r v := inBody_relabel_iff h.keepsKinds

theorem Renames.inDeclaration_rename_iff (h : f.Renames q i name) {r v : List Nat} :
    (f.rename (q ++ [i]) name).InDeclaration r v ↔ f.InDeclaration r v :=
  inDeclaration_relabel_iff h.keepsKinds

theorem InBody.snoc_ne {r : List Nat} (h : f.InBody q r) (k : Nat) : r ++ [k] ≠ q ++ [i] := by
  intro same
  rw [(List.append_singleton_inj.mp same).1] at h
  exact absurd h.length_lt (Nat.lt_irrefl _)

/-! ## What is in force after a renaming -/

/-- Under its new name the declaration binds what it bound before: nothing else has that name. -/
theorem Renames.inForce_rename_self (h : f.Renames q i name) {old : String} {v : List Nat}
    (inForce : f.InForce q i old v) :
    (f.rename (q ++ [i]) name).InForce q i name v where
  declares := h.declares_rename_self_iff.mpr rfl
  inBody := h.inBody_rename_iff.mpr inForce.inBody
  exposed r body inside :=
    inForce.exposed r (h.inBody_rename_iff.mp body) (h.inDeclaration_rename_iff.mp inside)
  latest k later declares := by
    have other : q ++ [k] ≠ q ++ [i] := by simpa using Nat.ne_of_gt later
    refine h.not_declares [] k ?_
    rwa [List.append_nil, ← h.declares_rename_iff other]
  innermost r body _ k declares := by
    have body := h.inBody_rename_iff.mp body
    rw [h.declares_rename_iff (body.snoc_ne k)] at declares
    obtain ⟨_, j, w, _, _, _, rfl⟩ := body
    exact h.not_declares (j :: w) k declares

/-- A renamed declaration of a name was in force wherever nothing nearer declares the name now. -/
theorem Renames.inForce_of_rename (h : f.Renames q i name) {n : String} {v : List Nat}
    (declares : f.Declares q i n) (inBody : f.InBody q v)
    (exposed : ∀ r, f.InBody q r → ¬ f.InDeclaration r v)
    (latest : ∀ k, i < k → ¬ (f.rename (q ++ [i]) name).Declares q k n)
    (innermost : ∀ r, f.InBody q r → f.InBody r v →
      ∀ k, ¬ (f.rename (q ++ [i]) name).Declares r k n) : f.InForce q i n v where
  declares := declares
  inBody := inBody
  exposed := exposed
  latest k later other := by
    have apart : q ++ [k] ≠ q ++ [i] := by simpa using Nat.ne_of_gt later
    exact latest k later ((h.declares_rename_iff apart).mpr other)
  innermost r body inside k other :=
    innermost r body inside k ((h.declares_rename_iff (body.snoc_ne k)).mpr other)

/-- A node that the declaration does not bind is released to no other declaration. -/
theorem Renames.inForce_of_inForce_rename (h : f.Renames q i name) {s : Formula}
    {v r : List Nat} {k : Nat} (hs : f.sub? v = some s) (free : ¬ f.Binds (q ++ [i]) v)
    (inForce : (f.rename (q ++ [i]) name).InForce r k s.label v) :
    f.InForce r k s.label v := by
  have inBody := h.inBody_rename_iff.mp inForce.inBody
  have exposed : ∀ r', f.InBody r r' → ¬ f.InDeclaration r' v := fun r' body inside =>
    inForce.exposed r' (h.inBody_rename_iff.mpr body) (h.inDeclaration_rename_iff.mpr inside)
  have innermost : ∀ r', f.InBody r r' → f.InBody r' v →
      ∀ k', ¬ (f.rename (q ++ [i]) name).Declares r' k' s.label := fun r' body inside =>
    inForce.innermost r' (h.inBody_rename_iff.mpr body) (h.inBody_rename_iff.mpr inside)
  have other : r ++ [k] ≠ q ++ [i] := by
    intro same
    obtain ⟨rfl, rfl⟩ := List.append_singleton_inj.mp same
    obtain ⟨_, j, w, _, _, _, rfl⟩ := inBody
    exact h.fresh (j :: w) s hs (h.declares_rename_self_iff.mp inForce.declares)
  refine ⟨(h.declares_rename_iff other).mp inForce.declares, inBody, exposed, ?_, ?_⟩
  · intro k' later declares
    by_cases self : r ++ [k'] = q ++ [i]
    · obtain ⟨rfl, rfl⟩ := List.append_singleton_inj.mp self
      have before := h.inForce_of_rename declares inBody exposed
        (fun k'' later' => inForce.latest k'' (Nat.lt_trans later later')) innermost
      exact free ⟨r, k', s, rfl, hs, before⟩
    · exact inForce.latest k' later ((h.declares_rename_iff self).mpr declares)
  · intro r' body inside k' declares
    by_cases self : r' ++ [k'] = q ++ [i]
    · obtain ⟨rfl, rfl⟩ := List.append_singleton_inj.mp self
      have before := h.inForce_of_rename declares inside
        (fun r'' body' => exposed r'' (body.trans body')) (fun k'' _ => innermost r' body inside k'')
        (fun r'' body' => innermost r'' (body.trans body'))
      exact free ⟨r', k', s, rfl, hs, before⟩
    · exact innermost r' body inside k' ((h.declares_rename_iff self).mpr declares)

/-- A node that another declaration binds is not captured by the renamed one. -/
theorem Renames.inForce_rename_of_inForce (h : f.Renames q i name) {s : Formula}
    {v r : List Nat} {k : Nat} (hs : f.sub? v = some s) (free : ¬ f.Binds (q ++ [i]) v)
    (inForce : f.InForce r k s.label v) :
    (f.rename (q ++ [i]) name).InForce r k s.label v := by
  have other : r ++ [k] ≠ q ++ [i] := fun same => free ⟨r, k, s, same.symm, hs, inForce⟩
  have renamed : ∀ {r' k'}, f.InBody r' v →
      (f.rename (q ++ [i]) name).Declares r' k' s.label → f.Declares r' k' s.label := by
    intro r' k' inside declares
    by_cases self : r' ++ [k'] = q ++ [i]
    · obtain ⟨rfl, rfl⟩ := List.append_singleton_inj.mp self
      obtain ⟨_, j, w, _, _, _, rfl⟩ := inside
      exact absurd (h.declares_rename_self_iff.mp declares) (h.fresh (j :: w) s hs)
    · exact (h.declares_rename_iff self).mp declares
  refine ⟨(h.declares_rename_iff other).mpr inForce.declares,
    h.inBody_rename_iff.mpr inForce.inBody, ?_, ?_, ?_⟩
  · exact fun r' body inside => inForce.exposed r' (h.inBody_rename_iff.mp body)
      (h.inDeclaration_rename_iff.mp inside)
  · exact fun k' later declares => inForce.latest k' later (renamed inForce.inBody declares)
  · intro r' body inside k' declares
    have inside := h.inBody_rename_iff.mp inside
    exact inForce.innermost r' (h.inBody_rename_iff.mp body) inside k' (renamed inside declares)

/-- After the renaming every declaration binds what it bound before. -/
theorem Renames.binds_rename_iff (h : f.Renames q i name) (b v : List Nat) :
    (f.rename (q ++ [i]) name).Binds b v ↔ f.Binds b v := by
  obtain ⟨old, declares, _⟩ := h.declares
  by_cases self : v = q ++ [i]
  · -- nothing binds a declaration, before or after
    have declared : f.Declared v := ⟨q, i, old, declares, self⟩
    have declared' : (f.rename (q ++ [i]) name).Declared v :=
      ⟨q, i, name, h.declares_rename_self_iff.mpr rfl, self⟩
    exact iff_of_false (free_of_declared declared' b) (free_of_declared declared b)
  · by_cases binds : f.Binds (q ++ [i]) v
    · have binds' : (f.rename (q ++ [i]) name).Binds (q ++ [i]) v := by
        obtain ⟨_, _, s, same, hs, inForce⟩ := binds
        obtain ⟨rfl, rfl⟩ := List.append_singleton_inj.mp same
        refine ⟨q, i, _, rfl, sub?_relabel_of_sub? _ hs, ?_⟩
        rw [label_relabel_append, newLabel_of_binds ⟨q, i, s, rfl, hs, inForce⟩]
        exact h.inForce_rename_self inForce
      constructor
      · exact fun other => other.unique binds' ▸ binds
      · exact fun other => other.unique binds ▸ binds'
    · constructor
      · rintro ⟨r, k, _, rfl, found, inForce⟩
        obtain ⟨s, hs, rfl⟩ := exists_of_sub?_relabel found
        rw [label_relabel_append, h.newLabel_eq hs self binds] at inForce
        exact ⟨r, k, s, rfl, hs, h.inForce_of_inForce_rename hs binds inForce⟩
      · rintro ⟨r, k, s, rfl, hs, inForce⟩
        refine ⟨r, k, _, rfl, sub?_relabel_of_sub? _ hs, ?_⟩
        rw [label_relabel_append, h.newLabel_eq hs self binds]
        exact h.inForce_rename_of_inForce hs binds inForce

end

/-- A quantifier in the body of another one, which nothing in it refers to. -/
def inScope (name : String) : Formula :=
  node "!" [leaf "Y", node "&" [node "?" [leaf name, node "p" [leaf name]], leaf "Y"]]

/-- Renaming a declaration and all that it binds changes no arc and no kind of the graph, so both
records of the graph stay the same to the byte. -/
theorem encode_rename {f s d : Formula} {q : List Nat} {i : Nat} {name : String}
    (hs : f.sub? q = some s) (quantifier : s.label = "!" ∨ s.label = "?")
    (declaration : i + 1 < s.args.length) (hd : s.args[i]? = some d)
    (kind : Kind.ofLabel name = Kind.ofLabel d.label)
    (fresh : ∀ w t, s.sub? w = some t → t.label ≠ name) :
    (f.rename (q ++ [i]) name).encode.edges = f.encode.edges ∧
      (f.rename (q ++ [i]) name).encode.nodes.map (·.kind) = f.encode.nodes.map (·.kind) ∧
      ∀ encoding,
        Export.render .pyg encoding (f.rename (q ++ [i]) name).encode =
            Export.render .pyg encoding f.encode ∧
          Export.render .dgl encoding (f.rename (q ++ [i]) name).encode =
            Export.render .dgl encoding f.encode := by
  have declares : f.Declares q i d.label :=
    ⟨s, d, hs, isQuantifier_iff.mpr quantifier, declaration, hd, rfl⟩
  have renames : f.Renames q i name :=
    ⟨⟨d.label, declares, kind⟩, fun w t ht => fresh w t (by rwa [← sub?_append hs])⟩
  have edges := edges_relabel renames.keepsKinds renames.binds_rename_iff
  have kinds := kinds_relabel renames.keepsKinds
  exact ⟨edges, kinds, Export.render_congr edges kinds⟩

/-- The inner declaration takes the name of the outer one. -/
theorem encode_rename_inScope :
    (inScope "X").rename [1, 0, 0] "Y" = inScope "Y" ∧
      (inScope "Y").encode.edges = (inScope "X").encode.edges ∧
      ∀ encoding, Export.render .dgl encoding (inScope "Y").encode =
        Export.render .dgl encoding (inScope "X").encode := by
  have renamed : (inScope "X").rename [1, 0, 0] "Y" = inScope "Y" := by decide
  have fresh : ∀ w t, (node "?" [leaf "X", node "p" [leaf "X"]]).sub? w = some t →
      t.label ≠ "Y" := fun w t ht same => absurd (same ▸ label_mem_labels ht) (by decide)
  have same := encode_rename (f := inScope "X") (q := [1, 0]) (i := 0) (d := leaf "X")
    rfl (Or.inr rfl) (by decide) rfl (by decide) fresh
  rw [List.cons_append, List.cons_append, List.nil_append, renamed] at same
  exact ⟨renamed, same.1, fun encoding => (same.2.2 encoding).2⟩

end Formula

end FolGraph
