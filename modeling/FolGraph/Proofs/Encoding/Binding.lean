import FolGraph.Proofs.Encoding.Encoded
import Mathlib.Data.Set.Function

/-!
# Binding arcs

The `ddg` arcs of the graph of a formula are its bindings: a declaration is linked to exactly the
occurrences that it binds, and a node is bound by one declaration at most. Nothing binds the root
or a declaration, and the inside of a declaration is bound by declarations inside it only.
-/

namespace FolGraph

/-- The arcs of role `ddg` that enter a node. -/
def Graph.bindingsOf (g : Graph) (id : Nat) : List Edge :=
  (g.edgesOfRole .ddg).filter (·.target == id)

theorem Graph.mem_bindingsOf {g : Graph} {id : Nat} {e : Edge} :
    e ∈ g.bindingsOf id ↔ e ∈ g.edges ∧ e.role = .ddg ∧ e.target = id := by
  simp only [bindingsOf, edgesOfRole, List.mem_filter, beq_iff_eq, and_assoc]

namespace Formula

/-- The position is that of a declaration of a quantifier. -/
def Declared (f : Formula) (v : List Nat) : Prop := ∃ q i name, f.Declares q i name ∧ v = q ++ [i]

/-- No declaration binds the node at a position. -/
def Free (f : Formula) (v : List Nat) : Prop := ∀ b, ¬ f.Binds b v

theorem bijOn_index (f : Formula) :
    Set.BijOn f.index {p | p ∈ f.positions} {k | k < f.encode.size} := by
  simp only [size_encode]
  refine ⟨fun p hp => ?_, fun p hp q hq same => ?_, fun k hk => ?_⟩
  · obtain ⟨s, hs⟩ := (mem_positions f p).mp hp
    exact index_lt hs
  · obtain ⟨s, hs⟩ := (mem_positions f p).mp hp
    obtain ⟨t, ht⟩ := (mem_positions f q).mp hq
    exact index_injective hs ht same
  · obtain ⟨p, s, hs, rfl⟩ := exists_index hk
    exact ⟨p, (mem_positions f p).mpr ⟨s, hs⟩, rfl⟩

/-- The declarations in scope have different names, so only one of them binds an occurrence. -/
theorem Binds.unique {f : Formula} {b c v : List Nat} (hb : f.Binds b v) (hc : f.Binds c v) :
    b = c := by
  obtain ⟨_, s, hb', hs⟩ := hb.positions
  obtain ⟨_, _, hc', _⟩ := hc.positions
  have first := (mem_binders_scopeAt_iff hs).mpr ⟨b, hb, rfl⟩
  have second := (mem_binders_scopeAt_iff hs).mpr ⟨c, hc, rfl⟩
  have few := (distinct_scopeAt hs).length_binders_le_one s.label
  have same : f.index b = f.index c := by
    generalize (f.scopeAt v).binders s.label = binders at first second few
    match binders with
    | [] => simp at first
    | [x] => simp_all
  exact index_injective hb' hc' same

theorem free_root (f : Formula) : f.Free [] := fun _ h => h.ne_nil rfl

theorem free_of_declared {f : Formula} {v : List Nat} (h : f.Declared v) : f.Free v := by
  obtain ⟨q, i, name, declares, rfl⟩ := h
  rintro _ ⟨_, _, _, rfl, _, inForce⟩
  exact not_inForce_declaration declares inForce

theorem mem_bindingsOf_encode {f t : Formula} {v : List Nat} (ht : f.sub? v = some t) {e : Edge} :
    e ∈ f.encode.bindingsOf (f.index v) ↔
      ∃ b, f.Binds b v ∧ e = ⟨f.index b, f.index v, .ddg⟩ := by
  rw [Graph.mem_bindingsOf]
  constructor
  · rintro ⟨he, role, target⟩
    obtain ⟨a, c, _⟩ := e
    obtain rfl := role
    obtain ⟨b, u, binds, rfl, same⟩ := ddg_mem_encode.mp he
    obtain ⟨_, _, _, hu⟩ := binds.positions
    obtain rfl := index_injective ht hu (target.symm.trans same)
    rw [same]
    exact ⟨b, binds, rfl⟩
  · rintro ⟨b, binds, rfl⟩
    exact ⟨ddg_mem_encode.mpr ⟨b, v, binds, rfl, rfl⟩, rfl, rfl⟩

/-- An occurrence is linked to its declaration, once, and to no other. -/
theorem bindingsOf_encode_of_binds {f : Formula} {b v : List Nat} (h : f.Binds b v) :
    f.encode.bindingsOf (f.index v) = [⟨f.index b, f.index v, .ddg⟩] := by
  obtain ⟨_, t, _, ht⟩ := h.positions
  have once : (f.encode.bindingsOf (f.index v)).Nodup :=
    ((nodup_edges_encode f).filter _).filter _
  rw [← List.perm_singleton, List.perm_ext_iff_of_nodup once (List.nodup_singleton _)]
  intro e
  rw [mem_bindingsOf_encode ht, List.mem_singleton]
  constructor
  · rintro ⟨c, binds, rfl⟩
    rw [binds.unique h]
  · rintro rfl
    exact ⟨b, h, rfl⟩

theorem bindingsOf_encode_of_free {f t : Formula} {v : List Nat} (ht : f.sub? v = some t)
    (free : f.Free v) : f.encode.bindingsOf (f.index v) = [] := by
  rw [List.eq_nil_iff_forall_not_mem]
  intro e he
  obtain ⟨b, binds, _⟩ := (mem_bindingsOf_encode ht).mp he
  exact free b binds

theorem length_bindingsOf_encode_le_one (f : Formula) (k : Nat) :
    (f.encode.bindingsOf k).length ≤ 1 := by
  by_cases none : f.encode.bindingsOf k = []
  · simp [none]
  · obtain ⟨e, he⟩ := List.exists_mem_of_ne_nil _ none
    obtain ⟨member, role, rfl⟩ := Graph.mem_bindingsOf.mp he
    obtain ⟨a, c, _⟩ := e
    obtain rfl := role
    obtain ⟨b, v, binds, rfl, rfl⟩ := ddg_mem_encode.mp member
    rw [bindingsOf_encode_of_binds binds]
    exact Nat.le_refl 1

/-- Of two declarations of a name the inner one binds. -/
example : (node "!" [leaf "X", node "?" [leaf "X", leaf "X"]]).encode.bindingsOf 4 =
    [⟨3, 4, .ddg⟩] := by decide

/-- A quantifier whose body holds a node of a declaration stands inside that declaration: outside
it, the way down to the node would enter the declaration. -/
theorem InForce.inside_declaration {f : Formula} {q r w : List Nat} {i k : Nat}
    {name other : String} (h : f.InForce r k other (q ++ i :: w))
    (declares : f.Declares q i name) : ∃ u, r = q ++ i :: u := by
  obtain ⟨s, j, x, hs, kind, last, way⟩ := h.inBody
  rcases List.append_eq_append_iff.mp way with ⟨as, rfl, below⟩ | ⟨bs, rfl, below⟩
  · cases as with
    | nil =>
      obtain ⟨t, _, ht, _, early, _⟩ := declares
      rw [List.append_nil] at hs
      obtain rfl := Option.some.inj (hs.symm.trans ht)
      obtain rfl := (List.cons.inj below).1
      omega
    | cons a as => exact ⟨as, by rw [(List.cons.inj below).1]⟩
  · cases bs with
    | nil =>
      obtain ⟨t, _, ht, _, early, _⟩ := declares
      rw [List.append_nil] at ht
      obtain rfl := Option.some.inj (hs.symm.trans ht)
      obtain rfl := (List.cons.inj below).1
      omega
    | cons b bs =>
      obtain rfl := (List.cons.inj below).1
      exact absurd ⟨i, w, name, declares, rfl⟩ (h.exposed _ ⟨s, j, bs, hs, kind, last, rfl⟩)

theorem Binds.inside_declaration {f : Formula} {b q w : List Nat} {i : Nat} {name : String}
    (h : f.Binds b (q ++ i :: w)) (declares : f.Declares q i name) :
    ∃ u, u ≠ [] ∧ b = q ++ i :: u := by
  obtain ⟨r, k, _, rfl, _, inForce⟩ := h
  obtain ⟨u, rfl⟩ := inForce.inside_declaration declares
  exact ⟨u ++ [k], by simp, by simp⟩

/-- The nodes of the graph are the positions of the formula, with their labels. Its `ddg` arcs are
the bindings of the formula, each once; the root, the declarations and the free occurrences are
entered by none, and what enters the inside of a declaration comes from the inside. -/
theorem ddg_encode (f : Formula) :
    Set.BijOn f.index {p | p ∈ f.positions} {k | k < f.encode.size} ∧
      (∀ p s, f.sub? p = some s →
        f.encode.node? (f.index p) = some ⟨f.index p, .ofLabel s.label, s.label⟩) ∧
      (∀ a c, ⟨a, c, .ddg⟩ ∈ f.encode.edges ↔
        ∃ b v, f.Binds b v ∧ a = f.index b ∧ c = f.index v) ∧
      (∀ b v, f.Binds b v →
        f.encode.bindingsOf (f.index v) = [⟨f.index b, f.index v, .ddg⟩]) ∧
      (∀ k, (f.encode.bindingsOf k).length ≤ 1) ∧
      (∀ v s, f.sub? v = some s → v = [] ∨ f.Declared v ∨ f.Free v →
        f.encode.bindingsOf (f.index v) = []) ∧
      ∀ q i name w b, f.Declares q i name → f.Binds b (q ++ i :: w) →
        ∃ u, u ≠ [] ∧ b = q ++ i :: u := by
  refine ⟨bijOn_index f, fun _ _ => node?_encode, fun _ _ => ddg_mem_encode,
    fun _ _ => bindingsOf_encode_of_binds, length_bindingsOf_encode_le_one f, ?_,
    fun _ _ _ _ _ declares binds => binds.inside_declaration declares⟩
  rintro v s hs (rfl | declared | free)
  · exact bindingsOf_encode_of_free hs (free_root f)
  · exact bindingsOf_encode_of_free hs (free_of_declared declared)
  · exact bindingsOf_encode_of_free hs free

end Formula

end FolGraph
