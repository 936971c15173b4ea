import FolGraph.Proofs.Encoding.Arrival
import Mathlib.Data.List.Induction

/-!
# Binding

Which declaration a node is bound by, said without the pass of the encoder: `InForce` asks for a
declaration of a quantifier whose body holds the node, with nothing nearer that declares the name
and no declaration of an inner quantifier on the way. `mem_scopeAt_iff` says that the scope the
encoder threads to a node holds exactly the declarations in force there, each name once.
-/

namespace FolGraph

theorem Layout.ofLabel_eq_binding_iff {label : String} :
    Layout.ofLabel label = .binding ↔ isQuantifier label = true := by
  unfold Layout.ofLabel
  split
  · simp_all
  · split <;> simp_all

theorem Layout.ofLabel_eq_chained_iff {label : String} :
    Layout.ofLabel label = .chained ↔ isQuantifier label = false ∧ isUnordered label = false := by
  unfold Layout.ofLabel
  split
  · simp_all
  · split <;> simp_all

namespace Scope

/-- No name occurs twice. -/
def Distinct (scope : Scope) : Prop := (scope.map (·.1)).Nodup

theorem mem_declare {scope : Scope} {name other : String} {id other' : Nat} :
    (other, other') ∈ scope.declare name id ↔
      (other = name ∧ other' = id) ∨ ((other, other') ∈ scope ∧ other ≠ name) := by
  simp only [declare, List.mem_append, List.mem_filter, List.mem_singleton, Prod.mk.injEq,
    bne_iff_ne]
  exact Or.comm

theorem Distinct.declare {scope : Scope} (h : scope.Distinct) (name : String) (id : Nat) :
    (scope.declare name id).Distinct := by
  unfold Distinct at *
  rw [Scope.declare, List.map_append, List.map_singleton, List.nodup_append']
  refine ⟨h.sublist (List.filter_sublist.map _), List.nodup_singleton name, ?_⟩
  rw [List.disjoint_singleton]
  intro member
  obtain ⟨d, hd, rfl⟩ := List.mem_map.mp member
  simpa using (List.mem_filter.mp hd).2

theorem Distinct.declareAll {scope : Scope} (h : scope.Distinct) (next : Nat)
    (fs : List Formula) : (scope.declareAll next fs).Distinct := by
  induction fs generalizing scope next with
  | nil => exact h
  | cons f fs ih => exact ih (h.declare f.label next) _

theorem mem_binders {scope : Scope} {name : String} {id : Nat} :
    id ∈ scope.binders name ↔ (name, id) ∈ scope := by
  simp only [binders, List.mem_map, List.mem_filter, beq_iff_eq]
  constructor
  · rintro ⟨⟨_, _⟩, ⟨member, rfl⟩, rfl⟩
    exact member
  · intro member
    exact ⟨(name, id), ⟨member, rfl⟩, rfl⟩

theorem Distinct.length_binders_le_one {scope : Scope} (h : scope.Distinct) (name : String) :
    (scope.binders name).length ≤ 1 := by
  have once := List.nodup_iff_count_le_one.mp h name
  rw [List.count, List.countP_map, List.countP_eq_length_filter] at once
  rw [binders, List.length_map]
  exact once

/-- A formula of a list has a label, and none after it has. -/
def LastLabelled (fs : List Formula) (i : Nat) (name : String) : Prop :=
  (∃ f, fs[i]? = some f ∧ f.label = name) ∧
    ∀ j, i < j → ∀ g, fs[j]? = some g → g.label ≠ name

theorem lastLabelled_cons_zero {f : Formula} {fs : List Formula} {name : String} :
    LastLabelled (f :: fs) 0 name ↔ f.label = name ∧ ∀ g ∈ fs, g.label ≠ name := by
  constructor
  · rintro ⟨⟨g, found, label⟩, later⟩
    obtain rfl := Option.some.inj found
    refine ⟨label, fun g hg => ?_⟩
    obtain ⟨j, hj⟩ := List.mem_iff_getElem?.mp hg
    exact later (j + 1) (by omega) g hj
  · rintro ⟨label, none⟩
    refine ⟨⟨f, rfl, label⟩, fun j hj g hg => ?_⟩
    cases j with
    | zero => omega
    | succ j => exact none g (List.mem_of_getElem? hg)

theorem lastLabelled_cons_succ {f : Formula} {fs : List Formula} {i : Nat} {name : String} :
    LastLabelled (f :: fs) (i + 1) name ↔ LastLabelled fs i name := by
  constructor
  · rintro ⟨found, later⟩
    exact ⟨found, fun j hj g hg => later (j + 1) (by omega) g hg⟩
  · rintro ⟨found, later⟩
    refine ⟨found, fun j hj g hg => ?_⟩
    cases j with
    | zero => omega
    | succ j => exact later j (by omega) g hg

/-- After a list of declarations, the last of them to declare a name is in force, or else what was
in force before. -/
theorem mem_declareAll {scope : Scope} {next id : Nat} {fs : List Formula} {name : String} :
    (name, id) ∈ scope.declareAll next fs ↔
      (∃ i, LastLabelled fs i name ∧ id = next + Formula.sizeAll (fs.take i)) ∨
        ((name, id) ∈ scope ∧ ∀ g ∈ fs, g.label ≠ name) := by
  induction fs generalizing scope next with
  | nil => simp [declareAll, LastLabelled]
  | cons f fs ih =>
    have shift : ∀ i, next + f.size + Formula.sizeAll (fs.take i) =
        next + Formula.sizeAll ((f :: fs).take (i + 1)) := by
      intro i
      rw [List.take_succ_cons, Formula.sizeAll, Nat.add_assoc]
    rw [declareAll, ih, mem_declare, List.forall_mem_cons]
    constructor
    · rintro (⟨i, last, rfl⟩ | ⟨⟨rfl, rfl⟩ | ⟨member, other⟩, none⟩)
      · exact Or.inl ⟨i + 1, lastLabelled_cons_succ.mpr last, shift i⟩
      · exact Or.inl ⟨0, lastLabelled_cons_zero.mpr ⟨rfl, none⟩, rfl⟩
      · exact Or.inr ⟨member, other.symm, none⟩
    · rintro (⟨i, last, rfl⟩ | ⟨member, other, none⟩)
      · cases i with
        | zero =>
          obtain ⟨label, none⟩ := lastLabelled_cons_zero.mp last
          exact Or.inr ⟨Or.inl ⟨label.symm, rfl⟩, none⟩
        | succ i => exact Or.inl ⟨i, lastLabelled_cons_succ.mp last, (shift i).symm⟩
      · exact Or.inr ⟨Or.inr ⟨member, other.symm⟩, none⟩

end Scope

namespace Formula

/-- The argument number `i` of the quantifier at `q` declares a name. -/
def Declares (f : Formula) (q : List Nat) (i : Nat) (name : String) : Prop :=
  ∃ s d, f.sub? q = some s ∧ isQuantifier s.label = true ∧ i + 1 < s.args.length ∧
    s.args[i]? = some d ∧ d.label = name

/-- The node at `v` lies in the last argument of the quantifier at `q`. -/
def InBody (f : Formula) (q v : List Nat) : Prop :=
  ∃ s j w, f.sub? q = some s ∧ isQuantifier s.label = true ∧ j + 1 = s.args.length ∧
    v = q ++ j :: w

/-- The node at `v` lies in a declaration of the quantifier at `q`. -/
def InDeclaration (f : Formula) (q v : List Nat) : Prop :=
  ∃ i w name, f.Declares q i name ∧ v = q ++ i :: w

/-- What the argument number `i` of the quantifier at `q` declares holds of a name at `v`. -/
structure InForce (f : Formula) (q : List Nat) (i : Nat) (name : String) (v : List Nat) :
    Prop where
  declares : f.Declares q i name
  inBody : f.InBody q v
  /-- The way from the body of the quantifier to `v` enters no declaration. -/
  exposed : ∀ q', f.InBody q q' → ¬ f.InDeclaration q' v
  /-- No later declaration of the quantifier has the name. -/
  latest : ∀ i', i < i' → ¬ f.Declares q i' name
  /-- No quantifier between the two, with `v` in its body, declares the name. -/
  innermost : ∀ q', f.InBody q q' → f.InBody q' v → ∀ i', ¬ f.Declares q' i' name

/-- The node at `v` is an occurrence of the name that the declaration at `b` declares. -/
def Binds (f : Formula) (b v : List Nat) : Prop :=
  ∃ q i s, b = q ++ [i] ∧ f.sub? v = some s ∧ f.InForce q i s.label v

theorem snoc_eq_append_cons {p q w : List Nat} {k j : Nat} :
    p ++ [k] = q ++ j :: w ↔
      (p = q ∧ k = j ∧ w = []) ∨ ∃ w', w = w' ++ [k] ∧ p = q ++ j :: w' := by
  rcases w.eq_nil_or_concat' with rfl | ⟨w, x, rfl⟩
  · simp
  · rw [← List.cons_append, ← List.append_assoc, List.append_singleton_inj]
    constructor
    · rintro ⟨rfl, rfl⟩
      exact Or.inr ⟨w, rfl, rfl⟩
    · rintro (⟨_, _, h⟩ | ⟨w', h, rfl⟩)
      · simp at h
      · obtain ⟨rfl, rfl⟩ := List.append_singleton_inj.mp h
        exact ⟨rfl, rfl⟩

theorem InBody.length_lt {f : Formula} {q v : List Nat} (h : f.InBody q v) :
    q.length < v.length := by
  obtain ⟨_, _, _, _, _, _, rfl⟩ := h
  simp

theorem InDeclaration.length_lt {f : Formula} {q v : List Nat} (h : f.InDeclaration q v) :
    q.length < v.length := by
  obtain ⟨_, _, _, _, rfl⟩ := h
  simp

theorem inBody_snoc_iff {f s : Formula} {p : List Nat} (hs : f.sub? p = some s) {q : List Nat}
    {k : Nat} :
    f.InBody q (p ++ [k]) ↔
      f.InBody q p ∨ (q = p ∧ isQuantifier s.label = true ∧ k + 1 = s.args.length) := by
  constructor
  · rintro ⟨t, j, w, ht, kind, last, h⟩
    rcases snoc_eq_append_cons.mp h with ⟨rfl, rfl, rfl⟩ | ⟨w', rfl, rfl⟩
    · obtain rfl := Option.some.inj (hs.symm.trans ht)
      exact Or.inr ⟨rfl, kind, last⟩
    · exact Or.inl ⟨t, j, w', ht, kind, last, rfl⟩
  · rintro (⟨t, j, w, ht, kind, last, rfl⟩ | ⟨rfl, kind, last⟩)
    · exact ⟨t, j, w ++ [k], ht, kind, last, by simp⟩
    · exact ⟨s, k, [], hs, kind, last, rfl⟩

theorem inDeclaration_snoc_iff {f : Formula} {q p : List Nat} {k : Nat} :
    f.InDeclaration q (p ++ [k]) ↔
      f.InDeclaration q p ∨ (q = p ∧ ∃ name, f.Declares p k name) := by
  constructor
  · rintro ⟨i, w, name, declares, h⟩
    rcases snoc_eq_append_cons.mp h with ⟨rfl, rfl, rfl⟩ | ⟨w', rfl, rfl⟩
    · exact Or.inr ⟨rfl, name, declares⟩
    · exact Or.inl ⟨i, w', name, declares, rfl⟩
  · rintro (⟨i, w, name, declares, rfl⟩ | ⟨rfl, name, declares⟩)
    · exact ⟨i, w ++ [k], name, declares, by simp⟩
    · exact ⟨k, [], name, declares, rfl⟩

/-- Below a node that is no quantifier, the same declarations are in force as at the node. -/
theorem inForce_snoc_iff_of_not_quantifier {f s : Formula} {p : List Nat}
    (hs : f.sub? p = some s) (kind : isQuantifier s.label = false) {q : List Nat} {i k : Nat}
    {name : String} : f.InForce q i name (p ++ [k]) ↔ f.InForce q i name p := by
  have body : ∀ q, f.InBody q (p ++ [k]) ↔ f.InBody q p := by
    intro q
    rw [inBody_snoc_iff hs, kind]
    simp
  have declaration : ∀ q, f.InDeclaration q (p ++ [k]) ↔ f.InDeclaration q p := by
    intro q
    rw [inDeclaration_snoc_iff, or_iff_left]
    rintro ⟨_, _, t, _, ht, kind', _⟩
    obtain rfl := Option.some.inj (hs.symm.trans ht)
    rw [kind] at kind'
    cases kind'
  constructor
  · intro h
    refine ⟨h.declares, (body q).mp h.inBody, ?_, h.latest, ?_⟩
    · exact fun q' hq inside => h.exposed q' hq ((declaration q').mpr inside)
    · exact fun q' hq inside => h.innermost q' hq ((body q').mpr inside)
  · intro h
    refine ⟨h.declares, (body q).mpr h.inBody, ?_, h.latest, ?_⟩
    · exact fun q' hq inside => h.exposed q' hq ((declaration q').mp inside)
    · exact fun q' hq inside => h.innermost q' hq ((body q').mp inside)

/-- Nothing is in force at a declaration: what it could see would reach it through itself. -/
theorem not_inForce_declaration {f : Formula} {p q : List Nat} {i k : Nat} {name other : String}
    (declares : f.Declares p k other) : ¬ f.InForce q i name (p ++ [k]) := by
  intro h
  have inside : f.InDeclaration p (p ++ [k]) :=
    inDeclaration_snoc_iff.mpr (Or.inr ⟨rfl, _, declares⟩)
  obtain ⟨s, d, hs, _, early, _, _⟩ := declares
  rcases (inBody_snoc_iff hs).mp h.inBody with body | ⟨_, _, last⟩
  · exact h.exposed p body inside
  · omega

/-- In the body of a quantifier, its declarations are in force and hide those made outside. -/
theorem inForce_snoc_iff_of_body {f s : Formula} {p : List Nat} (hs : f.sub? p = some s)
    (kind : isQuantifier s.label = true) {q : List Nat} {i k : Nat} (last : k + 1 = s.args.length)
    {name : String} :
    f.InForce q i name (p ++ [k]) ↔
      (q = p ∧ f.Declares p i name ∧ ∀ i', i < i' → ¬ f.Declares p i' name) ∨
        (f.InForce q i name p ∧ ∀ i', ¬ f.Declares p i' name) := by
  have body : f.InBody p (p ++ [k]) := (inBody_snoc_iff hs).mpr (Or.inr ⟨rfl, kind, last⟩)
  have undeclared : ∀ other, ¬ f.Declares p k other := by
    rintro other ⟨t, _, ht, _, early, _⟩
    obtain rfl := Option.some.inj (hs.symm.trans ht)
    omega
  constructor
  · intro h
    rcases (inBody_snoc_iff hs).mp h.inBody with outer | ⟨rfl, _, _⟩
    · refine Or.inr ⟨⟨h.declares, outer, ?_, h.latest, ?_⟩, h.innermost p outer body⟩
      · exact fun q' hq inside => h.exposed q' hq (inDeclaration_snoc_iff.mpr (Or.inl inside))
      · exact fun q' hq inside => h.innermost q' hq ((inBody_snoc_iff hs).mpr (Or.inl inside))
    · exact Or.inl ⟨rfl, h.declares, h.latest⟩
  · rintro (⟨rfl, declares, latest⟩ | ⟨h, none⟩)
    · refine ⟨declares, body, ?_, latest, ?_⟩
      · intro q' hq inside
        rcases inDeclaration_snoc_iff.mp inside with inside | ⟨rfl, _⟩
        · exact absurd (Nat.lt_trans hq.length_lt inside.length_lt) (Nat.lt_irrefl _)
        · exact absurd hq.length_lt (Nat.lt_irrefl _)
      · intro q' hq inside
        rcases (inBody_snoc_iff hs).mp inside with inside | ⟨rfl, _⟩
        · exact absurd (Nat.lt_trans hq.length_lt inside.length_lt) (Nat.lt_irrefl _)
        · exact absurd hq.length_lt (Nat.lt_irrefl _)
    · refine ⟨h.declares, (inBody_snoc_iff hs).mpr (Or.inl h.inBody), ?_, h.latest, ?_⟩
      · intro q' hq inside
        rcases inDeclaration_snoc_iff.mp inside with inside | ⟨rfl, other, declares⟩
        · exact h.exposed q' hq inside
        · exact undeclared other declares
      · intro q' hq inside
        rcases (inBody_snoc_iff hs).mp inside with inside | ⟨rfl, _⟩
        · exact h.innermost q' hq inside
        · exact none

/-! ## The scope of the encoder -/

/-- The declarations that the encoder knows at a position. -/
def scopeAt (f : Formula) (p : List Nat) : Scope := (f.placeAt .root rootId p).scope

theorem scopeAt_nil (f : Formula) : f.scopeAt [] = [] := by
  rw [scopeAt, placeAt]
  rfl

theorem scopeAt_snoc {f s a : Formula} {p : List Nat} {k : Nat} (hs : f.sub? p = some s)
    (ha : s.args[k]? = some a) :
    f.scopeAt (p ++ [k]) = s.argScope (f.index p) (f.scopeAt p) k := by
  rw [scopeAt, placeAt_snoc hs ha, rootId, Nat.zero_add]
  rfl

theorem scopeAt_snoc_of_not_quantifier {f s a : Formula} {p : List Nat} {k : Nat}
    (hs : f.sub? p = some s) (ha : s.args[k]? = some a) (kind : isQuantifier s.label = false) :
    f.scopeAt (p ++ [k]) = f.scopeAt p := by
  have layout : ¬ Layout.ofLabel s.label = .binding := by
    rw [Layout.ofLabel_eq_binding_iff, kind]
    decide
  rw [scopeAt_snoc hs ha, argScope, if_neg (fun h => layout h.1), scopeBefore]
  split
  · contradiction
  · rfl

/-- A declaration sees nothing. -/
theorem scopeAt_snoc_of_declares {f s a : Formula} {p : List Nat} {k : Nat} {name : String}
    (hs : f.sub? p = some s) (ha : s.args[k]? = some a) (declares : f.Declares p k name) :
    f.scopeAt (p ++ [k]) = [] := by
  obtain ⟨t, _, ht, kind, early, _⟩ := declares
  obtain rfl := Option.some.inj (hs.symm.trans ht)
  rw [scopeAt_snoc hs ha, argScope, if_pos ⟨Layout.ofLabel_eq_binding_iff.mpr kind, early⟩]

/-- A body sees the declarations of its quantifier besides what the quantifier sees. -/
theorem scopeAt_snoc_of_body {f s a : Formula} {p : List Nat} {k : Nat}
    (hs : f.sub? p = some s) (ha : s.args[k]? = some a) (kind : isQuantifier s.label = true)
    (last : k + 1 = s.args.length) :
    f.scopeAt (p ++ [k]) = (f.scopeAt p).declareAll (f.index p + 1) (s.args.take k) := by
  have layout : Layout.ofLabel s.label = .binding := Layout.ofLabel_eq_binding_iff.mpr kind
  rw [scopeAt_snoc hs ha, argScope, if_neg (fun h => Nat.ne_of_lt h.2 last), scopeBefore, layout]

theorem distinct_argScope {scope : Scope} (h : scope.Distinct) (s : Formula) (id k : Nat) :
    (s.argScope id scope k).Distinct := by
  unfold Formula.argScope scopeBefore
  split
  · exact List.nodup_nil
  · split
    · exact h.declareAll _ _
    · exact h

theorem distinct_scopeAt {f s : Formula} {p : List Nat} (hs : f.sub? p = some s) :
    (f.scopeAt p).Distinct := by
  induction p using List.reverseRecOn generalizing s with
  | nil => exact List.nodup_nil
  | append_singleton p k ih =>
    obtain ⟨t, ht, ha⟩ := sub?_snoc_eq_some.mp hs
    rw [scopeAt_snoc ht ha]
    exact distinct_argScope (ih ht) t _ k

/-- The declarations of a quantifier are its arguments before the body. -/
theorem declares_iff_of_body {f s : Formula} {p : List Nat} (hs : f.sub? p = some s)
    (kind : isQuantifier s.label = true) {k : Nat} (last : k + 1 = s.args.length) {i : Nat}
    {name : String} :
    f.Declares p i name ↔ ∃ d, (s.args.take k)[i]? = some d ∧ d.label = name := by
  rw [List.getElem?_take]
  constructor
  · rintro ⟨t, d, ht, _, early, hd, label⟩
    obtain rfl := Option.some.inj (hs.symm.trans ht)
    exact ⟨d, by rw [if_pos (by omega), hd], label⟩
  · rintro ⟨d, hd, label⟩
    split at hd
    · exact ⟨s, d, hs, kind, by omega, hd, label⟩
    · cases hd

theorem lastLabelled_iff_of_body {f s : Formula} {p : List Nat} (hs : f.sub? p = some s)
    (kind : isQuantifier s.label = true) {k : Nat} (last : k + 1 = s.args.length) {i : Nat}
    {name : String} :
    Scope.LastLabelled (s.args.take k) i name ↔
      f.Declares p i name ∧ ∀ i', i < i' → ¬ f.Declares p i' name := by
  simp only [Scope.LastLabelled, declares_iff_of_body hs kind last, not_exists, not_and, ne_eq]

theorem forall_label_ne_iff_of_body {f s : Formula} {p : List Nat} (hs : f.sub? p = some s)
    (kind : isQuantifier s.label = true) {k : Nat} (last : k + 1 = s.args.length)
    {name : String} :
    (∀ g ∈ s.args.take k, g.label ≠ name) ↔ ∀ i, ¬ f.Declares p i name := by
  simp only [declares_iff_of_body hs kind last, not_exists, not_and, List.mem_iff_getElem?]
  constructor
  · exact fun h i d hd => h d ⟨i, hd⟩
  · rintro h d ⟨i, hd⟩
    exact h i d hd

/-- The declarations that the encoder makes for a body are numbered as their positions are. -/
theorem index_declaration {f s : Formula} {p : List Nat} (hs : f.sub? p = some s) {i k : Nat}
    {name : String} (last : k + 1 = s.args.length) (declares : f.Declares p i name) :
    f.index p + 1 + sizeAll ((s.args.take k).take i) = f.index (p ++ [i]) := by
  obtain ⟨t, _, ht, _, before, _⟩ := declares
  obtain rfl := Option.some.inj (hs.symm.trans ht)
  rw [List.take_take, Nat.min_eq_left (by omega), index_append hs, index_singleton, Nat.add_assoc]

/-- The scope threaded to a node holds exactly the declarations in force there. -/
theorem mem_scopeAt_iff {f t : Formula} {v : List Nat} (ht : f.sub? v = some t) {name : String}
    {id : Nat} :
    (name, id) ∈ f.scopeAt v ↔ ∃ q i, f.InForce q i name v ∧ id = f.index (q ++ [i]) := by
  induction v using List.reverseRecOn generalizing t id with
  | nil =>
    rw [scopeAt_nil]
    constructor
    · simp
    · rintro ⟨q, i, h, _⟩
      exact absurd h.inBody.length_lt (Nat.not_lt_zero _)
  | append_singleton p k ih =>
    obtain ⟨s, hs, ha⟩ := sub?_snoc_eq_some.mp ht
    have bound := (List.getElem?_eq_some_iff.mp ha).1
    cases kind : isQuantifier s.label with
    | false =>
      simp only [scopeAt_snoc_of_not_quantifier hs ha kind, ih hs,
        inForce_snoc_iff_of_not_quantifier hs kind]
    | true =>
      by_cases early : k + 1 < s.args.length
      · have declares : f.Declares p k t.label := ⟨s, t, hs, kind, early, ha, rfl⟩
        simp only [scopeAt_snoc_of_declares hs ha declares, List.not_mem_nil,
          not_inForce_declaration declares, false_and, exists_false]
      · have last : k + 1 = s.args.length := by omega
        simp only [scopeAt_snoc_of_body hs ha kind last, Scope.mem_declareAll, ih hs,
          lastLabelled_iff_of_body hs kind last, forall_label_ne_iff_of_body hs kind last,
          inForce_snoc_iff_of_body hs kind last]
        constructor
        · rintro (⟨i, ⟨declares, latest⟩, rfl⟩ | ⟨⟨q, i, outer, rfl⟩, none⟩)
          · exact ⟨p, i, Or.inl ⟨rfl, declares, latest⟩, index_declaration hs last declares⟩
          · exact ⟨q, i, Or.inr ⟨outer, none⟩, rfl⟩
        · rintro ⟨q, i, ⟨rfl, declares, latest⟩ | ⟨outer, none⟩, rfl⟩
          · exact Or.inl ⟨i, ⟨declares, latest⟩, (index_declaration hs last declares).symm⟩
          · exact Or.inr ⟨⟨q, i, outer, rfl⟩, none⟩

/-- The nodes that the encoder links to an occurrence are those of its declaration. -/
theorem mem_binders_scopeAt_iff {f s : Formula} {v : List Nat} (hs : f.sub? v = some s)
    {id : Nat} :
    id ∈ (f.scopeAt v).binders s.label ↔ ∃ b, f.Binds b v ∧ id = f.index b := by
  rw [Scope.mem_binders, mem_scopeAt_iff hs]
  constructor
  · rintro ⟨q, i, inForce, rfl⟩
    exact ⟨q ++ [i], ⟨q, i, s, rfl, hs, inForce⟩, rfl⟩
  · rintro ⟨_, ⟨q, i, t, rfl, ht, inForce⟩, rfl⟩
    obtain rfl := Option.some.inj (hs.symm.trans ht)
    exact ⟨q, i, inForce, rfl⟩

end Formula

end FolGraph
