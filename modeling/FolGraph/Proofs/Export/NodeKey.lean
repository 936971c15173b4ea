import FolGraph.Export.Dot
import FolGraph.Proofs.Encoding.Encoded
import FolGraph.Proofs.Graph.Spelling
import FolGraph.Proofs.Json.Scalar
import Mathlib.Algebra.Group.Nat.Defs

/-!
# Names of nodes in drawings

A drawing names a node by its label, followed by its id without anything between them. Escaping
loses nothing (`unescape_escape`), so two nodes share a name exactly if label and id together read
the same, which takes a label that ends in digits (`Collide`). `nodeKeys_distinct_iff` says that
this is the only way in which the names of a graph fail to be distinct.
-/

namespace FolGraph.Export.Dot

/-- Reads escaped characters back, from left to right. -/
def unescape : List Char → List Char
  | '\\' :: '\\' :: cs => '\\' :: unescape cs
  | '\\' :: '"' :: cs => '"' :: unescape cs
  | '\\' :: 'n' :: cs => '\n' :: unescape cs
  | c :: cs => c :: unescape cs
  | [] => []

theorem unescape_cons {c : Char} (plain : c ≠ '\\') (cs : List Char) :
    unescape (c :: cs) = c :: unescape cs := by
  rw [unescape]
  all_goals
    intros
    simp_all

theorem unescape_escape (cs : List Char) : unescape (escape cs) = cs := by
  induction cs with
  | nil => rfl
  | cons c cs ih =>
    rw [escape, List.flatMap_cons]
    unfold escape at ih
    by_cases backslash : c = '\\'
    · subst backslash
      simp [escapeChar, unescape, ih]
    by_cases quote : c = '"'
    · subst quote
      simp [escapeChar, unescape, ih]
    by_cases newline : c = '\n'
    · subst newline
      simp [escapeChar, unescape, ih]
    have kept : escapeChar c = [c] := by simp [escapeChar, backslash, quote, newline]
    rw [kept, List.singleton_append, unescape_cons backslash, ih]

theorem escape_injective {cs ds : List Char} (h : escape cs = escape ds) : cs = ds := by
  rw [← unescape_escape cs, h, unescape_escape]

theorem nodeKey_eq_iff {m n : Node} :
    nodeKey m = nodeKey n ↔
      m.label.toList ++ Nat.toDigits 10 m.id = n.label.toList ++ Nat.toDigits 10 n.id := by
  constructor
  · exact escape_injective
  · exact congrArg escape

/-! ## Nodes that share a name -/

/-- Two nodes of which one has the label of the other with some digits added, namely those that the
id of the other has in front of its own. -/
structure Collide (m n : Node) (extra : List Char) : Prop where
  some : extra ≠ []
  id : Nat.toDigits 10 n.id = extra ++ Nat.toDigits 10 m.id
  label : m.label.toList = n.label.toList ++ extra

theorem Collide.nodeKey_eq {m n : Node} {extra : List Char} (h : Collide m n extra) :
    nodeKey m = nodeKey n := by
  rw [nodeKey_eq_iff, h.label, h.id, List.append_assoc]

theorem Collide.ne {m n : Node} {extra : List Char} (h : Collide m n extra) : m ≠ n := by
  rintro rfl
  exact h.some (List.self_eq_append_left.mp h.id)

theorem Collide.label_ne {m n : Node} {extra : List Char} (h : Collide m n extra) :
    m.label ≠ n.label := by
  intro same
  have label := h.label
  rw [same] at label
  exact h.some (List.self_eq_append_right.mp label)

theorem exists_collide_of_id_lt {m n : Node} (lt : m.id < n.id) (h : nodeKey m = nodeKey n) :
    ∃ extra, Collide m n extra := by
  rw [nodeKey_eq_iff, List.append_eq_append_iff] at h
  have shorter := Json.length_toDigits_mono (Nat.le_of_lt lt)
  -- the later id is at least as long, so it is its digits that reach into the other label
  obtain ⟨front, label, id⟩ | ⟨extra, label, id⟩ := h
  · have length := congrArg List.length id
    rw [List.length_append] at length
    obtain rfl : front = [] := List.length_eq_zero_iff.mp (by omega)
    exact absurd (Json.toDigits_injective (by simpa using id)) (Nat.ne_of_lt lt)
  · refine ⟨extra, ?_, id, label⟩
    rintro rfl
    exact absurd (Json.toDigits_injective (by simpa using id)).symm (Nat.ne_of_lt lt)

/-- Nodes with the same label have different names, and the names of all nodes of a graph are
different unless two of its nodes collide. -/
theorem nodeKeys_distinct_iff {g : Graph} (built : g.Built) :
    (∀ m ∈ g.nodes, ∀ n ∈ g.nodes, m ≠ n → m.label = n.label → nodeKey m ≠ nodeKey n) ∧
      ((∀ m ∈ g.nodes, ∀ n ∈ g.nodes, m ≠ n → nodeKey m ≠ nodeKey n) ↔
        ∀ m ∈ g.nodes, ∀ n ∈ g.nodes, ∀ extra, ¬Collide m n extra) := by
  have colliding : ∀ m ∈ g.nodes, ∀ n ∈ g.nodes, m ≠ n → nodeKey m = nodeKey n →
      ∃ extra, Collide m n extra ∨ Collide n m extra := by
    intro m hm n hn ne same
    rcases Nat.lt_trichotomy m.id n.id with lt | id | lt
    · obtain ⟨extra, h⟩ := exists_collide_of_id_lt lt same
      exact ⟨extra, Or.inl h⟩
    · have found := built.sound.node?_of_mem hm
      rw [id, built.sound.node?_of_mem hn] at found
      exact absurd (Option.some.inj found).symm ne
    · obtain ⟨extra, h⟩ := exists_collide_of_id_lt lt same.symm
      exact ⟨extra, Or.inr h⟩
  refine ⟨?_, ?_, ?_⟩
  · intro m hm n hn ne label same
    obtain ⟨extra, h | h⟩ := colliding m hm n hn ne same
    · exact h.label_ne label
    · exact h.label_ne label.symm
  · intro distinct m hm n hn extra h
    exact distinct m hm n hn h.ne h.nodeKey_eq
  · intro apart m hm n hn ne same
    obtain ⟨extra, h | h⟩ := colliding m hm n hn ne same
    · exact apart m hm n hn extra h
    · exact apart n hn m hm extra h

/-- A function symbol that ends in a digit, and what it would be without the digit as its tenth
argument. -/
def numbered : Formula := .node "p1" (List.replicate 9 (.leaf "c") ++ [.leaf "p"])

/-- The first and the last node of a formula can have the same name. -/
theorem nodeKeys_not_distinct :
    ¬∀ g : Graph, g.Built → ∀ m ∈ g.nodes, ∀ n ∈ g.nodes, m ≠ n → nodeKey m ≠ nodeKey n := by
  intro distinct
  have first : (⟨0, .application, "p1"⟩ : Node) ∈ numbered.encode.nodes := by decide
  have last : (⟨10, .application, "p"⟩ : Node) ∈ numbered.encode.nodes := by decide
  exact distinct numbered.encode (Formula.built_encode numbered) _ first _ last (by decide) rfl

theorem nodeKeys_distinct_numbered :
    numbered.encode.Built ∧
      ((∀ m ∈ numbered.encode.nodes, ∀ n ∈ numbered.encode.nodes, m ≠ n →
          nodeKey m ≠ nodeKey n) ↔
        ∀ m ∈ numbered.encode.nodes, ∀ n ∈ numbered.encode.nodes, ∀ extra, ¬Collide m n extra) :=
  ⟨Formula.built_encode numbered, (nodeKeys_distinct_iff (Formula.built_encode numbered)).2⟩

end FolGraph.Export.Dot
