import FolGraph.Graph.Json
import FolGraph.Proofs.Graph.Consistency
import FolGraph.Proofs.Json.Written

/-!
# Stored graphs

A graph is stored as the text of its nodes and arcs, and loading the text rebuilds what was
recorded beside them. `stored_or_refused` says that every graph comes back from its text, whatever
its labels and kinds, and which lists are loaded: those that number their nodes in order and whose
arcs run between them. Any other lists are refused for the first node at fault, and if there is
none, for the first arc.
-/

namespace FolGraph

open Json (Draft Read)

/-! ## Reading what was written -/

namespace Json

theorem draftAll_eq_map (vs : List Json) : draftAll vs = vs.map draft := by
  induction vs with
  | nil => rfl
  | cons v vs ih => rw [draftAll, ih, List.map_cons]

theorem list_map_eq_ok {α : Type} {item : Draft → Read α} {write : α → Draft} {as : List α}
    (reads : ∀ a ∈ as, item (write a) = .ok a) :
    Draft.list item true (as.map write) = .ok as := by
  induction as with
  | nil => rfl
  | cons a as ih =>
    obtain ⟨first, others⟩ := List.forall_mem_cons.mp reads
    rw [List.map_cons, Draft.list, first, ih others]
    rfl

end Json

open Json

theorem Node.ofDraft_draft {n : Node} (fits : n.id < 2 ^ 32) (depth : Nat) :
    Node.ofDraft (depth + 1) n.toJson.draft = .ok n := by
  have kind : kindOfDraft depth (.ofString n.kind.storedName) = .ok n.kind :=
    constant_ofString (Kind.ofStoredName?_storedName n.kind)
  simp [Node.ofDraft, Node.toJson, draft, draftMembers, Node.ofMembers, keyOf_ofString,
    word32_ofNat fits, kind, text_ofString, once, required, Draft.close, bind, Except.bind]

theorem Edge.ofDraft_draft {e : Edge} (source : e.source < 2 ^ 32) (target : e.target < 2 ^ 32)
    (depth : Nat) : Edge.ofDraft (depth + 1) e.toJson.draft = .ok e := by
  have role : roleOfDraft depth (.ofString e.role.storedName) = .ok e.role :=
    constant_ofString (Role.ofStoredName?_storedName e.role)
  simp [Edge.ofDraft, Edge.toJson, draft, draftMembers, Edge.ofMembers, keyOf_ofString,
    word32_ofNat source, word32_ofNat target, role, once, required, Draft.close, bind, Except.bind]

namespace Graph

theorem partsOfDraft_map {α : Type} {part : Nat → Draft → Read α} {write : α → Json} {as : List α}
    {depth : Nat} (reads : ∀ a ∈ as, part depth (write a).draft = .ok a) :
    partsOfDraft part (depth + 1) (Json.array (as.map write)).draft = .ok as := by
  rw [draft, draftAll_eq_map, List.map_map]
  exact list_map_eq_ok reads

theorem partsOfDrafts_draft {g : Graph} {depth : Nat}
    (nodes : ∀ n ∈ g.nodes, Node.ofDraft depth n.toJson.draft = .ok n)
    (edges : ∀ e ∈ g.edges, Edge.ofDraft depth e.toJson.draft = .ok e) :
    partsOfDrafts (depth + 2) g.toJson.draft = .ok ⟨g.nodes, g.edges⟩ := by
  have members : g.toJson.draft =
      .object [(.ofString "nodes", (Json.array (g.nodes.map Node.toJson)).draft),
        (.ofString "edges", (Json.array (g.edges.map Edge.toJson)).draft)] true := rfl
  simp [members, partsOfDrafts, partsOfMembers, keyOf_ofString, partsOfDraft_map nodes,
    partsOfDraft_map edges, once, required, Draft.close, bind, Except.bind]

/-! ## Which lists are loaded -/

/-- Every node carries its position as its id. -/
def Numbered (nodes : List Node) : Prop :=
  ∀ (i : Nat) (n : Node), nodes[i]? = some n → n.id = i

/-- Every arc runs between two of the first so many nodes. -/
def Inside (count : Nat) (edges : List Edge) : Prop :=
  ∀ e ∈ edges, e.source < count ∧ e.target < count

/-- The first fault of lists that make no graph; arcs are at fault only if no node is. -/
inductive FirstFault (nodes : List Node) (edges : List Edge) : StoredError → Prop where
  | misnumbered {before after : List Node} {n : Node} :
    nodes = before ++ n :: after → Numbered before → n.id ≠ before.length →
      FirstFault nodes edges (.misnumberedNode before.length n.id)
  | dangling {before after : List Edge} {e : Edge} :
    Numbered nodes → edges = before ++ e :: after → Inside nodes.length before →
      nodes.length ≤ e.source ∨ nodes.length ≤ e.target →
      FirstFault nodes edges (.danglingEdge e.source e.target nodes.length)

theorem numbered_concat {nodes : List Node} {n : Node} :
    Numbered (nodes ++ [n]) ↔ Numbered nodes ∧ n.id = nodes.length := by
  constructor
  · intro numbered
    refine ⟨fun i m found => ?_, numbered nodes.length n (by simp)⟩
    have inside := (List.getElem?_eq_some_iff.mp found).1
    exact numbered i m (by rwa [List.getElem?_append_left inside])
  · rintro ⟨numbered, last⟩ i m found
    by_cases inside : i < nodes.length
    · rw [List.getElem?_append_left inside] at found
      exact numbered i m found
    · have bound := (List.getElem?_eq_some_iff.mp found).1
      rw [List.length_append, List.length_singleton] at bound
      obtain rfl : i = nodes.length := by omega
      obtain rfl : n = m := by simpa using found
      exact last

/-- Nodes are numbered up to the first that is not. -/
theorem numbered_or_exists_first (nodes : List Node) :
    Numbered nodes ∨ ∃ before n after,
      nodes = before ++ n :: after ∧ Numbered before ∧ n.id ≠ before.length := by
  induction nodes using List.reverseRecOn with
  | nil => exact .inl fun i n found => by simp at found
  | append_singleton nodes n ih =>
    rcases ih with numbered | ⟨before, m, after, rfl, numbered, wrong⟩
    · by_cases last : n.id = nodes.length
      · exact .inl (numbered_concat.mpr ⟨numbered, last⟩)
      · exact .inr ⟨nodes, n, [], rfl, numbered, last⟩
    · exact .inr ⟨before, m, after ++ [n], by simp, numbered, wrong⟩

theorem inside_or_exists_first (count : Nat) (edges : List Edge) :
    Inside count edges ∨ ∃ before e after,
      edges = before ++ e :: after ∧ Inside count before ∧
        (count ≤ e.source ∨ count ≤ e.target) := by
  induction edges with
  | nil => exact .inl (List.forall_mem_nil _)
  | cons e es ih =>
    by_cases here : e.source < count ∧ e.target < count
    · rcases ih with inside | ⟨before, f, after, rfl, inside, outside⟩
      · exact .inl (List.forall_mem_cons.mpr ⟨here, inside⟩)
      · exact .inr ⟨e :: before, f, after, rfl, List.forall_mem_cons.mpr ⟨here, inside⟩, outside⟩
    · exact .inr ⟨[], e, es, rfl, List.forall_mem_nil _, by omega⟩

theorem insertStored_append (g : Graph) (before after : List Node) :
    g.insertStored (before ++ after) =
      (g.insertStored before).bind fun g' => g'.insertStored after := by
  induction before generalizing g with
  | nil => rfl
  | cons n before ih =>
    rw [List.cons_append, insertStored, insertStored]
    split
    · exact ih _
    · rfl

theorem linkStored_append (g : Graph) (before after : List Edge) :
    g.linkStored (before ++ after) =
      (g.linkStored before).bind fun g' => g'.linkStored after := by
  induction before generalizing g with
  | nil => rfl
  | cons e before ih =>
    rw [List.cons_append, linkStored, linkStored]
    split
    · exact ih _
    · rfl

/-- Numbered nodes are all appended as they are. -/
theorem Numbered.exists_insertStored {nodes : List Node} (numbered : Numbered nodes) :
    ∃ g, empty.insertStored nodes = .ok g ∧ g.nodes = nodes ∧ g.edges = [] := by
  induction nodes using List.reverseRecOn with
  | nil => exact ⟨empty, rfl, rfl, rfl⟩
  | append_singleton nodes n ih =>
    obtain ⟨numbered, last⟩ := numbered_concat.mp numbered
    obtain ⟨g, inserted, same, unlinked⟩ := ih numbered
    have next : n.id = g.size := by rw [size, same, last]
    refine ⟨g.insertNode n.kind n.label, ?_, ?_, unlinked⟩
    · rw [insertStored_append, inserted, Except.bind, insertStored, if_pos next, insertStored]
    · rw [nodes_insertNode, same, ← next]

/-- Arcs between nodes of a graph are all appended. -/
theorem Inside.exists_linkStored {g : Graph} {edges : List Edge} (inside : Inside g.size edges) :
    ∃ g', g.linkStored edges = .ok g' ∧ g'.nodes = g.nodes ∧ g'.edges = g.edges ++ edges := by
  induction edges generalizing g with
  | nil => exact ⟨g, rfl, rfl, by simp⟩
  | cons e es ih =>
    obtain ⟨here, others⟩ := List.forall_mem_cons.mp inside
    have added : g.addEdge e = .ok (g.link e) := addEdge_eq_ok_iff.mpr ⟨hasEnds_iff.mpr here, rfl⟩
    obtain ⟨g', linked, nodes, edges⟩ := ih (g := g.link e) others
    refine ⟨g', ?_, nodes, ?_⟩
    · rw [linkStored, added]
      exact linked
    · rw [edges, edges_link, List.append_assoc, List.singleton_append]

theorem exists_ofStored {nodes : List Node} {edges : List Edge} (numbered : Numbered nodes)
    (inside : Inside nodes.length edges) :
    ∃ g, ofStored nodes edges = .ok g ∧ g.nodes = nodes ∧ g.edges = edges := by
  obtain ⟨g, inserted, rfl, unlinked⟩ := numbered.exists_insertStored
  obtain ⟨g', linked, nodes, arcs⟩ := Inside.exists_linkStored (g := g) inside
  refine ⟨g', ?_, nodes, ?_⟩
  · rw [ofStored, inserted]
    exact linked
  · rw [arcs, unlinked, List.nil_append]

theorem FirstFault.ofStored_eq_error {nodes : List Node} {edges : List Edge} {fault : StoredError}
    (first : FirstFault nodes edges fault) : ofStored nodes edges = .error fault := by
  cases first with
  | @misnumbered before after n split numbered wrong =>
    obtain ⟨g, inserted, same, -⟩ := numbered.exists_insertStored
    have size : g.size = before.length := congrArg List.length same
    have refused : empty.insertStored nodes = .error (.misnumberedNode before.length n.id) := by
      rw [split, insertStored_append, inserted, Except.bind, insertStored, size, if_neg wrong]
    rw [ofStored, refused]
    rfl
  | @dangling before after e numbered split inside outside =>
    obtain ⟨g, inserted, rfl, -⟩ := numbered.exists_insertStored
    obtain ⟨g', linked, same, -⟩ := Inside.exists_linkStored (g := g) inside
    have size : g'.size = g.size := congrArg List.length same
    have refused : g'.addEdge e = .error ⟨e.source, e.target⟩ :=
      addEdge_of_unknown_end (by rw [size]; exact outside)
    rw [ofStored, inserted]
    change g.linkStored edges = _
    rw [split, linkStored_append, linked, Except.bind, linkStored, refused, size]
    rfl

/-- Lists are loaded as they are, or they have a fault. -/
theorem exists_ofStored_or_firstFault (nodes : List Node) (edges : List Edge) :
    (Numbered nodes ∧ Inside nodes.length edges ∧
      ∃ g, ofStored nodes edges = .ok g ∧ g.nodes = nodes ∧ g.edges = edges) ∨
      ∃ fault, FirstFault nodes edges fault := by
  rcases numbered_or_exists_first nodes with numbered | ⟨before, n, after, split, numbered, wrong⟩
  · rcases inside_or_exists_first nodes.length edges with
      inside | ⟨before, e, after, split, inside, outside⟩
    · exact .inl ⟨numbered, inside, exists_ofStored numbered inside⟩
    · exact .inr ⟨_, .dangling numbered split inside outside⟩
  · exact .inr ⟨_, .misnumbered split numbered wrong⟩

/-- The graph that is loaded has the nodes and arcs of the lists. -/
theorem ofStored_eq_ok {nodes : List Node} {edges : List Edge} {g : Graph}
    (loaded : ofStored nodes edges = .ok g) :
    Numbered nodes ∧ Inside nodes.length edges ∧ g.nodes = nodes ∧ g.edges = edges := by
  rcases exists_ofStored_or_firstFault nodes edges with
    ⟨numbered, inside, g', loaded', same⟩ | ⟨fault, first⟩
  · obtain rfl : g' = g := Except.ok.inj (loaded'.symm.trans loaded)
    exact ⟨numbered, inside, same⟩
  · cases first.ofStored_eq_error.symm.trans loaded

theorem ofStored_eq_error_iff {nodes : List Node} {edges : List Edge} {fault : StoredError} :
    ofStored nodes edges = .error fault ↔ FirstFault nodes edges fault := by
  refine ⟨fun refused => ?_, FirstFault.ofStored_eq_error⟩
  rcases exists_ofStored_or_firstFault nodes edges with
    ⟨_, _, g, loaded, _⟩ | ⟨fault', first⟩
  · cases loaded.symm.trans refused
  · obtain rfl : fault' = fault := Except.error.inj (first.ofStored_eq_error.symm.trans refused)
    exact first

/-- A graph is loaded from its own nodes and arcs, with all that is recorded beside them. -/
theorem Sound.ofStored_eq_ok {g : Graph} (sound : g.Sound) : ofStored g.nodes g.edges = .ok g := by
  have inside : Inside g.nodes.length g.edges := fun e he => hasEnds_iff.mp (sound.ends e he)
  obtain ⟨g', loaded, nodes, edges⟩ := exists_ofStored sound.ids inside
  obtain rfl : g' = g := sound.eq_of_nodes_of_edges (Built.stored loaded).sound nodes edges
  exact loaded

/-! ## Texts of graphs -/

theorem Sound.ofJsonText_compact {g : Graph} (sound : g.Sound) (fits : g.size ≤ 2 ^ 32) :
    ofJsonText g.toJson.compact = .ok g := by
  have nodes : ∀ n ∈ g.nodes, Node.ofDraft 125 n.toJson.draft = .ok n := by
    intro n hn
    obtain ⟨i, hi, found⟩ := List.mem_iff_getElem.mp hn
    have id : n.id = i := sound.ids i n (List.getElem?_eq_some_iff.mpr ⟨hi, found⟩)
    exact Node.ofDraft_draft (by rw [id]; exact Nat.lt_of_lt_of_le hi fits) 124
  have edges : ∀ e ∈ g.edges, Edge.ofDraft 125 e.toJson.draft = .ok e := by
    intro e he
    obtain ⟨source, target⟩ := hasEnds_iff.mp (sound.ends e he)
    exact Edge.ofDraft_draft (by omega) (by omega) 124
  have parts : partsOfDrafts Json.maxDepth g.toJson.draft = .ok ⟨g.nodes, g.edges⟩ :=
    partsOfDrafts_draft nodes edges
  simp only [ofJsonText, ofText_compact, parts, sound.ofStored_eq_ok]
  rfl

/-- Stored graphs come back as they were, and lists are loaded, as they are, exactly if they make
a graph; otherwise their first fault is reported. -/
theorem stored_or_refused :
    (∀ g : Graph, g.Built → g.size ≤ 2 ^ 32 → ofJsonText g.toJson.compact = .ok g) ∧
      ∀ (nodes : List Node) (edges : List Edge),
        ((∃ g, ofStored nodes edges = .ok g) ↔ Numbered nodes ∧ Inside nodes.length edges) ∧
        (∀ g, ofStored nodes edges = .ok g → g.nodes = nodes ∧ g.edges = edges) ∧
        ∀ fault, ofStored nodes edges = .error fault ↔ FirstFault nodes edges fault := by
  refine ⟨fun g built fits => built.sound.ofJsonText_compact fits, fun nodes edges => ?_⟩
  refine ⟨⟨?_, ?_⟩, ?_, fun fault => ofStored_eq_error_iff⟩
  · rintro ⟨g, loaded⟩
    obtain ⟨numbered, inside, _⟩ := ofStored_eq_ok loaded
    exact ⟨numbered, inside⟩
  · rintro ⟨numbered, inside⟩
    obtain ⟨g, loaded, _⟩ := exists_ofStored numbered inside
    exact ⟨g, loaded⟩
  · intro g loaded
    obtain ⟨_, _, same⟩ := ofStored_eq_ok loaded
    exact same

/-- A graph with kinds that are not those of the labels, with a loop and two equal arcs, and with
labels of which hardly a character is written as it is. -/
def unusual : Graph :=
  ⟨[⟨0, .var, "\"\\\n\u0001"⟩, ⟨1, .negation, "é\t𝄞"⟩],
    [⟨0, 0, .ddg⟩, ⟨0, 1, .ast⟩, ⟨0, 1, .ast⟩], [[0, 1, 2], []], [[0], [1, 2]]⟩

theorem stored_unusual :
    unusual.Built ∧ unusual.size ≤ 2 ^ 32 ∧ ofJsonText unusual.toJson.compact = .ok unusual ∧
      ofStored (unusual.nodes ++ [⟨3, .var, "X"⟩]) [⟨0, 2, .ast⟩] =
        .error (.misnumberedNode 2 3) := by
  have loaded : ofStored unusual.nodes unusual.edges = .ok unusual := rfl
  have built : unusual.Built := .stored loaded
  have fits : unusual.size ≤ 2 ^ 32 := by decide
  have fault : FirstFault (unusual.nodes ++ [⟨3, .var, "X"⟩]) [⟨0, 2, .ast⟩]
      (.misnumberedNode 2 3) :=
    .misnumbered rfl built.sound.ids (by decide)
  obtain ⟨stored, refused⟩ := stored_or_refused
  obtain ⟨_, _, faults⟩ := refused (unusual.nodes ++ [⟨3, .var, "X"⟩]) [⟨0, 2, .ast⟩]
  exact ⟨built, fits, stored unusual built fits, (faults _).mpr fault⟩

end Graph

end FolGraph
