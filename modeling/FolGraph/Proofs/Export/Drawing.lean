import FolGraph.Proofs.Export.NodeKey

/-!
# Drawings of arbitrary labels

Whatever the labels of a graph are, its drawing is cut at line breaks into the lines that were
written, and a line is cut at the quotes that open and close strings (`pieces`) into the texts that
were put between them. The reason is that an escaped text has no line break, and no quote without a
backslash that takes it along.
-/

namespace FolGraph.Export.Dot

/-- Cuts a line at the quotes that open and close strings, from a place outside or inside of one:
what stands outside and what stands inside, in turn. In a string a backslash takes the character
after it along. -/
def pieces : Bool → List Char → List (List Char)
  | _, [] => [[]]
  | inside, '"' :: cs => [] :: pieces (!inside) cs
  | true, '\\' :: c :: cs => (pieces true cs).modifyHead fun piece => '\\' :: c :: piece
  | inside, c :: cs => (pieces inside cs).modifyHead (c :: ·)

/-- The first string that stands after a given text. -/
def stringAfter? (before : List Char) : List (List Char) → Option (List Char)
  | outside :: string :: rest =>
    if before.isSuffixOf outside then some string else stringAfter? before rest
  | _ => none

/-- The value of the label attribute in a line, read from left to right. -/
def label? (line : List Char) : Option (List Char) :=
  (stringAfter? "label=".toList (pieces false line)).map unescape

/-- All occurrences of a character replaced. -/
def substitute (old : Char) (new : List Char) (cs : List Char) : List Char :=
  cs.flatMap fun c => if c = old then new else [c]

/-- Escaping can be done for one character after the other, beginning with the backslash. -/
theorem escape_eq_substitute (cs : List Char) :
    escape cs = substitute '\n' ['\\', 'n']
      (substitute '"' ['\\', '"'] (substitute '\\' ['\\', '\\'] cs)) := by
  simp only [escape, substitute, List.flatMap_assoc]
  congr 1
  funext c
  rw [escapeChar]
  split_ifs <;> simp_all

/-! ## Cutting a line -/

theorem pieces_ne_nil (inside : Bool) (cs : List Char) : pieces inside cs ≠ [] := by
  fun_induction pieces inside cs with
  | case1 => simp
  | case2 => simp
  | case3 c cs ih => simpa using ih
  | case4 inside c cs quote backslash ih => simpa using ih

theorem intercalate_modifyHead {ls : List (List Char)} (some : ls ≠ []) (before sep : List Char) :
    List.intercalate sep (ls.modifyHead (before ++ ·)) = before ++ List.intercalate sep ls := by
  match ls, some with
  | [l], _ => simp
  | l :: m :: ls, _ => simp [List.intercalate_cons_cons]

/-- A line is its pieces with the quotes between them. -/
theorem intercalate_pieces (inside : Bool) (cs : List Char) :
    List.intercalate ['"'] (pieces inside cs) = cs := by
  fun_induction pieces inside cs with
  | case1 => rfl
  | case2 inside cs ih =>
    obtain ⟨l, ls, h⟩ := List.exists_cons_of_ne_nil (pieces_ne_nil (!inside) cs)
    rw [h] at ih ⊢
    rw [List.intercalate_cons_cons, ih]
    rfl
  | case3 c cs ih =>
    have put := intercalate_modifyHead (pieces_ne_nil true cs) ['\\', c] ['"']
    rw [ih] at put
    exact put
  | case4 inside c cs quote backslash ih =>
    have put := intercalate_modifyHead (pieces_ne_nil inside cs) [c] ['"']
    rw [ih] at put
    exact put

theorem pieces_cons {c : Char} (quote : c ≠ '"') (cs : List Char) :
    pieces false (c :: cs) = (pieces false cs).modifyHead (c :: ·) := by
  rw [pieces]
  all_goals simp_all

theorem pieces_inside_cons {c : Char} (quote : c ≠ '"') (backslash : c ≠ '\\') (cs : List Char) :
    pieces true (c :: cs) = (pieces true cs).modifyHead (c :: ·) := by
  rw [pieces]
  all_goals simp_all

theorem pieces_inside_backslash (c : Char) (cs : List Char) :
    pieces true ('\\' :: c :: cs) =
      (pieces true cs).modifyHead fun piece => '\\' :: c :: piece := by
  rw [pieces]

/-! ## Escaped texts -/

/-- A character stands for itself or is taken along by a backslash. -/
theorem escapeChar_cases (c : Char) :
    (∃ d, d ≠ '\n' ∧ escapeChar c = ['\\', d]) ∨
      c ≠ '\n' ∧ c ≠ '"' ∧ c ≠ '\\' ∧ escapeChar c = [c] := by
  rw [escapeChar]
  split_ifs with backslash quote newline
  · exact Or.inl ⟨'\\', by decide, rfl⟩
  · exact Or.inl ⟨'"', by decide, rfl⟩
  · exact Or.inl ⟨'n', by decide, rfl⟩
  · exact Or.inr ⟨newline, quote, backslash, rfl⟩

theorem newline_notMem_escape (cs : List Char) : '\n' ∉ escape cs := by
  rw [escape, List.mem_flatMap]
  rintro ⟨c, -, mem⟩
  rcases escapeChar_cases c with ⟨d, plain, taken⟩ | ⟨plain, -, -, kept⟩
  · rw [taken, List.mem_pair] at mem
    rcases mem with backslash | same
    · exact absurd backslash (by decide)
    · exact plain same.symm
  · rw [kept, List.mem_singleton] at mem
    exact plain mem.symm

/-- An escaped text ends at the quote that is put after it. -/
theorem pieces_escape (cs rest : List Char) :
    pieces true (escape cs ++ '"' :: rest) = escape cs :: pieces false rest := by
  induction cs with
  | nil => rw [escape, List.flatMap_nil, List.nil_append, pieces, Bool.not_true]
  | cons c cs ih =>
    rw [escape, List.flatMap_cons, List.append_assoc]
    unfold escape at ih
    rcases escapeChar_cases c with ⟨d, -, taken⟩ | ⟨-, quote, backslash, kept⟩
    · rw [taken, List.cons_append, List.singleton_append, pieces_inside_backslash, ih]
      rfl
    · rw [kept, List.singleton_append, pieces_inside_cons quote backslash, ih]
      rfl

/-- A text without quotes ends at the quote that is put after it. -/
theorem pieces_append_quote {cs : List Char} (plain : '"' ∉ cs) (rest : List Char) :
    pieces false (cs ++ '"' :: rest) = cs :: pieces true rest := by
  induction cs with
  | nil => rw [List.nil_append, pieces, Bool.not_false]
  | cons c cs ih =>
    rw [List.mem_cons, not_or] at plain
    rw [List.cons_append, pieces_cons (Ne.symm plain.1), ih plain.2]
    rfl

theorem pieces_of_plain {cs : List Char} (plain : '"' ∉ cs) : pieces false cs = [cs] := by
  induction cs with
  | nil => rfl
  | cons c cs ih =>
    rw [List.mem_cons, not_or] at plain
    rw [pieces_cons (Ne.symm plain.1), ih plain.2]
    rfl

/-! ## The lines of nodes and arcs -/

theorem escape_fillColor (k : Kind) : escape (fillColor k).toList = (fillColor k).toList := by
  cases k <;> decide

theorem escape_displayName (r : Role) : escape r.displayName.toList = r.displayName.toList := by
  cases r <;> decide

theorem nodeLine_eq (n : Node) :
    nodeLine n = "    ".toList ++ '"' :: (nodeKey n ++ '"' :: (" [label=".toList ++ '"' ::
      (escape n.label.toList ++ '"' :: (", shape=".toList ++ (shape n.kind).toList ++
        ", style=".toList ++ '"' :: (escape "filled".toList ++ '"' :: (", fillcolor=".toList ++
          '"' :: (escape (fillColor n.kind).toList ++ '"' :: "];".toList))))))) := by
  have opened : "    \"".toList = "    ".toList ++ ['"'] := by decide
  have label : "\" [label=\"".toList = '"' :: (" [label=".toList ++ ['"']) := by decide
  have shape : "\", shape=".toList = '"' :: ", shape=".toList := by decide
  have style : ", style=\"filled\", fillcolor=\"".toList = ", style=".toList ++
      '"' :: (escape "filled".toList ++ '"' :: (", fillcolor=".toList ++ ['"'])) := by decide
  have closed : "\"];".toList = '"' :: "];".toList := by decide
  unfold nodeLine
  rewrite [opened, label, shape, style, closed, escape_fillColor]
  simp only [List.append_assoc, List.cons_append, List.nil_append]

/-- The line of a node is cut into its parts, whatever its label is. -/
theorem pieces_nodeLine (n : Node) :
    pieces false (nodeLine n) =
      ["    ".toList, nodeKey n, " [label=".toList, escape n.label.toList,
        ", shape=".toList ++ (shape n.kind).toList ++ ", style=".toList, "filled".toList,
        ", fillcolor=".toList, (fillColor n.kind).toList, "];".toList] := by
  have plain : '"' ∉ ", shape=".toList ++ (shape n.kind).toList ++ ", style=".toList := by
    cases n.kind <;> decide
  have filled : escape "filled".toList = "filled".toList := by decide
  rw [nodeLine_eq, pieces_append_quote (by decide), nodeKey, pieces_escape,
    pieces_append_quote (by decide), pieces_escape, pieces_append_quote plain, pieces_escape,
    pieces_append_quote (by decide), pieces_escape, pieces_of_plain (by decide), filled,
    escape_fillColor]

theorem edgeLine_eq (source target : Node) (role : Role) :
    edgeLine source target role = "    ".toList ++ '"' :: (nodeKey source ++ '"' ::
      (" -> ".toList ++ '"' :: (nodeKey target ++ '"' :: (" [label=".toList ++ '"' ::
        (escape role.displayName.toList ++ '"' ::
          (", ".toList ++ (edgeStyle role).toList ++ "];".toList)))))) := by
  have opened : "    \"".toList = "    ".toList ++ ['"'] := by decide
  have arrow : "\" -> \"".toList = '"' :: (" -> ".toList ++ ['"']) := by decide
  have label : "\" [label=\"".toList = '"' :: (" [label=".toList ++ ['"']) := by decide
  have style : "\", ".toList = '"' :: ", ".toList := by decide
  unfold edgeLine
  rewrite [opened, arrow, label, style, escape_displayName]
  simp only [List.append_assoc, List.cons_append, List.nil_append]

/-- So is the line of an arc, up to the part that depends on nothing but the role. -/
theorem pieces_edgeLine (source target : Node) (role : Role) :
    pieces false (edgeLine source target role) =
      ["    ".toList, nodeKey source, " -> ".toList, nodeKey target, " [label=".toList,
        role.displayName.toList] ++
        pieces false (", ".toList ++ (edgeStyle role).toList ++ "];".toList) := by
  rw [edgeLine_eq, pieces_append_quote (by decide), nodeKey, pieces_escape,
    pieces_append_quote (by decide), nodeKey, pieces_escape, pieces_append_quote (by decide),
    pieces_escape, escape_displayName]
  rfl

/-- The label of a node can be read off its line. -/
theorem label?_nodeLine (n : Node) : label? (nodeLine n) = some n.label.toList := by
  have other : "label=".toList.isSuffixOf "    ".toList = false := by decide
  have here : "label=".toList.isSuffixOf " [label=".toList = true := by decide
  unfold label?
  simp only [pieces_nodeLine, stringAfter?, other, here, Bool.false_eq_true, if_false, if_true,
    Option.map_some, unescape_escape]

theorem newline_notMem_nodeLine (n : Node) : '\n' ∉ nodeLine n := by
  have key := newline_notMem_escape (n.label.toList ++ Nat.toDigits 10 n.id)
  have label := newline_notMem_escape n.label.toList
  have shape : '\n' ∉ (shape n.kind).toList := by cases n.kind <;> decide
  have color : '\n' ∉ (fillColor n.kind).toList := by cases n.kind <;> decide
  unfold nodeLine nodeKey
  simp only [List.mem_append, not_or]
  refine ⟨⟨⟨⟨⟨⟨⟨⟨?_, key⟩, ?_⟩, label⟩, ?_⟩, shape⟩, ?_⟩, color⟩, ?_⟩ <;> decide

theorem newline_notMem_edgeLine (source target : Node) (role : Role) :
    '\n' ∉ edgeLine source target role := by
  have first := newline_notMem_escape (source.label.toList ++ Nat.toDigits 10 source.id)
  have second := newline_notMem_escape (target.label.toList ++ Nat.toDigits 10 target.id)
  have name : '\n' ∉ role.displayName.toList := by cases role <;> decide
  have style : '\n' ∉ (edgeStyle role).toList := by cases role <;> decide
  unfold edgeLine nodeKey
  simp only [List.mem_append, not_or]
  refine ⟨⟨⟨⟨⟨⟨⟨⟨?_, first⟩, ?_⟩, second⟩, ?_⟩, name⟩, ?_⟩, style⟩, ?_⟩ <;> decide

/-! ## The lines of a drawing -/

theorem newline_notMem_lines {g : Graph} {line : List Char} (mem : line ∈ lines g) :
    '\n' ∉ line := by
  simp only [lines, List.mem_append, List.mem_singleton, List.mem_map, List.mem_filterMap] at mem
  rcases mem with (((top | ⟨n, _, rfl⟩) | rfl) | ⟨e, _, drawn⟩) | rfl
  · have plain : ∀ line ∈ header, '\n' ∉ line := by decide
    exact plain _ top
  · exact newline_notMem_nodeLine n
  · exact List.not_mem_nil
  · simp only [edgeLine?, bind, Option.bind_eq_some_iff] at drawn
    obtain ⟨source, _, target, _, drawn⟩ := drawn
    obtain rfl := Option.some.inj drawn
    exact newline_notMem_edgeLine source target e.role
  · decide

/-- A drawing is cut at line breaks into the lines that it was made of. -/
theorem splitOn_text (g : Graph) : (text g).toList.splitOn '\n' = lines g := by
  rw [text, String.toList_ofList]
  refine List.splitOn_intercalate '\n' (fun line mem => newline_notMem_lines mem) ?_
  simp [lines]

/-- No arc of a graph is left out. -/
theorem edgeLine?_of_ends {g : Graph} {e : Edge} (inside : g.hasEnds e = true) :
    ∃ source target, g.node? e.source = some source ∧ g.node? e.target = some target ∧
      edgeLine? g e = some (edgeLine source target e.role) := by
  obtain ⟨lower, upper⟩ := Graph.hasEnds_iff.mp inside
  have source : g.node? e.source = some g.nodes[e.source] := List.getElem?_eq_getElem lower
  have target : g.node? e.target = some g.nodes[e.target] := List.getElem?_eq_getElem upper
  refine ⟨_, _, source, target, ?_⟩
  rw [edgeLine?, source, target]
  rfl

/-- The lines of the arcs are in step with the arcs. -/
theorem filterMap_edgeLine? {g : Graph} (sound : g.Sound) :
    g.edges.filterMap (edgeLine? g) = g.edges.map fun e => (edgeLine? g e).getD [] := by
  apply List.filterMap_eq_map_iff_forall_eq_some.mpr
  intro e mem
  obtain ⟨source, target, _, _, drawn⟩ := edgeLine?_of_ends (sound.ends e mem)
  rw [drawn, Option.getD_some]

theorem length_lines {g : Graph} (sound : g.Sound) :
    (lines g).length = g.size + g.edgeCount + 7 := by
  have five : header.length = 5 := rfl
  rw [lines, filterMap_edgeLine? sound]
  simp only [List.length_append, List.length_map, List.length_singleton, five, Graph.size,
    Graph.edgeCount]
  omega

theorem getElem?_lines_node {g : Graph} {i : Nat} {n : Node} (found : g.nodes[i]? = some n) :
    (lines g)[5 + i]? = some (nodeLine n) := by
  have five : header.length = 5 := rfl
  have inside : i < (g.nodes.map nodeLine).length := by
    rw [List.length_map]
    exact (List.getElem?_eq_some_iff.mp found).1
  rw [lines, List.append_assoc, List.append_assoc, List.append_assoc,
    List.getElem?_append_right (by omega), five, Nat.add_sub_cancel_left,
    List.getElem?_append_left inside, List.getElem?_map, found, Option.map_some]

theorem getElem?_lines_edge {g : Graph} (sound : g.Sound) {k : Nat} {e : Edge}
    (found : g.edges[k]? = some e) :
    (lines g)[6 + g.size + k]? = some ((edgeLine? g e).getD []) := by
  have before : (header ++ g.nodes.map nodeLine ++ [[]]).length = 6 + g.size := by
    have five : header.length = 5 := rfl
    simp only [List.length_append, List.length_map, List.length_singleton, five, Graph.size]
    omega
  have inside : k < (g.edges.map fun e => (edgeLine? g e).getD []).length := by
    rw [List.length_map]
    exact (List.getElem?_eq_some_iff.mp found).1
  rw [lines, filterMap_edgeLine? sound, List.append_assoc, List.getElem?_append_right (by omega),
    before, Nat.add_sub_cancel_left, List.getElem?_append_left inside, List.getElem?_map, found,
    Option.map_some]

/-- A line that states a node: it is cut into the name and the label of the node and fixed texts,
and both can be read back. -/
structure StatesNode (n : Node) (line : List Char) : Prop where
  written : line = nodeLine n
  pieces : pieces false line =
    ["    ".toList, nodeKey n, " [label=".toList, escape n.label.toList,
      ", shape=".toList ++ (shape n.kind).toList ++ ", style=".toList, "filled".toList,
      ", fillcolor=".toList, (fillColor n.kind).toList, "];".toList]
  name : unescape (nodeKey n) = n.label.toList ++ Nat.toDigits 10 n.id
  label : label? line = some n.label.toList

/-- A line that states an arc: it is cut into the names of its ends and texts that depend on nothing
but the role. -/
structure StatesEdge (source target : Node) (role : Role) (line : List Char) : Prop where
  written : line = edgeLine source target role
  pieces : pieces false line =
    ["    ".toList, nodeKey source, " -> ".toList, nodeKey target, " [label=".toList,
      role.displayName.toList] ++
      Dot.pieces false (", ".toList ++ (edgeStyle role).toList ++ "];".toList)

/-- A drawing has one line for each node and each arc, in order, and seven others, whatever the
labels are. -/
theorem lines_of_text {g : Graph} (built : g.Built) :
    ((text g).toList.splitOn '\n').length = g.size + g.edgeCount + 7 ∧
      (∀ i n, g.nodes[i]? = some n → ∃ line,
        ((text g).toList.splitOn '\n')[5 + i]? = some line ∧ StatesNode n line) ∧
      ∀ k e, g.edges[k]? = some e → ∃ source target line,
        g.node? e.source = some source ∧ g.node? e.target = some target ∧
          ((text g).toList.splitOn '\n')[6 + g.size + k]? = some line ∧
          StatesEdge source target e.role line := by
  rw [splitOn_text]
  refine ⟨length_lines built.sound, ?_, ?_⟩
  · intro i n found
    exact ⟨_, getElem?_lines_node found, rfl, pieces_nodeLine n, unescape_escape _,
      label?_nodeLine n⟩
  · intro k e found
    obtain ⟨source, target, starts, ends, drawn⟩ :=
      edgeLine?_of_ends (built.sound.ends e (List.mem_of_getElem? found))
    have line := getElem?_lines_edge built.sound found
    rw [drawn, Option.getD_some] at line
    exact ⟨source, target, _, starts, ends, line, rfl, pieces_edgeLine source target e.role⟩

/-- Labels of quotes, backslashes and line breaks. -/
def quoting : Formula := .node "say \"\\" [.leaf "\n\"];", .leaf "\\n"]

theorem lines_of_text_quoting :
    quoting.encode.Built ∧ quoting.encode.nodes[1]? = some ⟨1, .application, "\n\"];"⟩ ∧
      ((text quoting.encode).toList.splitOn '\n').length = 3 + 3 + 7 ∧
      ∃ line, ((text quoting.encode).toList.splitOn '\n')[5 + 1]? = some line ∧
        label? line = some "\n\"];".toList := by
  have built := Formula.built_encode quoting
  have found : quoting.encode.nodes[1]? = some ⟨1, .application, "\n\"];"⟩ := by decide
  obtain ⟨count, nodes, -⟩ := lines_of_text built
  obtain ⟨line, there, states⟩ := nodes 1 _ found
  exact ⟨built, found, count, line, there, states.label⟩

end FolGraph.Export.Dot
