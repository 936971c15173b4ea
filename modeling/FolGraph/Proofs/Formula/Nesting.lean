import FolGraph.CommandLine.Run
import FolGraph.Proofs.Encoding.RoundTrip
import FolGraph.Proofs.Files.Paths
import FolGraph.Proofs.Graph.Storage
import Mathlib.Data.List.TakeWhile

/-!
# Written formulas

A formula of height `n` is written with `2 * n` brackets within each other, and a reader opens at
most 127. So a written formula is read back as it was if its height is at most 63, and refused as
malformed if it is greater (`loadFormula_written`). It makes no difference which characters the
labels hold, nor whether the text is compact or indented.
-/

namespace FolGraph

open Json (Draft AllBlank Style)

namespace Formula

/-! ## Drafts -/

/-- The label of a written node is always read; its arguments decide what becomes of the node. -/
theorem ofDraft_node (label : String) (args : List Formula) (depth : Nat) :
    ofDraft (depth + 1) (node label args).toJson.draft =
      (argsOfDraft depth (.array (Json.draftAll (allToJson args)) true)).map (node label) := by
  rw [toJson, Json.draft, ofDraft]
  simp only [Json.draftMembers, Json.draft, ofMembers, Json.keyOf_ofString, Json.text_ofString,
    Json.once, Json.required, Draft.close, bind, Except.bind, ↓reduceIte]
  cases argsOfDraft depth (.array (Json.draftAll (allToJson args)) true) <;> rfl

mutual

/-- A formula is read from its draft unless it has more brackets than may still be opened. -/
theorem ofDraft_draft : (f : Formula) → (depth : Nat) →
    ofDraft depth f.toJson.draft = if 2 * f.height ≤ depth then .ok f else .error .malformed
  | .node label args, 0 => by
    have deeper : ¬ 2 * (node label args).height ≤ 0 := by
      have := height_pos (node label args)
      omega
    rw [if_neg deeper]
    rfl
  | .node label args, 1 => by
    have deeper : ¬ 2 * (node label args).height ≤ 1 := by
      have := height_pos (node label args)
      omega
    rw [if_neg deeper, ofDraft_node]
    rfl
  | .node label args, depth + 2 => by
    have brackets : 2 * (node label args).height ≤ depth + 2 ↔ 2 * heightAll args ≤ depth := by
      rw [height]
      omega
    rw [ofDraft_node, argsOfDraft, listOfDrafts_draftAll args depth]
    by_cases fits : 2 * heightAll args ≤ depth
    · rw [if_pos fits, if_pos (brackets.mpr fits)]
      rfl
    · rw [if_neg fits, if_neg (mt brackets.mp fits)]
      rfl

theorem listOfDrafts_draftAll : (fs : List Formula) → (depth : Nat) →
    listOfDrafts depth true (Json.draftAll (allToJson fs)) =
      if 2 * heightAll fs ≤ depth then .ok fs else .error .malformed
  | [], depth => by
    rw [if_pos (by simp [heightAll])]
    rfl
  | f :: fs, depth => by
    have both : 2 * heightAll (f :: fs) ≤ depth ↔
        2 * f.height ≤ depth ∧ 2 * heightAll fs ≤ depth := by
      rw [heightAll]
      omega
    rw [allToJson, Json.draftAll, listOfDrafts, ofDraft_draft f depth,
      listOfDrafts_draftAll fs depth]
    by_cases first : 2 * f.height ≤ depth
    · by_cases others : 2 * heightAll fs ≤ depth
      · rw [if_pos first, if_pos others, if_pos (both.mpr ⟨first, others⟩)]
        rfl
      · rw [if_pos first, if_neg others, if_neg fun fits => others (both.mp fits).2]
        rfl
    · rw [if_neg first, if_neg fun fits => first (both.mp fits).1]
      rfl

end

/-! ## Texts -/

theorem finish_of_blank {tail : List Char} (blank : AllBlank tail) :
    Json.finish (some tail) = .ok () := by
  have nothing : Draft.skipBlank tail = [] := List.dropWhile_eq_nil_iff.mpr blank
  rw [Json.finish, nothing]
  rfl

/-- A text that holds a written formula, and after it nothing but blank. -/
theorem ofJsonText_render {st : Style} (spacing : st.Spacing) (f : Formula) {text : String}
    {tail : List Char} (blank : AllBlank tail)
    (written : text.toList = f.toJson.render st 0 ++ tail) :
    ofJsonText text = if f.height ≤ 63 then .ok f else .error .malformed := by
  have deepest : 2 * f.height ≤ Json.maxDepth ↔ f.height ≤ 63 := by
    rw [Json.maxDepth]
    omega
  rw [ofJsonText, written, Json.ofText_render_append spacing _ blank]
  simp only [ofDraft_draft, deepest, finish_of_blank blank]
  by_cases fits : f.height ≤ 63
  · rw [if_pos fits]
    rfl
  · rw [if_neg fits]
    rfl

/-- What a file holds that a formula was written to: the compact text, or the indented text, which
the `decode` command ends with a line feed. -/
inductive Written (f : Formula) : ByteArray → Prop
  | compact : Written f f.toJson.compact.toUTF8
  | indented : Written f f.toJson.pretty.toUTF8
  | printed : Written f (f.toJson.pretty ++ "\n").toUTF8

theorem Written.exists_text {f : Formula} {contents : ByteArray} (written : f.Written contents) :
    ∃ text : String, contents = text.toUTF8 ∧
      ofJsonText text = if f.height ≤ 63 then .ok f else .error .malformed := by
  have nothing : AllBlank [] := List.forall_mem_nil _
  have feed : AllBlank ['\n'] := List.forall_mem_singleton.mpr rfl
  cases written with
  | compact =>
    refine ⟨_, rfl, ofJsonText_render Style.spacing_compact f nothing ?_⟩
    rw [Json.compact, String.toList_ofList, List.append_nil]
  | indented =>
    refine ⟨_, rfl, ofJsonText_render Style.spacing_indented f nothing ?_⟩
    rw [Json.pretty, String.toList_ofList, List.append_nil]
  | printed =>
    refine ⟨_, rfl, ofJsonText_render Style.spacing_indented f feed ?_⟩
    rw [Json.pretty, String.toList_append, String.toList_ofList]
    rfl

/-! ## Files -/

theorem loadGraph_compact {g : Graph} (sound : g.Sound) (few : g.size ≤ 2 ^ 32) {fs : Files}
    {path : String} (stored : fs.read path = .ok g.toJson.compact.toUTF8) :
    fs.loadGraph path = .ok g := by
  rw [Files.loadGraph, Files.readText_of_read stored]
  simp only [sound.ofJsonText_compact few]

/-- What a formula is written as, and also what the `decode` command prints, is loaded as the same
formula if it is at most 63 nodes high, and refused as malformed if it is higher. -/
theorem loadFormula_written (f : Formula) :
    (∀ (fs : Files) (path : String) (strict : Bool) (g : Graph), fs.loadGraph path = .ok g →
      g.decode strict = .ok f → f.Written (CommandLine.runDecode fs path strict).output) ∧
    ∀ contents, f.Written contents → ∀ (fs : Files) (path : String),
      fs.read path = .ok contents →
        (f.height ≤ 63 → fs.loadFormula path = .ok f) ∧
        (63 < f.height → fs.loadFormula path = .error (.invalidFormula path .malformed)) := by
  constructor
  · intro fs path strict g loaded decoded
    rw [CommandLine.runDecode, loaded]
    dsimp only
    rw [decoded]
    exact .printed
  · intro contents written fs path stored
    obtain ⟨text, rfl, read⟩ := written.exists_text
    rw [Files.loadFormula, Files.readText_of_read stored]
    constructor
    · intro fits
      rw [if_pos fits] at read
      simp only [read]
    · intro high
      rw [if_neg (Nat.not_le.mpr high)] at read
      simp only [read]

/-- A formula of so many nodes on top of a leaf; hardly a character of its labels is written as it
is. -/
def tower : Nat → Formula
  | 0 => leaf "\"\\\u0001"
  | n + 1 => .node "é\n𝄞" [tower n]

theorem height_tower (n : Nat) : (tower n).height = n + 1 := by
  induction n with
  | zero => rfl
  | succ n ih =>
    rw [tower, height, heightAll, heightAll, ih]
    omega

def inOneFile (contents : ByteArray) : Files := (Files.empty []).putFile ["f.json"] contents

theorem loadFormula_written_tower :
    (tower 1).Written (CommandLine.runDecode
        (inOneFile (tower 1).encode.toJson.compact.toUTF8) "f.json" false).output ∧
      (inOneFile (tower 62).toJson.compact.toUTF8).loadFormula "f.json" = .ok (tower 62) ∧
      (inOneFile ((tower 63).toJson.pretty ++ "\n").toUTF8).loadFormula "f.json" =
        .error (.invalidFormula "f.json" .malformed) := by
  have read (contents : ByteArray) : (inOneFile contents).read "f.json" = .ok contents := rfl
  have few : (tower 1).encode.size ≤ 2 ^ 32 := by
    rw [size_encode]
    decide
  have graph := loadGraph_compact (sound_encode (tower 1)) few (read _)
  have decoded : (tower 1).encode.decode false = .ok (tower 1) :=
    (Graph.decode_eq_ok_iff (sound_encode _)).mpr (exists_spells_encode _)
  refine ⟨(loadFormula_written (tower 1)).1 _ _ _ _ graph decoded, ?_, ?_⟩
  · have least : (tower 62).height ≤ 63 := by rw [height_tower]
    exact ((loadFormula_written (tower 62)).2 _ .compact _ _ (read _)).1 least
  · have greater : 63 < (tower 63).height := by
      rw [height_tower]
      decide
    exact ((loadFormula_written (tower 63)).2 _ .printed _ _ (read _)).2 greater

end Formula

end FolGraph
