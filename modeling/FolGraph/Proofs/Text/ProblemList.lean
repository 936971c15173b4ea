import FolGraph.Proofs.Batch.Interleaving
import Mathlib.Data.List.TakeWhile

/-!
# Problem lists

A problem list names one path on each line that is not blank (`Lists`). Reading a text gives the
paths that it lists, and every text lists the paths that are read from it, so the two determine each
other (`trimmedLines_eq_iff`). A run gives each path its position in the list as the number of its
output, however many blank lines there are (`loadList_lists`).
-/

namespace FolGraph

namespace Text

/-- What may stand around the path on a line. -/
structure Padding (cs : List Char) : Prop where
  blank : ∀ c ∈ cs, isBlank c = true
  oneLine : '\n' ∉ cs

/-- What may stand on a line as a path. -/
structure Entry (p : List Char) : Prop where
  nonempty : p ≠ []
  oneLine : '\n' ∉ p
  first : ∀ c ∈ p.head?, isBlank c = false
  last : ∀ c ∈ p.getLast?, isBlank c = false

/-- A line that is blank or names a path. -/
inductive Line : Option (List Char) → List Char → Prop
  | blank {pad : List Char} (padding : Padding pad) : Line none pad
  | entry {before p after : List Char} (left : Padding before) (entry : Entry p)
      (right : Padding after) : Line (some p) (before ++ p ++ after)

inductive LineEnd : List Char → Prop
  | feed : LineEnd ['\n']
  | returnFeed : LineEnd ['\r', '\n']

/-- A text lists paths: each line is blank or names the next path. The last line, which may be
empty, has no end. -/
inductive Lists : List (List Char) → List Char → Prop
  | last {named : Option (List Char)} {line : List Char} (here : Line named line) :
      Lists named.toList line
  | cons {named : Option (List Char)} {line ending text : List Char} {ps : List (List Char)}
      (here : Line named line) (ends : LineEnd ending) (rest : Lists ps text) :
      Lists (named.toList ++ ps) (line ++ ending ++ text)

/-! ## Trimming -/

theorem trim_of_blank {pad : List Char} (blank : ∀ c ∈ pad, isBlank c = true) : trim pad = [] := by
  rw [trim, List.dropWhile_eq_nil_iff.mpr blank]
  rfl

theorem dropWhile_isBlank_append {before cs : List Char} (blank : ∀ c ∈ before, isBlank c = true)
    (first : ∀ c ∈ cs.head?, isBlank c = false) : (before ++ cs).dropWhile isBlank = cs := by
  rw [List.dropWhile_append_of_pos blank]
  cases cs with
  | nil => rfl
  | cons c cs => exact List.dropWhile_cons_of_neg (by simp [first c rfl])

/-- Trimming removes all padding, and nothing of the path. -/
theorem trim_padded {before p after : List Char} (left : ∀ c ∈ before, isBlank c = true)
    (entry : Entry p) (right : ∀ c ∈ after, isBlank c = true) :
    trim (before ++ p ++ after) = p := by
  have first : ∀ c ∈ (p ++ after).head?, isBlank c = false := by
    intro c front
    obtain ⟨d, cs, rfl⟩ := List.exists_cons_of_ne_nil entry.nonempty
    exact entry.first c front
  have last : ∀ c ∈ p.reverse.head?, isBlank c = false := by
    rw [List.head?_reverse]
    exact entry.last
  have reversed : ∀ c ∈ after.reverse, isBlank c = true :=
    fun c mem => right c (List.mem_reverse.mp mem)
  rw [trim, List.append_assoc, dropWhile_isBlank_append left first, List.reverse_append,
    dropWhile_isBlank_append reversed last, List.reverse_reverse]

theorem exists_dropWhile_eq (cs : List Char) : ∃ pad, cs = pad ++ cs.dropWhile isBlank ∧
    (∀ c ∈ pad, isBlank c = true) ∧ ∀ c ∈ (cs.dropWhile isBlank).head?, isBlank c = false := by
  refine ⟨cs.takeWhile isBlank, List.takeWhile_append_dropWhile.symm, ?_, ?_⟩
  · exact fun c mem => List.mem_takeWhile_imp mem
  · intro c front
    have stops := List.head?_dropWhile_not isBlank cs
    rwa [Option.mem_def.mp front] at stops

/-- Every line is padding around what trimming leaves of it. -/
theorem exists_trim_eq (line : List Char) : ∃ before after,
    line = before ++ trim line ++ after ∧ (∀ c ∈ before, isBlank c = true) ∧
      (∀ c ∈ after, isBlank c = true) ∧ (∀ c ∈ (trim line).head?, isBlank c = false) ∧
      ∀ c ∈ (trim line).getLast?, isBlank c = false := by
  obtain ⟨before, split, left, first⟩ := exists_dropWhile_eq line
  obtain ⟨after, split', right, last⟩ := exists_dropWhile_eq (line.dropWhile isBlank).reverse
  have rest : line.dropWhile isBlank = trim line ++ after.reverse := by
    rw [trim, ← List.reverse_append, ← split', List.reverse_reverse]
  refine ⟨before, after.reverse, ?_, left, ?_, ?_, ?_⟩
  · rw [List.append_assoc, ← rest]
    exact split
  · exact fun c mem => right c (List.mem_reverse.mp mem)
  · intro c front
    obtain ⟨cs, eq⟩ := List.head?_eq_some_iff.mp front
    exact first c (by rw [rest, eq]; rfl)
  · rw [trim, List.getLast?_reverse]
    exact last

/-! ## Lines -/

/-- What a line names: what trimming leaves of it, unless that is nothing. -/
def named? (line : List Char) : Option (List Char) :=
  if (trim line).isEmpty then none else some (trim line)

theorem line_named? {line : List Char} (oneLine : '\n' ∉ line) : Line (named? line) line := by
  obtain ⟨before, after, split, left, right, first, last⟩ := exists_trim_eq line
  have parts : '\n' ∉ before ∧ '\n' ∉ trim line ∧ '\n' ∉ after := by
    rw [split] at oneLine
    simpa [not_or, and_assoc] using oneLine
  rw [named?]
  split
  case isTrue nothing =>
    rw [List.isEmpty_iff.mp nothing, List.append_nil] at split
    refine .blank ⟨?_, oneLine⟩
    rw [split]
    exact List.forall_mem_append.mpr ⟨left, right⟩
  case isFalse something =>
    have entry : Entry (trim line) := ⟨by simpa using something, parts.2.1, first, last⟩
    have line := Line.entry ⟨left, parts.1⟩ entry ⟨right, parts.2.2⟩
    rwa [← split] at line

theorem Line.oneLine {named : Option (List Char)} {line : List Char} (h : Line named line) :
    '\n' ∉ line := by
  cases h with
  | blank padding => exact padding.oneLine
  | entry left entry right => simp [left.oneLine, entry.oneLine, right.oneLine]

/-- A line names nothing else, also if a carriage return is taken for a part of it. -/
theorem Line.named?_append {named : Option (List Char)} {line : List Char} (h : Line named line)
    {cr : List Char} (blank : ∀ c ∈ cr, isBlank c = true) : named? (line ++ cr) = named := by
  cases h with
  | blank padding =>
    rw [named?, trim_of_blank (List.forall_mem_append.mpr ⟨padding.blank, blank⟩)]
    rfl
  | @entry before p after left entry right =>
    have padding := List.forall_mem_append.mpr ⟨right.blank, blank⟩
    rw [named?, List.append_assoc, trim_padded left.blank entry padding]
    exact if_neg (by simpa using entry.nonempty)

theorem splitLines_of_notMem {line : List Char} (oneLine : '\n' ∉ line) :
    splitLines line = [line] := by
  induction line with
  | nil => rfl
  | cons c line ih =>
    obtain ⟨here, rest⟩ := not_or.mp (mt List.mem_cons.mpr oneLine)
    rw [splitLines, if_neg (Ne.symm here), ih rest]

theorem splitLines_append {line : List Char} (oneLine : '\n' ∉ line) (text : List Char) :
    splitLines (line ++ '\n' :: text) = line :: splitLines text := by
  induction line with
  | nil => rw [List.nil_append, splitLines, if_pos rfl]
  | cons c line ih =>
    obtain ⟨here, rest⟩ := not_or.mp (mt List.mem_cons.mpr oneLine)
    rw [List.cons_append, splitLines, if_neg (Ne.symm here), ih rest]

theorem trimmedLines_of_notMem {line : List Char} (oneLine : '\n' ∉ line) :
    trimmedLines line = (named? line).toList := by
  rw [trimmedLines, splitLines_of_notMem oneLine, List.map_singleton, named?]
  cases trim line <;> rfl

theorem trimmedLines_append {line : List Char} (oneLine : '\n' ∉ line) (text : List Char) :
    trimmedLines (line ++ '\n' :: text) = (named? line).toList ++ trimmedLines text := by
  rw [trimmedLines, trimmedLines, splitLines_append oneLine, List.map_cons, named?]
  cases trim line <;> rfl

/-! ## Texts -/

theorem LineEnd.eq_append {ending : List Char} (ends : LineEnd ending) :
    ∃ cr, ending = cr ++ ['\n'] ∧ (∀ c ∈ cr, isBlank c = true) ∧ '\n' ∉ cr := by
  cases ends with
  | feed => exact ⟨[], rfl, List.forall_mem_nil _, List.not_mem_nil⟩
  | returnFeed => exact ⟨['\r'], rfl, List.forall_mem_singleton.mpr rfl, by decide⟩

theorem Lists.trimmedLines_eq {ps : List (List Char)} {text : List Char} (lists : Lists ps text) :
    trimmedLines text = ps := by
  induction lists with
  | @last named line here =>
    have same := here.named?_append (List.forall_mem_nil _)
    rw [List.append_nil] at same
    rw [trimmedLines_of_notMem here.oneLine, same]
  | @cons named line ending text ps here ends _ ih =>
    obtain ⟨cr, rfl, blank, oneLine⟩ := ends.eq_append
    have whole : line ++ (cr ++ ['\n']) ++ text = (line ++ cr) ++ '\n' :: text := by simp
    have one : '\n' ∉ line ++ cr := by simp [here.oneLine, oneLine]
    rw [whole, trimmedLines_append one, here.named?_append blank, ih]

/-- Every text is a problem list. -/
theorem lists_trimmedLines (text : List Char) : Lists (trimmedLines text) text := by
  by_cases more : '\n' ∈ text
  · obtain ⟨line, rest, split, oneLine⟩ := List.eq_append_cons_of_mem more
    have shorter : rest.length < text.length := by
      rw [split, List.length_append, List.length_cons]
      omega
    have lists := Lists.cons (line_named? oneLine) .feed (lists_trimmedLines rest)
    rw [← trimmedLines_append oneLine, List.append_assoc, List.singleton_append, ← split] at lists
    exact lists
  · rw [trimmedLines_of_notMem more]
    exact .last (line_named? more)
termination_by text.length

/-- What is read from a text is what it lists. -/
theorem trimmedLines_eq_iff {ps : List (List Char)} {text : List Char} :
    trimmedLines text = ps ↔ Lists ps text :=
  ⟨fun read => read ▸ lists_trimmedLines text, Lists.trimmedLines_eq⟩

theorem Lists.entry {ps : List (List Char)} {text : List Char} (lists : Lists ps text) :
    ∀ p ∈ ps, Entry p := by
  have named {name : Option (List Char)} {line : List Char} (here : Line name line) :
      ∀ p ∈ name.toList, Entry p := by
    cases here with
    | blank _ => exact List.forall_mem_nil _
    | entry _ entry _ => exact List.forall_mem_singleton.mpr entry
  induction lists with
  | last here => exact named here
  | cons here _ _ ih => exact List.forall_mem_append.mpr ⟨named here, ih⟩

end Text

/-! ## Runs -/

namespace Batch

/-- What a tolerant run does with a path that has a number. -/
def tolerantStep (b : Batch) : Files × Report → String × Nat → Files × Report
  | (fs, report), (path, number) =>
    ((settle fs (b.convertFile fs number path)).1,
      record report number path (settle fs (b.convertFile fs number path)).2)

/-- What a run that fails fast does with a path that has a number: nothing after a failure. -/
def failFastStep (b : Batch) :
    Files × Option FailedFormula → String × Nat → Files × Option FailedFormula
  | (fs, some failure), _ => (fs, some failure)
  | (fs, none), (path, number) =>
    match b.convertFile fs number path with
    | .ok fs => (fs, none)
    | .error cause => (fs, some ⟨number, path, cause⟩)

/-- A run on paths that come with the numbers of their outputs. -/
def runNumbered (b : Batch) (fs : Files) (numbered : List (String × Nat)) :
    Files × Except BatchError Report :=
  match fs.createDirectories b.directory with
  | (fs, .error e) => (fs, .error (.noDirectory b.directory e))
  | (fs, .ok ()) =>
    if b.failFast then
      match numbered.foldl b.failFastStep (fs, none) with
      | (fs, none) => (fs, .ok ⟨numbered.length, []⟩)
      | (fs, some failure) => (fs, .error (.formula failure))
    else (numbered.foldl b.tolerantStep (fs, .empty)).map id .ok

theorem runTolerant_eq_foldl (b : Batch) (fs : Files) (report : Report) (index : Nat)
    (paths : List String) : b.runTolerant fs report index paths =
      (paths.zipIdx index).foldl b.tolerantStep (fs, report) := by
  induction paths generalizing fs report index with
  | nil => rfl
  | cons path paths ih => rw [runTolerant_cons, ih, List.zipIdx_cons, List.foldl_cons, tolerantStep]

theorem foldl_failFastStep_of_failure (b : Batch) (fs : Files) (failure : FailedFormula)
    (numbered : List (String × Nat)) :
    numbered.foldl b.failFastStep (fs, some failure) = (fs, some failure) := by
  induction numbered with
  | nil => rfl
  | cons _ _ ih => exact ih

theorem runFailFast_eq_foldl (b : Batch) (fs : Files) (index : Nat) (paths : List String) :
    b.runFailFast fs index paths = (paths.zipIdx index).foldl b.failFastStep (fs, none) := by
  induction paths generalizing fs index with
  | nil => rfl
  | cons path paths ih =>
    unfold runFailFast
    rw [List.zipIdx_cons, List.foldl_cons]
    cases converted : b.convertFile fs index path with
    | ok fs' =>
      have step : b.failFastStep (fs, none) (path, index) = (fs', none) := by
        unfold failFastStep
        simp only [converted]
      rw [step]
      exact ih fs' (index + 1)
    | error cause =>
      have step : b.failFastStep (fs, none) (path, index) = (fs, some ⟨index, path, cause⟩) := by
        unfold failFastStep
        simp only [converted]
      rw [step]
      exact (b.foldl_failFastStep_of_failure fs _ _).symm

/-- A run numbers its paths from zero in their order. -/
theorem run_eq_runNumbered (b : Batch) (fs : Files) (paths : List String) :
    b.run fs paths = b.runNumbered fs paths.zipIdx := by
  rw [run, runNumbered]
  simp only [runTolerant_eq_foldl, runFailFast_eq_foldl, List.length_zipIdx]
  rfl

end Batch

/-- A problem list is read as the paths that its text lists and nothing else, all of them fit to
stand on a line, and a run converts each path under the number that it has among them. -/
theorem loadList_lists :
    (∀ (text : String) (ps : List String),
      problemPaths text = ps ↔ Text.Lists (ps.map String.toList) text.toList) ∧
    (∀ (text : String), ∀ p ∈ problemPaths text, Text.Entry p.toList) ∧
    ∀ (fs : Files) (list text : String), fs.readText list = .ok text →
      fs.loadList list = .ok (problemPaths text) ∧
      ∀ b : Batch, b.runList fs list = b.runNumbered fs (problemPaths text).zipIdx := by
  have listed (text : String) :
      (problemPaths text).map String.toList = Text.trimmedLines text.toList := by
    simp [problemPaths, Function.comp_def]
  refine ⟨fun text ps => ?_, fun text p mem => ?_, fun fs list text stored => ?_⟩
  · rw [← Text.trimmedLines_eq_iff, ← listed, List.map_inj_right fun s t => String.toList_inj.mp]
  · have lists := Text.lists_trimmedLines text.toList
    rw [← listed] at lists
    exact lists.entry _ (List.mem_map_of_mem mem)
  · have loaded : fs.loadList list = .ok (problemPaths text) := by rw [Files.loadList, stored]
    refine ⟨loaded, fun b => ?_⟩
    rw [Batch.runList, loaded]
    exact b.run_eq_runNumbered fs _

/-- Two paths, of which the second holds a carriage return, among blank lines and padding. -/
def scattered : String := "\u3000a.json \r\n\r\n\u0085\n\tb\rc.json"

def scatteredFile : Files := (Files.empty []).putFile ["list"] scattered.toUTF8

theorem lists_scattered :
    Text.Lists (["a.json", "b\rc.json"].map String.toList) scattered.toList := by
  have padding (cs : List Char) (plain : cs.all Text.isBlank && !cs.contains '\n') :
      Text.Padding cs := by
    have both : (∀ c ∈ cs, Text.isBlank c = true) ∧ '\n' ∉ cs := by simpa using plain
    exact ⟨both.1, both.2⟩
  have first : Text.Line (some "a.json".toList) "\u3000a.json ".toList := by
    refine .entry (padding ['\u3000'] rfl) ⟨by decide, by decide, ?_, ?_⟩ (padding [' '] rfl)
    all_goals
      rintro _ ⟨⟩
      rfl
  have second : Text.Line (some "b\rc.json".toList) "\tb\rc.json".toList := by
    refine .entry (padding ['\t'] rfl) ⟨by decide, by decide, ?_, ?_⟩ (padding [] rfl)
    all_goals
      rintro _ ⟨⟩
      rfl
  exact .cons first .returnFeed (.cons (.blank (padding [] rfl)) .returnFeed
    (.cons (.blank (padding ['\u0085'] rfl)) .feed (.last second)))

theorem loadList_lists_scattered :
    scatteredFile.loadList "list" = .ok ["a.json", "b\rc.json"] ∧
      Text.Entry "b\rc.json".toList ∧
      ∀ b : Batch, b.runList scatteredFile "list" =
        b.runNumbered scatteredFile [("a.json", 0), ("b\rc.json", 1)] := by
  obtain ⟨listed, entries, loads⟩ := loadList_lists
  have read := (listed scattered ["a.json", "b\rc.json"]).mpr lists_scattered
  have text : scatteredFile.readText "list" = .ok scattered := Files.readText_of_read rfl
  obtain ⟨loaded, runs⟩ := loads scatteredFile "list" scattered text
  rw [read] at loaded runs
  exact ⟨loaded, entries scattered _ (by simp [read]), runs⟩

end FolGraph
