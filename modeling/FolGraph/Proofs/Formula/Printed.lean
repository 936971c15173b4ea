import FolGraph.Formula.Display
import FolGraph.Graph.Encode
import FolGraph.Proofs.Formula.Arity

/-!
# Printed formulas

The printed form of a formula is unambiguous if its labels are operators and names and its
operators have as many arguments as they take (`display_eq_iff`). The first character tells the
four ways of printing apart (`Mark`), and with a delimiter or nothing behind it a printed formula
ends where it can be told to end (`Separates`).
-/

namespace FolGraph.Formula

/-! ## Symbols -/

def operators : List String := ["!", "?", "&", "|", "~", "=", "!="]

/-- The characters of names. -/
def isNameChar (c : Char) : Bool := c.isAlphanum || c == '_' || c == '$'

def IsName (label : String) : Prop := label ≠ "" ∧ ∀ c ∈ label.toList, isNameChar c = true

/-- An operator or a name. -/
def IsSymbol (label : String) : Prop := label ∈ operators ∨ IsName label

/-- A formula of operators and names in which each operator has as many arguments as it takes and
each declaration is a leaf. -/
structure Plain (f : Formula) : Prop where
  symbols : ∀ label ∈ f.labels, IsSymbol label
  arity : f.hasArity = true

/-- The characters that stand around the parts of a printed formula. -/
def delimiters : List Char := ['(', ')', ',', ']', ' ']

theorem notMem_delimiters_of_isNameChar {c : Char} (name : isNameChar c = true) :
    c ∉ delimiters := by
  intro mem
  simp only [delimiters, List.mem_cons, List.not_mem_nil, or_false] at mem
  rcases mem with rfl | rfl | rfl | rfl | rfl <;> cases name

/-- A word holds no delimiter. -/
theorem IsSymbol.word {label : String} (symbol : IsSymbol label) :
    ∀ c ∈ label.toList, c ∉ delimiters := by
  rcases symbol with operator | ⟨_, chars⟩
  · have words : ∀ op ∈ operators, ∀ c ∈ op.toList, c ∉ delimiters := by
      simp [operators, delimiters]
    exact words label operator
  · exact fun c mem => notMem_delimiters_of_isNameChar (chars c mem)

theorem IsName.notMem_operators {label : String} (name : IsName label) : label ∉ operators := by
  have strange : ∀ op ∈ operators, ∃ c ∈ op.toList, isNameChar c = false := by
    simp [operators, isNameChar]
  intro operator
  obtain ⟨c, mem, other⟩ := strange label operator
  rw [name.2 c mem] at other
  cases other

/-- Two words of which each ends at a delimiter or at the end of the text are the same if the texts
are. -/
theorem word_append_inj {xs ys r s : List Char} (hx : ∀ c ∈ xs, c ∉ delimiters)
    (hy : ∀ c ∈ ys, c ∉ delimiters) (hr : ∀ c ∈ r.head?, c ∈ delimiters)
    (hs : ∀ c ∈ s.head?, c ∈ delimiters) (h : xs ++ r = ys ++ s) : xs = ys ∧ r = s := by
  induction xs generalizing ys with
  | nil =>
    cases ys with
    | nil => exact ⟨rfl, h⟩
    | cons y ys =>
      rw [List.nil_append] at h
      exact absurd (hr y (by rw [h]; rfl)) (hy y List.mem_cons_self)
  | cons x xs ih =>
    cases ys with
    | nil =>
      rw [List.nil_append] at h
      exact absurd (hs x (by rw [← h]; rfl)) (hx x List.mem_cons_self)
    | cons y ys =>
      obtain ⟨rfl, rest⟩ := List.cons.inj h
      obtain ⟨rfl, same⟩ :=
        ih (List.forall_mem_cons.mp hx).2 (List.forall_mem_cons.mp hy).2 rest
      exact ⟨rfl, same⟩

/-! ## Ways of printing -/

/-- The four ways of printing. -/
inductive Mark where
  | word
  | negation
  | quantifier
  | parentheses
  deriving DecidableEq

/-- How a text goes on that begins with a character. -/
def Mark.ofChar (c : Char) : Mark :=
  if c = '~' then .negation
  else if c = '!' ∨ c = '?' then .quantifier
  else if c = '(' then .parentheses
  else .word

/-- How a formula is printed. -/
inductive Printed : Mark → Formula → Prop
  | word {label : String} {args : List Formula} (symbol : IsName label ∨ label = "&" ∨ label = "|")
      (few : label = "&" ∨ label = "|" → args.length ≤ 1) : Printed .word (node label args)
  | negation {a : Formula} : Printed .negation (node "~" [a])
  | quantified {label : String} {d : Formula} {ds : List Formula} {body : Formula}
      (quantifier : label = "!" ∨ label = "?") :
      Printed .quantifier (node label (d :: ds ++ [body]))
  | joined {label : String} {a b : Formula} {cs : List Formula}
      (between : label ∈ ["&", "|", "=", "!="]) : Printed .parentheses (node label (a :: b :: cs))

theorem charsAll_eq_map (fs : List Formula) : charsAll fs = fs.map chars := by
  induction fs with
  | nil => rfl
  | cons f fs ih => rw [charsAll, ih, List.map_cons]

/-- The formulas after the first one, each behind a separator. -/
def series (sep : List Char) (fs : List Formula) : List Char := fs.flatMap (sep ++ ·.chars)

theorem intercalate_chars (sep : List Char) (f : Formula) (fs : List Formula) :
    List.intercalate sep ((f :: fs).map chars) = f.chars ++ series sep fs := by
  induction fs generalizing f with
  | nil => simp [List.intercalate, series]
  | cons g fs ih =>
    have shift : List.intercalate sep ((f :: g :: fs).map chars) =
        f.chars ++ (sep ++ List.intercalate sep ((g :: fs).map chars)) := by
      simp [List.intercalate]
    rw [shift, ih g, series, series, List.flatMap_cons, List.append_assoc]

/-! ## Printed characters -/

/-- What a word is followed by: its arguments in parentheses, if it has any. -/
def call : List Formula → List Char
  | [] => []
  | a :: as => '(' :: (a.chars ++ (series [',', ' '] as ++ [')']))

theorem chars_word {label : String} {args : List Formula}
    (symbol : IsName label ∨ label = "&" ∨ label = "|")
    (few : label = "&" ∨ label = "|" → args.length ≤ 1) :
    (node label args).chars = label.toList ++ call args := by
  have plain : (label == "~") = false ∧ isQuantifier label = false := by
    rcases symbol with name | rfl | rfl
    · have other := name.notMem_operators
      simp only [operators, List.mem_cons, not_or] at other
      simp [isQuantifier, other]
    · decide
    · decide
  have unordered : args.length ≤ 1 ∨ isUnordered label = false := by
    rcases symbol with name | rfl | rfl
    · have other := name.notMem_operators
      simp only [operators, List.mem_cons, not_or] at other
      exact Or.inr (by simp [isUnordered, other])
    · exact Or.inl (few (.inl rfl))
    · exact Or.inl (few (.inr rfl))
  rw [chars, charsAll_eq_map]
  cases args with
  | nil => simp [layout, call]
  | cons a as =>
    have inside := intercalate_chars [',', ' '] a as
    have apart : (isUnordered label && !(as.map chars).isEmpty) = false := by
      rcases unordered with short | other
      · obtain rfl : as = [] := by simpa using short
        simp
      · rw [other, Bool.false_and]
    rw [List.map_cons] at inside ⊢
    unfold layout
    simp only [plain.1, plain.2, apart, Bool.false_and, Bool.false_eq_true, if_false]
    change label.toList ++ ['('] ++ List.intercalate [',', ' '] _ ++ [')'] = _
    rw [inside]
    simp [call]

theorem chars_negation (a : Formula) : (node "~" [a]).chars = '~' :: ' ' :: a.chars := by
  rfl

theorem chars_quantified {label : String} (quantifier : label = "!" ∨ label = "?") (d : Formula)
    (ds : List Formula) (body : Formula) : (node label (d :: ds ++ [body])).chars =
      label.toList ++ ' ' :: '[' :: (d.chars ++ (series [',', ' '] ds ++
        ']' :: ' ' :: ':' :: ' ' :: body.chars)) := by
  have plain : (label == "~") = false ∧ isQuantifier label = true := by
    rcases quantifier with rfl | rfl <;> decide
  have inside := intercalate_chars [',', ' '] d ds
  have parts : (d :: ds ++ [body]).map chars = d.chars :: (ds.map chars ++ [body.chars]) := by simp
  have several : (ds.map chars ++ [body.chars]).isEmpty = false := by simp
  have front : (d.chars :: (ds.map chars ++ [body.chars])).dropLast = (d :: ds).map chars := by
    rw [← List.cons_append, List.dropLast_concat, List.map_cons]
  have last : (d.chars :: (ds.map chars ++ [body.chars])).getLastD [] = body.chars := by
    rw [← List.cons_append, List.getLastD_concat]
  rw [chars, charsAll_eq_map, parts]
  unfold layout
  simp only [plain.1, plain.2, several, Bool.not_false, Bool.and_self, Bool.false_eq_true,
    if_false, if_true, front, last]
  change label.toList ++ [' ', '['] ++ List.intercalate [',', ' '] _ ++ [']', ' ', ':', ' '] ++ _
    = _
  rw [inside]
  simp

theorem chars_joined {label : String} (between : label ∈ ["&", "|", "=", "!="]) (a b : Formula)
    (cs : List Formula) : (node label (a :: b :: cs)).chars =
      '(' :: (a.chars ++ (series (' ' :: (label.toList ++ [' '])) (b :: cs) ++ [')'])) := by
  have plain : (label == "~") = false ∧ isQuantifier label = false ∧ isUnordered label = true := by
    simp only [List.mem_cons, List.not_mem_nil, or_false] at between
    rcases between with rfl | rfl | rfl | rfl <;> decide
  have several : ((b :: cs).map chars).isEmpty = false := rfl
  have inside := intercalate_chars ([' '] ++ label.toList ++ [' ']) a (b :: cs)
  rw [List.map_cons] at inside
  rw [chars, charsAll_eq_map, List.map_cons]
  unfold layout
  simp only [plain.1, plain.2, several, Bool.false_and, Bool.not_false, Bool.and_self,
    Bool.false_eq_true, if_false, if_true]
  change ['('] ++ List.intercalate ([' '] ++ label.toList ++ [' ']) _ ++ [')'] = _
  rw [inside]
  simp

theorem Mark.ofChar_of_isNameChar {c : Char} (name : isNameChar c = true) :
    Mark.ofChar c = .word := by
  have other {d : Char} (strange : isNameChar d = false) : c ≠ d := by
    rintro rfl
    rw [name] at strange
    cases strange
  simp [Mark.ofChar, other (d := '~') rfl, other (d := '!') rfl, other (d := '?') rfl,
    other (d := '(') rfl]

/-- The first character tells how a formula is printed. -/
theorem Printed.exists_chars_eq_cons {m : Mark} {f : Formula} (printed : Printed m f) :
    ∃ c cs, f.chars = c :: cs ∧ Mark.ofChar c = m := by
  cases printed with
  | @word label args symbol few =>
    rw [chars_word symbol few]
    rcases symbol with ⟨nonempty, chars⟩ | rfl | rfl
    · obtain ⟨c, cs, eq⟩ := List.exists_cons_of_ne_nil (mt String.toList_eq_nil_iff.mp nonempty)
      rw [eq]
      exact ⟨c, _, rfl, Mark.ofChar_of_isNameChar (chars c (by rw [eq]; exact List.mem_cons_self))⟩
    · exact ⟨'&', _, rfl, rfl⟩
    · exact ⟨'|', _, rfl, rfl⟩
  | negation => exact ⟨'~', _, chars_negation _, rfl⟩
  | quantified quantifier =>
    rw [chars_quantified quantifier]
    rcases quantifier with rfl | rfl
    · exact ⟨'!', _, rfl, rfl⟩
    · exact ⟨'?', _, rfl, rfl⟩
  | joined between => exact ⟨'(', _, chars_joined between _ _ _, rfl⟩

/-- A connective stands between its arguments, or before the only one, or alone. -/
theorem exists_printed_of_connective {label : String} (connective : label = "&" ∨ label = "|")
    (args : List Formula) : ∃ m, Printed m (node label args) := by
  match args with
  | [] | [_] => exact ⟨.word, .word (.inr connective) fun _ => by simp⟩
  | a :: b :: cs =>
    refine ⟨.parentheses, .joined ?_⟩
    rcases connective with rfl | rfl <;> decide

/-- A plain formula is printed in one of the four ways. -/
theorem Plain.exists_printed {f : Formula} (plain : Plain f) : ∃ m, Printed m f := by
  obtain ⟨label, args⟩ := f
  obtain ⟨negation, equality, quantifier, _⟩ := (hasArity_node_iff.mp plain.arity).1
  rcases plain.symbols label (by simp [labels]) with operator | name
  · rw [label_node] at negation equality quantifier
    rw [args_node] at negation equality quantifier
    have cases : (label = "!" ∨ label = "?") ∨ (label = "&" ∨ label = "|") ∨ label = "~" ∨
        label = "=" ∨ label = "!=" := by
      simpa only [operators, List.mem_cons, List.not_mem_nil, or_false, or_assoc] using operator
    rcases cases with isQuantifier | connective | rfl | isEquality
    · have several := quantifier isQuantifier
      rcases List.eq_nil_or_concat' args with rfl | ⟨_ | ⟨d, ds⟩, body, rfl⟩
      · simp at several
      · simp at several
      · exact ⟨.quantifier, .quantified isQuantifier⟩
    · exact exists_printed_of_connective connective args
    · obtain ⟨a, rfl⟩ := List.length_eq_one_iff.mp (negation rfl)
      exact ⟨.negation, .negation⟩
    · obtain ⟨a, b, rfl⟩ := List.length_eq_two.mp (equality isEquality)
      refine ⟨.parentheses, .joined ?_⟩
      rcases isEquality with rfl | rfl <;> decide
  · refine ⟨.word, .word (.inl name) ?_⟩
    rintro (rfl | rfl) <;> exact absurd (by decide) name.notMem_operators

/-! ## Unique reading -/

/-- What may follow a printed formula: nothing, or a delimiter that opens no arguments. -/
def Ends (rest : List Char) : Prop := ∀ c ∈ rest.head?, c ∈ [',', ')', ']', ' ']

theorem ends_nil : Ends [] := fun _ none => by cases none

theorem ends_cons {c : Char} (delimiter : c ∈ [',', ')', ']', ' ']) (rest : List Char) :
    Ends (c :: rest) := by
  intro d front
  obtain rfl := Option.some.inj front
  exact delimiter

/-- At the front of a text it can be told whether it begins with this printed formula, and where
that ends. -/
def Separates (f : Formula) : Prop :=
  ∀ (g : Formula) (r s : List Char), Plain g → Ends r → Ends s →
    f.chars ++ r = g.chars ++ s → f = g ∧ r = s

theorem ends_series {c close : Char} (delimiter : c ∈ [',', ')', ']', ' '])
    (closing : close ∈ [',', ')', ']', ' ']) (sep : List Char) (fs : List Formula)
    (rest : List Char) : Ends (series (c :: sep) fs ++ close :: rest) := by
  cases fs with
  | nil => exact ends_cons closing rest
  | cons f fs => exact ends_cons delimiter _

/-- A series is told apart from another one of the same separator, and it can be told where it is
closed. -/
theorem series_append_inj {c close : Char} (delimiter : c ∈ [',', ')', ']', ' '])
    (closing : close ∈ [',', ')', ']', ' ']) (differ : c ≠ close) {sep : List Char}
    {fs gs : List Formula} (separates : ∀ f ∈ fs, Separates f) (plain : ∀ g ∈ gs, Plain g)
    {r s : List Char}
    (h : series (c :: sep) fs ++ close :: r = series (c :: sep) gs ++ close :: s) :
    fs = gs ∧ r = s := by
  induction fs generalizing gs with
  | nil =>
    cases gs with
    | nil => exact ⟨rfl, (List.cons.inj h).2⟩
    | cons g gs => exact absurd (List.cons.inj h).1.symm differ
  | cons f fs ih =>
    cases gs with
    | nil => exact absurd (List.cons.inj h).1 differ
    | cons g gs =>
      simp only [series, List.flatMap_cons, List.append_assoc, List.append_cancel_left_eq] at h
      obtain ⟨here, others⟩ := List.forall_mem_cons.mp separates
      obtain ⟨plainHere, plainOthers⟩ := List.forall_mem_cons.mp plain
      obtain ⟨rfl, rest⟩ := here g _ _ plainHere (ends_series delimiter closing sep fs r)
        (ends_series delimiter closing sep gs s) h
      obtain ⟨rfl, same⟩ := ih others plainOthers rest
      exact ⟨rfl, same⟩

theorem listed_append_inj {c close : Char} (delimiter : c ∈ [',', ')', ']', ' '])
    (closing : close ∈ [',', ')', ']', ' ']) (differ : c ≠ close) {sep : List Char} {f g : Formula}
    {fs gs : List Formula} (separates : ∀ a ∈ f :: fs, Separates a) (plain : ∀ b ∈ g :: gs, Plain b)
    {r s : List Char} (h : f.chars ++ (series (c :: sep) fs ++ close :: r) =
      g.chars ++ (series (c :: sep) gs ++ close :: s)) : f = g ∧ fs = gs ∧ r = s := by
  obtain ⟨here, others⟩ := List.forall_mem_cons.mp separates
  obtain ⟨plainHere, plainOthers⟩ := List.forall_mem_cons.mp plain
  obtain ⟨rfl, rest⟩ := here g _ _ plainHere (ends_series delimiter closing sep fs r)
    (ends_series delimiter closing sep gs s) h
  exact ⟨rfl, series_append_inj delimiter closing differ others plainOthers rest⟩

theorem Ends.head?_mem {rest : List Char} (ends : Ends rest) :
    ∀ c ∈ rest.head?, c ∈ delimiters := by
  have delimiter : ∀ c ∈ [',', ')', ']', ' '], c ∈ delimiters := by
    simp [delimiters]
  exact fun c front => delimiter c (ends c front)

theorem Plain.args {label : String} {args : List Formula} (plain : Plain (node label args)) :
    ∀ a ∈ args, Plain a := by
  have arity := (hasArity_node_iff.mp plain.arity).2
  have symbols : ∀ l ∈ labelsAll args, IsSymbol l := by
    intro l mem
    exact plain.symbols l (by rw [labels]; exact List.mem_cons_of_mem _ mem)
  clear plain
  induction args with
  | nil => exact List.forall_mem_nil _
  | cons a as ih =>
    rw [hasArityAll, Bool.and_eq_true] at arity
    rw [labelsAll, List.forall_mem_append] at symbols
    exact List.forall_mem_cons.mpr ⟨⟨symbols.1, arity.1⟩, ih arity.2 symbols.2⟩

theorem Plain.symbol {label : String} {args : List Formula} (plain : Plain (node label args)) :
    IsSymbol label := plain.symbols label (by simp [labels])

/-! Formulas that are printed in the same way are told apart if their arguments are. -/

section
variable {label label' : String} {r s : List Char}

/-- The front of a word's arguments, or of what follows the word, is a delimiter. -/
theorem head?_call_append (args : List Formula) {rest : List Char} (ends : Ends rest) :
    ∀ c ∈ (call args ++ rest).head?, c ∈ delimiters := by
  cases args with
  | nil => exact ends.head?_mem
  | cons a as =>
    intro c front
    obtain rfl := Option.some.inj front
    decide

theorem call_append_inj {args args' : List Formula} (separates : ∀ a ∈ args, Separates a)
    (plain : ∀ a ∈ args', Plain a) (hr : Ends r) (hs : Ends s)
    (h : call args ++ r = call args' ++ s) : args = args' ∧ r = s := by
  have unopened {rest tail : List Char} (ends : Ends rest) : rest ≠ '(' :: tail := by
    rintro rfl
    exact absurd (ends '(' rfl) (by decide)
  cases args with
  | nil =>
    cases args' with
    | nil => exact ⟨rfl, h⟩
    | cons b bs => exact absurd h (unopened hr)
  | cons a as =>
    cases args' with
    | nil => exact absurd h.symm (unopened hs)
    | cons b bs =>
      simp only [call, List.cons_append, List.append_assoc, List.nil_append, List.cons.injEq,
        true_and] at h
      obtain ⟨rfl, rfl, same⟩ := listed_append_inj (by decide) (by decide)
        (by decide) separates plain h
      exact ⟨rfl, same⟩

theorem word_chars_inj {args args' : List Formula}
    (symbol : IsName label ∨ label = "&" ∨ label = "|")
    (few : label = "&" ∨ label = "|" → args.length ≤ 1)
    (symbol' : IsName label' ∨ label' = "&" ∨ label' = "|")
    (few' : label' = "&" ∨ label' = "|" → args'.length ≤ 1)
    (separates : ∀ a ∈ args, Separates a) (plain : Plain (node label args))
    (plain' : Plain (node label' args')) (hr : Ends r) (hs : Ends s)
    (h : (node label args).chars ++ r = (node label' args').chars ++ s) :
    node label args = node label' args' ∧ r = s := by
  rw [chars_word symbol few, chars_word symbol' few', List.append_assoc, List.append_assoc] at h
  obtain ⟨word, rest⟩ := word_append_inj plain.symbol.word plain'.symbol.word
    (head?_call_append args hr) (head?_call_append args' hs) h
  obtain rfl := String.toList_inj.mp word
  obtain ⟨rfl, same⟩ := call_append_inj separates plain'.args hr hs rest
  exact ⟨rfl, same⟩

theorem negation_chars_inj {a b : Formula} (separates : Separates a)
    (plain' : Plain (node "~" [b])) (hr : Ends r) (hs : Ends s)
    (h : (node "~" [a]).chars ++ r = (node "~" [b]).chars ++ s) :
    node "~" [a] = node "~" [b] ∧ r = s := by
  rw [chars_negation, chars_negation] at h
  have argument := (List.cons.inj (List.cons.inj h).2).2
  have plain := List.forall_mem_singleton.mp plain'.args
  obtain ⟨rfl, same⟩ := separates b r s plain hr hs argument
  exact ⟨rfl, same⟩

theorem quantified_chars_inj {d d' body body' : Formula} {ds ds' : List Formula}
    (quantifier : label = "!" ∨ label = "?") (quantifier' : label' = "!" ∨ label' = "?")
    (separates : ∀ a ∈ d :: ds ++ [body], Separates a)
    (plain : Plain (node label (d :: ds ++ [body])))
    (plain' : Plain (node label' (d' :: ds' ++ [body']))) (hr : Ends r) (hs : Ends s)
    (h : (node label (d :: ds ++ [body])).chars ++ r =
      (node label' (d' :: ds' ++ [body'])).chars ++ s) :
    node label (d :: ds ++ [body]) = node label' (d' :: ds' ++ [body']) ∧ r = s := by
  obtain ⟨declarations, last⟩ := List.forall_mem_append.mp separates
  obtain ⟨declarations', last'⟩ := List.forall_mem_append.mp plain'.args
  rw [chars_quantified quantifier, chars_quantified quantifier'] at h
  simp only [List.append_assoc, List.cons_append] at h
  obtain ⟨word, listed⟩ := word_append_inj plain.symbol.word plain'.symbol.word
    (ends_cons (by decide) _).head?_mem (ends_cons (by decide) _).head?_mem h
  obtain rfl := String.toList_inj.mp word
  obtain ⟨rfl, rfl, colon⟩ := listed_append_inj (by decide) (by decide) (by decide)
    declarations declarations' (List.cons.inj (List.cons.inj listed).2).2
  have final := (List.cons.inj (List.cons.inj (List.cons.inj colon).2).2).2
  obtain ⟨rfl, same⟩ := List.forall_mem_singleton.mp last body' r s
    (List.forall_mem_singleton.mp last') hr hs final
  exact ⟨rfl, same⟩

/-- Which operator stands between the arguments shows after the first of them. -/
theorem joined_chars_inj {a a' b b' : Formula} {cs cs' : List Formula}
    (between : label ∈ ["&", "|", "=", "!="]) (between' : label' ∈ ["&", "|", "=", "!="])
    (separates : ∀ f ∈ a :: b :: cs, Separates f) (plain : Plain (node label (a :: b :: cs)))
    (plain' : Plain (node label' (a' :: b' :: cs')))
    (h : (node label (a :: b :: cs)).chars ++ r = (node label' (a' :: b' :: cs')).chars ++ s) :
    node label (a :: b :: cs) = node label' (a' :: b' :: cs') ∧ r = s := by
  obtain ⟨first, others⟩ := List.forall_mem_cons.mp separates
  obtain ⟨first', others'⟩ := List.forall_mem_cons.mp plain'.args
  rw [chars_joined between, chars_joined between'] at h
  simp only [List.cons_append, List.append_assoc, List.nil_append, List.cons.injEq,
    true_and] at h
  obtain ⟨rfl, rest⟩ := first a' _ _ first' (ends_series (by decide) (by decide) _ _ _)
    (ends_series (by decide) (by decide) _ _ _) h
  have operator := rest
  simp only [series, List.flatMap_cons, List.cons_append, List.append_assoc, List.nil_append,
    List.cons.injEq, true_and] at operator
  obtain ⟨word, _⟩ := word_append_inj plain.symbol.word plain'.symbol.word
    (ends_cons (by decide) _).head?_mem (ends_cons (by decide) _).head?_mem operator
  obtain rfl := String.toList_inj.mp word
  obtain ⟨same, rest⟩ := series_append_inj (by decide) (by decide) (by decide) others others' rest
  exact ⟨by rw [same], rest⟩

end

theorem separates_node {label : String} {args : List Formula} (plain : Plain (node label args))
    (below : ∀ a ∈ args, Separates a) : Separates (node label args) := by
  intro g r s plain' hr hs h
  obtain ⟨m, printed⟩ := plain.exists_printed
  obtain ⟨m', printed'⟩ := plain'.exists_printed
  have same : m = m' := by
    obtain ⟨c, cs, front, mark⟩ := printed.exists_chars_eq_cons
    obtain ⟨c', cs', front', mark'⟩ := printed'.exists_chars_eq_cons
    rw [front, front'] at h
    rw [← mark, ← mark', (List.cons.inj h).1]
  subst same
  cases printed with
  | word symbol few =>
    cases printed' with
    | word symbol' few' =>
      exact word_chars_inj symbol few symbol' few' below plain plain' hr hs h
  | negation =>
    cases printed' with
    | negation =>
      exact negation_chars_inj (List.forall_mem_singleton.mp below) plain' hr hs h
  | quantified quantifier =>
    cases printed' with
    | quantified quantifier' =>
      exact quantified_chars_inj quantifier quantifier' below plain plain' hr hs h
  | joined between =>
    cases printed' with
    | joined between' => exact joined_chars_inj between between' below plain plain' h

mutual

theorem separates : (f : Formula) → Plain f → Separates f
  | .node _ args, plain => separates_node plain (separatesAll args plain.args)

theorem separatesAll : (fs : List Formula) → (∀ f ∈ fs, Plain f) → ∀ f ∈ fs, Separates f
  | [], _ => List.forall_mem_nil _
  | f :: fs, plain =>
    List.forall_mem_cons.mpr ⟨separates f (List.forall_mem_cons.mp plain).1,
      separatesAll fs (List.forall_mem_cons.mp plain).2⟩

end

/-- Plain formulas are the same if they are printed the same. -/
theorem display_eq_iff {a b : Formula} (plain : Plain a) (plain' : Plain b) :
    a.display = b.display ↔ a = b := by
  constructor
  · intro h
    have chars : a.chars ++ [] = b.chars ++ [] := by
      rw [List.append_nil, List.append_nil]
      exact String.ofList_injective h
    exact (separates a plain b [] [] plain' ends_nil ends_nil chars).1
  · rintro rfl
    rfl

/-- A disjunction of a bare operator and an operator with one argument. -/
def nestedBars : Formula := .node "|" [.leaf "|", .node "|" [.leaf "p"]]

/-- A disjunction of two bare operators and a constant. -/
def flatBars : Formula := .node "|" [.leaf "|", .leaf "|", .leaf "p"]

theorem display_eq_iff_bars : Plain nestedBars ∧ Plain flatBars ∧
    nestedBars.display = "(| | |(p))" ∧ flatBars.display = "(| | | | p)" ∧
      nestedBars.display ≠ flatBars.display := by
  have bar : IsSymbol "|" := .inl (by decide)
  have name : IsSymbol "p" := .inr ⟨by decide, by simp [isNameChar]⟩
  have nested : Plain nestedBars :=
    ⟨by simp [nestedBars, labels, labelsAll, leaf, bar, name], by decide⟩
  have flat : Plain flatBars :=
    ⟨by simp [flatBars, labels, labelsAll, leaf, bar, name], by decide⟩
  refine ⟨nested, flat, by decide, by decide, fun same => ?_⟩
  exact absurd ((display_eq_iff nested flat).mp same) (by decide)

/-- An operator with too many or too few arguments can make the printed form ambiguous. -/
example : (node "~" [.leaf "~", node "~" [.leaf "~"]]).display =
    (node "~" [node "~" [.leaf "~"], .leaf "~"]).display := by decide

end FolGraph.Formula
