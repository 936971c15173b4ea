import FolGraph.Proofs.Json.Scalar

/-!
# Written texts

A JSON value is written in some style and read as a draft. `value_render` says that the draft is
that of the value whatever the style, as long as the style puts nothing but blank between the
parts; so `ofText_compact` and `ofText_pretty` read both written forms back to the end.
-/

namespace FolGraph.Json

mutual

/-- What is read of a written value. -/
def draft : Json → Draft
  | .number n => .number (Numeral.ofNat n)
  | .string s => .ofString s
  | .array items => .array (draftAll items) true
  | .object members => .object (draftMembers members) true

def draftAll : List Json → List Draft
  | [] => []
  | v :: vs => v.draft :: draftAll vs

def draftMembers : List (String × Json) → List (Draft × Draft)
  | [] => []
  | (key, v) :: rest => (.ofString key, v.draft) :: draftMembers rest

end

/-- All characters are blank. -/
def AllBlank (cs : List Char) : Prop := ∀ c ∈ cs, Draft.isBlank c = true

/-- A style that puts nothing between the parts of a value but blank and a colon. -/
structure Style.Spacing (st : Style) : Prop where
  gap : ∀ depth, AllBlank (st.gap depth)
  colon : ∃ front back, st.colon = front ++ ':' :: back ∧ AllBlank front ∧ AllBlank back

theorem Style.spacing_compact : Style.compact.Spacing :=
  ⟨fun _ => List.forall_mem_nil _, [], [], rfl, List.forall_mem_nil _, List.forall_mem_nil _⟩

theorem Style.spacing_indented : Style.indented.Spacing where
  gap depth c hc := by
    rcases List.mem_cons.mp hc with rfl | hc
    · rfl
    · rw [List.eq_of_mem_replicate hc]
      rfl
  colon := ⟨[], [' '], rfl, List.forall_mem_nil _, by simp [AllBlank, Draft.isBlank]⟩

/-! ## Blank -/

theorem AllBlank.skipBlank_append {lead : List Char} (blank : AllBlank lead) (cs : List Char) :
    Draft.skipBlank (lead ++ cs) = Draft.skipBlank cs :=
  List.dropWhile_append_of_pos blank

theorem skipBlank_cons {c : Char} (h : Draft.isBlank c = false) (cs : List Char) :
    Draft.skipBlank (c :: cs) = c :: cs :=
  List.dropWhile_cons_of_neg (by simp [h])

theorem AllBlank.value_append {lead : List Char} (blank : AllBlank lead) (fuel : Nat)
    (cs : List Char) : Draft.value fuel (lead ++ cs) = Draft.value fuel cs := by
  cases fuel with
  | zero => rfl
  | succ fuel => rw [Draft.value, Draft.value, blank.skipBlank_append]

/-- What ends a number may be preceded by blank, which ends it too. -/
theorem AllBlank.endsNumber {tail : List Char} (blank : AllBlank tail) {c : Char}
    (bracket : c ∈ [',', ']', '\x7d']) (rest : List Char) : EndsNumber (tail ++ c :: rest) := by
  have stops : ∀ d ∈ [',', ']', '\x7d', ' ', '\n', '\t', '\r'],
      Draft.digit? d = none ∧ d ≠ '.' ∧ d ≠ 'e' ∧ d ≠ 'E' := by
    intro d hd
    simp only [List.mem_cons, List.not_mem_nil, or_false] at hd
    rcases hd with rfl | rfl | rfl | rfl | rfl | rfl | rfl <;>
      exact ⟨rfl, by decide, by decide, by decide⟩
  intro d hd
  apply stops
  cases tail with
  | nil =>
    obtain rfl : c = d := by simpa using hd
    simp only [List.mem_cons, List.not_mem_nil, or_false] at bracket ⊢
    grind
  | cons b tail =>
    obtain rfl : b = d := by simpa using hd
    have blank := blank b List.mem_cons_self
    simp only [Draft.isBlank, Bool.or_eq_true, beq_iff_eq] at blank
    simp only [List.mem_cons, List.not_mem_nil, or_false]
    grind

theorem endsNumber_comma (rest : List Char) : EndsNumber (',' :: rest) :=
  AllBlank.endsNumber (List.forall_mem_nil _) (by decide) rest

/-! ## Scalars -/

theorem ne_of_isDigit {c d : Char} (digit : c.isDigit = true) (other : d.isDigit = false) :
    c ≠ d := by
  rintro rfl
  rw [digit] at other
  cases other

theorem isBlank_of_isDigit {c : Char} (digit : c.isDigit = true) : Draft.isBlank c = false := by
  simp [Draft.isBlank, ne_of_isDigit digit]

theorem value_quote (s : String) (fuel : Nat) (rest : List Char) :
    Draft.value (fuel + 1) (quote s.toList ++ rest) = (Draft.ofString s, some rest) := by
  have text : quote s.toList ++ rest = '"' :: (s.toList.flatMap escape ++ '"' :: rest) := by
    simp [quote]
  rw [text, Draft.value, skipBlank_cons rfl]
  simp only [quoted?_flatMap_escape, Draft.ofString]

theorem value_toDigits (n : Nat) (fuel : Nat) {rest : List Char} (ends : EndsNumber rest) :
    Draft.value (fuel + 1) (Nat.toDigits 10 n ++ rest) =
      (.number (Numeral.ofNat n), some rest) := by
  obtain ⟨c, cs, front, digit⟩ := exists_toDigits_eq_cons n
  have numeral := numeral?_toDigits n ends
  rw [front, List.cons_append] at numeral ⊢
  rw [Draft.value, skipBlank_cons (isBlank_of_isDigit digit)]
  split
  case h_7 => simp only [numeral]
  all_goals
    next same =>
      exact absurd (List.cons.inj same).1 (ne_of_isDigit digit rfl)

/-! ## Arrays and objects -/

/-- The items of an array as written, with what stands between them. -/
def joinItems (st : Style) (depth : Nat) (vs : List Json) : List Char :=
  List.intercalate (',' :: st.gap depth) (renderItems st depth vs)

/-- The members of an object as written, with what stands between them. -/
def joinMembers (st : Style) (depth : Nat) (ms : List (String × Json)) : List Char :=
  List.intercalate (',' :: st.gap depth) (renderMembers st depth ms)

theorem joinItems_singleton (st : Style) (depth : Nat) (v : Json) :
    joinItems st depth [v] = v.render st depth := by
  simp [joinItems, renderItems, List.intercalate]

theorem joinItems_cons_cons (st : Style) (depth : Nat) (v w : Json) (ws : List Json) :
    joinItems st depth (v :: w :: ws) =
      v.render st depth ++ ',' :: (st.gap depth ++ joinItems st depth (w :: ws)) := by
  simp [joinItems, renderItems, List.intercalate]

theorem joinMembers_singleton (st : Style) (depth : Nat) (key : String) (v : Json) :
    joinMembers st depth [(key, v)] = quote key.toList ++ st.colon ++ v.render st depth := by
  simp [joinMembers, renderMembers, List.intercalate]

theorem joinMembers_cons_cons (st : Style) (depth : Nat) (key : String) (v : Json)
    (m : String × Json) (ms : List (String × Json)) :
    joinMembers st depth ((key, v) :: m :: ms) =
      quote key.toList ++ st.colon ++ v.render st depth ++
        ',' :: (st.gap depth ++ joinMembers st depth (m :: ms)) := by
  simp [joinMembers, renderMembers, List.intercalate]

theorem render_array_cons (st : Style) (depth : Nat) (v : Json) (vs : List Json) :
    (array (v :: vs)).render st depth =
      '[' :: (st.gap (depth + 1) ++ (joinItems st (depth + 1) (v :: vs) ++
        (st.gap depth ++ [']']))) := by
  simp [render, enclose, joinItems, renderItems]

theorem render_object_cons (st : Style) (depth : Nat) (m : String × Json)
    (ms : List (String × Json)) :
    (object (m :: ms)).render st depth =
      '\x7b' :: (st.gap (depth + 1) ++ (joinMembers st (depth + 1) (m :: ms) ++
        (st.gap depth ++ ['\x7d']))) := by
  simp [render, enclose, joinMembers, renderMembers]

theorem exists_render_eq_cons (st : Style) (depth : Nat) (v : Json) :
    ∃ c cs, v.render st depth = c :: cs ∧ Draft.isBlank c = false ∧ c ≠ ']' := by
  cases v with
  | number n =>
    obtain ⟨c, cs, front, digit⟩ := exists_toDigits_eq_cons n
    exact ⟨c, cs, front, isBlank_of_isDigit digit, ne_of_isDigit digit rfl⟩
  | string s => exact ⟨'"', _, rfl, rfl, by decide⟩
  | array items =>
    cases items <;> exact ⟨'[', _, rfl, rfl, by decide⟩
  | object members =>
    cases members <;> exact ⟨'\x7b', _, rfl, rfl, by decide⟩

theorem exists_joinItems_eq_cons (st : Style) (depth : Nat) (v : Json) (vs : List Json) :
    ∃ c cs, joinItems st depth (v :: vs) = c :: cs ∧ Draft.isBlank c = false ∧ c ≠ ']' := by
  obtain ⟨c, cs, front, visible, item⟩ := exists_render_eq_cons st depth v
  cases vs with
  | nil => exact ⟨c, cs, by rw [joinItems_singleton, front], visible, item⟩
  | cons w ws =>
    exact ⟨c, _, by rw [joinItems_cons_cons, front, List.cons_append], visible, item⟩

theorem exists_joinMembers_eq_cons (st : Style) (depth : Nat) (m : String × Json)
    (ms : List (String × Json)) : ∃ cs, joinMembers st depth (m :: ms) = '"' :: cs := by
  cases ms with
  | nil => exact ⟨_, joinMembers_singleton st depth m.1 m.2⟩
  | cons n ns => exact ⟨_, joinMembers_cons_cons st depth m.1 m.2 n ns⟩

theorem value_bracket {lead text cs : List Char} {c : Char} (blank : AllBlank lead)
    (front : text = c :: cs) (visible : Draft.isBlank c = false) (item : c ≠ ']') (fuel : Nat)
    (tail : List Char) : Draft.value (fuel + 1) ('[' :: (lead ++ (text ++ tail))) =
      (.array (Draft.items fuel (text ++ tail)).1 (Draft.items fuel (text ++ tail)).2.isSome,
        (Draft.items fuel (text ++ tail)).2) := by
  subst front
  rw [Draft.value, skipBlank_cons rfl]
  simp only [blank.skipBlank_append, List.cons_append, skipBlank_cons visible]
  split
  case h_1 same => exact absurd (List.cons.inj same).1 item
  case h_2 => rfl

theorem value_brace {lead text cs : List Char} {c : Char} (blank : AllBlank lead)
    (front : text = c :: cs) (visible : Draft.isBlank c = false) (item : c ≠ '\x7d') (fuel : Nat)
    (tail : List Char) : Draft.value (fuel + 1) ('\x7b' :: (lead ++ (text ++ tail))) =
      (.object (Draft.members fuel (text ++ tail)).1 (Draft.members fuel (text ++ tail)).2.isSome,
        (Draft.members fuel (text ++ tail)).2) := by
  subst front
  rw [Draft.value, skipBlank_cons rfl]
  simp only [blank.skipBlank_append, List.cons_append, skipBlank_cons visible]
  split
  case h_1 same => exact absurd (List.cons.inj same).1 item
  case h_2 => rfl

/-- A member is read up to its value; what follows the value decides how it goes on. -/
theorem members_member {st : Style} (spacing : st.Spacing) {lead : List Char}
    (blank : AllBlank lead) (key : String) {fuel : Nat} {cs rest : List Char} {d : Draft}
    (read : Draft.value (fuel + 1) cs = (d, some rest)) :
    Draft.members (fuel + 2) (lead ++ (quote key.toList ++ st.colon ++ cs)) =
      match Draft.skipBlank rest with
      | '\x7d' :: rest => ([(.ofString key, d)], some rest)
      | ',' :: rest =>
        ((.ofString key, d) :: (Draft.members (fuel + 1) rest).1,
          (Draft.members (fuel + 1) rest).2)
      | _ => ([(.ofString key, d)], none) := by
  obtain ⟨front, back, colon, blankFront, blankBack⟩ := spacing.colon
  have name := value_quote key fuel (front ++ ':' :: (back ++ cs))
  rw [Draft.ofString] at name
  rw [colon, Draft.members, blank.value_append]
  simp only [List.append_assoc, List.cons_append, name, blankFront.skipBlank_append,
    skipBlank_cons (c := ':') rfl, blankBack.value_append, read]
  rfl

mutual

/-- A written value is read as its draft, up to where it ends. Each value and each list of items
costs one unit of fuel, and at any character of the text at most one of either begins. -/
theorem value_render {st : Style} (spacing : st.Spacing) : (v : Json) →
    ∀ (fuel depth : Nat) {rest : List Char}, 2 * (v.render st depth).length ≤ fuel →
      EndsNumber rest → Draft.value fuel (v.render st depth ++ rest) = (v.draft, some rest)
  | v, 0, depth, rest, enough, _ => by
    obtain ⟨c, cs, front, _⟩ := exists_render_eq_cons st depth v
    simp [front] at enough
  | .number n, fuel + 1, depth, rest, _, ends => value_toDigits n fuel ends
  | .string s, fuel + 1, depth, rest, _, _ => value_quote s fuel rest
  | .array [], fuel + 1, depth, rest, _, _ => by
    change Draft.value (fuel + 1) ('[' :: ']' :: rest) = _
    rw [Draft.value, skipBlank_cons rfl]
    simp only [skipBlank_cons (c := ']') rfl]
    rfl
  | .array (v :: vs), fuel + 1, depth, rest, enough, _ => by
    obtain ⟨c, cs, front, visible, item⟩ := exists_joinItems_eq_cons st (depth + 1) v vs
    rw [render_array_cons] at enough ⊢
    simp only [List.length_cons, List.length_append] at enough
    have read := items_joinItems spacing v vs fuel (depth + 1) rest
      (List.forall_mem_nil _) (spacing.gap depth) (by omega)
    simp only [List.cons_append, List.append_assoc, List.nil_append] at read ⊢
    rw [value_bracket (spacing.gap (depth + 1)) front visible item, read]
    rfl
  | .object [], fuel + 1, depth, rest, _, _ => by
    change Draft.value (fuel + 1) ('\x7b' :: '\x7d' :: rest) = _
    rw [Draft.value, skipBlank_cons rfl]
    simp only [skipBlank_cons (c := '\x7d') rfl]
    rfl
  | .object (m :: ms), fuel + 1, depth, rest, enough, _ => by
    obtain ⟨cs, front⟩ := exists_joinMembers_eq_cons st (depth + 1) m ms
    rw [render_object_cons] at enough ⊢
    simp only [List.length_cons, List.length_append] at enough
    have read := members_joinMembers spacing m ms fuel (depth + 1) rest
      (List.forall_mem_nil _) (spacing.gap depth) (by omega)
    simp only [List.cons_append, List.append_assoc, List.nil_append] at read ⊢
    rw [value_brace (spacing.gap (depth + 1)) front rfl (by decide), read]
    rfl

theorem items_joinItems {st : Style} (spacing : st.Spacing) : (v : Json) → (vs : List Json) →
    ∀ (fuel depth : Nat) {lead tail : List Char} (rest : List Char), AllBlank lead →
      AllBlank tail → 2 * (joinItems st depth (v :: vs)).length < fuel →
      Draft.items fuel (lead ++ (joinItems st depth (v :: vs) ++ (tail ++ ']' :: rest))) =
        (draftAll (v :: vs), some rest)
  | v, [], fuel + 1, depth, lead, tail, rest, blank, blank', enough => by
    rw [joinItems_singleton] at enough ⊢
    have ends := blank'.endsNumber (c := ']') (by decide) rest
    have first := value_render spacing v fuel depth (by omega) ends
    rw [Draft.items, blank.value_append, first]
    simp only [blank'.skipBlank_append, skipBlank_cons (c := ']') rfl]
    rfl
  | v, w :: ws, fuel + 1, depth, lead, tail, rest, blank, blank', enough => by
    rw [joinItems_cons_cons] at enough ⊢
    simp only [List.length_append, List.length_cons] at enough
    have others := items_joinItems spacing w ws fuel depth rest
      (spacing.gap depth) blank' (by omega)
    have ends := endsNumber_comma
      (st.gap depth ++ (joinItems st depth (w :: ws) ++ (tail ++ ']' :: rest)))
    have first := value_render spacing v fuel depth (by omega) ends
    simp only [List.append_assoc, List.cons_append]
    rw [Draft.items, blank.value_append, first]
    simp only [skipBlank_cons (c := ',') rfl, others]
    rfl

theorem members_joinMembers {st : Style} (spacing : st.Spacing) : (m : String × Json) →
    (ms : List (String × Json)) → ∀ (fuel depth : Nat) {lead tail : List Char} (rest : List Char),
      AllBlank lead → AllBlank tail → 2 * (joinMembers st depth (m :: ms)).length < fuel →
      Draft.members fuel (lead ++ (joinMembers st depth (m :: ms) ++ (tail ++ '\x7d' :: rest))) =
        (draftMembers (m :: ms), some rest)
  | m, ms, 1, depth, _, _, _, _, _, enough => by
    obtain ⟨cs, front⟩ := exists_joinMembers_eq_cons st depth m ms
    simp [front] at enough
  | (key, v), [], fuel + 2, depth, lead, tail, rest, blank, blank', enough => by
    rw [joinMembers_singleton] at enough ⊢
    simp only [List.length_append] at enough
    have ends := blank'.endsNumber (c := '\x7d') (by decide) rest
    have first := value_render spacing v (fuel + 1) depth (by omega) ends
    rw [List.append_assoc (_ ++ st.colon), members_member spacing blank key first]
    simp only [blank'.skipBlank_append, skipBlank_cons (c := '\x7d') rfl]
    rfl
  | (key, v), m :: ms, fuel + 2, depth, lead, tail, rest, blank, blank', enough => by
    rw [joinMembers_cons_cons] at enough ⊢
    simp only [List.length_append, List.length_cons] at enough
    have others := members_joinMembers spacing m ms (fuel + 1) depth rest
      (spacing.gap depth) blank' (by omega)
    have ends := endsNumber_comma
      (st.gap depth ++ (joinMembers st depth (m :: ms) ++ (tail ++ '\x7d' :: rest)))
    have first := value_render spacing v (fuel + 1) depth (by omega) ends
    have read := members_member spacing blank key first
    simp only [List.append_assoc, List.cons_append] at read ⊢
    rw [read]
    simp only [skipBlank_cons (c := ',') rfl, others]
    rfl

end

/-! ## Both styles -/

/-- Blank ends a number at the end of a text as it does before a comma. -/
theorem AllBlank.endsNumber_end {tail : List Char} (blank : AllBlank tail) : EndsNumber tail := by
  have ends := blank.endsNumber (c := ',') (by decide) []
  cases tail with
  | nil => exact fun _ none => by cases none
  | cons b tail => exact fun c first => ends c first

/-- A text that holds one written value, and after it nothing but blank, is read up to the
blank. -/
theorem ofText_render_append {st : Style} (spacing : st.Spacing) (v : Json) {tail : List Char}
    (blank : AllBlank tail) : Draft.ofText (v.render st 0 ++ tail) = (v.draft, some tail) := by
  have enough : 2 * (v.render st 0).length ≤ 2 * (v.render st 0 ++ tail).length + 2 := by
    rw [List.length_append]
    omega
  exact value_render spacing v _ 0 enough blank.endsNumber_end

/-- A text that holds one written value is read to its end. -/
theorem ofText_render {st : Style} (spacing : st.Spacing) (v : Json) :
    Draft.ofText (v.render st 0) = (v.draft, some []) := by
  have read := ofText_render_append spacing v (List.forall_mem_nil _)
  rwa [List.append_nil] at read

theorem ofText_compact (v : Json) : Draft.ofText v.compact.toList = (v.draft, some []) := by
  rw [compact, String.toList_ofList]
  exact ofText_render Style.spacing_compact v

theorem ofText_pretty (v : Json) : Draft.ofText v.pretty.toList = (v.draft, some []) := by
  rw [pretty, String.toList_ofList]
  exact ofText_render Style.spacing_indented v

end FolGraph.Json
