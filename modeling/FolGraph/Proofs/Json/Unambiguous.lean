import FolGraph.Proofs.Json.Written

/-!
# Texts tell values apart

What is read of a written value says which value it is, so no two values have the same text
(`compact_injective`).
-/

namespace FolGraph.Json

theorem Numeral.ofNat_injective {m n : Nat} (h : Numeral.ofNat m = Numeral.ofNat n) : m = n := by
  have digits : digitValues m = digitValues n := congrArg Numeral.whole h
  rw [← foldl_digitValues m, digits, foldl_digitValues]

theorem Draft.ofString_injective {s t : String} (h : Draft.ofString s = Draft.ofString t) :
    s = t := by
  have text := congrArg Draft.text h
  rw [text_ofString, text_ofString] at text
  exact Except.ok.inj text

mutual

theorem draft_injective : {v w : Json} → v.draft = w.draft → v = w
  | .number m, .number n, h => congrArg number (Numeral.ofNat_injective (Draft.number.inj h))
  | .string s, .string t, h => congrArg string (Draft.ofString_injective h)
  | .array vs, .array ws, h => congrArg array (draftAll_injective (Draft.array.inj h).1)
  | .object ms, .object ns, h => congrArg object (draftMembers_injective (Draft.object.inj h).1)
  | .number _, .string _, h | .number _, .array _, h | .number _, .object _, h
  | .string _, .number _, h | .string _, .array _, h | .string _, .object _, h
  | .array _, .number _, h | .array _, .string _, h | .array _, .object _, h
  | .object _, .number _, h | .object _, .string _, h | .object _, .array _, h => by
    simp [draft, Draft.ofString] at h

theorem draftAll_injective : {vs ws : List Json} → draftAll vs = draftAll ws → vs = ws
  | [], [], _ => rfl
  | v :: vs, w :: ws, h => by
    obtain ⟨first, rest⟩ := List.cons.inj h
    rw [draft_injective first, draftAll_injective rest]
  | [], _ :: _, h | _ :: _, [], h => by simp [draftAll] at h

theorem draftMembers_injective :
    {ms ns : List (String × Json)} → draftMembers ms = draftMembers ns → ms = ns
  | [], [], _ => rfl
  | (key, v) :: ms, (key', w) :: ns, h => by
    obtain ⟨first, rest⟩ := List.cons.inj h
    obtain ⟨name, value⟩ := Prod.mk.inj first
    rw [Draft.ofString_injective name, draft_injective value, draftMembers_injective rest]
  | [], _ :: _, h | _ :: _, [], h => by simp [draftMembers] at h

end

theorem compact_injective {v w : Json} (h : v.compact = w.compact) : v = w := by
  have read := ofText_compact v
  rw [h, ofText_compact w] at read
  exact (draft_injective (Prod.mk.inj read).1).symm

end FolGraph.Json
