import FolGraph.Proofs.Toml.Keys
import FolGraph.Toml.Document

/-!
# Documents as they are read

No table of a document has two entries with one key, and every integer has 64 bits
(`document?_sound`). A table under construction is sound if the value it stands for is; each way to
extend it keeps this, and so does every line of a document.
-/

namespace FolGraph.Toml

/-- A value as documents hold it. -/
inductive Value.Sound : Value → Prop
  | string (s : String) : Sound (.string s)
  | integer {i : Int} (low : -Int.pow 2 63 ≤ i) (high : i < Int.pow 2 63) : Sound (.integer i)
  | float (bits : UInt64) : Sound (.float bits)
  | boolean (b : Bool) : Sound (.boolean b)
  | datetime : Sound .datetime
  | array {items : List Value} (items_sound : ∀ v ∈ items, Sound v) : Sound (.array items)
  | table {entries : List (String × Value)} (distinct : (entries.map Prod.fst).Nodup)
      (entries_sound : ∀ e ∈ entries, Sound e.2) : Sound (.table entries)

section
variable {es : List (String × Value)} {vs : List Value}

theorem Value.Sound.distinct (sound : (Value.table es).Sound) :
    (es.map Prod.fst).Nodup := by
  cases sound with
  | table distinct _ => exact distinct

theorem Value.Sound.entries (sound : (Value.table es).Sound) : ∀ e ∈ es, e.2.Sound := by
  cases sound with
  | table _ entries_sound => exact entries_sound

theorem Value.Sound.items (sound : (Value.array vs).Sound) : ∀ v ∈ vs, v.Sound := by
  cases sound with
  | array items_sound => exact items_sound

end

theorem Item.toEntries_eq_map (es : Entries) :
    toEntries es = es.map fun e => (e.1, e.2.toValue) := by
  induction es with
  | nil => rfl
  | cons e es ih => rw [toEntries, ih, List.map_cons]

theorem Item.toTables_eq_map (elements : List Entries) :
    toTables elements = elements.map fun es => .table (toEntries es) := by
  induction elements with
  | nil => rfl
  | cons es elements ih => rw [toTables, ih, List.map_cons]

namespace Entries

/-- The value of a table under construction is sound. -/
def Sound (es : Entries) : Prop := (Value.table (Item.toEntries es)).Sound

section
variable {es es' sub : Entries} {elements : List Entries} {key : String} {item : Item}

/-! ## Extending a table -/

theorem sound_iff : es.Sound ↔ (es.map Prod.fst).Nodup ∧ ∀ e ∈ es, e.2.toValue.Sound := by
  have keys : (Item.toEntries es).map Prod.fst = es.map Prod.fst := by
    rw [Item.toEntries_eq_map, List.map_map]
    rfl
  have below : (∀ e ∈ Item.toEntries es, e.2.Sound) ↔ ∀ e ∈ es, e.2.toValue.Sound := by
    rw [Item.toEntries_eq_map, List.forall_mem_map]
  constructor
  · intro sound
    exact ⟨keys ▸ sound.distinct, below.mp sound.entries⟩
  · rintro ⟨distinct, items⟩
    exact .table (keys ▸ distinct) (below.mpr items)

theorem sound_tables_iff : (Item.tables elements).toValue.Sound ↔ ∀ es ∈ elements, es.Sound := by
  rw [Item.toValue, Item.toTables_eq_map]
  constructor
  · intro sound es mem
    exact sound.items _ (List.mem_map_of_mem mem)
  · intro all
    exact .array (List.forall_mem_map.mpr all)

theorem sound_nil : Sound [] := sound_iff.mpr ⟨List.nodup_nil, List.forall_mem_nil _⟩

theorem Sound.find? (sound : es.Sound) (found : es.find? key = some item) :
    item.toValue.Sound :=
  (sound_iff.mp sound).2 (key, item) (mem_of_lookup found)

/-- An entry with a new key may be added. -/
theorem Sound.append (sound : es.Sound) (new : key ∉ es.map Prod.fst)
    (added : item.toValue.Sound) : Sound (es ++ [(key, item)]) := by
  obtain ⟨distinct, items⟩ := sound_iff.mp sound
  refine sound_iff.mpr
    ⟨?_, List.forall_mem_append.mpr ⟨items, List.forall_mem_singleton.mpr added⟩⟩
  rw [List.map_append]
  exact distinct.append (List.nodup_singleton key) (by simpa using new)

theorem Sound.replace (sound : es.Sound) (changed : item.toValue.Sound) :
    Sound (es.replace key item) := by
  obtain ⟨distinct, items⟩ := sound_iff.mp sound
  have keys : (es.replace key item).map Prod.fst = es.map Prod.fst := by
    rw [Entries.replace, List.map_map]
    refine List.map_congr_left fun e _ => ?_
    by_cases same : e.1 = key <;> simp [same]
  refine sound_iff.mpr ⟨keys ▸ distinct, List.forall_mem_map.mpr fun e mem => ?_⟩
  by_cases same : e.1 = key
  · simpa [same] using changed
  · simpa [same] using items e mem

theorem Sound.remove (sound : es.Sound) : Sound (es.remove key) := by
  obtain ⟨distinct, items⟩ := sound_iff.mp sound
  refine sound_iff.mpr ⟨distinct.sublist (List.filter_sublist.map _), fun e mem => ?_⟩
  exact items e (List.mem_filter.mp mem).1

theorem notMem_keys_remove : key ∉ (es.remove key).map Prod.fst := by
  intro mem
  obtain ⟨e, there, rfl⟩ := List.mem_map.mp mem
  simpa using (List.mem_filter.mp there).2

/-! ## Extending a table below -/

/-- What keeps a table sound keeps the tables above it sound. -/
theorem edit_sound {missing origin : Origin} {change : Origin → Entries → Option Entries}
    {path : List String}
    (keeps : ∀ {o : Origin} {es es' : Entries}, es.Sound → change o es = some es' → es'.Sound)
    (sound : es.Sound) (edited : edit missing change origin path es = some es') : es'.Sound := by
  -- The next table on the path is missing, or there, or the last of several.
  induction path generalizing origin es es' with
  | nil => exact keeps sound edited
  | cons key path ih =>
    rw [edit] at edited
    cases found : es.find? key with
    | none =>
      obtain ⟨sub, done, rfl⟩ := by simpa [found, Option.bind_eq_some_iff] using edited
      exact sound.append (lookup_eq_none_iff.mp found) (ih sound_nil done)
    | some item =>
      have below := sound.find? found
      cases item with
      | value v => simp [found] at edited
      | table o sub =>
        obtain ⟨-, sub', done, rfl⟩ := by simpa [found, Option.bind_eq_some_iff] using edited
        exact sound.replace (ih below done)
      | tables elements =>
        obtain ⟨last, is_last, last', done, rfl⟩ := by
          simpa [found, Option.bind_eq_some_iff] using edited
        rw [sound_tables_iff] at below
        refine sound.replace (sound_tables_iff.mpr (List.forall_mem_append.mpr ⟨?_, ?_⟩))
        · exact fun es mem => below es (List.dropLast_sublist _ |>.mem mem)
        · exact List.forall_mem_singleton.mpr (ih (below last (List.mem_of_getLast? is_last)) done)

theorem insert_sound {path : List String} {v : Value} (sound : es.Sound) (value : v.Sound)
    (inserted : es.insert path v = some es') : es'.Sound := by
  obtain ⟨name, -, edited⟩ := Option.bind_eq_some_iff.mp inserted
  refine edit_sound ?_ sound edited
  intro o es es' sound changed
  cases found : es.find? name with
  | none =>
    obtain ⟨-, rfl⟩ := by simpa [found] using changed
    exact sound.append (lookup_eq_none_iff.mp found) value
  | some item => simp [found] at changed

theorem insertBelow_sound {header path : List String} {v : Value} (sound : es.Sound)
    (value : v.Sound) (inserted : es.insertBelow header path v = some es') : es'.Sound :=
  edit_sound (fun sound changed => insert_sound sound value changed) sound inserted

theorem beginTable_sound {path : List String} (sound : es.Sound)
    (begun : es.beginTable path = some es') : es'.Sound := by
  obtain ⟨name, -, edited⟩ := Option.bind_eq_some_iff.mp begun
  refine edit_sound ?_ sound edited
  intro o es es' sound changed
  split at changed
  · next missing =>
    cases changed
    exact sound.append (lookup_eq_none_iff.mp missing) sound_nil
  · next sub found =>
    cases changed
    have below : Entries.Sound sub := sound.find? found
    exact sound.remove.append notMem_keys_remove below
  · cases changed

theorem beginElement_sound {path : List String} (sound : es.Sound)
    (begun : es.beginElement path = some es') : es'.Sound := by
  obtain ⟨name, -, edited⟩ := Option.bind_eq_some_iff.mp begun
  refine edit_sound ?_ sound edited
  intro o es es' sound changed
  split at changed
  · next missing =>
    cases changed
    exact sound.append (lookup_eq_none_iff.mp missing)
      (sound_tables_iff.mpr (List.forall_mem_singleton.mpr sound_nil))
  · next elements found =>
    cases changed
    refine sound.replace (sound_tables_iff.mpr (List.forall_mem_append.mpr ⟨?_, ?_⟩))
    · exact sound_tables_iff.mp (sound.find? found)
    · exact List.forall_mem_singleton.mpr sound_nil
  · cases changed

end

end Entries

/-! ## Scalars -/

section
variable {v : Value} {cs rest : List Char}

theorem inRange?_sound {i : Int} (read : inRange? i = some v) : v.Sound := by
  rw [inRange?, Option.ite_none_right_eq_some, Bool.and_eq_true, decide_eq_true_eq,
    decide_eq_true_eq] at read
  obtain ⟨⟨low, high⟩, ⟨⟩⟩ := read
  exact .integer low high

theorem based?_sound {base : Nat} (read : based? base cs = some (v, rest)) : v.Sound := by
  unfold based? at read
  obtain ⟨_, -, read⟩ := Option.bind_eq_some_iff.mp read
  obtain ⟨w, ranged, read⟩ := Option.bind_eq_some_iff.mp read
  cases read
  exact inRange?_sound ranged

theorem integer?_sound (read : integer? cs = some (v, rest)) : v.Sound := by
  unfold integer? at read
  split at read
  · exact based?_sound read
  · exact based?_sound read
  · exact based?_sound read
  · obtain ⟨negative, -, read⟩ := Option.bind_eq_some_iff.mp read
    obtain ⟨w, ranged, read⟩ := Option.bind_eq_some_iff.mp read
    cases read
    exact inRange?_sound ranged

theorem special?_sound (read : special? cs = some (v, rest)) : v.Sound := by
  unfold special? at read
  split at read
  split at read
  · cases read
    exact .float _
  · cases read
    exact .float _
  · cases read

theorem decimal?_sound (read : decimal? cs = some (v, rest)) : v.Sound := by
  have last {refused : Bool} {f : Float} {tail : List Char}
      (read : (if refused then none else some (.float f.toBits, tail)) = some (v, rest)) :
      v.Sound := by
    split at read
    · cases read
    · cases read
      exact .float _
  unfold decimal? at read
  obtain ⟨⟨negative, whole, tail⟩, -, read⟩ := Option.bind_eq_some_iff.mp read
  dsimp only at read
  split at read
  · obtain ⟨_, -, read⟩ := Option.bind_eq_some_iff.mp read
    obtain ⟨_, -, read⟩ := Option.bind_eq_some_iff.mp read
    exact last read
  · obtain ⟨_, -, read⟩ := Option.bind_eq_some_iff.mp read
    exact last read
  · obtain ⟨_, -, read⟩ := Option.bind_eq_some_iff.mp read
    exact last read
  · cases read

theorem datetime?_sound (read : datetime? cs = some (v, rest)) : v.Sound := by
  unfold datetime? at read
  split at read <;>
  · obtain ⟨_, -, read⟩ := Option.bind_eq_some_iff.mp read
    cases read
    exact .datetime

theorem number?_sound (read : number? cs = some (v, rest)) : v.Sound := by
  simp only [number?, Option.orElse_eq_orElse, Option.orElse_eq_or, Option.or_eq_some_iff] at read
  obtain read | ⟨-, read | ⟨-, read | ⟨-, read⟩⟩⟩ := read
  · exact datetime?_sound read
  · exact decimal?_sound read
  · exact special?_sound read
  · exact integer?_sound read

theorem word?_sound {word : List Char} {w : Value} (sound : w.Sound)
    (read : word? word w cs = some (v, rest)) : v.Sound := by
  unfold word? at read
  split at read
  · cases read
    exact sound
  · cases read

end

/-! ## Values -/

mutual

theorem value?_sound {fuel depth : Nat} {cs rest : List Char} {v : Value}
    (read : value? fuel depth cs = some (v, rest)) : v.Sound := by
  match fuel, cs with
  | 0, _ => cases read
  | _ + 1, [] => cases read
  | fuel + 1, c :: _ =>
    unfold value? at read
    split at read
    · obtain ⟨_, -, read⟩ := Option.bind_eq_some_iff.mp read
      cases read
      exact .string _
    split at read
    · cases depth with
      | zero => cases read
      | succ depth =>
        obtain ⟨⟨vs, rest⟩, items, read⟩ := Option.bind_eq_some_iff.mp read
        cases read
        exact .array (items?_sound items)
    split at read
    · cases depth with
      | zero => cases read
      | succ depth =>
        dsimp only at read
        split at read
        · cases read
          exact Entries.sound_nil
        · obtain ⟨⟨es, rest⟩, members, read⟩ := Option.bind_eq_some_iff.mp read
          cases read
          exact members?_sound Entries.sound_nil members
    split at read
    · exact word?_sound (.boolean _) read
    split at read
    · exact word?_sound (.boolean _) read
    split at read
    · exact special?_sound read
    · exact number?_sound read

theorem items?_sound {fuel depth : Nat} {cs rest : List Char} {vs : List Value}
    (read : items? fuel depth cs = some (vs, rest)) : ∀ v ∈ vs, v.Sound := by
  match fuel with
  | 0 => cases read
  | fuel + 1 =>
    rw [items?] at read
    split at read
    · cases read
      exact List.forall_mem_nil _
    obtain ⟨⟨v, rest⟩, first, read⟩ := Option.bind_eq_some_iff.mp read
    have head := value?_sound first
    dsimp only at read
    split at read
    · cases read
      exact List.forall_mem_singleton.mpr head
    · obtain ⟨⟨vs, rest⟩, others, read⟩ := Option.bind_eq_some_iff.mp read
      cases read
      exact List.forall_mem_cons.mpr ⟨head, items?_sound others⟩
    · cases read

theorem members?_sound {fuel depth : Nat} {cs rest : List Char} {es es' : Entries}
    (sound : es.Sound) (read : members? fuel depth es cs = some (es', rest)) : es'.Sound := by
  match fuel with
  | 0 => cases read
  | fuel + 1 =>
    rw [members?] at read
    obtain ⟨⟨key, _⟩, -, read⟩ := Option.bind_eq_some_iff.mp read
    obtain ⟨_, -, read⟩ := Option.bind_eq_some_iff.mp read
    obtain ⟨⟨v, _⟩, member, read⟩ := Option.bind_eq_some_iff.mp read
    obtain ⟨extended, inserted, read⟩ := Option.bind_eq_some_iff.mp read
    have kept := Entries.insert_sound sound (value?_sound member) inserted
    split at read
    · cases read
      exact kept
    · exact members?_sound kept read
    · cases read

end

/-! ## Lines -/

section
variable {st st' : State} {cs rest : List Char}

theorem keyLine?_sound (sound : st.entries.Sound) (read : keyLine? st cs = some (st', rest)) :
    st'.entries.Sound := by
  unfold keyLine? at read
  obtain ⟨⟨key, _⟩, -, read⟩ := Option.bind_eq_some_iff.mp read
  obtain ⟨_, -, read⟩ := Option.bind_eq_some_iff.mp read
  obtain ⟨⟨v, _⟩, value, read⟩ := Option.bind_eq_some_iff.mp read
  obtain ⟨_, -, read⟩ := Option.bind_eq_some_iff.mp read
  obtain ⟨extended, inserted, read⟩ := Option.bind_eq_some_iff.mp read
  cases read
  exact Entries.insertBelow_sound sound (value?_sound value) inserted

theorem headerLine?_sound (sound : st.entries.Sound)
    (read : headerLine? st cs = some (st', rest)) : st'.entries.Sound := by
  unfold headerLine? at read
  split at read
  · obtain ⟨⟨key, _⟩, -, read⟩ := Option.bind_eq_some_iff.mp read
    obtain ⟨_, -, read⟩ := Option.bind_eq_some_iff.mp read
    obtain ⟨_, -, read⟩ := Option.bind_eq_some_iff.mp read
    obtain ⟨_, -, read⟩ := Option.bind_eq_some_iff.mp read
    obtain ⟨extended, begun, read⟩ := Option.bind_eq_some_iff.mp read
    cases read
    exact Entries.beginElement_sound sound begun
  · obtain ⟨⟨key, _⟩, -, read⟩ := Option.bind_eq_some_iff.mp read
    obtain ⟨_, -, read⟩ := Option.bind_eq_some_iff.mp read
    obtain ⟨_, -, read⟩ := Option.bind_eq_some_iff.mp read
    obtain ⟨extended, begun, read⟩ := Option.bind_eq_some_iff.mp read
    cases read
    exact Entries.beginTable_sound sound begun

theorem lines?_sound {fuel : Nat} {es : Entries} (sound : st.entries.Sound)
    (read : lines? fuel st cs = some es) : es.Sound := by
  induction fuel generalizing st cs with
  | zero => cases read
  | succ fuel ih =>
    rw [lines?] at read
    split at read
    · cases read
      exact sound
    · obtain ⟨⟨st', rest⟩, line, read⟩ := Option.bind_eq_some_iff.mp read
      exact ih (headerLine?_sound sound line) read
    · split at read
      · obtain ⟨rest, -, read⟩ := Option.bind_eq_some_iff.mp read
        exact ih sound read
      · obtain ⟨⟨st', rest⟩, line, read⟩ := Option.bind_eq_some_iff.mp read
        exact ih (keyLine?_sound sound line) read

end

theorem document?_sound {text : String} {entries : List (String × Value)}
    (read : document? text = some entries) : (Value.table entries).Sound := by
  obtain ⟨es, lines, rfl⟩ := Option.map_eq_some_iff.mp read
  exact lines?_sound Entries.sound_nil lines

end FolGraph.Toml
