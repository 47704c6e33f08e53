/-
A platform the development can run on: lowercasing of ASCII, and values printed
as JSON texts and read back from them.
-/
import RlnGifter.JsonText

namespace RlnGifter

namespace Json

mutual

theorem eraseFloats_idem : ∀ j : Json, j.eraseFloats.eraseFloats = j.eraseFloats
  | .null => rfl
  | .bool _ => rfl
  | .number (.posInt _) => rfl
  | .number (.negInt _) => rfl
  | .number (.float _) => rfl
  | .string _ => rfl
  | .array items => by simp [eraseFloats, eraseFloatsItems_idem items]
  | .object fields => by simp [eraseFloats, eraseFloatsFields_idem fields]

theorem eraseFloatsItems_idem : ∀ items : List Json,
    eraseFloatsItems (eraseFloatsItems items) = eraseFloatsItems items
  | [] => rfl
  | item :: items => by
      simp [eraseFloatsItems, eraseFloats_idem item, eraseFloatsItems_idem items]

theorem eraseFloatsFields_idem : ∀ fields : List (String × Json),
    eraseFloatsFields (eraseFloatsFields fields) = eraseFloatsFields fields
  | [] => rfl
  | (key, item) :: fields => by
      simp [eraseFloatsFields, eraseFloats_idem item, eraseFloatsFields_idem fields]

end

mutual

theorem eraseFloats_of_plain : ∀ {j : Json} {depth : Nat}, j.plain depth = true →
    j.eraseFloats = j
  | .null, _, _ => rfl
  | .bool _, _, _ => rfl
  | .number (.posInt _), _, _ => rfl
  | .number (.negInt _), _, _ => rfl
  | .number (.float _), _, h => by simp [plain] at h
  | .string _, _, _ => rfl
  | .array items, 0, h => by simp [plain] at h
  | .array items, depth + 1, h => by
      rw [plain] at h
      rw [eraseFloats, eraseFloatsItems_of_plain h]
  | .object fields, 0, h => by simp [plain] at h
  | .object fields, depth + 1, h => by
      rw [plain] at h
      rw [eraseFloats, eraseFloatsFields_of_plain h]

theorem eraseFloatsItems_of_plain : ∀ {items : List Json} {depth : Nat},
    plainItems depth items = true → eraseFloatsItems items = items
  | [], _, _ => rfl
  | item :: items, depth, h => by
      rw [plainItems, Bool.and_eq_true] at h
      rw [eraseFloatsItems, eraseFloats_of_plain h.1, eraseFloatsItems_of_plain h.2]

theorem eraseFloatsFields_of_plain : ∀ {fields : List (String × Json)} {depth : Nat},
    plainFields depth fields = true → eraseFloatsFields fields = fields
  | [], _, _ => rfl
  | (key, item) :: fields, depth, h => by
      rw [plainFields, Bool.and_eq_true] at h
      rw [eraseFloatsFields, eraseFloats_of_plain h.1, eraseFloatsFields_of_plain h.2]

end

theorem eraseFloatsFields_eq_map (fields : List (String × Json)) :
    eraseFloatsFields fields = fields.map fun field => (field.1, field.2.eraseFloats) := by
  induction fields with
  | nil => rfl
  | cons field fields ih =>
      obtain ⟨key, item⟩ := field
      rw [eraseFloatsFields, ih]
      rfl

theorem eraseFloatsItems_eq_map (items : List Json) :
    eraseFloatsItems items = items.map eraseFloats := by
  induction items with
  | nil => rfl
  | cons item items ih =>
      rw [eraseFloatsItems, ih]
      rfl

mutual

theorem canonical_eraseFloats : ∀ {j : Json}, j.canonical = true →
    j.eraseFloats.canonical = true
  | .null, _ => rfl
  | .bool _, _ => rfl
  | .number (.posInt _), _ => rfl
  | .number (.negInt _), _ => rfl
  | .number (.float _), _ => rfl
  | .string _, _ => rfl
  | .array items, h => by
      rw [canonical] at h
      rw [eraseFloats, canonical]
      exact canonicalItems_eraseFloats h
  | .object fields, h => by
      rw [canonical, Bool.and_eq_true, decide_eq_true_eq] at h
      rw [eraseFloats, canonical, Bool.and_eq_true, decide_eq_true_eq]
      refine ⟨?_, canonicalFields_eraseFloats h.2⟩
      rw [SortedKeys, eraseFloatsFields_eq_map, List.pairwise_map]
      exact h.1

theorem canonicalItems_eraseFloats : ∀ {items : List Json}, canonicalItems items = true →
    canonicalItems (eraseFloatsItems items) = true
  | [], _ => rfl
  | item :: items, h => by
      rw [canonicalItems, Bool.and_eq_true] at h
      rw [eraseFloatsItems, canonicalItems, canonical_eraseFloats h.1,
        canonicalItems_eraseFloats h.2]
      rfl

theorem canonicalFields_eraseFloats : ∀ {fields : List (String × Json)},
    canonicalFields fields = true → canonicalFields (eraseFloatsFields fields) = true
  | [], _ => rfl
  | (key, item) :: fields, h => by
      rw [canonicalFields, Bool.and_eq_true] at h
      rw [eraseFloatsFields, canonicalFields, canonical_eraseFloats h.1,
        canonicalFields_eraseFloats h.2]
      rfl

end

end Json

namespace Value

theorem insertField_last {key : String} {item : Json} {fields : List (String × Json)}
    (h : ∀ field ∈ fields, field.1 < key) :
    insertField key item fields = fields ++ [(key, item)] := by
  induction fields with
  | nil => rfl
  | cons head fields ih =>
      obtain ⟨key', item'⟩ := head
      have hlt : key' < key := h (key', item') List.mem_cons_self
      rw [insertField, if_neg (lt_asymm hlt), if_neg (ne_of_gt hlt),
        ih fun field hfield => h field (List.mem_cons_of_mem _ hfield)]
      rfl

/-- Inserting entries in key order lists them. -/
theorem insertFields_sorted {acc fields : List (String × Json)}
    (h : Json.SortedKeys (acc ++ fields)) : insertFields acc fields = acc ++ fields := by
  induction fields generalizing acc with
  | nil => simp [insertFields]
  | cons field fields ih =>
      have hlast : ∀ other ∈ acc, other.1 < field.1 := fun other hother =>
        (List.pairwise_append.mp h).2.2 other hother field List.mem_cons_self
      have hsorted : Json.SortedKeys ((acc ++ [field]) ++ fields) := by
        rw [List.append_assoc]
        exact h
      calc insertFields acc (field :: fields)
          = insertFields (insertField field.1 field.2 acc) fields := rfl
        _ = insertFields (acc ++ [field]) fields := by rw [insertField_last hlast]
        _ = acc ++ field :: fields := by rw [ih hsorted, List.append_assoc]; rfl

theorem eraseFloatsFields_insertField (key : String) (item : Json)
    (fields : List (String × Json)) :
    Json.eraseFloatsFields (insertField key item fields) =
      insertField key item.eraseFloats (Json.eraseFloatsFields fields) := by
  induction fields with
  | nil => rfl
  | cons head fields ih =>
      obtain ⟨key', item'⟩ := head
      simp only [insertField, Json.eraseFloatsFields]
      split
      · rfl
      · split
        · rfl
        · rw [Json.eraseFloatsFields, ih]

theorem eraseFloatsFields_insertFields (acc fields : List (String × Json)) :
    Json.eraseFloatsFields (insertFields acc fields) =
      insertFields (Json.eraseFloatsFields acc) (Json.eraseFloatsFields fields) := by
  induction fields generalizing acc with
  | nil => rfl
  | cons field fields ih =>
      obtain ⟨key, item⟩ := field
      calc Json.eraseFloatsFields (insertFields acc ((key, item) :: fields))
          = Json.eraseFloatsFields (insertFields (insertField key item acc) fields) := rfl
        _ = insertFields (insertField key item.eraseFloats (Json.eraseFloatsFields acc))
              (Json.eraseFloatsFields fields) := by
            rw [ih, eraseFloatsFields_insertField]

mutual

/-- The value a tree stands for, with the entries of each object inserted in the
order they are listed. -/
def ofJson : Json → Value
  | .null => null
  | .bool b => bool b
  | .number n => number n
  | .string s => string s
  | .array items => array (ofItems items)
  | .object fields => object (ofFields fields)

def ofItems : List Json → List Value
  | [] => []
  | item :: items => ofJson item :: ofItems items

def ofFields : List (String × Json) → List (String × Value)
  | [] => []
  | (key, item) :: fields => (key, ofJson item) :: ofFields fields

end

mutual

theorem tree_ofJson : ∀ {j : Json}, j.canonical = true → (ofJson j).tree = j
  | .null, _ => rfl
  | .bool _, _ => rfl
  | .number _, _ => rfl
  | .string _, _ => rfl
  | .array items, h => by
      rw [Json.canonical] at h
      rw [ofJson]
      exact congrArg Json.array (tree_ofItems h)
  | .object fields, h => by
      rw [Json.canonical, Bool.and_eq_true, decide_eq_true_eq] at h
      rw [ofJson, tree_object, tree_ofFields h.2]
      exact congrArg Json.object (insertFields_sorted h.1)

theorem tree_ofItems : ∀ {items : List Json}, Json.canonicalItems items = true →
    (ofItems items).map tree = items
  | [], _ => rfl
  | item :: items, h => by
      rw [Json.canonicalItems, Bool.and_eq_true] at h
      rw [ofItems, List.map_cons, tree_ofJson h.1, tree_ofItems h.2]

theorem tree_ofFields : ∀ {fields : List (String × Json)},
    Json.canonicalFields fields = true →
      (ofFields fields).map (fun entry => (entry.1, entry.2.tree)) = fields
  | [], _ => rfl
  | (key, item) :: fields, h => by
      rw [Json.canonicalFields, Bool.and_eq_true] at h
      rw [ofFields, List.map_cons, tree_ofJson h.1, tree_ofFields h.2]

end

end Value

/-- What was read with its doubles erased reads back. -/
theorem readsBack_of_erased {result : Except String Value} {v w : Value}
    (hresult : result = .ok w) (hw : w.tree = v.tree.eraseFloats) : ReadsBack result v := by
  constructor
  · intro hplain
    rw [hresult]
    congr 1
    ext1
    rw [hw, Json.eraseFloats_of_plain hplain]
  · intro w' hw'
    cases hresult.symm.trans hw'
    rw [hw, Json.eraseFloats_idem]

namespace Platform

open JsonText

def toText (v : Value) : String :=
  String.ofList (render v.tree)

/-- A struct is printed with its fields in their order. -/
def structText (entries : List (String × Value)) : String :=
  String.ofList (render (.object (entries.map fun entry => (entry.1, entry.2.tree))))

def fromStr (text : String) : Except String Value :=
  match readText text.toList with
  | some j => .ok (Value.ofJson j)
  | none => .error "expected value"

/-- Reading at a struct refuses a field that is given twice. -/
def structFromStr (names : List String) (text : String) : Except String Value :=
  match readText text.toList with
  | some (.object fields) =>
      if ((fields.map Prod.fst).filter (· ∈ names)).Nodup then
        .ok (Value.ofJson (.object fields))
      else .error "duplicate field"
  | some j => .ok (Value.ofJson j)
  | none => .error "expected value"

theorem fromStr_toText (v : Value) :
    ∃ w, fromStr (toText v) = .ok w ∧ w.tree = v.tree.eraseFloats := by
  refine ⟨Value.ofJson v.tree.eraseFloats, ?_,
    Value.tree_ofJson (Json.canonical_eraseFloats v.canonical)⟩
  rw [fromStr, toText, String.toList_ofList, readText_render]

theorem struct_reads (entries : List (String × Value)) :
    ∃ fields, readText (structText entries).toList = some (.object fields) ∧
      fields.map Prod.fst = entries.map Prod.fst ∧
      (Value.ofJson (.object fields)).tree = (Value.object entries).tree.eraseFloats := by
  have hfields : Json.eraseFloatsFields (entries.map fun entry => (entry.1, entry.2.tree)) =
      entries.map fun entry => (entry.1, entry.2.tree.eraseFloats) := by
    rw [Json.eraseFloatsFields_eq_map, List.map_map]
    rfl
  have hcanonical : Json.canonicalFields
      (entries.map fun entry => (entry.1, entry.2.tree.eraseFloats)) = true := by
    apply Json.canonicalFields_of_forall
    intro field hfield
    obtain ⟨entry, -, rfl⟩ := List.mem_map.mp hfield
    exact Json.canonical_eraseFloats entry.2.canonical
  refine ⟨entries.map fun entry => (entry.1, entry.2.tree.eraseFloats), ?_, ?_, ?_⟩
  · rw [structText, String.toList_ofList, readText_render, Json.eraseFloats, hfields]
  · rw [List.map_map]
    rfl
  · rw [Value.ofJson, Value.tree_object, Value.tree_ofFields hcanonical, Value.tree_object,
      Json.eraseFloats, Value.eraseFloatsFields_insertFields, hfields]
    rfl

scoped instance serdeJson : SerdeJson where
  toText := toText
  structText entries := .ok (structText entries)
  fromStr := fromStr
  structFromStr := structFromStr
  shapeError name _ := "invalid value for " ++ name
  toText_reads v := by
    obtain ⟨w, hread, hw⟩ := fromStr_toText v
    exact readsBack_of_erased hread hw
  structText_reads entries hnodup := by
    obtain ⟨fields, hread, hnames, hw⟩ := struct_reads entries
    refine ⟨_, rfl, readsBack_of_erased (by rw [fromStr, hread]) hw, ?_⟩
    intro names
    refine readsBack_of_erased ?_ hw
    rw [structFromStr, hread]
    exact if_pos (hnames ▸ hnodup.filter _)
  toText_ne_empty v hempty := by
    have hchars : (toText v).toList = [] := congrArg String.toList hempty
    obtain ⟨c, cs, hrender, -⟩ := render_head v.tree
    rw [toText, String.toList_ofList, hrender] at hchars
    cases hchars
  nul_not_mem_toText v hmem := by
    rw [toText, String.toList_ofList] at hmem
    exact absurd (printable_render v.tree _ hmem) (by decide)

theorem mem_ofFields {key : String} {v : Value} {fields : List (String × Json)}
    (h : (key, v) ∈ Value.ofFields fields) :
    ∃ item, (key, item) ∈ fields ∧ v = Value.ofJson item := by
  induction fields with
  | nil => cases h
  | cons head fields ih =>
      obtain ⟨key', item'⟩ := head
      rw [Value.ofFields] at h
      rcases List.mem_cons.mp h with heq | hrest
      · obtain ⟨rfl, rfl⟩ := Prod.mk.inj heq
        exact ⟨item', List.mem_cons_self, rfl⟩
      · obtain ⟨item, hitem, hv⟩ := ih hrest
        exact ⟨item, List.mem_cons_of_mem _ hitem, hv⟩

theorem eq_string_of_ofJson {j : Json} {s : String} (h : (Value.ofJson j).tree = .string s) :
    j = .string s := by
  cases j with
  | string s' => exact h
  | object fields =>
      rw [Value.ofJson, Value.tree_object] at h
      cases h
  | _ => cases h

/-- A string found in a value that was read stands in the tree it was read as. -/
theorem shows_of_ofJson {j : Json} {s : String}
    (h : Value.ofJson j = .string s ∨ ∃ key, (Value.ofJson j).get key = some (.string s)) :
    Shows s j := by
  rcases h with hself | ⟨key, hget⟩
  · rw [eq_string_of_ofJson (congrArg Value.tree hself)]
    rfl
  · have hlookup := Value.get_map_val (Value.ofJson j) key
    rw [hget] at hlookup
    cases j with
    | object fields =>
        rw [Value.ofJson, Value.tree_object] at hlookup
        rcases Value.mem_insertFields (lookupField_mem hlookup.symm) with hnil | hmem
        · cases hnil
        · obtain ⟨⟨key', v⟩, hentry, heq⟩ := List.mem_map.mp hmem
          obtain ⟨rfl, htree⟩ := Prod.mk.inj heq
          obtain ⟨item, hitem, rfl⟩ := mem_ofFields hentry
          exact ⟨key', eq_string_of_ofJson htree ▸ hitem⟩
    | _ => cases hlookup

/-- A text that was read is longer than the strings found in its value. -/
theorem length_lt_of_fromStr {text s : String} {v : Value} (h : fromStr text = .ok v)
    (hs : v = .string s ∨ ∃ key, v.get key = some (.string s)) : s.length < text.length := by
  rw [fromStr] at h
  split at h
  · rename_i j hread
    obtain rfl := Except.ok.inj h
    have hlt := length_lt_of_readText hread (shows_of_ofJson hs)
    rwa [String.length_toList] at hlt
  · cases h

/-- Lowercasing of ASCII letters and of the capital sigma, every other character
its own lowercase. -/
def lower (c : Char) : List Char :=
  if c = 'Σ' then ['σ'] else [c.toLower]

theorem toLower_of_not_ascii {c : Char} (h : ¬ c.toNat < 128) : c.toLower = c := by
  apply dif_neg
  rintro ⟨-, hle⟩
  exact h (Nat.lt_of_le_of_lt (UInt32.le_iff_toNat_le.mp hle) (by decide))

theorem toLower_ascii : ∀ n < 128, (Char.ofNat n).toLower.toLower = (Char.ofNat n).toLower ∧
    (Char.ofNat n).toLower ≠ 'Σ' ∧
    (isWhitespace (Char.ofNat n).toLower = true → (Char.ofNat n).toLower = Char.ofNat n) := by
  decide

/-- What lowercasing gives is lowercase, and no white space that was not there. -/
theorem toLower_facts {c : Char} (hc : c ≠ 'Σ') : c.toLower.toLower = c.toLower ∧
    c.toLower ≠ 'Σ' ∧ (isWhitespace c.toLower = true → c.toLower = c) := by
  by_cases hascii : c.toNat < 128
  · have hfacts := toLower_ascii c.toNat hascii
    rwa [Char.ofNat_toNat] at hfacts
  · rw [toLower_of_not_ascii hascii]
    exact ⟨toLower_of_not_ascii hascii, hc, fun _ => rfl⟩

scoped instance caseTables : CaseTables where
  lower := lower
  cased c := c.isAlpha || c = 'Σ' || c = 'σ' || c = 'ς'
  caseIgnorable c := c.toNat = 39 || c = '.' || c = ':' || c = '^' || c.toNat = 96
  lower_ne_nil c := by
    rw [lower]
    split <;> simp
  lower_of_mem c d hd := by
    rw [lower] at hd
    split at hd
    · cases List.mem_singleton.mp hd
      decide
    · rename_i hc
      cases List.mem_singleton.mp hd
      obtain ⟨hidem, hsigma, -⟩ := toLower_facts hc
      rw [lower, if_neg hsigma, hidem]
      exact ⟨rfl, hsigma⟩
  lower_ascii c hc := by
    rw [lower, if_neg]
    rintro rfl
    exact absurd hc (by decide)
  lower_sigma := by decide
  lower_whitespace c d hd hspace := by
    rw [lower] at hd
    split at hd
    · cases List.mem_singleton.mp hd
      cases hspace
    · rename_i hc
      cases List.mem_singleton.mp hd
      exact (toLower_facts hc).2.2 hspace

end Platform

end RlnGifter
