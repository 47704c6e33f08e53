/-
JSON values as `serde_json` holds them.  An object is an ordered map, so its
keys are strictly increasing in every value there is; the text form is a
parameter that reads back what it printed.
-/
import Mathlib.Data.String.Basic
import RlnGifter.Text

namespace RlnGifter

/-- A finite double, by its bits. -/
structure FiniteFloat where
  bits : UInt64
  finite : (bits >>> 52) &&& 0x7ff ≠ 0x7ff
deriving DecidableEq

theorem FiniteFloat.finite_zero : ((0 : UInt64) >>> 52) &&& 0x7ff ≠ 0x7ff := by
  decide

/-- `serde_json::Number`; `negInt n` is `-(n + 1)`. -/
inductive Number where
  | posInt (n : UInt64)
  | negInt (n : Fin (2 ^ 63))
  | float (x : FiniteFloat)
deriving DecidableEq

/-- The first entry under a key. -/
def lookupField {α : Type} (key : String) : List (String × α) → Option α
  | [] => none
  | (key', item) :: fields => if key = key' then some item else lookupField key fields

theorem lookupField_mem {α : Type} {key : String} {item : α}
    {fields : List (String × α)} (h : lookupField key fields = some item) :
    (key, item) ∈ fields := by
  induction fields with
  | nil => cases h
  | cons field fields ih =>
      obtain ⟨key', item'⟩ := field
      rw [lookupField] at h
      split at h
      · rename_i heq
        cases h
        exact heq ▸ List.mem_cons_self
      · exact List.mem_cons_of_mem _ (ih h)

theorem mem_of_lookupField {α : Type} {key : String} {item : α}
    {fields : List (String × α)} (h : lookupField key fields = some item) :
    key ∈ fields.map Prod.fst :=
  List.mem_map.mpr ⟨_, lookupField_mem h, rfl⟩

/-- JSON trees, objects as lists of entries in any order. -/
inductive Json where
  | null
  | bool (b : Bool)
  | number (n : Number)
  | string (s : String)
  | array (items : List Json)
  | object (fields : List (String × Json))

namespace Json

/-- Keys in strictly increasing order. -/
def SortedKeys (fields : List (String × Json)) : Prop :=
  fields.Pairwise fun left right => left.1 < right.1

instance (fields : List (String × Json)) : Decidable (SortedKeys fields) :=
  inferInstanceAs (Decidable (fields.Pairwise _))

mutual

/-- Every object of the tree is a map in key order. -/
def canonical : Json → Bool
  | .array items => canonicalItems items
  | .object fields => decide (SortedKeys fields) && canonicalFields fields
  | _ => true

def canonicalItems : List Json → Bool
  | [] => true
  | item :: items => item.canonical && canonicalItems items

def canonicalFields : List (String × Json) → Bool
  | [] => true
  | (_, item) :: fields => item.canonical && canonicalFields fields

end

theorem canonical_of_mem_items {items : List Json} (h : canonicalItems items = true)
    {item : Json} (hitem : item ∈ items) : item.canonical = true := by
  induction items with
  | nil => cases hitem
  | cons head items ih =>
      simp only [canonicalItems, Bool.and_eq_true] at h
      rcases List.mem_cons.mp hitem with rfl | hitem
      · exact h.1
      · exact ih h.2 hitem

theorem canonical_of_mem_fields {fields : List (String × Json)}
    (h : canonicalFields fields = true) {field : String × Json}
    (hfield : field ∈ fields) : field.2.canonical = true := by
  induction fields with
  | nil => cases hfield
  | cons head fields ih =>
      obtain ⟨key, item⟩ := head
      simp only [canonicalFields, Bool.and_eq_true] at h
      rcases List.mem_cons.mp hfield with rfl | hfield
      · exact h.1
      · exact ih h.2 hfield

theorem canonicalItems_of_forall {items : List Json}
    (h : ∀ item ∈ items, item.canonical = true) : canonicalItems items = true := by
  induction items with
  | nil => rfl
  | cons head items ih =>
      rw [canonicalItems, h head List.mem_cons_self,
        ih fun item hitem => h item (List.mem_cons_of_mem head hitem)]
      rfl

theorem canonicalFields_of_forall {fields : List (String × Json)}
    (h : ∀ field ∈ fields, field.2.canonical = true) :
    canonicalFields fields = true := by
  induction fields with
  | nil => rfl
  | cons head fields ih =>
      obtain ⟨key, item⟩ := head
      rw [canonicalFields, h (key, item) List.mem_cons_self,
        ih fun field hfield => h field (List.mem_cons_of_mem _ hfield)]
      rfl

mutual

/-- A tree without doubles, nested no deeper than `depth`. -/
def plain : Nat → Json → Bool
  | _, .number (.float _) => false
  | depth, .array items =>
      match depth with
      | depth + 1 => plainItems depth items
      | 0 => false
  | depth, .object fields =>
      match depth with
      | depth + 1 => plainFields depth fields
      | 0 => false
  | _, _ => true

def plainItems : Nat → List Json → Bool
  | _, [] => true
  | depth, item :: items => plain depth item && plainItems depth items

def plainFields : Nat → List (String × Json) → Bool
  | _, [] => true
  | depth, (_, item) :: fields => plain depth item && plainFields depth fields

end

theorem plainFields_of_forall {fields : List (String × Json)} {depth : Nat}
    (h : ∀ field ∈ fields, field.2.plain depth = true) : plainFields depth fields = true := by
  induction fields with
  | nil => rfl
  | cons head fields ih =>
      obtain ⟨key, item⟩ := head
      rw [plainFields, h (key, item) List.mem_cons_self,
        ih fun field hfield => h field (List.mem_cons_of_mem _ hfield)]
      rfl

mutual

/-- The tree with its doubles made equal. -/
def eraseFloats : Json → Json
  | .number (.float _) => .number (.float ⟨0, FiniteFloat.finite_zero⟩)
  | .array items => .array (eraseFloatsItems items)
  | .object fields => .object (eraseFloatsFields fields)
  | j => j

def eraseFloatsItems : List Json → List Json
  | [] => []
  | item :: items => item.eraseFloats :: eraseFloatsItems items

def eraseFloatsFields : List (String × Json) → List (String × Json)
  | [] => []
  | (key, item) :: fields => (key, item.eraseFloats) :: eraseFloatsFields fields

end

end Json

/-- `serde_json::Value`: the trees whose objects are maps. -/
@[ext]
structure Value where
  tree : Json
  canonical : tree.canonical = true

namespace Value

/-- One level of a value, for matching on it. -/
inductive View where
  | null
  | bool (b : Bool)
  | number (n : Number)
  | string (s : String)
  | array (items : List Value)
  | object (fields : List (String × Value))

theorem tree_injective : Function.Injective tree := fun _ _ h => Value.ext h

def null : Value := ⟨.null, rfl⟩

def bool (b : Bool) : Value := ⟨.bool b, rfl⟩

def number (n : Number) : Value := ⟨.number n, rfl⟩

def u64 (n : UInt64) : Value := number (.posInt n)

def string (s : String) : Value := ⟨.string s, rfl⟩

def array (items : List Value) : Value :=
  ⟨.array (items.map tree), by
    rw [Json.canonical]
    apply Json.canonicalItems_of_forall
    intro item hitem
    obtain ⟨v, -, rfl⟩ := List.mem_map.mp hitem
    exact v.canonical⟩

def view : Value → View
  | ⟨.null, _⟩ => .null
  | ⟨.bool b, _⟩ => .bool b
  | ⟨.number n, _⟩ => .number n
  | ⟨.string s, _⟩ => .string s
  | ⟨.array items, h⟩ => .array (items.pmap Value.mk fun _ hitem =>
      Json.canonical_of_mem_items (by simpa [Json.canonical] using h) hitem)
  | ⟨.object fields, h⟩ => .object (fields.pmap
      (fun field hfield => (field.1, ⟨field.2, hfield⟩)) fun _ hfield =>
        Json.canonical_of_mem_fields
          (Bool.and_eq_true_iff.mp (by simpa only [Json.canonical] using h)).2
          hfield)

/-- `Value::as_str`. -/
def asStr (v : Value) : Option String :=
  match v.view with
  | .string s => some s
  | _ => none

/-- `Value::as_bool`. -/
def asBool (v : Value) : Option Bool :=
  match v.view with
  | .bool b => some b
  | _ => none

/-- `Value::as_u64`. -/
def asU64 (v : Value) : Option UInt64 :=
  match v.view with
  | .number (.posInt n) => some n
  | _ => none

/-- `Value::as_array`. -/
def asArray (v : Value) : Option (List Value) :=
  match v.view with
  | .array items => some items
  | _ => none

/-- `Value::get` with a string key: nothing outside objects. -/
def get (v : Value) (key : String) : Option Value :=
  match v.view with
  | .object fields => lookupField key fields
  | _ => none

@[simp] theorem view_null : null.view = .null := rfl
@[simp] theorem view_bool (b : Bool) : (bool b).view = .bool b := rfl
@[simp] theorem view_number (n : Number) : (number n).view = .number n := rfl
@[simp] theorem view_u64 (n : UInt64) : (u64 n).view = .number (.posInt n) := rfl
@[simp] theorem view_string (s : String) : (string s).view = .string s := rfl

theorem eq_string_of_view {v : Value} {s : String} (h : v.view = .string s) :
    v = string s := by
  obtain ⟨j, hj⟩ := v
  cases j with
  | string text =>
      have htext : text = s := by simpa [view] using h
      subst htext
      rfl
  | _ => cases h

theorem pmap_mk_map_val (items : List Value)
    (h : ∀ j ∈ items.map tree, j.canonical = true) :
    (items.map tree).pmap Value.mk h = items := by
  induction items with
  | nil => rfl
  | cons item items ih =>
      simp only [List.map_cons, List.pmap_cons, List.cons.injEq, true_and]
      exact ih _

@[simp] theorem view_array (items : List Value) :
    (array items).view = .array items :=
  congrArg View.array (pmap_mk_map_val items _)

/-- Put an entry into a map, as `BTreeMap::insert` does. -/
def insertField (key : String) (item : Json) :
    List (String × Json) → List (String × Json)
  | [] => [(key, item)]
  | (key', item') :: fields =>
      if key < key' then (key, item) :: (key', item') :: fields
      else if key = key' then (key, item) :: fields
      else (key', item') :: insertField key item fields

theorem mem_insertField {key : String} {item : Json}
    {fields : List (String × Json)} {field : String × Json}
    (h : field ∈ insertField key item fields) :
    field = (key, item) ∨ field ∈ fields := by
  induction fields with
  | nil => simpa [insertField] using h
  | cons head fields ih =>
      obtain ⟨key', item'⟩ := head
      rw [insertField] at h
      split at h
      · exact List.mem_cons.mp h
      · split at h
        · exact (List.mem_cons.mp h).imp_right (List.mem_cons_of_mem _)
        · rcases List.mem_cons.mp h with rfl | h
          · exact Or.inr List.mem_cons_self
          · exact (ih h).imp_right (List.mem_cons_of_mem _)

theorem sortedKeys_insertField {key : String} {item : Json}
    {fields : List (String × Json)} (h : Json.SortedKeys fields) :
    Json.SortedKeys (insertField key item fields) := by
  induction fields with
  | nil => simp [insertField, Json.SortedKeys]
  | cons head fields ih =>
      obtain ⟨key', item'⟩ := head
      obtain ⟨hhead, htail⟩ := List.pairwise_cons.mp h
      rw [insertField]
      split
      · rename_i hlt
        refine List.pairwise_cons.mpr ⟨fun field hfield => ?_, h⟩
        rcases List.mem_cons.mp hfield with rfl | hfield
        · exact hlt
        · exact lt_trans hlt (hhead field hfield)
      · rename_i hnlt
        split
        · rename_i heq
          exact List.pairwise_cons.mpr ⟨fun field hfield =>
            heq ▸ hhead field hfield, htail⟩
        · rename_i hne
          refine List.pairwise_cons.mpr ⟨fun field hfield => ?_, ih htail⟩
          rcases mem_insertField hfield with rfl | hfield
          · exact lt_of_le_of_ne (not_lt.mp hnlt) (Ne.symm hne)
          · exact hhead field hfield

theorem lookupField_insertField (key key' : String) (item : Json)
    (fields : List (String × Json)) :
    lookupField key' (insertField key item fields) =
      if key' = key then some item else lookupField key' fields := by
  induction fields with
  | nil => rfl
  | cons head fields ih =>
      obtain ⟨key₀, item₀⟩ := head
      rw [insertField]
      split
      · rfl
      · split
        · rename_i heq
          subst heq
          simp only [lookupField]
          split <;> rfl
        · rename_i hne
          simp only [lookupField, ih]
          by_cases h : key' = key
          · subst h
            simp [hne]
          · simp [h]

/-- The entries of an object, none of any other value. -/
def fieldsOf : Json → List (String × Json)
  | .object fields => fields
  | _ => []

/-- `map.insert(key, value)` on an object. -/
def insert (v : Value) (key : String) (item : Value) : Value :=
  ⟨.object (insertField key item.tree (fieldsOf v.tree)), by
    have hv := v.canonical
    have hsorted : Json.SortedKeys (fieldsOf v.tree) ∧
        Json.canonicalFields (fieldsOf v.tree) = true := by
      cases hj : v.tree with
      | object fields => simpa [hj, Json.canonical, fieldsOf] using hv
      | _ => simp [fieldsOf, Json.SortedKeys, Json.canonicalFields]
    rw [Json.canonical, Bool.and_eq_true, decide_eq_true_eq]
    refine ⟨sortedKeys_insertField hsorted.1, Json.canonicalFields_of_forall ?_⟩
    intro field hfield
    rcases mem_insertField hfield with rfl | hfield
    · exact item.canonical
    · exact Json.canonical_of_mem_fields hsorted.2 hfield⟩

def emptyObject : Value := ⟨.object [], rfl⟩

theorem lookupField_pmap {fields : List (String × Json)} {key : String}
    (h : ∀ field ∈ fields, field.2.canonical = true) :
    (lookupField key (fields.pmap (P := fun field => field.2.canonical = true)
        (fun field hfield => (field.1, (⟨field.2, hfield⟩ : Value))) h)).map
      tree = lookupField key fields := by
  induction fields with
  | nil => rfl
  | cons head fields ih =>
      simp only [List.pmap_cons, lookupField]
      split
      · rfl
      · exact ih _

/-- Looking a key up in a value is looking it up among its entries. -/
theorem get_map_val (v : Value) (key : String) :
    (v.get key).map tree = lookupField key (fieldsOf v.tree) := by
  obtain ⟨j, hj⟩ := v
  cases j with
  | object fields => exact lookupField_pmap _
  | _ => rfl

theorem get_insert (v : Value) (key key' : String) (item : Value) :
    (v.insert key item).get key' = if key' = key then some item else v.get key' := by
  have hinj : Function.Injective (Option.map tree) :=
    Option.map_injective tree_injective
  apply hinj
  rw [get_map_val]
  change lookupField key' (insertField key item.tree (fieldsOf v.tree)) = _
  rw [lookupField_insertField]
  split
  · rfl
  · exact (get_map_val v key').symm

@[simp] theorem get_emptyObject (key : String) : emptyObject.get key = none := rfl

/-- `json!({key: value, …})`: the entries inserted one after another. -/
def object (entries : List (String × Value)) : Value :=
  entries.foldl (fun v entry => v.insert entry.1 entry.2) emptyObject

@[simp] theorem asStr_string (s : String) : (string s).asStr = some s := rfl
@[simp] theorem asBool_bool (b : Bool) : (bool b).asBool = some b := rfl
@[simp] theorem asU64_u64 (n : UInt64) : (u64 n).asU64 = some n := rfl

@[simp] theorem asArray_array (items : List Value) :
    (array items).asArray = some items := by
  simp [asArray]

@[simp] theorem get_string (s key : String) : (string s).get key = none := rfl
@[simp] theorem get_null (key : String) : null.get key = none := rfl

end Value

/-- The fields of a struct in a value that is to be read as one: an object by
name, an array by position, nothing else.  `names` are the struct's fields in
order. -/
def Value.structFields (v : Value) (names : List String) :
    Option (String → Option Value) :=
  match v.view with
  | .object _ => some v.get
  | .array items =>
      if items.length ≤ names.length then some fun name => items[names.idxOf name]?
      else none
  | _ => none

namespace Value

/-- Entries inserted one after another into a list of them. -/
def insertFields (acc : List (String × Json)) (fields : List (String × Json)) :
    List (String × Json) :=
  fields.foldl (fun acc field => insertField field.1 field.2 acc) acc

theorem tree_object (entries : List (String × Value)) :
    (object entries).tree =
      .object (insertFields [] (entries.map fun entry => (entry.1, entry.2.tree))) := by
  have hfold : ∀ v : Value, ∀ acc, v.tree = .object acc →
      (entries.foldl (fun v entry => v.insert entry.1 entry.2) v).tree =
        .object (insertFields acc (entries.map fun entry => (entry.1, entry.2.tree))) := by
    induction entries with
    | nil =>
        intro v acc hv
        exact hv
    | cons entry entries ih =>
        intro v acc hv
        apply ih
        change Json.object (insertField entry.1 entry.2.tree (fieldsOf v.tree)) = _
        rw [hv]
        rfl
  exact hfold emptyObject [] rfl

theorem mem_insertFields {acc fields : List (String × Json)} {field : String × Json}
    (h : field ∈ insertFields acc fields) : field ∈ acc ∨ field ∈ fields := by
  induction fields generalizing acc with
  | nil => exact Or.inl h
  | cons head fields ih =>
      rcases ih h with hacc | hfields
      · rcases mem_insertField hacc with rfl | hacc
        · exact Or.inr List.mem_cons_self
        · exact Or.inl hacc
      · exact Or.inr (List.mem_cons_of_mem _ hfields)

/-- An object of plain values is plain, one level deeper. -/
theorem plain_object {entries : List (String × Value)} {depth : Nat}
    (h : ∀ entry ∈ entries, entry.2.tree.plain depth = true) :
    (object entries).tree.plain (depth + 1) = true := by
  rw [tree_object, Json.plain]
  apply Json.plainFields_of_forall
  intro field hfield
  rcases mem_insertFields hfield with hnil | hfield
  · cases hnil
  · obtain ⟨entry, hentry, rfl⟩ := List.mem_map.mp hfield
    exact h entry hentry

theorem structFields_object (entries : List (String × Value)) (names : List String) :
    (object entries).structFields names = some (object entries).get := by
  have hview : ∃ fields, (object entries).view = .object fields := by
    have htree := tree_object entries
    generalize object entries = v at htree
    obtain ⟨j, hj⟩ := v
    subst htree
    exact ⟨_, rfl⟩
  obtain ⟨fields, hview⟩ := hview
  rw [structFields, hview]

end Value

/-- Reading an `Option<String>` field that may be left out. -/
def Value.optString : Option Value → Option (Option String)
  | none => some none
  | some v =>
      match v.view with
      | .null => some none
      | .string s => some (some s)
      | _ => none

/-- Reading an `Option<Value>` field that may be left out. -/
def Value.optValue : Option Value → Option Value
  | none => none
  | some v =>
      match v.view with
      | .null => none
      | _ => some v

/-- What reading a printed value gives.  The reader stops at 128 levels and may
miss a double by its last bit; whatever it does read is otherwise the value. -/
def ReadsBack (result : Except String Value) (v : Value) : Prop :=
  (v.tree.plain 127 = true → result = .ok v) ∧
    ∀ w, result = .ok w → w.tree.eraseFloats = v.tree.eraseFloats

/-- The text form of values, with what is documented of it: what was printed
reads back and is not empty, and control characters are escaped, so that no
printed value holds a NUL.  `structText` prints a struct from its fields in order, `structFromStr`
reads a text at a struct with these fields, and `shapeError` is the text of the
error raised for a value that is not of a type's shape. -/
class SerdeJson where
  toText : Value → String
  structText : List (String × Value) → Except String String
  fromStr : String → Except String Value
  structFromStr : List String → String → Except String Value
  shapeError : String → Value → String
  toText_reads : ∀ v, ReadsBack (fromStr (toText v)) v
  structText_reads : ∀ entries, (entries.map Prod.fst).Nodup →
    ∃ text, structText entries = .ok text ∧
      ReadsBack (fromStr text) (.object entries) ∧
      ∀ names, ReadsBack (structFromStr names text) (.object entries)
  toText_ne_empty : ∀ v, toText v ≠ ""
  nul_not_mem_toText : ∀ v, '\x00' ∉ (toText v).toList

end RlnGifter
