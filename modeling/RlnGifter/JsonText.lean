/-
A printer and a reader of JSON texts.  The reader gives back every tree that was
printed, doubles apart: those are written and read as `0.0`.
-/
import RlnGifter.Hex
import RlnGifter.Json

namespace RlnGifter

namespace JsonText

/-- The characters that are escaped by a letter of their own. -/
def shortEscapes : List (Char × Char) :=
  [('"', '"'), ('\\', '\\'), ('\x08', 'b'), ('\t', 't'), ('\n', 'n'), ('\x0c', 'f'),
    ('\r', 'r')]

/-- One character inside a printed string. -/
def escape (c : Char) : List Char :=
  match shortEscapes.find? fun entry => entry.1 = c with
  | some entry => ['\\', entry.2]
  | none =>
      if c.toNat < 32 then '\\' :: 'u' :: '0' :: '0' :: hexPair c.toNat.toUInt8 else [c]

/-- The value of four hex digits. -/
def hexCode (a b c d : Char) : Option Nat :=
  match hexPairs 0 (utf8 (String.ofList [a, b, c, d])) with
  | .ok [high, low] => some (256 * high.toNat + low.toNat)
  | _ => none

/-- The character a letter after a backslash stands for. -/
def unescape (letter : Char) : Option Char :=
  if letter = '/' then some '/'
  else (shortEscapes.find? fun entry => entry.2 = letter).map Prod.fst

/-- The character that four hex digits stand for, unless they are half of a
pair. -/
def scalar (a b c d : Char) : Option Char :=
  (hexCode a b c d).bind fun n =>
    if n.isValidChar then some (Char.ofNat n) else none

/-- One character of a string, escaped or not. -/
def readChar : List Char → Option (Char × List Char)
  | '\\' :: letter :: rest =>
      if letter = 'u' then
        match rest with
        | a :: b :: c :: d :: rest => (scalar a b c d).map fun ch => (ch, rest)
        | _ => none
      else (unescape letter).map fun c => (c, rest)
  | c :: rest => if c.toNat < 32 ∨ c = '\\' then none else some (c, rest)
  | [] => none

/-- The rest of a string and what follows its closing quote. -/
def readChars : Nat → List Char → Option (List Char × List Char)
  | 0, _ => none
  | fuel + 1, cs =>
      match cs with
      | '"' :: rest => some ([], rest)
      | _ => do
          let (c, rest) ← readChar cs
          let (text, rest) ← readChars fuel rest
          return (c :: text, rest)

theorem scalar_control : ∀ n < 32,
    scalar '0' '0' (hexDigit (n / 16)) (hexDigit (n % 16)) = some (Char.ofNat n) := by
  decide +kernel

theorem readChar_short : ∀ entry ∈ shortEscapes, ∀ rest,
    readChar ('\\' :: entry.2 :: rest) = some (entry.1, rest) := by
  intro entry hentry rest
  simp only [shortEscapes, List.mem_cons, List.not_mem_nil, or_false] at hentry
  rcases hentry with rfl | rfl | rfl | rfl | rfl | rfl | rfl <;> rfl

theorem readChar_escape (c : Char) (rest : List Char) :
    readChar (escape c ++ rest) = some (c, rest) := by
  rw [escape]
  split
  · rename_i entry hfind
    have hc : entry.1 = c := by simpa using List.find?_some hfind
    rw [← hc]
    exact readChar_short entry (List.mem_of_find?_eq_some hfind) rest
  · rename_i hfind
    split
    · rename_i hcontrol
      have hscalar := scalar_control c.toNat hcontrol
      rw [Char.ofNat_toNat] at hscalar
      have hbyte : c.toNat.toUInt8.toNat = c.toNat := by
        rw [Nat.toUInt8, UInt8.toNat_ofNat']
        omega
      simp [hexPair, hbyte, readChar, hscalar]
    · rename_i hprintable
      have hslash : c ≠ '\\' := by
        rintro rfl
        cases hfind
      simp only [List.cons_append, List.nil_append]
      rw [readChar]
      · simp [hprintable, hslash]
      · rintro letter rest' heq -
        exact hslash heq

theorem escape_ne_quote (c : Char) (rest more : List Char) :
    escape c ++ rest ≠ '"' :: more := by
  rw [escape]
  split
  · simp
  · rename_i hfind
    split
    · simp
    · rintro heq
      obtain ⟨rfl, -⟩ := List.cons.inj heq
      cases hfind

/-- A printed string, from its opening quote on. -/
def renderString (s : String) : List Char :=
  '"' :: (s.toList.flatMap escape ++ ['"'])

theorem readChars_escape {text rest : List Char} {fuel : Nat}
    (hfuel : (text.flatMap escape).length < fuel) :
    readChars fuel (text.flatMap escape ++ '"' :: rest) = some (text, rest) := by
  induction text generalizing fuel with
  | nil =>
      cases fuel with
      | zero => cases hfuel
      | succ fuel => rfl
  | cons c text ih =>
      cases fuel with
      | zero => cases hfuel
      | succ fuel =>
          rw [List.flatMap_cons, List.length_append] at hfuel
          have hescape : 0 < (escape c).length := by
            rw [escape]
            split
            · simp
            · split <;> simp
          rw [List.flatMap_cons, List.append_assoc, readChars]
          · simp [readChar_escape, @ih fuel (by omega)]
          · intro more heq
            exact escape_ne_quote c _ more heq

/-- The double that every other is written as. -/
def someFloat : FiniteFloat := ⟨0, FiniteFloat.finite_zero⟩

def renderNumber : Number → List Char
  | .posInt n => Nat.toDigits 10 n.toNat
  | .negInt n => '-' :: Nat.toDigits 10 (n.val + 1)
  | .float _ => ['0', '.', '0']

/-- The characters of a number after its integer part. -/
def isFractional (c : Char) : Bool :=
  c.isDigit || c = '.' || c = 'e' || c = 'E' || c = '+' || c = '-'

/-- The number with these digits, a double where it is no integer of 64 bits. -/
def integer (negative : Bool) (digits : List Char) : Number :=
  let n := Nat.ofDigitChars 10 digits 0
  if negative then
    if h : n - 1 < 2 ^ 63 ∧ 0 < n then .negInt ⟨n - 1, h.1⟩ else .float someFloat
  else if n < 2 ^ 64 then .posInt (UInt64.ofNat n) else .float someFloat

def readDigits (negative : Bool) (cs : List Char) : Option (Number × List Char) :=
  let digits := cs.takeWhile Char.isDigit
  let rest := cs.dropWhile Char.isDigit
  if digits = [] then none
  else if (rest.head?.map isFractional).getD false then
    some (.float someFloat, rest.dropWhile isFractional)
  else some (integer negative digits, rest)

def readNumber : List Char → Option (Number × List Char)
  | '-' :: cs => readDigits true cs
  | cs => readDigits false cs

/-- What may follow a number: the end, or the next mark of an array or object. -/
def Ends (rest : List Char) : Prop :=
  ∀ c, rest.head? = some c → isFractional c = false

theorem takeWhile_digits {digits rest : List Char} (hdigits : ∀ c ∈ digits, c.isDigit = true)
    (hrest : ∀ c, rest.head? = some c → c.isDigit = false) :
    (digits ++ rest).takeWhile Char.isDigit = digits ∧
      (digits ++ rest).dropWhile Char.isDigit = rest := by
  have htake : rest.takeWhile Char.isDigit = [] ∧ rest.dropWhile Char.isDigit = rest := by
    cases rest with
    | nil => simp
    | cons c rest => simp [hrest c rfl]
  rw [List.takeWhile_append_of_pos hdigits, List.dropWhile_append_of_pos hdigits]
  simp [htake]

theorem readDigits_toDigits {n : Nat} {rest : List Char} (hrest : Ends rest)
    (negative : Bool) :
    readDigits negative (Nat.toDigits 10 n ++ rest) =
      some (integer negative (Nat.toDigits 10 n), rest) := by
  have hdigits : ∀ c ∈ Nat.toDigits 10 n, c.isDigit = true := fun c hc =>
    Nat.isDigit_of_mem_toDigits (by decide) (by decide) hc
  obtain ⟨htake, hdrop⟩ := takeWhile_digits hdigits fun c hc => by
    have hfractional := hrest c hc
    simp only [isFractional, Bool.or_eq_false_iff] at hfractional
    tauto
  have hhead : (rest.head?.map isFractional).getD false = false := by
    cases hrest' : rest.head? with
    | none => rfl
    | some c => exact hrest c hrest'
  simp [readDigits, htake, hdrop, Nat.toDigits_ne_nil, hhead]

/-- A number with its doubles made equal. -/
def eraseFloat : Number → Number
  | .float _ => .float someFloat
  | n => n

theorem readNumber_toDigits (n : Nat) {rest : List Char} (hrest : Ends rest) :
    readNumber (Nat.toDigits 10 n ++ rest) =
      some (integer false (Nat.toDigits 10 n), rest) := by
  rw [readNumber, readDigits_toDigits hrest]
  intro cs heq
  cases hdigits : Nat.toDigits 10 n with
  | nil => exact Nat.toDigits_ne_nil hdigits
  | cons c digits =>
      rw [hdigits] at heq
      obtain ⟨rfl, -⟩ := List.cons.inj heq
      have hdigit : ('-' : Char).isDigit = true :=
        Nat.isDigit_of_mem_toDigits (by decide) (by decide) (hdigits ▸ List.mem_cons_self)
      exact absurd hdigit (by decide)

theorem readNumber_renderNumber (n : Number) {rest : List Char} (hrest : Ends rest) :
    readNumber (renderNumber n ++ rest) = some (eraseFloat n, rest) := by
  cases n with
  | posInt n =>
      rw [renderNumber, readNumber_toDigits n.toNat hrest]
      simp [integer, Nat.ofDigitChars_ten_toDigits, n.toNat_lt, eraseFloat]
  | negInt n =>
      have hread := readDigits_toDigits (n := n.val + 1) hrest true
      simp only [integer, Nat.ofDigitChars_ten_toDigits] at hread
      simpa [renderNumber, readNumber, eraseFloat, n.isLt] using hread
  | float x =>
      have hdrop : rest.dropWhile isFractional = rest := by
        cases rest with
        | nil => rfl
        | cons c rest => simp [hrest c rfl]
      have hzero : ('0' : Char).isDigit = true ∧ ('.' : Char).isDigit = false ∧
          isFractional '.' = true ∧ isFractional '0' = true := by decide
      simp [renderNumber, readNumber, readDigits, hzero, hdrop, eraseFloat]

mutual

/-- The text of a tree. -/
def render : Json → List Char
  | .null => ['n', 'u', 'l', 'l']
  | .bool true => ['t', 'r', 'u', 'e']
  | .bool false => ['f', 'a', 'l', 's', 'e']
  | .number n => renderNumber n
  | .string s => renderString s
  | .array items => '[' :: renderItems items
  | .object fields => '\x7b' :: renderFields fields

/-- The items of an array, and its closing bracket. -/
def renderItems : List Json → List Char
  | [] => [']']
  | item :: items => render item ++ renderMore items

/-- The items of an array after the first. -/
def renderMore : List Json → List Char
  | [] => [']']
  | item :: items => ',' :: (render item ++ renderMore items)

/-- The entries of an object, and its closing brace. -/
def renderFields : List (String × Json) → List Char
  | [] => ['\x7d']
  | (key, item) :: fields => renderString key ++ ':' :: (render item ++ renderRest fields)

/-- The entries of an object after the first. -/
def renderRest : List (String × Json) → List Char
  | [] => ['\x7d']
  | (key, item) :: fields =>
      ',' :: (renderString key ++ ':' :: (render item ++ renderRest fields))

end

/-- The white space of JSON. -/
def isSpace (c : Char) : Bool :=
  c = ' ' || c = '\n' || c = '\t' || c = '\r'

def skip (cs : List Char) : List Char :=
  cs.dropWhile isSpace

/-- A word that stands for a value. -/
def literal (word : List Char) (j : Json) (cs : List Char) : Option (Json × List Char) :=
  if word <+: cs then some (j, cs.drop word.length) else none

/-- A string, from its opening quote on. -/
def readString : List Char → Option (String × List Char)
  | '"' :: cs => do
      let (text, rest) ← readChars (cs.length + 1) cs
      return (String.ofList text, rest)
  | _ => none

mutual

/-- The tree at the beginning of a text, and the rest of it. -/
def readValue : Nat → List Char → Option (Json × List Char)
  | 0, _ => none
  | fuel + 1, cs =>
      match skip cs with
      | [] => none
      | c :: rest =>
          if c = 'n' then literal ['u', 'l', 'l'] .null rest
          else if c = 't' then literal ['r', 'u', 'e'] (.bool true) rest
          else if c = 'f' then literal ['a', 'l', 's', 'e'] (.bool false) rest
          else if c = '"' then (readString (c :: rest)).map fun r => (.string r.1, r.2)
          else if c = '[' then
            match skip rest with
            | ']' :: rest => some (.array [], rest)
            | rest => (readItems fuel rest).map fun r => (.array r.1, r.2)
          else if c = '\x7b' then
            match skip rest with
            | '\x7d' :: rest => some (.object [], rest)
            | rest => (readFields fuel rest).map fun r => (.object r.1, r.2)
          else (readNumber (c :: rest)).map fun r => (.number r.1, r.2)

/-- The items of an array up to its closing bracket. -/
def readItems : Nat → List Char → Option (List Json × List Char)
  | 0, _ => none
  | fuel + 1, cs => do
      let (item, rest) ← readValue fuel cs
      match skip rest with
      | ',' :: rest =>
          let (items, rest) ← readItems fuel rest
          return (item :: items, rest)
      | ']' :: rest => return ([item], rest)
      | _ => none

/-- The entries of an object up to its closing brace. -/
def readFields : Nat → List Char → Option (List (String × Json) × List Char)
  | 0, _ => none
  | fuel + 1, cs => do
      let (key, rest) ← readString (skip cs)
      match skip rest with
      | ':' :: rest =>
          let (item, rest) ← readValue fuel rest
          match skip rest with
          | ',' :: rest =>
              let (fields, rest) ← readFields fuel rest
              return ((key, item) :: fields, rest)
          | '\x7d' :: rest => return ([(key, item)], rest)
          | _ => none
      | _ => none

end

/-- The tree a whole text stands for. -/
def readText (cs : List Char) : Option Json :=
  match readValue (cs.length + 1) cs with
  | some (j, rest) => if skip rest = [] then some j else none
  | none => none

theorem renderNumber_head (n : Number) :
    ∃ c cs, renderNumber n = c :: cs ∧ (c.isDigit = true ∨ c = '-') := by
  cases n with
  | posInt n =>
      cases hdigits : Nat.toDigits 10 n.toNat with
      | nil => exact absurd hdigits Nat.toDigits_ne_nil
      | cons c cs =>
          exact ⟨c, cs, hdigits, Or.inl (Nat.isDigit_of_mem_toDigits (by decide) (by decide)
            (hdigits ▸ List.mem_cons_self))⟩
  | negInt n => exact ⟨_, _, rfl, Or.inr rfl⟩
  | float x => exact ⟨_, _, rfl, Or.inl (by decide)⟩

theorem skip_cons {c : Char} {cs : List Char} (h : isSpace c = false) :
    skip (c :: cs) = c :: cs := by
  simp [skip, h]

/-- A printed value begins neither with white space nor with a closing bracket. -/
theorem render_head (j : Json) :
    ∃ c cs, render j = c :: cs ∧ isSpace c = false ∧ c ≠ ']' := by
  cases j with
  | null => exact ⟨_, _, rfl, by decide⟩
  | bool b => cases b <;> exact ⟨_, _, rfl, by decide⟩
  | number n =>
      obtain ⟨c, cs, hrender, hdigit⟩ := renderNumber_head n
      refine ⟨c, cs, hrender, ?_⟩
      rcases hdigit with hdigit | rfl
      · constructor
        · by_contra hspace
          simp only [isSpace, Bool.or_eq_true, decide_eq_true_eq, Bool.not_eq_false] at hspace
          rcases hspace with ((rfl | rfl) | rfl) | rfl <;> cases hdigit
        · rintro rfl
          cases hdigit
      · decide
  | string s => exact ⟨_, _, rfl, by decide⟩
  | array items => exact ⟨_, _, rfl, by decide⟩
  | object fields => exact ⟨_, _, rfl, by decide⟩

theorem readString_renderString (s : String) (rest : List Char) :
    readString (renderString s ++ rest) = some (s, rest) := by
  have hread := @readChars_escape s.toList rest
    ((s.toList.flatMap escape ++ '"' :: rest).length + 1)
    (by rw [List.length_append]; omega)
  simp only [renderString, List.cons_append, List.append_assoc, List.nil_append, readString,
    hread]
  simp

theorem readValue_number {n : Number} {fuel : Nat} {rest : List Char} (hrest : Ends rest) :
    readValue (fuel + 1) (renderNumber n ++ rest) =
      some (.number (eraseFloat n), rest) := by
  have hread := readNumber_renderNumber n hrest
  obtain ⟨c, cs, hrender, hdigit⟩ := renderNumber_head n
  rw [hrender, List.cons_append] at hread ⊢
  have hne : ∀ d : Char, d.isDigit = false → d ≠ '-' → c ≠ d := by
    rintro d hd hminus rfl
    rcases hdigit with hdigit | rfl
    · rw [hd] at hdigit
      cases hdigit
    · exact hminus rfl
  have hspace : isSpace c = false := by
    simp [isSpace, hne ' ' (by decide) (by decide), hne '\n' (by decide) (by decide),
      hne '\t' (by decide) (by decide), hne '\r' (by decide) (by decide)]
  simp [readValue, skip_cons hspace, hne 'n' (by decide) (by decide),
    hne 't' (by decide) (by decide), hne 'f' (by decide) (by decide),
    hne '"' (by decide) (by decide), hne '[' (by decide) (by decide),
    hne '\x7b' (by decide) (by decide), hread]

theorem ends_renderMore (items : List Json) (rest : List Char) :
    Ends (renderMore items ++ rest) := by
  intro c hc
  cases items with
  | nil =>
      cases hc
      decide
  | cons item items =>
      cases hc
      decide

theorem ends_renderRest (fields : List (String × Json)) (rest : List Char) :
    Ends (renderRest fields ++ rest) := by
  intro c hc
  cases fields with
  | nil =>
      cases hc
      decide
  | cons field fields =>
      cases hc
      decide

theorem readValue_items {c : Char} {cs : List Char} {fuel : Nat} (hspace : isSpace c = false)
    (hbracket : c ≠ ']') :
    readValue (fuel + 1) ('[' :: c :: cs) =
      (readItems fuel (c :: cs)).map fun r => (.array r.1, r.2) := by
  rw [readValue, skip_cons (by decide)]
  simp only [Char.reduceEq, ↓reduceIte, skip_cons hspace]
  split
  · rename_i heq
    exact absurd (List.cons.inj heq).1 hbracket
  · rfl

theorem readValue_fields {cs : List Char} {fuel : Nat} :
    readValue (fuel + 1) ('\x7b' :: '"' :: cs) =
      (readFields fuel ('"' :: cs)).map fun r => (.object r.1, r.2) := by
  rw [readValue, skip_cons (by decide)]
  simp only [Char.reduceEq, ↓reduceIte, skip_cons (show isSpace '"' = false by decide)]
  split
  · rename_i heq
    exact absurd (List.cons.inj heq).1 (by decide)
  · rfl

/-- Reading an entry whose value has been read. -/
theorem readFields_entry {key : String} {item : Json} {text rest : List Char} {fuel : Nat}
    (hitem : readValue fuel text = some (item, rest)) :
    readFields (fuel + 1) (renderString key ++ ':' :: text) =
      match skip rest with
      | ',' :: rest => (readFields fuel rest).map fun r => ((key, item) :: r.1, r.2)
      | '\x7d' :: rest => some ([(key, item)], rest)
      | _ => none := by
  have hskip : skip (renderString key ++ ':' :: text) = renderString key ++ ':' :: text := by
    rw [renderString, List.cons_append, skip_cons (by decide)]
  rw [readFields, hskip, readString_renderString]
  simp only [Option.bind_eq_bind, Option.bind_some, skip_cons (show isSpace ':' = false by decide),
    hitem]
  split <;> simp [Option.map_eq_bind]

mutual

/-- What was printed reads back. -/
theorem readValue_render : ∀ (j : Json) {fuel : Nat} {rest : List Char},
    (render j).length ≤ fuel → Ends rest →
      readValue fuel (render j ++ rest) = some (j.eraseFloats, rest)
  | j, 0, rest, hfuel, _ => by
      obtain ⟨c, cs, hrender, -⟩ := render_head j
      rw [hrender] at hfuel
      cases hfuel
  | .null, fuel + 1, rest, _, _ => by
      simp [render, readValue, skip, isSpace, literal, Json.eraseFloats]
  | .bool true, fuel + 1, rest, _, _ => by
      simp [render, readValue, skip, isSpace, literal, Json.eraseFloats]
  | .bool false, fuel + 1, rest, _, _ => by
      simp [render, readValue, skip, isSpace, literal, Json.eraseFloats]
  | .number n, fuel + 1, rest, _, hrest => by
      rw [render, readValue_number hrest]
      cases n <;> rfl
  | .string s, fuel + 1, rest, _, _ => by
      have hread := readString_renderString s rest
      rw [renderString, List.cons_append] at hread
      rw [render, renderString, List.cons_append, readValue, skip_cons (by decide)]
      simp only [Char.reduceEq, ↓reduceIte, hread]
      rfl
  | .array [], fuel + 1, rest, _, _ => by
      simp [render, renderItems, readValue, skip, isSpace, Json.eraseFloats,
        Json.eraseFloatsItems]
  | .array (item :: items), fuel + 1, rest, hfuel, _ => by
      have hread := @readItems_render item items fuel rest (by simpa [render] using hfuel)
      obtain ⟨c, cs, hrender, hspace, hbracket⟩ := render_head item
      rw [renderItems, hrender, List.cons_append, List.cons_append] at hread
      rw [render, renderItems, hrender, List.cons_append, List.cons_append, List.cons_append,
        readValue_items hspace hbracket, hread]
      rfl
  | .object [], fuel + 1, rest, _, _ => by
      simp [render, renderFields, readValue, skip, isSpace, Json.eraseFloats,
        Json.eraseFloatsFields]
  | .object ((key, item) :: fields), fuel + 1, rest, hfuel, _ => by
      have hread := @readFields_render key item fields fuel rest (by simpa [render] using hfuel)
      rw [renderFields, renderString, List.cons_append, List.cons_append] at hread
      rw [render, renderFields, renderString, List.cons_append, List.cons_append,
        List.cons_append, readValue_fields, hread]
      rfl

theorem readItems_render : ∀ (item : Json) (items : List Json) {fuel : Nat}
    {rest : List Char}, (renderItems (item :: items)).length ≤ fuel →
      readItems fuel (renderItems (item :: items) ++ rest) =
        some (Json.eraseFloatsItems (item :: items), rest)
  | item, items, 0, rest, hfuel => by
      obtain ⟨c, cs, hrender, -⟩ := render_head item
      rw [renderItems, hrender] at hfuel
      cases hfuel
  | item, [], fuel + 1, rest, hfuel => by
      rw [renderItems, renderMore, List.length_append, List.length_singleton] at hfuel
      have hread := @readValue_render item fuel (']' :: rest) (by omega)
        (ends_renderMore [] rest)
      simp [renderItems, renderMore, readItems, hread, skip, isSpace, Json.eraseFloatsItems]
  | item, next :: items, fuel + 1, rest, hfuel => by
      have hmore : renderMore (next :: items) = ',' :: renderItems (next :: items) := rfl
      rw [renderItems, hmore, List.length_append, List.length_cons] at hfuel
      have hread := @readValue_render item fuel (renderMore (next :: items) ++ rest) (by omega)
        (ends_renderMore (next :: items) rest)
      have hitems := @readItems_render next items fuel rest (by omega)
      rw [renderItems, List.append_assoc, readItems, hread, hmore, List.cons_append]
      simp [skip, isSpace, hitems, Json.eraseFloatsItems]

theorem readFields_render : ∀ (key : String) (item : Json) (fields : List (String × Json))
    {fuel : Nat} {rest : List Char},
    (renderFields ((key, item) :: fields)).length ≤ fuel →
      readFields fuel (renderFields ((key, item) :: fields) ++ rest) =
        some (Json.eraseFloatsFields ((key, item) :: fields), rest)
  | key, item, fields, 0, rest, hfuel => by
      rw [renderFields, renderString] at hfuel
      cases hfuel
  | key, item, [], fuel + 1, rest, hfuel => by
      rw [renderFields, renderRest, List.length_append, List.length_cons,
        List.length_append] at hfuel
      have hread := @readValue_render item fuel (renderRest [] ++ rest) (by omega)
        (ends_renderRest [] rest)
      rw [renderFields, List.append_assoc, List.cons_append, List.append_assoc,
        readFields_entry hread]
      simp [renderRest, skip, isSpace, Json.eraseFloatsFields]
  | key, item, (key', next) :: fields, fuel + 1, rest, hfuel => by
      have hmore : renderRest ((key', next) :: fields) =
        ',' :: renderFields ((key', next) :: fields) := rfl
      rw [renderFields, hmore, List.length_append, List.length_cons, List.length_append,
        List.length_cons] at hfuel
      have hread := @readValue_render item fuel
        (renderRest ((key', next) :: fields) ++ rest) (by omega)
        (ends_renderRest ((key', next) :: fields) rest)
      have hfields := @readFields_render key' next fields fuel rest (by omega)
      rw [renderFields, List.append_assoc, List.cons_append, List.append_assoc,
        readFields_entry hread, hmore, List.cons_append]
      simp [skip, isSpace, hfields, Json.eraseFloatsFields]

end

theorem readText_render (j : Json) : readText (render j) = some j.eraseFloats := by
  have hread := @readValue_render j ((render j).length + 1) [] (by omega) (by simp [Ends])
  rw [List.append_nil] at hread
  simp [readText, hread, skip]

/-- Every character of a printed text is printable or beyond ASCII. -/
def Printable (cs : List Char) : Prop :=
  ∀ c ∈ cs, 32 ≤ c.toNat

@[simp] theorem printable_nil : Printable [] := by
  intro c hc
  cases hc

@[simp] theorem printable_cons {c : Char} {cs : List Char} :
    Printable (c :: cs) ↔ 32 ≤ c.toNat ∧ Printable cs :=
  List.forall_mem_cons

@[simp] theorem printable_append {left right : List Char} :
    Printable (left ++ right) ↔ Printable left ∧ Printable right :=
  List.forall_mem_append

theorem printable_escape (c : Char) : Printable (escape c) := by
  have hletters : ∀ entry ∈ shortEscapes, 32 ≤ entry.2.toNat := by decide
  have hdigits : ∀ n < 16, 32 ≤ (hexDigit n).toNat := by decide
  rw [escape]
  split
  · rename_i entry hfind
    simp [hletters entry (List.mem_of_find?_eq_some hfind)]
  · split
    · have hlow := hdigits (c.toNat % 16) (Nat.mod_lt _ (by decide))
      have hhigh := hdigits (c.toNat % 256 / 16) (by omega)
      simp [hexPair, hlow, hhigh]
    · rename_i hcontrol
      simpa using Nat.le_of_not_lt hcontrol

theorem printable_renderString (s : String) : Printable (renderString s) := by
  have hchars : Printable (s.toList.flatMap escape) := by
    intro c hc
    obtain ⟨d, -, hd⟩ := List.mem_flatMap.mp hc
    exact printable_escape d c hd
  simp [renderString, hchars]

theorem printable_toDigits (n : Nat) : Printable (Nat.toDigits 10 n) := by
  intro c hc
  have hdigit : c.isDigit = true := Nat.isDigit_of_mem_toDigits (by decide) (by decide) hc
  rw [Char.isDigit, Bool.and_eq_true, decide_eq_true_eq, decide_eq_true_eq] at hdigit
  have hle : (48 : UInt32).toNat ≤ c.val.toNat := UInt32.le_iff_toNat_le.mp hdigit.1
  exact Nat.le_trans (by decide) hle

theorem printable_renderNumber (n : Number) : Printable (renderNumber n) := by
  cases n with
  | posInt n => exact printable_toDigits n.toNat
  | negInt n => simp [renderNumber, printable_toDigits]
  | float x => simp [renderNumber]

mutual

theorem printable_render : ∀ j : Json, Printable (render j)
  | .null => by simp [render]
  | .bool true => by simp [render]
  | .bool false => by simp [render]
  | .number n => printable_renderNumber n
  | .string s => printable_renderString s
  | .array [] => by simp [render, renderItems]
  | .array (item :: items) => by
      simp [render, renderItems, printable_render item, printable_renderMore items]
  | .object [] => by simp [render, renderFields]
  | .object ((key, item) :: fields) => by
      simp [render, renderFields, printable_renderString, printable_render item,
        printable_renderRest fields]

theorem printable_renderMore : ∀ items : List Json, Printable (renderMore items)
  | [] => by simp [renderMore]
  | item :: items => by
      simp [renderMore, printable_render item, printable_renderMore items]

theorem printable_renderRest : ∀ fields : List (String × Json), Printable (renderRest fields)
  | [] => by simp [renderRest]
  | (key, item) :: fields => by
      simp [renderRest, printable_renderString, printable_render item,
        printable_renderRest fields]

end

/-- The tree holds this string, itself or as the value of an entry. -/
def Shows (s : String) : Json → Prop
  | .string s' => s = s'
  | .object fields => ∃ key, (key, Json.string s) ∈ fields
  | _ => False

theorem readChar_length {cs rest : List Char} {c : Char} (h : readChar cs = some (c, rest)) :
    rest.length < cs.length := by
  rw [readChar.eq_def] at h
  split at h
  · split at h
    · split at h
      · obtain ⟨ch, -, heq⟩ := Option.map_eq_some_iff.mp h
        rw [← (Prod.mk.inj heq).2]
        simp only [List.length_cons]
        omega
      · cases h
    · obtain ⟨ch, -, heq⟩ := Option.map_eq_some_iff.mp h
      rw [← (Prod.mk.inj heq).2]
      simp only [List.length_cons]
      omega
  · split at h
    · cases h
    · rw [← (Prod.mk.inj (Option.some.inj h)).2]
      exact Nat.lt_succ_self _
  · cases h

theorem readChars_length {fuel : Nat} {cs text rest : List Char}
    (h : readChars fuel cs = some (text, rest)) : text.length + rest.length < cs.length := by
  induction fuel generalizing cs text with
  | zero => cases h
  | succ fuel ih =>
      rw [readChars.eq_def] at h
      simp only at h
      split at h
      · obtain ⟨rfl, rfl⟩ := Prod.mk.inj (Option.some.inj h)
        simp
      · obtain ⟨⟨c, mid⟩, hc, h⟩ := Option.bind_eq_some_iff.mp h
        obtain ⟨⟨more, rest'⟩, hmore, h⟩ := Option.bind_eq_some_iff.mp h
        obtain ⟨rfl, rfl⟩ := Prod.mk.inj (Option.some.inj h)
        have hlt := readChar_length hc
        have hrest := ih hmore
        simp only [List.length_cons] at hrest ⊢
        omega

theorem readString_length {cs rest : List Char} {s : String}
    (h : readString cs = some (s, rest)) : s.length + rest.length < cs.length := by
  rw [readString.eq_def] at h
  split at h
  · obtain ⟨⟨text, mid⟩, htext, h⟩ := Option.bind_eq_some_iff.mp h
    obtain ⟨rfl, rfl⟩ := Prod.mk.inj (Option.some.inj h)
    have hlt := readChars_length htext
    rw [String.length_ofList, List.length_cons]
    omega
  · cases h

theorem length_skip_le (cs : List Char) : (skip cs).length ≤ cs.length :=
  List.length_dropWhile_le _ _

theorem literal_length {word cs rest : List Char} {j j' : Json}
    (h : literal word j cs = some (j', rest)) : j' = j ∧ rest.length ≤ cs.length := by
  rw [literal] at h
  split at h
  · obtain ⟨rfl, rfl⟩ := Prod.mk.inj (Option.some.inj h)
    exact ⟨rfl, by rw [List.length_drop]; omega⟩
  · cases h

theorem readDigits_length {negative : Bool} {cs rest : List Char} {n : Number}
    (h : readDigits negative cs = some (n, rest)) : rest.length ≤ cs.length := by
  have hdrop := List.length_dropWhile_le Char.isDigit cs
  rw [readDigits] at h
  split at h
  · cases h
  · split at h
    · rw [← (Prod.mk.inj (Option.some.inj h)).2]
      exact (List.length_dropWhile_le _ _).trans hdrop
    · rw [← (Prod.mk.inj (Option.some.inj h)).2]
      exact hdrop

theorem readNumber_length {cs rest : List Char} {n : Number}
    (h : readNumber cs = some (n, rest)) : rest.length ≤ cs.length := by
  rw [readNumber.eq_def] at h
  split at h
  · exact (readDigits_length h).trans (Nat.le_succ _)
  · exact readDigits_length h

/-- Reading leaves no more than was there, and shows only strings shorter than it. -/
structure Shortens (fuel : Nat) : Prop where
  value : ∀ {cs j rest}, readValue fuel cs = some (j, rest) →
    rest.length ≤ cs.length ∧ ∀ s, Shows s j → s.length < cs.length
  items : ∀ {cs items rest}, readItems fuel cs = some (items, rest) → rest.length ≤ cs.length
  fields : ∀ {cs fields rest}, readFields fuel cs = some (fields, rest) →
    rest.length ≤ cs.length ∧ ∀ s, Shows s (.object fields) → s.length < cs.length

theorem readValue_shortens {fuel : Nat} (ih : Shortens fuel) {cs rest : List Char} {j : Json}
    (h : readValue (fuel + 1) cs = some (j, rest)) :
    rest.length ≤ cs.length ∧ ∀ s, Shows s j → s.length < cs.length := by
  have hskip := length_skip_le cs
  rw [readValue] at h
  split at h
  · cases h
  · rename_i c more hcs
    rw [hcs, List.length_cons] at hskip
    have hliteral : ∀ {word : List Char} {j' : Json}, (∀ s, ¬ Shows s j') →
        literal word j' more = some (j, rest) →
        rest.length ≤ cs.length ∧ ∀ s, Shows s j → s.length < cs.length := by
      intro word j' hshows hread
      obtain ⟨rfl, hle⟩ := literal_length hread
      exact ⟨by omega, fun s hs => absurd hs (hshows s)⟩
    split at h
    · exact hliteral (fun _ => id) h
    split at h
    · exact hliteral (fun _ => id) h
    split at h
    · exact hliteral (fun _ => id) h
    split at h
    · obtain ⟨⟨s, rest'⟩, hs, heq⟩ := Option.map_eq_some_iff.mp h
      obtain ⟨rfl, rfl⟩ := Prod.mk.inj heq
      have hlt := readString_length hs
      rw [List.length_cons] at hlt
      refine ⟨by simp only; omega, ?_⟩
      rintro s' rfl
      omega
    split at h
    · have hmore := length_skip_le more
      split at h
      · rename_i rest' hrest
        obtain ⟨rfl, rfl⟩ := Prod.mk.inj (Option.some.inj h)
        rw [hrest, List.length_cons] at hmore
        exact ⟨by omega, fun _ => False.elim⟩
      · obtain ⟨⟨items, rest'⟩, hitems, heq⟩ := Option.map_eq_some_iff.mp h
        obtain ⟨rfl, rfl⟩ := Prod.mk.inj heq
        have hle := ih.items hitems
        exact ⟨by simp only at hle ⊢; omega, fun _ => False.elim⟩
    split at h
    · have hmore := length_skip_le more
      split at h
      · rename_i rest' hrest
        obtain ⟨rfl, rfl⟩ := Prod.mk.inj (Option.some.inj h)
        rw [hrest, List.length_cons] at hmore
        refine ⟨by omega, ?_⟩
        rintro s ⟨key, hmem⟩
        cases hmem
      · obtain ⟨⟨fields, rest'⟩, hfields, heq⟩ := Option.map_eq_some_iff.mp h
        obtain ⟨rfl, rfl⟩ := Prod.mk.inj heq
        obtain ⟨hle, hshows⟩ := ih.fields hfields
        exact ⟨by simp only at hle ⊢; omega, fun s hs => by have := hshows s hs; omega⟩
    · obtain ⟨⟨n, rest'⟩, hn, heq⟩ := Option.map_eq_some_iff.mp h
      obtain ⟨rfl, rfl⟩ := Prod.mk.inj heq
      have hle := readNumber_length hn
      rw [List.length_cons] at hle
      exact ⟨by simp only at hle ⊢; omega, fun _ => False.elim⟩

theorem readItems_shortens {fuel : Nat} (ih : Shortens fuel) {cs rest : List Char}
    {items : List Json} (h : readItems (fuel + 1) cs = some (items, rest)) :
    rest.length ≤ cs.length := by
  rw [readItems] at h
  obtain ⟨⟨item, mid⟩, hitem, h⟩ := Option.bind_eq_some_iff.mp h
  have hmid := (ih.value hitem).1
  have hskip := length_skip_le mid
  simp only at h
  split at h
  · rename_i more hmore
    obtain ⟨⟨items', rest'⟩, hitems, h⟩ := Option.bind_eq_some_iff.mp h
    obtain ⟨rfl, rfl⟩ := Prod.mk.inj (Option.some.inj h)
    have hle := ih.items hitems
    rw [hmore, List.length_cons] at hskip
    simp only
    omega
  · rename_i more hmore
    obtain ⟨rfl, rfl⟩ := Prod.mk.inj (Option.some.inj h)
    rw [hmore, List.length_cons] at hskip
    omega
  · cases h

theorem readFields_shortens {fuel : Nat} (ih : Shortens fuel) {cs rest : List Char}
    {fields : List (String × Json)} (h : readFields (fuel + 1) cs = some (fields, rest)) :
    rest.length ≤ cs.length ∧ ∀ s, Shows s (.object fields) → s.length < cs.length := by
  rw [readFields] at h
  obtain ⟨⟨key, mid⟩, hkey, h⟩ := Option.bind_eq_some_iff.mp h
  have hcs := length_skip_le cs
  have hmid := readString_length hkey
  have hskip := length_skip_le mid
  simp only at h
  split at h
  · rename_i text htext
    rw [htext, List.length_cons] at hskip
    obtain ⟨⟨item, after⟩, hitem, h⟩ := Option.bind_eq_some_iff.mp h
    obtain ⟨hafter, hshown⟩ := ih.value hitem
    have hskip' := length_skip_le after
    have hentry : ∀ s, Json.string s = item → s.length < cs.length := by
      rintro s rfl
      have hlt := hshown s rfl
      omega
    simp only at h
    split at h
    · rename_i more hmore
      rw [hmore, List.length_cons] at hskip'
      obtain ⟨⟨fields', rest'⟩, hfields, h⟩ := Option.bind_eq_some_iff.mp h
      obtain ⟨rfl, rfl⟩ := Prod.mk.inj (Option.some.inj h)
      obtain ⟨hle, hshows⟩ := ih.fields hfields
      refine ⟨by simp only; omega, ?_⟩
      rintro s ⟨key', hmem⟩
      rcases List.mem_cons.mp hmem with hhead | hmem
      · exact hentry s (Prod.mk.inj hhead).2
      · have hlt := hshows s ⟨key', hmem⟩
        omega
    · rename_i more hmore
      rw [hmore, List.length_cons] at hskip'
      obtain ⟨rfl, rfl⟩ := Prod.mk.inj (Option.some.inj h)
      refine ⟨by omega, ?_⟩
      rintro s ⟨key', hmem⟩
      exact hentry s (Prod.mk.inj (List.mem_singleton.mp hmem)).2
    · cases h
  · cases h

theorem shortens (fuel : Nat) : Shortens fuel := by
  induction fuel with
  | zero =>
      constructor
      · intro cs j rest h
        rw [readValue] at h
        cases h
      · intro cs items rest h
        rw [readItems] at h
        cases h
      · intro cs fields rest h
        rw [readFields] at h
        cases h
  | succ fuel ih =>
      exact ⟨readValue_shortens ih, readItems_shortens ih, readFields_shortens ih⟩

/-- A text is longer than a string it stands for, and than the strings that stand in
the entries of an object it stands for. -/
theorem length_lt_of_readText {cs : List Char} {j : Json} (h : readText cs = some j)
    {s : String} (hs : Shows s j) : s.length < cs.length := by
  rw [readText] at h
  split at h
  · rename_i j' rest hread
    split at h
    · obtain rfl := Option.some.inj h
      exact ((shortens _).value hread).2 s hs
    · cases h
  · cases h

end JsonText

end RlnGifter
