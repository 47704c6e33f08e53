/-
Replay keys as texts: when a key that was appended to the file loads back as
itself, and when the keys of two authentication types can meet.
-/
import RlnGifter.Server

namespace RlnGifter

section Trim

theorem dropWhile_of_head {cs : List Char}
    (h : ∀ c, cs.head? = some c → isWhitespace c = false) :
    cs.dropWhile isWhitespace = cs := by
  cases cs with
  | nil => rfl
  | cons c rest => simp [h c rfl]

/-- Trimming leaves alone what neither begins nor ends with white space. -/
theorem trim_of_ends {s : String}
    (hhead : ∀ c, s.toList.head? = some c → isWhitespace c = false)
    (hlast : ∀ c, s.toList.getLast? = some c → isWhitespace c = false) :
    trim s = s := by
  have hrdrop : s.toList.rdropWhile isWhitespace = s.toList := by
    rw [List.rdropWhile_eq_self_iff]
    intro hne
    simp [hlast _ (List.getLast?_eq_some_getLast hne)]
  rw [trim, trimChars, dropWhile_of_head hhead, hrdrop, String.ofList_toList]

/-- What was trimmed does not begin with white space. -/
theorem head_trim {s : String} {c : Char} (h : (trim s).toList.head? = some c) :
    isWhitespace c = false := by
  rw [trim, String.toList_ofList, trimChars] at h
  obtain ⟨rest, hrest⟩ := List.head?_eq_some_iff.mp h
  obtain ⟨tail, htail⟩ := List.rdropWhile_prefix isWhitespace
    (s.toList.dropWhile isWhitespace)
  have hdrop := List.head?_dropWhile_not isWhitespace s.toList
  rw [← htail, hrest] at hdrop
  exact hdrop

theorem mem_trim {s : String} {c : Char} (h : c ∈ (trim s).toList) : c ∈ s.toList := by
  rw [trim, String.toList_ofList, trimChars] at h
  exact (List.dropWhile_suffix isWhitespace).mem
    ((List.rdropWhile_prefix isWhitespace _).mem h)

end Trim

theorem wellFormed_iff {n : String} : wellFormed n = true ↔
    n ≠ "" ∧ ∀ c ∈ n.toList, isWhitespace c = false ∧ isControl c = false := by
  simp [wellFormed, List.all_eq_true]

theorem toList_replayKey (t n : String) :
    (replayKey t n).toList = t.toList ++ ':' :: n.toList := by
  simp [replayKey]

variable [CaseTables]

/-- A nullifier as it stands in a key: normalised and well formed. -/
def IsNullifier (n : String) : Prop :=
  wellFormed n = true ∧ toLowercase n = n

theorem isNullifier_normalize {nul : String} (h : wellFormed (normalize nul) = true) :
    IsNullifier (normalize nul) :=
  ⟨h, toLowercase_idem _⟩

theorem IsNullifier.noSpace {n : String} (h : IsNullifier n) :
    ∀ c ∈ n.toList, isWhitespace c = false := fun c hc =>
  ((wellFormed_iff.mp h.1).2 c hc).1

/-- Normalising keeps what is normalised and well formed. -/
theorem normalize_of_isNullifier {n : String} (h : IsNullifier n) : normalize n = n := by
  rw [normalize, trim_of_ends, h.2]
  · exact fun c hc => h.noSpace c (List.mem_of_head? hc)
  · exact fun c hc => h.noSpace c (List.mem_of_getLast? hc)

theorem isNullifier_iff {n : String} : IsNullifier n ↔
    n ≠ "" ∧ ∀ c ∈ n.toList, IsLower c ∧ isWhitespace c = false ∧ isControl c = false := by
  rw [IsNullifier, wellFormed_iff, toLowercase_eq_self_iff]
  constructor
  · rintro ⟨⟨hne, hformed⟩, hlower⟩
    exact ⟨hne, fun c hc => ⟨hlower c hc, hformed c hc⟩⟩
  · rintro ⟨hne, h⟩
    exact ⟨⟨hne, fun c hc => (h c hc).2⟩, fun c hc => (h c hc).1⟩

theorem isNullifier_x : IsNullifier "x" := by
  rw [isNullifier_iff]
  refine ⟨by decide, ?_⟩
  intro c hc
  obtain rfl : c = 'x' := by simpa using hc
  exact ⟨isLower_ascii (by decide) (by decide), by decide, by decide⟩

section Load

/-- A type whose keys load back: lowercase, on one line, and not begun with white
space. -/
structure Storable (t : String) : Prop where
  lower : toLowercase t = t
  line : '\n' ∉ t.toList
  head : ∀ c, t.toList.head? = some c → isWhitespace c = false

/-- A text that is a line of its own and is loaded as it is. -/
structure IsLine (k : String) : Prop where
  line : '\n' ∉ k.toList
  last : k.toList.getLast? ≠ some '\r'
  loads : nullifierOfLine k = some k

theorem isLower_colon : IsLower ':' :=
  isLower_ascii (by decide) (by decide)

/-- The last character of a key is that of its nullifier. -/
theorem getLast_replayKey {t n : String} (h : IsNullifier n) {c : Char}
    (hc : (replayKey t n).toList.getLast? = some c) : c ∈ n.toList := by
  have hne : n.toList ≠ [] := fun hnil =>
    (wellFormed_iff.mp h.1).1 (String.toList_eq_nil_iff.mp hnil)
  rw [toList_replayKey, List.getLast?_append_cons, List.getLast?_cons,
    List.getLast?_eq_some_getLast hne] at hc
  simp only [Option.getD_some, Option.some.injEq] at hc
  rw [← hc]
  exact List.getLast_mem hne

theorem isLine_replayKey {t n : String} (ht : Storable t) (hn : IsNullifier n) :
    IsLine (replayKey t n) := by
  have hspace := hn.noSpace
  have hlower : toLowercase (replayKey t n) = replayKey t n := by
    rw [toLowercase_eq_self_iff, toList_replayKey]
    intro c hc
    rcases List.mem_append.mp hc with hc | hc
    · exact toLowercase_eq_self_iff.mp ht.lower c hc
    · rcases List.mem_cons.mp hc with rfl | hc
      · exact isLower_colon
      · exact toLowercase_eq_self_iff.mp hn.2 c hc
  have htrim : trim (replayKey t n) = replayKey t n := by
    apply trim_of_ends
    · intro c hc
      rw [toList_replayKey, List.head?_append] at hc
      cases hhead : t.toList.head? with
      | none =>
          rw [hhead] at hc
          cases hc
          decide
      | some d =>
          rw [hhead] at hc
          cases hc
          exact ht.head c hhead
    · intro c hc
      exact hspace c (getLast_replayKey hn hc)
  constructor
  · rw [toList_replayKey, List.mem_append, List.mem_cons]
    rintro (hmem | heq | hmem)
    · exact ht.line hmem
    · exact absurd heq (by decide)
    · exact absurd (hspace _ hmem) (by decide)
  · intro hlast
    exact absurd (hspace _ (getLast_replayKey hn hlast)) (by decide)
  · have hne : replayKey t n ≠ "" := by
      intro hempty
      have hlist := toList_replayKey t n
      rw [hempty] at hlist
      simp at hlist
    rw [nullifierOfLine, htrim, hlower]
    exact if_neg hne

omit [CaseTables] in
theorem linesFrom_append {line key rest : List Char} (h : '\n' ∉ key) :
    linesFrom line (key ++ '\n' :: rest) =
      (stripCr (key.reverse ++ line)).reverse :: linesFrom [] rest := by
  induction key generalizing line with
  | nil => simp [linesFrom]
  | cons c key ih =>
      rw [List.mem_cons, not_or] at h
      obtain ⟨hc, hkey⟩ := h
      rw [List.cons_append, linesFrom, ih hkey]
      · simp
      · rintro rfl
        exact hc rfl

omit [CaseTables] in
theorem stripCr_reverse {key : List Char} (h : key.getLast? ≠ some '\r') :
    stripCr key.reverse = key.reverse := by
  cases hkey : key.reverse with
  | nil => rfl
  | cons c rest =>
      have hlast : key.getLast? = some c := by
        rw [← List.head?_reverse, hkey]
        rfl
      rw [stripCr]
      rintro rest' heq
      cases heq
      exact h hlast

/-- The lines of a file of keys are the keys. -/
theorem lines_keys {keys : List String} (h : ∀ k ∈ keys, IsLine k) :
    lines (String.join (keys.map nullifierLine)) = keys := by
  induction keys with
  | nil => rfl
  | cons k keys ih =>
      obtain ⟨hk, hkeys⟩ := List.forall_mem_cons.mp h
      have hchars : (String.join ((k :: keys).map nullifierLine)).toList =
          k.toList ++ '\n' :: (String.join (keys.map nullifierLine)).toList := by
        simp [nullifierLine]
      rw [lines, hchars, linesFrom_append hk.line, List.append_nil,
        stripCr_reverse hk.last, List.reverse_reverse, List.map_cons,
        String.ofList_toList]
      exact congrArg (k :: ·) (ih hkeys)

/-- A file of keys loads as the set of them. -/
theorem parseNullifiers_keys {keys : List String} (h : ∀ k ∈ keys, IsLine k) :
    parseNullifiers (String.join (keys.map nullifierLine)) = keys.toFinset := by
  have hload : keys.filterMap nullifierOfLine = keys := by
    induction keys with
    | nil => rfl
    | cons k keys ih =>
        obtain ⟨hk, hkeys⟩ := List.forall_mem_cons.mp h
        rw [List.filterMap_cons, hk.loads, ih hkeys]
  rw [parseNullifiers, lines_keys h, hload]

omit [CaseTables] in
theorem newline_not_mem_line {line cs found : List Char} (hline : '\n' ∉ line)
    (hfound : found ∈ linesFrom line cs) : '\n' ∉ found := by
  induction cs generalizing line with
  | nil =>
      cases line with
      | nil => cases hfound
      | cons c line =>
          rw [linesFrom, List.mem_singleton] at hfound
          rw [hfound, List.mem_reverse]
          exact hline
  | cons c cs ih =>
      by_cases hc : c = '\n'
      · subst hc
        rw [linesFrom] at hfound
        rcases List.mem_cons.mp hfound with rfl | hfound
        · rw [List.mem_reverse]
          intro hmem
          apply hline
          unfold stripCr at hmem
          split at hmem
          · exact List.mem_cons_of_mem _ hmem
          · exact hmem
        · exact ih List.not_mem_nil hfound
      · rw [linesFrom] at hfound
        · apply ih _ hfound
          rw [List.mem_cons, not_or]
          exact ⟨Ne.symm hc, hline⟩
        · exact hc

/-- Every entry a file gives is lowercase, on one line, and not begun with white
space. -/
theorem storable_of_mem_parse {contents k : String}
    (h : k ∈ parseNullifiers contents) : Storable k := by
  rw [parseNullifiers, List.mem_toFinset, List.mem_filterMap] at h
  obtain ⟨line, hline, hk⟩ := h
  have heq : toLowercase (trim line) = k := by
    rw [nullifierOfLine] at hk
    split at hk
    · cases hk
    · exact Option.some.inj hk
  subst heq
  constructor
  · exact toLowercase_idem _
  · intro hmem
    rw [toLowercase, String.toList_ofList] at hmem
    have htrim := mem_lowerFrom_whitespace hmem (by decide)
    obtain ⟨chars, hchars, rfl⟩ := List.mem_map.mp hline
    have hnone := newline_not_mem_line (by simp) hchars
    have hin := mem_trim htrim
    rw [String.toList_ofList] at hin
    exact hnone hin
  · intro c hc
    rw [toLowercase, String.toList_ofList] at hc
    cases hchars : (trim line).toList with
    | nil =>
        rw [hchars] at hc
        cases hc
    | cons d rest =>
        rw [hchars] at hc
        have hd : isWhitespace d = false := head_trim (by rw [hchars]; rfl)
        by_contra hspace
        rw [Bool.not_eq_false] at hspace
        rw [lowerFrom_cons_whitespace hc hspace, hd] at hspace
        cases hspace

/-- The types whose every key loads back after it was appended are the storable
ones. -/
theorem storable_iff_loads {t : String} : Storable t ↔
    ∀ n, IsNullifier n →
      replayKey t n ∈ parseNullifiers (nullifierLine (replayKey t n)) := by
  constructor
  · intro ht n hn
    have hparse := @parseNullifiers_keys _ [replayKey t n]
      (by simpa using isLine_replayKey ht hn)
    simp only [List.map_cons, List.map_nil, String.join_cons, String.join_nil,
      String.append_empty] at hparse
    rw [hparse]
    simp
  · intro h
    have hkey := storable_of_mem_parse (h "x" isNullifier_x)
    have hchars := toList_replayKey t "x"
    constructor
    · rw [toLowercase_eq_self_iff]
      intro c hc
      exact toLowercase_eq_self_iff.mp hkey.lower c
        (hchars ▸ List.mem_append_left _ hc)
    · intro hmem
      exact hkey.line (hchars ▸ List.mem_append_left _ hmem)
    · intro c hc
      exact hkey.head c (by rw [hchars, List.head?_append, hc]; rfl)

end Load

section Meet

/-- `t'` is `t` followed by a colon and a text that may begin a nullifier. -/
def Extends (t t' : String) : Prop :=
  ∃ u, t' = replayKey t u ∧
    ∀ c ∈ u.toList, IsLower c ∧ isWhitespace c = false ∧ isControl c = false

/-- No type extends itself. -/
theorem not_extends_self (t : String) : ¬ Extends t t := by
  rintro ⟨u, heq, -⟩
  have hlength := congrArg List.length (congrArg String.toList heq)
  rw [toList_replayKey, List.length_append, List.length_cons] at hlength
  omega

theorem extends_of_begins {t t' n : String} {more tail : List Char}
    (hn : IsNullifier n) (ht' : t'.toList = t.toList ++ more) (hmore : more ≠ [])
    (htail : ':' :: n.toList = more ++ tail) : Extends t t' := by
  cases more with
  | nil => exact absurd rfl hmore
  | cons c u =>
      obtain ⟨rfl, hu⟩ := List.cons.inj htail
      refine ⟨String.ofList u, ?_, ?_⟩
      · rw [← String.toList_inj, toList_replayKey, String.toList_ofList, ht']
      · intro c hc
        rw [String.toList_ofList] at hc
        exact (isNullifier_iff.mp hn).2 c (hu ▸ List.mem_append_left _ hc)

/-- Two keys that meet are of one type, or one type extends the other. -/
theorem eq_or_extends {t t' n n' : String} (hn : IsNullifier n) (hn' : IsNullifier n')
    (h : replayKey t n = replayKey t' n') :
    (t = t' ∧ n = n') ∨ Extends t t' ∨ Extends t' t := by
  have hchars := congrArg String.toList h
  rw [toList_replayKey, toList_replayKey] at hchars
  by_cases ht : t = t'
  · subst ht
    have htail := List.append_cancel_left hchars
    exact Or.inl ⟨rfl, String.toList_inj.mp (List.cons.inj htail).2⟩
  · rcases List.append_eq_append_iff.mp hchars with ⟨more, ht', htail⟩ |
      ⟨more, ht', htail⟩
    · refine Or.inr (Or.inl (extends_of_begins hn ht' ?_ htail))
      rintro rfl
      exact ht (String.toList_inj.mp (by simpa using ht'.symm))
    · refine Or.inr (Or.inr (extends_of_begins hn' ht' ?_ htail))
      rintro rfl
      exact ht (String.toList_inj.mp (by simpa using ht'))

/-- Where one type extends another, two of their keys meet. -/
theorem Extends.meet {t t' : String} (h : Extends t t') :
    ∃ n n', IsNullifier n ∧ IsNullifier n' ∧ replayKey t n = replayKey t' n' := by
  obtain ⟨u, rfl, hu⟩ := h
  refine ⟨replayKey u "x", "x", ?_, isNullifier_x, ?_⟩
  · rw [isNullifier_iff]
    refine ⟨fun hempty => ?_, ?_⟩
    · have hchars := toList_replayKey u "x"
      rw [hempty] at hchars
      simp at hchars
    · intro c hc
      rw [toList_replayKey, List.mem_append, List.mem_cons] at hc
      rcases hc with hc | rfl | hc
      · exact hu c hc
      · exact ⟨isLower_colon, by decide, by decide⟩
      · exact (isNullifier_iff.mp isNullifier_x).2 c hc
  · simp [replayKey, String.append_assoc]

end Meet

end RlnGifter
