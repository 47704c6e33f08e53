/-
Appending to a file that is already there: what a list of keys adds to the set
that is loaded, and the one thing about the old contents it depends on, the text
after their last line feed.
-/
import Mathlib.Data.Finset.Lattice.Fold
import Mathlib.Order.Lattice.Nat
import RlnGifter.Keys
import RlnGifter.Platform

namespace RlnGifter

open Program

/-- Nothing but white space. -/
def Blank (cs : List Char) : Prop :=
  ∀ c ∈ cs, isWhitespace c = true

instance (cs : List Char) : Decidable (Blank cs) :=
  List.decidableBAll (fun c => isWhitespace c = true) cs

/-- What stands after the last line feed of a text. -/
def openLine (contents : String) : List Char :=
  contents.toList.rtakeWhile (· ≠ '\n')

/-- The lines of a text that end in a line feed. -/
def closedLines (contents : String) : List Char :=
  contents.toList.rdropWhile (· ≠ '\n')

/-- A key as it may be appended: some text, without line feeds and without white
space around it. -/
structure IsKey (k : String) : Prop where
  nonempty : k ≠ ""
  line : '\n' ∉ k.toList
  head : ∀ c, k.toList.head? = some c → isWhitespace c = false
  last : ∀ c, k.toList.getLast? = some c → isWhitespace c = false

section Lines

theorem closedLines_append_openLine (contents : String) :
    closedLines contents ++ openLine contents = contents.toList :=
  List.rdropWhile_append_rtakeWhile

theorem newline_not_mem_openLine (contents : String) : '\n' ∉ openLine contents := by
  intro hmem
  have hne := List.mem_rtakeWhile_imp hmem
  simp at hne

/-- The closed lines are none, or they end in a line feed. -/
theorem closedLines_cases (contents : String) :
    closedLines contents = [] ∨ ∃ cs, closedLines contents = cs ++ ['\n'] := by
  by_cases hne : closedLines contents = []
  · exact Or.inl hne
  · have hlast : (closedLines contents).getLast hne = '\n' := by
      by_contra hother
      exact List.rdropWhile_last_not (· ≠ '\n') contents.toList hne
        (decide_eq_true hother)
    refine Or.inr ⟨(closedLines contents).dropLast, ?_⟩
    nth_rewrite 1 [← List.dropLast_append_getLast hne]
    rw [hlast]

theorem linesFrom_append_closed (line cs rest : List Char) :
    linesFrom line (cs ++ '\n' :: rest) =
      linesFrom line (cs ++ ['\n']) ++ linesFrom [] rest := by
  induction cs generalizing line with
  | nil => simp [linesFrom]
  | cons c cs ih =>
      by_cases hc : c = '\n'
      · subst hc
        simp only [List.cons_append, linesFrom, ih]
      · simp only [List.cons_append, linesFrom, ih]

/-- What follows the closed lines is split into lines on its own. -/
theorem linesFrom_closedLines (contents : String) (rest : List Char) :
    linesFrom [] (closedLines contents ++ rest) =
      linesFrom [] (closedLines contents) ++ linesFrom [] rest := by
  rcases closedLines_cases contents with hnil | ⟨cs, hcs⟩
  · rw [hnil]
    rfl
  · rw [hcs, List.append_assoc]
    exact linesFrom_append_closed [] cs rest

/-- A text without line feeds is one line at most. -/
theorem mem_linesFrom_open {line cs found : List Char} (h : '\n' ∉ cs)
    (hfound : found ∈ linesFrom line cs) : found = (cs.reverse ++ line).reverse := by
  induction cs generalizing line with
  | nil =>
      cases line with
      | nil => cases hfound
      | cons c line => exact List.mem_singleton.mp hfound
  | cons c cs ih =>
      rw [List.mem_cons, not_or] at h
      obtain ⟨hc, hcs⟩ := h
      rw [linesFrom] at hfound
      · simpa using ih hcs hfound
      · rintro rfl
        exact hc rfl

end Lines

section Trimming

theorem trimChars_of_blank {cs : List Char} (h : Blank cs) : trimChars cs = [] := by
  have hdrop : cs.dropWhile isWhitespace = [] := by
    rw [List.dropWhile_eq_nil_iff]
    exact h
  rw [trimChars, hdrop]
  rfl

/-- White space before a key is trimmed away. -/
theorem trimChars_blank_append {cs : List Char} (h : Blank cs) {k : String}
    (hk : IsKey k) : trimChars (cs ++ k.toList) = k.toList := by
  have htrim := trim_of_ends hk.head hk.last
  rw [trimChars, List.dropWhile_append_of_pos h]
  rw [trim, ← String.toList_inj, String.toList_ofList] at htrim
  exact htrim

theorem IsKey.toList_ne_nil {k : String} (hk : IsKey k) : k.toList ≠ [] := fun hnil =>
  hk.nonempty (String.toList_eq_nil_iff.mp hnil)

/-- What ends in a key ends as the key does. -/
theorem IsKey.last_append {k : String} (hk : IsKey k) (front : List Char) {c : Char}
    (hc : (front ++ k.toList).getLast? = some c) : isWhitespace c = false := by
  rw [List.getLast?_append_of_ne_nil front hk.toList_ne_nil] at hc
  exact hk.last c hc

/-- A text that is not blank stays, from its first character on, before a key. -/
theorem length_trimChars_append {cs : List Char} (h : ¬ Blank cs) {k : String}
    (hk : IsKey k) : k.toList.length < (trimChars (cs ++ k.toList)).length := by
  have hdrop : cs.dropWhile isWhitespace ≠ [] := by
    rw [ne_eq, List.dropWhile_eq_nil_iff]
    exact h
  have hkept : (cs.dropWhile isWhitespace ++ k.toList).rdropWhile isWhitespace =
      cs.dropWhile isWhitespace ++ k.toList := by
    rw [List.rdropWhile_eq_self_iff]
    intro hne
    simp [hk.last_append _ (List.getLast?_eq_some_getLast hne)]
  have hpos := List.length_pos_iff.mpr hdrop
  rw [trimChars, List.dropWhile_append, if_neg (by simpa using hdrop), hkept,
    List.length_append]
  omega

end Trimming

section Entries

variable [CaseTables]

/-- The entries of a text. -/
def entries (cs : List Char) : Finset String :=
  (((linesFrom [] cs).map String.ofList).filterMap nullifierOfLine).toFinset

theorem loadNullifiers_eq_entries {path : String} (hpath : path ≠ "")
    (contents : Option String) :
    loadNullifiers path contents = entries (contents.getD "").toList := by
  rw [loadNullifiers.eq_def, if_neg hpath]
  cases contents <;> rfl

theorem entries_closedLines (contents : String) (rest : List Char) :
    entries (closedLines contents ++ rest) =
      entries (closedLines contents) ∪ entries rest := by
  rw [entries, linesFrom_closedLines, List.map_append, List.filterMap_append,
    List.toFinset_append]
  rfl

/-- An open line that is blank gives no entry. -/
theorem entries_blank {cs : List Char} (h : Blank cs) (hline : '\n' ∉ cs) :
    entries cs = ∅ := by
  have hnone : nullifierOfLine (String.ofList cs) = none := by
    rw [nullifierOfLine, trim, String.toList_ofList, trimChars_of_blank h]
    rfl
  rw [entries, List.toFinset_eq_empty_iff, List.filterMap_eq_nil_iff]
  intro line hmem
  obtain ⟨found, hfound, rfl⟩ := List.mem_map.mp hmem
  rw [mem_linesFrom_open hline hfound, List.append_nil, List.reverse_reverse, hnone]

theorem length_lowerFrom (before cs : List Char) :
    cs.length ≤ (lowerFrom before cs).length := by
  induction cs generalizing before with
  | nil => exact Nat.zero_le _
  | cons c rest ih =>
      have hrest := ih (c :: before)
      have hpos := List.length_pos_iff.mpr (CaseTables.lower_ne_nil c)
      rw [lowerFrom, List.length_append, List.length_cons]
      split
      · rw [List.length_singleton]
        omega
      · omega

theorem toLowercase_eq_empty {cs : List Char} (h : toLowercase (String.ofList cs) = "") :
    cs = [] := by
  have hlength := length_lowerFrom [] cs
  rw [toLowercase, String.toList_ofList] at h
  rw [String.ofList_eq_empty_iff.mp h] at hlength
  exact List.length_eq_zero_iff.mp (Nat.le_zero.mp hlength)

/-- A key on the line of an open text is one entry, with that text. -/
theorem entries_append_key {cs rest : List Char} {k : String} (hk : IsKey k)
    (hline : '\n' ∉ cs) :
    entries (cs ++ k.toList ++ '\n' :: rest) =
      insert (toLowercase (String.ofList (trimChars (cs ++ k.toList)))) (entries rest) := by
  have hfeed : '\n' ∉ cs ++ k.toList := by
    rw [List.mem_append, not_or]
    exact ⟨hline, hk.line⟩
  have hcr : (cs ++ k.toList).getLast? ≠ some '\r' := fun hlast =>
    absurd (hk.last_append cs hlast) (by decide)
  have hkept : trimChars (cs ++ k.toList) ≠ [] := by
    intro hnil
    by_cases hblank : Blank cs
    · rw [trimChars_blank_append hblank hk] at hnil
      exact hk.toList_ne_nil hnil
    · have hlength := length_trimChars_append hblank hk
      rw [hnil] at hlength
      exact Nat.not_lt_zero _ hlength
  have hentry : nullifierOfLine (String.ofList (cs ++ k.toList)) =
      some (toLowercase (String.ofList (trimChars (cs ++ k.toList)))) := by
    rw [nullifierOfLine, trim, String.toList_ofList]
    exact if_neg fun hempty => hkept (toLowercase_eq_empty hempty)
  rw [entries, linesFrom_append hfeed, List.append_nil, stripCr_reverse hcr,
    List.reverse_reverse, List.map_cons, List.filterMap_cons, hentry, List.toFinset_cons]
  rfl

/-- The entries of keys, each on a line of its own. -/
theorem entries_keys {keys : List String} (h : ∀ k ∈ keys, IsKey k) :
    entries (String.join (keys.map nullifierLine)).toList =
      (keys.map toLowercase).toFinset := by
  induction keys with
  | nil => rfl
  | cons k keys ih =>
      obtain ⟨hk, hkeys⟩ := List.forall_mem_cons.mp h
      have hchars : (String.join ((k :: keys).map nullifierLine)).toList =
          [] ++ k.toList ++ '\n' :: (String.join (keys.map nullifierLine)).toList := by
        simp [nullifierLine]
      have htrim : trimChars ([] ++ k.toList) = k.toList :=
        trimChars_blank_append (by simp [Blank]) hk
      rw [hchars, entries_append_key hk (by simp), htrim, String.ofList_toList, ih hkeys,
        List.map_cons, List.toFinset_cons]

/-- Where the open line is blank, the keys appended are the entries added. -/
theorem entries_append_keys {contents : String} (h : Blank (openLine contents))
    {keys : List String} (hkeys : ∀ k ∈ keys, IsKey k) :
    entries (contents ++ String.join (keys.map nullifierLine)).toList =
      entries contents.toList ∪ (keys.map toLowercase).toFinset := by
  have hfeed := newline_not_mem_openLine contents
  have hold : entries contents.toList = entries (closedLines contents) := by
    rw [← closedLines_append_openLine contents, entries_closedLines,
      entries_blank h hfeed, Finset.union_empty]
  rw [hold, String.toList_append, ← closedLines_append_openLine contents,
    List.append_assoc, entries_closedLines]
  congr 1
  cases keys with
  | nil =>
      simp only [List.map_nil, String.join_nil, String.toList_empty, List.append_nil]
      rw [entries_blank h hfeed]
      rfl
  | cons k keys =>
      obtain ⟨hk, hkeys⟩ := List.forall_mem_cons.mp hkeys
      have hchars : openLine contents ++
          (String.join ((k :: keys).map nullifierLine)).toList =
          openLine contents ++ k.toList ++
            '\n' :: (String.join (keys.map nullifierLine)).toList := by
        simp [nullifierLine]
      rw [hchars, entries_append_key hk hfeed, trimChars_blank_append h hk,
        String.ofList_toList, entries_keys hkeys, List.map_cons, List.toFinset_cons]

/-- A key longer than any entry there is. -/
def longKey (found : Finset String) : String :=
  String.ofList (List.replicate (found.sup String.length + 1) 'x')

omit [CaseTables] in
theorem toList_longKey (found : Finset String) :
    (longKey found).toList = List.replicate (found.sup String.length + 1) 'x' :=
  String.toList_ofList

omit [CaseTables] in
theorem isKey_longKey (found : Finset String) : IsKey (longKey found) := by
  have hmem : ∀ c ∈ (longKey found).toList, c = 'x' := by
    intro c hc
    rw [toList_longKey] at hc
    exact List.eq_of_mem_replicate hc
  constructor
  · intro hempty
    have hchars := toList_longKey found
    rw [hempty] at hchars
    simp [List.replicate_succ] at hchars
  · intro hfeed
    exact absurd (hmem _ hfeed) (by decide)
  · intro c hc
    rw [hmem c (List.mem_of_head? hc)]
    decide
  · intro c hc
    rw [hmem c (List.mem_of_getLast? hc)]
    decide

theorem toLowercase_longKey (found : Finset String) :
    toLowercase (longKey found) = longKey found := by
  rw [toLowercase_eq_self_iff, toList_longKey]
  intro c hc
  rw [List.eq_of_mem_replicate hc]
  exact isLower_ascii (by decide) (by decide)

omit [CaseTables] in
theorem longKey_not_mem (found : Finset String) : longKey found ∉ found := by
  intro hmem
  have hle := Finset.le_sup (f := String.length) hmem
  rw [← String.length_toList, toList_longKey, List.length_replicate] at hle
  omega

/-- Where the open line is not blank, a key appended to it is not found. -/
theorem longKey_not_found {contents : String} (h : ¬ Blank (openLine contents)) :
    longKey (entries (closedLines contents)) ∉
      entries (contents ++ nullifierLine (longKey (entries (closedLines contents)))).toList := by
  generalize hfound : entries (closedLines contents) = found
  have hkey := isKey_longKey found
  have hchars : (contents ++ nullifierLine (longKey found)).toList =
      closedLines contents ++ (openLine contents ++ (longKey found).toList ++ ['\n']) := by
    rw [nullifierLine, String.toList_append, String.toList_append,
      ← closedLines_append_openLine contents]
    simp
  rw [hchars, entries_closedLines, hfound,
    entries_append_key hkey (newline_not_mem_openLine contents), Finset.mem_union,
    Finset.mem_insert]
  rintro (hold | hwith | hrest)
  · exact longKey_not_mem found hold
  · -- the entry made of both texts is longer than the key
    have hlonger := length_trimChars_append h hkey
    have hlower := length_lowerFrom [] (trimChars (openLine contents ++ (longKey found).toList))
    have hsame := congrArg (List.length ∘ String.toList) hwith
    simp only [Function.comp_apply, toLowercase, String.toList_ofList] at hsame
    omega
  · simp [entries, linesFrom] at hrest

end Entries

section Appends

variable [CaseTables]

/-- A run in which every append went through. -/
def AppendsAll (path : String) (keys : List String) (s s' : Shared) : Prop :=
  ∃ (envs : List Env) (trace : Trace),
    (∀ env ∈ envs, env.opened = true ∧ env.written = none) ∧
    Does execOp (keys.forM (appendNullifier path)) s envs trace (.ret ()) s'

theorem files_appendNullifier {path k : String} (hpath : path ≠ "") {s s' : Shared}
    {envs : List Env} {trace : Trace} (hwritten : ∀ env ∈ envs,
      env.opened = true ∧ env.written = none)
    (h : Does execOp (appendNullifier path k) s envs trace (.ret ()) s') :
    s'.files path = some ((s.files path).getD "" ++ nullifierLine k) := by
  rw [appendNullifier, if_neg hpath] at h
  obtain ⟨env, envs', trace', rfl, -, hrest⟩ := does_op h
  obtain ⟨-, -, -, rfl⟩ := does_ret hrest
  obtain ⟨hopened, hall⟩ := hwritten env List.mem_cons_self
  simp [execOp, hopened, hall, writtenPart]

/-- The file after appends is what it was, with a line a key. -/
theorem AppendsAll.files {path : String} (hpath : path ≠ "") {keys : List String}
    {s s' : Shared} (h : AppendsAll path keys s s') :
    (s'.files path).getD "" =
      (s.files path).getD "" ++ String.join (keys.map nullifierLine) := by
  obtain ⟨envs, trace, hwritten, h⟩ := h
  induction keys generalizing s envs trace with
  | nil =>
      obtain ⟨-, -, -, rfl⟩ := does_ret h
      simp
  | cons k keys ih =>
      obtain ⟨first, second, head, tail, _, mid, rfl, rfl, hfirst, hsecond⟩ := does_bind h
      obtain ⟨hk, hkeys⟩ := List.forall_mem_append.mp hwritten
      rw [ih second tail hkeys hsecond, files_appendNullifier hpath hk hfirst,
        Option.getD_some, List.map_cons, String.join_cons, String.append_assoc]

/-- There is such a run for all keys, from every state. -/
theorem exists_appended (path : String) (keys : List String) (s : Shared) :
    ∃ s', AppendsAll path keys s s' := by
  induction keys generalizing s with
  | nil => exact ⟨s, [], [], by simp, .done _ _⟩
  | cons k keys ih =>
      have hone : ∃ (envs : List Env) (trace : Trace) (s' : Shared),
          (∀ env ∈ envs, env.opened = true ∧ env.written = none) ∧
          Does execOp (appendNullifier path k) s envs trace (.ret ()) s' := by
        rw [appendNullifier]
        split
        · exact ⟨[], [], s, by simp, .done _ _⟩
        · exact ⟨[{}], _, _, by simp, .act (.done _ _)⟩
      obtain ⟨first, head, mid, hfirst, hk⟩ := hone
      obtain ⟨s', second, tail, hsecond, hkeys⟩ := ih mid
      exact ⟨s', first ++ second, head ++ tail,
        List.forall_mem_append.mpr ⟨hfirst, hsecond⟩, hk.bind hkeys⟩

/-- What the appends to a file that holds `contents` add to the set loaded from
it is the set of the lowercased keys. -/
def AppendsMonotone (path : String) (contents : Option String) : Prop :=
  ∀ (keys : List String) (s s' : Shared), (∀ k ∈ keys, IsKey k) →
    s.files path = contents → AppendsAll path keys s s' →
      loadNullifiers path (s'.files path) =
        loadNullifiers path contents ∪ (keys.map toLowercase).toFinset

/-- Appending is monotone on exactly the files that have nothing but white space
after their last line feed. -/
theorem monotone_iff_blank {path : String} (hpath : path ≠ "")
    (contents : Option String) :
    AppendsMonotone path contents ↔ Blank (openLine (contents.getD "")) := by
  constructor
  · intro hmonotone
    by_contra hopen
    have hnot := longKey_not_found hopen
    generalize hkey : longKey (entries (closedLines (contents.getD ""))) = key at hnot
    have hiskey : IsKey key := hkey ▸ isKey_longKey _
    have hlower : toLowercase key = key := hkey ▸ toLowercase_longKey _
    obtain ⟨s', happended⟩ := exists_appended path [key] { files := fun _ => contents }
    have hload := hmonotone [key] _ s' (by simpa using hiskey) rfl happended
    apply hnot
    rw [loadNullifiers_eq_entries hpath (s'.files path), happended.files hpath] at hload
    simp only [List.map_cons, List.map_nil, String.join_cons, String.join_nil,
      String.append_empty] at hload
    rw [hload, hlower]
    simp
  · rintro hblank keys s s' hkeys rfl happended
    rw [loadNullifiers_eq_entries hpath, loadNullifiers_eq_entries hpath,
      happended.files hpath, entries_append_keys hblank hkeys]

end Appends

open Platform in
theorem monotone_closed :
    AppendsMonotone "nullifiers" (some "voucher:a1\n") ∧
      AppendsMonotone "nullifiers" none := by
  constructor
  · exact (monotone_iff_blank (by decide) _).mpr (by decide +kernel)
  · exact (monotone_iff_blank (by decide) _).mpr (by decide +kernel)

open Platform in
/-- After a write that was cut before its line feed, the next key and the one
before it load as a single entry that is neither. -/
theorem cut_line_merges :
    ¬ AppendsMonotone "nullifiers" (some "voucher:a1") ∧
      ∃ s s', s.files "nullifiers" = some "voucher:a1" ∧ IsKey "voucher:b2" ∧
        AppendsAll "nullifiers" ["voucher:b2"] s s' ∧
        loadNullifiers "nullifiers" (s'.files "nullifiers") = {"voucher:a1voucher:b2"} := by
  have hkey : IsKey "voucher:b2" := by
    constructor
    · decide
    · decide
    · rintro c hc
      cases hc
      decide
    · rintro c hc
      cases hc
      decide
  obtain ⟨s', happended⟩ := exists_appended "nullifiers" ["voucher:b2"]
    { files := fun _ => some "voucher:a1" }
  have hload : loadNullifiers "nullifiers" (s'.files "nullifiers") =
      {"voucher:a1voucher:b2"} := by
    rw [loadNullifiers_eq_entries (by decide), happended.files (by decide)]
    decide +kernel
  refine ⟨fun hmonotone => ?_, _, s', rfl, hkey, happended, hload⟩
  have hunion := hmonotone ["voucher:b2"] _ s' (by simpa using hkey) rfl happended
  rw [hload] at hunion
  have hlost : "voucher:b2" ∈ ({"voucher:a1voucher:b2"} : Finset String) := by
    rw [hunion]
    decide +kernel
  exact absurd hlost (by decide)

end RlnGifter
