import LexProduct.Text.Values

/-!
# Printing and parsing

A text lists one value more than it has commas, unless it is empty. Every value that is read has no
comma in it and no white space at either end. Values of this form, printed with a comma between them and
any white space around the comma, are read back as they were: the commas cut the text where two values
meet, and the white space is trimmed off. Only the list of one empty value is lost, as it prints the
empty text:

* `length_parseValues`: the number of values, read off the commas;
* `isValue_of_mem_parseValues`: the form of what is read;
* `parsing_inverts_printing`: both of these, and the way back.
-/

namespace LexProduct.Text

/-! ### The number of values -/

/-- The number of values that a text lists, read off its commas. -/
def valueCount (text : String) : Nat := if text = "" then 0 else 1 + text.toList.count ','

theorem length_splitOn (c : Char) (cs : List Char) : (cs.splitOn c).length = 1 + cs.count c := by
  induction cs with
  | nil => rfl
  | cons d cs ih =>
    rw [List.splitOn_cons_eq_if_modifyHead, List.count_cons]
    by_cases h : (d == c) = true
    · rw [if_pos h, if_pos h, List.length_cons, ih, Nat.add_assoc]
    · rw [if_neg h, if_neg h, List.length_modifyHead, ih]
      rfl

theorem length_parseValues (text : String) : (parseValues text).length = valueCount text := by
  unfold parseValues valueCount
  by_cases h : text = ""
  · rw [if_pos h, if_pos h]
    rfl
  · rw [if_neg h, if_neg h, List.length_map, length_splitOn]

theorem valueCount_eq_zero_iff {text : String} : valueCount text = 0 ↔ text = "" := by
  unfold valueCount
  split
  · rename_i h
    simp [h]
  · rename_i h
    simp [h]

theorem parseValues_eq_nil_iff {text : String} : parseValues text = [] ↔ text = "" := by
  rw [← List.length_eq_zero_iff, length_parseValues, valueCount_eq_zero_iff]

/-! ### Trimming -/

theorem isTrimmed_iff {cs : List Char} : isTrimmed cs = true ↔
    (∀ c ∈ cs.head?, isBlank c = false) ∧ ∀ c ∈ cs.getLast?, isBlank c = false := by
  simp [isTrimmed, Option.all_eq_true]

theorem isBlank_head?_dropWhile (cs : List Char) :
    ∀ c ∈ (cs.dropWhile isBlank).head?, isBlank c = false := by
  intro c hc
  have hhead := List.head?_dropWhile_not isBlank cs
  rw [Option.mem_def.1 hc] at hhead
  exact hhead

theorem dropWhile_isBlank_of_head? {cs : List Char} (h : ∀ c ∈ cs.head?, isBlank c = false) :
    cs.dropWhile isBlank = cs := by
  cases cs with
  | nil => rfl
  | cons c cs => rw [List.dropWhile_cons_of_neg (Bool.eq_false_iff.1 (h c rfl))]

theorem isPrefix_trimEnd (cs : List Char) : trimEnd cs <+: cs := by
  rw [← List.reverse_suffix, trimEnd, List.reverse_reverse]
  exact List.dropWhile_suffix _

theorem trim_subset (cs : List Char) : trim cs ⊆ cs :=
  fun _ hc => (List.dropWhile_suffix _).subset ((isPrefix_trimEnd _).subset hc)

theorem isTrimmed_trim (cs : List Char) : isTrimmed (trim cs) = true := by
  refine isTrimmed_iff.2 ⟨fun c hc => ?_, fun c hc => ?_⟩
  · -- cutting at the end leaves the first character
    obtain ⟨back, hback⟩ := isPrefix_trimEnd (cs.dropWhile isBlank)
    have hfirst : (cs.dropWhile isBlank).head? = some c := by
      rw [← hback, List.head?_append, ← trim, Option.mem_def.1 hc]
      rfl
    exact isBlank_head?_dropWhile cs c hfirst
  · rw [trim, trimEnd, List.getLast?_reverse] at hc
    exact isBlank_head?_dropWhile _ c hc

theorem trim_of_isTrimmed {cs : List Char} (h : isTrimmed cs = true) : trim cs = cs := by
  obtain ⟨hhead, hlast⟩ := isTrimmed_iff.1 h
  rw [← List.head?_reverse] at hlast
  rw [trim, dropWhile_isBlank_of_head? hhead, trimEnd, dropWhile_isBlank_of_head? hlast,
    List.reverse_reverse]

section Padding

variable {blanks : List Char} (h : ∀ c ∈ blanks, isBlank c = true)

include h

theorem trim_append_left (cs : List Char) : trim (blanks ++ cs) = trim cs := by
  rw [trim, List.dropWhile_append_of_pos h, ← trim]

theorem trimEnd_append_right (cs : List Char) : trimEnd (cs ++ blanks) = trimEnd cs := by
  rw [trimEnd, List.reverse_append,
    List.dropWhile_append_of_pos fun c hc => h c (List.mem_reverse.1 hc), ← trimEnd]

theorem trim_append_right (cs : List Char) : trim (cs ++ blanks) = trim cs := by
  rw [trim, trim, List.dropWhile_append]
  split
  · -- nothing but white space comes before, so the blanks go from the front as well
    rename_i hempty
    have hblanks : (blanks ++ []).dropWhile isBlank = [] := List.dropWhile_append_of_pos h
    rw [List.append_nil] at hblanks
    rw [hblanks, List.isEmpty_iff.1 hempty]
  · exact trimEnd_append_right h _

end Padding

/-! ### The form of a value -/

/-- The form that a value has when it is read: no comma in it, and no white space at either end. -/
structure IsValue (value : String) : Prop where
  noComma : ',' ∉ value.toList
  trimmed : isTrimmed value.toList = true

theorem notMem_of_mem_splitOn {c : Char} {cs piece : List Char} (h : piece ∈ cs.splitOn c) :
    c ∉ piece := by
  induction cs generalizing piece with
  | nil =>
    rw [List.splitOn_nil, List.mem_singleton] at h
    rw [h]
    exact List.not_mem_nil
  | cons d cs ih =>
    rw [List.splitOn_cons_eq_if_modifyHead] at h
    split at h
    · rcases List.mem_cons.1 h with rfl | hpiece
      · exact List.not_mem_nil
      · exact ih hpiece
    · rename_i hd
      obtain ⟨first, rest, hpieces⟩ := List.exists_cons_of_ne_nil (List.splitOn_ne_nil c cs)
      rw [hpieces, List.modifyHead_cons, List.mem_cons] at h
      rw [hpieces] at ih
      rcases h with rfl | hpiece
      · rw [List.mem_cons, not_or]
        exact ⟨fun hcd => hd (beq_iff_eq.2 hcd.symm), ih List.mem_cons_self⟩
      · exact ih (List.mem_cons_of_mem _ hpiece)

/-- **Every value that is read has the form of a value.** -/
theorem isValue_of_mem_parseValues {text value : String} (h : value ∈ parseValues text) :
    IsValue value := by
  unfold parseValues at h
  split at h
  · exact absurd h List.not_mem_nil
  · obtain ⟨piece, hpiece, rfl⟩ := List.mem_map.1 h
    refine ⟨?_, ?_⟩
    · rw [String.toList_ofList]
      exact fun hcomma => notMem_of_mem_splitOn hpiece (trim_subset piece hcomma)
    · rw [String.toList_ofList]
      exact isTrimmed_trim piece

/-! ### Reading what is printed -/

/-- A separator that can be read: one comma, with white space around it. -/
def IsSeparator (separator : String) : Prop :=
  ∃ before after, separator.toList = before ++ ',' :: after ∧
    (∀ c ∈ before, isBlank c = true) ∧ ∀ c ∈ after, isBlank c = true

/-- The text without its first and its last character. -/
def inside (text : String) : String := String.ofList text.toList.tail.dropLast

theorem inside_renderTuple (separator : String) (values : List String) :
    inside (renderTuple separator values) = joinValues separator values := by
  rw [inside, renderTuple, String.toList_append, String.toList_append, List.append_assoc]
  show String.ofList ((joinValues separator values).toList ++ [')']).dropLast = _
  rw [List.dropLast_concat, String.ofList_toList]

theorem comma_notMem_of_blank {cs : List Char} (h : ∀ c ∈ cs, isBlank c = true) : ',' ∉ cs :=
  fun hcomma => absurd (h _ hcomma) (by decide)

/-- The commas of the separators cut the text between the values. White space in front of the text, as
the separator before it leaves there, is trimmed off the first value. -/
theorem map_trim_splitOn_intercalate {before after : List Char}
    (hbefore : ∀ c ∈ before, isBlank c = true) (hafter : ∀ c ∈ after, isBlank c = true)
    {value : List Char} {values : List (List Char)}
    (hvalues : ∀ v ∈ value :: values, ',' ∉ v ∧ isTrimmed v = true) {blanks : List Char}
    (hblanks : ∀ c ∈ blanks, isBlank c = true) :
    ((blanks ++ (before ++ ',' :: after).intercalate (value :: values)).splitOn ',').map trim =
      value :: values := by
  induction values generalizing value blanks with
  | nil =>
    obtain ⟨hcomma, htrimmed⟩ := hvalues value List.mem_cons_self
    have hpiece : ',' ∉ blanks ++ value := by
      rw [List.mem_append, not_or]
      exact ⟨comma_notMem_of_blank hblanks, hcomma⟩
    rw [List.intercalate_singleton, List.splitOn_eq_singleton hpiece, List.map_singleton,
      trim_append_left hblanks, trim_of_isTrimmed htrimmed]
  | cons next values ih =>
    obtain ⟨⟨hcomma, htrimmed⟩, hrest⟩ := List.forall_mem_cons.1 hvalues
    have hpiece : ',' ∉ blanks ++ (value ++ before) := by
      rw [List.mem_append, List.mem_append, not_or, not_or]
      exact ⟨comma_notMem_of_blank hblanks, hcomma, comma_notMem_of_blank hbefore⟩
    have hcut : blanks ++ (before ++ ',' :: after).intercalate (value :: next :: values) =
        (blanks ++ (value ++ before)) ++
          ',' :: (after ++ (before ++ ',' :: after).intercalate (next :: values)) := by
      simp [List.intercalate_cons_cons]
    -- what follows the comma is white space in front of the next value
    rw [hcut, List.splitOn_append_cons_self_of_not_mem hpiece, List.map_cons, ih hrest hafter,
      trim_append_left hblanks, trim_append_right hbefore, trim_of_isTrimmed htrimmed]

theorem map_splitOn_joinValues {separator : String} (hsep : IsSeparator separator)
    {values : List String} (hne : values ≠ []) (hvalues : ∀ value ∈ values, IsValue value) :
    ((joinValues separator values).toList.splitOn ',').map (fun value => String.ofList (trim value)) =
      values := by
  obtain ⟨before, after, hsplit, hbefore, hafter⟩ := hsep
  obtain ⟨value, values, rfl⟩ := List.exists_cons_of_ne_nil hne
  have hchars : ∀ v ∈ value.toList :: values.map String.toList, ',' ∉ v ∧ isTrimmed v = true := by
    rw [← List.map_cons, List.forall_mem_map]
    exact fun v hv => ⟨(hvalues v hv).noComma, (hvalues v hv).trimmed⟩
  have hpieces := map_trim_splitOn_intercalate hbefore hafter hchars (List.forall_mem_nil _)
  rw [List.nil_append, ← hsplit, ← List.map_cons, ← String.toList_intercalate, ← joinValues] at hpieces
  have hstrings := congrArg (List.map String.ofList) hpieces
  rw [List.map_map, List.map_map] at hstrings
  simpa [Function.comp_def] using hstrings

/-- **Printing and parsing fit together.** The empty text lists no value, and any other text lists one
more than it has commas, each of the form of a value. Conversely, print any list of such values with a
separator that is one comma in white space, and read what stands between the parentheses. This gives
back the list, unless it is the list of one empty value, the only one that is lost. -/
theorem parsing_inverts_printing :
    (∀ text, (parseValues text).length = (if text = "" then 0 else 1 + text.toList.count ',') ∧
      ∀ value ∈ parseValues text, IsValue value) ∧
    ∀ separator, IsSeparator separator → ∀ values, (∀ value ∈ values, IsValue value) →
      (parseValues (inside (renderTuple separator values)) = values ↔ values ≠ [""]) := by
  refine ⟨fun text => ⟨length_parseValues text, fun value => isValue_of_mem_parseValues⟩, ?_⟩
  intro separator hsep values hvalues
  rw [inside_renderTuple]
  by_cases hne : values = []
  · subst hne
    exact iff_of_true rfl (List.cons_ne_nil _ _).symm
  · have hpieces := map_splitOn_joinValues hsep hne hvalues
    unfold parseValues
    split
    · -- the empty text is one empty piece
      rename_i hempty
      rw [hempty] at hpieces
      exact iff_of_false (Ne.symm hne) fun hlost => hlost hpieces.symm
    · rename_i htext
      refine iff_of_true hpieces ?_
      rintro rfl
      exact htext rfl

/-- The separator where the command line is given none. -/
theorem isSeparator_comma_space : IsSeparator ", " :=
  ⟨[], [' '], rfl, List.forall_mem_nil _, List.forall_mem_singleton.2 rfl⟩

end LexProduct.Text
