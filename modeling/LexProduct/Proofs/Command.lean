import LexProduct.Command.Run
import LexProduct.Proofs.Pass.Drawing
import LexProduct.Proofs.Text.Values
import Mathlib.Algebra.BigOperators.Ring.List
import Mathlib.Algebra.Ring.Nat

/-!
# What the commands print

The command line prints tuples and their number. Both commands read the same grid from their arguments,
and from there on the theory of passes says what they do:

* `Command.gridOf_of_refused`, `Command.exists_gridOf`: where the policy is strict, the first empty argument
  is blamed; otherwise the tuples of the grid are those of the lists of values;
* `Command.runProduct_of_le`, `Command.runProduct_of_lt`: a start past the last tuple fails, and any other
  start prints the tuples from there on, up to the limit;
* `product_prints_lexProduct`: the product command against the product of the lists of values;
* `count_agrees_with_product`: the count command against the number of tuples that the product command
  prints.

A list of values is a dimension if a word counts it. `hfits` says so of the arguments; it leaves out only
texts with more commas than there are addresses for their bytes.
-/

namespace LexProduct

/-! ### Outcomes -/

/-- The command prints nothing and reports this context with this cause. -/
def Outcome.Fails (o : Outcome) (context cause : String) : Prop :=
  o.stdout = "" ∧ ∃ f, o.failure = some f ∧ f.stage.description = context ∧ f.cause.message = cause

/-- The command succeeds and prints these tuples, each in parentheses and on a line of its own. -/
def Outcome.Prints (o : Outcome) (separator : String) (tuples : List (List String)) : Prop :=
  o.failure = none ∧
    o.stdout = String.join (tuples.map fun t => "(" ++ separator.intercalate t ++ ")\n")

theorem Outcome.prints_renderTuples (separator : String) (tuples : List (List String)) :
    Prints { stdout := Text.renderTuples separator tuples } separator tuples := by
  refine ⟨rfl, ?_⟩
  show String.join (tuples.map _) = _
  congr 1
  refine List.map_congr_left fun t _ => ?_
  rw [Text.renderTuple, String.append_assoc]
  rfl

/-- The size that is reported is the exact one, as it is not above a word. -/
theorem message_rankOutOfRange_of_le {s : Word} {n : Nat} (h : n ≤ s.toNat) :
    (ProductError.rankOutOfRange s (UInt64.ofNat n)).message =
      s!"rank {s.toNat} out of range for product of {n} tuples" := by
  have hn : (UInt64.ofNat n).toNat = n := UInt64.toNat_ofNat_of_lt' (Nat.lt_of_le_of_lt h s.toNat_lt)
  show s!"rank {s.toNat} out of range for product of {(UInt64.ofNat n).toNat} tuples" = _
  rw [hn]

namespace Command

/-! ### Registering the dimensions -/

theorem length_ofList_eq_zero_iff {values : List String} :
    (Dimension.ofList values).length = 0 ↔ values = [] := by
  rw [← UInt64.toNat_inj]
  show (Word.clamp values.toArray.size).toNat = 0 ↔ _
  rw [Word.toNat_clamp, List.size_toArray, ← List.length_eq_zero_iff, UInt64.size]
  omega

theorem accepts_ofList_eq_false_iff {policy : EmptyPolicy} {values : List String} :
    policy.accepts (Dimension.ofList values).length = false ↔ policy = .refuse ∧ values = [] := by
  rw [EmptyPolicy.accepts_eq_false_iff, length_ofList_eq_zero_iff]

/-- The first list without values stops the registration, if the policy refuses it. -/
theorem registerFrom_eq (place : Nat) (g : Grid String) (lists : List (List String)) :
    registerFrom place g lists =
      if g.policy = .refuse ∧ [] ∈ lists then
        .error ⟨.registering (place + lists.idxOf []), .emptyDimension (g.size + lists.idxOf [])⟩
      else .ok (g.extend (lists.map Dimension.ofList)) := by
  induction lists generalizing place g with
  | nil => simp [registerFrom, Grid.extend]
  | cons values rest ih =>
    rw [registerFrom, Grid.tryRegister_eq]
    cases hd : g.policy.accepts (Dimension.ofList values).length with
    | false =>
      obtain ⟨hrefuse, rfl⟩ := accepts_ofList_eq_false_iff.1 hd
      rw [if_neg Bool.false_ne_true, if_pos ⟨hrefuse, List.mem_cons_self ..⟩, List.idxOf_cons_self]
      rfl
    | true =>
      rw [if_pos rfl]
      dsimp only
      rw [ih, Grid.policy_register]
      by_cases hrest : g.policy = .refuse ∧ [] ∈ rest
      · -- this list has values, so the first one without is further back
        have hvalues : values ≠ [] := by
          intro hnil
          rw [accepts_ofList_eq_false_iff.2 ⟨hrest.1, hnil⟩] at hd
          exact Bool.false_ne_true hd
        have hsize : (g.register (Dimension.ofList values)).size = g.size + 1 := by simp [Grid.size]
        rw [if_pos hrest, if_pos ⟨hrest.1, List.mem_cons_of_mem _ hrest.2⟩,
          List.idxOf_cons, beq_eq_false_iff_ne.2 hvalues, cond_false, hsize, Nat.add_assoc, Nat.add_assoc,
          Nat.add_comm 1]
      · -- neither this list nor a later one is refused
        have hcons : ¬ (g.policy = .refuse ∧ [] ∈ values :: rest) := by
          rintro ⟨hrefuse, hmem⟩
          rcases List.mem_cons.1 hmem with hnil | hmem
          · rw [accepts_ofList_eq_false_iff.2 ⟨hrefuse, hnil.symm⟩] at hd
            exact Bool.false_ne_true hd
          · exact hrest ⟨hrefuse, hmem⟩
        rw [if_neg hrest, if_neg hcons]
        rfl

theorem idxOf_parseValues (texts : List String) :
    (texts.map Text.parseValues).idxOf [] = texts.idxOf "" := by
  unfold List.idxOf
  rw [List.findIdx_map]
  congr 1
  funext text
  rw [Function.comp_apply, Bool.eq_iff_iff, beq_iff_eq, beq_iff_eq]
  exact Text.parseValues_eq_nil_iff

theorem nil_mem_parseValues {texts : List String} :
    [] ∈ texts.map Text.parseValues ↔ "" ∈ texts := by
  rw [List.mem_map]
  constructor
  · rintro ⟨text, hmem, hnil⟩
    rwa [← Text.parseValues_eq_nil_iff.1 hnil]
  · intro hmem
    exact ⟨"", hmem, rfl⟩

theorem policy_eq_refuse_iff (strict : Bool) :
    (Grid.empty (if strict then .strict else .lenient) : Grid String).policy = .refuse ↔
      strict = true := by
  cases strict <;> decide

theorem gridOf_of_refused {texts : List String} {strict : Bool} (h : strict = true ∧ "" ∈ texts) :
    gridOf texts strict =
      .error ⟨.registering (texts.idxOf "" + 1), .emptyDimension (texts.idxOf "")⟩ := by
  rw [gridOf, registerFrom_eq,
    if_pos ⟨(policy_eq_refuse_iff strict).2 h.1, nil_mem_parseValues.2 h.2⟩, idxOf_parseValues,
    Nat.add_comm 1]
  show Except.error (Failure.mk _ (.emptyDimension (0 + texts.idxOf ""))) = _
  rw [Nat.zero_add]

/-- **The tuples are those of the lists of values**, unless a text is refused. -/
theorem exists_gridOf {texts : List String} {strict : Bool} (h : ¬ (strict = true ∧ "" ∈ texts))
    (hfits : ∀ text ∈ texts, (Text.parseValues text).length < UInt64.size) :
    ∃ g, gridOf texts strict = .ok g ∧ g.tuples = lexProduct (texts.map Text.parseValues) := by
  have hnot : ¬ ((Grid.empty (if strict then .strict else .lenient) : Grid String).policy = .refuse ∧
      [] ∈ texts.map Text.parseValues) := by
    rintro ⟨hrefuse, hnil⟩
    exact h ⟨(policy_eq_refuse_iff strict).1 hrefuse, nil_mem_parseValues.1 hnil⟩
  refine ⟨_, by rw [gridOf, registerFrom_eq, if_neg hnot], ?_⟩
  rw [Grid.tuples, Grid.dimensions_extend]
  show lexProduct (List.map Dimension.toList (List.map Dimension.ofList _)) = _
  rw [List.map_map, List.map_map]
  congr 1
  refine List.map_congr_left fun text hmem => ?_
  exact Dimension.toList_ofList (hfits text hmem)

/-! ### Starting and printing -/

variable {request : ProductRequest} {g : Grid String}

theorem runProduct_of_refused (h : request.strict = true ∧ "" ∈ request.dimensions) :
    runProduct request = .ok { failure := some ⟨.registering (request.dimensions.idxOf "" + 1),
      .emptyDimension (request.dimensions.idxOf "")⟩ } := by
  rw [runProduct, gridOf_of_refused h]
  rfl

theorem passFrom_some (g : Grid String) (s : Word) :
    passFrom g (some s) = .ok (if s.toNat < g.tuples.length then .ok (g.passAt s.toNat)
      else .error ⟨.starting s, .rankOutOfRange s (UInt64.ofNat g.tuples.length)⟩) := by
  rw [passFrom, Pass.seek_eq (Pass.sound_pass g), g.length_tuples]
  show Except.ok (Except.mapError _ (if s.toNat < g.count then _ else _)) = _
  split <;> rfl

theorem runProduct_of_le {s : Word} (hg : gridOf request.dimensions request.strict = .ok g)
    (hs : request.start = some s) (hle : g.tuples.length ≤ s.toNat) :
    runProduct request = .ok
      { failure := some ⟨.starting s, .rankOutOfRange s (UInt64.ofNat g.tuples.length)⟩ } := by
  rw [runProduct, hg]
  dsimp only
  rw [hs, passFrom_some, if_neg (Nat.not_lt.2 hle)]
  rfl

theorem exists_passFrom (h : ∀ s, request.start = some s → s.toNat < g.tuples.length) :
    ∃ p, passFrom g request.start = .ok (.ok p) ∧ p.Sound ∧
      p.rest = g.tuples.drop (request.start.elim 0 UInt64.toNat) := by
  cases hs : request.start with
  | none => exact ⟨g.pass, rfl, Pass.sound_pass g, Pass.rest_pass g⟩
  | some s =>
    refine ⟨g.passAt s.toNat, ?_, Pass.sound_passAt g s.toNat, Pass.rest_passAt g s.toNat⟩
    rw [passFrom_some, if_pos (h s hs)]

theorem lt_of_not_past {start : Option Word} {n : Nat}
    (h : ¬ (start.isSome = true ∧ n ≤ start.elim 0 UInt64.toNat)) (s : Word) (hs : start = some s) :
    s.toNat < n := by
  subst hs
  exact Nat.not_le.1 fun hle => h ⟨rfl, hle⟩

theorem runProduct_of_lt (hg : gridOf request.dimensions request.strict = .ok g)
    (h : ∀ s, request.start = some s → s.toNat < g.tuples.length) :
    runProduct request = .ok
      { stdout := Text.renderTuples request.separator
          ((g.tuples.drop (request.start.elim 0 UInt64.toNat)).take
            (request.limit.elim (UInt64.size - 1) UInt64.toNat)) } := by
  obtain ⟨p, hp, hsound, hrest⟩ := exists_passFrom h
  have hlimit : (request.limit.getD Word.maxValue).toNat =
      request.limit.elim (UInt64.size - 1) UInt64.toNat := by
    cases request.limit <;> rfl
  obtain ⟨q, hq⟩ := Pass.exists_take hsound (request.limit.getD Word.maxValue).toNat
  rw [hrest, hlimit] at hq
  rw [runProduct, hg]
  dsimp only
  rw [hp, Checked.ok_bind]
  dsimp only
  rw [hlimit, hq]
  rfl

/-! ### Counting -/

theorem runCount_of_refused {texts : List String} {strict : Bool} (h : strict = true ∧ "" ∈ texts) :
    runCount texts strict = { failure := some ⟨.registering (texts.idxOf "" + 1),
      .emptyDimension (texts.idxOf "")⟩ } := by
  rw [runCount, gridOf_of_refused h]

theorem runCount_of_gridOf {texts : List String} {strict : Bool} (hg : gridOf texts strict = .ok g) :
    runCount texts strict = if g.tuples.length < UInt64.size
      then { stdout := toString g.tuples.length ++ "\n" }
      else { failure := some ⟨.counting, .cardinalityOverflow⟩ } := by
  rw [runCount, hg, g.length_tuples]
  dsimp only
  rw [g.cardinality_eq]
  cases hn : Word.ofNat? g.count with
  | none =>
    rw [if_neg (Nat.not_lt.2 (Word.ofNat?_eq_none_iff.1 hn))]
    rfl
  | some n =>
    rw [← Word.ofNat?_eq_some_iff.1 hn, if_pos n.toNat_lt]
    rfl

theorem length_lexProduct_parseValues {texts : List String} (hne : texts ≠ []) :
    (lexProduct (texts.map Text.parseValues)).length = (texts.map Text.valueCount).prod := by
  rw [lexProduct, if_neg (by simpa using hne), length_nestedLoops]
  clear hne
  induction texts with
  | nil => rfl
  | cons text texts ih => rw [List.map_cons, List.foldr_cons, ih, Text.length_parseValues]; rfl

theorem prod_valueCount_eq_zero {texts : List String} (h : "" ∈ texts) :
    (texts.map Text.valueCount).prod = 0 := by
  have hzero := List.mem_map_of_mem (f := Text.valueCount) h
  rw [Text.valueCount_eq_zero_iff.2 rfl] at hzero
  exact List.prod_eq_zero hzero

end Command

/-! ### The commands -/

/-- **The product command prints the lexicographic product.** Where the policy is strict it fails at the
first empty argument. Otherwise it fails at a start past the last tuple, also where there is no tuple at
all. Otherwise it prints the product of the lists of values without the tuples before the start, cut to
the limit. -/
theorem product_prints_lexProduct (request : ProductRequest)
    (hfits : ∀ text ∈ request.dimensions, (Text.parseValues text).length < UInt64.size) :
    ∃ outcome, Command.run (.product request) = .ok outcome ∧
      let i := request.dimensions.idxOf ""
      let tuples := lexProduct (request.dimensions.map Text.parseValues)
      let n := tuples.length
      let start := request.start.elim 0 UInt64.toNat
      let limit := request.limit.elim (UInt64.size - 1) UInt64.toNat
      if request.strict = true ∧ "" ∈ request.dimensions then
        outcome.Fails s!"invalid dimension {i + 1}" s!"dimension {i} is empty"
      else if request.start.isSome = true ∧ n ≤ start then
        outcome.Fails s!"cannot start at rank {start}"
          s!"rank {start} out of range for product of {n} tuples"
      else
        outcome.Prints request.separator ((tuples.drop start).take limit) := by
  by_cases hrefused : request.strict = true ∧ "" ∈ request.dimensions
  · refine ⟨_, Command.runProduct_of_refused hrefused, ?_⟩
    dsimp only
    rw [if_pos hrefused]
    exact ⟨rfl, _, rfl, rfl, rfl⟩
  obtain ⟨g, hg, htuples⟩ := Command.exists_gridOf hrefused hfits
  rw [← htuples]
  by_cases hpast : request.start.isSome = true ∧ g.tuples.length ≤ request.start.elim 0 UInt64.toNat
  · -- only a start that was given can lie past the last tuple
    obtain ⟨s, hs⟩ := Option.isSome_iff_exists.1 hpast.1
    rw [hs] at hpast ⊢
    refine ⟨_, Command.runProduct_of_le hg hs hpast.2, ?_⟩
    dsimp only
    rw [if_neg hrefused, if_pos hpast]
    exact ⟨rfl, _, rfl, rfl, message_rankOutOfRange_of_le hpast.2⟩
  · refine ⟨_, Command.runProduct_of_lt hg (Command.lt_of_not_past hpast), ?_⟩
    dsimp only
    rw [if_neg hrefused, if_neg hpast]
    exact Outcome.prints_renderTuples _ _

/-- Two of four tuples, from the second one on. -/
theorem product_prints_two_of_four :
    (∀ text ∈ ["a , b", "1,2"], (Text.parseValues text).length < UInt64.size) ∧
    ∃ outcome, Command.run (.product
        { dimensions := ["a , b", "1,2"], start := some 1, limit := some 2, separator := "; " }) =
        .ok outcome ∧
      outcome.Prints "; " [["a", "2"], ["b", "1"]] := by
  have hfits : ∀ text ∈ ["a , b", "1,2"], (Text.parseValues text).length < UInt64.size := by decide
  obtain ⟨outcome, hrun, h⟩ := product_prints_lexProduct
    { dimensions := ["a , b", "1,2"], start := some 1, limit := some 2, separator := "; " } hfits
  exact ⟨hfits, outcome, hrun, h⟩

/-- **The count command counts the tuples that the product command prints.** Both refuse the same
arguments in the same words. Otherwise let `n` be the product of the numbers of values, each argument
having one value more than it has commas and the empty one none. The product command prints `n` tuples,
if that is a word, and the count command prints `n`; otherwise the count command fails. An empty argument
makes the count zero, however many values the others have. -/
theorem count_agrees_with_product (texts : List String) (strict : Bool) (separator : String)
    (hne : texts ≠ []) (hfits : ∀ text ∈ texts, (Text.parseValues text).length < UInt64.size) :
    ∃ printed counted,
      Command.run (.product { dimensions := texts, separator, strict }) = .ok printed ∧
      Command.run (.count texts strict) = .ok counted ∧
      let i := texts.idxOf ""
      let tuples := lexProduct (texts.map Text.parseValues)
      let n := (texts.map fun text => if text = "" then 0 else 1 + text.toList.count ',').prod
      if strict = true ∧ "" ∈ texts then
        printed.Fails s!"invalid dimension {i + 1}" s!"dimension {i} is empty" ∧ counted = printed
      else
        tuples.length = n ∧ printed.Prints separator (tuples.take (UInt64.size - 1)) ∧
        ("" ∈ texts → n = 0) ∧
        if n < UInt64.size then
          printed.Prints separator tuples ∧ counted = { stdout := toString n ++ "\n" }
        else
          counted.failure = some ⟨.counting, .cardinalityOverflow⟩ ∧
          counted.Fails "failed to count tuples" "cartesian product cardinality overflows usize" := by
  by_cases hrefused : strict = true ∧ "" ∈ texts
  · refine ⟨_, _, Command.runProduct_of_refused hrefused, rfl, ?_⟩
    dsimp only
    rw [if_pos hrefused]
    exact ⟨⟨rfl, _, rfl, rfl, rfl⟩, Command.runCount_of_refused hrefused⟩
  obtain ⟨g, hg, htuples⟩ := Command.exists_gridOf hrefused hfits
  have hprinted : Command.runProduct { dimensions := texts, separator, strict } =
      .ok { stdout := Text.renderTuples separator (g.tuples.take (UInt64.size - 1)) } :=
    Command.runProduct_of_lt hg nofun
  refine ⟨_, _, hprinted, rfl, ?_⟩
  have hn := Command.length_lexProduct_parseValues hne
  have hprints := Outcome.prints_renderTuples separator (g.tuples.take (UInt64.size - 1))
  rw [htuples] at hprints ⊢
  rw [Command.runCount_of_gridOf hg, htuples, hn]
  dsimp only
  rw [if_neg hrefused]
  refine ⟨hn, hprints, Command.prod_valueCount_eq_zero, ?_⟩
  change if (texts.map Text.valueCount).prod < UInt64.size then _ else _
  by_cases hfew : (texts.map Text.valueCount).prod < UInt64.size
  · rw [if_pos hfew, if_pos hfew]
    -- the limit that stands for none is then no limit
    rw [List.take_of_length_le (by omega)] at hprints ⊢
    exact ⟨hprints, rfl⟩
  · rw [if_neg hfew, if_neg hfew]
    exact ⟨rfl, rfl, _, rfl, rfl, rfl⟩

/-- Of three arguments, the first lists an empty value and the second a blank one. -/
theorem count_agrees_with_product_three :
    ["a,,b", " ", "x"] ≠ [] ∧
    (∀ text ∈ ["a,,b", " ", "x"], (Text.parseValues text).length < UInt64.size) ∧
    ∃ printed,
      Command.run (.product { dimensions := ["a,,b", " ", "x"], separator := ", ", strict := false }) =
        .ok printed ∧
      Command.run (.count ["a,,b", " ", "x"] false) = .ok { stdout := "3\n" } ∧
      printed.Prints ", " [["a", "", "x"], ["", "", "x"], ["b", "", "x"]] := by
  have hne : ["a,,b", " ", "x"] ≠ [] := by decide
  have hfits : ∀ text ∈ ["a,,b", " ", "x"], (Text.parseValues text).length < UInt64.size := by decide
  obtain ⟨printed, counted, hprinted, hcounted, -, -, -, hall, rfl⟩ :=
    count_agrees_with_product ["a,,b", " ", "x"] false ", " hne hfits
  exact ⟨hne, hfits, printed, hprinted, hcounted, hall⟩

end LexProduct
