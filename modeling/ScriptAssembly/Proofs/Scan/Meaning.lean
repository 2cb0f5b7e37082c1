import ScriptAssembly.Proofs.Scan.Words
import ScriptAssembly.Proofs.Text.Search

/-!
# What a line says

A line says what is written on it, told without a reader: which rule claims it, `LineRule.Claims`,
and which names this rule finds, `LineRule.Finds`.  Definitions and arguments are found at their
first place, an argument is the shortest there, and an expression gives its longest runs of word
characters.  Reading a line gives what it says and nothing else.
-/

namespace ScriptAssembly.Scan

open Text

/-- The line begins with the word, its leading blanks apart. -/
def Opens (word : String) (line : List Char) : Prop :=
  ∃ gap opening, line = gap ++ opening ∧ Blank gap ∧ Ends isBlank opening ∧
    word.toList <+: opening

/-- The texts that begin with the definition of a name: `#define`, blanks and the name, which no
word character follows. -/
inductive Definition : List Char → List Char → Prop
  | intro {gap name rest} (hgap : gap ≠ []) (hblank : Blank gap) (hname : name ≠ [])
      (hword : ∀ c ∈ name, isWord c) (hrest : Ends isWord rest) :
      Definition ("#define".toList ++ (gap ++ (name ++ rest))) name

/-- The texts that begin with an argument on one line and close it. -/
inductive Closed : List Char → List Char → Prop
  | intro {name rest} (hname : name ≠ []) (hline : '\n' ∉ name) :
      Closed (name ++ ("\")]".toList ++ rest)) name

/-- A definition of the name stands behind `before`. -/
def Defines (line before name : List Char) : Prop :=
  ∃ s, line = before ++ s ∧ Definition s name

/-- An attribute with the argument `name` stands behind `before`. -/
def Attaches (line before name : List Char) : Prop :=
  ∃ s, line = before ++ ("[Conditional(\"".toList ++ s) ∧ Closed s name

/-- The rule claims the line, as the first that can. -/
def LineRule.Claims (line : List Char) : LineRule → Prop
  | .define => Opens "#define" line
  | .expression => ¬Opens "#define" line ∧ (Opens "#if" line ∨ Opens "#elif" line)
  | .attribute => ¬Opens "#define" line ∧ ¬(Opens "#if" line ∨ Opens "#elif" line) ∧
      "[Conditional(".toList <:+: line

/-- The names that stand on a line for a rule. -/
inductive LineRule.Finds (line : List Char) : LineRule → List String → Prop
  | definition {before name} (hname : Defines line before name)
      (hfirst : ∀ front other, Defines line front other → before.length ≤ front.length) :
      Finds line .define [.ofList name]
  | noDefinition (hnone : ∀ before name, ¬Defines line before name) : Finds line .define []
  | runs {runs} (hruns : RunsOf line runs) :
      Finds line .expression ((runs.map String.ofList).filter fun word => word ∉ keywords)
  | argument {before name} (hname : Attaches line before name)
      (hfirst : ∀ front other, Attaches line front other → before.length ≤ front.length)
      (hshortest : ∀ other, Attaches line before other → name.length ≤ other.length) :
      Finds line (.attribute) [.ofList name]
  | noArgument (hnone : ∀ before name, ¬Attaches line before name) : Finds line (.attribute) []

/-- What a line says: the names that its rule finds, or nothing if no rule claims it. -/
inductive Says (line : List Char) : Option LineMatch → Prop
  | claimed {rule symbols} (hclaims : rule.Claims line) (hfinds : rule.Finds line symbols) :
      Says line (some ⟨rule, symbols⟩)
  | unclaimed (hnone : ∀ rule : LineRule, ¬rule.Claims line) : Says line none

/-! ## Claims -/

variable {s line before name rest : List Char} {symbols : List String} {word : String} {c : Char}

theorem opens_iff : Opens word line ↔ startsWith word (trimStart line) := by
  rw [startsWith_iff]
  constructor
  · rintro ⟨gap, opening, rfl, hgap, hends, hword⟩
    rwa [trimStart_blank_append hgap, trimStart_of_ends hends]
  · intro hword
    obtain ⟨gap, hgap, hline⟩ := exists_blank_trimStart line
    exact ⟨gap, trimStart line, hline, hgap, ends_trimStart line, hword⟩

theorem claimant?_eq_some_iff {rule : LineRule} :
    claimant? line = some rule ↔ rule.Claims line := by
  unfold claimant?
  dsimp only
  cases rule <;> simp only [LineRule.Claims, opens_iff, ← contains_iff, Bool.or_eq_true] <;>
    split_ifs <;> simp_all

/-! ## Definitions -/

theorem definedAt?_eq_some_iff : definedAt? s = some name ↔ Definition s name := by
  simp only [definedAt?, bind, Option.bind_eq_some_iff, after?_eq_some_iff]
  constructor
  · rintro ⟨rest, rfl, hread⟩
    split at hread
    · next hwritten =>
      cases hread
      have hgap : rest.takeWhile isBlank ≠ [] := by
        cases rest with
        | nil => cases hwritten.1
        | cons c rest =>
            have hc : isBlank c := hwritten.1
            simp [hc]
      have hspelled := Definition.intro hgap (fun _ hc => mem_takeWhile hc) hwritten.2
        (fun _ hc => mem_takeWhile hc) (ends_dropWhile isWord (rest.dropWhile isBlank))
      rwa [List.takeWhile_append_dropWhile, List.takeWhile_append_dropWhile] at hspelled
    · cases hread
  · rintro ⟨hgap, hblank, hname, hword, hrest⟩
    rename_i gap rest
    refine ⟨_, rfl, ?_⟩
    have hends : Ends isBlank (name ++ rest) := ends_append hname fun c hc =>
      isBlank_eq_false_of_isWord (hword c (List.mem_of_mem_head? hc))
    have hspaced : (gap ++ (name ++ rest)).head?.any isBlank := by
      cases gap with
      | nil => exact absurd rfl hgap
      | cons c gap => exact hblank c List.mem_cons_self
    rw [dropWhile_run hblank hends, takeWhile_run hword hrest, if_pos ⟨hspaced, hname⟩]

theorem readsBehind_definedAt? :
    ReadsBehind definedAt? line before name ↔ Defines line before name :=
  exists_congr fun _ => and_congr_right fun _ => definedAt?_eq_some_iff

/-! ## Arguments -/

theorem not_closed_nil : ¬Closed [] name := by
  intro hclosed
  generalize hs : [] = s at hclosed
  obtain ⟨hname, -⟩ := hclosed
  exact hname (List.append_eq_nil_iff.mp hs.symm).1

theorem Closed.ne_nil (hclosed : Closed s name) : name ≠ [] := by
  obtain ⟨hname, -⟩ := hclosed
  exact hname

theorem Closed.not_mem (hclosed : Closed s name) : '\n' ∉ name := by
  obtain ⟨-, hline⟩ := hclosed
  exact hline

theorem closed_cons :
    Closed (c :: s) name ↔ c ≠ '\n' ∧
      (name = [c] ∧ startsWith "\")]" s ∨ ∃ tail, name = c :: tail ∧ Closed s tail) := by
  rw [startsWith_iff]
  constructor
  · intro hclosed
    generalize hs : c :: s = whole at hclosed
    obtain ⟨hname, hline⟩ := hclosed
    rename_i rest
    cases name with
    | nil => exact absurd rfl hname
    | cons d tail =>
        obtain ⟨rfl, rfl⟩ := List.cons.inj hs
        rw [List.mem_cons, not_or] at hline
        refine ⟨Ne.symm hline.1, ?_⟩
        cases tail with
        | nil => exact .inl ⟨rfl, List.prefix_append _ _⟩
        | cons e tail => exact .inr ⟨_, rfl, .intro (by simp) hline.2⟩
  · rintro ⟨hc, ⟨rfl, rest, rfl⟩ | ⟨tail, rfl, hname, hline⟩⟩
    · have hwritten : [c] ≠ [] := List.cons_ne_nil c []
      exact .intro hwritten (by simpa using Ne.symm hc)
    · have hwritten : c :: tail ≠ [] := List.cons_ne_nil c tail
      exact .intro hwritten (by simpa using ⟨Ne.symm hc, hline⟩)

theorem untilClosing?_eq_some_iff :
    untilClosing? s = some name ↔
      Closed s name ∧ ∀ other, Closed s other → name.length ≤ other.length := by
  induction s generalizing name with
  | nil => simp [untilClosing?, not_closed_nil]
  | cons c s ih =>
      rw [untilClosing?]
      split
      · next hc => simp [closed_cons, hc]
      split
      · next hc hclosing =>
        have hone : Closed (c :: s) [c] := closed_cons.mpr ⟨hc, .inl ⟨rfl, hclosing⟩⟩
        constructor
        · rintro ⟨⟩
          exact ⟨hone, fun other hother => List.length_pos_of_ne_nil hother.ne_nil⟩
        · rintro ⟨hname, hshortest⟩
          have hlength := hshortest [c] hone
          rcases (closed_cons.mp hname).2 with ⟨rfl, -⟩ | ⟨tail, rfl, htail⟩
          · rfl
          · have hpositive := List.length_pos_of_ne_nil htail.ne_nil
            simp only [List.length_cons, List.length_nil] at hlength
            omega
      · next hc hopen =>
        have hlonger : ∀ other, Closed (c :: s) other ↔ ∃ tail, other = c :: tail ∧ Closed s tail :=
          fun other => by simp [closed_cons, hc, hopen]
        simp only [Option.map_eq_some_iff, ih, hlonger]
        constructor
        · rintro ⟨tail, ⟨htail, hshortest⟩, rfl⟩
          refine ⟨⟨tail, rfl, htail⟩, ?_⟩
          rintro _ ⟨other, rfl, hother⟩
          exact Nat.succ_le_succ (hshortest other hother)
        · rintro ⟨⟨tail, rfl, htail⟩, hshortest⟩
          refine ⟨tail, ⟨htail, fun other hother => ?_⟩, rfl⟩
          exact Nat.le_of_succ_le_succ (hshortest (c :: other) ⟨other, rfl, hother⟩)

theorem exists_untilClosing? (hclosed : Closed s name) :
    ∃ shortest, untilClosing? s = some shortest := by
  obtain ⟨shortest, hshortest, hleast⟩ :=
    (measure List.length).wf.has_min {name | Closed s name} ⟨name, hclosed⟩
  exact ⟨shortest, untilClosing?_eq_some_iff.mpr
    ⟨hshortest, fun other hother => Nat.le_of_not_lt (hleast other hother)⟩⟩

theorem readsBehind_argumentAt? :
    ReadsBehind argumentAt? line before name ↔ Attaches line before name ∧
      ∀ other, Attaches line before other → name.length ≤ other.length := by
  simp only [ReadsBehind, argumentAt?, Option.bind_eq_some_iff, after?_eq_some_iff,
    untilClosing?_eq_some_iff]
  constructor
  · rintro ⟨_, rfl, s, rfl, hclosed, hshortest⟩
    refine ⟨⟨s, rfl, hclosed⟩, ?_⟩
    rintro other ⟨t, ht, hother⟩
    obtain rfl : s = t := by simpa using ht
    exact hshortest other hother
  · rintro ⟨⟨s, rfl, hclosed⟩, hshortest⟩
    exact ⟨_, rfl, s, rfl, hclosed, fun other hother => hshortest other ⟨s, rfl, hother⟩⟩

theorem Attaches.exists_readsBehind (hname : Attaches line before name) :
    ∃ shortest, ReadsBehind argumentAt? line before shortest := by
  obtain ⟨s, rfl, hclosed⟩ := hname
  obtain ⟨shortest, hshortest⟩ := exists_untilClosing? hclosed
  exact ⟨shortest, _, rfl, Option.bind_eq_some_iff.mpr ⟨s, after?_eq_some_iff.mpr rfl, hshortest⟩⟩

/-! ## Names -/

theorem firstDefinition_iff :
    leftmost? definedAt? line = some name ↔ ∃ before, Defines line before name ∧
      ∀ front other, Defines line front other → before.length ≤ front.length := by
  simp only [leftmost?_eq_some_iff, readsBehind_definedAt?]

theorem noDefinition_iff :
    leftmost? definedAt? line = none ↔ ∀ before name, ¬Defines line before name := by
  simp only [leftmost?_eq_none_iff, readsBehind_definedAt?]

theorem firstArgument_iff :
    leftmost? argumentAt? line = some name ↔ ∃ before, Attaches line before name ∧
      (∀ front other, Attaches line front other → before.length ≤ front.length) ∧
      ∀ other, Attaches line before other → name.length ≤ other.length := by
  rw [leftmost?_eq_some_iff]
  refine exists_congr fun before => ?_
  rw [readsBehind_argumentAt?, and_assoc]
  refine and_congr_right fun _ => ?_
  rw [and_comm]
  refine and_congr_left fun _ => ?_
  -- An argument stands behind a front exactly if a shortest one does.
  constructor
  · intro hfirst front other hother
    obtain ⟨shortest, hshortest⟩ := hother.exists_readsBehind
    exact hfirst front shortest hshortest
  · exact fun hfirst front other hread => hfirst front other (readsBehind_argumentAt?.mp hread).1

theorem noArgument_iff :
    leftmost? argumentAt? line = none ↔ ∀ before name, ¬Attaches line before name := by
  rw [leftmost?_eq_none_iff]
  constructor
  · intro hnone before name hname
    obtain ⟨shortest, hshortest⟩ := hname.exists_readsBehind
    exact hnone before shortest hshortest
  · exact fun hnone before name hread => hnone before name (readsBehind_argumentAt?.mp hread).1

theorem finds_names (line : List Char) (rule : LineRule) : rule.Finds line (rule.names line) := by
  cases rule with
  | define =>
      rw [LineRule.names]
      cases hread : leftmost? definedAt? line with
      | none => exact .noDefinition (noDefinition_iff.mp hread)
      | some name =>
          obtain ⟨before, hname, hfirst⟩ := firstDefinition_iff.mp hread
          exact .definition hname hfirst
  | expression =>
      have hfinds := LineRule.Finds.runs (runsOf_words line)
      simpa [LineRule.names, isKeyword] using hfinds
  | _ =>
      rw [LineRule.names]
      cases hread : leftmost? argumentAt? line with
      | none => exact .noArgument (noArgument_iff.mp hread)
      | some name =>
          obtain ⟨before, hname, hfirst, hshortest⟩ := firstArgument_iff.mp hread
          exact .argument hname hfirst hshortest

theorem LineRule.Finds.eq_names {rule : LineRule} (hfinds : rule.Finds line symbols) :
    rule.names line = symbols := by
  cases hfinds with
  | definition hname hfirst =>
      rw [names, firstDefinition_iff.mpr ⟨_, hname, hfirst⟩]
      rfl
  | noDefinition hnone =>
      rw [names, noDefinition_iff.mpr hnone]
      rfl
  | runs hruns =>
      rw [runsOf_iff.mp hruns]
      simp [names, isKeyword]
  | argument hname hfirst hshortest =>
      rw [names, firstArgument_iff.mpr ⟨_, hname, hfirst, hshortest⟩]
      rfl
  | noArgument hnone =>
      rw [names, noArgument_iff.mpr hnone]
      rfl

/-- Reading a line gives exactly what the line says. -/
theorem scanLine?_eq_iff_says (line : List Char) (answer : Option LineMatch) :
    scanLine? line = answer ↔ Says line answer := by
  constructor
  · rintro rfl
    rw [scanLine?]
    cases hclaim : claimant? line with
    | none =>
        refine .unclaimed fun rule hrule => ?_
        rw [claimant?_eq_some_iff.mpr hrule] at hclaim
        cases hclaim
    | some rule => exact .claimed (claimant?_eq_some_iff.mp hclaim) (finds_names line rule)
  · rintro (⟨hclaims, hfinds⟩ | hnone)
    · rw [scanLine?, claimant?_eq_some_iff.mpr hclaims, Option.map_some, hfinds.eq_names]
    · have hclaim : claimant? line = none := Option.eq_none_iff_forall_ne_some.mpr fun rule hrule =>
        hnone rule (claimant?_eq_some_iff.mp hrule)
      rw [scanLine?, hclaim, Option.map_none]

end ScriptAssembly.Scan
