import ScriptAssembly.Proofs.Scan.Meaning

/-!
# Arguments and string literals

An argument ends at the first `")]`, and a string literal ends at its first quote.  The two agree
exactly if the literal is not empty and its attribute is closed right behind it.  Otherwise the
argument goes on across the quote, as it does where two attributes share a bracket.
-/

namespace ScriptAssembly.Scan

open Text

variable {s line name literal rest : List Char} {argument : String}

/-- The first attribute of the line that has an argument stands behind `before`, and the argument
begins with a string literal. -/
structure FirstLiteral (line before literal rest : List Char) : Prop where
  /-- The literal and its quote begin the argument, and `rest` follows them. -/
  stands : line = before ++ ("[Conditional(\"".toList ++ (literal ++ '"' :: rest))
  /-- The literal ends at its first quote. -/
  quoteless : '"' ∉ literal
  /-- An argument stands behind `before`. -/
  exists_argument : ∃ name, Attaches line before name
  /-- No argument stands further to the left. -/
  first : ∀ front other, Attaches line front other → before.length ≤ front.length

/-- A text that a literal begins and that closes an argument closes it at the quote of the literal
or behind it. -/
theorem Closed.literal_cases (hclosed : Closed (literal ++ '"' :: rest) name)
    (hliteral : '"' ∉ literal) :
    name = literal ∧ ")]".toList <+: rest ∨ literal ++ ['"'] <+: name := by
  generalize hs : literal ++ '"' :: rest = s at hclosed
  obtain ⟨hname, hline⟩ := hclosed
  rename_i tail
  have hclosing : "\")]".toList = '"' :: ")]".toList := by decide
  rw [hclosing, List.cons_append] at hs
  rcases List.append_eq_append_iff.mp hs with ⟨more, rfl, hmore⟩ | ⟨more, rfl, hmore⟩
  · cases more with
    | nil => exact .inl ⟨by simp, tail, (List.cons.inj hmore).2.symm⟩
    | cons c more =>
        obtain ⟨rfl, -⟩ := List.cons.inj hmore
        exact .inr ⟨more, by simp⟩
  · cases more with
    | nil => exact .inl ⟨by simp, tail, (List.cons.inj hmore).2⟩
    | cons c more =>
        obtain ⟨rfl, -⟩ := List.cons.inj hmore
        simp at hliteral

theorem Closed.exists_literal (hclosed : Closed s name) :
    ∃ literal rest, s = literal ++ '"' :: rest ∧ '"' ∉ literal := by
  obtain ⟨hname, hline⟩ := hclosed
  rename_i tail
  have hquote : '"' ∈ name ++ ("\")]".toList ++ tail) :=
    List.mem_append_right _ (List.mem_append_left _ (by decide))
  exact List.eq_append_cons_of_mem hquote

/-- The shortest argument is the literal that the text begins with if the literal closes one. -/
theorem Closed.shortest_cases (hclosed : Closed (literal ++ '"' :: rest) name)
    (hshortest : ∀ other, Closed (literal ++ '"' :: rest) other → name.length ≤ other.length)
    (hliteral : '"' ∉ literal) :
    literal ≠ [] ∧ ")]".toList <+: rest ∧ name = literal ∨
      ¬(literal ≠ [] ∧ ")]".toList <+: rest) ∧ literal ++ ['"'] <+: name := by
  by_cases hcloses : literal ≠ [] ∧ ")]".toList <+: rest
  · refine .inl ⟨hcloses.1, hcloses.2, ?_⟩
    rcases hclosed.literal_cases hliteral with ⟨hname, -⟩ | hacross
    · exact hname
    · -- The literal is an argument as well, and a shorter one.
      have hline : '\n' ∉ literal := fun hmem =>
        hclosed.not_mem (hacross.mem (List.mem_append_left _ hmem))
      obtain ⟨hwritten, tail, rfl⟩ := hcloses
      have hlonger := hacross.length_le
      have hlength := hshortest literal (.intro hwritten hline)
      simp only [List.length_append, List.length_singleton] at hlonger
      omega
  · refine .inr ⟨hcloses, ?_⟩
    rcases hclosed.literal_cases hliteral with ⟨rfl, hclosing⟩ | hacross
    · exact absurd ⟨hclosed.ne_nil, hclosing⟩ hcloses
    · exact hacross

/-- An argument is the string literal it begins with if that is not empty and its attribute is
closed right behind its quote, and otherwise it goes on across the quote. -/
theorem argument_of_scanLine? (line : List Char) (argument : String)
    (hscan : scanLine? line = some ⟨.attribute, [argument]⟩) :
    ∃ before literal rest, FirstLiteral line before literal rest ∧
      (literal ≠ [] ∧ ")]".toList <+: rest ∧ argument.toList = literal ∨
        ¬(literal ≠ [] ∧ ")]".toList <+: rest) ∧ literal ++ ['"'] <+: argument.toList) := by
  obtain ⟨rule, -, hmatch⟩ := Option.map_eq_some_iff.mp hscan
  obtain ⟨rfl, hnames⟩ := LineMatch.mk.inj hmatch
  have hfinds := finds_names line .attribute
  rw [hnames] at hfinds
  cases hfinds with
  | @argument before name hname hfirst hshortest =>
      obtain ⟨s, rfl, hclosed⟩ := hname
      obtain ⟨literal, rest, rfl, hliteral⟩ := hclosed.exists_literal
      refine ⟨before, literal, rest, ⟨rfl, hliteral, ⟨name, _, rfl, hclosed⟩, hfirst⟩, ?_⟩
      have htext : (String.ofList name).toList = name := String.toList_ofList
      rw [htext]
      exact hclosed.shortest_cases (fun other hother => hshortest other ⟨_, rfl, hother⟩) hliteral

/-- Two attributes that share a bracket. -/
def sharedBracket : List Char := "[Conditional(\"A\"), Conditional(\"B\")]".toList

theorem scanLine?_sharedBracket :
    scanLine? sharedBracket = some ⟨.attribute, ["A\"), Conditional(\"B"]⟩ := by decide +kernel

/-- Where two attributes share a bracket the argument of the first goes on to the second. -/
theorem argument_of_scanLine?_sharedBracket :
    scanLine? sharedBracket = some ⟨.attribute, ["A\"), Conditional(\"B"]⟩ ∧
    ∃ before literal rest, FirstLiteral sharedBracket before literal rest ∧
      (literal ≠ [] ∧ ")]".toList <+: rest ∧ "A\"), Conditional(\"B".toList = literal ∨
        ¬(literal ≠ [] ∧ ")]".toList <+: rest) ∧
          literal ++ ['"'] <+: "A\"), Conditional(\"B".toList) :=
  ⟨scanLine?_sharedBracket, argument_of_scanLine? sharedBracket _ scanLine?_sharedBracket⟩

/-- Not every name that is found in an attribute is free of quotes. -/
theorem argument_across_quote :
    ¬∀ line argument, scanLine? line = some ⟨.attribute, [argument]⟩ → '"' ∉ argument.toList := by
  intro hquoteless
  exact hquoteless sharedBracket _ scanLine?_sharedBracket (by decide)

end ScriptAssembly.Scan
