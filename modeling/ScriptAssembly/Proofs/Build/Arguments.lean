import Mathlib.Data.List.Infix
import ScriptAssembly.Proofs.Sets
import ScriptAssembly.Session
import ScriptAssembly.Build.Compiler

/-!
# What a command line says

A command line is a flat list of texts: a banner switch, the kind of binary, its place, a switch for
every reference, at most one option for the symbols, and the sources.  It can be taken apart again
as long as no source is spelled like a reference or an option and no symbol holds a delimiter.  So
it tells the compiler all that a build depends on, and builds that differ in it differ on the
command line.
-/

namespace ScriptAssembly

/-- What the compiler is told. -/
structure Invocation where
  /-- The kind of binary, as the compiler names it. -/
  target : String
  /-- Where the binary is written. -/
  output : String
  /-- The binaries to link against, in order. -/
  references : List String
  /-- The symbols to switch on. -/
  symbols : List String
  /-- The sources, in order. -/
  sources : List String
deriving DecidableEq

namespace Invocation

/-- The value that an argument gives to a switch, if it is about that switch. -/
def value? (switch argument : String) : Option String :=
  (argument.toList.dropPrefix? switch.toList).map String.ofList

/-- The values that the arguments at the front give to a switch, and the arguments after them. -/
def takeValues (switch : String) : List String → List String × List String
  | [] => ([], [])
  | argument :: rest =>
    match value? switch argument with
    | some value => (value :: (takeValues switch rest).1, (takeValues switch rest).2)
    | none => ([], argument :: rest)

/-- The symbols that the values of the option name. -/
def symbolsOf (options : List String) : List String :=
  options.flatMap fun option =>
    (Text.split SymbolSet.delimiter option.toList).map String.ofList

/-- Takes a command line apart.  The sources are all that is left after the options. -/
def read? : List String → Option Invocation
  | _ :: target :: output :: inputs => do
    let target ← value? "-target:" target
    let output ← value? "-out:" output
    let (references, inputs) := takeValues "-r:" inputs
    let (options, sources) := takeValues "/define:" inputs
    return { target, output, references, symbols := symbolsOf options, sources }
  | _ => none

variable {switch argument : String} {rest : List String}

theorem value?_append (switch value : String) : value? switch (switch ++ value) = some value := by
  rw [value?, String.toList_append, List.dropPrefix?_append_of_beq _ (beq_self_eq_true _),
    Option.map_some, String.ofList_toList]

theorem value?_eq_none (hother : ¬switch.toList <+: argument.toList) :
    value? switch argument = none := by
  refine Option.map_eq_none_iff.mpr (Option.eq_none_iff_forall_not_mem.mpr fun value hvalue => ?_)
  obtain ⟨spelled, hargument, hspelled⟩ := List.dropPrefix?_eq_some_iff.mp hvalue
  rw [beq_iff_eq.mp hspelled] at hargument
  exact hother ⟨value, hargument.symm⟩

/-- Values of a switch are taken up to the first argument that is not about it. -/
theorem takeValues_append (hrest : ∀ argument ∈ rest.head?, ¬switch.toList <+: argument.toList)
    (values : List String) :
    takeValues switch (values.map (switch ++ ·) ++ rest) = (values, rest) := by
  induction values with
  | nil =>
      cases rest with
      | nil => rfl
      | cons argument rest =>
          have hnone := value?_eq_none (hrest argument rfl)
          simp only [List.map_nil, List.nil_append, takeValues, hnone]
  | cons value values ih =>
      simp only [List.map_cons, List.cons_append, takeValues, value?_append, ih]

end Invocation

namespace SymbolSet

variable {symbols : SymbolSet}

/-- The values of the option that switches the symbols on. -/
def optionValues (symbols : SymbolSet) : List String :=
  if symbols.isEmpty then [] else [symbols.toDelimited]

theorem toList_defineFlag? (symbols : SymbolSet) :
    symbols.defineFlag?.toList = symbols.optionValues.map ("/define:" ++ ·) := by
  rw [defineFlag?, optionValues]
  split <;> rfl

/-- The option names the symbols in their order, and no others. -/
theorem symbolsOf_optionValues
    (hundelimited : ∀ name ∈ symbols.toList, delimiter ∉ name.toList) :
    Invocation.symbolsOf symbols.optionValues = symbols.toList := by
  by_cases hnone : symbols.toList = []
  · simp [optionValues, isEmpty, hnone, Invocation.symbolsOf]
  · have hpieces : ∀ piece ∈ symbols.toList.map String.toList, delimiter ∉ piece :=
      List.forall_mem_map.mpr hundelimited
    have hsplit := Text.split_join (by simpa using hnone) hpieces
    have hsome : symbols.isEmpty = false := by simpa [isEmpty] using hnone
    simp [optionValues, hsome, Invocation.symbolsOf, toDelimited, hsplit]

end SymbolSet

namespace Session

variable {s t : Session} {directory : Path}

/-- Everything that a session picks keeps its place on a command line: no symbol holds a delimiter,
and no source is spelled like a reference or an option. -/
structure Unambiguous (s : Session) : Prop where
  /-- The symbols can be told apart. -/
  symbols : ∀ name ∈ s.symbols.toList, SymbolSet.delimiter ∉ name.toList
  /-- The sources can be told from the references. -/
  notReference : ∀ p ∈ s.sources.toList, ¬"-r:".toList <+: p.text.toList
  /-- The sources can be told from the symbols. -/
  notOption : ∀ p ∈ s.sources.toList, ¬"/define:".toList <+: p.text.toList

/-- What a build of the session tells the compiler. -/
def invocation (s : Session) (directory : Path) : Invocation where
  target := s.outputKind.target
  output := (s.outputPath directory).text
  references := s.references.toList.map Path.text
  symbols := s.symbols.toList
  sources := s.sources.toList.map Path.text

/-- The compiler can read off what it is told. -/
theorem read?_arguments (hs : s.Unambiguous) (directory : Path) :
    Invocation.read? (Compiler.arguments (s.descriptor directory)) =
      some (s.invocation directory) := by
  have hsources : ∀ argument ∈ (s.sources.toList.map Path.text).head?,
      ¬"/define:".toList <+: argument.toList := by
    intro argument hargument
    obtain ⟨p, hp, rfl⟩ := List.mem_map.mp (List.mem_of_mem_head? hargument)
    exact hs.notOption p hp
  have hinputs : ∀ argument ∈ (s.symbols.optionValues.map ("/define:" ++ ·) ++
      s.sources.toList.map Path.text).head?, ¬"-r:".toList <+: argument.toList := by
    intro argument hargument
    rcases List.mem_append.mp (List.mem_of_mem_head? hargument) with hoption | hsource
    · obtain ⟨value, -, rfl⟩ := List.mem_map.mp hoption
      simp [String.toList_append]
    · obtain ⟨p, hp, rfl⟩ := List.mem_map.mp hsource
      exact hs.notReference p hp
  have hreferences : s.references.toList.map (fun p => "-r:" ++ p.text) =
      (s.references.toList.map Path.text).map ("-r:" ++ ·) := by
    rw [List.map_map]
    rfl
  simp only [Compiler.arguments, descriptor, SymbolSet.toList_defineFlag?, hreferences,
    List.cons_append, List.nil_append, List.append_assoc, Invocation.read?,
    Invocation.value?_append, Invocation.takeValues_append hinputs,
    Invocation.takeValues_append hsources, SymbolSet.symbolsOf_optionValues hs.symbols]
  rfl

end Session

theorem Path.text_injective : Function.Injective Path.text := fun _ _ => congrArg Path.mk

theorem PathSet.ext_text {left right : PathSet}
    (htexts : left.toList.map Path.text = right.toList.map Path.text) : left = right :=
  ext_toList (List.map_injective_iff.mpr Path.text_injective htexts)

theorem OutputKind.target_injective : Function.Injective OutputKind.target := by
  intro left right htarget
  cases left <;> cases right <;> first | rfl | exact absurd htarget (by decide)

/-- The command line of a session tells the compiler its kind and place, and its references, symbols
and sources one by one and in their order.  So sessions with one command line agree in all of
these. -/
theorem Compiler.arguments_unambiguous :
    (∀ (s : Session) (directory : Path), s.Unambiguous →
      Invocation.read? (arguments (s.descriptor directory)) = some (s.invocation directory)) ∧
    ∀ (s t : Session) (here there : Path), s.Unambiguous → t.Unambiguous →
      arguments (s.descriptor here) = arguments (t.descriptor there) →
        s.outputPath here = t.outputPath there ∧ s.outputKind = t.outputKind ∧
          s.references = t.references ∧ s.symbols = t.symbols ∧ s.sources = t.sources := by
  refine ⟨fun s directory hs => s.read?_arguments hs directory, ?_⟩
  intro s t here there hs ht harguments
  have hread := s.read?_arguments hs here
  rw [harguments, t.read?_arguments ht there, Option.some.injEq] at hread
  simp only [Session.invocation, Invocation.mk.injEq] at hread
  obtain ⟨htarget, houtput, hreferences, hsymbols, hsources⟩ := hread
  exact ⟨Path.text_injective houtput.symm, OutputKind.target_injective htarget.symm,
    PathSet.ext_text hreferences.symm, SymbolSet.ext_toList hsymbols.symm,
    PathSet.ext_text hsources.symm⟩

/-- A name with a directory in it and the same name inside that directory. -/
theorem Compiler.arguments_unambiguous_nested :
    let s : Session := { Session.empty with
      references := .ofList [⟨"/l/b.dll"⟩, ⟨"/l/a.dll"⟩]
      sources := .ofList [⟨"/w/b.cs"⟩, ⟨"/w/a.cs"⟩]
      symbols := .ofList ["B", "A"]
      outputName := "x/a.dll" }
    let t := s.withOutputName "a.dll"
    let told : Invocation :=
      ⟨"library", "/o/x/a.dll", ["/l/b.dll", "/l/a.dll"], ["A", "B"], ["/w/b.cs", "/w/a.cs"]⟩
    s.Unambiguous ∧ t.Unambiguous ∧
      Invocation.read? (arguments (s.descriptor ⟨"/o"⟩)) = some told ∧
      arguments (s.descriptor ⟨"/o"⟩) = arguments (t.descriptor ⟨"/o/x"⟩) ∧
      s.outputPath ⟨"/o"⟩ = t.outputPath ⟨"/o/x"⟩ := by
  intro s t told
  have hs : s.Unambiguous := ⟨by decide, by decide, by decide⟩
  have ht : t.Unambiguous := ⟨by decide, by decide, by decide⟩
  have harguments : arguments (s.descriptor ⟨"/o"⟩) = arguments (t.descriptor ⟨"/o/x"⟩) := by
    decide
  have hinvocation : s.invocation ⟨"/o"⟩ = told := by decide
  have hread := arguments_unambiguous.1 s ⟨"/o"⟩ hs
  rw [hinvocation] at hread
  exact ⟨hs, ht, hread, harguments, (arguments_unambiguous.2 s t _ _ hs ht harguments).1⟩

/-- A source that is spelled like a reference is taken for one. -/
example :
    let linked : Session := { Session.empty with references := .ofList [⟨"a.dll"⟩] }
    let compiled : Session := { Session.empty with sources := .ofList [⟨"-r:a.dll"⟩] }
    Compiler.arguments (linked.descriptor ⟨"/o"⟩) =
      Compiler.arguments (compiled.descriptor ⟨"/o"⟩) ∧ linked ≠ compiled := by
  decide

end ScriptAssembly
