import ScriptAssembly.Path.Raw
import ScriptAssembly.Proofs.Path.Components
import ScriptAssembly.Proofs.Text.Octets

/-!
# Paths that are text among paths of any bytes

A path of bytes is joined and cut as the path of its octets.  For a path that is text this comes to
the same as joining and cutting the text: the octets of a piece are a piece again, and say what it
says.  So what a listing leaves of a text is text, and shows it.
-/

namespace ScriptAssembly

namespace Path

variable {p base : Path}

/-- A component in octets. -/
def Component.encoded : Component → Component
  | .entry name => .entry (.ofList (Text.encode name.toList))
  | .root => .root
  | .current => .current
  | .parent => .parent

theorem Component.encoded_injective : Function.Injective Component.encoded := by
  intro a b hsame
  cases a <;> cases b <;> simp only [encoded, reduceCtorEq, entry.injEq] at hsame ⊢
  rw [String.ofList_inj] at hsame
  exact String.toList_inj.mp (Text.encode_injective hsame)

/-- A path in octets. -/
def encoded (p : Path) : Path := ⟨.ofList (Text.encode p.text.toList)⟩

theorem cutLead_encode (s : List Char) :
    cutLead (Text.encode s) = ((cutLead s).1, Text.encode (cutLead s).2) := by
  have hslash : ('/' : Char).toNat < 0x80 := by decide
  have hdot : ('.' : Char).toNat < 0x80 := by decide
  fun_cases cutLead s with
  | case1 rest => rw [Text.encode_cons_of_lt hslash, cutLead]
  | case2 => rfl
  | case3 rest =>
      rw [Text.encode_cons_of_lt hdot, Text.encode_cons_of_lt hslash, cutLead]
  | case4 s hroot halone hcurrent =>
      -- A lead in octets would have been one in the text.
      generalize hs : Text.encode s = octets
      fun_cases cutLead octets with
      | case1 rest =>
          obtain ⟨behind, rfl, -⟩ := Text.exists_of_encode_eq_cons hslash hs
          exact (hroot behind rfl).elim
      | case2 =>
          obtain ⟨behind, rfl, hbehind⟩ := Text.exists_of_encode_eq_cons hdot hs
          exact (halone (by rw [Text.eq_nil_of_encode hbehind])).elim
      | case3 rest =>
          obtain ⟨behind, rfl, hbehind⟩ := Text.exists_of_encode_eq_cons hdot hs
          obtain ⟨more, rfl, -⟩ := Text.exists_of_encode_eq_cons hslash hbehind
          exact (hcurrent more rfl).elim
      | case4 => rfl

theorem lead_encoded (p : Path) : p.encoded.lead = p.lead := by
  rw [lead, encoded, String.toList_ofList, cutLead_encode, lead]

theorem pieces_encoded (p : Path) : p.encoded.pieces = p.pieces.map Text.encode := by
  rw [pieces, encoded, String.toList_ofList, cutLead_encode, Text.split_encode (by decide), pieces]

theorem component?_encode (piece : List Char) :
    component? (Text.encode piece) = (component? piece).map Component.encoded := by
  have hnone : Text.encode piece = [] ↔ piece = [] := Text.encode_injective.eq_iff' rfl
  have hdot : Text.encode piece = ['.'] ↔ piece = ['.'] := Text.encode_injective.eq_iff' rfl
  have hdots : Text.encode piece = ['.', '.'] ↔ piece = ['.', '.'] :=
    Text.encode_injective.eq_iff' rfl
  simp only [component?, hnone, hdot, hdots]
  split_ifs
  · rfl
  · rfl
  · simp only [Option.map_some, Component.encoded, String.toList_ofList]

theorem components_encoded (p : Path) :
    p.encoded.components = p.components.map Component.encoded := by
  have hlead : p.lead.components.map Component.encoded = p.lead.components := by
    cases p.lead <;> rfl
  rw [components, lead_encoded, pieces_encoded, List.filterMap_map, components, List.map_append,
    hlead, List.map_filterMap]
  congr 1
  exact List.filterMap_congr fun piece _ => component?_encode piece

theorem same_encoded_iff {q : Path} : p.encoded.Same q.encoded ↔ p.Same q := by
  rw [Same, components_encoded, components_encoded,
    (List.map_injective_iff.mpr Component.encoded_injective).eq_iff, Same]

theorem isAbsolute_encoded (p : Path) : p.encoded.isAbsolute = p.isAbsolute := by
  rw [isAbsolute, lead_encoded, isAbsolute]

theorem isSilent_encode (piece : List Char) : isSilent (Text.encode piece) = isSilent piece := by
  rw [isSilent, component?_encode, Option.isNone_map, isSilent]

theorem dropWhile_encode (parts : List (List Char)) :
    (parts.map Text.encode).dropWhile isSilent = (parts.dropWhile isSilent).map Text.encode := by
  rw [List.dropWhile_map]
  congr 2
  exact funext isSilent_encode

theorem dropSilentEnd_encode (parts : List (List Char)) :
    dropSilentEnd (parts.map Text.encode) = (dropSilentEnd parts).map Text.encode := by
  rw [dropSilentEnd, ← List.map_reverse, dropWhile_encode, ← List.map_reverse, dropSilentEnd]

theorem dropComponents_encode (count : Nat) (parts : List (List Char)) :
    dropComponents count (parts.map Text.encode) =
      (dropComponents count parts).map Text.encode := by
  fun_induction dropComponents count parts with
  | case1 parts => rw [dropComponents]
  | case2 count => rfl
  | case3 count part parts hsilent ih =>
      rw [List.map_cons, dropComponents, isSilent_encode, if_pos hsilent, ih]
  | case4 count part parts hspoken ih =>
      rw [List.map_cons, dropComponents, isSilent_encode, if_neg hspoken, ih]

theorem ofPieces_encode (lead : Lead) (parts : List (List Char)) :
    ofPieces lead (parts.map Text.encode) = (ofPieces lead parts).encoded := by
  have hlead : Text.encode lead.chars = lead.chars := by cases lead <;> rfl
  rw [ofPieces, encoded, ofPieces, String.toList_ofList, Text.encode_append, hlead,
    Text.encode_join (by decide)]

/-- What is left below a base is put together from pieces of the path. -/
theorem exists_pieces_of_below? {rest : Path} (hbelow : p.below? base = some rest) :
    ∃ lead parts, rest = ofPieces lead parts ∧ ∀ piece ∈ parts, piece ∈ p.pieces := by
  unfold below? at hbelow
  split at hbelow
  · split at hbelow
    · obtain rfl := Option.some.inj hbelow
      exact ⟨_, _, rfl, fun piece hpiece =>
        (List.rdropWhile_prefix isSilent p.pieces).subset hpiece⟩
    · obtain rfl := Option.some.inj hbelow
      exact ⟨_, _, rfl, fun piece hpiece => mem_of_mem_piecesBelow hpiece⟩
  · cases hbelow

/-- What is left of a text below any base is text. -/
theorem exists_of_below?_encoded {rest : Path} (hbelow : p.encoded.below? base = some rest) :
    ∃ text : Path, rest = text.encoded := by
  obtain ⟨lead, parts, rfl, hparts⟩ := exists_pieces_of_below? hbelow
  rw [pieces_encoded] at hparts
  have hrange : parts ∈ Set.range (List.map Text.encode) := by
    rw [Set.range_list_map]
    exact fun piece hpiece => (List.mem_map.mp (hparts piece hpiece)).imp fun _ hsame => hsame.2
  obtain ⟨texts, rfl⟩ := hrange
  exact ⟨_, ofPieces_encode lead texts⟩

/-- A text is cut as its octets are. -/
theorem below?_encoded (p base : Path) :
    p.encoded.below? base.encoded = (p.below? base).map encoded := by
  have hbegins : base.encoded.components.isPrefixOf p.encoded.components =
      base.components.isPrefixOf p.components := by
    rw [Bool.eq_iff_iff, List.isPrefixOf_iff_prefix, List.isPrefixOf_iff_prefix,
      components_encoded, components_encoded,
      List.prefix_map_iff_of_injective Component.encoded_injective]
  have hlength : base.encoded.components.length = base.components.length := by
    rw [components_encoded, List.length_map]
  unfold below?
  rw [hbegins, hlength, lead_encoded, pieces_encoded]
  split
  · split
    · rw [dropSilentEnd_encode, ofPieces_encode, Option.map_some]
    · dsimp only
      rw [dropComponents_encode, dropWhile_encode, dropSilentEnd_encode, ofPieces_encode,
        Option.map_some]
  · rfl

/-- A text is joined as its octets are. -/
theorem join_encoded (base p : Path) : (base.join p).encoded = base.encoded.join p.encoded := by
  cases hp : p.isAbsolute with
  | true =>
      have hencoded : p.encoded.isAbsolute := (isAbsolute_encoded p).trans hp
      rw [join_of_isAbsolute base hp, join_of_isAbsolute base.encoded hencoded]
  | false =>
      have hencoded := (isAbsolute_encoded p).trans hp
      have hnone : Text.encode base.text.toList = [] ↔ base.text.toList = [] :=
        Text.encode_injective.eq_iff' rfl
      have hslash : (Text.encode base.text.toList).getLast? = some '/' ↔
          base.text.toList.getLast? = some '/' := Text.getLast?_encode_iff (by decide)
      have hfront : base.encoded.front.toList = Text.encode base.front.toList := by
        simp only [front, encoded, String.toList_ofList, hnone, hslash]
        split_ifs
        · rw [String.toList_ofList]
        · rw [String.toList_append, String.toList_append, String.toList_ofList, Text.encode_append]
          rfl
      rw [join_of_relative base hp, join_of_relative base.encoded hencoded,
        Path.mk.injEq, ← String.toList_inj, String.toList_append, hfront, encoded,
        String.toList_ofList, String.toList_append, Text.encode_append, encoded,
        String.toList_ofList]

/-- Each character of the path stands for a byte. -/
def IsOctets (p : Path) : Prop := Text.IsOctets p.text.toList

theorem IsOctets.join (hbase : base.IsOctets) (hp : p.IsOctets) : (base.join p).IsOctets := by
  cases hrelative : p.isAbsolute with
  | true =>
      rw [join_of_isAbsolute base hrelative]
      exact hp
  | false =>
      rw [join_of_relative base hrelative]
      intro c hc
      rw [String.toList_append, List.mem_append] at hc
      rcases hc with hc | hc
      · rw [front] at hc
        split at hc
        · exact hbase c hc
        · rw [String.toList_append, List.mem_append] at hc
          rcases hc with hc | hc
          · exact hbase c hc
          · obtain rfl : c = '/' := by simpa using hc
            decide
      · exact hp c hc

theorem IsOctets.below? {rest : Path} (hp : p.IsOctets) (hbelow : p.below? base = some rest) :
    rest.IsOctets := by
  obtain ⟨lead, parts, rfl, hparts⟩ := exists_pieces_of_below? hbelow
  intro c hc
  rw [ofPieces, String.toList_ofList, List.mem_append] at hc
  rcases hc with hc | hc
  · cases lead <;> simp only [Lead.chars, List.mem_singleton, List.not_mem_nil] at hc <;>
    · subst hc
      decide
  · rcases Text.mem_join hc with rfl | ⟨piece, hpiece, hc⟩
    · decide
    · refine hp c ?_
      rw [← cutLead_chars p.text.toList, List.mem_append]
      refine .inr ?_
      rw [← Text.join_split '/' (cutLead p.text.toList).2]
      exact Text.mem_join_of_mem (hparts piece hpiece) hc

end Path

namespace RawPath

variable {p q root : RawPath}

theorem isOctets (p : RawPath) : p.octets.IsOctets := by
  rw [Path.IsOctets, octets, String.toList_ofList]
  exact Text.isOctets_octets p.bytes

theorem octets_injective : Function.Injective octets := by
  intro p q hsame
  have hback : ∀ p : RawPath, ofOctets p.octets = p := fun p => by
    rw [ofOctets, octets, String.toList_ofList, Text.ofOctets_octets]
  rw [← hback p, hsame, hback q]

theorem octets_ofOctets {p : Path} (hp : p.IsOctets) : (ofOctets p).octets = p := by
  rw [octets, ofOctets, Text.octets_ofOctets hp, String.ofList_toList]

theorem octets_join (base p : RawPath) : (base.join p).octets = base.octets.join p.octets :=
  octets_ofOctets (base.isOctets.join p.isOctets)

/-- What a listing leaves of a path leads from the root to a spelling of the path. -/
theorem same_join_listed (hp : p.isAbsolute) (root : RawPath) :
    (root.join (p.listed root)).Same p := by
  rw [Same, octets_join, listed, below?]
  cases hbelow : p.octets.below? root.octets with
  | none => exact congrArg Path.components (Path.join_of_isAbsolute root.octets hp)
  | some rest =>
      rw [Option.map_some, Option.getD_some, octets_ofOctets (p.isOctets.below? hbelow)]
      exact Path.same_join_below? hp hbelow

theorem octets_raw (p : Path) : p.raw.octets = p.encoded := by
  rw [octets, Path.raw, Text.octets_toUTF8, Path.encoded]

theorem ofOctets_encoded (p : Path) : ofOctets p.encoded = p.raw := by
  rw [ofOctets, Path.encoded, String.toList_ofList, Text.ofOctets_encode, String.ofList_toList,
    Path.raw]

theorem isAbsolute_raw (p : Path) : p.raw.isAbsolute = p.isAbsolute := by
  rw [isAbsolute, octets_raw, Path.isAbsolute_encoded]

theorem same_raw_iff {p q : Path} : p.raw.Same q.raw ↔ p.Same q := by
  rw [Same, octets_raw, octets_raw, Path.same_encoded_iff]

theorem raw_join (base p : Path) : (base.join p).raw = base.raw.join p.raw := by
  rw [join, octets_raw, octets_raw, ← Path.join_encoded, ofOctets_encoded]

/-- The path is text. -/
def IsText (p : RawPath) : Prop := ∃ text : Path, text.raw = p

theorem shown_raw (p : Path) : p.raw.shown = p.text := by
  rw [shown, Path.raw, Text.lossy_toUTF8, String.ofList_toList]

/-- A text that is shown is what is typed back. -/
theorem IsText.raw_shown (hp : p.IsText) : (Path.mk p.shown).raw = p := by
  obtain ⟨text, rfl⟩ := hp
  rw [shown_raw]

/-- Only text is left of a text. -/
theorem isText_listed (p : Path) (root : RawPath) : (p.raw.listed root).IsText := by
  rw [listed, below?, octets_raw]
  cases hbelow : p.encoded.below? root.octets with
  | none => exact ⟨p, rfl⟩
  | some rest =>
      obtain ⟨text, rfl⟩ := Path.exists_of_below?_encoded hbelow
      exact ⟨text, (ofOctets_encoded text).symm⟩

theorem listed_raw (p root : Path) :
    p.raw.listed root.raw = ((p.below? root).getD p).raw := by
  rw [listed, below?, octets_raw, octets_raw, Path.below?_encoded]
  cases p.below? root with
  | none => rfl
  | some rest => exact ofOctets_encoded rest

end RawPath

end ScriptAssembly
