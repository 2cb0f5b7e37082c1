import ScriptAssembly.Proofs.Path

/-!
# Components of paths

Two spellings of one path say the same pieces behind the same lead and differ only in pieces that
say nothing.  The components of a joined path are those of its base followed by those that are
joined, and what is left of a path below a base begins with a piece that carries a meaning.  So what
is left below a base leads from the base to a spelling of the path again.
-/

namespace ScriptAssembly.Path

variable {p q base : Path}

/-- The piece that a component is written with behind a lead. -/
def Component.piece : Component → List Char
  | .entry name => name.toList
  | .parent => ['.', '.']
  | .current => ['.']
  | .root => []

theorem isSilent_iff {piece : List Char} : isSilent piece = true ↔ piece = [] ∨ piece = ['.'] := by
  unfold isSilent component?
  split
  · rename_i hsilent
    simp [hsilent]
  · rename_i hspoken
    split <;> simp [hspoken]

/-- The pieces that carry a meaning. -/
def spoken (parts : List (List Char)) : List (List Char) := parts.filter fun piece => !isSilent piece

theorem spoken_cons_of_silent {piece : List Char} (hsilent : piece = [] ∨ piece = ['.'])
    (parts : List (List Char)) : spoken (piece :: parts) = spoken parts :=
  List.filter_cons_of_neg (by simpa using isSilent_iff.mpr hsilent)

theorem spoken_cons {piece : List Char} (hspoken : ¬(piece = [] ∨ piece = ['.']))
    (parts : List (List Char)) : spoken (piece :: parts) = piece :: spoken parts := by
  refine List.filter_cons_of_pos ?_
  rw [Bool.not_eq_true', Bool.eq_false_iff]
  exact fun hsilent => hspoken (isSilent_iff.mp hsilent)

theorem map_piece_filterMap (parts : List (List Char)) :
    (parts.filterMap component?).map Component.piece = spoken parts := by
  induction parts with
  | nil => rfl
  | cons piece parts ih =>
      by_cases hsilent : piece = [] ∨ piece = ['.']
      · have hnone : component? piece = none := by rw [component?, if_pos hsilent]
        rw [List.filterMap_cons_none hnone, spoken_cons_of_silent hsilent, ih]
      · have hsome : ∃ component, component? piece = some component ∧ component.piece = piece := by
          rw [component?, if_neg hsilent]
          split
          · rename_i habove
            exact ⟨_, rfl, habove.symm⟩
          · exact ⟨_, rfl, String.toList_ofList⟩
        obtain ⟨component, hcomponent, hpiece⟩ := hsome
        rw [List.filterMap_cons_some hcomponent, List.map_cons, spoken_cons hsilent, ih, hpiece]

/-- The written form says what the pieces behind the lead say. -/
theorem spoken_split (p : Path) : spoken (Text.split '/' p.text.toList) = spoken p.pieces := by
  unfold pieces
  generalize p.text.toList = s
  fun_cases cutLead s with
  | case1 rest =>
      have hslash : Text.split '/' ('/' :: rest) = [] :: Text.split '/' rest :=
        Text.split_append_cons '/' [] rest
      rw [hslash, spoken_cons_of_silent (.inl rfl)]
  | case2 => rfl
  | case3 rest =>
      have hdot : Text.split '/' ('.' :: '/' :: rest) = ['.'] :: Text.split '/' rest :=
        Text.split_append_cons '/' ['.'] rest
      have hslash : Text.split '/' ('/' :: rest) = [] :: Text.split '/' rest :=
        Text.split_append_cons '/' [] rest
      rw [hdot, hslash, spoken_cons_of_silent (.inr rfl), spoken_cons_of_silent (.inl rfl)]
  | case4 => rfl

theorem ne_lead_of_mem {component : Component} {parts : List (List Char)}
    (hmem : component ∈ parts.filterMap component?) :
    component ≠ .root ∧ component ≠ .current := by
  obtain ⟨piece, -, hpiece⟩ := List.mem_filterMap.mp hmem
  unfold component? at hpiece
  split at hpiece
  · cases hpiece
  · split at hpiece
    · cases hpiece
      exact ⟨nofun, nofun⟩
    · cases hpiece
      exact ⟨nofun, nofun⟩

/-- Two spellings begin alike and say the same. -/
theorem Same.parts (hsame : p.Same q) :
    p.lead = q.lead ∧ p.pieces.filterMap component? = q.pieces.filterMap component? := by
  have hp := fun {component} => @ne_lead_of_mem component p.pieces
  have hq := fun {component} => @ne_lead_of_mem component q.pieces
  unfold Same components at hsame
  generalize p.pieces.filterMap component? = left at hsame hp ⊢
  generalize q.pieces.filterMap component? = right at hsame hq ⊢
  cases hlead : p.lead <;> cases hother : q.lead <;>
    simp only [hlead, hother, Lead.components, List.cons_append, List.nil_append, List.cons.injEq,
      reduceCtorEq, false_and, true_and] at hsame
  case root.root => exact ⟨rfl, hsame⟩
  case current.current => exact ⟨rfl, hsame⟩
  case none.none => exact ⟨rfl, hsame⟩
  case root.none => exact absurd rfl (hq (hsame ▸ List.mem_cons_self)).1
  case current.none => exact absurd rfl (hq (hsame ▸ List.mem_cons_self)).2
  case none.root => exact absurd rfl (hp (hsame ▸ List.mem_cons_self)).1
  case none.current => exact absurd rfl (hp (hsame ▸ List.mem_cons_self)).2

theorem Same.isAbsolute (hsame : p.Same q) : q.isAbsolute = p.isAbsolute := by
  rw [Path.isAbsolute, Path.isAbsolute, hsame.parts.1]

theorem Same.spoken (hsame : p.Same q) :
    spoken (Text.split '/' q.text.toList) = spoken (Text.split '/' p.text.toList) := by
  rw [spoken_split, spoken_split, ← map_piece_filterMap, ← map_piece_filterMap, hsame.parts.2]

/-- Only an empty path says nothing at all. -/
theorem text_eq_empty_of_components (hp : p.components = []) : p.text = "" := by
  have hlead : p.lead = .none := by
    cases hlead : p.lead <;> simp_all [components, Lead.components]
  have hnone : p.pieces.filterMap component? = [] := by
    simpa [components, hlead, Lead.components] using hp
  have hwhole : p.pieces = Text.split '/' p.text.toList := by
    have hchars := cutLead_chars p.text.toList
    have hcut : (cutLead p.text.toList).1 = .none := hlead
    rw [hcut] at hchars
    exact congrArg (Text.split '/') hchars
  have hjoined := Text.join_split '/' p.text.toList
  rw [← hwhole] at hjoined
  have hsilent : ∀ piece ∈ p.pieces, piece = [] ∨ piece = ['.'] := by
    intro piece hpiece
    have hspoken := List.filterMap_eq_nil_iff.mp hnone piece hpiece
    exact isSilent_iff.mp (by simp [isSilent, hspoken])
  -- The first piece is empty or a dot, so a path that goes on would have a lead.
  have hleadless : ∀ rest, p.text.toList ≠ '/' :: rest ∧ p.text.toList ≠ '.' :: '/' :: rest ∧
      p.text.toList ≠ ['.'] := by
    intro rest
    refine ⟨?_, ?_, ?_⟩ <;>
    · intro htext
      rw [lead, htext] at hlead
      cases hlead
  cases hpieces : p.pieces with
  | nil => exact absurd hpieces (hwhole ▸ Text.splitWhere_ne_nil _ _)
  | cons first others =>
      rw [hpieces] at hjoined hsilent
      have hfirst := hsilent first List.mem_cons_self
      by_cases hothers : others = []
      · subst hothers
        rcases hfirst with rfl | rfl
        · exact String.toList_eq_nil_iff.mp hjoined.symm
        · exact absurd hjoined.symm (hleadless []).2.2
      · rw [Text.join_cons_of_ne_nil first hothers] at hjoined
        rcases hfirst with rfl | rfl
        · exact absurd hjoined.symm (hleadless _).1
        · exact absurd hjoined.symm (hleadless _).2.1

/-- A character other than a slash or a dot stands in a piece that carries a meaning. -/
theorem exists_spoken_of_mem {c : Char} (hslash : c ≠ '/') (hdot : c ≠ '.')
    (hc : c ∈ p.text.toList) : ∃ piece ∈ Path.spoken (Text.split '/' p.text.toList), c ∈ piece := by
  rw [← Text.join_split '/' p.text.toList] at hc
  rcases Text.mem_join hc with rfl | ⟨piece, hpiece, hc⟩
  · exact absurd rfl hslash
  · refine ⟨piece, List.mem_filter.mpr ⟨hpiece, ?_⟩, hc⟩
    rw [Bool.not_eq_true', Bool.eq_false_iff]
    intro hsilent
    rcases isSilent_iff.mp hsilent with rfl | rfl
    · cases hc
    · exact hdot (List.mem_singleton.mp hc)

theorem mem_of_mem_spoken {c : Char} {piece : List Char}
    (hpiece : piece ∈ Path.spoken (Text.split '/' p.text.toList)) (hc : c ∈ piece) :
    c ∈ p.text.toList := by
  rw [← Text.join_split '/' p.text.toList]
  exact Text.mem_join_of_mem (List.mem_filter.mp hpiece).1 hc

/-- A character other than a slash or a dot that stands in one spelling stands in the other. -/
theorem Same.mem {c : Char} (hslash : c ≠ '/') (hdot : c ≠ '.') (hsame : p.Same q)
    (hc : c ∈ q.text.toList) : c ∈ p.text.toList := by
  obtain ⟨piece, hpiece, hin⟩ := exists_spoken_of_mem hslash hdot hc
  exact mem_of_mem_spoken (hsame.spoken ▸ hpiece) hin

theorem components_of_isAbsolute (hp : p.isAbsolute) :
    p.components = .root :: p.pieces.filterMap component? := by
  have hlead : p.lead = .root := by simpa [isAbsolute] using hp
  rw [components, hlead]
  rfl

theorem isAbsolute_join_of_isAbsolute {base : Path} (hbase : base.isAbsolute) (p : Path) :
    (base.join p).isAbsolute := by
  cases hp : p.isAbsolute with
  | true =>
      rw [join]
      simp only [hp, if_true]
  | false =>
      obtain ⟨rest, hrest⟩ := isAbsolute_iff.mp hbase
      have hfront : ∃ more, base.front.toList = '/' :: more := by
        unfold front
        split
        · exact ⟨rest, hrest⟩
        · exact ⟨rest ++ ['/'], by simp [hrest]⟩
      obtain ⟨more, hmore⟩ := hfront
      rw [join_of_relative base hp]
      exact isAbsolute_iff.mpr ⟨more ++ p.text.toList, by simp [hmore]⟩

theorem join_of_isAbsolute (base : Path) {p : Path} (hp : p.isAbsolute) : base.join p = p := by
  rw [join]
  simp only [hp, if_true]

/-- The components behind the lead. -/
def said (p : Path) : List Component := p.pieces.filterMap component?

theorem filterMap_spoken (parts : List (List Char)) :
    (spoken parts).filterMap component? = parts.filterMap component? := by
  rw [spoken, List.filterMap_filter]
  refine List.filterMap_congr fun piece _ => ?_
  cases hpiece : component? piece <;> simp [isSilent, hpiece]

/-- The written form stands for the components behind the lead. -/
theorem filterMap_split (p : Path) :
    (Text.split '/' p.text.toList).filterMap component? = p.said := by
  rw [← filterMap_spoken, spoken_split, filterMap_spoken]
  rfl

/-- What stands behind a slash says its pieces. -/
theorem components_append_slash (before rest : List Char) :
    (Path.mk (.ofList (before ++ '/' :: rest))).components =
      (Path.mk (.ofList (before ++ ['/']))).components ++
        (Text.split '/' rest).filterMap component? := by
  by_cases hbefore : before = []
  · subst hbefore
    simp only [components, lead, pieces, String.toList_ofList, List.nil_append]
    rfl
  · have hsilent : (Text.split '/' []).filterMap component? = [] := rfl
    simp only [components, lead, pieces, String.toList_ofList, cutLead_append_slash hbefore,
      Text.split_append_cons, List.filterMap_append, hsilent, List.append_nil, List.append_assoc]

/-- A base that is written out is continued behind a slash. -/
theorem exists_slash_front (hbase : base.text ≠ "") :
    ∃ before, base.front.toList = before ++ ['/'] ∧
      (Path.mk (.ofList (before ++ ['/']))).components = base.components := by
  have hwritten : base.text.toList ≠ [] := by simpa using hbase
  by_cases hends : base.text.toList.getLast? = some '/'
  · obtain ⟨before, hbefore⟩ := List.getLast?_eq_some_iff.mp hends
    refine ⟨before, ?_, ?_⟩
    · rw [front, if_pos (.inr hends), hbefore]
    · rw [← hbefore, String.ofList_toList]
  · refine ⟨base.text.toList, ?_, ?_⟩
    · rw [front, if_neg (not_or.mpr ⟨hwritten, hends⟩)]
      simp
    · have hsilent : (Text.split '/' []).filterMap component? = [] := rfl
      simp only [components, lead, pieces, String.toList_ofList, cutLead_append_slash hwritten,
        Text.split_append_cons, List.filterMap_append, hsilent, List.append_nil]

/-- The components of a relative path follow those of the path to which it is joined. -/
theorem components_join (hbase : base.text ≠ "") (hq : q.isAbsolute = false) :
    (base.join q).components = base.components ++ q.said := by
  obtain ⟨before, hfront, hcomponents⟩ := exists_slash_front hbase
  have hjoined : base.join q = ⟨.ofList (before ++ '/' :: q.text.toList)⟩ := by
    rw [join_of_relative base hq, Path.mk.injEq, ← String.toList_inj, String.toList_append, hfront]
    simp
  rw [hjoined, components_append_slash, hcomponents, filterMap_split]

theorem text_ne_of_isAbsolute (hp : p.isAbsolute) : p.text ≠ "" := by
  obtain ⟨rest, hrest⟩ := isAbsolute_iff.mp hp
  intro hempty
  rw [hempty] at hrest
  cases hrest

/-- An empty path joined to an absolute one is another spelling of that one. -/
theorem same_join_empty (hbase : base.isAbsolute) : (base.join ⟨""⟩).Same base := by
  rw [Same, components_join (text_ne_of_isAbsolute hbase) (by decide)]
  exact List.append_nil _

/-- Behind a slash at the end of a path everything is joined as it is without the slash. -/
theorem join_join_empty {base : Path} (hbase : base.isAbsolute) (p : Path) :
    (base.join ⟨""⟩).join p = base.join p := by
  refine join_congr (q := ⟨""⟩) (by decide) ?_ p
  have hjoined : base.join ⟨""⟩ = ⟨base.front⟩ := by
    rw [join_of_relative base (by decide), String.append_empty]
  obtain ⟨rest, hrest⟩ := isAbsolute_iff.mp hbase
  have hslash : base.front.toList.getLast? = some '/' := by
    unfold front
    split
    · rename_i hends
      exact hends.resolve_left (by simp [hrest])
    · simp
  rw [hjoined, join_of_relative ⟨base.front⟩ (by decide), front, if_pos (.inr hslash),
    String.append_empty]

/-- Silent pieces at the front may be left out. -/
theorem filterMap_dropWhile (parts : List (List Char)) :
    (parts.dropWhile isSilent).filterMap component? = parts.filterMap component? := by
  induction parts with
  | nil => rfl
  | cons piece parts ih =>
      cases hpiece : component? piece with
      | none =>
          have hsilent : isSilent piece = true := by simp [isSilent, hpiece]
          rw [List.dropWhile_cons_of_pos hsilent, ih, List.filterMap_cons_none hpiece]
      | some component =>
          have hspoken : ¬isSilent piece = true := by simp [isSilent, hpiece]
          rw [List.dropWhile_cons_of_neg hspoken]

/-- Silent pieces at the end may be left out. -/
theorem filterMap_dropSilentEnd (parts : List (List Char)) :
    (dropSilentEnd parts).filterMap component? = parts.filterMap component? := by
  rw [dropSilentEnd, List.filterMap_reverse, filterMap_dropWhile, List.filterMap_reverse,
    List.reverse_reverse]

theorem filterMap_dropComponents (count : Nat) (parts : List (List Char)) :
    (dropComponents count parts).filterMap component? =
      (parts.filterMap component?).drop count := by
  fun_induction dropComponents count parts with
  | case1 parts => rfl
  | case2 count => rfl
  | case3 count part parts hsilent ih =>
      have hnone : component? part = none := by simpa [isSilent] using hsilent
      rw [ih, List.filterMap_cons_none hnone]
  | case4 count part parts hspoken ih =>
      have hpiece : component? part ≠ none := by simpa [isSilent] using hspoken
      obtain ⟨component, hsome⟩ := Option.ne_none_iff_exists'.mp hpiece
      rw [ih, List.filterMap_cons_some hsome, List.drop_succ_cons]

theorem dropComponents_suffix (count : Nat) (parts : List (List Char)) :
    dropComponents count parts <:+ parts := by
  fun_induction dropComponents count parts with
  | case1 parts => exact List.suffix_refl parts
  | case2 count => exact List.suffix_refl []
  | case3 count part parts hsilent ih => exact ih.trans (List.suffix_cons part parts)
  | case4 count part parts hspoken ih => exact ih.trans (List.suffix_cons part parts)

variable {rest : Path} {parts : List (List Char)}

theorem filterMap_split_join (hparts : ∀ piece ∈ parts, '/' ∉ piece) :
    (Text.split '/' (Text.join '/' parts)).filterMap component? = parts.filterMap component? := by
  by_cases hnone : parts = []
  · subst hnone
    rfl
  · rw [Text.split_join hnone hparts]

/-- A path that is put together behind the root says its pieces. -/
theorem components_ofPieces_root (hparts : ∀ piece ∈ parts, '/' ∉ piece) :
    (ofPieces .root parts).isAbsolute ∧
      (ofPieces .root parts).components = .root :: parts.filterMap component? := by
  have htext : (ofPieces .root parts).text.toList = '/' :: Text.join '/' parts := by
    rw [ofPieces, String.toList_ofList]
    rfl
  have habsolute : (ofPieces .root parts).isAbsolute := isAbsolute_iff.mpr ⟨_, htext⟩
  refine ⟨habsolute, ?_⟩
  rw [components_of_isAbsolute habsolute, pieces, htext]
  exact congrArg (Component.root :: ·) (filterMap_split_join hparts)

/-- A path that begins with a piece that carries a meaning is relative and says its pieces. -/
theorem said_ofPieces_none (hparts : ∀ piece ∈ parts, '/' ∉ piece)
    (hspoken : ∀ piece ∈ parts.head?, isSilent piece = false) :
    (ofPieces .none parts).isAbsolute = false ∧
      (ofPieces .none parts).said = parts.filterMap component? := by
  have htext : (ofPieces .none parts).text.toList = Text.join '/' parts := by
    rw [ofPieces, String.toList_ofList]
    rfl
  refine ⟨?_, by rw [← filterMap_split, htext, filterMap_split_join hparts]⟩
  rw [Bool.eq_false_iff, ne_eq, isAbsolute_iff, htext]
  rintro ⟨rest, hslash⟩
  cases parts with
  | nil => cases hslash
  | cons piece others =>
      have hpiece := hspoken piece rfl
      -- A slash at the front would stand behind an empty piece.
      cases piece with
      | nil => cases hpiece
      | cons c piece =>
          have hc : c = '/' := by
            cases others <;> exact (List.cons.inj hslash).1
          exact hparts _ List.mem_cons_self (hc ▸ List.mem_cons_self)

/-- The pieces that are left below a base: silent ones at either end are left out. -/
def piecesBelow (count : Nat) (parts : List (List Char)) : List (List Char) :=
  dropSilentEnd ((dropComponents count parts).dropWhile isSilent)

theorem filterMap_piecesBelow (count : Nat) (parts : List (List Char)) :
    (piecesBelow count parts).filterMap component? = (parts.filterMap component?).drop count := by
  rw [piecesBelow, filterMap_dropSilentEnd, filterMap_dropWhile, filterMap_dropComponents]

theorem mem_of_mem_piecesBelow {count : Nat} {piece : List Char}
    (hpiece : piece ∈ piecesBelow count parts) : piece ∈ parts :=
  (dropComponents_suffix count parts).subset <|
    (List.dropWhile_suffix isSilent).subset <| (List.rdropWhile_prefix isSilent _).subset hpiece

/-- What is left below a base begins with a piece that carries a meaning. -/
theorem spoken_of_mem_head?_piecesBelow {count : Nat} {piece : List Char}
    (hpiece : piece ∈ (piecesBelow count parts).head?) : isSilent piece = false := by
  obtain ⟨silent, hwhole⟩ : piecesBelow count parts <+: (dropComponents count parts).dropWhile
      isSilent := List.rdropWhile_prefix isSilent _
  have hfirst := List.head?_dropWhile_not isSilent (dropComponents count parts)
  cases hkept : piecesBelow count parts with
  | nil =>
      rw [hkept] at hpiece
      cases hpiece
  | cons first others =>
      rw [hkept] at hpiece hwhole
      rw [← hwhole] at hfirst
      obtain rfl := Option.some.inj hpiece
      exact hfirst

/-- What is left of an absolute path below a base leads from the base to a spelling of the path. -/
theorem same_join_below? (hp : p.isAbsolute) (hbelow : p.below? base = some rest) :
    (base.join rest).Same p := by
  have hslashless : ∀ piece ∈ p.pieces, '/' ∉ piece := fun piece => Text.not_mem_of_mem_split
  have hlead : p.lead = .root := by simpa [isAbsolute] using hp
  have hcomponents := components_of_isAbsolute hp
  unfold below? at hbelow
  split at hbelow
  case isFalse => cases hbelow
  case isTrue hbegins =>
    obtain ⟨behind, hbehind⟩ := List.isPrefixOf_iff_prefix.mp hbegins
    split at hbelow
    · obtain rfl := Option.some.inj hbelow
      have hkept : ∀ piece ∈ dropSilentEnd p.pieces, '/' ∉ piece := fun piece hpiece =>
        hslashless piece ((List.rdropWhile_prefix isSilent p.pieces).subset hpiece)
      obtain ⟨habsolute, hsaid⟩ := components_ofPieces_root hkept
      rw [hlead, join_of_isAbsolute base habsolute, Same, hsaid, filterMap_dropSilentEnd,
        hcomponents]
    · rename_i hsome
      have hbase : base.text ≠ "" := by
        intro hempty
        obtain rfl : base = ⟨""⟩ := congrArg Path.mk hempty
        exact hsome rfl
      obtain ⟨count, hcount⟩ := Nat.exists_eq_succ_of_ne_zero hsome
      have hkept : ∀ piece ∈ piecesBelow count p.pieces, '/' ∉ piece := fun piece hpiece =>
        hslashless piece (mem_of_mem_piecesBelow hpiece)
      have hspoken : ∀ piece ∈ (piecesBelow count p.pieces).head?, isSilent piece = false :=
        fun piece => spoken_of_mem_head?_piecesBelow
      obtain ⟨hrelative, hsaid⟩ := said_ofPieces_none hkept hspoken
      have hrest : rest = ofPieces .none (piecesBelow count p.pieces) := by
        rw [← Option.some.inj hbelow, hlead, hcount]
        rfl
      rw [filterMap_piecesBelow] at hsaid
      have hdropped : behind = (p.pieces.filterMap component?).drop count := by
        have hdrop := congrArg (List.drop base.components.length) hbehind
        rwa [List.drop_left, hcomponents, hcount, List.drop_succ_cons] at hdrop
      rw [hrest, Same, components_join hbase hrelative, hsaid, ← hdropped, hbehind]

end ScriptAssembly.Path
