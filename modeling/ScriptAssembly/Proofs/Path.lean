import Mathlib.Data.List.DropRight
import ScriptAssembly.Path
import ScriptAssembly.Project.Layout

/-!
# Joined paths

A name joined to a path is its last piece, and the path in front of it is its parent.  A name joined
to the parent of a path takes the place of the last name of that path.  The configuration and the
stamp of a project are both joined to one directory.
-/

namespace ScriptAssembly.Path

theorem isAbsolute_iff {p : Path} : p.isAbsolute ↔ ∃ rest, p.text.toList = '/' :: rest := by
  unfold isAbsolute lead
  fun_cases cutLead p.text.toList <;> simp_all

/-- The written form is its lead and what is behind it. -/
theorem cutLead_chars (s : List Char) : (cutLead s).1.chars ++ (cutLead s).2 = s := by
  fun_cases cutLead s <;> rfl

theorem cutLead_append_slash {s : List Char} (hs : s ≠ []) (rest : List Char) :
    cutLead (s ++ '/' :: rest) = ((cutLead s).1, (cutLead s).2 ++ '/' :: rest) := by
  match s with
  | '/' :: _ => rfl
  | ['.'] => rfl
  | '.' :: '/' :: _ => rfl
  | [c] =>
      by_cases hroot : c = '/'
      · subst hroot
        rfl
      · by_cases hdot : c = '.'
        · subst hdot
          rfl
        · simp [cutLead, hroot, hdot]
  | c :: second :: others =>
      by_cases hroot : c = '/'
      · subst hroot
        rfl
      · by_cases hdot : c = '.'
        · subst hdot
          by_cases hslash : second = '/'
          · subst hslash
            rfl
          · simp [cutLead, hslash]
        · simp [cutLead, hroot, hdot]

/-- A name that can stand behind a slash. -/
structure IsName (name : String) : Prop where
  /-- It is one piece. -/
  slashless : '/' ∉ name.toList
  /-- It carries a meaning. -/
  spoken : isSilent name.toList = false

theorem IsName.isAbsolute {name : String} (hname : IsName name) :
    (Path.mk name).isAbsolute = false := by
  rw [Bool.eq_false_iff, ne_eq, isAbsolute_iff]
  rintro ⟨rest, htext⟩
  exact hname.slashless (htext ▸ List.mem_cons_self)

theorem IsName.ne_nil {name : String} (hname : IsName name) : name.toList ≠ [] := by
  intro hempty
  have hspoken := hname.spoken
  rw [hempty] at hspoken
  cases hspoken

theorem IsName.cutLead {name : String} (hname : IsName name) :
    cutLead name.toList = (.none, name.toList) := by
  have hslash := hname.slashless
  have hspoken := hname.spoken
  generalize name.toList = s at hslash hspoken ⊢
  fun_cases Path.cutLead s <;> simp_all [isSilent, component?]

/-- The path ends with a name. -/
structure EndsNamed (p : Path) : Prop where
  /-- Its last piece carries a meaning. -/
  last : ∃ front piece, p.pieces = front ++ [piece] ∧ isSilent piece = false
  /-- Its last character is no slash. -/
  noSlash : p.text.toList.getLast? ≠ some '/'

theorem EndsNamed.ne_nil {p : Path} (hp : p.EndsNamed) : p.text.toList ≠ [] := by
  intro hempty
  obtain ⟨front, piece, hpieces, hspoken⟩ := hp.last
  rw [pieces, hempty] at hpieces
  cases front with
  | nil =>
      injection hpieces with hpiece
      subst hpiece
      cases hspoken
  | cons first others =>
      injection hpieces with _ hothers
      simp at hothers

theorem EndsNamed.withoutEndSlashes {p : Path} (hp : p.EndsNamed) : p.withoutEndSlashes = p := by
  have hkept : p.text.toList.reverse.dropWhile (· = '/') = p.text.toList.reverse := by
    have hnoSlash := hp.noSlash
    rw [← List.head?_reverse] at hnoSlash
    cases hreverse : p.text.toList.reverse with
    | nil => rfl
    | cons c rest =>
        rw [hreverse] at hnoSlash
        have hc : c ≠ '/' := by simpa using hnoSlash
        simp [List.dropWhile, hc]
  have hne : p.text.toList.reverse ≠ [] := by simpa using hp.ne_nil
  rw [Path.withoutEndSlashes]
  simp only [hkept, if_neg hne, List.reverse_reverse, String.ofList_toList]

theorem getLast?_append_name {name : String} (hname : IsName name) (front : List Char) :
    (front ++ name.toList).getLast? ≠ some '/' := by
  rw [List.getLast?_append, List.getLast?_eq_some_getLast hname.ne_nil, Option.some_or]
  intro hlast
  rw [← List.getLast?_eq_some_getLast hname.ne_nil] at hlast
  exact hname.slashless (List.mem_of_getLast? hlast)

/-- A path joined to a name ends with that name. -/
theorem endsNamed_join (base : Path) {name : String} (hname : IsName name) :
    (base.join ⟨name⟩).EndsNamed := by
  have hlast : Text.split '/' name.toList = [name.toList] := Text.split_of_not_mem hname.slashless
  have hdirect : ∀ front : List Char, front = [] ∨ front.getLast? = some '/' →
      (Path.mk (.ofList (front ++ name.toList))).EndsNamed := by
    intro front hfront
    refine ⟨?_, by simpa using getLast?_append_name hname front⟩
    rw [pieces, String.toList_ofList]
    rcases hfront with rfl | hslash
    · refine ⟨[], name.toList, ?_, hname.spoken⟩
      rw [List.nil_append, hname.cutLead, hlast]
      rfl
    · obtain ⟨before, rfl⟩ := List.getLast?_eq_some_iff.mp hslash
      rw [List.append_assoc, List.singleton_append]
      by_cases hbefore : before = []
      · subst hbefore
        exact ⟨[], name.toList, hlast, hname.spoken⟩
      · rw [cutLead_append_slash hbefore, Text.split_append_cons, hlast]
        exact ⟨_, _, rfl, hname.spoken⟩
  simp only [join, hname.isAbsolute, Bool.false_eq_true, if_false]
  split
  · rename_i hends
    have hjoined := hdirect base.text.toList hends
    simpa [String.ofList_append] using hjoined
  · have hjoined := hdirect (base.text.toList ++ ['/']) (.inr (by simp))
    simpa [String.ofList_append, String.append_assoc] using hjoined

theorem text_join {base : Path} (hbase : base.EndsNamed) {name : String} (hname : IsName name) :
    (base.join ⟨name⟩).text = base.text ++ "/" ++ name := by
  rw [join]
  simp only [hname.isAbsolute]
  rw [if_neg (by decide), if_neg (not_or.mpr ⟨hbase.ne_nil, hbase.noSlash⟩)]

theorem toList_text_join {base : Path} (hbase : base.EndsNamed) {name : String}
    (hname : IsName name) :
    (base.join ⟨name⟩).text.toList = base.text.toList ++ '/' :: name.toList := by
  rw [text_join hbase hname]
  simp

theorem isAbsolute_join {base : Path} (hbase : base.EndsNamed) {name : String}
    (hname : IsName name) : (base.join ⟨name⟩).isAbsolute = base.isAbsolute := by
  rw [isAbsolute, isAbsolute, lead, lead, toList_text_join hbase hname,
    cutLead_append_slash hbase.ne_nil]

/-- What stands in front of a relative path that is joined to the base. -/
def front (base : Path) : String :=
  if base.text.toList = [] ∨ base.text.toList.getLast? = some '/' then base.text
  else base.text ++ "/"

theorem join_of_relative (base : Path) {p : Path} (hp : p.isAbsolute = false) :
    base.join p = ⟨base.front ++ p.text⟩ := by
  simp only [join, hp, Bool.false_eq_true, if_false, front]
  split <;> rfl

/-- Bases to which one relative path is joined alike have every path joined alike. -/
theorem join_congr {base other q : Path} (hq : q.isAbsolute = false)
    (hsame : base.join q = other.join q) (p : Path) : base.join p = other.join p := by
  rw [join_of_relative base hq, join_of_relative other hq, Path.mk.injEq] at hsame
  have hfront : base.front = other.front := by
    have hchars := congrArg String.toList hsame
    rw [String.toList_append, String.toList_append] at hchars
    exact String.toList_injective (List.append_cancel_right hchars)
  by_cases hp : p.isAbsolute
  · rw [join, join]
    simp only [hp, if_true]
  · rw [Bool.not_eq_true] at hp
    rw [join_of_relative base hp, join_of_relative other hp, hfront]

theorem dropSilentEnd_append {front : List (List Char)} {piece : List Char}
    (hpiece : isSilent piece = false) : dropSilentEnd (front ++ [piece]) = front ++ [piece] := by
  simp [dropSilentEnd, hpiece]

theorem pieces_join {base : Path} (hbase : base.EndsNamed) {name : String} (hname : IsName name) :
    (base.join ⟨name⟩).pieces = base.pieces ++ [name.toList] := by
  rw [pieces, toList_text_join hbase hname, cutLead_append_slash hbase.ne_nil,
    Text.split_append_cons, Text.split_of_not_mem hname.slashless]
  rfl

/-- The parent of a joined path is what the name was joined to. -/
theorem parent?_join {base : Path} (hbase : base.EndsNamed) {name : String}
    (hname : IsName name) : (base.join ⟨name⟩).parent? = some base := by
  have hlead : (base.join ⟨name⟩).lead = base.lead := by
    rw [lead, toList_text_join hbase hname, cutLead_append_slash hbase.ne_nil]
    rfl
  obtain ⟨front, piece, hfront, hspoken⟩ := hbase.last
  have hwhole : dropSilentEnd base.pieces = base.pieces := by
    rw [hfront, dropSilentEnd_append hspoken]
  have hback : ofPieces base.lead base.pieces = base := by
    rw [ofPieces, pieces, Text.join_split, lead, cutLead_chars, String.ofList_toList]
  rw [parent?, pieces_join hbase hname, dropSilentEnd_append hname.spoken]
  split
  · rename_i hempty
    simp at hempty
  · rw [List.dropLast_concat, hwhole, hlead, hback]

/-- Behind the root the pieces are all there is. -/
theorem split_of_isAbsolute {p : Path} (hp : p.isAbsolute) :
    Text.split '/' p.text.toList = [] :: p.pieces := by
  obtain ⟨rest, htext⟩ := isAbsolute_iff.mp hp
  rw [pieces, htext]
  exact Text.split_append_cons '/' [] rest

theorem text_of_isAbsolute {p : Path} (hp : p.isAbsolute) :
    p.text.toList = '/' :: Text.join '/' p.pieces := by
  obtain ⟨rest, htext⟩ := isAbsolute_iff.mp hp
  have hpieces : p.pieces = Text.split '/' rest := by
    rw [pieces, htext]
    rfl
  rw [hpieces, Text.join_split, htext]

/-- A path with a spoken piece at its end does not end with a slash. -/
theorem endsNamed_of_pieces {p : Path} {front : List (List Char)} {piece : List Char}
    (hpieces : p.pieces = front ++ [piece]) (hspoken : isSilent piece = false) : p.EndsNamed := by
  refine ⟨⟨front, piece, hpieces, hspoken⟩, fun hslash => ?_⟩
  have hlast : p.pieces.getLast? = some [] := by
    obtain ⟨before, htext⟩ := List.getLast?_eq_some_iff.mp hslash
    rw [pieces, htext]
    by_cases hbefore : before = []
    · subst hbefore
      rfl
    · rw [cutLead_append_slash hbefore, Text.split_append_cons]
      simp [Text.split, Text.splitWhere]
  rw [hpieces, List.getLast?_concat] at hlast
  cases hlast
  cases hspoken

/-- The pieces of a path without the silent ones at the end are some of its first pieces, and the
last of them is spoken. -/
theorem dropSilentEnd_cases (parts : List (List Char)) :
    (∃ silent, parts = dropSilentEnd parts ++ silent) ∧ (dropSilentEnd parts = [] ∨
      ∃ front piece, dropSilentEnd parts = front ++ [piece] ∧ isSilent piece = false) := by
  refine ⟨?_, ?_⟩
  · obtain ⟨silent, hparts⟩ := List.rdropWhile_prefix isSilent parts
    exact ⟨silent, hparts.symm⟩
  · by_cases hnone : dropSilentEnd parts = []
    · exact .inl hnone
    · refine .inr ⟨_, _, (List.dropLast_concat_getLast hnone).symm, ?_⟩
      exact Bool.eq_false_iff.mpr (List.rdropWhile_last_not isSilent parts hnone)

/-- Nothing is said behind the root of a path that has no parent. -/
theorem silent_of_parent?_none {p : Path} (hp : p.isAbsolute) (hparent : p.parent? = none)
    {piece : List Char} (hpiece : piece ∈ p.pieces) : piece = [] ∨ piece = ['.'] := by
  have hlead : p.lead = .root := by simpa [isAbsolute] using hp
  have hsilent : dropSilentEnd p.pieces = [] := by
    by_contra hne
    rw [parent?] at hparent
    split at hparent
    · contradiction
    · cases hparent
  have hnone := List.rdropWhile_eq_nil_iff.mp hsilent piece hpiece
  rw [isSilent, component?] at hnone
  by_contra hspoken
  rw [if_neg hspoken] at hnone
  split at hnone <;> cases hnone

theorem isAbsolute_of_parent? {p parent : Path} (hp : p.isAbsolute)
    (hparent : p.parent? = some parent) : parent.isAbsolute := by
  have hlead : p.lead = .root := by simpa [isAbsolute] using hp
  rw [parent?] at hparent
  split at hparent
  · simp [hlead] at hparent
  · rw [hlead] at hparent
    obtain rfl := Option.some.inj hparent
    exact isAbsolute_iff.mpr ⟨_, by rw [ofPieces, String.toList_ofList]; rfl⟩

/-- A name joined to the parent of a path stands beside the last piece of that path. -/
theorem pieces_parent_join {p parent : Path} (hp : p.isAbsolute) (hparent : p.parent? = some parent)
    {name : String} (hname : IsName name) :
    (parent.join ⟨name⟩).isAbsolute ∧ ∃ front others, p.pieces = front ++ others ∧
      others.all List.isEmpty = false ∧ (parent.join ⟨name⟩).pieces = front ++ [name.toList] := by
  have hlead : p.lead = .root := by simpa [isAbsolute] using hp
  obtain ⟨⟨silent, hsilent⟩, hnone | ⟨before, last, hlast, hspoken⟩⟩ := dropSilentEnd_cases p.pieces
  · rw [parent?, hnone] at hparent
    simp [hlead] at hparent
  · have hbase : parent = ofPieces .root (dropSilentEnd before) := by
      rw [parent?, hlast] at hparent
      split at hparent
      · rename_i hempty
        simp at hempty
      · rw [hlead, List.dropLast_concat] at hparent
        exact (Option.some.inj hparent).symm
    have habove : ∃ inner, before = dropSilentEnd before ++ inner := (dropSilentEnd_cases before).1
    obtain ⟨inner, hinner⟩ := habove
    have hpieces : p.pieces = dropSilentEnd before ++ (inner ++ last :: silent) := by
      rw [hsilent, hlast]
      conv_lhs => rw [hinner]
      simp
    have hheard : (inner ++ last :: silent).all List.isEmpty = false := by
      have hlong : last ≠ [] := by
        rintro rfl
        cases hspoken
      simp [hlong]
    rcases (dropSilentEnd_cases before).2 with hroot | ⟨front, piece, hfront, hpiece⟩
    · rw [hroot] at hbase hpieces
      subst hbase
      have hjoined : (ofPieces .root []).join ⟨name⟩ = ⟨"/" ++ name⟩ := by
        rw [join_of_relative _ hname.isAbsolute]
        rfl
      refine ⟨isAbsolute_iff.mpr ⟨name.toList, by simp [hjoined]⟩, [], _, hpieces, hheard, ?_⟩
      have htext : (Path.mk ("/" ++ name)).text.toList = '/' :: name.toList := by simp
      rw [hjoined, pieces, htext]
      exact Text.split_of_not_mem hname.slashless
    · have hslashless : ∀ piece ∈ dropSilentEnd before, '/' ∉ piece := by
        intro piece hmem
        have hmem : piece ∈ p.pieces := hpieces ▸ List.mem_append_left _ hmem
        exact Text.not_mem_of_mem_split hmem
      have hparted : parent.pieces = dropSilentEnd before := by
        rw [hbase, pieces, ofPieces, String.toList_ofList]
        exact Text.split_join (by simp [hfront]) hslashless
      have hends : parent.EndsNamed := endsNamed_of_pieces (hparted.trans hfront) hpiece
      have habsolute : parent.isAbsolute := isAbsolute_of_parent? hp hparent
      refine ⟨by rw [isAbsolute_join hends hname, habsolute], _, _, hpieces, hheard, ?_⟩
      rw [pieces_join hends hname, hparted]

/-- The first path is the second one or one above it. -/
inductive IsAbove : Path → Path → Prop
  | refl (p : Path) : IsAbove p p
  | parent {p parent above : Path} (hparent : p.parent? = some parent)
      (habove : IsAbove above parent) : IsAbove above p

end ScriptAssembly.Path

namespace ScriptAssembly.Layout

variable (l : Layout)

theorem endsNamed_metaDirectory : l.metaDirectory.EndsNamed :=
  Path.endsNamed_join l.root ⟨by decide, by decide⟩

theorem parent?_stampPath : l.stampPath.parent? = some l.metaDirectory :=
  Path.parent?_join l.endsNamed_metaDirectory ⟨by decide, by decide⟩

end ScriptAssembly.Layout
