import ScriptAssembly.Machine.Disk

/-!
# Entries of a changed disk

What stands at a place depends only on what is noted for it and for the places above it.  So an
entry that replaces no directory changes what stands at its own place and nowhere else.
-/

namespace ScriptAssembly.Disk

variable {d : Disk} {place other : Place} {entry : Entry}

theorem lookup_filter {α β : Type} [BEq α] [LawfulBEq α] (keep : α → Bool)
    (entries : List (α × β)) (key : α) :
    (entries.filter fun known => keep known.1).lookup key =
      if keep key then entries.lookup key else none := by
  induction entries with
  | nil => simp
  | cons known entries ih =>
      obtain ⟨name, value⟩ := known
      by_cases hsame : key = name
      · subst hsame
        cases hkeep : keep key with
        | true => simp [hkeep]
        | false => simpa [hkeep] using ih
      · have hne : (key == name) = false := by simpa using hsame
        cases hkeep : keep name with
        | true => simpa [hkeep, List.lookup_cons, hne] using ih
        | false => simpa [hkeep, List.lookup_cons, hne] using ih

theorem noted?_erase (hplace : place ≠ []) (other : Place) :
    (d.erase place).noted? other = if place <+: other then none else d.noted? other := by
  cases other with
  | nil => simp [noted?, hplace]
  | cons name names =>
      have herase := lookup_filter (fun known => !place.isPrefixOf known) d.entries (name :: names)
      have hnoted : (d.erase place).noted? (name :: names) =
          if !place.isPrefixOf (name :: names) then d.entries.lookup (name :: names) else none :=
        herase
      rw [hnoted]
      by_cases hbelow : place <+: name :: names
      · rw [if_pos hbelow, List.isPrefixOf_iff_prefix.mpr hbelow]
        rfl
      · rw [if_neg hbelow, Bool.eq_false_iff.mpr (mt List.isPrefixOf_iff_prefix.mp hbelow)]
        rfl

theorem noted?_put (hplace : place ≠ []) (entry : Entry) (other : Place) :
    (d.put place entry).noted? other = if other = place then some entry else d.noted? other := by
  cases other with
  | nil => simp [noted?, hplace.symm]
  | cons name names =>
      have hfilter := lookup_filter (fun known => decide (known ≠ place)) d.entries (name :: names)
      have hnoted : (d.put place entry).noted? (name :: names) =
          ((if decide (name :: names ≠ place) then d.entries.lookup (name :: names) else none).or
            ([(place, entry)].lookup (name :: names))) := by
        rw [← hfilter, ← List.lookup_append]
        rfl
      rw [hnoted]
      by_cases hsame : name :: names = place
      · simp [hsame]
      · have hne : (name :: names == place) = false := by simpa using hsame
        simp [hsame, List.lookup_cons, hne, noted?]

theorem noted?_replace (hplace : place ≠ []) (entry : Entry) (other : Place) :
    (d.replace place entry).noted? other =
      if other = place then some entry
      else if place <+: other then none
      else d.noted? other := by
  rw [replace, noted?_put hplace, noted?_erase hplace]

theorem any_isDirectory {noted : Option Entry} :
    noted.any Entry.isDirectory ↔ noted = some .directory := by
  rcases noted with - | ⟨- | - | -⟩ <;> simp [Entry.isDirectory]

theorem isReachable_iff :
    d.isReachable place ↔ ∀ n < place.length, d.noted? (place.take n) = some .directory := by
  simp [isReachable, any_isDirectory]

theorem isDirectoryAt_iff : d.isDirectoryAt place ↔ d.at? place = some .directory :=
  any_isDirectory

@[simp]
theorem at?_root : d.at? [] = some .directory := rfl

theorem at?_eq_some_iff :
    d.at? place = some entry ↔ d.isReachable place ∧ d.noted? place = some entry := by
  unfold at?
  split <;> simp_all

/-- Whatever stands below a place stands in a directory. -/
theorem at?_eq_directory_of_below (hbelow : place <+: other) (hne : place ≠ other)
    (hentry : d.at? other = some entry) : d.at? place = some .directory := by
  have hreach := isReachable_iff.mp (at?_eq_some_iff.mp hentry).1
  have hlength : place.length < other.length := by
    refine Nat.lt_of_le_of_ne hbelow.length_le ?_
    intro hlength
    exact hne (hbelow.eq_of_length hlength)
  have htake : other.take place.length = place := (List.prefix_iff_eq_take.mp hbelow).symm
  refine at?_eq_some_iff.mpr ⟨isReachable_iff.mpr ?_, ?_⟩
  · intro n hn
    have hsame : (other.take place.length).take n = other.take n := by
      rw [List.take_take, Nat.min_eq_left (Nat.le_of_lt hn)]
    rw [htake] at hsame
    rw [hsame]
    exact hreach n (Nat.lt_trans hn hlength)
  · have hnoted := hreach place.length hlength
    rwa [htake] at hnoted

/-- Nothing stands below a place where nothing stands. -/
theorem at?_of_vacant (hplace : d.at? place = none) (hbelow : place <+: other) :
    d.at? other = none := by
  by_cases hsame : place = other
  · rw [← hsame, hplace]
  · cases hentry : d.at? other with
    | none => rfl
    | some entry =>
        have hdirectory := at?_eq_directory_of_below hbelow hsame hentry
        rw [hplace] at hdirectory
        cases hdirectory

theorem at?_append_of_vacant (hplace : d.at? place = none) {name : String} :
    d.at? (place ++ [name]) = none :=
  at?_of_vacant hplace (List.prefix_append place [name])

theorem isReachable_append {name : String} (hparent : d.at? place = some .directory) :
    d.isReachable (place ++ [name]) := by
  obtain ⟨hreach, hnoted⟩ := at?_eq_some_iff.mp hparent
  rw [isReachable_iff] at hreach ⊢
  intro n hn
  rw [List.length_append, List.length_singleton] at hn
  rw [List.take_append_of_le_length (Nat.le_of_lt_succ hn)]
  rcases Nat.lt_or_eq_of_le (Nat.le_of_lt_succ hn) with hlt | heq
  · exact hreach n hlt
  · rw [heq, List.take_length]
    exact hnoted

/-- In a directory everything that is noted can be reached. -/
theorem at?_concat {name : String} (hparent : d.at? place = some .directory) :
    d.at? (place ++ [name]) = d.noted? (place ++ [name]) := by
  rw [at?, if_pos (isReachable_append hparent)]

theorem at?_eq_directory_dropLast (hplace : d.at? place = some .directory) :
    d.at? place.dropLast = some .directory := by
  by_cases hroot : place = []
  · rw [hroot]
    rfl
  · have hne : place.dropLast ≠ place := by
      intro heq
      have hlength := congrArg List.length heq
      have hpositive := List.length_pos_iff.mpr hroot
      rw [List.length_dropLast] at hlength
      omega
    exact at?_eq_directory_of_below (List.dropLast_prefix place) hne hplace

/-- An entry put in a directory where no directory stands changes nothing but its own place. -/
theorem at?_replace {parent : Place} {name : String} (hparent : d.at? parent = some .directory)
    (hplace : d.at? (parent ++ [name]) ≠ some .directory) (entry : Entry) (other : Place) :
    (d.replace (parent ++ [name]) entry).at? other =
      if other = parent ++ [name] then some entry else d.at? other := by
  have hroot : parent ++ [name] ≠ [] := by simp
  have hreachable : d.isReachable (parent ++ [name]) := isReachable_append hparent
  have hreach := isReachable_iff.mp hreachable
  generalize parent ++ [name] = place at *
  by_cases hsame : other = place
  · subst hsame
    rw [if_pos rfl]
    refine at?_eq_some_iff.mpr ⟨isReachable_iff.mpr ?_, by rw [noted?_replace hroot, if_pos rfl]⟩
    intro n hn
    have hshort : (other.take n).length < other.length := by
      rw [List.length_take]
      omega
    rw [noted?_replace hroot, if_neg, if_neg, hreach n hn]
    · intro hbelow
      exact absurd hbelow.length_le (by omega)
    · intro heq
      rw [heq] at hshort
      omega
  · rw [if_neg hsame]
    by_cases hbelow : place <+: other
    · have hbefore : d.at? other = none := by
        cases hentry : d.at? other with
        | none => rfl
        | some entry =>
            exact absurd (at?_eq_directory_of_below hbelow (Ne.symm hsame) hentry) hplace
      have hnoted : (d.replace place entry).noted? other = none := by
        rw [noted?_replace hroot, if_neg hsame, if_pos hbelow]
      rw [hbefore, at?, hnoted]
      split <;> rfl
    · have hkept : ∀ above, above <+: other →
          (d.replace place entry).noted? above = d.noted? above := by
        intro above habove
        rw [noted?_replace hroot, if_neg, if_neg]
        · intro hplace
          exact hbelow (hplace.trans habove)
        · rintro rfl
          exact hbelow habove
      have hreachable : (d.replace place entry).isReachable other = d.isReachable other := by
        rw [Bool.eq_iff_iff, isReachable_iff, isReachable_iff]
        refine forall_congr' fun n => ?_
        rw [hkept _ (List.take_prefix n other)]
      rw [at?, at?, hreachable, hkept other (List.prefix_refl other)]

/-- A file stands at the place. -/
def IsFileAt (d : Disk) (place : Place) : Prop :=
  ∃ content executable, d.at? place = some (.file content executable)

/-- Every directory and every link is kept. -/
def KeepsWays (before after : Disk) : Prop :=
  ∀ place entry, before.at? place = some entry → entry.isFile = false →
    after.at? place = some entry

/-- Every entry is kept, but the content of a file may be another one. -/
def Keeps (before after : Disk) : Prop :=
  ∀ place entry, before.at? place = some entry →
    ∃ kept, after.at? place = some kept ∧ (kept = entry ∨ kept.isFile ∧ entry.isFile)

theorem Keeps.trans {first second third : Disk} (hfirst : first.Keeps second)
    (hsecond : second.Keeps third) : first.Keeps third := by
  intro place entry hentry
  obtain ⟨kept, hkept, hkind⟩ := hfirst place entry hentry
  obtain ⟨last, hlast, rfl | ⟨hfile, hother⟩⟩ := hsecond place kept hkept
  · exact ⟨last, hlast, hkind⟩
  · refine ⟨last, hlast, .inr ⟨hfile, ?_⟩⟩
    rcases hkind with rfl | ⟨-, hentry⟩
    · exact hother
    · exact hentry

/-- What stands at the place is the same, or a directory has been made where nothing stood. -/
def Spares (before : Disk) (place : Place) (after : Disk) : Prop :=
  after.at? place = before.at? place ∨
    (before.at? place = none ∧ after.at? place = some .directory)

theorem Spares.refl (d : Disk) (place : Place) : d.Spares place d := .inl rfl

theorem Spares.trans {first second third : Disk} (hfirst : first.Spares place second)
    (hsecond : second.Spares place third) : first.Spares place third := by
  rcases hsecond with hsame | ⟨hvacant, hmade⟩
  · rw [Spares, hsame]
    exact hfirst
  · rcases hfirst with hsame | ⟨-, hdirectory⟩
    · rw [hsame] at hvacant
      exact .inr ⟨hvacant, hmade⟩
    · rw [hdirectory] at hvacant
      cases hvacant

theorem Spares.at?_eq_some {before after : Disk} (hspares : before.Spares place after)
    (hentry : before.at? place = some entry) : after.at? place = some entry := by
  rcases hspares with hsame | ⟨hvacant, -⟩
  · rw [hsame, hentry]
  · rw [hvacant] at hentry
    cases hentry

/-- Nothing is changed but that directories are made where nothing stood. -/
def Grows (before after : Disk) : Prop := ∀ place, before.Spares place after

theorem Grows.refl (d : Disk) : d.Grows d := fun place => .refl d place

theorem Grows.trans {first second third : Disk} (hfirst : first.Grows second)
    (hsecond : second.Grows third) : first.Grows third :=
  fun place => (hfirst place).trans (hsecond place)

theorem Grows.keeps {before after : Disk} (hgrows : before.Grows after) : before.Keeps after :=
  fun place entry hentry => ⟨entry, (hgrows place).at?_eq_some hentry, .inl rfl⟩

end ScriptAssembly.Disk
