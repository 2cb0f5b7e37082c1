import ScriptAssembly.Proofs.Scan.Words
import ScriptAssembly.Proofs.Text.Search

/-!
# White space around a line

No rule begins to read at a blank, and none looks past the last character of a line that is no
blank.  So blanks at either end of a line change neither the rule that claims it nor the names that
the rule finds.
-/

namespace ScriptAssembly.Scan

open Text

variable {s line front back : List Char} {c : Char}

theorem claimant?_surrounded (hfront : Blank front) (hback : Blank back) :
    claimant? (front ++ (line ++ back)) = claimant? line := by
  have hopens {word : String} (hword : Solid word) :=
    startsWith_trimStart_surrounded (s := line) hword hfront hback
  have hdefine := hopens (by decide : Solid "#define")
  have hif := hopens (by decide : Solid "#if")
  have helif := hopens (by decide : Solid "#elif")
  have hattribute :=
    contains_surrounded (s := line) (by decide : Solid "[Conditional(") hfront hback
  unfold claimant?
  dsimp only
  rw [hdefine, hif, helif, hattribute]

/-! ## Definitions -/

theorem definedAt?_nil : definedAt? [] = none := by
  rw [definedAt?, after?_nil (by decide)]
  rfl

theorem definedAt?_of_isBlank (hc : isBlank c) (rest : List Char) :
    definedAt? (c :: rest) = none := by
  rw [definedAt?, after?_of_isBlank (by decide) hc]
  rfl

/-- Blanks behind a text neither begin nor continue the word behind its leading blanks. -/
theorem takeWhile_dropWhile_append_blank (hback : Blank back) :
    ((s ++ back).dropWhile isBlank).takeWhile isWord = (s.dropWhile isBlank).takeWhile isWord := by
  have htrim := trimStart_append_blank (s := s) hback
  unfold trimStart at htrim
  rw [htrim]
  split
  · next hempty => rw [hempty]
  · exact takeWhile_append_of_ends hback.ends_isWord

theorem definedAt?_append_blank (hback : Blank back) (rest : List Char) :
    definedAt? (rest ++ back) = definedAt? rest := by
  rw [definedAt?, after?_append_blank (by decide) hback, definedAt?]
  cases after? "#define" rest with
  | none => rfl
  | some behind =>
      simp only [Option.map_some, bind, Option.bind_some, takeWhile_dropWhile_append_blank hback]
      cases behind with
      | nil => simp
      | cons c behind => rfl

/-! ## Arguments -/

theorem argumentAt?_nil : argumentAt? [] = none := by
  rw [argumentAt?, after?_nil (by decide)]
  rfl

theorem argumentAt?_of_isBlank (hc : isBlank c) (rest : List Char) :
    argumentAt? (c :: rest) = none := by
  rw [argumentAt?, after?_of_isBlank (by decide) hc]
  rfl

theorem untilClosing?_blank (hback : Blank back) : untilClosing? back = none := by
  induction back with
  | nil => rfl
  | cons c back ih =>
      have hrest : Blank back := fun d hd => hback d (List.mem_cons_of_mem c hd)
      have hclosing : startsWith "\")]" back = false :=
        (startsWith_append_blank (s := []) (by decide) hrest).trans (by decide)
      rw [untilClosing?, hclosing, ih hrest]
      simp

theorem untilClosing?_append_blank (hback : Blank back) :
    untilClosing? (s ++ back) = untilClosing? s := by
  induction s with
  | nil => exact untilClosing?_blank hback
  | cons c s ih =>
      rw [List.cons_append, untilClosing?, untilClosing?, ih,
        startsWith_append_blank (by decide) hback]

theorem argumentAt?_append_blank (hback : Blank back) (rest : List Char) :
    argumentAt? (rest ++ back) = argumentAt? rest := by
  rw [argumentAt?, after?_append_blank (by decide) hback, argumentAt?, Option.bind_map]
  exact congrArg (Option.bind _) (funext fun _ => untilClosing?_append_blank hback)

/-! ## Lines -/

theorem names_surrounded (hfront : Blank front) (hback : Blank back) (rule : LineRule) :
    rule.names (front ++ (line ++ back)) = rule.names line := by
  cases rule with
  | define =>
      rw [LineRule.names, leftmost?_surrounded_same definedAt?_nil
        (fun _ hc => definedAt?_of_isBlank hc) (definedAt?_append_blank hback) hfront hback,
        LineRule.names]
  | expression =>
      rw [LineRule.names, words_gap hfront.isWord_eq_false, words_append_gap hback.isWord_eq_false,
        LineRule.names]
  | _ =>
      rw [LineRule.names, leftmost?_surrounded_same argumentAt?_nil
        (fun _ hc => argumentAt?_of_isBlank hc) (argumentAt?_append_blank hback) hfront hback,
        LineRule.names]

/-- Blanks before and behind a line change nothing of what it says. -/
theorem scanLine?_surrounded (line : List Char) (hfront : Blank front) (hback : Blank back) :
    scanLine? (front ++ (line ++ back)) = scanLine? line := by
  rw [scanLine?, scanLine?, claimant?_surrounded hfront hback]
  congr
  funext rule
  rw [names_surrounded hfront hback]

/-- A directive between blanks of several kinds. -/
theorem scanLine?_surrounded_directive :
    Blank ['\u3000', '\t'] ∧ Blank ['\r', '\u2028'] ∧
    scanLine? (['\u3000', '\t'] ++ ("#if A".toList ++ ['\r', '\u2028'])) =
      some ⟨.expression, ["A"]⟩ := by
  have hfront : Blank ['\u3000', '\t'] := List.all_eq_true.mp (by decide)
  have hback : Blank ['\r', '\u2028'] := List.all_eq_true.mp (by decide)
  have hline : scanLine? "#if A".toList = some ⟨.expression, ["A"]⟩ := by decide +kernel
  exact ⟨hfront, hback, (scanLine?_surrounded "#if A".toList hfront hback).trans hline⟩

end ScriptAssembly.Scan
