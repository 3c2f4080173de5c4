import Advisor.Proofs.JavaScript.Statement

/-!
# Layout separates tokens and is none

The blanks and line breaks of a printed statement keep its tokens apart, and nothing else of the
layout is read: the scanner finds the tokens of the tree in the text, each once and in their order.
-/

namespace Advisor

namespace JavaScript

private theorem closeComment_newline {cs : List Char} (h : closeComment cs = none) :
    closeComment (cs ++ ['\n']) = none := by
  induction cs with
  | nil => rfl
  | cons c cs ih =>
    rw [closeComment] at h
    split at h
    · simp at h
    · next hopen =>
      have hnone : closeComment cs = none := by simpa using h
      rw [List.cons_append, closeComment, if_neg, ih hnone, Option.map_none]
      rintro ⟨rfl, hhead⟩
      cases cs with
      | nil => simp at hhead
      | cons d cs => exact hopen ⟨rfl, by simpa using hhead⟩

private theorem closeLiteral_newline {cs : List Char} (h : closeLiteral cs = none) :
    closeLiteral (cs ++ ['\n']) = none := by
  fun_induction closeLiteral cs with
  | case1 => rfl
  | case2 => simp at h
  | case3 c tail ih =>
    have hnone : closeLiteral tail = none := by simpa using h
    simp [closeLiteral, ih hnone]
  | case4 c tail hquote hescape hline =>
    rcases hline with rfl | rfl <;> rfl
  | case5 c tail hquote hescape hline ih =>
    have hnone : closeLiteral tail = none := by simpa using h
    cases tail with
    | nil =>
      by_cases hslash : c = '\\'
      · subst hslash
        rfl
      · rw [List.cons_append, closeLiteral, if_neg hline, ih hnone, Option.map_none]
        · exact hquote
        · exact fun d rest hc => absurd hc hslash
    | cons d tail =>
      rw [List.cons_append, closeLiteral, if_neg hline, ih hnone, Option.map_none]
      · exact hquote
      · exact fun e rest hc hrest => hescape d tail hc rfl

private theorem longestMark_newline (c : Char) (rest : List Char) :
    longestMark (c :: (rest ++ ['\n'])) = longestMark (c :: rest) := by
  have hmarks : ∀ mark ∈ marks, '\n' ∉ mark := by decide
  have hbreak {cs : List Char} (h : '\n' ∈ cs) : cs ∉ marks := fun hcs => hmarks cs hcs h
  rcases rest with _ | ⟨d, _ | ⟨e, _ | ⟨f, rest⟩⟩⟩
  · simp [longestMark, hbreak]
  · by_cases h : [c, d] ∈ marks <;> simp [longestMark, hbreak, h]
  · by_cases h : [c, d, e] ∈ marks <;> by_cases h' : [c, d] ∈ marks <;>
      simp [longestMark, hbreak, h, h']
  · rfl

/-- A line break behind a text does not change its first token, and is left over with the rest. -/
theorem next_newline (c : Char) (rest : List Char) :
    (next c (rest ++ ['\n'])).1 = (next c rest).1
      ∧ scan (next c (rest ++ ['\n'])).2 = scan ((next c rest).2 ++ ['\n']) := by
  have hspan {p : Char → Bool} (hp : p '\n' = false) (cs : List Char) :
      (cs ++ ['\n']).takeWhile p = cs.takeWhile p
        ∧ (cs ++ ['\n']).dropWhile p = cs.dropWhile p ++ ['\n'] :=
    takeWhile_dropWhile_append fun _ d hd => by
      obtain rfl : '\n' = d := by simpa using hd
      exact hp
  by_cases hremark : c = '/' ∧ rest.head? = some '/'
  · obtain ⟨rfl, hhead⟩ := hremark
    obtain ⟨rest, rfl⟩ := List.head?_eq_some_iff.mp hhead
    obtain ⟨htake, hdrop⟩ := hspan (p := (!isLineEnd ·)) rfl rest
    rw [List.cons_append, next_remark, next_remark, htake, hdrop]
    exact ⟨rfl, rfl⟩
  by_cases hcomment : c = '/' ∧ rest.head? = some '*'
  · obtain ⟨rfl, hhead⟩ := hcomment
    obtain ⟨rest, rfl⟩ := List.head?_eq_some_iff.mp hhead
    rw [List.cons_append, next_comment, next_comment]
    cases hclose : closeComment rest with
    | none =>
      rw [closeComment_newline hclose]
      exact ⟨rfl, rfl⟩
    | some found =>
      rw [closeComment_append _ hclose]
      exact ⟨rfl, rfl⟩
  by_cases hquote : c = '"'
  · subst hquote
    rw [next_text, next_text]
    cases hclose : closeLiteral rest with
    | none =>
      rw [closeLiteral_newline hclose]
      exact ⟨rfl, rfl⟩
    | some found =>
      rw [closeLiteral_append _ hclose]
      exact ⟨rfl, rfl⟩
  by_cases hdigit : c.isDigit = true
  · obtain ⟨htake, hdrop⟩ := hspan (p := continuesNumber) rfl rest
    rw [next_number _ hdigit, next_number _ hdigit, htake, hdrop]
    exact ⟨rfl, rfl⟩
  by_cases hletter : Settings.beginsIdentifier c = true
  · obtain ⟨htake, hdrop⟩ := hspan (p := Settings.continuesIdentifier) rfl rest
    rw [next_word _ hletter, next_word _ hletter, htake, hdrop]
    exact ⟨rfl, rfl⟩
  · have hhead (d : Char) (hd : d ≠ '\n') (h : ¬ (c = '/' ∧ rest.head? = some d)) :
        ¬ (c = '/' ∧ (rest ++ ['\n']).head? = some d) := by
      cases rest with
      | nil => simp [hd.symm]
      | cons e rest => exact h
    have hlength : (longestMark (c :: rest)).length ≤ (c :: rest).length :=
      (longestMark_isPrefix _).length_le
    rw [next, if_neg (hhead '/' (by decide) hremark), if_neg (hhead '*' (by decide) hcomment),
      if_neg hquote, if_neg hdigit, if_neg hletter, longestMark_newline, ← List.cons_append,
      List.drop_append_of_le_length hlength, next, if_neg hremark, if_neg hcomment, if_neg hquote,
      if_neg hdigit, if_neg hletter]
    exact ⟨rfl, rfl⟩

private theorem scan_newline (cs : List Char) : scan (cs ++ ['\n']) = scan cs := by
  induction cs using scan_induction with
  | nil => rfl
  | blank c rest hblank ih => rw [List.cons_append, scan_blank _ hblank, scan_blank _ hblank, ih]
  | token c rest hblank ih =>
    obtain ⟨htoken, hrest⟩ := next_newline c rest
    rw [List.cons_append, scan_cons _ hblank, scan_cons _ hblank, htoken, hrest, ih]

/-- The last line is scanned without its line break as with it. -/
theorem LinesScan.scan_printAll {ls : List Line} {ts : List Token} (h : LinesScan ls ts)
    (s : Settings) (depth : Nat) : scan (Line.printAll s depth ls).toList = ts := by
  have hprinted := h s depth []
  rw [List.append_nil, scan_nil, List.append_nil] at hprinted
  by_cases hnil : ls = []
  · subst hnil
    exact hprinted
  · rw [← scan_newline, toList_printAll s depth hnil, hprinted]

end JavaScript

namespace Statement

open JavaScript

/-- A branch with signs in front of signs, where one is that of a number, one is the first of a
leading operator and one comes from the catalogue. -/
def signed : Statement :=
  let x := Expression.identifier "x"
  branch (.unary "!" true (.unsupported "Lambda"))
    (.block
      [.evaluate (.call "Print" [.text "// \"\n", .unary "-" true (.identifier "INVALID_HANDLE"),
        .unary "-" true (.unary "-" true x), .unary "--" true (.unary "-" true x),
        .unary "+" true (.unary "++" true x), .unary "-" true (.number ⟨0xBFF8000000000000⟩)]),
      .unsupported "SwitchStatement"])
    none

end Statement

end Advisor
