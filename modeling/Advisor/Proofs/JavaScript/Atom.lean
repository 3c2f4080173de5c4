import Advisor.Proofs.JavaScript.Boundary

/-!
# Names, literals and comments as tokens

What the scanner reads where a name, a number, a string literal or a comment has been written, when
any text follows that does not continue it.
-/

namespace Advisor.JavaScript

/-- The text is scanned as the tokens, if what follows stops it. -/
def Scans (text : String) (ts : List Token) : Prop :=
  ∀ rest, Stops rest → scan (text.toList ++ rest) = ts ++ scan rest

theorem scans_of_steady {text : String} (h : steadyIfStopped text.toList = true) :
    Scans text (scan text.toList) :=
  fun _ hrest => scan_append_of_stops h hrest

theorem isBlank_of_continuesIdentifier {c : Char} (h : Settings.continuesIdentifier c = true) :
    isBlank c = false := by
  rw [Bool.eq_false_iff]
  intro hblank
  have hnone : [' ', '\t', '\x0b', '\x0c', '\u00a0', '\ufeff', '\n', '\r', '\u2028', '\u2029'].all
      (!Settings.continuesIdentifier ·) = true := by decide
  have hmem : c ∈ [' ', '\t', '\x0b', '\x0c', '\u00a0', '\ufeff', '\n', '\r', '\u2028', '\u2029'] := by
    simpa [isBlank, isLineEnd, or_assoc] using hblank
  have hnot := List.all_eq_true.mp hnone c hmem
  rw [h] at hnot
  exact Bool.false_ne_true hnot

private theorem isBlank_of_isDigit {c : Char} (h : c.isDigit = true) : isBlank c = false :=
  isBlank_of_continuesIdentifier (by simp [Settings.continuesIdentifier, Char.isAlphanum, h])

private theorem continuesIdentifier_of_beginsIdentifier {c : Char}
    (h : Settings.beginsIdentifier c = true) : Settings.continuesIdentifier c = true := by
  simp only [Settings.beginsIdentifier, Bool.or_eq_true] at h
  simp only [Settings.continuesIdentifier, Char.isAlphanum, Bool.or_eq_true]
  rcases h with (h | h) | h <;> simp [h]

private theorem isBlank_of_beginsIdentifier {c : Char} (h : Settings.beginsIdentifier c = true) :
    isBlank c = false :=
  isBlank_of_continuesIdentifier (continuesIdentifier_of_beginsIdentifier h)

theorem isIdentifier_iff {name : String} : Settings.isIdentifier name = true ↔
    ∃ c more, name.toList = c :: more ∧ Settings.beginsIdentifier c = true ∧
      ∀ d ∈ more, Settings.continuesIdentifier d = true := by
  rw [Settings.isIdentifier]
  cases name.toList with
  | nil => simp
  | cons c more => simp

theorem continuesIdentifier_of_mem {name : String} {d : Char}
    (h : Settings.isIdentifier name = true) (hd : d ∈ name.toList) :
    Settings.continuesIdentifier d = true := by
  obtain ⟨c, more, hname, hfirst, hmore⟩ := isIdentifier_iff.mp h
  rw [hname] at hd
  rcases List.mem_cons.mp hd with rfl | hd
  · exact continuesIdentifier_of_beginsIdentifier hfirst
  · exact hmore d hd

theorem span_stopped {p : Char → Bool} {run rest : List Char} (hrun : ∀ d ∈ run, p d = true)
    (hrest : ∀ d ∈ rest.head?, p d = false) :
    (run ++ rest).takeWhile p = run ∧ (run ++ rest).dropWhile p = rest := by
  rw [List.takeWhile_append_of_pos hrun, List.dropWhile_append_of_pos hrun]
  cases rest with
  | nil => simp
  | cons d rest => simp [hrest d rfl]

theorem scan_word {name : String} {rest : List Char} (h : Settings.isIdentifier name = true)
    (hrest : ∀ c ∈ rest.head?, Settings.continuesIdentifier c = false) :
    scan (name.toList ++ rest) = .word name.toList :: scan rest := by
  obtain ⟨c, more, hname, hfirst, hmore⟩ := isIdentifier_iff.mp h
  obtain ⟨htake, hdrop⟩ := span_stopped hmore hrest
  rw [hname, List.cons_append, scan_cons _ (isBlank_of_beginsIdentifier hfirst),
    next_word _ hfirst, htake, hdrop]

theorem scans_word {name : String} (h : Settings.isIdentifier name = true) :
    Scans name [.word name.toList] :=
  fun _ hrest => scan_word h (fun c hc => (hrest c hc).1)

def fieldTokens (object name : String) : List Token :=
  [.word object.toList, .mark ['.'], .word name.toList]

theorem scans_field {object name : String} (hobject : Settings.isIdentifier object = true)
    (hname : Settings.isIdentifier name = true) :
    Scans (object ++ "." ++ name) (fieldTokens object name) := by
  intro rest hrest
  obtain ⟨c, more, hcons, hfirst, -⟩ := isIdentifier_iff.mp hname
  have hfollow : followers ['.'] = ['.'] := by decide
  have hdot : ∀ d ∈ (name.toList ++ rest).head?, d ∉ followers ['.'] := by
    intro d hd
    obtain rfl : c = d := by simpa [hcons] using hd
    intro hmem
    obtain rfl : c = '.' := by simpa [hfollow] using hmem
    exact absurd hfirst (by decide)
  calc scan ((object ++ "." ++ name).toList ++ rest)
      = scan (object.toList ++ (['.'] ++ (name.toList ++ rest))) := by simp
    _ = .word object.toList :: .mark ['.'] :: scan (name.toList ++ rest) := by
      rw [scan_word hobject (by simp; decide), scan_mark _ (by decide) hdot]
    _ = fieldTokens object name ++ scan rest := by
      rw [scans_word hname rest hrest]
      rfl

def memberTokens (name : String) : List Token := fieldTokens "this" name

theorem scans_member {name : String} (h : Settings.isIdentifier name = true) :
    Scans ("this." ++ name) (memberTokens name) := by
  have hsplit : "this." ++ name = "this" ++ "." ++ name := rfl
  rw [hsplit]
  exact scans_field (by decide) h

theorem scan_number {c : Char} {more rest : List Char} (hdigit : c.isDigit = true)
    (hmore : ∀ d ∈ more, continuesNumber d = true) (hrest : Stops rest) :
    scan (c :: (more ++ rest)) = .number (c :: more) :: scan rest := by
  obtain ⟨htake, hdrop⟩ := span_stopped hmore (fun d hd => continuesNumber_of_stops (hrest d hd))
  rw [scan_cons _ (isBlank_of_isDigit hdigit), next_number _ hdigit, htake, hdrop]

private theorem closeLiteral_escape (c : Char) (rest : List Char) :
    closeLiteral (Render.escape c ++ rest)
      = (closeLiteral rest).map fun (value, rest) => (c :: value, rest) := by
  unfold Render.escape
  split
  · rfl
  · rfl
  · rfl
  · rfl
  · rfl
  · next hslash hquote hline hreturn _ =>
    rw [List.singleton_append, closeLiteral]
    · rw [if_neg]
      rintro (rfl | rfl)
      · exact hline rfl
      · exact hreturn rfl
    · exact hquote
    · intro d more hc
      exact absurd hc hslash

private theorem closeLiteral_flatMap_escape (value rest : List Char) :
    closeLiteral (value.flatMap Render.escape ++ '"' :: rest) = some (value, rest) := by
  induction value with
  | nil => rfl
  | cons c value ih =>
    rw [List.flatMap_cons, List.append_assoc, closeLiteral_escape, ih]
    rfl

/-- A string literal is read as the text that it has been written for, whatever follows. -/
theorem scan_literal (s : String) (rest : List Char) :
    scan ((Render.text s).toList ++ rest) = .text s.toList :: scan rest := by
  have hsplit : (Render.text s).toList ++ rest
      = '"' :: (s.toList.flatMap Render.escape ++ '"' :: rest) := by
    simp [Render.text]
  rw [hsplit, scan_cons _ (by decide), next_text, closeLiteral_flatMap_escape]
  rfl

theorem not_infix_of_closeComment {cs body rest : List Char}
    (h : closeComment cs = some (body, rest)) : ¬ ['*', '/'] <:+: body := by
  induction cs generalizing body with
  | nil => simp [closeComment] at h
  | cons c cs ih =>
    rw [closeComment] at h
    split at h
    · obtain ⟨rfl, -⟩ := Prod.mk.inj (Option.some.inj h)
      simp
    · next hopen =>
      obtain ⟨⟨body', rest'⟩, hclose, heq⟩ := Option.map_eq_some_iff.mp h
      obtain ⟨rfl, rfl⟩ := Prod.mk.inj heq
      intro hcloses
      rcases List.infix_cons_iff.mp hcloses with hprefix | htail
      · obtain ⟨rfl, hbody⟩ := List.cons_prefix_cons.mp hprefix
        cases body' with
        | nil => simp at hbody
        | cons d body' =>
          obtain ⟨rfl, -⟩ := List.cons_prefix_cons.mp hbody
          cases cs with
          | nil => simp [closeComment] at hclose
          | cons e cs =>
            rw [closeComment] at hclose
            split at hclose
            · simp at hclose
            · obtain ⟨found, -, heq⟩ := Option.map_eq_some_iff.mp hclose
              have he : e = '/' := (List.cons.inj (Prod.mk.inj heq).1).1
              exact hopen ⟨rfl, by simp [he]⟩
      · exact ih hclose htail

/-- An open comment ends at the mark written behind its body exactly if the body has none. -/
theorem closeComment_iff (body rest : List Char) :
    closeComment (body ++ '*' :: '/' :: rest) = some (body, rest) ↔ ¬ ['*', '/'] <:+: body := by
  refine ⟨not_infix_of_closeComment, fun h => ?_⟩
  induction body with
  | nil => rfl
  | cons c body ih =>
    have htail : ¬ ['*', '/'] <:+: body := fun hbody => h (List.infix_cons hbody)
    rw [List.cons_append, closeComment, if_neg, ih htail]
    · rfl
    · rintro ⟨rfl, hhead⟩
      cases body with
      | nil => simp at hhead
      | cons d body =>
        obtain rfl : d = '/' := by simpa using hhead
        exact h ⟨[], body, rfl⟩

theorem scan_comment {body : List Char} (rest : List Char) (h : ¬ ['*', '/'] <:+: body) :
    scan ('/' :: '*' :: (body ++ '*' :: '/' :: rest)) = .comment body :: scan rest := by
  rw [scan_cons _ (by decide), next_comment, (closeComment_iff body rest).mpr h]
  rfl

theorem not_infix_of_not_mem {cs : List Char} (h : '/' ∉ cs) : ¬ ['*', '/'] <:+: cs := by
  intro hcloses
  exact h (hcloses.subset (by simp))

/-- A character that is not in the closing mark keeps the texts around it apart. -/
theorem infix_append_cons {before after : List Char} {d : Char} (hd : d ≠ '*' ∧ d ≠ '/') :
    ['*', '/'] <:+: before ++ d :: after ↔ ['*', '/'] <:+: before ∨ ['*', '/'] <:+: after := by
  induction before with
  | nil =>
    have hfirst : ¬ ['*', '/'] <+: d :: after := by
      intro h
      exact hd.1 (List.cons_prefix_cons.mp h).1.symm
    simp [List.infix_cons_iff, hfirst]
  | cons e before ih =>
    have hfirst : ['*', '/'] <+: e :: (before ++ d :: after) ↔ ['*', '/'] <+: e :: before := by
      rw [List.cons_prefix_cons, List.cons_prefix_cons]
      cases before with
      | nil => simp [Ne.symm hd.2]
      | cons f before => simp [List.cons_prefix_cons]
    rw [List.cons_append, List.infix_cons_iff, List.infix_cons_iff, hfirst, ih, or_assoc]

theorem infix_between {before body after : List Char} {d e : Char} (hd : d ≠ '*' ∧ d ≠ '/')
    (he : e ≠ '*' ∧ e ≠ '/') (hbefore : '/' ∉ before) (hafter : '/' ∉ after) :
    ['*', '/'] <:+: before ++ d :: (body ++ e :: after) ↔ ['*', '/'] <:+: body := by
  rw [infix_append_cons hd, infix_append_cons he]
  simp only [not_infix_of_not_mem hbefore, not_infix_of_not_mem hafter, false_or, or_false]

end Advisor.JavaScript
