import AccessControl.Proofs.Globs

/-! Patterns by their pieces, which stand between the stars. A pattern matches the keys in which its
regular expression is found, which is made of the escaped pieces. These are the keys that consist of
the pieces in their order, every character of which counts as itself, and of parts free of line
feeds between them. -/

namespace AccessControl

/-- The text is the pieces in their order, the first at its start and the last at its end, with a
part free of line feeds between each and the next. -/
inductive Interspersed : List (List Char) → List Char → Prop
  | last (piece : List Char) : Interspersed [piece] piece
  | next {pieces text} (piece part : List Char) : '\n' ∉ part → Interspersed pieces text →
      Interspersed (piece :: pieces) (piece ++ (part ++ text))

lemma Interspersed.singleton_iff {piece text : List Char} :
    Interspersed [piece] text ↔ text = piece := by
  constructor
  · rintro (_ | ⟨_, _, _, h⟩)
    · rfl
    · cases h
  · rintro rfl
    exact .last text

namespace Expression

def special : List Char :=
  ['\\', '.', '+', '*', '?', '(', ')', '|', '[', ']', '{', '}', '^', '$', '#', '&', '-', '~']

def isSpecial (c : Char) : Bool := special.contains c

def escape (text : List Char) : List Char :=
  text.flatMap fun c => if isSpecial c then ['\\', c] else [c]

def ofPattern (pattern : List Char) : List Char :=
  '^' :: (['.', '*'].intercalate ((pattern.splitOn '*').map escape) ++ ['$'])

inductive Part where
  | start
  | stop
  | literal (c : Char)
  | run

def parts? : List Char → Option (List Part)
  | [] => some []
  | '^' :: rest => (parts? rest).map (.start :: ·)
  | '$' :: rest => (parts? rest).map (.stop :: ·)
  | '.' :: '*' :: rest => (parts? rest).map (.run :: ·)
  | '\\' :: c :: rest => if isSpecial c then (parts? rest).map (.literal c :: ·) else none
  | c :: rest => if isSpecial c then none else (parts? rest).map (.literal c :: ·)

/-- At a place in the key, with the characters behind it and those ahead, the parts are found, each
where the one before it ends. -/
inductive Matches : List Part → List Char → List Char → Prop
  | done (behind ahead : List Char) : Matches [] behind ahead
  | start {parts ahead} : Matches parts [] ahead → Matches (.start :: parts) [] ahead
  | stop {parts behind} : Matches parts behind [] → Matches (.stop :: parts) behind []
  | literal {parts behind ahead} (c : Char) : Matches parts (behind ++ [c]) ahead →
      Matches (.literal c :: parts) behind (c :: ahead)
  | run {parts behind ahead} (part : List Char) : '\n' ∉ part →
      Matches parts (behind ++ part) ahead → Matches (.run :: parts) behind (part ++ ahead)

def FoundIn (expression key : List Char) : Prop :=
  ∃ parts, parts? expression = some parts ∧
    ∃ behind ahead, key = behind ++ ahead ∧ Matches parts behind ahead

lemma parts?_of_plain {c : Char} (h : isSpecial c = false) (rest : List Char) :
    parts? (c :: rest) = (parts? rest).map (.literal c :: ·) := by
  rw [parts?]
  · simp [h]
  · rintro rfl
    cases h
  · rintro rfl
    cases h
  · rintro _ rfl
    cases h
  · rintro _ _ rfl
    cases h

lemma parts?_escape (text rest : List Char) :
    parts? (escape text ++ rest) = (parts? rest).map (text.map .literal ++ ·) := by
  induction text with
  | nil => simp [escape]
  | cons c text ih =>
    have hrest : (parts? (escape text ++ rest)).map (Part.literal c :: ·) =
        (parts? rest).map ((c :: text).map Part.literal ++ ·) := by
      rw [ih, Option.map_map]
      rfl
    rw [← hrest, escape, List.flatMap_cons, List.append_assoc]
    cases hc : isSpecial c with
    | true =>
      change parts? ('\\' :: c :: (escape text ++ rest)) = _
      rw [parts?, if_pos hc]
    | false => exact parts?_of_plain hc _

def partsOf (pieces : List (List Char)) : List Part :=
  [.run].intercalate (pieces.map (·.map .literal)) ++ [.stop]

lemma partsOf_cons (piece next : List Char) (pieces : List (List Char)) :
    partsOf (piece :: next :: pieces) =
      piece.map .literal ++ .run :: partsOf (next :: pieces) := by
  simp [partsOf, List.intercalate_cons_cons]

lemma parts?_pieces {pieces : List (List Char)} (h : pieces ≠ []) :
    parts? (['.', '*'].intercalate (pieces.map escape) ++ ['$']) = some (partsOf pieces) := by
  induction pieces with
  | nil => exact absurd rfl h
  | cons piece pieces ih =>
    cases pieces with
    | nil => simp [partsOf, parts?_escape, parts?]
    | cons next pieces =>
      have hfirst : ['.', '*'].intercalate ((piece :: next :: pieces).map escape) ++ ['$'] =
          escape piece ++ '.' :: '*' ::
            (['.', '*'].intercalate ((next :: pieces).map escape) ++ ['$']) := by
        simp [List.intercalate_cons_cons]
      rw [hfirst, parts?_escape, parts?, ih (List.cons_ne_nil _ _), partsOf_cons]
      rfl

lemma matches_literals {text : List Char} {parts : List Part} {behind ahead : List Char} :
    Matches (text.map .literal ++ parts) behind ahead ↔
      ∃ rest, ahead = text ++ rest ∧ Matches parts (behind ++ text) rest := by
  induction text generalizing behind ahead with
  | nil => simp
  | cons c text ih =>
    rw [List.map_cons, List.cons_append]
    constructor
    · rintro (_ | _ | _ | ⟨_, h⟩)
      obtain ⟨rest, rfl, hrest⟩ := ih.mp h
      exact ⟨rest, rfl, by simpa using hrest⟩
    · rintro ⟨rest, rfl, h⟩
      exact .literal c (ih.mpr ⟨rest, rfl, by simpa using h⟩)

lemma matches_partsOf {pieces : List (List Char)} (h : pieces ≠ []) {behind ahead : List Char} :
    Matches (partsOf pieces) behind ahead ↔ Interspersed pieces ahead := by
  induction pieces generalizing behind ahead with
  | nil => exact absurd rfl h
  | cons piece pieces ih =>
    cases pieces with
    | nil =>
      have hparts : partsOf [piece] = piece.map .literal ++ [.stop] := by simp [partsOf]
      rw [hparts, matches_literals]
      constructor
      · rintro ⟨_, rfl, ⟨⟩⟩
        exact Interspersed.singleton_iff.mpr (List.append_nil piece)
      · intro hahead
        exact ⟨[], by simpa using Interspersed.singleton_iff.mp hahead, .stop (.done _ _)⟩
    | cons next pieces =>
      rw [partsOf_cons, matches_literals]
      constructor
      · rintro ⟨_, rfl, _ | _ | _ | _ | ⟨part, hpart, hrest⟩⟩
        exact .next piece part hpart ((ih (List.cons_ne_nil _ _)).mp hrest)
      · rintro (_ | ⟨_, part, hpart, hrest⟩)
        exact ⟨_, rfl, .run part hpart ((ih (List.cons_ne_nil _ _)).mpr hrest)⟩

lemma foundIn_ofPattern {pattern key : List Char} :
    FoundIn (ofPattern pattern) key ↔ Interspersed (pattern.splitOn '*') key := by
  have hpieces := List.splitOn_ne_nil '*' pattern
  have hparts : parts? (ofPattern pattern) = some (.start :: partsOf (pattern.splitOn '*')) := by
    rw [ofPattern, parts?, parts?_pieces hpieces]
    rfl
  constructor
  · rintro ⟨parts, hp, behind, ahead, rfl, h⟩
    obtain rfl := Option.some.inj (hparts.symm.trans hp)
    cases h with
    | start h => exact (matches_partsOf hpieces).mp h
  · intro h
    exact ⟨_, hparts, [], key, rfl, .start ((matches_partsOf hpieces).mpr h)⟩

end Expression

namespace Interspersed

variable {c : Char} {piece text pattern key : List Char} {pieces : List (List Char)}

lemma cons_iff : Interspersed ((c :: piece) :: pieces) text ↔
    ∃ rest, text = c :: rest ∧ Interspersed (piece :: pieces) rest := by
  constructor
  · rintro (_ | ⟨_, part, hpart, hrest⟩)
    · exact ⟨_, rfl, .last piece⟩
    · exact ⟨_, rfl, .next piece part hpart hrest⟩
  · rintro ⟨_, rfl, _ | ⟨_, part, hpart, hrest⟩⟩
    · exact .last (c :: piece)
    · exact .next (c :: piece) part hpart hrest

lemma nil_iff (h : pieces ≠ []) : Interspersed ([] :: pieces) text ↔
    ∃ part rest, text = part ++ rest ∧ '\n' ∉ part ∧ Interspersed pieces rest := by
  constructor
  · rintro (_ | ⟨_, part, hpart, hrest⟩)
    · exact absurd rfl h
    · exact ⟨part, _, rfl, hpart, hrest⟩
  · rintro ⟨part, rest, rfl, hpart, hrest⟩
    exact .next [] part hpart hrest

lemma splitOn_of_ne (h : c ≠ '*') :
    Interspersed ((c :: pattern).splitOn '*') text ↔
      ∃ rest, text = c :: rest ∧ Interspersed (pattern.splitOn '*') rest := by
  obtain ⟨piece, pieces, hp⟩ := List.exists_cons_of_ne_nil (List.splitOn_ne_nil '*' pattern)
  rw [List.splitOn_cons_eq_if_modifyHead, if_neg (by simpa using h), hp]
  exact cons_iff

lemma splitOn_star : Interspersed (('*' :: pattern).splitOn '*') text ↔
    ∃ part rest, text = part ++ rest ∧ '\n' ∉ part ∧ Interspersed (pattern.splitOn '*') rest := by
  rw [List.splitOn_cons_eq_if_modifyHead, if_pos (beq_self_eq_true _)]
  exact nil_iff (List.splitOn_ne_nil '*' pattern)

lemma of_fits (h : Fits pattern key) : Interspersed (pattern.splitOn '*') key := by
  induction h with
  | nil => exact .last []
  | @char pattern key c _ ih =>
    by_cases hc : c = '*'
    · subst hc
      exact splitOn_star.mpr ⟨['*'], key, rfl, by decide, ih⟩
    · exact (splitOn_of_ne hc).mpr ⟨key, rfl, ih⟩
  | star part hpart _ ih => exact splitOn_star.mpr ⟨part, _, rfl, hpart, ih⟩

lemma fits (h : Interspersed (pattern.splitOn '*') key) : Fits pattern key := by
  induction pattern generalizing key with
  | nil =>
    cases h with
    | last => exact .nil
    | next _ _ _ h => cases h
  | cons c pattern ih =>
    by_cases hc : c = '*'
    · subst hc
      obtain ⟨part, rest, rfl, hpart, hrest⟩ := splitOn_star.mp h
      exact .star part hpart (ih hrest)
    · obtain ⟨rest, rfl, hrest⟩ := (splitOn_of_ne hc).mp h
      exact .char c (ih hrest)

end Interspersed

lemma globMatches_iff_interspersed (pattern key : String) :
    globMatches pattern key = true ↔ Interspersed (pattern.toList.splitOn '*') key.toList :=
  ⟨fun h => .of_fits (fits_of_globMatches h), fun h => globMatches_of_fits h.fits⟩

/-- For every pattern and every key. The key is matched if and only if the regular expression of the
pattern is found in it, which is made of the escaped pieces between the stars. That is so if and
only if the key is the pieces in their order, character by character, the first at its start and the
last at its end, with any part free of line feeds between each and the next. A pattern without a
star matches itself and nothing else. -/
theorem globMatches_exact (pattern key : String) :
    (globMatches pattern key = true ↔
      Expression.FoundIn (Expression.ofPattern pattern.toList) key.toList) ∧
    (globMatches pattern key = true ↔
      Interspersed (pattern.toList.splitOn '*') key.toList) ∧
    ('*' ∉ pattern.toList → (globMatches pattern key = true ↔ key = pattern)) := by
  have hpieces := globMatches_iff_interspersed pattern key
  refine ⟨hpieces.trans Expression.foundIn_ofPattern.symm, hpieces, fun hstar => ?_⟩
  rw [hpieces, List.splitOn_eq_singleton hstar, Interspersed.singleton_iff, String.toList_inj]

theorem globMatches_exact_overlapping :
    Interspersed ("*aba*ba".toList.splitOn '*') "ababaaba".toList ∧
    ¬ Interspersed ("a*b".toList.splitOn '*') "a\nb".toList ∧
    '*' ∉ "role:a.b+c".toList ∧ globMatches "role:a.b+c" "role:a.b+c" = true ∧
    globMatches "role:a.b+c" "role:aXbbc" = false := by
  have hstar : '*' ∉ "role:a.b+c".toList := by decide
  refine ⟨(globMatches_exact _ _).2.1.mp (by decide +kernel), fun h => ?_, hstar,
    ((globMatches_exact _ _).2.2 hstar).mpr rfl, ?_⟩
  · exact absurd ((globMatches_exact "a*b" "a\nb").2.1.mpr h) (by decide +kernel)
  · refine Bool.eq_false_iff.mpr fun h => ?_
    exact absurd (((globMatches_exact _ _).2.2 hstar).mp h) (by decide)

end AccessControl
