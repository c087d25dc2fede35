/-!
Texts cut at every occurrence of a character. Joining the pieces again gives the text, and no piece
holds the character.
-/
namespace RpcGateway.Text

/-- The pieces between the separators; there is always at least one. -/
def piecesOf (separator : Char) : List Char → List (List Char)
  | [] => [[]]
  | c :: cs =>
    if c = separator then [] :: piecesOf separator cs
    else
      match piecesOf separator cs with
      | [] => [[c]]
      | piece :: rest => (c :: piece) :: rest

/-- Pieces put together with a separator between each two. -/
def joinPieces (separator : Char) : List (List Char) → List Char
  | [] => []
  | [piece] => piece
  | piece :: rest => piece ++ separator :: joinPieces separator rest

theorem piecesOf_ne_nil (separator : Char) (cs : List Char) : piecesOf separator cs ≠ [] := by
  cases cs with
  | nil => simp [piecesOf]
  | cons c cs =>
    unfold piecesOf
    split
    · simp
    · split <;> simp

theorem joinPieces_piecesOf (separator : Char) (cs : List Char) :
    joinPieces separator (piecesOf separator cs) = cs := by
  induction cs with
  | nil => rfl
  | cons c cs ih =>
    unfold piecesOf
    have hne := piecesOf_ne_nil separator cs
    split
    · next hc =>
      cases hp : piecesOf separator cs with
      | nil => exact absurd hp hne
      | cons piece rest => rw [hp] at ih; simp [joinPieces, ih, hc]
    · cases hp : piecesOf separator cs with
      | nil => exact absurd hp hne
      | cons piece rest =>
        rw [hp] at ih
        cases rest <;> simp_all [joinPieces]

/-- Texts with a separator between them have the pieces of the one, then those of the other. -/
theorem piecesOf_append_separator (separator : Char) (cs ds : List Char) :
    piecesOf separator (cs ++ separator :: ds) =
      piecesOf separator cs ++ piecesOf separator ds := by
  induction cs with
  | nil => simp [piecesOf]
  | cons c cs ih =>
    rw [List.cons_append, piecesOf, piecesOf, ih]
    have hne := piecesOf_ne_nil separator cs
    split
    · rfl
    · cases hp : piecesOf separator cs with
      | nil => exact absurd hp hne
      | cons piece rest => rfl

theorem piecesOf_of_not_mem {separator : Char} {cs : List Char} (h : separator ∉ cs) :
    piecesOf separator cs = [cs] := by
  induction cs with
  | nil => rfl
  | cons c cs ih =>
    rw [List.mem_cons, not_or] at h
    rw [piecesOf, if_neg (Ne.symm h.1), ih h.2]

/-- Pieces in two parts, neither of them empty, have a separator between the parts. -/
theorem joinPieces_append (separator : Char) {front rest : List (List Char)} (hf : front ≠ [])
    (hr : rest ≠ []) :
    joinPieces separator (front ++ rest) =
      joinPieces separator front ++ separator :: joinPieces separator rest := by
  induction front with
  | nil => exact absurd rfl hf
  | cons piece front ih =>
    cases front with
    | nil =>
      cases rest with
      | nil => exact absurd rfl hr
      | cons => rfl
    | cons next front =>
      have hnext := ih (List.cons_ne_nil next front)
      simp only [List.cons_append, joinPieces] at hnext ⊢
      rw [hnext, List.append_assoc, List.cons_append]

theorem not_mem_of_mem_piecesOf {separator : Char} {cs piece : List Char}
    (h : piece ∈ piecesOf separator cs) : separator ∉ piece := by
  induction cs generalizing piece with
  | nil => simp_all [piecesOf]
  | cons c cs ih =>
    unfold piecesOf at h
    split at h
    · rcases List.mem_cons.mp h with rfl | h
      · simp
      · exact ih h
    · next hc =>
      split at h
      · next hp => exact absurd hp (piecesOf_ne_nil separator cs)
      · next first rest hp =>
        rcases List.mem_cons.mp h with rfl | h
        · have hfirst : separator ∉ first := ih (by simp [hp])
          simp [hfirst, Ne.symm hc]
        · exact ih (by simp [hp, h])

/-- A text cut at every separator. -/
def pieces (separator : Char) (s : String) : List String :=
  (piecesOf separator s.toList).map String.ofList

theorem pieces_ne_nil (separator : Char) (s : String) : pieces separator s ≠ [] := by
  rw [pieces, ne_eq, List.map_eq_nil_iff]
  exact piecesOf_ne_nil separator s.toList

/-- The last piece of a text cut at a separator. -/
def lastPiece (separator : Char) (s : String) : String := (pieces separator s).getLastD s

/-- The text before a suffix, the whole text where it does not end in it. -/
def dropSuffix (s suffix : String) : String :=
  if suffix.toList.isSuffixOf s.toList then
    String.ofList (s.toList.take (s.toList.length - suffix.toList.length))
  else s

end RpcGateway.Text
