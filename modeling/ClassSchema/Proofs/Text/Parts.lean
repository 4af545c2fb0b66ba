import ClassSchema.Text.Dotted

/-!
# Parts of texts and segments of names

No part of a text holds the separator, and a separator between two texts keeps their
parts apart.  So the last segment of a dotted name is a name without dots, and a
name inside a namespace has its own last segment.

## Main results

* `Separated.split_append`: the parts of two texts with a separator between them.
* `Separated.of_mem_split`: what the characters of a part are.
* `Dotted.segments_intercalate`: names without dots are the segments of what they make up.
* `Dotted.last_qualify`: a qualified name ends in the name that was qualified.
-/

namespace ClassSchema

namespace Separated

variable {separator : Char}

/-- A text without separators is its only part. -/
theorem split_eq_singleton {text : List Char} (h : separator ∉ text) :
    split separator text = [text] := by
  induction text with
  | nil => rfl
  | cons c rest ih =>
      have hChar : c ≠ separator := fun hSame => h (by simp [hSame])
      have hRest : split separator rest = [rest] := ih fun mem => h (by simp [mem])
      simp [split, hChar, hRest]

/-- The parts of two texts with a separator between them. -/
theorem split_append (first second : List Char) :
    split separator (first ++ separator :: second) =
      split separator first ++ split separator second := by
  induction first with
  | nil => simp [split]
  | cons c rest ih =>
      by_cases hChar : c = separator
      · simp [split, hChar, ih]
      · cases hRest : split separator rest with
        | nil => exact absurd hRest (split_ne_nil separator rest)
        | cons part parts => simp [split, hChar, ih, hRest]

/-- The characters of a part are those of the text, and no separators. -/
theorem of_mem_split {text part : List Char} (mem : part ∈ split separator text) {c : Char}
    (hChar : c ∈ part) : c ∈ text ∧ c ≠ separator := by
  induction text generalizing part with
  | nil => simp_all [split]
  | cons head rest ih =>
      have behind {part : List Char} (mem : part ∈ split separator rest) (hChar : c ∈ part) :
          c ∈ head :: rest ∧ c ≠ separator := by
        obtain ⟨hRest, hNe⟩ := ih mem hChar
        exact ⟨by simp [hRest], hNe⟩
      simp only [split] at mem
      split at mem
      · rcases List.mem_cons.mp mem with rfl | mem
        · simp at hChar
        · exact behind mem hChar
      · next hHead =>
          cases hRest : split separator rest with
          | nil => exact absurd hRest (split_ne_nil separator rest)
          | cons first parts =>
              rw [hRest] at mem
              rcases List.mem_cons.mp mem with rfl | mem
              · rcases List.mem_cons.mp hChar with rfl | hChar
                · exact ⟨by simp, hHead⟩
                · exact behind (by simp [hRest]) hChar
              · exact behind (by simp [hRest, mem]) hChar

end Separated

namespace Dotted

/-- The last segment of a name is one of them. -/
theorem last_mem_segments (name : String) : last name ∈ segments name := by
  have hNe : segments name ≠ [] := by simp [segments, Separated.split_ne_nil]
  rw [last, List.getLast?_eq_some_getLast hNe]
  exact List.getLast_mem hNe

/-- The characters of a segment are those of the name, and no dots. -/
theorem of_mem_segments {name segment : String} (mem : segment ∈ segments name) {c : Char}
    (h : c ∈ segment.toList) : c ∈ name.toList ∧ c ≠ '.' := by
  obtain ⟨part, hPart, rfl⟩ := List.mem_map.mp mem
  rw [String.toList_ofList] at h
  exact Separated.of_mem_split hPart h

/-- The characters of the last segment are those of the name, and no dots. -/
theorem of_mem_last {name : String} {c : Char} (h : c ∈ (last name).toList) :
    c ∈ name.toList ∧ c ≠ '.' :=
  of_mem_segments (last_mem_segments name) h

/-- A name without dots is its own last segment. -/
theorem last_eq_self {name : String} (h : '.' ∉ name.toList) : last name = name := by
  simp [last, segments, Separated.split_eq_singleton h]

/-- The last segment has no other last segment than itself. -/
theorem last_last (name : String) : last (last name) = last name :=
  last_eq_self fun mem => (of_mem_last mem).2 rfl

/-- A name that has not two segments has no dots. -/
theorem dot_notMem {name : String}
    (h : ∀ first second rest, segments name = first :: second :: rest → False) :
    '.' ∉ name.toList := by
  intro hDot
  obtain ⟨front, back, hName⟩ := List.append_of_mem hDot
  obtain ⟨first, firsts, hFront⟩ := List.exists_cons_of_ne_nil (Separated.split_ne_nil '.' front)
  obtain ⟨second, rest, hBack⟩ := List.exists_cons_of_ne_nil (Separated.split_ne_nil '.' back)
  have hSegments : segments name = ((first :: firsts) ++ second :: rest).map String.ofList := by
    rw [segments, hName, Separated.split_append, hFront, hBack]
  cases firsts with
  | nil => exact h _ _ _ hSegments
  | cons next firsts => exact h _ _ _ hSegments

/-- A name without dots is its only segment. -/
theorem segments_eq_singleton {name : String} (h : '.' ∉ name.toList) : segments name = [name] := by
  simp [segments, Separated.split_eq_singleton h]

/-- A dot keeps the segments of two names apart. -/
theorem segments_append (first second : String) :
    segments (first ++ "." ++ second) = segments first ++ segments second := by
  simp [segments, Separated.split_append]

/-- Names without dots are the segments of the name that they make up. -/
theorem segments_intercalate {names : List String} (hNil : names ≠ [])
    (h : ∀ name ∈ names, '.' ∉ name.toList) : segments (".".intercalate names) = names := by
  induction names with
  | nil => exact absurd rfl hNil
  | cons first rest ih =>
      have hFirst : segments first = [first] := segments_eq_singleton (h first (by simp))
      by_cases hRest : rest = []
      · subst hRest
        simpa using hFirst
      · have hBehind := ih hRest fun name mem => h name (by simp [mem])
        rw [← List.singleton_append, String.intercalate_append_of_ne_nil (by simp) hRest,
          String.intercalate_singleton, segments_append, hFirst, hBehind]

/-- The first segment of a name. -/
def first (name : String) : String := (segments name).head?.getD ""

/-- What stands behind a dot does not matter for the first segment. -/
theorem first_append (front back : String) : first (front ++ "." ++ back) = first front := by
  cases hSegments : segments front with
  | nil => exact absurd hSegments (by simp [segments, Separated.split_ne_nil])
  | cons head rest => simp [first, segments_append, hSegments]

theorem dot_notMem_first (name : String) : '.' ∉ (first name).toList := by
  have hMem : first name ∈ segments name := by
    cases hSegments : segments name with
    | nil => exact absurd hSegments (by simp [segments, Separated.split_ne_nil])
    | cons head rest => simp [first, hSegments]
  exact fun hDot => (of_mem_segments hMem hDot).2 rfl

/-- A name with a dot has a first segment and others behind it. -/
theorem exists_segments_of_dot {name : String} (h : '.' ∈ name.toList) :
    ∃ second rest, segments name = first name :: second :: rest := by
  cases hSegments : segments name with
  | nil => exact absurd hSegments (by simp [segments, Separated.split_ne_nil])
  | cons head behind =>
      cases behind with
      | nil => exact absurd h (dot_notMem (by simp [hSegments]))
      | cons second rest => exact ⟨second, rest, by simp [first, hSegments]⟩

/-- What stands in front of a dot does not matter for the last segment. -/
theorem last_append (first second : String) : last (first ++ "." ++ second) = last second := by
  have hNe : segments second ≠ [] := by simp [segments, Separated.split_ne_nil]
  rw [last, last, segments_append, List.getLast?_append, List.getLast?_eq_some_getLast hNe,
    Option.some_or]

/-- **A qualified name ends in the name that was qualified.** -/
theorem last_qualify (parent : String) {name : String} (h : '.' ∉ name.toList) :
    last (qualify parent name) = name := by
  unfold qualify
  split
  · exact last_eq_self h
  · rw [last_append, last_eq_self h]

end Dotted

end ClassSchema
