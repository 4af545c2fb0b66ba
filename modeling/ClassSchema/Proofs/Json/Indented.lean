import ClassSchema.Proofs.Json.Numbers
import ClassSchema.Proofs.Json.QuotedText
import ClassSchema.Proofs.Json.Values

/-!
# Indented text

A value is read from its indented text.  The text of a value starts with a character that is
neither white space nor a closing bracket, so the reader finds the value behind the line end
and the blanks that precede it, and takes no list for an empty one.  Behind a value stands a
comma or a line end, and neither goes on with a number.

The reader counts down at each item and each member; the text of the items is longer than the
number of steps that they take.

Reals are left out: what is written there are the shortest decimals that lead back to the
double.

## Main results

* `value_printIndented`: a value is read from its indented text, whatever follows.
* `parse_pretty`: the indented text of a value, with white space behind it, is that value.
* `isWritten_printIndented`: the text is printable ASCII in lines.
-/

namespace ClassSchema.Json

/-! ## White space -/

theorem skipSpace_cons {c : Char} (h : isSpace c = false) (rest : List Char) :
    skipSpace (c :: rest) = c :: rest := by
  simp [skipSpace, h]

/-- White space in front is passed over. -/
theorem skipSpace_append {blanks : List Char} (h : ∀ c ∈ blanks, isSpace c = true)
    (rest : List Char) : skipSpace (blanks ++ rest) = skipSpace rest :=
  List.dropWhile_append_of_pos h

theorem isSpace_of_mem_newLine {depth : Nat} {c : Char} (h : c ∈ newLine depth) :
    isSpace c = true := by
  rcases List.mem_cons.mp h with rfl | hBlank
  · rfl
  · rw [List.eq_of_mem_replicate hBlank]
    rfl

@[simp] theorem skipSpace_newLine (depth : Nat) (rest : List Char) :
    skipSpace (newLine depth ++ rest) = skipSpace rest :=
  skipSpace_append (fun _ => isSpace_of_mem_newLine) rest

theorem closed_newLine (depth : Nat) (rest : List Char) : Closed (newLine depth ++ rest) :=
  closed_cons (.inl rfl) _

/-! ## Containers that are not empty -/

theorem printIndented_items (item : Json) (rest : List Json) (depth : Nat) :
    (arr (item :: rest)).printIndented depth =
      '[' :: (newLine (depth + 1) ++ (item.printIndented (depth + 1) ++
        (indentedItems (depth + 1) false rest ++ (newLine depth ++ [']'])))) := by
  rw [printIndented, indentedItems] <;> simp

theorem printIndented_members (name : String) (member : Json) (rest : List (String × Json))
    (depth : Nat) :
    (obj ((name, member) :: rest)).printIndented depth =
      '\x7b' :: (newLine (depth + 1) ++ (quotedText name ++ (':' :: ' ' ::
        (member.printIndented (depth + 1) ++
          (indentedMembers (depth + 1) false rest ++ (newLine depth ++ ['\x7d'])))))) := by
  rw [printIndented, indentedMembers] <;> simp

/-- All items but the first come behind a comma. -/
theorem indentedItems_cons (item : Json) (rest : List Json) (depth : Nat) :
    indentedItems depth false (item :: rest) =
      ',' :: (newLine depth ++ (item.printIndented depth ++ indentedItems depth false rest)) := by
  simp [indentedItems]

/-- All members but the first come behind a comma. -/
theorem indentedMembers_cons (name : String) (member : Json) (rest : List (String × Json))
    (depth : Nat) :
    indentedMembers depth false ((name, member) :: rest) =
      ',' :: (newLine depth ++ (quotedText name ++ (':' :: ' ' ::
        (member.printIndented depth ++ indentedMembers depth false rest)))) := by
  simp [indentedMembers]

/-! ## The start of a value -/

/-- The text of a value starts with something that can only start a value. -/
theorem exists_cons_printIndented {value : Json} (noReal : value.IsNoReal) (depth : Nat) :
    ∃ c rest, value.printIndented depth = c :: rest ∧
      isSpace c = false ∧ c ≠ ']' ∧ c ≠ '\uFEFF' := by
  match value, noReal with
  | null, _ => exact ⟨_, _, rfl, by decide⟩
  | bool true, _ => exact ⟨_, _, rfl, by decide⟩
  | bool false, _ => exact ⟨_, _, rfl, by decide⟩
  | int n, _ =>
      obtain ⟨c, rest, isDigit, hText⟩ := intText_eq n
      rcases hText with hText | hText
      · refine ⟨c, rest, by simpa [printIndented, scalarText] using hText, ?_⟩
        have noSpace : isSpace c = false := by
          simp [isSpace, ne_of_isDigit isDigit]
        exact ⟨noSpace, ne_of_isDigit isDigit rfl, ne_of_isDigit isDigit rfl⟩
      · exact ⟨'-', c :: rest, by simpa [printIndented, scalarText] using hText, by decide⟩
  | str text, _ => exact ⟨'"', _, by simp only [printIndented, scalarText]; rfl, by decide⟩
  | arr [], _ => exact ⟨_, _, by rw [printIndented], by decide⟩
  | arr (item :: rest), _ => exact ⟨_, _, printIndented_items item rest depth, by decide⟩
  | obj [], _ => exact ⟨_, _, by rw [printIndented], by decide⟩
  | obj ((name, member) :: rest), _ =>
      exact ⟨_, _, printIndented_members name member rest depth, by decide⟩

/-! ## Values without others -/

/-- What is no string, list or object is read as a word or a number. -/
private theorem value_scalar {c : Char} {rest : List Char} (fuel : Nat) (string : c ≠ '"')
    (list : c ≠ '[') (object : c ≠ '\x7b') : value (fuel + 1) (c :: rest) = scalar (c :: rest) := by
  rw [value.eq_def]
  simp [string, list, object]

private theorem value_intText {n : Int} {rest : List Char} (fuel : Nat) (closed : Closed rest)
    (bound : (Nat.toDigits 10 n.natAbs).length ≤ maxDigits) :
    value (fuel + 1) (intText n ++ rest) = .ok (.int n, rest) := by
  rw [← scalar_intText closed bound]
  obtain ⟨c, others, isDigit, hText⟩ := intText_eq n
  rcases hText with hText | hText <;> rw [hText, List.cons_append]
  · exact value_scalar fuel (ne_of_isDigit isDigit rfl) (ne_of_isDigit isDigit rfl)
      (ne_of_isDigit isDigit rfl)
  · exact value_scalar fuel (by decide) (by decide) (by decide)

private theorem value_quotedText (text : String) (rest : List Char) (fuel : Nat) :
    value (fuel + 1) (quotedText text ++ rest) = .ok (.str text, rest) := by
  obtain ⟨inside, hText, hString⟩ := string_quotedText text rest
  rw [hText, value]
  simp [hString, bind, Except.bind, pure, Except.pure]

/-! ## Steps of the reader -/

section Steps

variable {fuel : Nat} {text after next rest : List Char} {item member : Json} {others : List Json}
  {name : String} {pairs : List (String × Json)}

private theorem value_arr (more : ∀ tail, skipSpace text ≠ ']' :: tail)
    (h : items fuel (skipSpace text) = .ok (others, rest)) :
    value (fuel + 1) ('[' :: text) = .ok (.arr others, rest) := by
  rw [value]
  split
  · next hEmpty => exact absurd hEmpty (more _)
  · simp [h, bind, Except.bind, pure, Except.pure]

private theorem value_obj (more : ∀ tail, skipSpace text ≠ '\x7d' :: tail)
    (h : members fuel (skipSpace text) = .ok (pairs, rest)) :
    value (fuel + 1) ('\x7b' :: text) = .ok (.obj (OrderedMap.ofPairs pairs), rest) := by
  rw [value]
  split
  · next hEmpty => exact absurd hEmpty (more _)
  · simp [h, bind, Except.bind, pure, Except.pure]

private theorem items_last (h : value fuel text = .ok (item, after))
    (closing : skipSpace after = ']' :: rest) : items (fuel + 1) text = .ok ([item], rest) := by
  simp [items, h, closing, bind, Except.bind, pure, Except.pure]

private theorem items_more (h : value fuel text = .ok (item, after))
    (comma : skipSpace after = ',' :: next)
    (behind : items fuel (skipSpace next) = .ok (others, rest)) :
    items (fuel + 1) text = .ok (item :: others, rest) := by
  simp [items, h, comma, behind, bind, Except.bind, pure, Except.pure]

/-- The name of a member, a colon and a blank are read before its value. -/
private theorem members_eq (h : value fuel (skipSpace text) = .ok (member, after)) :
    members (fuel + 1) (quotedText name ++ (':' :: ' ' :: text)) =
      match skipSpace after with
      | '\x7d' :: rest => .ok ([(name, member)], rest)
      | ',' :: rest => do
          let (others, rest) ← members fuel (skipSpace rest)
          return ((name, member) :: others, rest)
      | rest => fail .expectingComma rest := by
  obtain ⟨inside, hText, hString⟩ := string_quotedText name (':' :: ' ' :: text)
  have hBlank : skipSpace (' ' :: text) = skipSpace text := rfl
  rw [hText, members]
  simp only [hString, bind, Except.bind, skipSpace_cons (show isSpace ':' = false by decide),
    hBlank, h]
  rfl

private theorem members_last (h : value fuel (skipSpace text) = .ok (member, after))
    (closing : skipSpace after = '\x7d' :: rest) :
    members (fuel + 1) (quotedText name ++ (':' :: ' ' :: text)) =
      .ok ([(name, member)], rest) := by
  rw [members_eq h, closing]
  rfl

private theorem members_more (h : value fuel (skipSpace text) = .ok (member, after))
    (comma : skipSpace after = ',' :: next)
    (behind : members fuel (skipSpace next) = .ok (pairs, rest)) :
    members (fuel + 1) (quotedText name ++ (':' :: ' ' :: text)) =
      .ok ((name, member) :: pairs, rest) := by
  rw [members_eq h, comma]
  simp [behind, bind, Except.bind, pure, Except.pure]

end Steps

/-! ## Values, items and members -/

/-- White space in front of the text of a value is all that is passed over. -/
private theorem skipSpace_printIndented {content : Json} (noReal : content.IsNoReal) (depth : Nat)
    (rest : List Char) :
    skipSpace (content.printIndented depth ++ rest) = content.printIndented depth ++ rest := by
  obtain ⟨c, tail, hHead, noSpace, -⟩ := exists_cons_printIndented noReal depth
  rw [hHead, List.cons_append, skipSpace_cons noSpace]

private theorem skipSpace_quotedText (text : String) (rest : List Char) :
    skipSpace (quotedText text ++ rest) = quotedText text ++ rest := by
  rw [quotedText]
  exact skipSpace_cons (by decide) _

mutual

/-- **A value is read from its indented text**, whatever follows. -/
theorem value_printIndented (content : Json) (noReal : content.Every IsNoReal)
    (storable : content.Every IsStorable) (depth fuel : Nat) (rest : List Char)
    (enough : (content.printIndented depth).length ≤ fuel) (closed : Closed rest) :
    value fuel (content.printIndented depth ++ rest) = .ok (content, rest) := by
  obtain ⟨c, tail, hHead, -⟩ := exists_cons_printIndented noReal.head depth
  obtain ⟨fuel, rfl⟩ : ∃ less, fuel = less + 1 := by
    rw [hHead, List.length_cons] at enough
    exact ⟨fuel - 1, by omega⟩
  match content with
  | null => rfl
  | bool true => rfl
  | bool false => rfl
  | int n => exact value_intText fuel closed storable
  | real _ => exact noReal.elim
  | str text => exact value_quotedText text rest fuel
  | arr [] =>
      rw [printIndented]
      rfl
  | obj [] =>
      rw [printIndented]
      rfl
  | arr (item :: others) =>
      rw [printIndented_items, List.length_cons] at enough
      simp only [List.length_append, List.length_singleton] at enough
      obtain ⟨first, text, hFirst, -, noBracket, -⟩ :=
        exists_cons_printIndented noReal.2.1.head (depth + 1)
      rw [printIndented_items, List.cons_append]
      simp only [List.append_assoc]
      refine value_arr (fun tail hEmpty => ?_) ?_
      · rw [skipSpace_newLine, skipSpace_printIndented noReal.2.1.head, hFirst] at hEmpty
        exact noBracket (List.cons.inj hEmpty).1
      · rw [skipSpace_newLine, skipSpace_printIndented noReal.2.1.head]
        exact items_indentedItems item others noReal.2 storable.2 (depth + 1) depth fuel rest
          (by omega)
  | obj ((name, member) :: others) =>
      rw [printIndented_members, List.length_cons] at enough
      simp only [List.length_append, List.length_cons, List.length_nil] at enough
      rw [printIndented_members, List.cons_append, ← OrderedMap.ofPairs_of_nodup storable.1]
      simp only [List.append_assoc, List.cons_append]
      refine value_obj (fun tail hEmpty => ?_) ?_
      · rw [skipSpace_newLine, skipSpace_quotedText, quotedText] at hEmpty
        exact absurd (List.cons.inj hEmpty).1 (by decide)
      · rw [skipSpace_newLine, skipSpace_quotedText]
        exact members_indentedMembers name member others noReal.2 storable.2 (depth + 1) depth fuel
          rest (by omega)
termination_by fuel

/-- Items are read up to the closing bracket. -/
theorem items_indentedItems (item : Json) (others : List Json)
    (noReal : EveryItem IsNoReal (item :: others))
    (storable : EveryItem IsStorable (item :: others)) (depth outer fuel : Nat) (rest : List Char)
    (enough :
      (item.printIndented depth).length + (indentedItems depth false others).length < fuel) :
    items fuel (item.printIndented depth ++ (indentedItems depth false others ++
      (newLine outer ++ ']' :: rest))) = .ok (item :: others, rest) := by
  obtain ⟨fuel, rfl⟩ : ∃ less, fuel = less + 1 := ⟨fuel - 1, by omega⟩
  have hItem := fun rest closed =>
    value_printIndented item noReal.1 storable.1 depth fuel rest (by omega) closed
  match others with
  | [] =>
      rw [indentedItems, List.nil_append]
      exact items_last (hItem _ (closed_newLine outer _)) (skipSpace_newLine outer _)
  | next :: others =>
      rw [indentedItems_cons, List.length_cons] at enough
      simp only [List.length_append] at enough
      rw [indentedItems_cons, List.cons_append]
      simp only [List.append_assoc]
      refine items_more (hItem _ (closed_cons (.inr rfl) _)) (skipSpace_cons (by decide) _) ?_
      rw [skipSpace_newLine, skipSpace_printIndented noReal.2.1.head]
      exact items_indentedItems next others noReal.2 storable.2 depth outer fuel rest (by omega)
termination_by fuel

/-- Members are read up to the closing brace. -/
theorem members_indentedMembers (name : String) (member : Json) (others : List (String × Json))
    (noReal : EveryMember IsNoReal ((name, member) :: others))
    (storable : EveryMember IsStorable ((name, member) :: others)) (depth outer fuel : Nat)
    (rest : List Char)
    (enough :
      (member.printIndented depth).length + (indentedMembers depth false others).length < fuel) :
    members fuel (quotedText name ++ (':' :: ' ' :: (member.printIndented depth ++
      (indentedMembers depth false others ++ (newLine outer ++ '\x7d' :: rest))))) =
        .ok ((name, member) :: others, rest) := by
  obtain ⟨fuel, rfl⟩ : ∃ less, fuel = less + 1 := ⟨fuel - 1, by omega⟩
  have hMember : ∀ rest, Closed rest →
      value fuel (skipSpace (member.printIndented depth ++ rest)) = .ok (member, rest) := by
    intro rest closed
    rw [skipSpace_printIndented noReal.1.head]
    exact value_printIndented member noReal.1 storable.1 depth fuel rest (by omega) closed
  match others with
  | [] =>
      rw [indentedMembers, List.nil_append]
      exact members_last (hMember _ (closed_newLine outer _)) (skipSpace_newLine outer _)
  | (second, next) :: others =>
      rw [indentedMembers_cons, List.length_cons] at enough
      simp only [List.length_append, List.length_cons] at enough
      rw [indentedMembers_cons, List.cons_append]
      simp only [List.append_assoc, List.cons_append]
      refine members_more (hMember _ (closed_cons (.inr rfl) _)) (skipSpace_cons (by decide) _) ?_
      rw [skipSpace_newLine, skipSpace_quotedText]
      exact members_indentedMembers second next others noReal.2 storable.2 depth outer fuel rest
        (by omega)
termination_by fuel

end

/-! ## Whole texts -/

/-- **The indented text of a value, with white space behind it, is that value.** -/
theorem parse_pretty {content : Json} (noReal : content.Every IsNoReal)
    (storable : content.Every IsStorable) {blanks : List Char}
    (h : ∀ c ∈ blanks, isSpace c = true) :
    parse (content.pretty.toList ++ blanks) = .ok content := by
  obtain ⟨c, tail, hHead, -, -, noMark⟩ := exists_cons_printIndented noReal.head 0
  have closed : Closed blanks := fun c hHead => .inl (h c (List.mem_of_mem_head? hHead))
  have skipped : skipSpace blanks = [] := by simpa [skipSpace] using skipSpace_append h []
  have hMark : (content.printIndented 0 ++ blanks).head? ≠ some '\uFEFF' := by
    rw [hHead]
    simpa using noMark
  rw [pretty, String.toList_ofList, parse, document, if_neg hMark,
    skipSpace_printIndented noReal.head,
    value_printIndented content noReal storable 0 _ blanks (by simp; omega) closed]
  simp [bind, Except.bind, pure, Except.pure, skipped]

/-! ## The characters that are written -/

/-- A character of printable ASCII, or a line feed. -/
def IsWritten (c : Char) : Prop := c = '\n' ∨ (' ' ≤ c ∧ c ≤ '~')

instance (c : Char) : Decidable (IsWritten c) := inferInstanceAs (Decidable (_ ∨ _))

/-- A fixed text can be looked through. -/
private theorem isWritten_of_all {text : List Char} (h : text.all (IsWritten ·) = true) :
    ∀ c ∈ text, IsWritten c := by
  simpa only [List.all_eq_true, decide_eq_true_eq] using h

theorem isWritten_of_mem_unitEscape {unit : Nat} (h : unit < 0x10000) {c : Char}
    (mem : c ∈ unitEscape unit) : IsWritten c := by
  have digit : ∀ digit < 16, IsWritten (Nat.digitChar digit) := by decide
  rw [unitEscape, hexPadded_four h] at mem
  simp only [List.mem_cons, List.not_mem_nil, or_false] at mem
  rcases mem with rfl | rfl | rfl | rfl | rfl | rfl
  · decide
  · decide
  all_goals exact digit _ (by omega)

theorem isWritten_of_mem_marks {c : Char} (mem : c ∈ marks) : IsWritten c :=
  isWritten_of_all rfl c mem

/-- Whatever a character is, it is spelled in these. -/
theorem Spells.isWritten {c written : Char} {spelling : List Char} (spells : Spells c spelling)
    (mem : written ∈ spelling) : IsWritten written := by
  cases spells with
  | short hMark _ =>
      rcases List.mem_cons.mp mem with rfl | mem
      · decide
      · exact List.mem_singleton.mp mem ▸ isWritten_of_mem_marks hMark
  | plain lower upper _ _ => exact .inr (List.mem_singleton.mp mem ▸ ⟨lower, upper⟩)
  | unit basic => exact isWritten_of_mem_unitEscape basic mem
  | halves _ bound =>
      rcases List.mem_append.mp mem with mem | mem
      · exact isWritten_of_mem_unitEscape (by omega) mem
      · exact isWritten_of_mem_unitEscape (by omega) mem

theorem isWritten_of_mem_quotedText {text : String} {c : Char} (mem : c ∈ quotedText text) :
    IsWritten c := by
  rw [quotedText] at mem
  rcases List.mem_cons.mp mem with rfl | mem
  · decide
  rcases List.mem_append.mp mem with mem | mem
  · obtain ⟨_, -, mem⟩ := List.mem_flatMap.mp mem
    exact (spells_escapedChar _).isWritten mem
  · rw [List.mem_singleton.mp mem]
    decide

theorem isWritten_of_mem_intText {n : Int} {c : Char} (mem : c ∈ intText n) : IsWritten c := by
  rw [intText] at mem
  rcases List.mem_append.mp mem with mem | mem
  · split at mem
    · rw [List.mem_singleton.mp mem]
      decide
    · cases mem
  · have bounds : 48 ≤ c.toNat ∧ c.toNat ≤ 57 := by
      simpa [Char.isDigit, UInt32.le_iff_toNat_le] using isDigit_of_mem_toDigits mem
    have wide : 32 ≤ c.toNat ∧ c.toNat ≤ 126 := by omega
    exact .inr wide

theorem isWritten_of_mem_newLine {depth : Nat} {c : Char} (mem : c ∈ newLine depth) :
    IsWritten c := by
  rcases List.mem_cons.mp mem with rfl | mem
  · decide
  · rw [List.eq_of_mem_replicate mem]
    decide

mutual

/-- **Printable ASCII and line feeds are all that is written.** -/
theorem isWritten_printIndented (content : Json) (noReal : content.Every IsNoReal) (depth : Nat) :
    ∀ c ∈ content.printIndented depth, IsWritten c := by
  intro c mem
  match content with
  | null => exact isWritten_of_all rfl c mem
  | bool true => exact isWritten_of_all rfl c mem
  | bool false => exact isWritten_of_all rfl c mem
  | int n => exact isWritten_of_mem_intText mem
  | real _ => exact noReal.elim
  | str text => exact isWritten_of_mem_quotedText mem
  | arr [] =>
      rw [printIndented] at mem
      exact isWritten_of_all rfl c mem
  | obj [] =>
      rw [printIndented] at mem
      exact isWritten_of_all rfl c mem
  | arr (item :: rest) =>
      simp only [printIndented_items, List.mem_append, List.mem_cons, List.not_mem_nil,
        or_false] at mem
      rcases mem with rfl | mem | mem | mem | mem | rfl
      · decide
      · exact isWritten_of_mem_newLine mem
      · exact isWritten_printIndented item noReal.2.1 (depth + 1) c mem
      · exact isWritten_indentedItems rest noReal.2.2 (depth + 1) c mem
      · exact isWritten_of_mem_newLine mem
      · decide
  | obj ((name, member) :: rest) =>
      simp only [printIndented_members, List.mem_append, List.mem_cons, List.not_mem_nil,
        or_false] at mem
      rcases mem with rfl | mem | mem | rfl | rfl | mem | mem | mem | rfl
      · decide
      · exact isWritten_of_mem_newLine mem
      · exact isWritten_of_mem_quotedText mem
      · decide
      · decide
      · exact isWritten_printIndented member noReal.2.1 (depth + 1) c mem
      · exact isWritten_indentedMembers rest noReal.2.2 (depth + 1) c mem
      · exact isWritten_of_mem_newLine mem
      · decide

theorem isWritten_indentedItems (items : List Json) (noReal : EveryItem IsNoReal items)
    (depth : Nat) : ∀ c ∈ indentedItems depth false items, IsWritten c := by
  intro c mem
  match items with
  | [] => cases mem
  | item :: rest =>
      simp only [indentedItems_cons, List.mem_append, List.mem_cons] at mem
      rcases mem with rfl | mem | mem | mem
      · decide
      · exact isWritten_of_mem_newLine mem
      · exact isWritten_printIndented item noReal.1 depth c mem
      · exact isWritten_indentedItems rest noReal.2 depth c mem

theorem isWritten_indentedMembers (members : List (String × Json))
    (noReal : EveryMember IsNoReal members) (depth : Nat) :
    ∀ c ∈ indentedMembers depth false members, IsWritten c := by
  intro c mem
  match members with
  | [] => cases mem
  | (name, member) :: rest =>
      simp only [indentedMembers_cons, List.mem_append, List.mem_cons] at mem
      rcases mem with rfl | mem | mem | rfl | rfl | mem | mem
      · decide
      · exact isWritten_of_mem_newLine mem
      · exact isWritten_of_mem_quotedText mem
      · decide
      · decide
      · exact isWritten_printIndented member noReal.1 depth c mem
      · exact isWritten_indentedMembers rest noReal.2 depth c mem

end

/-- There are no carriage returns. -/
theorem notMem_pretty {content : Json} (noReal : content.Every IsNoReal) :
    '\r' ∉ content.pretty.toList := by
  rw [pretty, String.toList_ofList]
  exact fun mem => absurd (isWritten_printIndented content noReal 0 _ mem) (by decide)

end ClassSchema.Json
