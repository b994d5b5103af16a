/-
**Documents that are read back**

A value is printed over several lines and read from the front.  Between quotes every character is written
so that it is read as itself, and the closing quote is the first one that is not escaped.  The blanks between
the parts of a document are passed over.  A number ends where it was written to end, because a comma, a line
or the document follows it.  So a printed value is read back, if its texts have content and its numbers
are literals.

Reading takes fuel, and twice the length of a printed value is enough for it: whatever is inside brackets
or braces is shorter by both of them.

Main definitions:

* `Json.IsWritten` — the values that are printed as they are.

Main results:

* `Json.readText?_escape` — **texts are read back**;
* `Json.readValue?_renderAt` — so are values, whatever follows them;
* `Json.parse_render` — **a document is read back**.
-/

import ClauseForest.Json.Printer
import ClauseForest.Proofs.Json.Number
import Mathlib.Tactic.SplitIfs

set_option relaxedAutoImplicit false
set_option autoImplicit false

namespace ClauseForest.Json

/-! ### Texts -/

theorem readUnits?_short {e c : Char} (hu : e ≠ 'u') (h : shortEscape? e = some c)
    (text : List Char) : readUnits? ('\\' :: e :: text) =
      (readUnits? text).map fun (units, rest) => (c.toNat :: units, rest) := by
  rw [readUnits?]
  · rw [h]
    cases readUnits? text <;> rfl
  · rintro a b c d rest rfl rfl
    exact hu rfl

theorem hexUnit?_digitChar {n : Nat} (h : n < 0x20) :
    hexUnit? '0' '0' (Nat.digitChar (n / 16)) (Nat.digitChar (n % 16)) = some n := by
  have hall : ∀ n < 0x20, hexUnit? '0' '0' (Nat.digitChar (n / 16)) (Nat.digitChar (n % 16)) =
      some n := by decide
  exact hall n h

/-- A character is written by a letter after a backslash, by its code point, or as it is. -/
theorem escapeChar_cases (c : Char) :
    (∃ e, e ≠ 'u' ∧ shortEscape? e = some c ∧ escapeChar c = ['\\', e]) ∨
    (c.toNat < 0x20 ∧ escapeChar c =
      ['\\', 'u', '0', '0', Nat.digitChar (c.toNat / 16), Nat.digitChar (c.toNat % 16)]) ∨
    (¬ c.toNat < 0x20 ∧ c ≠ '"' ∧ c ≠ '\\' ∧ escapeChar c = [c]) := by
  unfold escapeChar
  split_ifs with hmark hb hf hn hr ht hcontrol
  · rcases hmark with rfl | rfl
    · exact .inl ⟨'"', by decide, rfl, rfl⟩
    · exact .inl ⟨'\\', by decide, rfl, rfl⟩
  · exact .inl ⟨'b', by decide, hb ▸ rfl, rfl⟩
  · exact .inl ⟨'f', by decide, hf ▸ rfl, rfl⟩
  · exact .inl ⟨'n', by decide, hn ▸ rfl, rfl⟩
  · exact .inl ⟨'r', by decide, hr ▸ rfl, rfl⟩
  · exact .inl ⟨'t', by decide, ht ▸ rfl, rfl⟩
  · exact .inr (.inl ⟨hcontrol, rfl⟩)
  · rw [not_or] at hmark
    exact .inr (.inr ⟨hcontrol, hmark.1, hmark.2, rfl⟩)

/-- A written character is read as itself. -/
theorem readUnits?_escapeChar (c : Char) (text : List Char) :
    readUnits? (escapeChar c ++ text) =
      (readUnits? text).map fun (units, rest) => (c.toNat :: units, rest) := by
  rcases escapeChar_cases c with ⟨e, hu, hshort, heq⟩ | ⟨hcontrol, heq⟩ | ⟨hplain, hquote, hslash, heq⟩
  · rw [heq]
    exact readUnits?_short hu hshort text
  · rw [heq]
    show readUnits? ('\\' :: 'u' :: '0' :: '0' :: _ :: _ :: text) = _
    rw [readUnits?, hexUnit?_digitChar hcontrol]
    cases readUnits? text <;> rfl
  · rw [heq, List.singleton_append, readUnits?]
    · rw [if_neg hplain]
      cases readUnits? text <;> rfl
    · exact hquote
    · intro a b c d rest hc
      exact absurd hc hslash
    · intro e rest hc
      exact absurd hc hslash

theorem readUnits?_flatMap (content rest : List Char) :
    readUnits? (content.flatMap escapeChar ++ '"' :: rest) = some (content.map Char.toNat, rest) := by
  induction content with
  | nil => rw [List.flatMap_nil, List.nil_append, readUnits?]; rfl
  | cons c content ih =>
      rw [List.flatMap_cons, List.append_assoc, readUnits?_escapeChar, ih]
      rfl

/-- The code points of characters are no surrogates. -/
theorem charsOfUnits?_map (content : List Char) :
    charsOfUnits? (content.map Char.toNat) = some content := by
  induction content with
  | nil => rw [List.map_nil, charsOfUnits?]
  | cons c content ih =>
      have hvalid : c.toNat < 0xd800 ∨ 0xdfff < c.toNat := by
        rcases c.valid with h | ⟨h, -⟩
        · exact .inl h
        · exact .inr h
      have hhigh : isHighSurrogate c.toNat = false := by
        simp only [isHighSurrogate, Bool.and_eq_false_iff, decide_eq_false_iff_not]
        omega
      have hlow : isLowSurrogate c.toNat = false := by
        simp only [isLowSurrogate, Bool.and_eq_false_iff, decide_eq_false_iff_not]
        omega
      rw [List.map_cons, charsOfUnits?.eq_def]
      simp [hhigh, hlow, ih, Char.ofNat_toNat]

/-- A text in quotes is read back, whatever follows it. -/
theorem readText?_escape (content : String) (rest : List Char) :
    readText? (content.toList.flatMap escapeChar ++ '"' :: rest) = some (some content, rest) := by
  unfold readText?
  rw [readUnits?_flatMap]
  show some (Option.map String.ofList (charsOfUnits? (content.toList.map Char.toNat)), rest) = _
  rw [charsOfUnits?_map]
  simp

/-! ### Values -/

mutual

/-- A value that is printed as it is: its numbers are literals, and its texts have content. -/
def IsWritten : Json → Prop
  | .number literal => IsLiteral literal
  | .string content => content.isSome = true
  | .array items => AreWrittenItems items
  | .object members => AreWrittenMembers members
  | _ => True

/-- All items of an array are printed as they are. -/
def AreWrittenItems : List Json → Prop
  | [] => True
  | item :: items => item.IsWritten ∧ AreWrittenItems items

/-- All members of an object are printed as they are. -/
def AreWrittenMembers : List (Option String × Json) → Prop
  | [] => True
  | (name, value) :: members =>
    name.isSome = true ∧ value.IsWritten ∧ AreWrittenMembers members

end

/-- Whether a character may be the first one of a value. -/
def startsValue (c : Char) : Bool := c ∈ "ntf\"[\x7b-".toList || c.isDigit

theorem startsValue_cases {c : Char} (h : startsValue c = true) :
    isBlank c = false ∧ c ≠ ']' ∧ c ≠ '\x7d' := by
  rcases Bool.or_eq_true_iff.1 h with hmark | hdigit
  · have hall : ("ntf\"[\x7b-".toList.all fun mark =>
        decide (isBlank mark = false ∧ mark ≠ ']' ∧ mark ≠ '\x7d')) = true := by decide
    exact of_decide_eq_true (List.all_eq_true.1 hall c (of_decide_eq_true hmark))
  · refine ⟨?_, ?_, ?_⟩
    · unfold isBlank
      simp only [Bool.or_eq_false_iff, beq_eq_false_iff_ne]
      refine ⟨⟨⟨?_, ?_⟩, ?_⟩, ?_⟩ <;> rintro rfl <;> cases hdigit
    · rintro rfl
      cases hdigit
    · rintro rfl
      cases hdigit

/-- A printed value begins with a character that tells what it is. -/
theorem exists_cons_renderAt {value : Json} (h : value.IsWritten) (level : Nat) :
    ∃ c rest, renderAt level value = c :: rest ∧ startsValue c = true := by
  match value with
  | .null => exact ⟨'n', _, rfl, by decide⟩
  | .bool true => exact ⟨'t', _, rfl, by decide⟩
  | .bool false => exact ⟨'f', _, rfl, by decide⟩
  | .number literal =>
      rw [IsWritten] at h
      obtain ⟨c, rest, rfl, hc⟩ := h.exists_cons
      refine ⟨c, rest, by rw [renderAt], ?_⟩
      rcases hc with rfl | hc
      · decide
      · simp [startsValue, hc]
  | .string content => exact ⟨'"', _, by rw [renderAt, escape]; rfl, by decide⟩
  | .array [] => exact ⟨'[', _, by rw [renderAt], by decide⟩
  | .array (item :: items) => exact ⟨'[', _, by rw [renderAt]; rfl, by decide⟩
  | .object [] => exact ⟨'\x7b', _, by rw [renderAt], by decide⟩
  | .object ((name, value) :: members) => exact ⟨'\x7b', _, by rw [renderAt]; rfl, by decide⟩

theorem skipBlanks_newline (level : Nat) (text : List Char) :
    skipBlanks (newline level ++ text) = skipBlanks text := by
  have hblank : ∀ c ∈ newline level, isBlank c = true := by
    intro c hc
    rcases List.mem_cons.1 hc with rfl | hc
    · decide
    · rw [(List.mem_replicate.1 hc).2]
      decide
  exact List.dropWhile_append_of_pos hblank

theorem skipBlanks_cons {c : Char} (h : isBlank c = false) (text : List Char) :
    skipBlanks (c :: text) = c :: text := List.dropWhile_cons_of_neg (by simp [h])

theorem endsNumber_newline (level : Nat) (text : List Char) : EndsNumber (newline level ++ text) := by
  intro c hc
  obtain rfl : '\n' = c := Option.some.inj hc
  decide

theorem endsNumber_comma (text : List Char) : EndsNumber (',' :: text) := by
  intro c hc
  obtain rfl : ',' = c := Option.some.inj hc
  decide

/-! ### What the reader does with the first character -/

variable {fuel : Nat} {c : Char} {text : List Char}

theorem readValue?_number (h : c = '-' ∨ c.isDigit = true) :
    readValue? (fuel + 1) (c :: text) =
      (readNumber? (c :: text)).map fun (literal, rest) => (.number literal, rest) := by
  rw [readValue?]
  -- no sign and no digit is the first character of anything else
  all_goals
    intro rest heq
    obtain ⟨rfl, -⟩ := List.cons.inj heq
    rcases h with h | h <;> cases h

theorem readValue?_array (h : startsValue c = true) (level : Nat) :
    readValue? (fuel + 1) ('[' :: (newline level ++ c :: text)) =
      (readItems? fuel (c :: text)).map fun (items, rest) => (.array items, rest) := by
  obtain ⟨hblank, hbracket, -⟩ := startsValue_cases h
  rw [readValue?, skipBlanks_newline, skipBlanks_cons hblank]
  split
  · rename_i heq
    exact absurd (List.cons.inj heq).1 hbracket
  · rfl

theorem readValue?_object (level : Nat) :
    readValue? (fuel + 1) ('\x7b' :: (newline level ++ '"' :: text)) =
      (readMembers? fuel ('"' :: text)).map fun (members, rest) => (.object members, rest) := by
  rw [readValue?, skipBlanks_newline, skipBlanks_cons (by decide)]
  split
  · rename_i heq
    cases heq
  · rfl

/-! ### Printed values -/

/-- So much fuel is enough for printed values of at most half its size. -/
def ReadsValues (fuel : Nat) : Prop :=
  ∀ (value : Json) (level : Nat) (rest : List Char), value.IsWritten → EndsNumber rest →
    2 * (renderAt level value).length ≤ fuel →
      readValue? fuel (renderAt level value ++ rest) = some (value, rest)

/-- So much fuel is enough for printed items of less than half its size. -/
def ReadsItems (fuel : Nat) : Prop :=
  ∀ (item : Json) (items : List Json) (level outer : Nat) (rest : List Char),
    AreWrittenItems (item :: items) →
    2 * ((renderAt level item).length + (renderItems level items).length) < fuel →
      readItems? fuel (renderAt level item ++ (renderItems level items ++ (newline outer ++
        ']' :: rest))) = some (item :: items, rest)

/-- So much fuel is enough for printed members of less than half its size. -/
def ReadsMembers (fuel : Nat) : Prop :=
  ∀ (name : Option String) (value : Json) (members : List (Option String × Json))
    (level outer : Nat) (rest : List Char), AreWrittenMembers ((name, value) :: members) →
    2 * ((renderAt level value).length + (renderMembers level members).length) < fuel →
      readMembers? fuel (escape (name.getD "") ++ ':' :: ' ' :: (renderAt level value ++
        (renderMembers level members ++ (newline outer ++ '\x7d' :: rest)))) =
        some ((name, value) :: members, rest)

theorem readsValues_succ (hitems : ReadsItems fuel) (hmembers : ReadsMembers fuel) :
    ReadsValues (fuel + 1) := by
  intro value level rest h hrest hfuel
  match value with
  | .null => rfl
  | .bool true => rfl
  | .bool false => rfl
  | .number literal =>
      rw [IsWritten] at h
      obtain ⟨c, text, rfl, hc⟩ := h.exists_cons
      rw [renderAt, List.cons_append, readValue?_number hc, ← List.cons_append, h rest hrest]
      rfl
  | .string content =>
      rw [IsWritten] at h
      obtain ⟨content, rfl⟩ := Option.isSome_iff_exists.1 h
      rw [renderAt, escape, Option.getD_some, List.cons_append, List.cons_append, readValue?,
        List.append_assoc, List.singleton_append, readText?_escape]
      rfl
  | .array [] => rfl
  | .array (item :: items) =>
      rw [IsWritten] at h
      have hitem := (AreWrittenItems.eq_2 item items ▸ h).1
      obtain ⟨c, text, htext, hc⟩ := exists_cons_renderAt hitem (level + 1)
      rw [renderAt] at hfuel ⊢
      simp only [List.length_append, List.length_cons, List.length_nil] at hfuel
      have hread := hitems item items (level + 1) level rest h (by omega)
      rw [htext] at hread ⊢
      simp only [List.cons_append, List.append_assoc, List.nil_append] at hread ⊢
      rw [readValue?_array hc, hread]
      rfl
  | .object [] => rfl
  | .object ((name, value) :: members) =>
      rw [IsWritten] at h
      rw [renderAt] at hfuel ⊢
      simp only [List.length_append, List.length_cons, List.length_nil] at hfuel
      have hread := hmembers name value members (level + 1) level rest h (by omega)
      simp only [escape, List.cons_append, List.append_assoc, List.nil_append] at hread ⊢
      rw [readValue?_object, hread]
      rfl

theorem readsItems_succ (hvalues : ReadsValues fuel) (hitems : ReadsItems fuel) :
    ReadsItems (fuel + 1) := by
  intro item items level outer rest h hfuel
  rw [AreWrittenItems] at h
  match items with
  | [] =>
      rw [renderItems, List.nil_append, readItems?,
        hvalues item level _ h.1 (endsNumber_newline outer _) (by omega)]
      simp only [Option.bind_eq_bind, Option.bind_some, skipBlanks_newline,
        skipBlanks_cons (show isBlank ']' = false by decide)]
      rfl
  | next :: items =>
      have hnext := (AreWrittenItems.eq_2 next items ▸ h.2).1
      obtain ⟨c, text, htext, hc⟩ := exists_cons_renderAt hnext level
      rw [renderItems] at hfuel ⊢
      simp only [List.length_append, List.length_cons] at hfuel
      have hread := hitems next items level outer rest h.2 (by omega)
      simp only [List.cons_append, List.append_assoc]
      rw [readItems?, hvalues item level _ h.1 (endsNumber_comma _) (by omega)]
      rw [htext, List.cons_append] at hread ⊢
      simp only [Option.bind_eq_bind, Option.bind_some, skipBlanks_newline,
        skipBlanks_cons (show isBlank ',' = false by decide), skipBlanks_cons (startsValue_cases hc).1,
        hread]
      rfl

theorem readsMembers_succ (hvalues : ReadsValues fuel) (hmembers : ReadsMembers fuel) :
    ReadsMembers (fuel + 1) := by
  intro name value members level outer rest h hfuel
  rw [AreWrittenMembers] at h
  obtain ⟨name, rfl⟩ := Option.isSome_iff_exists.1 h.1
  obtain ⟨c, text, htext, hc⟩ := exists_cons_renderAt h.2.1 level
  have hcolon : ∀ text, skipBlanks (':' :: text) = ':' :: text := skipBlanks_cons (by decide)
  have hspace : ∀ text, skipBlanks (' ' :: (renderAt level value ++ text)) =
      renderAt level value ++ text := by
    intro after
    rw [htext]
    exact (List.dropWhile_cons_of_pos (by decide)).trans (skipBlanks_cons (startsValue_cases hc).1 _)
  match members with
  | [] =>
      simp only [escape, Option.getD_some, List.cons_append, List.append_assoc, List.nil_append,
        renderMembers]
      rw [readMembers?, readText?_escape]
      simp only [Option.bind_eq_bind, Option.bind_some, hcolon, hspace,
        hvalues value level _ h.2.1 (endsNumber_newline outer _) (by omega), skipBlanks_newline,
        skipBlanks_cons (show isBlank '\x7d' = false by decide)]
      rfl
  | (next, other) :: members =>
      rw [renderMembers] at hfuel ⊢
      simp only [List.length_append, List.length_cons] at hfuel
      have hread := hmembers next other members level outer rest h.2.2 (by omega)
      simp only [escape, Option.getD_some, List.cons_append, List.append_assoc, List.nil_append] at hread ⊢
      rw [readMembers?, readText?_escape]
      simp only [Option.bind_eq_bind, Option.bind_some, hcolon, hspace,
        hvalues value level _ h.2.1 (endsNumber_comma _) (by omega), skipBlanks_newline,
        skipBlanks_cons (show isBlank ',' = false by decide),
        skipBlanks_cons (show isBlank '"' = false by decide), hread]
      rfl

/-- Twice the length of what is printed is always enough. -/
theorem reads (fuel : Nat) : ReadsValues fuel ∧ ReadsItems fuel ∧ ReadsMembers fuel := by
  induction fuel with
  | zero =>
      refine ⟨fun value level rest h _ hfuel => ?_, fun _ _ _ _ _ _ hfuel => absurd hfuel (by omega),
        fun _ _ _ _ _ _ _ hfuel => absurd hfuel (by omega)⟩
      obtain ⟨c, text, htext, -⟩ := exists_cons_renderAt h level
      rw [htext, List.length_cons] at hfuel
      omega
  | succ fuel ih =>
      obtain ⟨hvalues, hitems, hmembers⟩ := ih
      exact ⟨readsValues_succ hitems hmembers, readsItems_succ hvalues hitems,
        readsMembers_succ hvalues hmembers⟩

/-- A printed value is read back, whatever follows it. -/
theorem readValue?_renderAt {value : Json} (h : value.IsWritten) (level : Nat) {rest : List Char}
    (hrest : EndsNumber rest) (hfuel : 2 * (renderAt level value).length ≤ fuel) :
    readValue? fuel (renderAt level value ++ rest) = some (value, rest) :=
  (reads fuel).1 value level rest h hrest hfuel

/-- A document is read back. -/
theorem parse_render {value : Json} (h : value.IsWritten) : parse value.render = some value := by
  obtain ⟨c, text, htext, hc⟩ := exists_cons_renderAt h 0
  have hblanks : skipBlanks (renderAt 0 value) = renderAt 0 value := by
    rw [htext]
    exact skipBlanks_cons (startsValue_cases hc).1 text
  have hread : readValue? (2 * (renderAt 0 value).length + 2) (renderAt 0 value ++ []) =
      some (value, []) := readValue?_renderAt h 0 nofun (by omega)
  rw [List.append_nil] at hread
  unfold parse render
  simp only [String.toList_ofList, hblanks, hread, Option.bind_eq_bind, Option.bind_some]
  rfl

end ClauseForest.Json
