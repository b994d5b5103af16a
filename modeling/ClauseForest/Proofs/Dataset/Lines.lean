/-
**The layout of data files**

The same items can be laid out in many ways: with blanks around an item, with a period behind it that may
have blanks around it too, with line feeds or with carriage returns and line feeds, and with lines in
between that hold no item.  None of this makes a difference to what is read, and nothing else is possible:
a text from which given items are read is a layout of them.

An item must not end with a period itself, for the period would be taken for the one behind the item.
What is read from a line that ends with two periods does end with one, so it is no such item.

Main definitions:

* `Text.lines` — the lines of a text, without their ends;
* `itemsOn` — what is read from a line, if anything;
* `IsItem` — what can stand on a line as an item;
* `OnLine`, `LaidOut` — the ways to write items on one line, and on the lines of a text.

Main results:

* `cleanLines_eq_lines` — the ends of lines may be taken for blanks;
* `exists_eq_append_cleanLine` — what is taken away from a line is padding and one period;
* `onLine_iff`, `cleanLines_eq_iff_laidOut` — **exactly the layouts of items are read as these items**.
-/

import ClauseForest.Dataset.Lines
import ClauseForest.Proofs.Text.Trimming

set_option relaxedAutoImplicit false
set_option autoImplicit false

namespace ClauseForest

/-! ### Lines -/

namespace Text

/-- A text without a carriage return at its end. -/
def dropReturn (text : List Char) : List Char :=
  if text.getLast? = some '\r' then text.dropLast else text

/-- The lines between line feeds.  What stands behind the last line feed has no line end, and it is no
line if nothing stands there. -/
def linesOf : List (List Char) → List (List Char)
  | [] => []
  | [last] => if last.isEmpty then [] else [last]
  | piece :: next :: others => dropReturn piece :: linesOf (next :: others)

/-- The lines of a text.  A line ends with a line feed, and a carriage return right before the line feed
belongs to the end of the line. -/
def lines (text : List Char) : List (List Char) := linesOf (pieces '\n' text)

end Text

/-! ### Items of lines -/

/-- The item on a line, if there is one. -/
def itemsOn (line : List Char) : List String :=
  if (cleanLine line).isEmpty then [] else [String.ofList (cleanLine line)]

theorem map_filter_map_cleanLine (lines : List (List Char)) :
    ((lines.map cleanLine).filter fun line => !line.isEmpty).map String.ofList =
      lines.flatMap itemsOn := by
  induction lines with
  | nil => rfl
  | cons line lines ih =>
      rw [List.map_cons, List.filter_cons, List.flatMap_cons, itemsOn, ← ih]
      cases (cleanLine line).isEmpty <;> rfl

theorem cleanLines_eq_flatMap (text : String) :
    cleanLines text = (Text.pieces '\n' text.toList).flatMap itemsOn := map_filter_map_cleanLine _

theorem isBlank_period : Text.isBlank '.' = false := by decide

theorem isBlank_of_mem_return : ∀ c ∈ ['\r'], Text.isBlank c = true :=
  List.forall_mem_singleton.2 (by decide)

/-- Blanks at the end of a line make no difference. -/
theorem cleanLine_append_of_isBlank (line : List Char) {pad : List Char}
    (h : ∀ c ∈ pad, Text.isBlank c = true) : cleanLine (line ++ pad) = cleanLine line := by
  rw [cleanLine, Text.trim_append_of_isBlank line h, cleanLine]

theorem cleanLine_dropReturn (line : List Char) :
    cleanLine (Text.dropReturn line) = cleanLine line := by
  unfold Text.dropReturn
  split
  · rename_i hreturn
    obtain ⟨init, rfl⟩ := List.getLast?_eq_some_iff.1 hreturn
    rw [List.dropLast_concat]
    exact (cleanLine_append_of_isBlank init isBlank_of_mem_return).symm
  · rfl

theorem flatMap_itemsOn_linesOf (pieces : List (List Char)) :
    (Text.linesOf pieces).flatMap itemsOn = pieces.flatMap itemsOn := by
  fun_induction Text.linesOf pieces with
  | case1 => rfl
  | case2 last hempty =>
      rw [List.isEmpty_iff.1 hempty]
      rfl
  | case3 => rfl
  | case4 piece next others ih =>
      have hpiece : itemsOn (Text.dropReturn piece) = itemsOn piece := by
        rw [itemsOn, cleanLine_dropReturn, itemsOn]
      rw [List.flatMap_cons, ih, hpiece]
      rfl

/-- The ends of lines may be taken for blanks: no carriage return and no empty last line is left. -/
theorem cleanLines_eq_lines (text : String) : cleanLines text =
    (((Text.lines text.toList).map cleanLine).filter fun line => !line.isEmpty).map String.ofList := by
  rw [cleanLines_eq_flatMap, map_filter_map_cleanLine, Text.lines, flatMap_itemsOn_linesOf]

/-! ### Layouts -/

/-- Blanks on one line. -/
def IsPadding (text : List Char) : Prop := ∀ c ∈ text, Text.isBlank c = true ∧ c ≠ '\n'

/-- What may stand behind an item: blanks, and perhaps one period among them. -/
inductive IsTrailer : List Char → Prop where
  | blank {pad : List Char} (h : IsPadding pad) : IsTrailer pad
  | period {before after : List Char} (hbefore : IsPadding before) (hafter : IsPadding after) :
      IsTrailer (before ++ '.' :: after)

/-- A text that can stand on a line as an item. -/
structure IsItem (item : String) : Prop where
  ne_empty : item ≠ ""
  not_mem : '\n' ∉ item.toList
  /-- It does not start with a blank. -/
  start : ∀ c ∈ item.toList.head?, Text.isBlank c = false
  /-- It ends neither with a blank nor with a period. -/
  stop : ∀ c ∈ item.toList.getLast?, Text.isBlank c = false ∧ c ≠ '.'

instance (text : List Char) : Decidable (IsPadding text) :=
  decidable_of_iff (text.all fun c => Text.isBlank c && c != '\n') (by simp [IsPadding])

instance (item : String) : Decidable (IsItem item) :=
  decidable_of_iff (item ≠ "" ∧ '\n' ∉ item.toList ∧
      (item.toList.head?.all fun c => !Text.isBlank c) ∧
      item.toList.getLast?.all fun c => !Text.isBlank c && c != '.') <| by
    simp only [Option.all_eq_true, Bool.and_eq_true, Bool.not_eq_true', bne_iff_ne]
    exact ⟨fun h => ⟨h.1, h.2.1, h.2.2.1, h.2.2.2⟩, fun h => ⟨h.ne_empty, h.not_mem, h.start, h.stop⟩⟩

/-- The ways to write one item, or none, on a line. -/
inductive OnLine : List String → List Char → Prop where
  | item {item : String} {before after : List Char} (hbefore : IsPadding before)
      (hafter : IsTrailer after) : OnLine [item] (before ++ item.toList ++ after)
  | nothing {line : List Char} (h : IsTrailer line) : OnLine [] line

/-- The ways to write items on the lines of a text, in order.  The last line needs no end. -/
inductive LaidOut : List String → List Char → Prop where
  | last {items : List String} {line : List Char} (h : OnLine items line) : LaidOut items line
  | cons {items others : List String} {line lineEnd rest : List Char} (h : OnLine items line)
      (hend : lineEnd = ['\n'] ∨ lineEnd = ['\r', '\n']) (hrest : LaidOut others rest) :
      LaidOut (items ++ others) (line ++ lineEnd ++ rest)

/-! ### One line -/

theorem IsItem.toList_ne_nil {item : String} (h : IsItem item) : item.toList ≠ [] :=
  fun hnil => h.ne_empty (String.toList_eq_nil_iff.1 hnil)

theorem IsPadding.not_mem {pad : List Char} (h : IsPadding pad) : '\n' ∉ pad :=
  fun hmem => (h _ hmem).2 rfl

theorem IsPadding.isBlank {pad : List Char} (h : IsPadding pad) :
    ∀ c ∈ pad, Text.isBlank c = true := fun c hc => (h c hc).1

theorem IsPadding.append {pad pad' : List Char} (h : IsPadding pad) (h' : IsPadding pad') :
    IsPadding (pad ++ pad') := fun c hc => (List.mem_append.1 hc).elim (h c) (h' c)

theorem isPadding_of_isBlank {pad : List Char} (h : ∀ c ∈ pad, Text.isBlank c = true)
    (hline : '\n' ∉ pad) : IsPadding pad := by
  intro c hc
  refine ⟨h c hc, ?_⟩
  rintro rfl
  exact hline hc

theorem IsTrailer.not_mem {trailer : List Char} (h : IsTrailer trailer) : '\n' ∉ trailer := by
  cases h with
  | blank h => exact h.not_mem
  | period hbefore hafter => simp [hbefore.not_mem, hafter.not_mem]

/-- Blanks before a trailer belong to it. -/
theorem IsTrailer.append {pad trailer : List Char} (hpad : IsPadding pad) (h : IsTrailer trailer) :
    IsTrailer (pad ++ trailer) := by
  cases h with
  | blank h => exact .blank (hpad.append h)
  | period hbefore hafter =>
      rw [← List.append_assoc]
      exact .period (hpad.append hbefore) hafter

theorem OnLine.not_mem {items : List String} {line : List Char} (h : OnLine items line)
    (hitems : ∀ item ∈ items, IsItem item) : '\n' ∉ line := by
  cases h with
  | @item item before after hbefore hafter =>
      have hitem := hitems item (by simp)
      simp [hbefore.not_mem, hitem.not_mem, hafter.not_mem]
  | nothing h => exact h.not_mem

theorem exists_eq_dropPeriod_append (text : List Char) :
    ∃ period, text = dropPeriod text ++ period ∧ (period = [] ∨ period = ['.']) := by
  unfold dropPeriod
  split
  · rename_i hperiod
    obtain ⟨init, rfl⟩ := List.getLast?_eq_some_iff.1 hperiod
    exact ⟨['.'], by rw [List.dropLast_concat], .inr rfl⟩
  · exact ⟨[], (List.append_nil text).symm, .inl rfl⟩

/-- What is taken away from a line is padding and one period. -/
theorem exists_eq_append_cleanLine {line : List Char} (hline : '\n' ∉ line) : ∃ before trailer,
    line = before ++ cleanLine line ++ trailer ∧ IsPadding before ∧ IsTrailer trailer := by
  obtain ⟨before, after, htrim, hbefore, hafter⟩ := Text.exists_eq_append_trim line
  obtain ⟨period, hdrop, hperiod⟩ := exists_eq_dropPeriod_append (Text.trim line)
  obtain ⟨pad, hclean, hpad⟩ := Text.exists_eq_trimEnd_append (dropPeriod (Text.trim line))
  have hsplit : line = before ++ cleanLine line ++ (pad ++ (period ++ after)) := by
    calc
      line = before ++ (dropPeriod (Text.trim line) ++ period) ++ after := by rw [← hdrop, ← htrim]
      _ = before ++ (cleanLine line ++ pad ++ period) ++ after := by rw [cleanLine, ← hclean]
      _ = before ++ cleanLine line ++ (pad ++ (period ++ after)) := by simp only [List.append_assoc]
  have hparts : '\n' ∉ before ∧ '\n' ∉ pad ∧ '\n' ∉ after := by
    rw [hsplit] at hline
    simp only [List.mem_append, not_or] at hline
    exact ⟨hline.1.1, hline.2.1, hline.2.2.2⟩
  have hbefore := isPadding_of_isBlank hbefore hparts.1
  have hpad := isPadding_of_isBlank hpad hparts.2.1
  have hafter := isPadding_of_isBlank hafter hparts.2.2
  refine ⟨before, _, hsplit, hbefore, ?_⟩
  rcases hperiod with rfl | rfl
  · exact .append hpad (.blank hafter)
  · exact .period hpad hafter

/-- A line without an item is read as none. -/
theorem IsTrailer.cleanLine_eq_nil {line : List Char} (h : IsTrailer line) : cleanLine line = [] := by
  cases h with
  | blank h =>
      have htrim : Text.trim (line ++ [] ++ []) = [] :=
        Text.trim_append_append h.isBlank (by simp) (by simp) (by simp)
      rw [List.append_nil, List.append_nil] at htrim
      rw [cleanLine, htrim]
      rfl
  | @period before after hbefore hafter =>
      have htrim : Text.trim (before ++ ['.'] ++ after) = ['.'] :=
        Text.trim_append_append hbefore.isBlank hafter.isBlank (by simp [isBlank_period])
          (by simp [isBlank_period])
      rw [List.append_assoc, List.singleton_append] at htrim
      rw [cleanLine, htrim]
      rfl

/-- An item on a line is read. -/
theorem IsItem.cleanLine_append {item : String} (hitem : IsItem item) {before trailer : List Char}
    (hbefore : IsPadding before) (htrailer : IsTrailer trailer) :
    cleanLine (before ++ item.toList ++ trailer) = item.toList := by
  have hstop : ∀ c ∈ item.toList.getLast?, Text.isBlank c = false := fun c hc => (hitem.stop c hc).1
  have hperiod : item.toList.getLast? ≠ some '.' := fun h => (hitem.stop '.' h).2 rfl
  cases htrailer with
  | blank hpad =>
      rw [cleanLine, Text.trim_append_append hbefore.isBlank hpad.isBlank hitem.start hstop,
        dropPeriod, if_neg hperiod, Text.trimEnd_of_getLast? hstop]
  | @period pad after hpad hafter =>
      have hstart : ∀ c ∈ (item.toList ++ pad ++ ['.']).head?, Text.isBlank c = false := by
        rw [List.append_assoc, List.head?_append_of_ne_nil _ hitem.toList_ne_nil]
        exact hitem.start
      have htrim := Text.trim_append_append hbefore.isBlank hafter.isBlank hstart
        (by simp [isBlank_period])
      have hline : before ++ item.toList ++ (pad ++ '.' :: after) =
          before ++ (item.toList ++ pad ++ ['.']) ++ after := by
        simp only [List.append_assoc, List.singleton_append]
      rw [hline, cleanLine, htrim, dropPeriod, if_pos List.getLast?_concat, List.dropLast_concat,
        Text.trimEnd_append_of_isBlank _ hpad.isBlank, Text.trimEnd_of_getLast? hstop]

theorem itemsOn_eq_nil_iff {line : List Char} : itemsOn line = [] ↔ cleanLine line = [] := by
  unfold itemsOn
  split <;> simp_all

theorem itemsOn_eq_singleton_iff {line : List Char} {item : String} (hitem : IsItem item) :
    itemsOn line = [item] ↔ cleanLine line = item.toList := by
  unfold itemsOn
  split
  · rename_i hempty
    rw [List.isEmpty_iff.1 hempty]
    simp [hitem.toList_ne_nil.symm]
  · rw [List.cons.injEq, and_iff_left rfl]
    constructor
    · rintro rfl
      rw [String.toList_ofList]
    · intro hclean
      rw [hclean, String.ofList_toList]

/-- What is read from a line are the items that are written on it. -/
theorem OnLine.itemsOn_eq {items : List String} {line : List Char} (h : OnLine items line)
    (hitems : ∀ item ∈ items, IsItem item) : itemsOn line = items := by
  cases h with
  | @item item before after hbefore hafter =>
      have hitem := hitems item (by simp)
      exact (itemsOn_eq_singleton_iff hitem).2 (hitem.cleanLine_append hbefore hafter)
  | nothing h => exact itemsOn_eq_nil_iff.2 h.cleanLine_eq_nil

/-- Every line is a way to write the item that is read from it. -/
theorem onLine_itemsOn {line : List Char} (hline : '\n' ∉ line) : OnLine (itemsOn line) line := by
  obtain ⟨before, trailer, hsplit, hbefore, htrailer⟩ := exists_eq_append_cleanLine hline
  unfold itemsOn
  split
  · rename_i hempty
    rw [List.isEmpty_iff.1 hempty, List.append_nil] at hsplit
    rw [hsplit]
    exact .nothing (.append hbefore htrailer)
  · have honLine : OnLine [String.ofList (cleanLine line)]
        (before ++ (String.ofList (cleanLine line)).toList ++ trailer) := .item hbefore htrailer
    rwa [String.toList_ofList, ← hsplit] at honLine

/-! ### All lines -/

/-- The end of a line is read as part of the line, and makes no difference to its items. -/
theorem flatMap_itemsOn_pieces {line lineEnd : List Char} (hline : '\n' ∉ line)
    (hend : lineEnd = ['\n'] ∨ lineEnd = ['\r', '\n']) (rest : List Char) :
    (Text.pieces '\n' (line ++ lineEnd ++ rest)).flatMap itemsOn =
      itemsOn line ++ (Text.pieces '\n' rest).flatMap itemsOn := by
  rcases hend with rfl | rfl
  · rw [List.append_assoc, List.singleton_append, Text.pieces_append_cons hline, List.flatMap_cons]
  · have hreturn : '\n' ∉ line ++ ['\r'] := by simp [hline]
    have hitems : itemsOn (line ++ ['\r']) = itemsOn line := by
      rw [itemsOn, cleanLine_append_of_isBlank line isBlank_of_mem_return, itemsOn]
    have htext : line ++ ['\r', '\n'] ++ rest = (line ++ ['\r']) ++ '\n' :: rest := by simp
    rw [htext, Text.pieces_append_cons hreturn, List.flatMap_cons, hitems]

/-- What is read from a text are the items that are laid out in it. -/
theorem LaidOut.flatMap_itemsOn_eq {items : List String} {text : List Char} (h : LaidOut items text)
    (hitems : ∀ item ∈ items, IsItem item) :
    (Text.pieces '\n' text).flatMap itemsOn = items := by
  induction h with
  | last h =>
      rw [Text.pieces_of_not_mem (h.not_mem hitems), List.flatMap_singleton, h.itemsOn_eq hitems]
  | cons h hend _ ih =>
      have hfirst := fun item hitem => hitems item (List.mem_append_left _ hitem)
      have hothers := fun item hitem => hitems item (List.mem_append_right _ hitem)
      rw [flatMap_itemsOn_pieces (h.not_mem hfirst) hend, h.itemsOn_eq hfirst, ih hothers]

/-- Lines with line feeds between them are a layout of the items that are read from them. -/
theorem laidOut_joinWith {lines : List (List Char)} (hne : lines ≠ [])
    (hlines : ∀ line ∈ lines, '\n' ∉ line) :
    LaidOut (lines.flatMap itemsOn) (Text.joinWith '\n' lines) := by
  induction lines with
  | nil => exact absurd rfl hne
  | cons line others ih =>
      have hline := onLine_itemsOn (hlines line (by simp))
      cases others with
      | nil =>
          rw [List.flatMap_singleton]
          exact .last hline
      | cons next others =>
          have hothers := ih (by simp) fun line h => hlines line (List.mem_cons_of_mem _ h)
          have hcons := LaidOut.cons hline (.inl rfl) hothers
          rw [List.append_assoc, List.singleton_append] at hcons
          exact hcons

/-- Every text is a layout of what is read from it. -/
theorem laidOut_cleanLines (text : String) : LaidOut (cleanLines text) text.toList := by
  have hlaid := laidOut_joinWith (Text.pieces_ne_nil '\n' text.toList) fun _ => Text.not_mem_of_mem_pieces
  rwa [Text.joinWith_pieces, ← cleanLines_eq_flatMap] at hlaid

/-- **Exactly the layouts of items are read as these items.**  For items that neither start nor end with
blanks, hold no line feed and do not end with a period, a text is read as these items if and only if it is
a layout of them: it writes them in order on lines that end with a line feed, or with a carriage return and
a line feed, the last line perhaps without an end, each with blanks around it and perhaps one period behind
it, among any number of lines that hold nothing but blanks and perhaps one period.  What is read is read
line by line, in the given sense of a line. -/
theorem cleanLines_eq_iff_laidOut {items : List String} (hitems : ∀ item ∈ items, IsItem item)
    (text : String) :
    (cleanLines text = items ↔ LaidOut items text.toList) ∧
      cleanLines text = (((Text.lines text.toList).map cleanLine).filter fun line =>
        !line.isEmpty).map String.ofList := by
  refine ⟨⟨?_, fun h => ?_⟩, cleanLines_eq_lines text⟩
  · rintro rfl
    exact laidOut_cleanLines text
  · rw [cleanLines_eq_flatMap, h.flatMap_itemsOn_eq hitems]

/-- Two facts among blanks and periods: the first line ends with a carriage return and a line feed, the
second holds only a period, the third nothing, and the last has no end. -/
theorem cleanLines_eq_iff_laidOut_smokes :
    (∀ item ∈ ["smokes(bob)", "friends(ann,bob)"], IsItem item) ∧
      LaidOut ["smokes(bob)", "friends(ann,bob)"]
        "  smokes(bob) .\t\r\n . \n\n\tfriends(ann,bob).".toList ∧
      cleanLines "  smokes(bob) .\t\r\n . \n\n\tfriends(ann,bob)." =
        ["smokes(bob)", "friends(ann,bob)"] := by
  have hitems : ∀ item ∈ ["smokes(bob)", "friends(ann,bob)"], IsItem item := by decide
  have hfirst : OnLine ["smokes(bob)"] ([' ', ' '] ++ "smokes(bob)".toList ++ ([' '] ++ ['.', '\t'])) :=
    .item (by decide) (.period (by decide) (by decide))
  have hsecond : OnLine [] ([' '] ++ ['.', ' ']) := .nothing (.period (by decide) (by decide))
  have hthird : OnLine [] [] := .nothing (.blank (by decide))
  have hlast : OnLine ["friends(ann,bob)"] (['\t'] ++ "friends(ann,bob)".toList ++ ([] ++ ['.'])) :=
    .item (by decide) (.period (by decide) (by decide))
  have hlaid := LaidOut.cons hfirst (.inr rfl)
    (.cons hsecond (.inl rfl) (.cons hthird (.inl rfl) (.last hlast)))
  exact ⟨hitems, hlaid, (cleanLines_eq_iff_laidOut hitems _).1.2 hlaid⟩

-- of two periods at the end of a line one is kept, so what is read is no item
example : cleanLines "smokes(bob)..\n" = ["smokes(bob)."] := by decide

end ClauseForest
