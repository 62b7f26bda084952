import Exonym.Proofs.Json.Scanning
import Mathlib.Data.List.Forall2

/-!
# Values and the texts of them

Whatever the layout, the text of a value is read as the value, if its numbers fit 64 bits and its containers are not
nested too deep for a reader. Only numbers depend on what follows them: they end where no digit, no point and no
exponent comes next, and in a written text that is always so.

Main statements:

* `Numeral.exists_scan_toString`: a whole number is read as it was written.
* `Scan.text_quote`: so is a text, whatever characters are in it.
* `Scan.tree_render`: a value is read from the front of its text.
* `Tree.read?_render`: the text of a value gives the value.
-/

namespace Exonym

open Json (Layout)

/-- What follows a number does not go on with it. -/
def EndsNumber : List Char → Prop
  | [] => True
  | c :: _ => c.isDigit = false ∧ c ∉ ['.', 'e', 'E']

/-! ## Numbers -/

namespace Numeral

variable {digits rest : List Char} {n : Nat}

theorem takeWhile_isDigit_eq_nil (hrest : EndsNumber rest) : rest.takeWhile Char.isDigit = [] := by
  cases rest with
  | nil => rfl
  | cons c rest => exact List.takeWhile_cons_of_neg (by simp [hrest.1])

theorem someDigits_append (hd : Digits.Written digits n) (hrest : EndsNumber rest) :
    someDigits (digits ++ rest) = .ok (digits, rest) := by
  have hnil := takeWhile_isDigit_eq_nil hrest
  have hall := List.takeWhile_append_dropWhile (p := Char.isDigit) (l := rest)
  rw [hnil, List.nil_append] at hall
  obtain ⟨c, tail, rfl⟩ := List.exists_cons_of_ne_nil hd.ne_nil
  rw [someDigits, List.span_eq_takeWhile_dropWhile, List.takeWhile_append_of_pos hd.isDigit,
    List.dropWhile_append_of_pos hd.isDigit, hnil, hall, List.append_nil]

theorem wholePart_append (hd : Digits.Written digits n) (hrest : EndsNumber rest) :
    wholePart (digits ++ rest) = .ok (digits, rest) := by
  simp only [wholePart, someDigits_append hd hrest, bind, Except.bind]
  split
  · rename_i heq
    cases heq
    cases hd.zero rfl
  · rfl

theorem fractionPart_of_endsNumber (hrest : EndsNumber rest) : fractionPart rest = .ok (none, rest) := by
  unfold fractionPart
  split
  · simp [EndsNumber] at hrest
  · rfl

theorem exponentPart_of_endsNumber (hrest : EndsNumber rest) : exponentPart rest = .ok (none, rest) := by
  unfold exponentPart
  split
  · simp [EndsNumber] at hrest
  · simp [EndsNumber] at hrest
  · rfl

/-- Digits are no sign, so that a number without one is read from its first digit on. -/
theorem scan_unsigned (hd : Digits.Written digits n) (hrest : EndsNumber rest) :
    scan (digits ++ rest) = .ok (⟨false, digits, none, none⟩, rest) := by
  have hwhole := wholePart_append hd hrest
  unfold scan
  split
  rename_i negative unsigned hsign
  split at hsign
  · rename_i tail hminus
    obtain ⟨c, tail, rfl⟩ := List.exists_cons_of_ne_nil hd.ne_nil
    cases hminus
    exact absurd (hd.isDigit '-' List.mem_cons_self) (by decide)
  · cases hsign
    simp only [hwhole, fractionPart_of_endsNumber hrest, exponentPart_of_endsNumber hrest, bind, Except.bind]
    rfl

theorem scan_negative (hd : Digits.Written digits n) (hrest : EndsNumber rest) :
    scan ('-' :: (digits ++ rest)) = .ok (⟨true, digits, none, none⟩, rest) := by
  simp only [scan, wholePart_append hd hrest, fractionPart_of_endsNumber hrest, exponentPart_of_endsNumber hrest, bind,
    Except.bind]
  rfl

theorem value?_negative (hd : Digits.Written digits n) (hpos : 0 < n) (hn : n ≤ .pow 2 63) :
    value? ⟨true, digits, none, none⟩ = some (.int (-n)) := by
  unfold value?
  rw [if_neg (by simp), if_pos (by simpa [hd.number] using ⟨hpos, hn⟩), hd.number]

theorem toList_toString_negSucc (n : Nat) : (toString (Int.negSucc n)).toList = '-' :: (toString (n + 1)).toList :=
  String.toList_append (s := "-") (t := toString (n + 1))

/-- A number starts with a sign or with a digit. -/
theorem exists_toString_eq_cons (n : Int) :
    ∃ c tail, (toString n).toList = c :: tail ∧ (c = '-' || c.isDigit) = true := by
  cases n with
  | ofNat n =>
    have hd : Digits.Written (toString (Int.ofNat n)).toList n := Digits.written_toString n
    obtain ⟨c, tail, htext⟩ := List.exists_cons_of_ne_nil hd.ne_nil
    have hc := hd.isDigit c (htext ▸ List.mem_cons_self)
    exact ⟨c, tail, htext, by rw [hc, Bool.or_true]⟩
  | negSucc n => exact ⟨'-', _, toList_toString_negSucc n, rfl⟩

/-- A whole number of 64 bits is read as it was written. -/
theorem exists_scan_toString {n : Int} (hleast : -.pow 2 63 ≤ n) (hmost : n < .pow 2 64) (hrest : EndsNumber rest) :
    ∃ numeral, scan ((toString n).toList ++ rest) = .ok (numeral, rest) ∧ numeral.value? = some (.int n) := by
  cases n with
  | ofNat n =>
    have hd : Digits.Written (toString (Int.ofNat n)).toList n := Digits.written_toString n
    refine ⟨_, scan_unsigned hd hrest, ?_⟩
    rw [value?_ofNat (by rw [hd.number]; exact Int.ofNat_lt.1 hmost), hd.number]
    rfl
  | negSucc n =>
    have hd := Digits.written_toString (n + 1)
    have hlimit : Int.pow 2 63 = 9223372036854775808 ∧ Nat.pow 2 63 = 9223372036854775808 := ⟨rfl, rfl⟩
    have hvalue := value?_negative hd (by omega) (by omega)
    rw [toList_toString_negSucc]
    exact ⟨_, scan_negative hd hrest, hvalue⟩

end Numeral

/-! ## Texts -/

namespace Scan

/-- The ways in which a character can be written. -/
inductive Escaped (c : Char) : List Char → Prop
  | short {e : Char} (h : shortEscape? e = some c) : Escaped c ['\\', e]
  | number (h : c.toNat < 32) :
    Escaped c ['\\', 'u', '0', '0', Json.hexDigit (c.toNat / 16), Json.hexDigit (c.toNat % 16)]
  | plain (h : 32 ≤ c.toNat ∧ c ≠ '"' ∧ c ≠ '\\') : Escaped c [c]

theorem escaped_escape (c : Char) : Escaped c (Json.escape c) := by
  unfold Json.escape
  split
  · exact .short (by simp_all [shortEscape?])
  split
  · exact .short (by simp_all [shortEscape?])
  split
  · exact .short (by simp_all [shortEscape?])
  split
  · exact .short (by simp_all [shortEscape?])
  split
  · exact .short (by simp_all [shortEscape?])
  split
  · exact .short (congrArg some (Char.toNat_inj.1 (by simp_all)))
  split
  · exact .short (congrArg some (Char.toNat_inj.1 (by simp_all)))
  split
  · exact .number ‹_›
  · exact .plain ⟨by omega, ‹_›, ‹_›⟩

/-- A control character is read by its number, which is no half of a surrogate pair. -/
theorem hexNumber?_hexDigits {c : Char} (h : c.toNat < 32) :
    Digits.hexNumber? ['0', '0', Json.hexDigit (c.toNat / 16), Json.hexDigit (c.toNat % 16)] = some c.toNat := by
  have hall : ∀ n < 32, Digits.hexNumber? ['0', '0', Json.hexDigit (n / 16), Json.hexDigit (n % 16)] = some n := by
    decide
  exact hall _ h

theorem textFrom_escaped {c : Char} {cs : List Char} (h : Escaped c cs) (read rest : List Char) :
    textFrom true none read (cs ++ rest) = textFrom true none (c :: read) rest := by
  cases h with
  | @short e h =>
    have he : e ≠ 'u' := by
      rintro rfl
      cases h
    rw [List.cons_append, List.cons_append, List.nil_append, textFrom.eq_def]
    split
    -- only the last equation is for a backslash that no code unit follows
    case h_5 _ _ heq =>
      cases heq
      simp [h]
    all_goals simp_all
  | number h =>
    have hhigh : isHighSurrogate c.toNat = false := by simp [isHighSurrogate]; omega
    have hlow : isLowSurrogate c.toNat = false := by simp [isLowSurrogate]; omega
    simp only [List.cons_append, List.nil_append]
    rw [textFrom.eq_def]
    simp [hexNumber?_hexDigits h, hhigh, hlow]
  | plain h => exact textFrom_plain h read rest

theorem textFrom_flatMap_escape (cs read rest : List Char) :
    textFrom true none read (cs.flatMap Json.escape ++ '"' :: rest) = .ok (.ofList (read.reverse ++ cs), rest) := by
  induction cs generalizing read with
  | nil =>
    rw [List.flatMap_nil, List.nil_append, List.append_nil, textFrom.eq_def]
    simp
  | cons c cs ih =>
    rw [List.flatMap_cons, List.append_assoc, textFrom_escaped (escaped_escape c), ih]
    simp

/-- A text is read as it was written, whatever characters are in it. -/
theorem text_quote (s : String) (rest : List Char) : text ((Json.quote s).toList ++ rest) = .ok (s, rest) := by
  refine text_eq_ok_iff.2 ⟨s.toList.flatMap Json.escape ++ '"' :: rest, ?_, ?_⟩
  · simp [Json.quote, isBlank]
  · rw [textFrom_flatMap_escape]
    simp

/-! ## Containers -/

variable {α : Type} {bound : Nat} {rest : List Char}

/-- Wherever a number may end, the item is read from its text, if what there is to read is shorter than the bound. -/
def ReadAs (bound : Nat) (item : Scan α) (text : String) (a : α) : Prop :=
  ∀ rest, EndsNumber rest → (text.toList ++ rest).length < bound → item (text.toList ++ rest) = .ok (a, rest)

/-- Items may have blanks before them, and never begin like the end of a container. -/
structure Separable (item : Scan α) : Prop where
  passes : PassesBlanks item
  starts {s rest : List Char} {a : α} (h : item s = .ok (a, rest)) :
    ∃ c tail, s.dropWhile isBlank = c :: tail ∧ ∀ b : Bracket, c ≠ b.closing

theorem separable_tree (bound depth : Nat) : Separable (tree bound depth) where
  passes := tree_passesBlanks bound depth
  starts h := by
    obtain hplain | ⟨_, tail, _, ⟨_, _, hs, _⟩ | ⟨_, _, hs, _⟩⟩ := tree_cases h
    · cases hplain with
      | text hs | null hs | yes hs | no hs => exact ⟨_, _, hs, by rintro (_ | _) <;> decide⟩
      | number hs hc => exact ⟨_, _, hs, by rintro (_ | _) rfl <;> revert hc <;> decide⟩
    · exact ⟨_, _, hs, by rintro (_ | _) <;> decide⟩
    · exact ⟨_, _, hs, by rintro (_ | _) <;> decide⟩

theorem separable_keyed (value : Scan α) : Separable (keyed value) where
  passes := text_passesBlanks.bind _
  starts h := by
    obtain ⟨_, _, htext, -⟩ := keyed_eq_ok_iff.1 h
    obtain ⟨tail, hs, -⟩ := text_eq_ok_iff.1 htext
    exact ⟨_, _, hs, by rintro (_ | _) <;> decide⟩

theorem endsNumber_closing (b : Bracket) (rest : List Char) : EndsNumber (b.closing :: rest) := by
  cases b <;> exact ⟨by decide, by decide⟩

theorem endsNumber_blanks {blanks : List Char} (hblanks : ∀ c ∈ blanks, isBlank c = true) (hrest : EndsNumber rest) :
    EndsNumber (blanks ++ rest) := by
  cases blanks with
  | nil => exact hrest
  | cons c blanks =>
    have hc : ((c = ' ' ∨ c = '\n') ∨ c = '\t') ∨ c = '\r' := by simpa [isBlank] using hblanks c List.mem_cons_self
    rcases hc with ((rfl | rfl) | rfl) | rfl <;> exact ⟨by decide, by decide⟩

/-- Texts with commas before them, and the closing bracket. -/
def laterText (gap before : List Char) (b : Bracket) (texts : List String) (rest : List Char) : List Char :=
  texts.flatMap (fun x => ',' :: (gap ++ x.toList)) ++ (before ++ b.closing :: rest)

section Later

variable {gap before : List Char} {b : Bracket} {item : Scan α} {texts : List String} {as : List α}

theorem endsNumber_laterText (hbefore : ∀ c ∈ before, isBlank c = true) :
    EndsNumber (laterText gap before b texts rest) := by
  cases texts with
  | nil =>
    rw [laterText, List.flatMap_nil, List.nil_append]
    exact endsNumber_blanks hbefore (endsNumber_closing b rest)
  | cons x texts => exact ⟨by decide, by decide⟩

/-- The texts of items with commas between them are a run of the items. -/
theorem run_laterText (hitem : Separable item) (hgap : ∀ c ∈ gap, isBlank c = true)
    (hbefore : ∀ c ∈ before, isBlank c = true) (h : List.Forall₂ (ReadAs bound item) texts as)
    (hbound : (laterText gap before b texts rest).length < bound) :
    Run b.closing item false (laterText gap before b texts rest) as rest := by
  induction h with
  | nil =>
    refine .close ?_
    rw [laterText, List.flatMap_nil, List.nil_append, List.dropWhile_append_of_pos hbefore]
    cases b <;> rfl
  | @cons x a texts as hx _ ih =>
    have hsplit : laterText gap before b (x :: texts) rest =
        ',' :: (gap ++ (x.toList ++ laterText gap before b texts rest)) := by
      simp [laterText]
    rw [hsplit, List.length_cons, List.length_append, List.length_append] at hbound
    rw [hsplit]
    -- what is left after an item is shorter, so the bound is good for it too
    refine .next (goesOn_later_iff.2 ⟨rfl, ?_⟩) ?_ (ih (by omega))
    · cases b <;> decide
    · rw [hitem.passes.append hgap]
      exact hx _ (endsNumber_laterText hbefore) (by rw [List.length_append]; omega)

end Later

/-! ## Layouts -/

theorem isBlank_of_mem_lineBreak (l : Layout) (depth : Nat) : ∀ c ∈ (l.lineBreak depth).toList, isBlank c = true := by
  cases l with
  | compact => simp [Layout.lineBreak]
  | indented =>
    intro c hc
    have hc : c = '\n' ∨ ¬2 * depth = 0 ∧ c = ' ' := by simpa [Layout.lineBreak, String.toList_append] using hc
    rcases hc with rfl | ⟨-, rfl⟩ <;> rfl

theorem intercalate_cons (sep first : List Char) (texts : List (List Char)) :
    sep.intercalate (first :: texts) = first ++ texts.flatMap (sep ++ ·) := by
  induction texts generalizing first with
  | nil => simp
  | cons x texts ih => rw [List.intercalate_cons_cons, ih, List.flatMap_cons, List.append_assoc, List.append_assoc]

theorem toList_enclose_cons (l : Layout) (depth : Nat) (opening closing first : String) (texts : List String) :
    (l.enclose depth opening closing (first :: texts)).toList =
      opening.toList ++ ((l.lineBreak (depth + 1)).toList ++ (first.toList ++
        (texts.flatMap (fun x => ',' :: ((l.lineBreak (depth + 1)).toList ++ x.toList)) ++
          ((l.lineBreak depth).toList ++ closing.toList)))) := by
  unfold Layout.enclose
  rw [if_neg (by simp)]
  simp [String.toList_append, intercalate_cons, List.flatMap_map]

/-- Items that are laid out in a container are a run of the items. -/
theorem exists_run_enclose {b : Bracket} {item : Scan α} (hitem : Separable item) {texts : List String} {as : List α}
    (h : List.Forall₂ (ReadAs bound item) texts as) (l : Layout) (depth : Nat) {opening closing : String}
    (hclosing : closing.toList = [b.closing])
    (hbound : ((l.enclose depth opening closing texts).toList ++ rest).length < bound) :
    ∃ tail, (l.enclose depth opening closing texts).toList ++ rest = opening.toList ++ tail ∧
      Run b.closing item true tail as rest := by
  cases h with
  | nil =>
    refine ⟨b.closing :: rest, ?_, .close (by cases b <;> rfl)⟩
    simp [Layout.enclose, String.toList_append, hclosing]
  | @cons first a texts as hfirst hlater =>
    have hsplit : (l.enclose depth opening closing (first :: texts)).toList ++ rest =
        opening.toList ++ ((l.lineBreak (depth + 1)).toList ++ (first.toList ++
          laterText (l.lineBreak (depth + 1)).toList (l.lineBreak depth).toList b texts rest)) := by
      rw [toList_enclose_cons, hclosing]
      simp [laterText]
    generalize hlaterText : laterText (l.lineBreak (depth + 1)).toList (l.lineBreak depth).toList b texts rest = later
      at hsplit
    rw [hsplit, List.length_append, List.length_append] at hbound
    have hends : EndsNumber later := hlaterText ▸ endsNumber_laterText (isBlank_of_mem_lineBreak l depth)
    have hhead := hfirst _ hends (by omega)
    -- the look ahead for the closing bracket takes the blanks before the first item
    obtain ⟨c, tail, hstart, hc⟩ := hitem.starts hhead
    have hfirst : item (c :: tail) = .ok (a, later) := by rw [← hstart, hitem.passes, hhead]
    have hrun : Run b.closing item false later as rest := by
      rw [List.length_append] at hbound
      subst hlaterText
      exact run_laterText hitem (isBlank_of_mem_lineBreak l _) (isBlank_of_mem_lineBreak l _) hlater (by omega)
    refine ⟨_, hsplit, .next (goesOn_first_iff.2 ⟨c, tail, rfl, ?_, hc b⟩) hfirst hrun⟩
    rw [List.dropWhile_append_of_pos (isBlank_of_mem_lineBreak l (depth + 1)), hstart]

/-! ## Values -/

theorem readAs_keyed {value : Scan α} (hvalue : PassesBlanks value) (l : Layout) (key : String) {x : String} {a : α}
    (h : ReadAs bound value x a) : ReadAs bound (keyed value) (Json.quote key ++ l.colon ++ x) (key, a) := by
  intro rest hrest hbound
  rw [String.toList_append, String.toList_append, List.append_assoc, List.append_assoc] at hbound ⊢
  rw [List.length_append, List.length_append] at hbound
  have hx := h rest hrest (by omega)
  refine keyed_eq_ok_iff.2 ⟨_, l.colon.toList.tail ++ (x.toList ++ rest), text_quote key _, ?_, ?_⟩
  · cases l <;> rfl
  · rw [hvalue.append (by cases l <;> simp [Layout.colon, isBlank]), hx]

end Scan

namespace Json

/-- Nothing in the value is too large or too deep to be read: whole numbers fit 64 bits, with a sign or without one, and
there are no more than `depth` containers around anything. -/
inductive Readable : Nat → Json → Prop
  | null {depth : Nat} : Readable depth .null
  | bool {depth : Nat} (b : Bool) : Readable depth (.bool b)
  | int {depth : Nat} {n : Int} (least : -.pow 2 63 ≤ n) (most : n < .pow 2 64) : Readable depth (.int n)
  | text {depth : Nat} (s : String) : Readable depth (.text s)
  | array {depth : Nat} {items : List Json} (h : ∀ j ∈ items, Readable depth j) : Readable (depth + 1) (.array items)
  | object {depth : Nat} {fields : List (String × Json)} (h : ∀ f ∈ fields, Readable depth f.2) :
    Readable (depth + 1) (.object fields)

theorem renderItems_eq_map (l : Layout) (depth : Nat) (items : List Json) :
    renderItems l depth items = items.map (render l depth) := by
  induction items with
  | nil => rfl
  | cons j rest ih => simp [renderItems, ih]

theorem renderFields_eq_map (l : Layout) (depth : Nat) (fields : List (String × Json)) :
    renderFields l depth fields = fields.map fun f => quote f.1 ++ l.colon ++ render l depth f.2 := by
  induction fields with
  | nil => rfl
  | cons f rest ih => simp [renderFields, ih]

end Json

open Json Scan

namespace Scan

variable {bound depth : Nat} {l : Layout}

theorem plain_null (rest : List Char) : Plain ((render l depth .null).toList ++ rest) rest .null := by
  have hword : word "null" ('n' :: 'u' :: 'l' :: 'l' :: rest) = .ok ((), rest) := by simp [word, isBlank]
  exact .null (by simp [render, isBlank]) hword

theorem plain_bool (b : Bool) (rest : List Char) :
    Plain ((render l depth (.bool b)).toList ++ rest) rest (.bool b) := by
  cases b with
  | true =>
    have hword : word "true" ('t' :: 'r' :: 'u' :: 'e' :: rest) = .ok ((), rest) := by simp [word, isBlank]
    exact .yes (by simp [render, isBlank]) hword
  | false =>
    have hword : word "false" ('f' :: 'a' :: 'l' :: 's' :: 'e' :: rest) = .ok ((), rest) := by simp [word, isBlank]
    exact .no (by simp [render, isBlank]) hword

theorem plain_int {n : Int} (hleast : -.pow 2 63 ≤ n) (hmost : n < .pow 2 64) {rest : List Char}
    (hrest : EndsNumber rest) : Plain ((render l depth (.int n)).toList ++ rest) rest (.int n) := by
  obtain ⟨numeral, hscan, hvalue⟩ := Numeral.exists_scan_toString hleast hmost hrest
  obtain ⟨c, tail, htext, hc⟩ := Numeral.exists_toString_eq_cons n
  have hblank : isBlank c = false := by
    by_contra hblank
    simp only [isBlank, Bool.not_eq_false, Bool.or_eq_true, decide_eq_true_eq] at hblank
    rcases hblank with ((rfl | rfl) | rfl) | rfl <;> revert hc <;> decide
  rw [htext, List.cons_append] at hscan
  refine .number ?_ hc hscan hvalue
  rw [render, htext, List.cons_append, List.dropWhile_cons_of_neg (by simp [hblank])]

theorem plain_text (s : String) (rest : List Char) :
    Plain ((render l depth (.text s)).toList ++ rest) rest (.text s) := by
  have htext := text_quote s rest
  obtain ⟨tail, hs, -⟩ := text_eq_ok_iff.1 htext
  refine .text hs ?_
  rw [← hs, text_passesBlanks, htext]

theorem readAs_array {items : List Json} (indent : Nat)
    (h : ∀ j ∈ items, ReadAs bound (tree bound depth) (render l (indent + 1) j) (.ofJson j)) :
    ReadAs bound (tree bound (depth + 1)) (render l indent (.array items)) (.ofJson (.array items)) := by
  intro rest hrest hbound
  have hitems : List.Forall₂ (ReadAs bound (tree bound depth)) (items.map (render l (indent + 1)))
      (items.map Tree.ofJson) := by
    rw [List.forall₂_map_left_iff, List.forall₂_map_right_iff, List.forall₂_same]
    exact h
  rw [render, renderItems_eq_map] at hbound ⊢
  obtain ⟨tail, htext, hrun⟩ := exists_run_enclose (b := .array) (separable_tree bound depth) hitems l indent rfl hbound
  have hlength := hrun.length_add_lt (tree_takes bound depth)
  rw [htext, List.length_append] at hbound
  rw [htext, Tree.ofJson, Tree.ofItems_eq_map]
  exact tree_of_items rfl (by omega) hrun

theorem readAs_object {fields : List (String × Json)} (indent : Nat)
    (h : ∀ f ∈ fields, ReadAs bound (tree bound depth) (render l (indent + 1) f.2) (.ofJson f.2)) :
    ReadAs bound (tree bound (depth + 1)) (render l indent (.object fields)) (.ofJson (.object fields)) := by
  intro rest hrest hbound
  have hfields : List.Forall₂ (ReadAs bound (keyed (tree bound depth)))
      (fields.map fun f => quote f.1 ++ l.colon ++ render l (indent + 1) f.2)
      (fields.map fun f => (f.1, Tree.ofJson f.2)) := by
    rw [List.forall₂_map_left_iff, List.forall₂_map_right_iff, List.forall₂_same]
    exact fun f hf => readAs_keyed (tree_passesBlanks bound depth) l f.1 (h f hf)
  rw [render, renderFields_eq_map] at hbound ⊢
  obtain ⟨tail, htext, hrun⟩ := exists_run_enclose (b := .object) (separable_keyed _) hfields l indent rfl hbound
  have hlength := hrun.length_add_lt (tree_takes bound depth).keyed
  rw [htext, List.length_append] at hbound
  rw [htext, Tree.ofJson, Tree.ofFields_eq_map]
  exact tree_of_entries rfl (by omega) hrun

/-- A value is read from the front of its text, in every layout and however far it is indented. -/
theorem tree_render {j : Json} (h : j.Readable depth) (l : Layout) (bound indent : Nat) :
    ReadAs bound (tree bound depth) (render l indent j) (.ofJson j) := by
  -- a container takes one level of depth from what is in it, and indents it once more
  induction h generalizing indent with
  | null => exact fun rest _ _ => tree_of_plain (plain_null rest) bound _
  | bool b => exact fun rest _ _ => tree_of_plain (plain_bool b rest) bound _
  | int hleast hmost => exact fun rest hrest _ => tree_of_plain (plain_int hleast hmost hrest) bound _
  | text s => exact fun rest _ _ => tree_of_plain (plain_text s rest) bound _
  | array _ ih => exact readAs_array indent fun j hj => ih j hj (indent + 1)
  | object _ ih => exact readAs_object indent fun f hf => ih f hf (indent + 1)

end Scan

/-- What is written can be read, whatever its layout. -/
theorem Tree.read?_render {j : Json} (h : j.Readable maxDepth) (l : Layout) :
    Tree.read? (j.render l 0) = some (.ofJson j) := by
  have hread := tree_render h l ((j.render l 0).toList.length + 2) 0 [] trivial (by simp)
  rw [List.append_nil] at hread
  exact Tree.read?_eq_some_iff.2 ⟨[], hread, rfl⟩

end Exonym
