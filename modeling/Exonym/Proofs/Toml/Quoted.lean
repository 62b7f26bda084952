import Exonym.Toml.Quoted

/-!
# Quoted text is read back

A text is written in one of four forms, and each is read back up to its closing mark. In the forms for several lines
one or two marks in a row belong to the text, also just before the closing ones: reading such a text keeps count of the
marks before the place where it is, and so does writing it.

Main statements:

* `escaped_escape`: the ways in which a character is written; each of them is read as the character.
* `scanBasic_basicBody`, `scanMultilineBasic_multilineBody`, `scanMultilineLiteral_append`: a text is read up to its
  closing marks.
* `suits_formOfValue`, `suits_formOfKey`: the form that is chosen suits the text.
* `scanKey_write`, `scanValue_write`: a quoted key or value is read back.
-/

namespace Exonym.Toml.Quoted

/-! ## Characters -/

/-- The text that is read gets these characters before it. -/
def prependAll (cs : List Char) (r : Scanned) : Scanned :=
  r.map fun (s, rest) => (cs ++ s, rest)

@[simp] theorem prependAll_nil (r : Scanned) : prependAll [] r = r := by simp [prependAll]

theorem prependAll_cons (c : Char) (cs : List Char) (r : Scanned) :
    prependAll (c :: cs) r = prepend (some c) (prependAll cs r) := by
  cases r <;> rfl

/-- A control character is read by its number. -/
theorem numbered?_hexDigits {c : Char} (h : c.toNat < 128) :
    numbered? ['0', '0', hexDigit (c.toNat / 16), hexDigit (c.toNat % 16)] = some c := by
  have hall : ∀ n < 128, numbered? ['0', '0', hexDigit (n / 16), hexDigit (n % 16)] = some (Char.ofNat n) := by
    decide +kernel
  rw [hall _ h, Char.ofNat_toNat]

theorem toNat_lt_of_not_isPlain {c : Char} (h : isPlain c = false) : c.toNat < 128 := by
  simp only [isPlain, Bool.or_eq_false_iff, Bool.and_eq_false_iff, decide_eq_false_iff_not] at h
  omega

theorem isPlain_hexDigit {n : Nat} (h : n < 16) : isPlain (hexDigit n) = true := by
  have hall : ∀ n < 16, isPlain (hexDigit n) = true := by decide
  exact hall n h

/-- The ways in which a character can be written. -/
inductive Escaped (multiline : Bool) (c : Char) : List Char → Prop
  | short {e : Char} (h : shortEscape? e = some c) : Escaped multiline c ['\\', e]
  | lineBreak (h : c = '\n') (hm : multiline = true) : Escaped multiline c ['\n']
  | plain (h : isPlain c = true) (hb : c ≠ '\\') : Escaped multiline c [c]
  | number (h : isPlain c = false) :
    Escaped multiline c ['\\', 'u', '0', '0', hexDigit (c.toNat / 16), hexDigit (c.toNat % 16)]

theorem escaped_escape (multiline : Bool) (c : Char) : Escaped multiline c (escape multiline c) := by
  unfold escape
  split
  · exact .short (congrArg some (Char.toNat_inj.1 (by simp_all)))
  · split
    · exact .short (by simp_all [shortEscape?])
    · split
      · split
        · exact .lineBreak ‹_› ‹_›
        · exact .short (by simp_all [shortEscape?])
      · split
        · exact .short (congrArg some (Char.toNat_inj.1 (by simp_all)))
        · split
          · exact .short (by simp_all [shortEscape?])
          · split
            · exact .short (by simp_all [shortEscape?])
            · split
              · exact .plain ‹_› ‹_›
              · exact .number (by simp_all)

theorem isPlain_of_shortEscape? {e c : Char} (h : shortEscape? e = some c) : isPlain e = true := by
  unfold shortEscape? at h
  split at h <;> first | rfl | cases h

/-- What is written for a character is plain, line breaks apart. -/
theorem Escaped.isPlain_or {multiline : Bool} {c : Char} {cs : List Char} (h : Escaped multiline c cs) :
    ∀ d ∈ cs, isPlain d = true ∨ c = '\n' ∧ d = '\n' := by
  cases h with
  | short h => simp [isPlain_of_shortEscape? h, show isPlain '\\' = true from rfl]
  | lineBreak h => simp [h]
  | plain h => simp [h]
  | number h =>
    have hc := toNat_lt_of_not_isPlain h
    have hhigh : isPlain (hexDigit (c.toNat / 16)) = true := isPlain_hexDigit (by omega)
    have hlow : isPlain (hexDigit (c.toNat % 16)) = true := isPlain_hexDigit (by omega)
    have hprefix : isPlain '\\' = true ∧ isPlain 'u' = true ∧ isPlain '0' = true := by decide
    simp_all

/-! ## Basic text -/

theorem scanBasic_short {e c : Char} (h : shortEscape? e = some c) (s : List Char) :
    scanBasic ('\\' :: e :: s) = prepend (some c) (scanBasic s) := by
  rw [← h]
  unfold shortEscape? at h
  split at h <;> simp_all [scanBasic]

theorem scanBasic_escaped {c : Char} {cs : List Char} (h : Escaped false c cs) (hq : c ≠ '"') (s : List Char) :
    scanBasic (cs ++ s) = prepend (some c) (scanBasic s) := by
  cases h with
  | short h => exact scanBasic_short h s
  | lineBreak h hm => cases hm
  | plain h hb =>
    rw [List.singleton_append, scanBasic.eq_def]
    split <;> simp_all
  | number h =>
    simp only [List.cons_append, List.nil_append, scanBasic]
    rw [numbered?_hexDigits (toNat_lt_of_not_isPlain h)]

/-- A basic text is read up to its closing mark. -/
theorem scanBasic_basicBody (s rest : List Char) : scanBasic (basicBody s ++ '"' :: rest) = some (s, rest) := by
  induction s with
  | nil => rfl
  | cons c s ih =>
    rw [basicBody, List.flatMap_cons, ← basicBody, List.append_assoc]
    split
    · rename_i hc
      rw [List.cons_append, List.cons_append, List.nil_append, scanBasic_short (c := c) (by rw [hc]; rfl), ih]
      rfl
    · rw [scanBasic_escaped (escaped_escape false c) ‹_›, ih]
      rfl

/-! ## Text of several lines -/

/-- The closing marks end a text of several lines, and one or two marks before other characters do not. -/
structure EndsAtMarks (mark : Char) (scan : List Char → Scanned) : Prop where
  closing (s : List Char) : scan (mark :: mark :: mark :: s) = finish mark s
  single (s : List Char) (h : s.head? ≠ some mark) : scan (mark :: s) = prepend (some mark) (scan s)
  double (s : List Char) (h : s.head? ≠ some mark) :
    scan (mark :: mark :: s) = prepend (some mark) (prepend (some mark) (scan s))

namespace EndsAtMarks

variable {mark : Char} {scan : List Char → Scanned} (h : EndsAtMarks mark scan) {run : Nat} (hrun : run ≤ 2)

include h hrun

theorem scan_marks {s : List Char} (hs : s.head? ≠ some mark) :
    scan (.replicate run mark ++ s) = prependAll (.replicate run mark) (scan s) := by
  match run with
  | 0 => simp
  | 1 => simp [prependAll_cons, h.single s hs]
  | 2 => simp [prependAll_cons, List.replicate_succ, h.double s hs]

theorem scan_closing {rest : List Char} (hrest : rest.head? ≠ some mark) :
    scan (.replicate run mark ++ (.replicate 3 mark ++ rest)) = some (.replicate run mark, rest) := by
  have hfinish : ∀ run ≤ 2, finish mark (.replicate run mark ++ rest) = some (.replicate run mark, rest) := by
    intro run hrun
    match run, rest with
    | 0, [] => rfl
    | 0, [c] => simp_all [finish]
    | 0, c :: d :: rest => simp_all [finish]
    | 1, [] => simp [finish]
    | 1, c :: rest => simp_all [finish]
    | 2, rest => simp [finish, List.replicate_succ]
  have hmarks : List.replicate run mark ++ (.replicate 3 mark ++ rest) =
      mark :: mark :: mark :: (.replicate run mark ++ rest) := by
    rw [← List.append_assoc, List.replicate_append_replicate, Nat.add_comm, ← List.replicate_append_replicate,
      List.append_assoc]
    rfl
  rw [hmarks, h.closing, hfinish run hrun]

end EndsAtMarks

/-! ### Basic text of several lines -/

theorem scanMultilineBasic_plain {c : Char} (h : isPlain c = true) (hb : c ≠ '\\') {s : List Char}
    (hs : c = '"' → ∀ rest, s ≠ '"' :: '"' :: rest) :
    scanMultilineBasic false (c :: s) = prepend (some c) (scanMultilineBasic false s) := by
  rw [scanMultilineBasic.eq_def]
  split <;> simp_all [isPlain]

theorem endsAtMarks_basic : EndsAtMarks '"' (scanMultilineBasic false) where
  closing s := by simp [scanMultilineBasic]
  single s h := scanMultilineBasic_plain rfl (by decide) (by rintro - rest rfl; exact h rfl)
  double s h := by
    rw [scanMultilineBasic_plain rfl (by decide) (by rintro - rest heq; cases heq; exact h rfl),
      scanMultilineBasic_plain rfl (by decide) (by rintro - rest rfl; exact h rfl)]

theorem scanMultilineBasic_short {e c : Char} (h : shortEscape? e = some c) (s : List Char) :
    scanMultilineBasic false ('\\' :: e :: s) = prepend (some c) (scanMultilineBasic false s) := by
  rw [← h]
  unfold shortEscape? at h
  split at h <;> simp_all [scanMultilineBasic, endsLine, isBlank]

theorem scanMultilineBasic_escaped {c : Char} {cs : List Char} (h : Escaped true c cs) (hq : c ≠ '"') (s : List Char) :
    scanMultilineBasic false (cs ++ s) = prepend (some c) (scanMultilineBasic false s) := by
  cases h with
  | short h => exact scanMultilineBasic_short h s
  | lineBreak h hm => simp [scanMultilineBasic, h]
  | plain h hb => exact scanMultilineBasic_plain h hb fun hc => absurd hc hq
  | number h =>
    simp only [List.cons_append, List.nil_append, scanMultilineBasic]
    rw [numbered?_hexDigits (toNat_lt_of_not_isPlain h)]

theorem Escaped.head?_ne {multiline : Bool} {c : Char} {cs : List Char} (h : Escaped multiline c cs) (hq : c ≠ '"')
    (s : List Char) : (cs ++ s).head? ≠ some '"' := by
  cases h <;> simp_all

/-- A basic text of several lines is read up to its closing marks. -/
theorem scanMultilineBasic_multilineBody {s rest : List Char} {run : Nat} (hrun : run ≤ 2)
    (hrest : rest.head? ≠ some '"') :
    scanMultilineBasic false (.replicate run '"' ++ (multilineBody run s ++ (.replicate 3 '"' ++ rest))) =
      some (.replicate run '"' ++ s, rest) := by
  induction s generalizing run with
  | nil => simpa [multilineBody] using endsAtMarks_basic.scan_closing hrun hrest
  | cons c s ih =>
    unfold multilineBody
    have ih₀ := @ih 0 (by omega)
    rw [List.replicate_zero, List.nil_append, List.nil_append] at ih₀
    split
    · rename_i hc
      subst hc
      split
      · -- one mark more of those that stand for themselves
        have := @ih (run + 1) (by omega)
        rwa [List.replicate_succ', List.append_assoc, List.append_assoc] at this
      · rw [List.cons_append, List.cons_append, endsAtMarks_basic.scan_marks hrun (by simp),
          scanMultilineBasic_short rfl, ih₀]
        rfl
    · rename_i hc
      have hescaped := escaped_escape true c
      rw [List.append_assoc, endsAtMarks_basic.scan_marks hrun (hescaped.head?_ne hc _),
        scanMultilineBasic_escaped hescaped hc, ih₀]
      rfl

/-! ### Literal text of several lines -/

theorem scanMultilineLiteral_cons {c : Char} (h : c = '\n' ∨ isPlain c = true) {s : List Char}
    (hs : c = apostrophe → ∀ rest, s ≠ apostrophe :: apostrophe :: rest) :
    scanMultilineLiteral (c :: s) = prepend (some c) (scanMultilineLiteral s) := by
  rw [scanMultilineLiteral.eq_def]
  split <;> simp_all [apostrophe, isPlain]

theorem endsAtMarks_literal : EndsAtMarks apostrophe scanMultilineLiteral where
  closing s := by simp [apostrophe, scanMultilineLiteral]
  single s h := scanMultilineLiteral_cons (.inr rfl) (by rintro - rest rfl; exact h rfl)
  double s h := by
    rw [scanMultilineLiteral_cons (.inr rfl) (by rintro - rest heq; cases heq; exact h rfl),
      scanMultilineLiteral_cons (.inr rfl) (by rintro - rest rfl; exact h rfl)]

theorem run_le_longestRun (mark : Char) (run : Nat) (s : List Char) : run ≤ longestRun mark run s := by
  induction s generalizing run with
  | nil => exact Nat.le_refl run
  | cons c s ih =>
    unfold longestRun
    split
    · exact Nat.le_of_succ_le (ih (run + 1))
    · exact Nat.le_max_left ..

/-- A literal text of several lines is read up to its closing marks. -/
theorem scanMultilineLiteral_append {s rest : List Char} {run : Nat} (hs : ∀ c ∈ s, c = '\n' ∨ isPlain c = true)
    (hrun : longestRun apostrophe run s ≤ 2) (hrest : rest.head? ≠ some apostrophe) :
    scanMultilineLiteral (.replicate run apostrophe ++ (s ++ (.replicate 3 apostrophe ++ rest))) =
      some (.replicate run apostrophe ++ s, rest) := by
  induction s generalizing run with
  | nil =>
    rw [List.nil_append, List.append_nil]
    exact endsAtMarks_literal.scan_closing hrun hrest
  | cons c s ih =>
    obtain ⟨hc, htail⟩ := List.forall_mem_cons.1 hs
    have hle := Nat.le_trans (run_le_longestRun apostrophe run (c :: s)) hrun
    unfold longestRun at hrun
    split at hrun
    · rename_i hmark
      subst hmark
      have := ih htail hrun
      rwa [List.replicate_succ', List.append_assoc, List.append_assoc] at this
    · rename_i hmark
      -- another character ends the run of marks
      have ih₀ := ih htail (Nat.max_le.1 hrun).2
      rw [List.replicate_zero, List.nil_append, List.nil_append] at ih₀
      rw [List.cons_append, endsAtMarks_literal.scan_marks hle (by simpa using hmark),
        scanMultilineLiteral_cons hc fun h => absurd h hmark, ih₀]
      rfl

/-! ## The form of a text -/

/-- The texts that can be written in a form. -/
def Form.Suits (s : List Char) : Form → Prop
  | .basic | .multilineBasic => True
  | .literal => s ≠ [] ∧ ∀ c ∈ s, isPlain c = true ∧ c ≠ apostrophe
  | .multilineLiteral => (∀ c ∈ s, c = '\n' ∨ isPlain c = true) ∧ longestRun apostrophe 0 s ≤ 2

/-- A value has a form that suits it. -/
theorem suits_formOfValue (s : List Char) : (formOfValue s).Suits s := by
  simp only [formOfValue]
  split
  · trivial
  · rename_i hbasic
    split
    · rename_i h
      obtain ⟨⟨hplain, hbreak⟩, hmark⟩ : ((∀ c ∈ s, c ≠ '\n' → isPlain c = true) ∧ '\n' ∉ s) ∧ apostrophe ∉ s := by
        simpa using h
      refine ⟨?_, fun c hc => ⟨hplain c hc fun heq => hbreak (heq ▸ hc), fun heq => hmark (heq ▸ hc)⟩⟩
      rintro rfl
      exact hbasic rfl
    · split
      · trivial
      · split
        · rename_i h
          obtain ⟨hplain, hrun⟩ : (∀ c ∈ s, c ≠ '\n' → isPlain c = true) ∧ longestRun apostrophe 0 s ≤ 2 := by
            simpa using h
          exact ⟨fun c hc => Decidable.or_iff_not_imp_left.2 (hplain c hc), hrun⟩
        · split <;> trivial

/-- A key has a form that suits it, on one line. -/
theorem suits_formOfKey (s : List Char) : (formOfKey s).Suits s ∧ formOfKey s ∈ [Form.basic, .literal] := by
  simp only [formOfKey]
  split
  · exact ⟨trivial, by decide⟩
  · rename_i hbasic
    split
    · rename_i h
      obtain ⟨hplain, hmark⟩ : (∀ c ∈ s, isPlain c = true) ∧ apostrophe ∉ s := by simpa using h
      refine ⟨⟨?_, fun c hc => ⟨hplain c hc, fun heq => hmark (heq ▸ hc)⟩⟩, by decide⟩
      rintro rfl
      exact hbasic rfl
    · exact ⟨trivial, by decide⟩

/-! ## What is written is read back -/

/-- A key is read up to its closing mark. -/
theorem scanKey_write (s rest : List Char) : scanKey (write (formOfKey s) s ++ rest) = some (s, rest) := by
  obtain ⟨hsuits, hform⟩ := suits_formOfKey s
  generalize formOfKey s = form at hsuits hform
  cases form with
  | basic => simpa [write, scanKey] using scanBasic_basicBody s rest
  | literal => simpa [write, scanKey, apostrophe] using scanLiteral_append hsuits.2 rest
  | multilineBasic | multilineLiteral => simp at hform

/-- Without three marks in front a value is read as a key is. -/
theorem scanValue_eq_scanKey {s : List Char} (hbasic : ∀ t, s ≠ '"' :: '"' :: '"' :: t)
    (hliteral : ∀ t, s ≠ apostrophe :: apostrophe :: apostrophe :: t) : scanValue s = scanKey s := by
  rw [scanValue.eq_def]
  split
  · exact absurd rfl (hbasic _)
  · exact absurd rfl (hliteral _)
  · rfl

/-- What begins with no mark is not quoted. -/
theorem scanValue_eq_none {c : Char} (h : c ∉ ['"', apostrophe]) (s : List Char) : scanValue (c :: s) = none := by
  obtain ⟨hbasic, hliteral⟩ : c ≠ '"' ∧ c ≠ apostrophe := by simpa using h
  rw [scanValue_eq_scanKey (by simp [hbasic]) (by simp [hliteral]), scanKey.eq_def]
  split
  · rename_i heq
    exact absurd (List.cons.inj heq).1 hbasic
  · rename_i heq
    exact absurd (List.cons.inj heq).1 hliteral
  · rfl

/-- Only a text with a line break gets one more after its opening marks, and that one is no part of it. -/
theorem dropBreak_lines {mark : Char} {s body : List Char} (hmark : isPlain mark = true)
    (hbody : '\n' ∉ s → ∀ c ∈ body, isPlain c = true) (rest : List Char) :
    dropBreak ((if s.contains '\n' then ['\n'] else []) ++ (body ++ (.replicate 3 mark ++ rest))) =
      body ++ (.replicate 3 mark ++ rest) := by
  split
  · rfl
  · rename_i hbreak
    have hhead : ∀ c ∈ (body ++ (.replicate 3 mark ++ rest)).head?, isPlain c = true := by
      have := hbody (by simpa using hbreak)
      cases body with
      | nil => simpa using hmark
      | cons c t => simpa using this c
    rw [List.nil_append]
    unfold dropBreak
    split
    · rename_i heq
      exact absurd (hhead '\n' (by rw [heq]; rfl)) (by decide)
    · rename_i heq
      exact absurd (hhead '\r' (by rw [heq]; rfl)) (by decide)
    · rfl

theorem isPlain_of_mem_multilineBody {s : List Char} {run : Nat} {c : Char} (hc : c ∈ multilineBody run s)
    (hbreak : '\n' ∉ s) : isPlain c = true := by
  induction s generalizing run with
  | nil => cases hc
  | cons d s ih =>
    obtain ⟨hd, hs⟩ : '\n' ≠ d ∧ '\n' ∉ s := by simpa using hbreak
    have hmarks : isPlain '"' = true ∧ isPlain '\\' = true := by decide
    unfold multilineBody at hc
    split at hc
    · split at hc
      · rcases List.mem_cons.1 hc with rfl | hc
        · exact hmarks.1
        · exact ih hc hs
      · rcases List.mem_cons.1 hc with rfl | hc
        · exact hmarks.2
        · rcases List.mem_cons.1 hc with rfl | hc
          · exact hmarks.1
          · exact ih hc hs
    · rcases List.mem_append.1 hc with hc | hc
      · exact ((escaped_escape true d).isPlain_or c hc).resolve_right fun h => hd h.1.symm
      · exact ih hc hs

/-- A value is read back in whatever form that suits it, unless it is followed by a mark. -/
theorem scanValue_write {form : Form} {s rest : List Char} (h : form.Suits s) (hq : rest.head? ≠ some '"')
    (ha : rest.head? ≠ some apostrophe) : scanValue (write form s ++ rest) = some (s, rest) := by
  cases form with
  | basic =>
    -- two marks after the first would open several lines, but the body begins with one at most, and only if it is empty
    have hmarks : ∀ t, basicBody s ++ '"' :: rest ≠ '"' :: '"' :: t := by
      intro t heq
      have hread := scanBasic_basicBody s rest
      rw [heq] at hread
      cases hread
      exact hq rfl
    have hkey : scanValue ('"' :: (basicBody s ++ '"' :: rest)) = scanKey ('"' :: (basicBody s ++ '"' :: rest)) :=
      scanValue_eq_scanKey (fun t heq => hmarks t (List.cons.inj heq).2) (by simp [apostrophe])
    simpa [write, hkey, scanKey] using scanBasic_basicBody s rest
  | literal =>
    obtain ⟨hne, hs⟩ := h
    obtain ⟨c, t, rfl⟩ := List.exists_cons_of_ne_nil hne
    have hc := (List.forall_mem_cons.1 hs).1.2
    have hkey : scanValue (apostrophe :: (c :: t ++ apostrophe :: rest)) =
        scanKey (apostrophe :: (c :: t ++ apostrophe :: rest)) :=
      scanValue_eq_scanKey (by simp [apostrophe]) (by simp [hc])
    have hread := scanLiteral_append hs rest
    simp only [write, List.append_assoc, List.cons_append, List.nil_append] at hkey hread ⊢
    rw [hkey]
    exact hread
  | multilineBasic =>
    -- without a line break in the text nothing after the opening marks is taken for one
    have hbody : '\n' ∉ s → ∀ c ∈ multilineBody 0 s, isPlain c = true := fun hbreak c hc =>
      isPlain_of_mem_multilineBody hc hbreak
    have hdrop := @dropBreak_lines '"' _ _ rfl hbody rest
    have hread := @scanMultilineBasic_multilineBody s rest 0 (by omega) hq
    simp only [write, encloseLines, List.append_assoc]
    exact (congrArg (scanMultilineBasic false) hdrop).trans hread
  | multilineLiteral =>
    obtain ⟨hs, hrun⟩ := h
    have hbody : '\n' ∉ s → ∀ c ∈ s, isPlain c = true := fun hbreak c hc =>
      (hs c hc).resolve_left fun heq => hbreak (heq ▸ hc)
    have hdrop := @dropBreak_lines apostrophe _ _ rfl hbody rest
    have hread := scanMultilineLiteral_append hs hrun ha
    simp only [write, encloseLines, List.append_assoc]
    exact (congrArg scanMultilineLiteral hdrop).trans hread

end Exonym.Toml.Quoted
