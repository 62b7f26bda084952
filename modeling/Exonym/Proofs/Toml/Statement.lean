import Exonym.Proofs.Toml.Value
import Mathlib.Data.List.TakeDrop

/-!
# Settings files are read back as statements

Keys and values end where the text goes on with something that cannot belong to them. So every line is read as the
statement that it was written for, and a file as its statements.

Main statements:

* `scanKey_renderKey`, `scanPath_render`: keys and paths are read where they end.
* `Statement.scan_renderLine`: a statement is read from its line, and the following lines are left.
* `Statement.read?_render`: the statements of a settings file are read back from its text.
-/

namespace Exonym.Toml

/-! ## Keys -/

theorem span_append {p : Char → Bool} {s rest : List Char} (hs : ∀ c ∈ s, p c = true)
    (hrest : ∀ c ∈ rest.head?, p c = false) : (s ++ rest).span p = (s, rest) := by
  have hend : rest.takeWhile p = [] ∧ rest.dropWhile p = rest := by
    cases rest with
    | nil => exact ⟨rfl, rfl⟩
    | cons c t => simp [hrest c rfl]
  rw [List.span_eq_takeWhile_dropWhile, List.takeWhile_append_of_pos hs, List.dropWhile_append_of_pos hs, hend.1, hend.2,
    List.append_nil]

/-- Whether a key can start with the character. -/
def startsKey (c : Char) : Bool :=
  isBareKeyChar c || c = '"' || c = apostrophe

theorem exists_startsKey (key : String) : ∃ c rest, renderKey key = c :: rest ∧ startsKey c = true := by
  simp only [renderKey]
  split
  · rename_i h
    obtain ⟨hne, hbare⟩ : key.toList ≠ [] ∧ ∀ c ∈ key.toList, isBareKeyChar c = true := by simpa using h
    obtain ⟨c, rest, hkey⟩ := List.exists_cons_of_ne_nil hne
    have hc : isBareKeyChar c = true := hbare c (hkey ▸ List.mem_cons_self)
    exact ⟨c, rest, hkey, by simp [startsKey, hc]⟩
  · have hform := (Quoted.suits_formOfKey key.toList).2
    generalize Quoted.formOfKey key.toList = form at hform
    cases form with
    | basic => exact ⟨'"', _, rfl, rfl⟩
    | literal => exact ⟨apostrophe, _, rfl, rfl⟩
    | multilineBasic | multilineLiteral => simp at hform

/-- A key is read where it ends. -/
theorem scanKey_renderKey (key : String) {rest : List Char} (h : ∀ c ∈ rest.head?, isBareKeyChar c = false) :
    scanKey (renderKey key ++ rest) = some (key, rest) := by
  simp only [renderKey]
  split
  · rename_i hkey
    obtain ⟨hne, hbare⟩ : key.toList ≠ [] ∧ ∀ c ∈ key.toList, isBareKeyChar c = true := by simpa using hkey
    have hspan : (key.toList ++ rest).span isBareKeyChar = (key.toList, rest) := span_append hbare h
    rw [scanKey, hspan]
    split
    · rename_i heq
      exact absurd (congrArg Prod.fst heq) hne
    · rename_i heq
      cases heq
      rw [String.ofList_toList]
  · have hread := Quoted.scanKey_write key.toList rest
    have hspan : (Quoted.write (Quoted.formOfKey key.toList) key.toList ++ rest).span isBareKeyChar =
        ([], Quoted.write (Quoted.formOfKey key.toList) key.toList ++ rest) := by
      -- a key in quotes begins with a mark, so no bare key can be read from it
      have hform := (Quoted.suits_formOfKey key.toList).2
      generalize Quoted.formOfKey key.toList = form at hform
      cases form with
      | basic => rfl
      | literal => rfl
      | multilineBasic | multilineLiteral => simp at hform
    rw [scanKey, hspan]
    simp only
    rw [hread, Option.map_some, String.ofList_toList]

/-! ## Paths -/

theorem not_isBlank_of_startsKey {c : Char} (h : startsKey c = true) : isBlank c = false := by
  have hblanks : c ∉ [' ', '\t'] := not_mem_of_apart h (by decide)
  simpa [isBlank] using hblanks

theorem dropWhile_isBlank_renderKey (key : String) (rest : List Char) :
    (renderKey key ++ rest).dropWhile isBlank = renderKey key ++ rest := by
  obtain ⟨c, t, hkey, hc⟩ := exists_startsKey key
  rw [hkey, List.cons_append, List.dropWhile_cons_of_neg (by rw [not_isBlank_of_startsKey hc]; decide)]

/-- A path is read where it ends, together with the blanks that follow. -/
theorem scanPath_render {p : Path} {count : Nat} (hcount : p.parents.length < count) {rest : List Char}
    (hbare : ∀ c ∈ rest.head?, isBareKeyChar c = false) (hdot : (rest.dropWhile isBlank).head? ≠ some '.') :
    scanPath count (p.render ++ rest) = some (p, rest.dropWhile isBlank) := by
  obtain ⟨parents, key⟩ := p
  induction parents generalizing count with
  | nil =>
    obtain ⟨count, rfl⟩ := Nat.exists_eq_succ_of_ne_zero (Nat.ne_of_gt hcount)
    simp only [Path.render, List.flatMap_nil, List.nil_append, scanPath, dropWhile_isBlank_renderKey,
      scanKey_renderKey key hbare, Option.bind_eq_bind, Option.bind_some]
    split
    · rename_i heq
      exact absurd (heq ▸ rfl) hdot
    · rfl
  | cons parent parents ih =>
    obtain ⟨count, rfl⟩ := Nat.exists_eq_succ_of_ne_zero (Nat.ne_of_gt (Nat.lt_of_le_of_lt (Nat.zero_le _) hcount))
    have hread := @ih count (Nat.lt_of_succ_lt_succ hcount)
    simp only [Path.render, List.flatMap_cons, List.append_assoc, List.cons_append, List.nil_append] at hread ⊢
    rw [scanPath, dropWhile_isBlank_renderKey, scanKey_renderKey parent (by simp; decide)]
    simp [isBlank, hread]

/-! ## Statements -/

namespace Statement

/-- The statements of which a settings file is made: no path is too long, and every value is a setting. -/
def IsSetting : Statement → Prop
  | .table path | .element path => path.parents.length < maxDepth
  | .assign path value => path.parents.length < maxDepth ∧ value.IsSetting maxDepth

theorem exists_startsKey_path (p : Path) : ∃ c rest, p.render = c :: rest ∧ startsKey c = true := by
  obtain ⟨parents, key⟩ := p
  cases parents with
  | nil => simpa [Path.render] using exists_startsKey key
  | cons parent parents =>
    obtain ⟨c, t, hkey, hc⟩ := exists_startsKey parent
    exact ⟨c, _, by rw [Path.render, List.flatMap_cons, hkey]; rfl, hc⟩

theorem path?_heading {p : Path} (h : p.parents.length < maxDepth) (rest : List Char) :
    path? (p.render ++ ']' :: rest) = some (p, ']' :: rest) := by
  rw [path?, scanPath_render h (by simp; decide) (by simp [isBlank])]
  simp [isBlank]

theorem path?_assign {p : Path} (h : p.parents.length < maxDepth) (rest : List Char) :
    path? (p.render ++ ' ' :: '=' :: rest) = some (p, '=' :: rest) := by
  rw [path?, scanPath_render h (by simp; decide) (by simp [isBlank])]
  simp [isBlank]

theorem value?_render {v : Value} (h : v.IsSetting maxDepth) {rest : List Char} (hrest : EndsValue rest) :
    value? (v.render ++ rest) = some (v, rest) :=
  h.isRead _ rest (by rw [List.length_append]; omega) hrest

theorem nextLine?_break (rest : List Char) : nextLine? ('\n' :: rest) = some rest := by
  simp [nextLine?, isBlank, afterBreak?]

/-- A statement is read from its line, and the following lines are left. -/
theorem scan_renderLine {s : Statement} (h : s.IsSetting) (rest : List Char) :
    scan (s.renderLine ++ rest) = some (s, rest) := by
  cases s with
  | table path =>
    obtain ⟨c, t, hrender, hc⟩ := exists_startsKey_path path
    have hpath := path?_heading h ('\n' :: rest)
    have hne : c ≠ '[' := by rintro rfl; cases hc
    rw [hrender, List.cons_append] at hpath
    simp only [renderLine, hrender, List.cons_append, List.append_assoc, List.nil_append]
    rw [scan]
    · simp [hpath, nextLine?_break]
    · simpa using hne
  | element path =>
    have hpath := path?_heading h (']' :: '\n' :: rest)
    simp only [renderLine, List.cons_append, List.append_assoc, List.nil_append]
    simp [scan, hpath, nextLine?_break]
  | assign path value =>
    obtain ⟨c, t, hrender, hc⟩ := exists_startsKey_path path
    have hne : c ≠ '[' := by rintro rfl; cases hc
    obtain ⟨d, u, hvalue, hd⟩ := Value.exists_start h.2
    have hpath := path?_assign h.1 (' ' :: (value.render ++ '\n' :: rest))
    have hread := @value?_render _ h.2 ('\n' :: rest) ⟨'\n', by decide, rfl⟩
    have hblank : (' ' :: (value.render ++ '\n' :: rest)).dropWhile isBlank = value.render ++ '\n' :: rest := by
      rw [hvalue]
      simp_all [isBlank, nonStarts]
    rw [hrender, List.cons_append] at hpath
    simp only [renderLine, hrender, List.cons_append, List.append_assoc, List.nil_append]
    rw [scan]
    · simp [hpath, hblank, hread, nextLine?_break]
    · simp [hne]
    · simp [hne]

/-- No line of a statement is blank, or empty, or a comment. -/
theorem exists_lineStart (s : Statement) :
    ∃ c rest, s.renderLine = c :: rest ∧ isBlank c = false ∧ c ∉ ['\n', '\r', '#', byteOrderMark] := by
  cases s with
  | table path | element path => exact ⟨'[', _, rfl, by decide, by decide⟩
  | assign path value =>
    obtain ⟨c, t, hrender, hc⟩ := exists_startsKey_path path
    exact ⟨c, _, by rw [renderLine, hrender]; rfl, not_isBlank_of_startsKey hc, not_mem_of_apart hc (by decide)⟩

theorem scanAll_break {bound : Nat} (rest : List Char) : scanAll (bound + 1) ('\n' :: rest) = scanAll bound rest := by
  rw [scanAll.eq_def]
  simp [isBlank, isEmptyLine, nextLine?_break]

theorem scanAll_renderLine {s : Statement} (h : s.IsSetting) {bound : Nat} (rest : List Char) :
    scanAll (bound + 1) (s.renderLine ++ rest) = (scanAll bound rest).map (s :: ·) := by
  obtain ⟨c, t, hrender, hblank, hc⟩ := exists_lineStart s
  have hscan := scan_renderLine h rest
  rw [hrender, List.cons_append] at hscan ⊢
  have hdrop : (c :: (t ++ rest)).dropWhile isBlank = c :: (t ++ rest) := by
    rw [List.dropWhile_cons_of_neg (by simp [hblank])]
  have hempty : isEmptyLine (c :: (t ++ rest)) = false := by
    rw [isEmptyLine.eq_def]
    split <;> simp_all
  rw [scanAll.eq_def]
  simp only [hdrop, hempty, hscan, Bool.false_eq_true, if_false, Option.bind_eq_bind, Option.bind_some]
  cases scanAll bound rest <;> rfl

theorem length_renderLine_pos (s : Statement) : 0 < s.renderLine.length := by
  obtain ⟨c, t, hrender, -⟩ := exists_lineStart s
  simp [hrender]

theorem scanAll_renderMore {ss : List Statement} (h : ∀ s ∈ ss, s.IsSetting) {bound : Nat}
    (hbound : (renderMore ss).length < bound) : scanAll bound (renderMore ss) = some ss := by
  induction ss generalizing bound with
  | nil =>
    obtain ⟨bound, rfl⟩ := Nat.exists_eq_succ_of_ne_zero (Nat.ne_of_gt hbound)
    rfl
  | cons s ss ih =>
    obtain ⟨hs, hss⟩ := List.forall_mem_cons.1 h
    have hpos := length_renderLine_pos s
    simp only [renderMore, List.length_append] at hbound
    have hline : ∀ bound, (renderMore ss).length < bound →
        scanAll (bound + 1) (s.renderLine ++ renderMore ss) = some (s :: ss) := fun bound hbound => by
      rw [scanAll_renderLine hs, ih hss hbound]
      rfl
    rw [renderMore, List.append_assoc]
    split
    · -- an empty line stands before a heading
      obtain ⟨bound, rfl⟩ : ∃ k, bound = k + 2 := ⟨bound - 2, by simp_all; omega⟩
      rw [List.singleton_append, scanAll_break, hline bound (by simp_all; omega)]
    · obtain ⟨bound, rfl⟩ : ∃ k, bound = k + 1 := ⟨bound - 1, by omega⟩
      rw [List.nil_append, hline bound (by omega)]

/-- The statements of a settings file are read back from its text. -/
theorem read?_render {ss : List Statement} (h : ∀ s ∈ ss, s.IsSetting) : read? (.ofList (render ss)) = some ss := by
  cases ss with
  | nil => rfl
  | cons s ss =>
    obtain ⟨hs, hss⟩ := List.forall_mem_cons.1 h
    obtain ⟨c, t, hrender, -, hc⟩ := exists_lineStart s
    have hhead : (render (s :: ss)).head? ≠ some byteOrderMark := by
      rw [render, hrender]
      simp_all
    rw [read?, String.toList_ofList, if_neg hhead, render]
    rw [List.length_append, scanAll_renderLine hs, scanAll_renderMore hss]
    · rfl
    · have := length_renderLine_pos s
      omega

end Statement

end Exonym.Toml
