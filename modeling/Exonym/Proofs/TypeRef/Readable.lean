import Exonym.TypeRef
import Exonym.Text.Digits
import Mathlib.Data.List.Basic

/-!
# What can be read off the text of a reference

The text of a reference is put together from names with a few marks. The last mark tells the shape of the reference, and
a comma outside brackets ends an argument; so where no name has a mark in it, the full names of all definitions that the
reference mentions are read back. The modules are not, as the text leaves them out.

Main statements:

* `Brackets.eq_of_flatMap_comma`: a list of texts is read off the texts with a comma behind each.
* `TypeRef.fullNames_of_text`: legible references of one text mention definitions of the same full names.
* `TypeRef.mentions_eq_iff_of_text`: they mention the same definitions if these are of the same modules.
-/

namespace Exonym

/-- Lists that give the same under one function give the same under another that the first one determines. -/
theorem map_eq_map_of_mem {α β γ : Type} {f : α → β} {g : α → γ} {as bs : List α} (h : as.map f = bs.map f)
    (hg : ∀ a ∈ as, ∀ b ∈ bs, f a = f b → g a = g b) : as.map g = bs.map g := by
  induction as generalizing bs with
  | nil => simp_all
  | cons a as ih =>
    cases bs with
    | nil => simp at h
    | cons b bs =>
      obtain ⟨hhead, htail⟩ := List.cons.inj h
      rw [List.map_cons, List.map_cons, hg a (by simp) b (by simp) hhead,
        ih htail fun x hx y hy => hg x (by simp [hx]) y (by simp [hy])]

theorem map_eq_map_of_mem₂ {α β γ δ : Type} {f : α → β} {g : α → γ} {h : α → δ} {as bs : List α}
    (hf : as.map f = bs.map f) (hg : as.map g = bs.map g)
    (hfg : ∀ a ∈ as, ∀ b ∈ bs, f a = f b → g a = g b → h a = h b) : as.map h = bs.map h := by
  have hpairs : as.map (fun a => (f a, g a)) = bs.map (fun a => (f a, g a)) := by
    rw [← List.zip_map', ← List.zip_map', hf, hg]
  refine map_eq_map_of_mem hpairs fun a ha b hb hab => ?_
  obtain ⟨hfirst, hsecond⟩ := Prod.mk.inj hab
  exact hfg a ha b hb hfirst hsecond

/-! ## Brackets -/

namespace Brackets

/-- How deep in brackets one is after a text. There is none if the text closes what was not open before, or has a comma
outside all brackets. -/
def depth? : Nat → List Char → Option Nat
  | depth, [] => some depth
  | depth, c :: rest =>
    if c = '<' ∨ c = '[' then depth? (depth + 1) rest
    else if c = '>' ∨ c = ']' then if depth = 0 then none else depth? (depth - 1) rest
    else if c = ',' ∧ depth = 0 then none
    else depth? depth rest

theorem depth?_append (depth : Nat) (s r : List Char) :
    depth? depth (s ++ r) = (depth? depth s).bind fun depth => depth? depth r := by
  induction s generalizing depth with
  | nil => rfl
  | cons c rest ih =>
    simp only [List.cons_append, depth?, ih]
    split_ifs <;> rfl

/-- Text that leaves one as deep in brackets as one was, if one was in as many as it says. -/
def Level (least : Nat) (s : List Char) : Prop :=
  ∀ depth, least ≤ depth → depth? depth s = some depth

variable {least : Nat} {s r : List Char}

theorem Level.mono {most : Nat} (h : Level least s) (hle : least ≤ most) : Level most s :=
  fun depth hdepth => h depth (Nat.le_trans hle hdepth)

theorem Level.append (hs : Level least s) (hr : Level least r) : Level least (s ++ r) := by
  intro depth hdepth
  rw [depth?_append, hs depth hdepth, Option.bind_some, hr depth hdepth]

theorem level_nil : Level least [] := fun _ _ => rfl

/-- Commas are in order where some bracket is open. -/
theorem level_of_forall (h : ∀ c ∈ s, c ∉ ['<', '[', '>', ']'] ∧ (c = ',' → 0 < least)) : Level least s := by
  induction s with
  | nil => exact level_nil
  | cons c rest ih =>
    intro depth hdepth
    obtain ⟨hc, hrest⟩ := List.forall_mem_cons.1 h
    simp only [List.mem_cons, List.not_mem_nil, or_false, not_or] at hc
    have hcomma : ¬(c = ',' ∧ depth = 0) := fun hzero => by have := hc.2 hzero.1; omega
    simp only [depth?, hc.1, hcomma, or_self, if_false]
    exact ih hrest depth hdepth

theorem Level.enclosed {opening closing : Char} (hopening : opening = '<' ∨ opening = '[')
    (hclosing : closing = '>' ∨ closing = ']') (hs : Level 1 s) : Level 0 (opening :: (s ++ [closing])) := by
  intro depth _
  have hne : ¬(closing = '<' ∨ closing = '[') := by rcases hclosing with rfl | rfl <;> decide
  simp only [depth?, hopening, if_true, depth?_append, hs (depth + 1) (by omega), Option.bind_some, hne, if_false,
    hclosing]
  simp

/-- What comes before a comma that ends a text is read off. -/
theorem eq_of_append_comma {s s' r r' : List Char} (hs : Level 0 s) (hs' : Level 0 s')
    (h : s ++ ',' :: r = s' ++ ',' :: r') : s = s' ∧ r = r' := by
  -- a text that went on after the comma would have it outside brackets
  have hlonger : ∀ {s t z : List Char}, Level 0 s → Level 0 t → t ≠ s ++ ',' :: z := by
    rintro s t z hs ht rfl
    have := ht 0 (by omega)
    simp [depth?_append, hs 0 (by omega), depth?] at this
  rcases List.append_eq_append_iff.1 h with ⟨z, hz, hrest⟩ | ⟨z, hz, hrest⟩
  · cases z with
    | nil => simp_all
    | cons c z =>
      obtain ⟨rfl, -⟩ := List.cons.inj hrest
      exact absurd hz (hlonger hs hs')
  · cases z with
    | nil => simp_all
    | cons c z =>
      obtain ⟨rfl, -⟩ := List.cons.inj hrest
      exact absurd hz (hlonger hs' hs)

/-- Texts are read off with a comma behind each of them. -/
theorem eq_of_flatMap_comma {texts texts' : List (List Char)} (h : ∀ s ∈ texts, Level 0 s)
    (h' : ∀ s ∈ texts', Level 0 s) (heq : texts.flatMap (· ++ [',']) = texts'.flatMap (· ++ [','])) :
    texts = texts' := by
  induction texts generalizing texts' with
  | nil => cases texts' <;> simp_all
  | cons s rest ih =>
    cases texts' with
    | nil => simp at heq
    | cons s' rest' =>
      obtain ⟨hs, hrest⟩ := List.forall_mem_cons.1 h
      obtain ⟨hs', hrest'⟩ := List.forall_mem_cons.1 h'
      simp only [List.flatMap_cons, List.append_assoc, List.singleton_append] at heq
      obtain ⟨hhead, htail⟩ := eq_of_append_comma hs hs' heq
      rw [hhead, ih hrest hrest' htail]

theorem intercalate_append_comma {texts : List (List Char)} (h : texts ≠ []) :
    [','].intercalate texts ++ [','] = texts.flatMap (· ++ [',']) := by
  induction texts with
  | nil => exact absurd rfl h
  | cons s rest ih =>
    cases rest with
    | nil => simp
    | cons => rw [List.intercalate_cons_cons, List.flatMap_cons, ← ih (by simp)]; simp

theorem eq_of_intercalate {texts texts' : List (List Char)} (h : ∀ s ∈ texts, Level 0 s)
    (h' : ∀ s ∈ texts', Level 0 s) (hne : texts ≠ []) (hne' : texts' ≠ [])
    (heq : [','].intercalate texts = [','].intercalate texts') : texts = texts' := by
  apply eq_of_flatMap_comma h h'
  rw [← intercalate_append_comma hne, ← intercalate_append_comma hne', heq]

theorem Level.intercalate {texts : List (List Char)} (h : ∀ s ∈ texts, Level 0 s) :
    Level 1 ([','].intercalate texts) := by
  induction texts with
  | nil => exact level_nil
  | cons s rest ih =>
    obtain ⟨hs, hrest⟩ := List.forall_mem_cons.1 h
    cases rest with
    | nil => simpa using hs.mono (by omega)
    | cons =>
      rw [List.intercalate_cons_cons]
      exact ((hs.mono (by omega)).append (level_of_forall (by simp))).append (ih hrest)

theorem sublist_intercalate {texts : List (List Char)} {s : List Char} (h : s ∈ texts) :
    s.Sublist ([','].intercalate texts) := by
  induction texts with
  | nil => cases h
  | cons t rest ih =>
    cases rest with
    | nil => simp_all
    | cons =>
      rw [List.intercalate_cons_cons]
      rcases List.mem_cons.1 h with rfl | h
      · exact (List.sublist_append_left _ _).trans (List.sublist_append_left _ _)
      · exact (ih h).trans (List.sublist_append_right _ _)

end Brackets

/-! ## Names and marks -/

/-- What the text of a reference is put together with. -/
def textMarks : List Char := ['<', '>', ',', '[', ']', '*', '&', '+', '!']

/-- A name that nothing in the text of a reference is mistaken for. -/
def isUnmarked (name : String) : Bool :=
  name.toList.all (· ∉ textMarks)

/-- The last mark in a text. -/
def lastMark? (s : List Char) : Option Char :=
  (s.filter (· ∈ textMarks)).getLast?

theorem not_mem_of_isUnmarked {name : String} (h : isUnmarked name = true) {mark : Char} (hmark : mark ∈ textMarks) :
    mark ∉ name.toList := by
  intro hmem
  simpa [hmark] using List.all_eq_true.1 h mark hmem

theorem filter_of_isUnmarked {name : String} (h : isUnmarked name = true) :
    name.toList.filter (· ∈ textMarks) = [] := by
  rw [List.filter_eq_nil_iff]
  intro c hc
  simpa using List.all_eq_true.1 h c hc

theorem Brackets.level_of_isUnmarked {name : String} (h : isUnmarked name = true) : Level 0 name.toList := by
  refine level_of_forall fun c hc => ?_
  have := List.all_eq_true.1 h c hc
  simp only [textMarks, decide_eq_true_eq, List.mem_cons, List.not_mem_nil, not_or] at this ⊢
  grind

theorem isUnmarked_toString (n : Nat) : isUnmarked (toString n) = true := by
  refine List.all_eq_true.2 fun c hc => ?_
  have hdigit := Digits.isDigit_of_mem_toString hc
  rw [decide_eq_true_eq]
  intro hmark
  simp only [textMarks, List.mem_cons, List.not_mem_nil, or_false] at hmark
  rcases hmark with rfl | rfl | rfl | rfl | rfl | rfl | rfl | rfl | rfl <;> simp at hdigit

theorem isUnmarked_append {name name' : String} (h : isUnmarked name = true) (h' : isUnmarked name' = true) :
    isUnmarked (name ++ name') = true := by
  unfold isUnmarked at *
  rw [String.toList_append, List.all_append, h, h', Bool.and_self]

namespace TypeName

/-- The mark and the arity behind the name. -/
def arityText (n : TypeName) : String :=
  if n.arity = 0 then "" else arityMark.toString ++ toString n.arity.toNat

theorem fullName_eq (n : TypeName) : n.fullName = n.qualify n.name ++ n.arityText := by
  unfold fullName qualify sourceName arityText
  split <;> split <;> simp only [String.append_assoc, String.append_empty]

theorem isUnmarked_fullName {n : TypeName} (h : isUnmarked (n.qualify n.name) = true) :
    isUnmarked n.fullName = true := by
  rw [fullName_eq]
  refine isUnmarked_append h ?_
  unfold arityText
  split
  · rfl
  · exact isUnmarked_append (by decide) (isUnmarked_toString _)

end TypeName

namespace TypeRef

mutual

/-- No name in the reference has a mark in it, and as many arguments are given as its arity says, if any are. -/
def isLegible : TypeRef → Bool
  | .named target args _ =>
    isUnmarked (target.qualify target.name) && (args.isEmpty || target.arity.toNat = args.length) && isLegibleAll args
  | .param .. => true
  | .array element _ => element.isLegible
  | .pointer pointee _ => pointee.isLegible
  | .byRef referenced => referenced.isLegible
  | .nested declaring name => isUnmarked name && declaring.isLegible

def isLegibleAll : List TypeRef → Bool
  | [] => true
  | r :: rest => r.isLegible && isLegibleAll rest

end

theorem isLegibleAll_eq (rs : List TypeRef) : isLegibleAll rs = rs.all isLegible := by
  induction rs with
  | nil => rfl
  | cons r rest ih => simp [isLegibleAll, ih]

/-! ## Texts, shape by shape -/

theorem text_open (target : TypeName) (v : Bool) : (named target [] v).text = target.fullName := rfl

theorem toList_text_closed (target : TypeName) {args : List TypeRef} (hargs : args ≠ []) (v : Bool) :
    (named target args v).text.toList = (target.qualify target.name).toList ++
      '<' :: ([','].intercalate (args.map (·.text.toList)) ++ ['>']) := by
  obtain ⟨arg, rest, rfl⟩ := List.exists_cons_of_ne_nil hargs
  rw [text, textAll_eq]
  · simp [Function.comp_def]
  · simp

theorem toList_text_array (element : TypeRef) (rank : UInt32) :
    (array element rank).text.toList =
      element.text.toList ++ '[' :: (List.replicate (rank.toNat - 1) ',' ++ [']']) := by
  simp [text]

theorem toList_text_byRef (referenced : TypeRef) : (byRef referenced).text.toList = referenced.text.toList ++ ['&'] := by
  simp [text]

theorem toList_text_nested (declaring : TypeRef) (name : String) :
    (nested declaring name).text.toList = declaring.text.toList ++ '+' :: name.toList := by
  simp [text]

/-- What is left of a pointer when its last mark is taken off. -/
def pointedAt (pointee : TypeRef) (depth : UInt32) : TypeRef :=
  if depth.toNat ≤ 1 then pointee else .pointer pointee (depth - 1)

theorem toList_text_pointer (pointee : TypeRef) (depth : UInt32) :
    (pointer pointee depth).text.toList = (pointedAt pointee depth).text.toList ++ ['*'] := by
  unfold pointedAt
  split
  · rename_i hle
    simp [text, Nat.max_eq_right hle]
  · rename_i hlt
    have hdepth : max depth.toNat 1 = max (depth - 1).toNat 1 + 1 := by
      have hone : (1 : UInt32) ≤ depth := by
        rw [UInt32.le_iff_toNat_le]
        exact Nat.le_of_lt (Nat.lt_of_not_le hlt)
      have := UInt32.toNat_sub_of_le _ _ hone
      simp only [UInt32.toNat_one] at this
      omega
    simp [text, hdepth, List.replicate_succ']

@[simp] theorem isLegible_pointedAt (pointee : TypeRef) (depth : UInt32) :
    (pointedAt pointee depth).isLegible = pointee.isLegible := by
  unfold pointedAt
  split <;> rfl

@[simp] theorem mentions_pointedAt (pointee : TypeRef) (depth : UInt32) :
    (pointedAt pointee depth).mentions = pointee.mentions := by
  unfold pointedAt
  split <;> rfl

/-! ## Reading -/

/-- The last mark in the text of a reference. -/
def mark? : TypeRef → Option Char
  | .named _ args _ => if args.isEmpty then none else some '>'
  | .param .. => some '!'
  | .array .. => some ']'
  | .pointer .. => some '*'
  | .byRef .. => some '&'
  | .nested .. => some '+'

theorem lastMark?_append_of_filter_eq_nil {s r : List Char} (h : r.filter (· ∈ textMarks) = []) :
    lastMark? (s ++ r) = lastMark? s := by
  rw [lastMark?, List.filter_append, h, List.append_nil, lastMark?]

theorem lastMark?_concat {s : List Char} {mark : Char} (h : mark ∈ textMarks) : lastMark? (s ++ [mark]) = some mark := by
  simp [lastMark?, h]

theorem lastMark?_text {r : TypeRef} (h : r.isLegible = true) : lastMark? r.text.toList = r.mark? := by
  cases r with
  | named target args v =>
    simp only [isLegible, Bool.and_eq_true] at h
    by_cases hargs : args = []
    · subst hargs
      rw [text_open, lastMark?, filter_of_isUnmarked (TypeName.isUnmarked_fullName h.1.1)]
      rfl
    · -- the closing bracket is the last character
      rw [toList_text_closed target hargs, ← List.cons_append, ← List.append_assoc, lastMark?_concat (by decide)]
      simp [mark?, hargs]
  | param key name constraints =>
    obtain ⟨owner | owner, position⟩ := key
    · rw [text, String.toList_append, lastMark?_append_of_filter_eq_nil (filter_of_isUnmarked (isUnmarked_toString _))]
      rfl
    · rw [text, String.toList_append, lastMark?_append_of_filter_eq_nil (filter_of_isUnmarked (isUnmarked_toString _))]
      rfl
  | array element rank =>
    rw [toList_text_array, ← List.cons_append, ← List.append_assoc, lastMark?_concat (by decide), mark?]
  | pointer pointee depth => rw [toList_text_pointer, lastMark?_concat (by decide), mark?]
  | byRef referenced => rw [toList_text_byRef, lastMark?_concat (by decide), mark?]
  | nested declaring name =>
    simp only [isLegible, Bool.and_eq_true] at h
    rw [toList_text_nested, ← List.singleton_append, ← List.append_assoc,
      lastMark?_append_of_filter_eq_nil (filter_of_isUnmarked h.1), lastMark?_concat (by decide), mark?]

open Brackets in
mutual

/-- Brackets in the text of a reference are closed, and commas are inside of them. -/
theorem level_text : ∀ r : TypeRef, r.isLegible = true → Level 0 r.text.toList
  | .named target args v, h => by
    simp only [isLegible, Bool.and_eq_true] at h
    by_cases hargs : args = []
    · subst hargs
      exact level_of_isUnmarked (TypeName.isUnmarked_fullName h.1.1)
    · rw [toList_text_closed target hargs]
      exact (level_of_isUnmarked h.1.1).append (.enclosed (.inl rfl) (.inl rfl) (.intercalate (levelAll_text args h.2)))
  | .param ⟨.type _, position⟩ name constraints, _ => by
    rw [text, String.toList_append]
    exact (level_of_forall (by simp)).append (level_of_isUnmarked (isUnmarked_toString _))
  | .param ⟨.member _, position⟩ name constraints, _ => by
    rw [text, String.toList_append]
    exact (level_of_forall (by simp)).append (level_of_isUnmarked (isUnmarked_toString _))
  | .array element rank, h => by
    rw [toList_text_array]
    exact (level_text element h).append (.enclosed (.inr rfl) (.inr rfl) (level_of_forall (by simp)))
  | .pointer pointee depth, h => by
    rw [text, String.toList_append, String.toList_ofList]
    exact (level_text pointee h).append (level_of_forall (by simp))
  | .byRef referenced, h => by
    rw [toList_text_byRef]
    exact (level_text referenced h).append (level_of_forall (by simp))
  | .nested declaring name, h => by
    simp only [isLegible, Bool.and_eq_true] at h
    rw [toList_text_nested, ← List.singleton_append]
    exact (level_text declaring h.2).append ((level_of_forall (by simp)).append (level_of_isUnmarked h.1))

theorem levelAll_text : ∀ rs : List TypeRef, isLegibleAll rs = true → ∀ s ∈ rs.map (·.text.toList), Level 0 s
  | [], _ => by simp
  | r :: rest, h => by
    simp only [isLegibleAll, Bool.and_eq_true] at h
    exact List.forall_mem_cons.2 ⟨level_text r h.1, levelAll_text rest h.2⟩

end

/-- Closed references of one text have definitions of one name, and arguments of the same texts. -/
theorem closed_of_text {target target' : TypeName} {args args' : List TypeRef} {v v' : Bool}
    (h : (named target args v).isLegible = true) (h' : (named target' args' v').isLegible = true) (hargs : args ≠ [])
    (hargs' : args' ≠ []) (heq : (named target args v).text = (named target' args' v').text) :
    target.fullName = target'.fullName ∧ args.map text = args'.map text := by
  simp only [isLegible, Bool.and_eq_true, Bool.or_eq_true, decide_eq_true_eq, List.isEmpty_iff, hargs, hargs',
    false_or] at h h'
  rw [← String.toList_inj, toList_text_closed target hargs, toList_text_closed target' hargs'] at heq
  obtain ⟨hname, hrest⟩ := Cut.eq_of_append heq (not_mem_of_isUnmarked h.1.1 (by decide))
    (not_mem_of_isUnmarked h'.1.1 (by decide))
  have htexts : args.map (·.text.toList) = args'.map (·.text.toList) :=
    Brackets.eq_of_intercalate (levelAll_text args h.2) (levelAll_text args' h'.2) (by simpa using hargs)
      (by simpa using hargs') (List.append_cancel_right hrest)
  have harity : target.arity = target'.arity := by
    rw [← UInt32.toNat_inj, h.1.2, h'.1.2]
    simpa using congrArg List.length htexts
  constructor
  · rw [TypeName.fullName_eq, TypeName.fullName_eq, String.toList_inj.1 hname, TypeName.arityText, harity,
      TypeName.arityText]
  · have := congrArg (List.map String.ofList) htexts
    simpa [Function.comp_def] using this

theorem array_of_text {element element' : TypeRef} {rank rank' : UInt32}
    (heq : (array element rank).text = (array element' rank').text) : element.text = element'.text := by
  rw [← String.toList_inj, toList_text_array, toList_text_array] at heq
  exact String.toList_inj.1 (Cut.eq_of_append_last heq (by simp) (by simp)).1

theorem pointer_of_text {pointee pointee' : TypeRef} {depth depth' : UInt32}
    (heq : (pointer pointee depth).text = (pointer pointee' depth').text) :
    (pointedAt pointee depth).text = (pointedAt pointee' depth').text := by
  rw [← String.toList_inj, toList_text_pointer, toList_text_pointer] at heq
  exact String.toList_inj.1 (List.append_cancel_right heq)

theorem byRef_of_text {referenced referenced' : TypeRef} (heq : (byRef referenced).text = (byRef referenced').text) :
    referenced.text = referenced'.text := by
  rw [← String.toList_inj, toList_text_byRef, toList_text_byRef] at heq
  exact String.toList_inj.1 (List.append_cancel_right heq)

theorem nested_of_text {declaring declaring' : TypeRef} {name name' : String} (h : isUnmarked name = true)
    (h' : isUnmarked name' = true) (heq : (nested declaring name).text = (nested declaring' name').text) :
    declaring.text = declaring'.text ∧ name = name' := by
  rw [← String.toList_inj, toList_text_nested, toList_text_nested] at heq
  obtain ⟨hdeclaring, hname⟩ := Cut.eq_of_append_last heq (not_mem_of_isUnmarked h (by decide))
    (not_mem_of_isUnmarked h' (by decide))
  exact ⟨String.toList_inj.1 hdeclaring, String.toList_inj.1 hname⟩

/-! ## What is mentioned -/

/-- The full name of the definition that a reference is one to. -/
def fullName? (r : TypeRef) : Option String :=
  r.id?.map (·.fullName)

/-- The full names of the definitions that a reference mentions, outermost first. -/
def fullNames (r : TypeRef) : List String :=
  r.mentions.map (·.fullName)

/-- The modules of these definitions. -/
def modules (r : TypeRef) : List String :=
  r.mentions.map (·.module)

theorem fullNames_named (target : TypeName) (args : List TypeRef) (v : Bool) :
    (named target args v).fullNames = target.fullName :: (args.map fullNames).flatten := by
  rw [fullNames, mentions, mentionsAll_eq, List.map_cons, List.map_flatMap, List.flatMap_def]
  rfl

theorem fullName?_nested (declaring : TypeRef) (name : String) :
    (nested declaring name).fullName? = declaring.fullName?.map (· ++ "+" ++ name) := by
  simp [fullName?, id?, Function.comp_def]

theorem fullNames_nested (declaring : TypeRef) (name : String) :
    (nested declaring name).fullNames = (nested declaring name).fullName?.toList ++ declaring.fullNames := by
  simp [fullNames, fullName?, mentions, Option.toList_map]

theorem length_lt_of_mem_args {target : TypeName} {args : List TypeRef} {v : Bool} {r : TypeRef} (h : r ∈ args) :
    r.text.toList.length < (named target args v).text.toList.length := by
  have hmem : r.text.toList ∈ args.map (·.text.toList) := List.mem_map.2 ⟨r, h, rfl⟩
  have hle := (Brackets.sublist_intercalate hmem).length_le
  rw [toList_text_closed target (List.ne_nil_of_mem h)]
  simp only [List.length_append, List.length_cons]
  omega

/-- Legible references to definitions that have one text have the same full names if the texts of their arguments tell
theirs. -/
theorem fullNames_named_of_text {target target' : TypeName} {args args' : List TypeRef} {v v' : Bool}
    (ha : (named target args v).isLegible = true) (hb : (named target' args' v').isLegible = true)
    (heq : (named target args v).text = (named target' args' v').text)
    (ih : ∀ x ∈ args, ∀ y ∈ args', x.isLegible = true → y.isLegible = true → x.text = y.text →
      x.fullNames = y.fullNames) :
    (named target args v).fullName? = (named target' args' v').fullName? ∧
      (named target args v).fullNames = (named target' args' v').fullNames := by
  have hmark : (named target args v).mark? = (named target' args' v').mark? := by
    rw [← lastMark?_text ha, ← lastMark?_text hb, heq]
  by_cases hargs : args = []
  · obtain rfl : args' = [] := by simpa [mark?, hargs] using hmark
    subst hargs
    have hname : target.fullName = target'.fullName := heq
    simp [fullName?, id?, TypeName.id, fullNames_named, hname]
  · have hargs' : args' ≠ [] := by
      rintro rfl
      simp [mark?, hargs] at hmark
    obtain ⟨hname, htexts⟩ := closed_of_text ha hb hargs hargs' heq
    simp only [isLegible, Bool.and_eq_true, isLegibleAll_eq, List.all_eq_true] at ha hb
    have hnames : args.map fullNames = args'.map fullNames :=
      map_eq_map_of_mem htexts fun x hx y hy => ih x hx y hy (ha.2 x hx) (hb.2 y hy)
    simp [fullName?, id?, TypeName.id, fullNames_named, hname, hnames]

/-- The text of a legible reference tells the full name of its definition, and those of all that it mentions. -/
theorem fullNames_of_text {a b : TypeRef} (ha : a.isLegible = true) (hb : b.isLegible = true) (heq : a.text = b.text) :
    a.fullName? = b.fullName? ∧ a.fullNames = b.fullNames := by
  -- by the length of the text, as a pointer has the text of another pointer in it
  induction hn : a.text.toList.length using Nat.strongRecOn generalizing a b with
  | ind n ih =>
  subst hn
  have hmark : a.mark? = b.mark? := by rw [← lastMark?_text ha, ← lastMark?_text hb, heq]
  cases a with
  | named target args v =>
    cases b with
    | named target' args' v' =>
      refine fullNames_named_of_text ha hb heq fun x hx y _ hxl hyl hxy => ?_
      exact (ih _ (length_lt_of_mem_args hx) hxl hyl hxy rfl).2
    | _ => simp [mark?] at hmark
  | param key name constraints =>
    cases b with
    | param => exact ⟨rfl, rfl⟩
    | _ => simp [mark?] at hmark
  | array element rank =>
    cases b with
    | array element' rank' =>
      have hlt : element.text.toList.length < (array element rank).text.toList.length := by simp [toList_text_array]
      simp only [isLegible] at ha hb
      exact ⟨rfl, (ih _ hlt ha hb (array_of_text heq) rfl).2⟩
    | _ => simp [mark?] at hmark
  | pointer pointee depth =>
    cases b with
    | pointer pointee' depth' =>
      have hlt : (pointedAt pointee depth).text.toList.length < (pointer pointee depth).text.toList.length := by
        simp [toList_text_pointer]
      simp only [isLegible, ← isLegible_pointedAt pointee depth, ← isLegible_pointedAt pointee' depth'] at ha hb
      have hnames := (ih _ hlt ha hb (pointer_of_text heq) rfl).2
      simp only [fullNames, mentions_pointedAt] at hnames
      exact ⟨rfl, hnames⟩
    | _ => simp [mark?] at hmark
  | byRef referenced =>
    cases b with
    | byRef referenced' =>
      have hlt : referenced.text.toList.length < (byRef referenced).text.toList.length := by simp [toList_text_byRef]
      simp only [isLegible] at ha hb
      exact ⟨rfl, (ih _ hlt ha hb (byRef_of_text heq) rfl).2⟩
    | _ => simp [mark?] at hmark
  | nested declaring name =>
    cases b with
    | nested declaring' name' =>
      simp only [isLegible, Bool.and_eq_true] at ha hb
      obtain ⟨htext, rfl⟩ := nested_of_text ha.1 hb.1 heq
      have hlt : declaring.text.toList.length < (nested declaring name).text.toList.length := by
        simp [toList_text_nested]
      obtain ⟨hname, hnames⟩ := ih _ hlt ha.2 hb.2 htext rfl
      simp only [fullNames_nested, fullName?_nested, hname, hnames, and_self]
    | _ => simp [mark?] at hmark

/-- Legible references of one text mention the same definitions if and only if these are of the same modules. -/
theorem mentions_eq_iff_of_text {a b : TypeRef} (ha : a.isLegible = true) (hb : b.isLegible = true)
    (heq : a.text = b.text) : a.mentions = b.mentions ↔ a.modules = b.modules := by
  constructor
  · intro hmentions
    rw [modules, hmentions, modules]
  · intro hmodules
    have hids : a.mentions.map id = b.mentions.map id := by
      refine map_eq_map_of_mem₂ hmodules (fullNames_of_text ha hb heq).2 fun x _ y _ hmodule hname => ?_
      cases x
      cases y
      rw [TypeId.mk.injEq]
      exact ⟨hmodule, hname⟩
    rwa [List.map_id, List.map_id] at hids

end TypeRef

end Exonym
