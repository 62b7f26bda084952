import Exonym.Symbol
import Mathlib.Data.List.Perm.Basic

/-!
# Traversals that may fail

A traversal succeeds exactly when every single step does, and its result stands in the place of what it was made
from. Both are said with `List.Forall₂`, for lists and for the members of a type. Lists that correspond in this sense
give results that correspond, whatever is done with them.

Main statements:

* `mapM_eq_ok_iff`: a successful traversal of a list, element by element.
* `exists_mapM_of_forall₂`, `exists_mapM_of_perm`: traversals of lists that correspond, or differ in their order.
* `find?_of_forall₂`, `flatMap_eq_flatMap_iff`: searches and concatenations of lists that correspond.
* `Members.infos_of_traverseInfo`, `Members.exists_traverseInfo_eq_ok`: the same for what members share.
-/

namespace Exonym

theorem bind_eq_ok {ε α β : Type} {x : Except ε α} {f : α → Except ε β} {b : β} (h : x >>= f = .ok b) :
    ∃ a, x = .ok a ∧ f a = .ok b := by
  cases x with
  | error e => simp [bind, Except.bind] at h
  | ok a => exact ⟨a, rfl, h⟩

/-- What is observed of a result shows that there is one. -/
theorem exists_of_any {ε α : Type} {x : Except ε α} {p : α → Bool} (h : x.toOption.any p = true) :
    ∃ a, x = .ok a ∧ p a = true := by
  cases x with
  | error e => simp [Except.toOption] at h
  | ok a => exact ⟨a, rfl, by simpa [Except.toOption] using h⟩

theorem mapM_eq_ok_iff {ε α β : Type} {f : α → Except ε β} {xs : List α} {ys : List β} :
    xs.mapM f = .ok ys ↔ List.Forall₂ (fun x y => f x = .ok y) xs ys := by
  induction xs generalizing ys with
  | nil => simp [pure, Except.pure, eq_comm]
  | cons x rest ih =>
    rw [List.mapM_cons, List.forall₂_cons_left_iff]
    cases hx : f x with
    | error e => simp [bind, Except.bind]
    | ok y =>
      cases hrest : rest.mapM f with
      | error e => simp [bind, Except.bind, ← ih, hrest]
      | ok ys' => simp [bind, Except.bind, pure, Except.pure, ← ih, hrest, eq_comm]

/-- Where a traversal fails, a step of it does. -/
theorem exists_of_mapM_error {ε α β : Type} {f : α → Except ε β} {xs : List α} {e : ε} (h : xs.mapM f = .error e) :
    ∃ x ∈ xs, f x = .error e := by
  induction xs with
  | nil => cases h
  | cons x rest ih =>
    rw [List.mapM_cons] at h
    cases hx : f x with
    | error cause =>
      obtain rfl : cause = e := by simpa [hx, bind, Except.bind] using h
      exact ⟨x, List.mem_cons_self, hx⟩
    | ok y =>
      cases hrest : rest.mapM f with
      | error cause =>
        obtain rfl : cause = e := by simpa [hx, hrest, bind, Except.bind] using h
        obtain ⟨x', hx', herror⟩ := ih hrest
        exact ⟨x', List.mem_cons_of_mem _ hx', herror⟩
      | ok ys => simp [hx, hrest, bind, Except.bind, pure, Except.pure] at h

theorem exists_of_forM_error {ε α : Type} {f : α → Except ε Unit} {xs : List α} {e : ε}
    (h : xs.forM f = .error e) : ∃ x ∈ xs, f x = .error e := by
  induction xs with
  | nil => cases h
  | cons x rest ih =>
    change (f x >>= fun _ => rest.forM f) = _ at h
    cases hx : f x with
    | error cause =>
      obtain rfl : cause = e := by simpa [hx, bind, Except.bind] using h
      exact ⟨x, List.mem_cons_self, hx⟩
    | ok done =>
      obtain ⟨x', hx', herror⟩ := ih (by simpa [hx, bind, Except.bind] using h)
      exact ⟨x', List.mem_cons_of_mem _ hx', herror⟩

theorem forM_eq_ok_iff {ε α : Type} {f : α → Except ε Unit} {xs : List α} :
    xs.forM f = .ok () ↔ ∀ x ∈ xs, f x = .ok () := by
  induction xs with
  | nil => simp [pure, Except.pure]
  | cons x rest ih =>
    rw [List.forall_mem_cons, ← ih]
    change (f x >>= fun _ => rest.forM f) = _ ↔ _
    cases hx : f x with
    | error e => simp [bind, Except.bind]
    | ok done => simp [bind, Except.bind]

/-- A traversal succeeds when every step of it does. -/
theorem exists_mapM_eq_ok {ε α β : Type} {f : α → Except ε β} {xs : List α}
    (h : ∀ x ∈ xs, ∃ y, f x = .ok y) : ∃ ys, xs.mapM f = .ok ys := by
  simp only [mapM_eq_ok_iff]
  induction xs with
  | nil => exact ⟨[], .nil⟩
  | cons x rest ih =>
    obtain ⟨y, hy⟩ := h x (by simp)
    obtain ⟨ys, hys⟩ := ih fun x' hx' => h x' (by simp [hx'])
    exact ⟨y :: ys, .cons hy hys⟩

/-- Traversals that agree on corresponding elements have results that correspond. -/
theorem exists_mapM_of_forall₂ {ε α α' β β' : Type} {R : α → α' → Prop} {S : β → β' → Prop} {f : α → Except ε β}
    {f' : α' → Except ε β'} {xs : List α} {xs' : List α'} {ys : List β} (hxs : List.Forall₂ R xs xs')
    (hf : ∀ x x' y, R x x' → f x = .ok y → ∃ y', f' x' = .ok y' ∧ S y y') (h : xs.mapM f = .ok ys) :
    ∃ ys', xs'.mapM f' = .ok ys' ∧ List.Forall₂ S ys ys' := by
  rw [mapM_eq_ok_iff] at h
  simp only [mapM_eq_ok_iff]
  induction hxs generalizing ys with
  | nil =>
    cases h
    exact ⟨[], .nil, .nil⟩
  | cons hx _ ih =>
    cases h with
    | cons hy hys =>
      obtain ⟨y', hy', hS⟩ := hf _ _ _ hx hy
      obtain ⟨ys', hys', hall⟩ := ih hys
      exact ⟨y' :: ys', .cons hy' hys', .cons hS hall⟩

/-- A traversal of the same elements in another order has the same results in another order. -/
theorem exists_mapM_of_perm {ε α β : Type} {f : α → Except ε β} {xs xs' : List α} {ys : List β} (hperm : xs.Perm xs')
    (h : xs.mapM f = .ok ys) : ∃ ys', xs'.mapM f = .ok ys' ∧ ys.Perm ys' := by
  obtain ⟨ys', hys', hperm'⟩ := List.perm_comp_forall₂ hperm.symm (mapM_eq_ok_iff.1 h)
  exact ⟨ys', mapM_eq_ok_iff.2 hys', hperm'.symm⟩

theorem exists_of_mem_left {α β : Type} {R : α → β → Prop} {xs : List α} {ys : List β}
    (h : List.Forall₂ R xs ys) {x : α} (hx : x ∈ xs) : ∃ y ∈ ys, R x y := by
  induction h with
  | nil => simp at hx
  | cons hxy _ ih =>
    rcases List.mem_cons.1 hx with rfl | hx
    · exact ⟨_, by simp, hxy⟩
    · obtain ⟨y, hy, hR⟩ := ih hx
      exact ⟨y, by simp [hy], hR⟩

theorem exists_of_mem_right {α β : Type} {R : α → β → Prop} {xs : List α} {ys : List β}
    (h : List.Forall₂ R xs ys) {y : β} (hy : y ∈ ys) : ∃ x ∈ xs, R x y :=
  exists_of_mem_left h.flip hy

/-- A relation may be replaced by what it implies for the elements of the lists. -/
theorem forall₂_imp_of_mem {α β : Type} {R S : α → β → Prop} {xs : List α} {ys : List β} (h : List.Forall₂ R xs ys)
    (himp : ∀ x ∈ xs, ∀ y ∈ ys, R x y → S x y) : List.Forall₂ S xs ys := by
  induction h with
  | nil => exact .nil
  | @cons x y xs ys hxy _ ih =>
    refine .cons (himp x (by simp) y (by simp) hxy) (ih ?_)
    exact fun x' hx' y' hy' => himp x' (by simp [hx']) y' (by simp [hy'])

/-- Elements in corresponding places agree on whatever the relation makes them agree on. -/
theorem map_eq_of_forall₂ {α β γ : Type} {R : α → β → Prop} {f : α → γ} {g : β → γ} {xs : List α} {ys : List β}
    (h : List.Forall₂ R xs ys) (hR : ∀ x y, R x y → f x = g y) : xs.map f = ys.map g := by
  induction h with
  | nil => rfl
  | cons hxy _ ih => rw [List.map_cons, List.map_cons, hR _ _ hxy, ih]

/-- A test that does not tell corresponding elements apart finds elements that correspond. -/
theorem find?_of_forall₂ {α β : Type} {R : α → β → Prop} {p : α → Bool} {q : β → Bool} {xs : List α} {ys : List β}
    (h : List.Forall₂ R xs ys) (hR : ∀ x y, R x y → p x = q y) :
    (xs.find? p = none ∧ ys.find? q = none) ∨
      ∃ x y, xs.find? p = some x ∧ ys.find? q = some y ∧ R x y := by
  induction h with
  | nil => exact .inl ⟨rfl, rfl⟩
  | @cons x y xs ys hxy _ ih =>
    by_cases hp : p x = true
    · exact .inr ⟨x, y, by simp [hp], by simp [← hR x y hxy, hp], hxy⟩
    · have hq : ¬q y = true := by rwa [← hR x y hxy]
      simpa [hp, hq] using ih

theorem map_eq_map_iff {α β γ : Type} {f : α → γ} {g : β → γ} {xs : List α} {ys : List β} :
    xs.map f = ys.map g ↔ List.Forall₂ (fun x y => f x = g y) xs ys := by
  rw [← List.forall₂_eq_eq_eq, List.forall₂_map_left_iff, List.forall₂_map_right_iff]

/-- Lists made of parts that have the same lengths are equal exactly when their parts are. -/
theorem flatMap_eq_flatMap_iff {α β γ : Type} {f : α → List γ} {g : β → List γ} {xs : List α} {ys : List β}
    (h : List.Forall₂ (fun x y => (f x).length = (g y).length) xs ys) :
    xs.flatMap f = ys.flatMap g ↔ List.Forall₂ (fun x y => f x = g y) xs ys := by
  induction h with
  | nil => simp
  | cons hlength _ ih =>
    rw [List.flatMap_cons, List.flatMap_cons, List.forall₂_cons, ← ih]
    constructor
    · exact fun heq => List.append_inj heq hlength
    · rintro ⟨hhead, htail⟩
      rw [hhead, htail]

/-- Relations that say the same about elements in corresponding places say the same about the lists. -/
theorem forall₂_iff {α β : Type} {R S : α → β → Prop} {xs : List α} {ys : List β}
    (h : List.Forall₂ (fun x y => R x y ↔ S x y) xs ys) : List.Forall₂ R xs ys ↔ List.Forall₂ S xs ys := by
  induction h with
  | nil => simp
  | cons hiff _ ih => rw [List.forall₂_cons, List.forall₂_cons, hiff, ih]

theorem forall₂_and {α β : Type} {R S : α → β → Prop} {xs : List α} {ys : List β} (hR : List.Forall₂ R xs ys)
    (hS : List.Forall₂ S xs ys) : List.Forall₂ (fun x y => R x y ∧ S x y) xs ys := by
  induction hR with
  | nil => exact .nil
  | cons hxy _ ih =>
    cases hS with
    | cons hxy' hS => exact .cons ⟨hxy, hxy'⟩ (ih hS)

namespace Members

variable {ε : Type} {f : MemberInfo → Except ε MemberInfo}

/-- The members of each kind are traversed on their own. -/
structure Traversed (f : MemberInfo → Except ε MemberInfo) (m m' : Members) : Prop where
  methods : (m.methods.mapM fun x => (f x.info).map fun info => { x with info := info }) = .ok m'.methods
  properties : (m.properties.mapM fun x => (f x.info).map fun info => { x with info := info }) = .ok m'.properties
  fields : (m.fields.mapM fun x => (f x.info).map fun info => { x with info := info }) = .ok m'.fields
  events : (m.events.mapM fun x => (f x.info).map fun info => { x with info := info }) = .ok m'.events
  constructors :
    (m.constructors.mapM fun x => (f x.info).map fun info => { x with info := info }) = .ok m'.constructors

theorem traversed_of_traverseInfo {m m' : Members} (h : m.traverseInfo f = .ok m') : Traversed f m m' := by
  unfold traverseInfo at h
  obtain ⟨methods, hmethods, h⟩ := bind_eq_ok h
  obtain ⟨properties, hproperties, h⟩ := bind_eq_ok h
  obtain ⟨fields, hfields, h⟩ := bind_eq_ok h
  obtain ⟨events, hevents, h⟩ := bind_eq_ok h
  obtain ⟨constructors, hconstructors, h⟩ := bind_eq_ok h
  cases h
  exact ⟨hmethods, hproperties, hfields, hevents, hconstructors⟩

/-- The members of one kind before and after a traversal of what they share. -/
theorem forall₂_of_mapM {α : Type} {g : α → MemberInfo} {p : α → MemberInfo → α} {xs ys : List α}
    (h : (xs.mapM fun x => (f (g x)).map (p x)) = .ok ys) :
    List.Forall₂ (fun x y => ∃ info, f (g x) = .ok info ∧ p x info = y) xs ys := by
  refine (mapM_eq_ok_iff.1 h).imp fun x y hxy => ?_
  cases hf : f (g x) with
  | error e => simp [hf, Except.map] at hxy
  | ok info => exact ⟨info, rfl, by simpa [hf, Except.map] using hxy⟩

theorem forall₂_of_mapM_info {α : Type} {g : α → MemberInfo} {p : α → MemberInfo → α}
    (hp : ∀ x info, g (p x info) = info) {xs ys : List α}
    (h : (xs.mapM fun x => (f (g x)).map (p x)) = .ok ys) :
    List.Forall₂ (fun x y => f (g x) = .ok (g y)) xs ys := by
  refine (forall₂_of_mapM h).imp ?_
  rintro x y ⟨info, hf, rfl⟩
  rw [hp, hf]

theorem exists_mapM_info_eq_ok {α : Type} {g : α → MemberInfo} {p : α → MemberInfo → α} {xs : List α}
    (h : ∀ x ∈ xs, ∃ info, f (g x) = .ok info) :
    ∃ ys, (xs.mapM fun x => (f (g x)).map (p x)) = .ok ys := by
  refine exists_mapM_eq_ok fun x hx => ?_
  obtain ⟨info, hf⟩ := h x hx
  exact ⟨p x info, by rw [hf]; rfl⟩

/-- After a traversal every member stands in its place and shares what the traversal made of it. -/
theorem infos_of_traverseInfo {m m' : Members} (h : m.traverseInfo f = .ok m') :
    List.Forall₂ (fun x y => x.1 = y.1 ∧ f x.2 = .ok y.2) m.infos m'.infos := by
  have ht := traversed_of_traverseInfo h
  have hm := forall₂_of_mapM_info (fun _ _ => rfl) ht.methods
  have hp := forall₂_of_mapM_info (fun _ _ => rfl) ht.properties
  have hf := forall₂_of_mapM_info (fun _ _ => rfl) ht.fields
  have he := forall₂_of_mapM_info (fun _ _ => rfl) ht.events
  have hc := forall₂_of_mapM_info (fun _ _ => rfl) ht.constructors
  unfold infos
  refine List.rel_append (List.rel_append (List.rel_append (List.rel_append ?_ ?_) ?_) ?_) ?_ <;>
    rw [List.forall₂_map_left_iff, List.forall₂_map_right_iff]
  · exact hm.imp fun _ _ h => ⟨rfl, h⟩
  · exact hp.imp fun _ _ h => ⟨rfl, h⟩
  · exact hf.imp fun _ _ h => ⟨rfl, h⟩
  · exact he.imp fun _ _ h => ⟨rfl, h⟩
  · exact hc.imp fun _ _ h => ⟨rfl, h⟩

theorem map_eq_of_mapM_info {α : Type} {g : α → MemberInfo} {p : α → MemberInfo → α} {k : MemberInfo → MemberInfo}
    (hk : ∀ info after, f info = .ok after → k after = k info) {xs ys : List α}
    (h : (xs.mapM fun x => (f (g x)).map (p x)) = .ok ys) (hg : ∀ x info, g (p x info) = info)
    (hp : ∀ x info after, p (p x info) after = p x after) :
    (ys.map fun y => p y (k (g y))) = xs.map fun x => p x (k (g x)) := by
  refine (map_eq_of_forall₂ (forall₂_of_mapM h) ?_).symm
  rintro x y ⟨info, hf, rfl⟩
  rw [hg, hp, hk _ _ hf]

/-- What does not see what a traversal changes sees no difference. -/
theorem mapInfo_of_traverseInfo {m m' : Members} {k : MemberInfo → MemberInfo}
    (hk : ∀ info after, f info = .ok after → k after = k info) (h : m.traverseInfo f = .ok m') :
    (m'.mapInfo fun _ => k) = m.mapInfo fun _ => k := by
  have ht := traversed_of_traverseInfo h
  have hm := map_eq_of_mapM_info hk ht.methods (fun _ _ => rfl) fun _ _ _ => rfl
  have hp := map_eq_of_mapM_info hk ht.properties (fun _ _ => rfl) fun _ _ _ => rfl
  have hf := map_eq_of_mapM_info hk ht.fields (fun _ _ => rfl) fun _ _ _ => rfl
  have he := map_eq_of_mapM_info hk ht.events (fun _ _ => rfl) fun _ _ _ => rfl
  have hc := map_eq_of_mapM_info hk ht.constructors (fun _ _ => rfl) fun _ _ _ => rfl
  unfold mapInfo
  rw [hm, hp, hf, he, hc]

/-- A change to what members share before a traversal is a part of the traversal. -/
theorem traverseInfo_mapInfo (k : MemberInfo → MemberInfo) (m : Members) :
    (m.mapInfo fun _ => k).traverseInfo f = m.traverseInfo fun info => f (k info) := by
  unfold traverseInfo mapInfo
  simp only [List.mapM_map]
  rfl

/-- A traversal succeeds when it succeeds for every member. -/
theorem exists_traverseInfo_eq_ok {m : Members} (h : ∀ x ∈ m.infos, ∃ info, f x.2 = .ok info) :
    ∃ m', m.traverseInfo f = .ok m' := by
  have hmem : ∀ kind info, (kind, info) ∈ m.infos → ∃ after, f info = .ok after :=
    fun kind info hx => h (kind, info) hx
  obtain ⟨methods, hmethods⟩ := exists_mapM_info_eq_ok (p := fun x info => { x with info := info })
    fun x (hx : x ∈ m.methods) => hmem .method x.info (by simp [infos]; grind)
  obtain ⟨properties, hproperties⟩ := exists_mapM_info_eq_ok (p := fun x info => { x with info := info })
    fun x (hx : x ∈ m.properties) => hmem .property x.info (by simp [infos]; grind)
  obtain ⟨fields, hfields⟩ := exists_mapM_info_eq_ok (p := fun x info => { x with info := info })
    fun x (hx : x ∈ m.fields) => hmem .field x.info (by simp [infos]; grind)
  obtain ⟨events, hevents⟩ := exists_mapM_info_eq_ok (p := fun x info => { x with info := info })
    fun x (hx : x ∈ m.events) => hmem .event x.info (by simp [infos]; grind)
  obtain ⟨constructors, hconstructors⟩ := exists_mapM_info_eq_ok (p := fun x info => { x with info := info })
    fun x (hx : x ∈ m.constructors) => hmem .constructor x.info (by simp [infos]; grind)
  refine ⟨⟨methods, properties, fields, events, constructors⟩, ?_⟩
  unfold traverseInfo
  rw [hmethods, hproperties, hfields, hevents, hconstructors]
  rfl

end Members

end Exonym
