import Exonym.Proofs.Ledger.Exhaustion
import Exonym.Proofs.Ledger.Uniqueness

/-!
# The account of all decisions

What a register keeps about a decision stands in five places: who holds the name, what the overload group is called, the
decisions of the scope, the scopes there are and the scopes of the symbol. A request that is granted changes them one
after the other, and a name or a group that is there already keeps its entry. Whatever the requests were, granted or
refused, shared by a group or repeated, what can be asked of these places afterwards is what the decisions say, and the
scopes of a symbol are those in which it was granted a name, in the order in which that happened.

The scopes of a register are in no particular order. The decisions are put together scope by scope and sorted, so the
account is proved for every order of the scopes.

Main statements:

* `Ledger.scopesOf_afterRequests`: the scopes of a symbol follow the requests that were granted.
* `Ledger.perm_flatMap_decisionsIn`: the decisions are those of all scopes.
* `Account.Shows.agrees`: what has the ledger's answers agrees with the decisions.
* `IndexedRegister.account_agrees`: a register and a ledger account for all decisions.
-/

namespace Exonym

/-- What can be asked about all decisions. -/
structure Account where
  scopes : List Scope
  decisionsIn : Scope → List Decision
  isTaken : Scope → String → Bool
  scopeDump : Scope → List String
  scopesOf : SymbolId → List Scope
  finalName : SymbolId → Scope → Except NameError String
  /-- Sorted. -/
  decisions : List Decision

/-- The requests that were granted. -/
def granted (told : List (Request × Except NameError String)) : List Request :=
  (told.filter (·.2.toOption.isSome)).map (·.1)

/-- The scopes of the requests for a symbol. -/
def scopesFor (requests : List Request) (id : SymbolId) : List Scope :=
  (requests.filter (·.id.same id)).map (·.scope)

theorem scopesFor_concat (requests : List Request) (r : Request) (id : SymbolId) :
    scopesFor (requests ++ [r]) id = scopesFor requests id ++ if r.id.same id then [r.scope] else [] := by
  unfold scopesFor
  rw [List.filter_append, List.map_append]
  cases h : r.id.same id <;> simp [h]

theorem granted_concat (told : List (Request × Except NameError String)) (r : Request)
    (answer : Except NameError String) :
    granted (told ++ [(r, answer)]) = granted told ++ if answer.toOption.isSome then [r] else [] := by
  unfold granted
  rw [List.filter_append, List.map_append]
  cases h : answer.toOption.isSome <;> simp [h]

/-- All answers go back to the decisions of the scopes, and these to the requests that were granted. -/
structure Account.Agrees (a : Account) (requests : List Request) : Prop where
  scopes : a.scopes.Nodup ∧ ∀ s, s ∈ a.scopes ↔ a.decisionsIn s ≠ []
  decisionsIn : ∀ s, ∀ d ∈ a.decisionsIn s, d.scope = s
  isTaken : ∀ s name, a.isTaken s name = true ↔ ∃ d ∈ a.decisionsIn s, d.finalName = name
  /-- One line for each name, with one of those that have it. -/
  scopeDump : ∀ s, ∃ entries : List (String × Holder), (entries.map (·.1)).Nodup ∧
    (∀ name, name ∈ entries.map (·.1) ↔ ∃ d ∈ a.decisionsIn s, d.finalName = name) ∧
    (∀ e ∈ entries, ∃ d ∈ a.decisionsIn s, d.finalName = e.1 ∧ d.holder = e.2) ∧
    (a.scopeDump s).Perm (entries.map fun e => e.1 ++ " -> " ++ e.2.text)
  scopesOf : ∀ id, (a.scopesOf id).Nodup ∧
    (∀ s, s ∈ a.scopesOf id ↔ ∃ d ∈ a.decisionsIn s, d.id.same id = true) ∧
    a.scopesOf id = (scopesFor requests id).eraseDups
  finalName_ok : ∀ id s, ∀ d ∈ a.decisionsIn s, d.id.same id = true → a.finalName id s = .ok d.finalName
  finalName_error : ∀ id s, s ∉ a.scopesOf id →
    a.finalName id s = .error (.noDecision id (.scope s) (a.scopesOf id))
  decisions : a.decisions.Perm (a.scopes.flatMap a.decisionsIn) ∧
    a.decisions.Pairwise fun d e => (d.order e).isLE = true

instance : Std.TransCmp Decision.order :=
  inferInstanceAs (Std.TransCmp (compareLex (compareOn (·.scope.key))
    (compareLex (compareOn Decision.finalName) (compareOn Decision.id))))

namespace Ledger

variable {l : Ledger}

/-! ## Scopes -/

theorem mem_scopes {s : Scope} : s ∈ l.scopes ↔ l.decisionsIn s ≠ [] := by
  simp [scopes, decisionsIn]

theorem mem_scopesOf {id : SymbolId} {s : Scope} :
    s ∈ l.scopesOf id ↔ ∃ d ∈ l.decisionsIn s, d.id.same id = true := by
  simp only [scopesOf, List.mem_map, List.mem_filter, mem_decisionsIn]
  grind

theorem perm_flatMap_decisionsIn (l : Ledger) : (l.scopes.flatMap l.decisionsIn).Perm l.decisions :=
  Grouping.perm_flatMap_filter (Grouping.nodup_eraseDups _) fun _ hd => by
    simpa [scopes] using ⟨_, hd, rfl⟩

/-! ## Requests that were granted -/

theorem transcript_concat (l : Ledger) (requests : List Request) (r : Request) :
    l.transcript (requests ++ [r]) = l.transcript requests ++ [(r, (l.afterRequests requests).outcome r)] := by
  induction requests generalizing l with
  | nil => rfl
  | cons first rest ih =>
    rw [List.cons_append, transcript, transcript, ih, List.cons_append]
    rfl

/-- A granted request adds its scope to those of its symbol, unless it is one of them. -/
theorem scopesOf_of_reserve {after : Ledger} {r : Request} {name : String} (h : l.reserve r = .ok (name, after))
    (id : SymbolId) : after.scopesOf id =
      if r.id.same id = true ∧ r.scope ∉ l.scopesOf id then l.scopesOf id ++ [r.scope] else l.scopesOf id := by
  obtain ⟨d, hd, -, -, rfl⟩ | ⟨hnew, a, -, -, rfl⟩ := reserve_eq_ok_iff.1 h
  · rw [if_neg]
    rintro ⟨hid, hscope⟩
    obtain ⟨hd, hs, hsame⟩ := mem_of_decision? hd
    refine hscope (mem_scopesOf.2 ⟨d, mem_decisionsIn.2 ⟨hd, hs⟩, ?_⟩)
    rw [SymbolId.same_iff] at hid hsame ⊢
    exact hsame.trans hid
  · rw [scopesOf_append]
    change _ ++ (if r.id.same id = true then [r.scope] else []) = _
    by_cases hid : r.id.same id = true
    · -- the request is a new one, so the symbol has no name in this scope yet
      have hscope : r.scope ∉ l.scopesOf id := by
        intro hscope
        obtain ⟨d, hd, hsame⟩ := mem_scopesOf.1 hscope
        obtain ⟨hd, hs⟩ := mem_decisionsIn.1 hd
        rw [SymbolId.same_iff, ← SymbolId.same_iff.1 hid, ← SymbolId.same_iff,
          decision?_eq_none_iff.1 hnew d hd hs] at hsame
        cases hsame
      rw [if_pos hid, if_pos ⟨hid, hscope⟩]
    · rw [if_neg hid, if_neg fun h => hid h.1, List.append_nil]

/-- The scopes of a symbol are those in which it was granted a name, in this order. -/
theorem scopesOf_afterRequests (settings : NameSettings) (requests : List Request) (id : SymbolId) :
    ((empty settings).afterRequests requests).scopesOf id =
      (scopesFor (granted ((empty settings).transcript requests)) id).eraseDups := by
  induction requests using List.reverseRecOn with
  | nil => rfl
  | append_singleton requests r ih =>
    rw [transcript_concat, granted_concat, afterRequests_append]
    change (((empty settings).afterRequests requests).afterRequest r).scopesOf id = _
    unfold afterRequest outcome
    cases h : ((empty settings).afterRequests requests).reserve r with
    | error e => simpa [Except.toOption, Except.map] using ih
    | ok told =>
      have hsome : ((Except.ok told : Except NameError (String × Ledger)).map (·.1)).toOption.isSome = true := rfl
      rw [if_pos hsome, scopesFor_concat]
      change told.2.scopesOf id = _
      rw [scopesOf_of_reserve h id, ih]
      -- what is granted to another symbol changes neither side
      by_cases hid : r.id.same id = true
      · rw [if_pos hid, eraseDups_concat]
        simp only [hid, List.mem_eraseDups, true_and, ite_not]
      · rw [if_neg hid, List.append_nil, if_neg fun h => hid h.1]

/-! ## What the ledger answers -/

/-- All that can be asked of a ledger. -/
def account (l : Ledger) : Account where
  scopes := l.scopes
  decisionsIn := l.decisionsIn
  isTaken := l.isTaken
  scopeDump := l.scopeDump
  scopesOf := l.scopesOf
  finalName := l.finalName
  decisions := l.sortedDecisions

theorem finalName_eq_error {id : SymbolId} {s : Scope} (h : s ∉ l.scopesOf id) :
    l.finalName id s = .error (.noDecision id (.scope s) (l.scopesOf id)) := by
  have hnone : l.decision? id s = none := decision?_eq_none_iff.2 fun d hd hs =>
    Bool.eq_false_iff.2 fun hid => h (mem_scopesOf.2 ⟨d, mem_decisionsIn.2 ⟨hd, hs⟩, hid⟩)
  unfold finalName
  rw [hnone]

end Ledger

/-- The answers are those of the ledger; the scopes may come in another order. -/
structure Account.Shows (a : Account) (l : Ledger) : Prop where
  scopes : a.scopes.Perm l.scopes
  decisionsIn : a.decisionsIn = l.decisionsIn
  isTaken : a.isTaken = l.isTaken
  scopeDump : a.scopeDump = l.scopeDump
  scopesOf : a.scopesOf = l.scopesOf
  finalName : a.finalName = l.finalName
  decisions : a.decisions.Perm l.decisions
  sorted : a.decisions.Pairwise fun d e => (d.order e).isLE = true

/-- What has the answers of a ledger agrees with its decisions. -/
theorem Account.Shows.agrees {a : Account} {l : Ledger} (h : a.Shows l) (hl : l.Coherent) {requests : List Request}
    (hrequests : ∀ id, l.scopesOf id = (scopesFor requests id).eraseDups) :
    a.Agrees requests where
  scopes := by
    refine ⟨h.scopes.nodup_iff.2 (Grouping.nodup_eraseDups _), fun s => ?_⟩
    rw [h.scopes.mem_iff, h.decisionsIn]
    exact Ledger.mem_scopes
  decisionsIn := by
    rw [h.decisionsIn]
    exact fun s d hd => (Ledger.mem_decisionsIn.1 hd).2
  isTaken := by
    rw [h.isTaken, h.decisionsIn]
    exact fun s name => Ledger.isTaken_iff
  scopeDump := by
    rw [h.scopeDump, h.decisionsIn]
    intro s
    obtain ⟨entries, hnames, hholders, hperm⟩ := l.exists_scopeDump_perm s
    refine ⟨entries, hnames ▸ l.nodup_heldNames s, fun name => ?_, fun e he => ?_, hperm⟩
    · rw [hnames, Ledger.mem_heldNames, Ledger.isTaken_iff]
    · have hholder := hholders e he
      rw [Ledger.holder?_eq_find?] at hholder
      obtain ⟨d, hd, hheld⟩ := Option.map_eq_some_iff.1 hholder
      exact ⟨d, List.mem_of_find?_eq_some hd, by simpa using List.find?_some hd, hheld⟩
  scopesOf := by
    rw [h.scopesOf, h.decisionsIn]
    exact fun id => ⟨hl.nodup_scopesOf id, fun s => Ledger.mem_scopesOf, hrequests id⟩
  finalName_ok := by
    rw [h.finalName, h.decisionsIn]
    intro id s d hd hid
    obtain ⟨hmem, rfl⟩ := Ledger.mem_decisionsIn.1 hd
    exact hl.finalName_eq hmem hid
  finalName_error := by
    rw [h.finalName, h.scopesOf]
    exact fun id s => Ledger.finalName_eq_error
  decisions := by
    refine ⟨h.decisions.trans (l.perm_flatMap_decisionsIn.symm.trans ?_), h.sorted⟩
    rw [h.decisionsIn]
    exact h.scopes.symm.flatMap_right _

theorem Ledger.shows_account (l : Ledger) : l.account.Shows l where
  scopes := .refl _
  decisionsIn := rfl
  isTaken := rfl
  scopeDump := rfl
  scopesOf := rfl
  finalName := rfl
  decisions := List.mergeSort_perm _ _
  sorted := pairwise_sort id _

/-! ## What a register answers -/

namespace IndexedRegister

/-- The requests of a sequence, each with what it is told when its turn comes. -/
def transcript (g : IndexedRegister) : List Request → List (Request × Except NameError String)
  | [] => []
  | r :: rest => (r, (g.reserve r).1) :: (g.reserve r).2.transcript rest

/-- The name of a symbol in a scope. -/
def finalName (g : IndexedRegister) (id : SymbolId) (s : Scope) : Except NameError String :=
  match (g.register.tables s).decisions.find? (·.id.same id) with
  | some d => .ok d.finalName
  | none => .error (.noDecision id (.scope s) (g.scopesOf id))

/-- All that can be asked of a register whose scopes come in the given order. -/
def account (g : IndexedRegister) (order : List Scope) : Account where
  scopes := order
  decisionsIn := g.decisionsIn
  isTaken := g.isTaken
  scopeDump := g.scopeDump
  scopesOf := g.scopesOf
  finalName := g.finalName
  decisions := (order.flatMap g.decisionsIn).mergeSort fun d e => (d.order e).isLE

variable {g : IndexedRegister} {l : Ledger}

theorem Mirrors.transcript_eq (h : g.Mirrors l) (requests : List Request) :
    g.transcript requests = l.transcript requests := by
  induction requests generalizing g l with
  | nil => rfl
  | cons r rest ih =>
    obtain ⟨htold, hafter⟩ := h.reserve r
    rw [transcript, Ledger.transcript, htold, ih hafter]

theorem Mirrors.finalName_eq (h : g.Mirrors l) (id : SymbolId) (s : Scope) : g.finalName id s = l.finalName id s := by
  have hdecision : (g.register.tables s).decisions.find? (·.id.same id) = l.decision? id s := by
    rw [(h.register.lists s).decisions, ← Ledger.decision?_eq_find?]
  unfold finalName Ledger.finalName
  cases hd : l.decision? id s with
  | some d => simp only [hdecision, hd]
  | none => simp only [hdecision, hd, h.scopesOf]

theorem Mirrors.shows_account (h : g.Mirrors l) {order : List Scope} (horder : order.Perm g.opened) :
    (g.account order).Shows l := by
  have hscopes : order.Perm l.scopes := h.opened ▸ horder
  have hshows := h.shows
  have hdecisionsIn : g.decisionsIn = l.decisionsIn := funext hshows.decisionsIn
  refine ⟨hscopes, hdecisionsIn, ?_, funext hshows.scopeDump, funext hshows.scopesOf, ?_, ?_, pairwise_sort id _⟩
  · exact funext fun s => funext fun name => hshows.isTaken s name
  · exact funext fun id => funext fun s => h.finalName_eq id s
  · refine (List.mergeSort_perm _ _).trans ?_
    rw [hdecisionsIn]
    exact (hscopes.flatMap_right _).trans l.perm_flatMap_decisionsIn

/-- After any requests, a ledger and a register account for all decisions, in whatever order the register has its
scopes. -/
theorem account_agrees (settings : NameSettings) (requests : List Request) :
    ((Ledger.empty settings).afterRequests requests).account.Agrees
        (granted ((Ledger.empty settings).transcript requests)) ∧
      ∀ order, order.Perm ((empty settings).afterRequests requests).opened →
        (((empty settings).afterRequests requests).account order).Agrees
          (granted ((empty settings).transcript requests)) := by
  have hcoherent := Ledger.coherent_afterRequests (Ledger.coherent_empty settings) requests
  have hscopesOf := Ledger.scopesOf_afterRequests settings requests
  have hstart := mirrors_empty settings
  refine ⟨(Ledger.shows_account _).agrees hcoherent hscopesOf, fun order horder => ?_⟩
  rw [hstart.transcript_eq]
  exact ((hstart.afterRequests requests).shows_account horder).agrees hcoherent hscopesOf

/-- Requests for two methods of a group, for a field of the same name, for one of the methods under another name, and for
the other method in a view. -/
def bagRequests : List Request :=
  let request signature base := Request.of (.member (.of "app" "App.Bag" "Add" signature)) base
    (.ofSurface ⟨"app", "App.Bag"⟩ false)
  [{ request "()" "Add" with group := some "Add" }, { request "(System.Int32)" "Add" with group := some "Add" },
    request "" "Add", request "()" "Put",
    { request "(System.Int32)" "Add" with scope := .ofView ⟨"app", "App.Bag"⟩ ⟨"app", "App.IBag"⟩ false }]

/-- Without suffixes to try, the field is refused, and so is the other name. -/
theorem account_agrees_of_bagRequests :
    let settings := { NameSettings.default with maxSuffixAttempts := 0 }
    let g := (empty settings).afterRequests bagRequests
    g.opened.length = 2 ∧ (granted ((empty settings).transcript bagRequests)).length = 3 ∧
      g.opened.reverse.Perm g.opened ∧
      (g.account g.opened.reverse).Agrees (granted ((empty settings).transcript bagRequests)) := by
  intro settings g
  have hperm : g.opened.reverse.Perm g.opened := List.reverse_perm _
  exact ⟨by decide +kernel, by decide +kernel, hperm, (account_agrees settings bagRequests).2 _ hperm⟩

end IndexedRegister

end Exonym
