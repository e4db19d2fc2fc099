import Lisplet.Proofs.Scope.Bindings
import Lisplet.Scope.Update
import Mathlib.Data.List.Induction

/-!
Families of scopes. Definitions are made in any of the scopes, and scopes are copied; what a scope
binds is told by its own history alone, which for a copy begins with that of its original. Of a
name the last definition counts and the first one gives its place.
-/

namespace Lisplet

abbrev History (α : Type) : Type := List (Symbol × α)

namespace Scope

variable {α : Type}

/-- The scope is the ordered map that a history of definitions makes: each name has its last value,
and the names are listed once, in the order of their first definitions. -/
structure Records (scope : Scope α) (history : History α) : Prop where
  lookup : ∀ name,
    scope.lookup name = (history.reverse.find? fun (k, _) => k = name).map Prod.snd
  contains : ∀ name, scope.contains name ↔ name ∈ history.map Prod.fst
  keys : scope.keys = (history.map Prod.fst).eraseDups
  distinct : scope.keys.Nodup
  names : scope.names.Perm scope.keys
  sorted : scope.names.Pairwise fun a b => a.name < b.name
  size : scope.size = scope.keys.length

theorem ofList_concat (history : History α) (name : Symbol) (a : α) :
    ofList (history ++ [(name, a)]) = (ofList history).define name a :=
  List.foldl_append

theorem keys_ofList (history : History α) :
    (ofList history).keys = (history.map Prod.fst).eraseDups := by
  induction history using List.reverseRecOn with
  | nil => rfl
  | append_singleton history last ih =>
    obtain ⟨name, a⟩ := last
    rw [ofList_concat, keys_define, ih, List.map_append, List.eraseDups_append]
    by_cases bound : name ∈ history.map Prod.fst
    · simp [List.removeAll, bound]
    · simp [List.removeAll, bound, List.eraseDups_cons]

theorem nodup_keys_ofList (history : History α) : (ofList history).keys.Nodup := by
  induction history using List.reverseRecOn with
  | nil => exact .nil
  | append_singleton history last ih =>
    obtain ⟨name, a⟩ := last
    rw [ofList_concat, keys_define]
    split_ifs with bound
    · exact ih
    · refine List.nodup_append.mpr ⟨ih, List.pairwise_singleton _ _, ?_⟩
      rintro key there _ last rfl
      exact bound (List.mem_singleton.mp last ▸ there)

theorem names_perm (scope : Scope α) : scope.names.Perm scope.keys := List.mergeSort_perm _ _

theorem names_sorted {scope : Scope α} (distinct : scope.keys.Nodup) :
    scope.names.Pairwise fun a b => a.name < b.name := by
  have ordered : scope.names.Pairwise fun a b => a.le b := by
    refine List.pairwise_mergeSort (fun a b c first second => ?_) (fun a b => ?_) _
    · exact decide_eq_true (String.le_trans (of_decide_eq_true first) (of_decide_eq_true second))
    · rw [Bool.or_eq_true]
      exact (String.le_total a.name b.name).imp decide_eq_true decide_eq_true
  have unequal : scope.names.Nodup := scope.names_perm.nodup_iff.mpr distinct
  refine (ordered.and unequal).imp fun {a b} ⟨before, differ⟩ => ?_
  refine String.not_le.mp fun after => differ ?_
  have same := String.le_antisymm (of_decide_eq_true before) after
  cases a
  cases b
  cases same
  rfl

theorem records_ofList (history : History α) : (ofList history).Records history := by
  have distinct := nodup_keys_ofList history
  constructor
  · intro name
    exact (lookup_extend empty history name).trans Option.or_none
  · intro name
    rw [contains, ← mem_keys_iff, keys_ofList, List.mem_eraseDups]
  · exact keys_ofList history
  · exact distinct
  · exact names_perm _
  · exact names_sorted distinct
  · exact (List.length_map _).symm

/-- The definitions under the names before the first that is no symbol. -/
def leading : List (Value × Value) → History Value
  | (.symbol name, value) :: rest => (name, value) :: leading rest
  | _ => []

/-- The first name that is no symbol. -/
def offender? : List (Value × Value) → Option Value
  | (.symbol _, _) :: rest => offender? rest
  | (name, _) :: _ => some name
  | [] => none

/-- Of many definitions those before the first name that is no symbol are made. -/
theorem defineAll_eq (scope : Scope Value) (pairs : List (Value × Value)) :
    scope.defineAll pairs = ((offender? pairs).map NameFault.mk, scope.extend (leading pairs)) := by
  fun_induction offender? pairs generalizing scope with
  | case1 name value rest ih => exact ih (scope.define name value)
  | case2 name value rest noSymbol =>
    have refused : scope.defineNamed name value = .error ⟨name⟩ := by
      unfold defineNamed
      split
      · exact absurd rfl (noSymbol _)
      · rfl
    rw [defineAll, refused, leading]
    · rfl
    · exact fun _ _ _ same => noSymbol _ (Prod.mk.inj (List.cons.inj same).1).1
  | case3 => rfl

theorem leading_symbols (made : History Value) (rest : List (Value × Value)) :
    leading (made.map (Prod.map .symbol id) ++ rest) = made ++ leading rest := by
  induction made with
  | nil => rfl
  | cons binding made ih => exact congrArg (binding :: ·) ih

theorem offender?_symbols (made : History Value) (rest : List (Value × Value)) :
    offender? (made.map (Prod.map .symbol id) ++ rest) = offender? rest := by
  induction made with
  | nil => rfl
  | cons binding made ih => exact ih

theorem leading_refused {name : Value} (noSymbol : ∀ s, name ≠ .symbol s) (value : Value)
    (rest : List (Value × Value)) : leading ((name, value) :: rest) = [] := by
  rw [leading]
  exact fun s _ _ same => noSymbol s (Prod.mk.inj (List.cons.inj same).1).1

theorem offender?_refused {name : Value} (noSymbol : ∀ s, name ≠ .symbol s) (value : Value)
    (rest : List (Value × Value)) : offender? ((name, value) :: rest) = some name := by
  rw [offender?]
  exact noSymbol

theorem insertNamed_new {name : Value} {entries : List (Value × Value)}
    (new : ∀ entry ∈ entries, entry.1.isEqual name = false) (value : Value) :
    insertNamed name value entries = entries ++ [(name, value)] := by
  induction entries with
  | nil => rfl
  | cons entry rest ih =>
    obtain ⟨first, others⟩ := List.forall_mem_cons.mp new
    rw [insertNamed, first, ih others]
    rfl

/-- Pairs in which no name comes twice are collected as they are. -/
theorem collect_distinct {pairs : List (Value × Value)}
    (distinct : pairs.Pairwise fun p q => p.1.isEqual q.1 = false) : collect pairs = pairs := by
  induction pairs using List.reverseRecOn with
  | nil => rfl
  | append_singleton pairs last ih =>
    obtain ⟨name, value⟩ := last
    obtain ⟨before, -, apart⟩ := List.pairwise_append.mp distinct
    have longer : collect (pairs ++ [(name, value)]) = insertNamed name value (collect pairs) :=
      List.foldl_append
    rw [longer, ih before]
    exact insertNamed_new (fun entry member => apart entry member _ List.mem_cons_self) value

end Scope

/-- What is done to the scopes of a family, which are told apart by their places. -/
inductive Change where
  | define (place : Nat) (name value : Value)
  | update (place : Nat) (pairs : List (Value × Value))
  /-- Puts a copy of a scope at the end of the family. -/
  | copy (place : Nat)

namespace Change

/-- The place of the scope that is changed. -/
def target? : Change → Option Nat
  | define place _ _ | update place _ => some place
  | copy _ => none

/-- The definitions that are asked for, each name once. -/
def pairs : Change → List (Value × Value)
  | define _ name value => [(name, value)]
  | update _ pairs => Scope.collect pairs
  | copy _ => []

/-- What a change adds to the histories of a family. A copy has the history of its original. -/
def record (histories : List (History Value)) (change : Change) : List (History Value) :=
  match change with
  | define place _ _ | update place _ => histories.modify place (· ++ Scope.leading change.pairs)
  | copy place => histories ++ histories[place]?.toList

end Change

abbrev Family : Type := List (Scope Value)

variable {family : Family} {place : Nat} {scope : Scope Value} {change : Change}

namespace Family

/-- Makes a change. Nothing is done where there is no scope. -/
def after (family : Family) (change : Change) : Option NameFault × Family :=
  match change with
  | .define place name value =>
    match family[place]? with
    | none => (none, family)
    | some scope =>
      match scope.defineNamed name value with
      | .ok scope => (none, family.set place scope)
      | .error fault => (some fault, family)
  | .update place pairs =>
    match family[place]? with
    | none => (none, family)
    | some scope =>
      let (fault, scope) := scope.update pairs
      (fault, family.set place scope)
  | .copy place => (none, family ++ (family[place]?.map Scope.copy).toList)

def afterAll (family : Family) (changes : List Change) : Family :=
  changes.foldl (fun family change => (family.after change).2) family

/-- A change makes those of its definitions that stand before the first name that is no symbol, in
the scope that it is made in. -/
theorem after_eq (here : family[place]? = some scope) (target : change.target? = some place) :
    family.after change = ((Scope.offender? change.pairs).map NameFault.mk,
      family.set place (scope.extend (Scope.leading change.pairs))) := by
  cases change with
  | define place name value =>
    cases target
    have single := scope.defineAll_eq [(name, value)]
    rw [Scope.defineAll] at single
    simp only [after, here]
    cases defined : scope.defineNamed name value with
    | ok next =>
      rw [defined] at single
      obtain ⟨fault, next⟩ := Prod.mk.inj single
      exact Prod.ext fault (congrArg (family.set place) next)
    | error fault =>
      rw [defined] at single
      obtain ⟨fault, same⟩ := Prod.mk.inj single
      obtain ⟨inside, rfl⟩ := List.getElem?_eq_some_iff.mp here
      refine Prod.ext fault ?_
      change family = family.set place (Scope.extend _ (Scope.leading [(name, value)]))
      rw [← same, List.set_getElem_self]
  | update place pairs =>
    cases target
    simp only [after, here]
    exact congrArg (fun found : Option NameFault × Scope Value =>
      (found.1, family.set place found.2)) (scope.defineAll_eq (Scope.collect pairs))
  | copy place => cases target

theorem after_absent (absent : family[place]? = none) (target : change.target? = some place) :
    family.after change = (none, family) := by
  cases change with
  | define | update =>
    cases target
    simp only [after, absent]
  | copy => cases target

theorem after_copy (here : family[place]? = some scope) :
    family.after (.copy place) = (none, family ++ [scope]) := by
  rw [after, here, Option.map_some, Option.toList_some, Scope.copy_eq]

end Family

theorem Change.record_eq (target : change.target? = some place)
    (histories : List (History Value)) :
    change.record histories = histories.modify place (· ++ Scope.leading change.pairs) := by
  cases change with
  | define | update =>
    cases target
    rfl
  | copy => cases target

namespace Family

/-- The step lemma of histories. -/
theorem after_ofList (histories : List (History Value)) (change : Change) :
    (Family.after (histories.map Scope.ofList) change).2 =
      (change.record histories).map Scope.ofList := by
  cases target : change.target? with
  | none =>
    cases change with
    | define | update => cases target
    | copy place =>
      rw [after, Change.record, List.map_append, ← Option.toList_map, List.getElem?_map]
      cases histories[place]? with
      | none => rfl
      | some history => rfl
  | some place =>
    rw [Change.record_eq target]
    cases here : histories[place]? with
    | none =>
      have absent : (histories.map Scope.ofList)[place]? = none := by
        rw [List.getElem?_map, here, Option.map_none]
      rw [after_absent absent target, List.modify_eq_self (List.getElem?_eq_none_iff.mp here)]
    | some history =>
      have found : (histories.map Scope.ofList)[place]? = some (.ofList history) := by
        rw [List.getElem?_map, here, Option.map_some]
      have longer : (Scope.ofList history).extend (Scope.leading change.pairs) =
          .ofList (history ++ Scope.leading change.pairs) := List.foldl_append.symm
      rw [after_eq found target, longer]
      obtain ⟨inside, rfl⟩ := List.getElem?_eq_some_iff.mp here
      apply List.ext_getElem?
      intro other
      rw [List.getElem?_set, List.getElem?_map, List.getElem?_map, List.getElem?_modify]
      by_cases same : place = other
      · subst same
        simp [inside]
      · simp [same]

/-- The run lemma of histories: the scopes of a family are the maps of their histories. -/
theorem afterAll_ofList (histories : List (History Value)) (changes : List Change) :
    Family.afterAll (histories.map Scope.ofList) changes =
      (changes.foldl (fun histories change => change.record histories) histories).map
        Scope.ofList := by
  induction changes generalizing histories with
  | nil => rfl
  | cons change changes ih =>
    rw [afterAll, List.foldl_cons, after_ofList]
    exact ih (change.record histories)

/-- The step lemma of independence: a change leaves all scopes as they are but the one that it is
made in. -/
theorem after_other (here : family[place]? = some scope) (other : change.target? ≠ some place) :
    (family.after change).2[place]? = some scope := by
  cases target : change.target? with
  | none =>
    cases change with
    | define | update => cases target
    | copy => exact (List.getElem?_append_left (List.getElem?_eq_some_iff.mp here).1).trans here
  | some changed =>
    have apart : changed ≠ place := fun same => other (same ▸ target)
    cases there : family[changed]? with
    | none => rwa [after_absent there target]
    | some found => rw [after_eq there target, List.getElem?_set_ne apart, here]

/-- The run lemma of independence. -/
theorem afterAll_other {changes : List Change} (here : family[place]? = some scope)
    (others : ∀ change ∈ changes, change.target? ≠ some place) :
    (family.afterAll changes)[place]? = some scope := by
  induction changes generalizing family with
  | nil => exact here
  | cons change changes ih =>
    obtain ⟨first, rest⟩ := List.forall_mem_cons.mp others
    exact ih (after_other here first) rest

/-- Each scope of a family is an ordered map of its own. Whatever has been defined, updated and
copied, a scope is the map that its own history makes. What is done to other scopes leaves it as it
is, and a copy is one more scope. A definition under a name that is no symbol changes nothing, and
of a mapping the pairs before the first such name are defined. -/
theorem scopes_are_maps :
    (∀ (initial : List (History Value)) (changes : List Change),
      let family := Family.afterAll (initial.map .ofList) changes
      let histories := changes.foldl (fun histories change => change.record histories) initial
      family.length = histories.length ∧
      ∀ (place : Nat) (scope : Scope Value), family[place]? = some scope →
        ∃ history, histories[place]? = some history ∧ scope.Records history) ∧
    ∀ (family : Family) (place : Nat) (scope : Scope Value), family[place]? = some scope →
      (∀ changes : List Change, (∀ change ∈ changes, change.target? ≠ some place) →
        (family.afterAll changes)[place]? = some scope) ∧
      family.after (.copy place) = (none, family ++ [scope]) ∧
      (∀ s value, family.after (.define place (.symbol s) value) =
        (none, family.set place (scope.define s value))) ∧
      (∀ name value, (∀ s, name ≠ .symbol s) →
        family.after (.define place name value) = (some ⟨name⟩, family)) ∧
      ∀ made : History Value,
        (∀ mapping : List (Value × Value), mapping = made.map (Prod.map .symbol id) →
          (mapping.Pairwise fun p q => p.1.isEqual q.1 = false) →
          family.after (.update place mapping) = (none, family.set place (scope.extend made))) ∧
        ∀ (mapping : List (Value × Value)) (name value : Value) (rest : List (Value × Value)),
          mapping = made.map (Prod.map .symbol id) ++ (name, value) :: rest →
          (mapping.Pairwise fun p q => p.1.isEqual q.1 = false) → (∀ s, name ≠ .symbol s) →
          family.after (.update place mapping) =
            (some ⟨name⟩, family.set place (scope.extend made)) := by
  constructor
  · intro initial changes family histories
    have maps : family = histories.map .ofList := afterAll_ofList initial changes
    refine ⟨by rw [maps, List.length_map], fun place scope here => ?_⟩
    rw [maps, List.getElem?_map] at here
    obtain ⟨history, found, rfl⟩ := Option.map_eq_some_iff.mp here
    exact ⟨history, found, Scope.records_ofList history⟩
  intro family place scope here
  obtain ⟨inside, stands⟩ := List.getElem?_eq_some_iff.mp here
  refine ⟨fun changes others => afterAll_other here others, after_copy here,
    fun s value => after_eq here rfl, fun name value noSymbol => ?_, fun made => ⟨?_, ?_⟩⟩
  · have unchanged : family.set place scope = family := by
      rw [← stands, List.set_getElem_self]
    rw [after_eq here rfl, Change.pairs, Scope.offender?_refused noSymbol,
      Scope.leading_refused noSymbol]
    exact congrArg _ unchanged
  · intro mapping split distinct
    have offender := Scope.offender?_symbols made []
    have leading : Scope.leading (made.map (Prod.map .symbol id) ++ []) = made ++ [] :=
      Scope.leading_symbols made []
    rw [List.append_nil, ← split] at offender leading
    rw [after_eq here rfl, Change.pairs, Scope.collect_distinct distinct, offender, leading,
      List.append_nil]
    rfl
  · intro mapping name value rest split distinct noSymbol
    rw [after_eq here rfl, Change.pairs, Scope.collect_distinct distinct, split,
      Scope.offender?_symbols, Scope.leading_symbols, Scope.offender?_refused noSymbol,
      Scope.leading_refused noSymbol, List.append_nil]
    rfl

/-- A copy of which one name is defined again, and an update that stops at a keyword. -/
theorem scopes_are_maps_copied :
    let a : Symbol := ⟨"a"⟩
    let b : Symbol := ⟨"b"⟩
    let key : Value := .keyword ⟨"a"⟩
    let initial : List (History Value) := [[(a, .bool true)]]
    let changes : List Change := [.copy 0, .define 1 (.symbol b) .nil,
      .define 1 (.symbol a) (.bool false), .define 0 (.symbol b) (.bool true)]
    let copied : Scope Value := ⟨[(a, .bool false), (b, .nil)]⟩
    let family := Family.afterAll (initial.map .ofList) changes
    let made : History Value := [(b, .bool false), (⟨"c"⟩, .nil)]
    let symbols : List (Value × Value) := made.map (Prod.map .symbol id)
    let mapping : List (Value × Value) := symbols ++ [(key, .nil), (.symbol a, .nil)]
    (family[1]? = some copied ∧
      (∀ change ∈ [Change.define 0 key .nil, .copy 1], change.target? ≠ some 1) ∧
      (∀ s, key ≠ .symbol s) ∧ (symbols.Pairwise fun p q => p.1.isEqual q.1 = false) ∧
      mapping.Pairwise fun p q => p.1.isEqual q.1 = false) ∧
    (∃ history, (changes.foldl (fun histories change => change.record histories) initial)[1]? =
      some history ∧ copied.Records history) ∧
    (family.afterAll [.define 0 key .nil, .copy 1])[1]? = some copied ∧
    family.after (.define 1 key .nil) = (some ⟨key⟩, family) ∧
    family.after (.update 1 symbols) = (none, family.set 1 (copied.extend made)) ∧
    family.after (.update 1 mapping) = (some ⟨key⟩, family.set 1 (copied.extend made)) := by
  intro a b key initial changes copied family made symbols mapping
  have here : family[1]? = some copied := rfl
  have others : ∀ change ∈ [Change.define 0 key .nil, .copy 1], change.target? ≠ some 1 := by
    simp [Change.target?]
  have noSymbol : ∀ s, key ≠ .symbol s := by simp [key]
  have distinct : mapping.Pairwise fun p q => p.1.isEqual q.1 = false := by decide +kernel
  have apart : symbols.Pairwise fun p q => p.1.isEqual q.1 = false :=
    (List.pairwise_append.mp distinct).1
  obtain ⟨alone, -, -, refused, updated⟩ := scopes_are_maps.2 family 1 copied here
  refine ⟨⟨here, others, noSymbol, apart, distinct⟩, ?_, ?_, ?_, ?_, ?_⟩
  · exact (scopes_are_maps.1 initial changes).2 1 copied here
  · exact alone [.define 0 key .nil, .copy 1] others
  · exact refused key .nil noSymbol
  · exact (updated made).1 symbols rfl apart
  · exact (updated made).2 mapping key .nil [(.symbol a, .nil)] rfl distinct noSymbol

end Family
end Lisplet
