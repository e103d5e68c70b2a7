import Lox.Environment.Action
import Mathlib
/-!
# Environment chains

A name is looked up in an environment and then along its parents. In terms of
the history alone: the value found is the latest one defined for the name in the
nearest environment on the way up that has ever defined it
(`Environments.Records.lookup?_eq_some_iff`). A definition is found from where it
is seen (`Environments.Records.lookup?_define_of_sees`) and changes nothing
elsewhere (`Environments.Records.lookup?_define_of_not_sees`). All this follows
one step at a time from `Records`, which says how the environments that a history
leaves stand for the history (`Environments.records_after`).
-/

namespace Lox

namespace Environments

/-! ## What a history says -/

/-- The parents of the environments that are created, in the order of their
numbers. -/
def parents (history : List Action) : List (Option Nat) :=
  history.filterMap fun
    | .create parent => some parent
    | _ => none

/-- The values that are defined for a name in an environment, in order. -/
def definitions (number : Nat) (name : Name) (history : List Action) : List Atom :=
  history.filterMap fun
    | .define d key value => if d = number ∧ key == name then some value else none
    | _ => none

/-- The environment that an action is about: for a new one, its parent. -/
def Action.subject? : Action → Option Nat
  | .create parent => parent
  | .define number _ _ | .lookup number _ | .contains number _ => some number

/-- **Histories that can be**: every action is about an environment that has
been created before. -/
def Possible (history : List Action) : Prop :=
  ∀ i (hi : i < history.length), ∀ d ∈ history[i].subject?, d < (parents (history.take i)).length

instance (history : List Action) : Decidable (Possible history) :=
  inferInstanceAs (Decidable (∀ i (hi : i < history.length), ∀ d ∈ history[i].subject?,
    d < (parents (history.take i)).length))

/-- **The way up** from an environment along parents, past some that are nearer,
to another one. -/
inductive Climbs (history : List Action) : Nat → List Nat → Nat → Prop
  | here {e : Nat} : e < (parents history).length → Climbs history e [] e
  | up {e parent d : Nat} {nearer : List Nat} : (parents history)[e]? = some (some parent) →
      Climbs history parent nearer d → Climbs history e (e :: nearer) d

/-- **What is defined for a name in an environment is seen** from another one on
the way up from which no nearer one has ever defined the name. -/
def Sees (history : List Action) (name : Name) (e d : Nat) : Prop :=
  ∃ nearer, Climbs history e nearer d ∧ ∀ c ∈ nearer, definitions c name history = []

variable {history : List Action} {name : Name} {e d : Nat}

/-- An environment sees itself, and what its parent sees of a name that it has
not defined. -/
theorem sees_iff : Sees history name e d ↔ (e = d ∧ e < (parents history).length) ∨
    definitions e name history = [] ∧
      ∃ parent, (parents history)[e]? = some (some parent) ∧ Sees history name parent d := by
  constructor
  · rintro ⟨nearer, hclimb, hnearer⟩
    cases hclimb with
    | here he => exact .inl ⟨rfl, he⟩
    | up hparent hclimb =>
      obtain ⟨hown, hnearer⟩ := List.forall_mem_cons.1 hnearer
      exact .inr ⟨hown, _, hparent, _, hclimb, hnearer⟩
  · rintro (⟨rfl, he⟩ | ⟨hown, parent, hparent, nearer, hclimb, hnearer⟩)
    · exact ⟨[], .here he, by simp⟩
    · exact ⟨e :: nearer, .up hparent hclimb, List.forall_mem_cons.2 ⟨hown, hnearer⟩⟩

theorem parents_concat (history : List Action) (action : Action) :
    parents (history ++ [action]) = parents history ++ parents [action] :=
  List.filterMap_append

theorem definitions_concat (number : Nat) (name : Name) (history : List Action)
    (action : Action) : definitions number name (history ++ [action])
      = definitions number name history ++ definitions number name [action] :=
  List.filterMap_append

/-- A definition creates no environment. -/
theorem parents_define (history : List Action) (d : Nat) (key : Name) (value : Atom) :
    parents (history ++ [.define d key value]) = parents history := by
  rw [parents_concat]
  exact List.append_nil _

/-- The latest definition of a name may be one more. -/
theorem getLast?_definitions_define (number : Nat) (name : Name) (history : List Action) (d : Nat)
    (key : Name) (value : Atom) :
    (definitions number name (history ++ [.define d key value])).getLast?
      = if d = number ∧ key == name then some value
        else (definitions number name history).getLast? := by
  rw [definitions_concat]
  by_cases h : d = number ∧ (key == name) = true
  · rw [if_pos h]
    simp [definitions, h]
  · rw [if_neg h]
    simp [definitions, h]

/-- What can be stays so without its last action, which is about an environment
that is there. -/
theorem possible_concat {action : Action} (h : Possible (history ++ [action])) :
    Possible history ∧ ∀ d ∈ action.subject?, d < (parents history).length := by
  constructor
  · intro i hi d hd
    have hlt := h i (by simp; omega) d (by rwa [List.getElem_append_left hi])
    rwa [List.take_append_of_le_length hi.le] at hlt
  · intro d hd
    have hlt := h history.length (by simp) d (by simpa using hd)
    rwa [List.take_left] at hlt

/-! ## One environment among others -/

section Forest

variable {κ α : Type}

/-- The environment of a number. -/
def at? (number : Nat) (es : Environments κ α) : Option (Environment κ α) :=
  es.reverse[number]?

/-- Whether all parents are older than their children. -/
def Founded : Environments κ α → Prop
  | [] => True
  | e :: older => (∀ p ∈ e.parent, p < older.length) ∧ Founded older

/-- What is added at the end of a list has the number of its elements. -/
theorem getElem?_concat (elements : List α) (element : α) (number : Nat) :
    (elements ++ [element])[number]?
      = if number = elements.length then some element else elements[number]? := by
  rw [List.getElem?_append]
  grind

/-- The newest environment has the number of the older ones. -/
theorem at?_cons (number : Nat) (e : Environment κ α) (older : Environments κ α) :
    at? number (e :: older) = if number = older.length then some e else older.at? number := by
  rw [at?, List.reverse_cons, getElem?_concat, List.length_reverse, at?]

theorem lt_of_at? {number : Nat} {es : Environments κ α} {e : Environment κ α}
    (h : es.at? number = some e) : number < es.length := by
  simpa using (List.getElem?_eq_some_iff.1 h).1

/-- A parent is older. -/
theorem Founded.parent_lt {es : Environments κ α} (h : Founded es) {number p : Nat}
    {e : Environment κ α} (he : es.at? number = some e) (hp : e.parent = some p) :
    p < number := by
  induction es with
  | nil => cases he
  | cons newest older ih =>
    rw [at?_cons] at he
    split_ifs at he with hnumber
    · cases he
      rw [hnumber]
      exact h.1 p hp
    · exact ih h.2 he

variable [BEq κ]

/-- An older environment finds what it found without the newest one. -/
theorem lookup?_cons_of_lt {number : Nat} {es : Environments κ α} (h : number < es.length)
    (name : κ) (e : Environment κ α) : lookup? number name (e :: es) = lookup? number name es := by
  rw [lookup?, if_neg h.ne]

/-- **A name is looked up** among an environment's own, and else from its
parent. -/
theorem Founded.lookup?_eq {es : Environments κ α} (h : Founded es) (number : Nat) (name : κ) :
    lookup? number name es = (es.at? number).bind fun e =>
      (e.own.get? name).or (e.parent.bind fun p => lookup? p name es) := by
  induction es generalizing number with
  | nil => rfl
  | cons newest older ih =>
    rw [lookup?, at?_cons]
    split_ifs with hnumber
    · rw [Option.bind_some]
      rcases hown : newest.own.get? name with _ | value
      · rcases hparent : newest.parent with _ | p
        · rfl
        · exact (lookup?_cons_of_lt (h.1 p hparent) name newest).symm
      · rfl
    · rw [ih h.2]
      rcases he : at? number older with _ | e
      · rfl
      · have hlt := lt_of_at? he
        simp only [Option.bind_some]
        rcases hparent : e.parent with _ | p
        · rfl
        · have hp := h.2.parent_lt he hparent
          rw [Option.bind_some, Option.bind_some, lookup?_cons_of_lt (hp.trans hlt)]

/-- **A name is known exactly where a value is found.** -/
theorem contains_eq_isSome [PartialEquivBEq κ] (number : Nat) (name : κ) (es : Environments κ α) :
    contains number name es = (lookup? number name es).isSome := by
  induction es generalizing number with
  | nil => rfl
  | cons newest older ih =>
    rw [contains, lookup?]
    split_ifs with hnumber
    · rw [Keyed.contains_keys]
      rcases newest.own.get? name with _ | value
      · rcases newest.parent with _ | p
        · rfl
        · exact ih p
      · rfl
    · exact ih number

/-- A definition adds no environment. -/
theorem length_define (number : Nat) (name : κ) (value : α) (es : Environments κ α) :
    (es.define number name value).length = es.length := by
  induction es with
  | nil => rfl
  | cons e older ih =>
    rw [define]
    split_ifs
    · rfl
    · simp [ih]

/-- A definition changes the names of one environment. -/
theorem at?_define (d number : Nat) (name : κ) (value : α) (es : Environments κ α) :
    (es.define d name value).at? number = (es.at? number).map fun e =>
      if d = number then { e with own := e.own.set name value } else e := by
  induction es with
  | nil => rfl
  | cons e older ih =>
    by_cases hd : d = older.length
    · by_cases hnumber : number = older.length
      · simp [define, at?_cons, hd, hnumber]
      · simp [define, at?_cons, hd, hnumber, Ne.symm hnumber]
    · by_cases hnumber : number = older.length
      · simp [define, at?_cons, length_define, hd, hnumber]
      · simp [define, at?_cons, length_define, hd, hnumber, ih]

/-- And no parent. -/
theorem Founded.define {es : Environments κ α} (h : Founded es) (number : Nat) (name : κ)
    (value : α) : Founded (es.define number name value) := by
  induction es with
  | nil => exact h
  | cons e older ih =>
    rw [Environments.define]
    split_ifs
    · exact h
    · refine ⟨?_, ih h.2⟩
      rw [length_define]
      exact h.1

end Forest

/-! ## What a history leaves -/

/-- **Environments as a history leaves them**: each has the parent that it was
created with, and its names have their latest values. -/
structure Records (history : List Action) (es : Environments Name Atom) : Prop where
  founded : Founded es
  length : es.length = (parents history).length
  parent : ∀ e, (es.at? e).map Environment.parent = (parents history)[e]?
  own : ∀ e name, (es.at? e).bind (fun env => env.own.get? name)
    = (definitions e name history).getLast?

/-- Without actions there are no environments. -/
theorem records_nil : Records [] [] where
  founded := trivial
  length := rfl
  parent _ := rfl
  own _ _ := rfl

/-- A new environment has no names. -/
theorem Records.create {es : Environments Name Atom} (h : Records history es)
    {parent : Option Nat} (hparent : ∀ p ∈ parent, p < (parents history).length) :
    Records (history ++ [.create parent]) (es.create parent).2 where
  founded := ⟨by rwa [h.length], h.founded⟩
  length := by simp [Environments.create, parents, h.length]
  parent e := by
    rw [parents_concat, show parents [Action.create parent] = [parent] from rfl, getElem?_concat,
      Environments.create, at?_cons, h.length]
    split_ifs
    · rfl
    · exact h.parent e
  own e name := by
    rw [definitions_concat, show definitions e name [Action.create parent] = [] from rfl,
      List.append_nil, ← h.own e name, Environments.create, at?_cons]
    split_ifs with he
    · rw [he, at?, List.getElem?_eq_none (by simp)]
      rfl
    · rfl

/-- A definition is the latest one of its name. -/
theorem Records.define {es : Environments Name Atom} (h : Records history es) (d : Nat)
    (key : Name) (value : Atom) (hd : d < (parents history).length) :
    Records (history ++ [.define d key value]) (es.define d key value) where
  founded := h.founded.define d key value
  length := by
    rw [length_define, h.length, parents_define]
  parent e := by
    rw [parents_define, ← h.parent e, at?_define, Option.map_map]
    congr 1
    funext env
    simp only [Function.comp_apply]
    split_ifs <;> rfl
  own e name := by
    rw [getLast?_definitions_define, at?_define, ← h.own e name, Option.bind_map]
    by_cases he : d = e
    · have hlt : e < es.reverse.length := by rw [List.length_reverse, h.length, ← he]; exact hd
      have henv : es.at? e = some es.reverse[e] := List.getElem?_eq_getElem hlt
      by_cases hname : (key == name) = true
      · simp [henv, he, hname, ← Keyed.get?_congr hname]
      · simp [henv, he, hname, Keyed.get?_set_ne (Bool.eq_false_of_not_eq_true hname)]
    · simp [he]

/-- Asking changes nothing. -/
theorem Records.concat {es : Environments Name Atom} (h : Records history es) {action : Action}
    (hparents : parents [action] = [])
    (hdefinitions : ∀ e name, definitions e name [action] = []) :
    Records (history ++ [action]) es where
  founded := h.founded
  length := by rw [parents_concat, hparents, List.append_nil, h.length]
  parent e := by rw [parents_concat, hparents, List.append_nil, h.parent e]
  own e name := by rw [definitions_concat, hdefinitions, List.append_nil, h.own e name]

/-- **Every action keeps the record.** -/
theorem Records.act {es : Environments Name Atom} (h : Records history es) {action : Action}
    (hsubject : ∀ d ∈ action.subject?, d < (parents history).length) :
    Records (history ++ [action]) (es.act action).2 := by
  cases action with
  | create parent => exact h.create hsubject
  | define d key value => exact h.define d key value (hsubject d rfl)
  | lookup number name =>
    rw [Environments.act]
    split <;> exact h.concat rfl fun _ _ => rfl
  | contains number name => exact h.concat rfl fun _ _ => rfl

/-- **A history that can be is kept in record** by the environments that it
leaves. -/
theorem records_after (h : Possible history) : Records history (after history) := by
  induction history using List.reverseRecOn with
  | nil => exact records_nil
  | append_singleton history action ih =>
    obtain ⟨hbefore, hsubject⟩ := possible_concat h
    rw [after, List.foldl_concat]
    exact (ih hbefore).act hsubject

/-! ## What is found -/

variable {es : Environments Name Atom} {value : Atom}

/-- Parents are older. -/
theorem Records.parent_lt (h : Records history es) {p : Nat}
    (hp : (parents history)[e]? = some (some p)) : p < e := by
  rw [← h.parent e] at hp
  obtain ⟨env, henv, hparent⟩ := Option.map_eq_some_iff.1 hp
  exact h.founded.parent_lt henv hparent

/-- **One step of a lookup**, in terms of the history. -/
theorem Records.lookup?_eq (h : Records history es) (e : Nat) (name : Name) :
    lookup? e name es = (definitions e name history).getLast?.or
      ((parents history)[e]?.join.bind fun p => lookup? p name es) := by
  rw [h.founded.lookup?_eq, ← h.own e name, ← h.parent e]
  rcases es.at? e with _ | env <;> rfl

/-- Names are defined in environments that are there. -/
theorem Records.lt_of_definition (h : Records history es)
    (hlatest : (definitions e name history).getLast? = some value) :
    e < (parents history).length := by
  rw [← h.own e name] at hlatest
  obtain ⟨env, henv, -⟩ := Option.bind_eq_some_iff.1 hlatest
  rw [← h.length]
  exact lt_of_at? henv

/-- **The value that is found** is the latest one defined in the environment
whose definitions of the name are seen. -/
theorem Records.lookup?_eq_some_iff (h : Records history es) : lookup? e name es = some value ↔
    ∃ d, Sees history name e d ∧ (definitions d name history).getLast? = some value := by
  induction e using Nat.strongRecOn with
  | ind e ih =>
    rw [h.lookup?_eq]
    rcases hown : (definitions e name history).getLast? with _ | latest
    · -- The name is not defined here, so what there is comes from the parent.
      have hnone := List.getLast?_eq_none_iff.1 hown
      rw [Option.none_or, Option.bind_eq_some_iff]
      constructor
      · rintro ⟨p, hp, hfound⟩
        rw [Option.join_eq_some_iff] at hp
        obtain ⟨d, hsees, hlatest⟩ := (ih p (h.parent_lt hp)).1 hfound
        exact ⟨d, sees_iff.2 (.inr ⟨hnone, p, hp, hsees⟩), hlatest⟩
      · rintro ⟨d, hsees, hlatest⟩
        rcases sees_iff.1 hsees with ⟨rfl, -⟩ | ⟨-, p, hp, hsees⟩
        · cases hown.symm.trans hlatest
        · exact ⟨p, Option.join_eq_some_iff.2 hp, (ih p (h.parent_lt hp)).2 ⟨d, hsees, hlatest⟩⟩
    · rw [Option.some_or]
      constructor
      · rintro ⟨⟩
        exact ⟨e, sees_iff.2 (.inl ⟨rfl, h.lt_of_definition hown⟩), hown⟩
      · rintro ⟨d, hsees, hlatest⟩
        rcases sees_iff.1 hsees with ⟨rfl, -⟩ | ⟨hnone, -⟩
        · exact hown.symm.trans hlatest
        · rw [hnone] at hown
          cases hown

/-- **A definition is found where it is seen.** -/
theorem Records.lookup?_define_of_sees (h : Records history es) {key : Name} (value : Atom)
    (hd : d < (parents history).length) (hname : (key == name) = true)
    (hsees : Sees history name e d) : lookup? e name (es.define d key value) = some value := by
  induction e using Nat.strongRecOn with
  | ind e ih =>
    rw [(h.define d key value hd).lookup?_eq, getLast?_definitions_define, parents_define]
    rcases sees_iff.1 hsees with ⟨rfl, -⟩ | ⟨hnone, p, hp, hsees⟩
    · rw [if_pos ⟨rfl, hname⟩, Option.some_or]
    · split_ifs
      · rfl
      · rw [hnone, hp]
        exact ih p (h.parent_lt hp) hsees

/-- **And it changes nothing elsewhere.** -/
theorem Records.lookup?_define_of_not_sees (h : Records history es) {key : Name} (value : Atom)
    (hd : d < (parents history).length)
    (hunseen : ¬ ((key == name) = true ∧ Sees history name e d)) :
    lookup? e name (es.define d key value) = lookup? e name es := by
  induction e using Nat.strongRecOn with
  | ind e ih =>
    have hother : ¬ (d = e ∧ (key == name) = true) := by
      rintro ⟨rfl, hname⟩
      exact hunseen ⟨hname, sees_iff.2 (.inl ⟨rfl, hd⟩)⟩
    rw [(h.define d key value hd).lookup?_eq, h.lookup?_eq, getLast?_definitions_define,
      parents_define, if_neg hother]
    rcases hown : (definitions e name history).getLast? with _ | latest
    · rcases hp : (parents history)[e]?.join with _ | p
      · rfl
      · -- What is found comes from the parent, from where the definition is not seen either.
        rw [Option.join_eq_some_iff] at hp
        have hnone := List.getLast?_eq_none_iff.1 hown
        exact ih p (h.parent_lt hp) fun ⟨hname, hsees⟩ =>
          hunseen ⟨hname, sees_iff.2 (.inr ⟨hnone, p, hp, hsees⟩)⟩
    · rfl

/-! ## What actions tell -/

/-- A lookup tells the value that is found. -/
theorem act_lookup_eq_ok_iff : es.act (.lookup e name) = (.ok (.value value), es) ↔
    lookup? e name es = some value := by
  rw [act]
  split
  · next found heq => simp [heq]
  · next heq => simp [heq]

/-- Or that there is none. -/
theorem act_lookup_of_none (h : lookup? e name es = none) :
    es.act (.lookup e name) = (.error (.undefinedVariable name.plain), es) := by
  rw [act, h]

/-- A name is contained if a lookup of it finds a value. -/
theorem act_contains (e : Nat) (name : Name) (es : Environments Name Atom) :
    es.act (.contains e name) = (.ok (.contained (lookup? e name es).isSome), es) := by
  rw [act, contains_eq_isSome]

/-- What is told depends on what is found. -/
theorem act_congr {later : Environments Name Atom}
    (h : lookup? e name later = lookup? e name es) :
    (later.act (.lookup e name)).1 = (es.act (.lookup e name)).1 ∧
      (later.act (.contains e name)).1 = (es.act (.contains e name)).1 := by
  rw [act_contains, act_contains, h]
  rcases hfound : lookup? e name es with _ | value
  · rw [act_lookup_of_none hfound, act_lookup_of_none (h.trans hfound)]
    exact ⟨rfl, rfl⟩
  · rw [act_lookup_eq_ok_iff.2 hfound, act_lookup_eq_ok_iff.2 (h.trans hfound)]
    exact ⟨rfl, rfl⟩

/-- **Names resolve to their nearest latest definition**, after every history. A
lookup finds the latest value of the name in the nearest environment on the way
up that has ever defined it. A name is contained exactly if there is one; if not,
a lookup fails with an error that names the name. Neither changes anything. A
definition is what is found of its name wherever it is seen; everywhere else, and
for any other name, it makes no difference. -/
theorem resolves_to_nearest_latest (h : Possible history) (e : Nat) (name : Name) :
    let es := after history
    (es.act (.contains e name) = (.ok (.contained true), es) ↔
      ∃ value, es.act (.lookup e name) = (.ok (.value value), es)) ∧
    (∀ value, es.act (.lookup e name) = (.ok (.value value), es) ↔
      ∃ d, Sees history name e d ∧ (definitions d name history).getLast? = some value) ∧
    ((¬ ∃ value, es.act (.lookup e name) = (.ok (.value value), es)) →
      es.act (.lookup e name) = (.error (.undefinedVariable name.plain), es) ∧
        es.act (.contains e name) = (.ok (.contained false), es)) ∧
    ∀ d key value, d < (parents history).length →
      let later := (es.act (.define d key value)).2
      ((key == name) = true ∧ Sees history name e d →
        later.act (.lookup e name) = (.ok (.value value), later) ∧
          later.act (.contains e name) = (.ok (.contained true), later)) ∧
      (¬ ((key == name) = true ∧ Sees history name e d) →
        (later.act (.lookup e name)).1 = (es.act (.lookup e name)).1 ∧
          (later.act (.contains e name)).1 = (es.act (.contains e name)).1) := by
  intro es
  have hrecords : Records history es := records_after h
  simp only [act_lookup_eq_ok_iff, act_contains]
  refine ⟨by simp [Option.isSome_iff_exists], fun value => hrecords.lookup?_eq_some_iff,
    fun hnone => ?_, fun d key value hd => ?_⟩
  · have hnone := Option.eq_none_iff_forall_ne_some.2 (not_exists.1 hnone)
    rw [act_lookup_of_none hnone, hnone]
    exact ⟨rfl, rfl⟩
  · refine ⟨fun ⟨hname, hsees⟩ => ?_, fun hunseen => ?_⟩
    · have hfound := hrecords.lookup?_define_of_sees value hd hname hsees
      refine ⟨hfound, ?_⟩
      rw [show lookup? e name (es.act (.define d key value)).2 = _ from hfound]
      rfl
    · have hcongr := act_congr (hrecords.lookup?_define_of_not_sees value hd hunseen)
      rw [act_contains, act_contains] at hcongr
      exact hcongr

/-- A name that is defined in a parent, shadowed in its child, and defined in the
parent again. -/
theorem resolves_to_shadowing_definition :
    let a : Name := .text "a"
    let history : List Action := [.create none, .define 0 a (.bool false), .create (some 0),
      .define 1 a .nil, .create (some 1), .define 0 a (.bool true)]
    let es := after history
    Possible history ∧ 0 < (parents history).length ∧
      (∃ d, Sees history a 2 d ∧ (definitions d a history).getLast? = some .nil) ∧
      ¬ Sees history a 2 0 ∧
      ((es.act (.define 0 a .nil)).2.act (.lookup 2 a)).1 = .ok (.value .nil) ∧
      es.act (.lookup 2 (.text "b")) = (.error (.undefinedVariable "b"), es) := by
  intro a history es
  have hpossible : Possible history := by decide
  have hlength : 0 < (parents history).length := by decide
  have hfound : es.act (.lookup 2 a) = (.ok (.value .nil), es) := rfl
  have hunseen : ¬ Sees history a 2 0 := by
    intro hsees
    obtain ⟨-, p, hp, hsees⟩ := (sees_iff.1 hsees).resolve_left (by decide)
    obtain rfl : 1 = p := Option.some.inj (Option.some.inj hp)
    obtain ⟨hnone, -⟩ := (sees_iff.1 hsees).resolve_left (by decide)
    cases hnone
  obtain ⟨-, hlatest, -, hdefine⟩ := resolves_to_nearest_latest hpossible 2 a
  obtain ⟨-, -, hfails, -⟩ := resolves_to_nearest_latest hpossible 2 (.text "b")
  have hkept := ((hdefine 0 a .nil hlength).2 fun h => hunseen h.2).1
  refine ⟨hpossible, hlength, (hlatest .nil).1 hfound, hunseen, hkept.trans (by rw [hfound]), ?_⟩
  refine (hfails ?_).1
  rintro ⟨value, hvalue⟩
  cases hvalue

end Environments

end Lox
