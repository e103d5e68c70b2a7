/-!
# Values under keys

A list of values under keys, in the order in which the keys first came. `get?_set` and `get?_set_ne`
say that setting a key changes what is found under it and nothing else; `keys_set` says that it adds
the key at the end or leaves the keys as they are. Keys are compared by `==`, which need not be
equality: of keys that compare as the same the first one is kept.
-/

namespace Lox

/-- Values under distinct keys, in the order in which the keys first came. -/
abbrev Keyed (κ α : Type) := List (κ × α)

namespace Keyed

variable {κ α : Type}

/-- The keys, in order. -/
def keys (entries : Keyed κ α) : List κ :=
  entries.map Prod.fst

/-- The entries in an order of their keys. -/
def sorted (le : κ → κ → Bool) (entries : Keyed κ α) : Keyed κ α :=
  entries.mergeSort fun a b => le a.1 b.1

@[simp] theorem keys_cons (entry : κ × α) (rest : Keyed κ α) :
    keys (entry :: rest) = entry.1 :: rest.keys := rfl

variable [BEq κ]

/-- Sets the value under a key: in its place if the key is there, else at the end. -/
def set (key : κ) (value : α) : Keyed κ α → Keyed κ α
  | [] => [(key, value)]
  | (k, old) :: rest => if k == key then (k, value) :: rest else (k, old) :: set key value rest

/-- The value under a key. -/
def get? (key : κ) : Keyed κ α → Option α
  | [] => none
  | (k, value) :: rest => if k == key then some value else get? key rest

/-- Keys that are the same find the same value. -/
theorem get?_congr [PartialEquivBEq κ] {key other : κ} (h : (key == other) = true)
    (entries : Keyed κ α) : entries.get? key = entries.get? other := by
  induction entries with
  | nil => rfl
  | cons entry rest ih =>
    obtain ⟨k, value⟩ := entry
    rw [get?, get?, ih, BEq.congr_right h]

/-- What was set is found. -/
@[simp] theorem get?_set [ReflBEq κ] (key : κ) (value : α) (entries : Keyed κ α) :
    (entries.set key value).get? key = some value := by
  induction entries with
  | nil => simp [set, get?]
  | cons entry rest ih =>
    obtain ⟨k, old⟩ := entry
    by_cases h : (k == key) = true <;> simp [set, get?, h, ih]

/-- Other keys keep their values. -/
theorem get?_set_ne [PartialEquivBEq κ] {key other : κ} (h : (key == other) = false) (value : α)
    (entries : Keyed κ α) : (entries.set key value).get? other = entries.get? other := by
  induction entries with
  | nil => simp [set, get?, h]
  | cons entry rest ih =>
    obtain ⟨k, old⟩ := entry
    by_cases hk : (k == key) = true
    · have ho : (k == other) = false := (BEq.congr_left hk).trans h
      simp [set, get?, hk, ho]
    · simp [set, get?, hk, ih]

/-- A key is among the keys exactly if a value is found under it. -/
theorem contains_keys [PartialEquivBEq κ] (key : κ) (entries : Keyed κ α) :
    entries.keys.contains key = (entries.get? key).isSome := by
  induction entries with
  | nil => rfl
  | cons entry rest ih =>
    obtain ⟨k, value⟩ := entry
    by_cases h : (k == key) = true
    · simp [get?, h, BEq.comm (a := key)]
    · rw [keys_cons, List.contains_cons, ih, BEq.comm (a := key)]
      simp [get?, h]

/-- Setting a key adds it at the end, unless it is there. -/
theorem keys_set [PartialEquivBEq κ] (key : κ) (value : α) (entries : Keyed κ α) :
    (entries.set key value).keys
      = if entries.keys.contains key then entries.keys else entries.keys ++ [key] := by
  induction entries with
  | nil => rfl
  | cons entry rest ih =>
    obtain ⟨k, old⟩ := entry
    rw [keys_cons, List.contains_cons, BEq.comm (a := key)]
    by_cases h : (k == key) = true
    · simp [set, h]
    · by_cases hm : (keys rest).contains key = true
      · rw [if_pos hm] at ih
        simp [set, h, ih, hm]
      · rw [if_neg hm] at ih
        simp [set, h, ih, hm]

end Keyed

end Lox
