import Lox.Atom
import Lox.Proofs.Json.Controls
import Lox.Proofs.Json.Quote
/-!
# Debug forms

The debug form of an atom determines the atom (`Atom.debug_inj`): it starts with
the kind, and what stands in parentheses is a quoted string or a number, either
of which can be read again. Numbers that are zero show their sign, and only what
is not a number has one form for many encodings. No debug form holds a control
character, whatever the string does (`Atom.shows_debug`), so it is one line.
-/

namespace Lox

open Decimal (Numeral)
open Json (signText EndsNumber text_append_inj signText_append_inj head_text_ne write_cases)

namespace Atom

/-- Whether two atoms are of one kind and have one payload. Doubles are told
apart by their bits, unless they are not a number. -/
def Same : Atom → Atom → Prop
  | string a, string b => a = b
  | number x, number y => (x.isNaN = true ∧ y.isNaN = true) ∨ x.toBits = y.toBits
  | bool a, bool b => a = b
  | nil, nil => True
  | _, _ => False

/-- An atom is the same as itself alone. -/
theorem same_iff {a b : Atom} : a.Same b ↔ a = b := by
  constructor
  · intro h
    cases a <;> cases b <;> rw [Same] at h <;> try cases h
    case number.number.inl x y hnan =>
      rw [Binary64.eq_nan_of_isNaN hnan.1, Binary64.eq_nan_of_isNaN hnan.2]
    case number.number.inr x y hbits =>
      rw [Binary64.eq_of_toBits (congrArg UInt64.toNat hbits)]
    all_goals rfl
  · rintro rfl
    cases a with
    | number x => exact .inr rfl
    | string | bool | nil => trivial

/-! ## Numbers -/

/-- What the debug form has for a number without its sign. -/
inductive MagnitudeText : List Char → Float → Prop
  | numeral (n : Numeral) : MagnitudeText (n.text debugLayout) n.decimal.toFloat
  | nan : MagnitudeText ['N', 'a', 'N'] (0.0 / 0.0)
  | infinity : MagnitudeText ['i', 'n', 'f'] Binary64.infinity

/-- A double is written as its sign and what stands for its magnitude. -/
theorem exists_magnitude (x : Float) : ∃ negative body v,
    (debugLayout.write x).toList = signText negative ++ body ∧ MagnitudeText body v ∧
      x = Binary64.signed negative v := by
  rcases write_cases debugLayout x with
    ⟨negative, n, htext, hvalue, -⟩ | ⟨htext, hx⟩ | ⟨negative, htext, hx⟩
  · exact ⟨negative, _, _, htext, .numeral n, hvalue.symm⟩
  · exact ⟨false, _, _, htext, .nan, hx⟩
  · exact ⟨negative, _, _, htext, .infinity, hx⟩

/-- The sign is no part of the magnitude. -/
theorem MagnitudeText.head_ne {body : List Char} {v : Float} (h : MagnitudeText body v) :
    body.head? ≠ some '-' := by
  cases h with
  | numeral n =>
    have hhead := head_text_ne debugLayout n [] (c := '-') rfl
    rwa [List.append_nil] at hhead
  | nan | infinity => decide

/-- A numeral is no name. -/
theorem text_ne_name {n : Numeral} {c : Char} {name : List Char} (hc : c.isDigit = false) :
    n.text debugLayout ≠ c :: name := by
  intro heq
  refine head_text_ne debugLayout n [] hc ?_
  rw [heq]
  rfl

/-- **The magnitude is determined by its text.** -/
theorem MagnitudeText.unique {body body' : List Char} {v v' : Float} (h : MagnitudeText body v)
    (h' : MagnitudeText body' v') (heq : body = body') : v = v' := by
  cases h with
  | numeral n =>
    cases h' with
    | numeral n' =>
      have hends : EndsNumber [] := by simp [EndsNumber]
      obtain ⟨rfl, -⟩ := text_append_inj hends hends (congrArg (· ++ []) heq)
      rfl
    | nan => exact absurd heq (text_ne_name rfl)
    | infinity => exact absurd heq (text_ne_name rfl)
  | nan =>
    cases h' with
    | numeral n' => exact absurd heq.symm (text_ne_name rfl)
    | nan => rfl
    | infinity => cases heq
  | infinity =>
    cases h' with
    | numeral n' => exact absurd heq.symm (text_ne_name rfl)
    | nan => cases heq
    | infinity => rfl

/-- **A double is determined by its debug form.** -/
theorem write_inj {x y : Float} (h : debugLayout.write x = debugLayout.write y) : x = y := by
  obtain ⟨negative, body, v, htext, hbody, rfl⟩ := exists_magnitude x
  obtain ⟨negative', body', v', htext', hbody', rfl⟩ := exists_magnitude y
  rw [h] at htext
  obtain ⟨rfl, htexts⟩ :=
    signText_append_inj hbody.head_ne hbody'.head_ne (htext.symm.trans htext')
  rw [hbody.unique hbody' htexts]

/-! ## Atoms -/

/-- The second letter of a debug form tells the kind. -/
theorem getElem?_debug (a : Atom) : a.debug.toList[1]? = a.typeName.toList[1]? := by
  rcases a with s | x | (_ | _) | _ <;> simp [debug, typeName]

/-- **An atom is determined by its debug form.** -/
theorem debug_inj {a b : Atom} : a.debug = b.debug ↔ a = b := by
  refine ⟨fun h => ?_, fun h => h ▸ rfl⟩
  -- `Nil` and `Number` start alike, so the kind is told from the second letter.
  have hkind := congrArg (fun text => text.toList[1]?) h
  simp only [getElem?_debug] at hkind
  have hparens {name text text' : String} (heq : name ++ text ++ ")" = name ++ text' ++ ")") :
      text = text' := by
    have hlists := congrArg String.toList heq
    exact String.toList_inj.1 (by simpa using hlists)
  cases a <;> cases b <;> simp [typeName] at hkind
  case string.string s t =>
    have hquoted := congrArg String.toList (hparens h)
    simp only [Json.quoted, String.toList_ofList] at hquoted
    obtain ⟨htext, -⟩ := Json.quote_append_inj (congrArg (· ++ []) hquoted)
    rw [String.toList_inj.1 htext]
  case number.number x y => rw [write_inj (hparens h)]
  case bool.bool p q => cases p <;> cases q <;> simp_all [debug]
  case nil.nil => rfl

/-- **A debug form holds no control character.** -/
theorem shows_debug (a : Atom) : a.debug.toList.all Json.shows = true := by
  have hsign (negative : Bool) : (signText negative).all Json.shows = true := by
    cases negative <;> rfl
  rcases a with s | x | (_ | _) | _
  · simp only [debug, Json.quoted, String.toList_append, String.toList_ofList, List.all_append,
      Json.shows_quote]
    rfl
  · obtain ⟨negative, body, v, htext, hbody, -⟩ := exists_magnitude x
    simp only [debug, String.toList_append, htext, List.all_append, hsign]
    cases hbody with
    | numeral n =>
      have hn := Json.shows_numeral debugLayout n false
      rw [show signText false ++ n.text debugLayout = n.text debugLayout from rfl] at hn
      rw [hn]
      rfl
    | nan | infinity => rfl
  all_goals rfl

/-- So there is no line feed in it. -/
theorem newline_notMem_debug (a : Atom) : '\n' ∉ a.debug.toList := by
  intro hmem
  have hshows := List.all_eq_true.1 a.shows_debug _ hmem
  cases hshows

end Atom

end Lox
