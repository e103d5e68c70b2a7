import Lox.Json.Escape
import Lox.Json.Parser
import Mathlib
/-!
# Strings in JSON text

Every character is read as it is escaped, whatever text follows it
(`readString?_escape`), and so a string is read as it is quoted.
-/

namespace Lox.Json

/-- A character before what a text is read as. -/
def withChar (c : Char) (read : Option (List Char × List Char)) :
    Option (List Char × List Char) :=
  read.map fun (text, after) => (c :: text, after)

/-- A short escape is read as what it stands for. -/
theorem readString?_short {c d : Char} (h : unescape? c = some d) (text : List Char) :
    readString? ('\\' :: c :: text) = withChar d (readString? text) := by
  have hu : c ≠ 'u' := by
    rintro rfl
    exact absurd h nofun
  rw [readString?]
  · simp only [h, withChar]
    cases readString? text <;> rfl
  all_goals
    intros
    simp_all

/-- A character that needs no escape is read as itself. -/
theorem readString?_plain {c : Char} (hquote : c ≠ '"') (hslash : c ≠ '\\')
    (hcontrol : ¬ c.toNat < 0x20) (text : List Char) :
    readString? (c :: text) = withChar c (readString? text) := by
  rw [readString?]
  · rw [if_neg (by simp [hcontrol, hslash]), withChar]
    cases readString? text <;> rfl
  all_goals
    intros
    simp_all

/-- The code of a control character is read as it is written. -/
theorem unitValue?_hex : ∀ n < 0x20, ∃ a b c d, Text.hex 4 n = [a, b, c, d] ∧
    unitValue? a b c d = some n := by
  intro n hn
  interval_cases n <;> exact ⟨_, _, _, _, rfl, rfl⟩

/-- A control character is read as its code, whatever follows: the code is
no half of a pair. -/
theorem readString?_unit {a b c d : Char} {n : Nat} (h : unitValue? a b c d = some n)
    (hn : n < 0x20) (text : List Char) :
    readString? ('\\' :: 'u' :: a :: b :: c :: d :: text)
      = withChar (Char.ofNat n) (readString? text) := by
  have hchar : unitChar n = Char.ofNat n := if_neg (by omega)
  by_cases hpair : ∃ e f g i rest, text = '\\' :: 'u' :: e :: f :: g :: i :: rest
  · obtain ⟨e, f, g, i, rest, rfl⟩ := hpair
    have hnone : (unitValue? e f g i).bind (pairValue? n) = none := by
      cases unitValue? e f g i with
      | none => rfl
      | some low => exact if_neg (by omega)
    rw [readString?]
    simp only [h, hnone, hchar, withChar, Option.bind_eq_bind, Option.bind_some]
    cases readString? ('\\' :: 'u' :: e :: f :: g :: i :: rest) <;> rfl
  · rw [readString?]
    · simp only [h, hchar, withChar, Option.bind_eq_bind, Option.bind_some]
      cases readString? text <;> rfl
    · intro e f g i rest heq
      exact hpair ⟨e, f, g, i, rest, heq⟩

/-- **A character is read as it is escaped.** -/
theorem readString?_escape (c : Char) (text : List Char) :
    readString? (escape c ++ text) = withChar c (readString? text) := by
  rw [escape]
  split_ifs with hmark hfeed hreturn htab hback hform hcontrol
  · rcases hmark with rfl | rfl <;> exact readString?_short rfl text
  · exact hfeed ▸ readString?_short rfl text
  · exact hreturn ▸ readString?_short rfl text
  · exact htab ▸ readString?_short rfl text
  · exact hback ▸ readString?_short rfl text
  · exact hform ▸ readString?_short rfl text
  · obtain ⟨x, y, z, w, hhex, hvalue⟩ := unitValue?_hex _ hcontrol
    have hread := readString?_unit hvalue hcontrol text
    rw [Char.ofNat_toNat] at hread
    rw [hhex]
    exact hread
  · rw [not_or] at hmark
    exact readString?_plain hmark.1 hmark.2 hcontrol text

/-- **A string is read as it is quoted.** -/
theorem readString?_quote (text rest : List Char) :
    readString? (text.flatMap escape ++ '"' :: rest) = some (text, rest) := by
  induction text with
  | nil => rw [List.flatMap_nil, List.nil_append, readString?]
  | cons c text ih => rw [List.flatMap_cons, List.append_assoc, readString?_escape, ih, withChar,
      Option.map_some]

/-- **A string is determined by its quotation**, and so is where that ends. -/
theorem quote_append_inj {text text' rest rest' : List Char}
    (h : quote text ++ rest = quote text' ++ rest') : text = text' ∧ rest = rest' := by
  have hread (text rest : List Char) :
      readString? ((quote text ++ rest).drop 1) = some (text, rest) := by
    rw [← readString?_quote]
    simp [quote]
  exact Prod.mk.inj (Option.some.inj ((hread text rest).symm.trans (h ▸ hread text' rest')))

end Lox.Json
