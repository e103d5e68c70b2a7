import Lox.Proofs.Json.Number
/-!
# Control characters in JSON text

A value is written with no control characters but those of the spacing
between its parts: inside strings they are escaped, and everything else is
written with signs, letters and digits. So the text of a value that is set
out over lines holds line feeds and no other control character
(`mem_writeLines`).
-/

namespace Lox.Json

/-- Whether a character is no control character. -/
def shows (c : Char) : Bool :=
  decide (0x20 ≤ c.toNat)

/-- **A character is escaped without control characters.** -/
theorem shows_escape (c : Char) : (escape c).all shows = true := by
  have hhex : ∀ n < 0x20, (Text.hex 4 n).all shows = true := by decide
  rw [escape]
  split_ifs with hmark _ _ _ _ _ hcontrol
  · rcases hmark with rfl | rfl <;> rfl
  iterate 5 rfl
  · exact hhex _ hcontrol
  · simpa [shows] using hcontrol

/-- A string is quoted without control characters. -/
theorem shows_quote (text : List Char) : (quote text).all shows = true := by
  have hmark : shows '"' = true := rfl
  simp [quote, hmark, List.all_flatMap, shows_escape]

/-- A digit is no control character. -/
theorem shows_of_isDigit {c : Char} (h : c.isDigit = true) : shows c = true := by
  simp only [Char.isDigit, Bool.and_eq_true, decide_eq_true_eq] at h
  exact decide_eq_true (le_trans (by decide) (UInt32.le_iff_toNat_le.1 h.1))

/-- Nor is any of a row of digits. -/
theorem shows_of_isDigits {text : List Char} (h : ∀ c ∈ text, c.isDigit = true) :
    text.all shows = true :=
  List.all_eq_true.2 fun c hc => shows_of_isDigit (h c hc)

/-- A numeral is written without control characters. -/
theorem shows_numeral (layout : Decimal.Layout) (n : Decimal.Numeral) (negative : Bool) :
    (signText negative ++ n.text layout).all shows = true := by
  have hsign : (signText negative).all shows = true := by cases negative <;> rfl
  have hfraction : n.fractionText.all shows = true := by
    rw [Decimal.Numeral.fractionText]
    split_ifs
    · rfl
    · rw [List.all_cons, shows_of_isDigits n.isDigit_of_mem]
      rfl
  have hscale : (n.scaleText layout).all shows = true := by
    rw [Decimal.Numeral.scaleText]
    split
    · rfl
    · next e _ =>
      have hdigits : (Nat.toDigits 10 e.natAbs).all shows = true :=
        shows_of_isDigits fun c hc => Nat.isDigit_of_mem_toDigits (by omega) (by omega) hc
      have hmark : shows 'e' = true ∧ shows '-' = true ∧ shows '+' = true ∧ shows '0' = true :=
        ⟨rfl, rfl, rfl, rfl⟩
      rw [Decimal.Layout.writeExponent]
      split_ifs <;> simp [hmark, hdigits]
  rw [Decimal.Numeral.text, List.all_append, List.all_append, List.all_append, hsign, hfraction,
    hscale, shows_of_isDigits n.isDigits_whole.2]
  rfl

/-- A double is written without control characters. -/
theorem shows_number (x : Float) : (numberLayout.write x).toList.all shows = true := by
  rcases numberText_cases x with ⟨negative, n, htext, -⟩ | ⟨htext, -⟩ | ⟨negative, htext, -⟩
  · rw [htext]
    exact shows_numeral _ _ _
  · rw [htext]
    rfl
  · rw [htext]
    cases negative <;> rfl

/-- Spacing whose characters all have a property. -/
structure Spacing.Forall (P : Char → Prop) (s : Spacing) : Prop where
  before : ∀ depth, ∀ c ∈ s.before depth, P c
  after : ∀ depth, ∀ c ∈ s.after depth, P c
  comma : ∀ c ∈ s.comma, P c

section

variable {P : Char → Prop} {s : Spacing}

mutual

/-- **What holds of the spacing and of all characters but controls** holds
of what is written for a value. -/
theorem forall_mem_write (hP : ∀ c, shows c = true → P c) (hs : s.Forall P) (depth : Nat) (v : Json)
    {after : Written} (hafter : ∀ c ∈ after.text, P c) :
    ∀ c ∈ (write s depth v after).text, P c := by
  have hplain : ∀ {w : List Char}, w.all shows = true → ∀ c ∈ w ++ after.text, P c := fun hw =>
    List.forall_mem_append.2 ⟨fun c hc => hP c (List.all_eq_true.1 hw c hc), hafter⟩
  have hclose : ∀ {c : Char}, shows c = true →
      ∀ d ∈ (Written.put (s.after depth ++ [c]) after).text, P d := fun hc =>
    List.forall_mem_append.2 ⟨List.forall_mem_append.2
      ⟨hs.after depth, List.forall_mem_singleton.2 (hP _ hc)⟩, hafter⟩
  match v with
  | .null | .bool true | .bool false => exact hplain rfl
  | .int n =>
    rw [write]
    split_ifs
    · rw [Written.put_text, (intDigits_eq n).1]
      exact hplain (shows_numeral _ _ _)
    · exact List.forall_mem_nil P
  | .float x => exact hplain (shows_number x)
  | .str text => exact hplain (shows_quote _)
  | .arr [] => exact @hplain ['[', ']'] rfl
  | .obj [] => exact @hplain ['\x7b', '\x7d'] rfl
  | .arr (item :: items) =>
    rw [write, Written.put_text]
    exact List.forall_mem_cons.2 ⟨hP _ rfl, List.forall_mem_append.2 ⟨hs.before _,
      forall_mem_write hP hs _ item (forall_mem_writeItems hP hs _ items (hclose rfl))⟩⟩
  | .obj (field :: fields) =>
    rw [write, Written.put_text]
    exact List.forall_mem_cons.2 ⟨hP _ rfl, List.forall_mem_append.2 ⟨hs.before _,
      forall_mem_writeField hP hs _ field (forall_mem_writeFields hP hs _ fields (hclose rfl))⟩⟩

/-- So it does of what is written for items. -/
theorem forall_mem_writeItems (hP : ∀ c, shows c = true → P c) (hs : s.Forall P) (depth : Nat)
    (items : List Json) {after : Written} (hafter : ∀ c ∈ after.text, P c) :
    ∀ c ∈ (writeItems s depth items after).text, P c := by
  match items with
  | [] => exact hafter
  | item :: items =>
    rw [writeItems, Written.put_text]
    simp only [List.forall_mem_append]
    exact ⟨⟨hs.comma, hs.before depth⟩,
      forall_mem_write hP hs _ item (forall_mem_writeItems hP hs _ items hafter)⟩

/-- And of what is written for a field. -/
theorem forall_mem_writeField (hP : ∀ c, shows c = true → P c) (hs : s.Forall P) (depth : Nat)
    (field : String × Json) {after : Written} (hafter : ∀ c ∈ after.text, P c) :
    ∀ c ∈ (writeField s depth field after).text, P c := by
  match field with
  | (name, value) =>
    rw [writeField, Written.put_text]
    simp only [List.forall_mem_append, List.forall_mem_cons]
    exact ⟨⟨fun c hc => hP c (List.all_eq_true.1 (shows_quote _) c hc), hP _ rfl, hP _ rfl,
      List.forall_mem_nil P⟩, forall_mem_write hP hs _ value hafter⟩

/-- And of what is written for fields. -/
theorem forall_mem_writeFields (hP : ∀ c, shows c = true → P c) (hs : s.Forall P) (depth : Nat)
    (fields : List (String × Json)) {after : Written} (hafter : ∀ c ∈ after.text, P c) :
    ∀ c ∈ (writeFields s depth fields after).text, P c := by
  match fields with
  | [] => exact hafter
  | field :: fields =>
    rw [writeFields, Written.put_text]
    simp only [List.forall_mem_append]
    exact ⟨⟨hs.comma, hs.before depth⟩,
      forall_mem_writeField hP hs _ field (forall_mem_writeFields hP hs _ fields hafter)⟩

end

end

/-- **What is set out over lines** holds no control character but line
feeds. -/
theorem mem_writeLines (v : Json) : ∀ c ∈ v.writeLines.text, shows c = true ∨ c = '\n' := by
  have hline : ∀ depth : Nat, ∀ c ∈ '\n' :: List.replicate (2 * depth) ' ',
      shows c = true ∨ c = '\n' := by
    intro depth c hc
    rcases List.mem_cons.1 hc with rfl | hc
    · exact .inr rfl
    · rw [List.eq_of_mem_replicate hc]
      exact .inl rfl
  exact forall_mem_write (fun c hc => .inl hc) ⟨hline, hline, by simp [indented, shows]⟩ 0 v
    (List.forall_mem_nil _)

end Lox.Json
