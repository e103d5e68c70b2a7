import Lox.Json.Plain
import Lox.Proofs.Json.Number
import Lox.Proofs.Result
/-!
# Values that text can hold

A value is written exactly if it fits, that is if none of its whole numbers has too many digits
(`pretty_eq`, `compact_eq`). Nor is any other value read (`fits_of_parse`), so what was read can be
written again, and made plain text (`plain_of_parse`).
-/

namespace Lox.Json

/-- Each of some items that fit does. -/
theorem fits_of_mem {items : List Json} (h : fitsItems items = true) {v : Json}
    (hv : v ∈ items) : v.fits = true := by
  induction items with
  | nil => exact absurd hv List.not_mem_nil
  | cons item items ih =>
    rw [fitsItems, Bool.and_eq_true] at h
    rcases List.mem_cons.1 hv with rfl | hv
    · exact h.1
    · exact ih h.2 hv

/-- So does the value of each of some fields. -/
theorem fits_of_mem_fields {fields : List (String × Json)} (h : fitsFields fields = true)
    {f : String × Json} (hf : f ∈ fields) : f.2.fits = true := by
  induction fields with
  | nil => exact absurd hf List.not_mem_nil
  | cons field fields ih =>
    rw [fitsFields, Bool.and_eq_true] at h
    rcases List.mem_cons.1 hf with rfl | hf
    · exact h.1
    · exact ih h.2 hf

/-! ## What is written -/

mutual

/-- **A value is written if it fits**, and otherwise nothing comes after it. -/
theorem flaw_write (s : Spacing) (depth : Nat) (v : Json) (after : Written) :
    (write s depth v after).flaw = if v.fits then after.flaw else some .tooManyDigits := by
  match v with
  | .null | .bool true | .bool false | .float _ | .str _ | .arr [] | .obj [] => rfl
  | .int n =>
    rw [write, fits]
    split_ifs <;> rfl
  | .arr (item :: items) =>
    rw [write, fits, fitsItems, Written.put_flaw, flaw_write s (depth + 1) item, flaw_writeItems]
    cases item.fits <;> rfl
  | .obj (field :: fields) =>
    rw [write, fits, fitsFields, Written.put_flaw, flaw_writeField s (depth + 1) field,
      flaw_writeFields]
    cases field.2.fits <;> rfl

/-- Items are written if each of them fits. -/
theorem flaw_writeItems (s : Spacing) (depth : Nat) (items : List Json) (after : Written) :
    (writeItems s depth items after).flaw
      = if fitsItems items then after.flaw else some .tooManyDigits := by
  match items with
  | [] => rfl
  | item :: items =>
    rw [writeItems, fitsItems, Written.put_flaw, flaw_write s depth item, flaw_writeItems]
    cases item.fits <;> rfl

/-- A field is written if its value fits. -/
theorem flaw_writeField (s : Spacing) (depth : Nat) (field : String × Json) (after : Written) :
    (writeField s depth field after).flaw
      = if field.2.fits then after.flaw else some .tooManyDigits := by
  match field with
  | (name, value) => rw [writeField, Written.put_flaw, flaw_write s depth value]

/-- Fields are written if the value of each of them fits. -/
theorem flaw_writeFields (s : Spacing) (depth : Nat) (fields : List (String × Json))
    (after : Written) :
    (writeFields s depth fields after).flaw
      = if fitsFields fields then after.flaw else some .tooManyDigits := by
  match fields with
  | [] => rfl
  | field :: fields =>
    rw [writeFields, fitsFields, Written.put_flaw, flaw_writeField, flaw_writeFields]
    cases field.2.fits <;> rfl

end

/-- A value has a text if it fits, and otherwise a number of it has too many
digits. -/
theorem whole_write (s : Spacing) (v : Json) :
    (write s 0 v {}).whole = if v.fits then .ok (String.ofList (write s 0 v {}).text)
      else .error .tooManyDigits := by
  rw [Written.whole, flaw_write]
  cases v.fits <;> rfl

/-- A value set out over lines has a text if it fits. -/
theorem pretty_eq (v : Json) :
    v.pretty = if v.fits then .ok (String.ofList v.writeLines.text) else .error .tooManyDigits :=
  whole_write indented v

/-- So does one on one line. -/
theorem compact_eq (v : Json) :
    v.compact = if v.fits then .ok (String.ofList (write oneLine 0 v {}).text)
      else .error .tooManyDigits :=
  whole_write oneLine v

/-! ## What is read -/

/-- What is read as the whole part of a number are digits. -/
theorem isDigit_of_readWhole? {text digits rest : List Char}
    (h : readWhole? text = some (digits, rest)) : ∀ c ∈ digits, c.isDigit = true := by
  unfold readWhole? at h
  split at h
  · obtain ⟨rfl, -⟩ := Prod.mk.inj (Option.some.inj h)
    exact List.forall_mem_singleton.2 rfl
  · rw [List.span_eq_takeWhile_dropWhile] at h
    simp only at h
    split_ifs at h
    obtain ⟨rfl, -⟩ := Prod.mk.inj (Option.some.inj h)
    exact fun c hc => List.mem_takeWhile_imp hc

/-- A whole number fits if its digits do. -/
theorem fits_of_isDigits {whole : List Char} (h : ∀ c ∈ whole, c.isDigit = true)
    (hshort : ¬ Decimal.maxDigits < whole.length) (negative : Bool) :
    let n : Int := Decimal.valueOfDigits whole
    (int (if negative then -n else n)).fits = true := by
  have hbound : Decimal.valueOfDigits whole < 10 ^ Decimal.maxDigits :=
    (Decimal.valueOfDigits_lt h).trans_le (Nat.pow_le_pow_right (by decide) (not_lt.1 hshort))
  intro n
  rw [fits, intFits_iff]
  cases negative <;> simpa [n] using hbound

/-- What is not malformed is there. -/
theorem eq_some_of_orMalformed {α : Type} {x : Option α} {a : α} (h : orMalformed x = .ok a) :
    x = some a := by
  cases x with
  | none => cases h
  | some => exact congrArg some (Except.ok.inj h)

/-- **A number that is read fits**: its digits were counted. -/
theorem fits_of_readNumber {text rest : List Char} {v : Json}
    (h : readNumber text = .ok (v, rest)) : v.fits = true := by
  unfold readNumber at h
  split at h
  next negative unsigned _ =>
    obtain ⟨⟨whole, pointed⟩, hwhole, h⟩ := eq_ok_of_bind h
    dsimp only at h
    split at h
    · split at h
      · cases h
      · next hshort =>
        obtain ⟨rfl, -⟩ := Prod.mk.inj (Except.ok.inj h)
        exact fits_of_isDigits (isDigit_of_readWhole? (eq_some_of_orMalformed hwhole)) hshort
          negative
    · obtain ⟨rfl, -⟩ := Prod.mk.inj (Except.ok.inj h)
      rfl

/-- A field that is set fits among fields that do. -/
theorem fitsFields_set {fields : List (String × Json)} (h : fitsFields fields = true)
    (name : String) {value : Json} (hvalue : value.fits = true) :
    fitsFields (Keyed.set name value fields) = true := by
  induction fields with
  | nil => simp [Keyed.set, fitsFields, hvalue]
  | cons field fields ih =>
    obtain ⟨key, old⟩ := field
    rw [fitsFields, Bool.and_eq_true] at h
    rw [Keyed.set]
    split_ifs
    · rw [fitsFields, hvalue, h.2]
      rfl
    · rw [fitsFields, h.1, ih h.2]
      rfl

/-- An object of fields that fit does. -/
theorem fits_ofFields {fields : List (String × Json)} (h : fitsFields fields = true) :
    (ofFields fields).fits = true := by
  suffices hdone : ∀ done : List (String × Json), fitsFields done = true →
      fitsFields (fields.foldl (fun done field => Keyed.set field.1 field.2 done) done) = true from
    hdone [] rfl
  induction fields with
  | nil => exact fun done hdone => hdone
  | cons field fields ih =>
    obtain ⟨name, value⟩ := field
    rw [fitsFields, Bool.and_eq_true] at h
    exact fun done hdone => ih h.2 _ (fitsFields_set hdone name h.1)

mutual

/-- **A value that is read fits.** -/
theorem fits_of_readValue {bound : Nat} {text rest : List Char} {v : Json}
    (h : readValue bound text = .ok (v, rest)) : v.fits = true := by
  match bound with
  | 0 => cases h
  | bound + 1 =>
    unfold readValue at h
    split at h
    · obtain ⟨_, -, hv⟩ := eq_ok_of_map h
      obtain ⟨rfl, -⟩ := Prod.mk.inj hv
      rfl
    · split at h
      · obtain ⟨rfl, -⟩ := Prod.mk.inj (Except.ok.inj h)
        rfl
      · obtain ⟨⟨fields, after⟩, hfields, hv⟩ := eq_ok_of_map h
        obtain ⟨rfl, -⟩ := Prod.mk.inj hv
        exact fits_ofFields (fitsFields_of_readFields hfields)
    · split at h
      · obtain ⟨rfl, -⟩ := Prod.mk.inj (Except.ok.inj h)
        rfl
      · obtain ⟨⟨items, after⟩, hitems, hv⟩ := eq_ok_of_map h
        obtain ⟨rfl, -⟩ := Prod.mk.inj hv
        exact fitsItems_of_readItems hitems
    -- The constants and the names of doubles hold no whole number.
    iterate 6
      · obtain ⟨rfl, -⟩ := Prod.mk.inj (Except.ok.inj h)
        rfl
    · exact fits_of_readNumber h

/-- Items that are read fit. -/
theorem fitsItems_of_readItems {bound : Nat} {text rest : List Char} {items : List Json}
    (h : readItems bound text = .ok (items, rest)) : fitsItems items = true := by
  match bound with
  | 0 => cases h
  | bound + 1 =>
    rw [readItems] at h
    obtain ⟨⟨item, left⟩, hitem, h⟩ := eq_ok_of_bind h
    have hfits := fits_of_readValue hitem
    dsimp only at h
    split at h
    · obtain ⟨rfl, -⟩ := Prod.mk.inj (Except.ok.inj h)
      rw [fitsItems, hfits]
      rfl
    · obtain ⟨⟨others, after⟩, hmore, h⟩ := eq_ok_of_bind h
      obtain ⟨rfl, -⟩ := Prod.mk.inj (Except.ok.inj h)
      rw [fitsItems, hfits, fitsItems_of_readItems hmore]
      rfl
    · cases h

/-- Fields that are read fit. -/
theorem fitsFields_of_readFields {bound : Nat} {text rest : List Char}
    {fields : List (String × Json)} (h : readFields bound text = .ok (fields, rest)) :
    fitsFields fields = true := by
  match bound with
  | 0 => cases h
  | bound + 1 =>
    unfold readFields at h
    split at h
    · obtain ⟨⟨name, left⟩, -, h⟩ := eq_ok_of_bind h
      dsimp only at h
      split at h
      · obtain ⟨⟨value, left⟩, hvalue, h⟩ := eq_ok_of_bind h
        have hfits := fits_of_readValue hvalue
        dsimp only at h
        split at h
        · obtain ⟨rfl, -⟩ := Prod.mk.inj (Except.ok.inj h)
          rw [fitsFields, hfits]
          rfl
        · obtain ⟨⟨others, after⟩, hmore, h⟩ := eq_ok_of_bind h
          obtain ⟨rfl, -⟩ := Prod.mk.inj (Except.ok.inj h)
          rw [fitsFields, hfits, fitsFields_of_readFields hmore]
          rfl
        · cases h
      · cases h
    · cases h

end

/-- **What is parsed fits**, and so it can be written again. -/
theorem fits_of_parse {text : String} {v : Json} (h : parse text = .ok v) : v.fits = true := by
  obtain ⟨⟨value, rest⟩, hread, h⟩ := eq_ok_of_bind h
  dsimp only at h
  split_ifs at h
  obtain rfl := Except.ok.inj h
  exact fits_of_readValue hread

/-- And it can be made plain text. -/
theorem plain_of_parse {text : String} {v : Json} (h : parse text = .ok v) :
    v.plain = .ok v.spelled :=
  if_pos (fits_of_parse h)

end Lox.Json
