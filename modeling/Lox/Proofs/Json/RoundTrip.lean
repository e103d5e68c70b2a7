import Lox.Proofs.Json.Limit
import Lox.Proofs.Json.Quote
/-!
# JSON values read back

A value that is written as text, on one line or over several, is the value that the text is parsed
as (`parse_pretty`, `parse_compact`). Two things stand in the way. An object whose names repeat has
no text of its own, since only the last value of a name is kept: `Distinct` leaves such objects out.
And a value that holds a whole number of too many digits has no text at all.

The reader is bounded, and each bracket takes as much of the bound as it takes of the text, so the
induction (`readsBack`) asks only for a bound that is as large as the text of the value itself.
-/

namespace Lox.Json

open Written (put)

/-! ## Values whose names differ -/

mutual

/-- Whether the names of every object in a value differ. -/
def Distinct : Json → Prop
  | .arr items => DistinctItems items
  | .obj fields => (Keyed.keys fields).Nodup ∧ DistinctFields fields
  | _ => True

/-- Whether they differ in each of some items. -/
def DistinctItems : List Json → Prop
  | [] => True
  | item :: items => item.Distinct ∧ DistinctItems items

/-- Whether they differ in each of some fields. -/
def DistinctFields : List (String × Json) → Prop
  | [] => True
  | (_, value) :: fields => value.Distinct ∧ DistinctFields fields

end

/-- Items are taken one by one. -/
theorem DistinctItems.of_mem {items : List Json} (h : DistinctItems items) {v : Json}
    (hv : v ∈ items) : v.Distinct := by
  induction items with
  | nil => exact absurd hv List.not_mem_nil
  | cons item items ih =>
    rcases List.mem_cons.1 hv with rfl | hv
    · exact h.1
    · exact ih h.2 hv

/-- Fields are taken one by one. -/
theorem DistinctFields.of_mem {fields : List (String × Json)} (h : DistinctFields fields)
    {f : String × Json} (hf : f ∈ fields) : f.2.Distinct := by
  induction fields with
  | nil => exact absurd hf List.not_mem_nil
  | cons field fields ih =>
    rcases List.mem_cons.1 hf with rfl | hf
    · exact h.1
    · exact ih h.2 hf

/-- A new name is added at the end. -/
theorem set_of_not_mem {key : String} {entries : Keyed String Json}
    (h : key ∉ Keyed.keys entries) (value : Json) :
    Keyed.set key value entries = entries ++ [(key, value)] := by
  induction entries with
  | nil => rfl
  | cons entry entries ih =>
    obtain ⟨k, old⟩ := entry
    obtain ⟨hk, hrest⟩ : key ≠ k ∧ key ∉ Keyed.keys entries := by simpa using h
    rw [Keyed.set, if_neg (by simpa using hk.symm), ih hrest]
    rfl

/-- Names that differ are all kept. -/
theorem foldl_set_of_nodup (done fields : Keyed String Json)
    (h : (Keyed.keys (done ++ fields)).Nodup) :
    fields.foldl (fun done field => Keyed.set field.1 field.2 done) done = done ++ fields := by
  induction fields generalizing done with
  | nil => simp
  | cons field fields ih =>
    have hset : Keyed.set field.1 field.2 done = done ++ [field] := by
      refine set_of_not_mem ?_ _
      rw [Keyed.keys, List.map_append, List.nodup_append] at h
      exact fun hmem => h.2.2 _ hmem _ (by simp) rfl
    rw [List.foldl_cons, hset, ih]
    · simp
    · simpa using h

/-- An object is made of its fields. -/
theorem ofFields_of_nodup {fields : List (String × Json)} (h : (Keyed.keys fields).Nodup) :
    ofFields fields = .obj fields :=
  congrArg Json.obj (foldl_set_of_nodup [] fields h)

/-! ## Spacing -/

/-- Spacing that reading passes over: blanks, and one comma between
items. -/
structure Spacing.Blank (s : Spacing) : Prop where
  before : ∀ depth, ∀ c ∈ s.before depth, isBlank c = true
  after : ∀ depth, ∀ c ∈ s.after depth, isBlank c = true
  comma : ∃ blanks, s.comma = ',' :: blanks ∧ ∀ c ∈ blanks, isBlank c = true

/-- One line has a space after a comma and none elsewhere. -/
theorem blank_oneLine : oneLine.Blank where
  before := by simp [oneLine]
  after := by simp [oneLine]
  comma := ⟨[' '], rfl, by simp [isBlank]⟩

/-- Indented lines start with a line feed and spaces. -/
theorem blank_indented : indented.Blank := by
  have hline : ∀ depth : Nat, ∀ c ∈ '\n' :: List.replicate (2 * depth) ' ', isBlank c = true := by
    intro depth c hc
    rcases List.mem_cons.1 hc with rfl | hc
    · rfl
    · rw [List.eq_of_mem_replicate hc]
      rfl
  exact ⟨hline, hline, [], rfl, by simp⟩

/-- Blanks before a text that starts with none are passed over. -/
theorem skipBlanks_append {blanks text : List Char} (h : ∀ c ∈ blanks, isBlank c = true)
    (htext : ∀ c ∈ text.head?, isBlank c = false) : skipBlanks (blanks ++ text) = text := by
  rw [skipBlanks, (takeWhile_append_of_head htext blanks).2, List.dropWhile_eq_nil_iff.2 h,
    List.nil_append]

/-! ## What is written -/

mutual

/-- **The text of a value that fits** does not depend on what comes after
it. -/
theorem write_of_fits (s : Spacing) (depth : Nat) {v : Json} (h : v.fits = true)
    (after : Written) : write s depth v after = put (write s depth v {}).text after := by
  match v, h with
  | .null, _ | .bool true, _ | .bool false, _ | .float _, _ | .str _, _ | .arr [], _ | .obj [], _ =>
    simp [write]
  | .int n, h =>
    rw [fits] at h
    simp [write, h]
  | .arr (item :: items), h =>
    rw [fits, fitsItems, Bool.and_eq_true] at h
    rw [write, write, write_of_fits s (depth + 1) h.1 (writeItems ..),
      write_of_fits s (depth + 1) h.1 (writeItems s (depth + 1) items (put _ {})),
      writeItems_of_fits s (depth + 1) h.2 (put _ after),
      writeItems_of_fits s (depth + 1) h.2 (put _ {})]
    simp
  | .obj (field :: fields), h =>
    rw [fits, fitsFields, Bool.and_eq_true] at h
    rw [write, write, writeField_of_fits s (depth + 1) h.1 (writeFields ..),
      writeField_of_fits s (depth + 1) h.1 (writeFields s (depth + 1) fields (put _ {})),
      writeFields_of_fits s (depth + 1) h.2 (put _ after),
      writeFields_of_fits s (depth + 1) h.2 (put _ {})]
    simp

/-- Nor does the text of items. -/
theorem writeItems_of_fits (s : Spacing) (depth : Nat) {items : List Json}
    (h : fitsItems items = true) (after : Written) :
    writeItems s depth items after = put (writeItems s depth items {}).text after := by
  match items, h with
  | [], _ => rfl
  | item :: items, h =>
    rw [fitsItems, Bool.and_eq_true] at h
    rw [writeItems, writeItems, write_of_fits s depth h.1 (writeItems ..),
      write_of_fits s depth h.1 (writeItems s depth items {}), writeItems_of_fits s depth h.2 after]
    simp

/-- Nor does the text of a field. -/
theorem writeField_of_fits (s : Spacing) (depth : Nat) {field : String × Json}
    (h : field.2.fits = true) (after : Written) :
    writeField s depth field after = put (writeField s depth field {}).text after := by
  match field, h with
  | (name, value), h =>
    rw [writeField, writeField, write_of_fits s depth h after]
    simp

/-- Nor does the text of fields. -/
theorem writeFields_of_fits (s : Spacing) (depth : Nat) {fields : List (String × Json)}
    (h : fitsFields fields = true) (after : Written) :
    writeFields s depth fields after = put (writeFields s depth fields {}).text after := by
  match fields, h with
  | [], _ => rfl
  | field :: fields, h =>
    rw [fitsFields, Bool.and_eq_true] at h
    rw [writeFields, writeFields, writeField_of_fits s depth h.1 (writeFields ..),
      writeField_of_fits s depth h.1 (writeFields s depth fields {}),
      writeFields_of_fits s depth h.2 after]
    simp

end

/-- A number starts with a minus or a digit. -/
theorem exists_cons_numeral (layout : Decimal.Layout) (n : Decimal.Numeral) (negative : Bool)
    (rest : List Char) :
    ∃ c w, signText negative ++ n.text layout ++ rest = c :: w ∧ isBlank c = false ∧ c ≠ ']' := by
  obtain ⟨c, w, htext, hc⟩ := exists_cons_text layout n
  cases negative with
  | true => exact ⟨'-', _, rfl, rfl, by decide⟩
  | false =>
    have hne : ∀ d : Char, d.isDigit = false → c ≠ d := by
      intro d hd
      exact ne_of_apply_ne Char.isDigit (by rw [hc, hd]; decide)
    refine ⟨c, w ++ rest, by simp [signText, htext], ?_, hne ']' rfl⟩
    simp [isBlank, hne ' ' rfl, hne '\t' rfl, hne '\n' rfl, hne '\r' rfl]

/-- **A value's text starts with no blank**, and with nothing that closes
an array. -/
theorem exists_cons_write (s : Spacing) (depth : Nat) {v : Json} (h : v.fits = true)
    (after : Written) :
    ∃ c w, (write s depth v after).text = c :: w ∧ isBlank c = false ∧ c ≠ ']' := by
  match v, h with
  | .null, _ | .bool true, _ | .bool false, _ | .str _, _ | .arr [], _ | .arr (_ :: _), _
  | .obj [], _ | .obj (_ :: _), _ => exact ⟨_, _, rfl, rfl, by decide⟩
  | .int n, h =>
    rw [fits] at h
    rw [write, if_pos h, Written.put_text, (intDigits_eq n).1]
    exact exists_cons_numeral _ _ _ _
  | .float x, _ =>
    rw [write, Written.put_text]
    rcases numberText_cases x with ⟨negative, n, htext, -⟩ | ⟨htext, -⟩ | ⟨negative, htext, -⟩
    · rw [htext]
      exact exists_cons_numeral _ _ _ _
    · rw [htext]
      exact ⟨_, _, rfl, rfl, by decide⟩
    · rw [htext]
      cases negative <;> exact ⟨_, _, rfl, rfl, by decide⟩

/-- A value takes text. -/
theorem length_lt_write (s : Spacing) (depth : Nat) {v : Json} (h : v.fits = true)
    (after : Written) : after.text.length < (write s depth v after).text.length := by
  obtain ⟨c, w, hw, -⟩ := exists_cons_write s depth h {}
  rw [write_of_fits s depth h, Written.put_text, hw]
  simp

/-! ## Reading -/

/-- Whether a value is read as it is written, wherever it stands. -/
def ReadsBack (s : Spacing) (v : Json) : Prop :=
  ∀ depth (after : Written) bound, EndsNumber after.text →
    (write s depth v after).text.length ≤ bound + after.text.length →
      readValue bound (write s depth v after).text = .ok (v, after.text)

/-- What closes or goes on an array or object ends a number. -/
theorem endsNumber_append {blanks rest : List Char} (hblanks : ∀ c ∈ blanks, isBlank c = true)
    (hrest : EndsNumber rest) : EndsNumber (blanks ++ rest) := by
  rcases blanks with _ | ⟨c, blanks⟩
  · exact hrest
  · have hc := hblanks c List.mem_cons_self
    rintro d hd
    obtain rfl := Option.some.inj hd
    simp only [isBlank, Bool.or_eq_true, beq_iff_eq] at hc
    rcases hc with ((rfl | rfl) | rfl) | rfl <;> decide

/-- A comma or a closing bracket ends a number. -/
theorem endsNumber_cons {c : Char} (hc : c = ',' ∨ c = ']' ∨ c = '\x7d') (rest : List Char) :
    EndsNumber (c :: rest) := by
  rintro d hd
  obtain rfl := Option.some.inj hd
  rcases hc with rfl | rfl | rfl <;> decide

/-- After a value's blanks there is what closes the array. -/
theorem skipBlanks_close {blanks : List Char} (h : ∀ c ∈ blanks, isBlank c = true) {c : Char}
    (hc : isBlank c = false) (rest : List Char) : skipBlanks (blanks ++ c :: rest) = c :: rest :=
  skipBlanks_append h (by simpa using hc)

/-- Blanks before a value are passed over. -/
theorem skipBlanks_write {s : Spacing} {b : List Char} (hb : ∀ c ∈ b, isBlank c = true)
    (depth : Nat) {v : Json} (h : v.fits = true) (after : Written) :
    skipBlanks (b ++ (write s depth v after).text) = (write s depth v after).text := by
  obtain ⟨c, w, hw, hc, -⟩ := exists_cons_write s depth h after
  rw [hw]
  exact skipBlanks_append hb (by simpa using hc)

/-- Items go before what comes after them. -/
theorem length_lt_items (s : Spacing) (depth inside : Nat) {item : Json} {items : List Json}
    (h : fitsItems (item :: items) = true) (c : Char) (after : Written) :
    after.text.length < (write s inside item
      (writeItems s inside items (put (s.after depth ++ [c]) after))).text.length := by
  rw [fitsItems, Bool.and_eq_true] at h
  have hitem := length_lt_write s inside h.1
    (writeItems s inside items (put (s.after depth ++ [c]) after))
  rw [writeItems_of_fits s inside h.2] at hitem ⊢
  simp only [Written.put_text, List.length_append, List.length_cons] at hitem
  omega

/-- The items of an array, once the first one is read. -/
def readItemsAfter (bound : Nat) (item : Json) (text : List Char) :
    Except Flaw (List Json × List Char) :=
  match skipBlanks text with
  | ']' :: after => return ([item], after)
  | ',' :: more => do
    let (items, after) ← readItems bound (skipBlanks more)
    return (item :: items, after)
  | _ => throw .malformed

/-- A bracket ends the items. -/
theorem readItemsAfter_close {text after : List Char} (h : skipBlanks text = ']' :: after)
    (bound : Nat) (item : Json) : readItemsAfter bound item text = .ok ([item], after) := by
  rw [readItemsAfter, h]
  rfl

/-- A comma goes on to others. -/
theorem readItemsAfter_comma {text more after : List Char} {bound : Nat} {items : List Json}
    (h : skipBlanks text = ',' :: more)
    (hmore : readItems bound (skipBlanks more) = .ok (items, after)) (item : Json) :
    readItemsAfter bound item text = .ok (item :: items, after) := by
  rw [readItemsAfter, h]
  simp only [hmore]
  rfl

/-- An item is read as it is written, and then what comes after it. -/
theorem readItems_writeItem {s : Spacing} {item : Json} (hv : ReadsBack s item) (depth : Nat)
    {tail : Written} (htail : EndsNumber tail.text) {bound : Nat}
    (hbound : (write s depth item tail).text.length ≤ bound + tail.text.length) :
    readItems (bound + 1) (write s depth item tail).text = readItemsAfter bound item tail.text := by
  rw [readItems, hv depth tail bound htail hbound]
  rfl

/-- **Items are read as they are written**, if each of them is. -/
theorem readItems_write {s : Spacing} (hs : s.Blank) (depth : Nat) {after : Written} :
    ∀ {item : Json} {items : List Json} {bound : Nat}, fitsItems (item :: items) = true →
      (∀ v ∈ item :: items, ReadsBack s v) →
      (write s (depth + 1) item
        (writeItems s (depth + 1) items (put (s.after depth ++ [']']) after))).text.length
          ≤ bound + after.text.length →
      readItems bound (write s (depth + 1) item
          (writeItems s (depth + 1) items (put (s.after depth ++ [']']) after))).text
        = .ok (item :: items, after.text)
  | item, items, 0, hfits, _, hbound => by
    have := length_lt_items s depth (depth + 1) hfits ']' after
    omega
  | item, [], bound + 1, _, hv, hbound => by
    have hclose : (put (s.after depth ++ [']']) after).text
        = s.after depth ++ ']' :: after.text := by simp
    have hread := @readItems_writeItem s item (hv _ List.mem_cons_self) (depth + 1)
      (put (s.after depth ++ [']']) after) (by
        rw [hclose]
        exact endsNumber_append (hs.after depth) (endsNumber_cons (.inr (.inl rfl)) _)) bound (by
        rw [writeItems] at hbound
        simp only [hclose, List.length_append, List.length_cons] at hbound ⊢
        omega)
    rw [writeItems, hread, hclose]
    exact readItemsAfter_close (skipBlanks_close (hs.after depth) rfl _) _ _
  | item, next :: items, bound + 1, hfits, hv, hbound => by
    rw [fitsItems, Bool.and_eq_true] at hfits
    obtain ⟨blanks, hcomma, hblanks⟩ := hs.comma
    let more := write s (depth + 1) next
      (writeItems s (depth + 1) items (put (s.after depth ++ [']']) after))
    let gap := blanks ++ s.before (depth + 1)
    have hwrite : writeItems s (depth + 1) (next :: items) (put (s.after depth ++ [']']) after)
        = put (',' :: gap) more := by
      rw [writeItems, hcomma]
      rfl
    have htext : (put (',' :: gap) more).text = ',' :: (gap ++ more.text) := rfl
    have hmore : after.text.length < more.text.length :=
      length_lt_items s depth (depth + 1) hfits.2 ']' after
    have hskip : skipBlanks (gap ++ more.text) = more.text := by
      rw [fitsItems, Bool.and_eq_true] at hfits
      exact skipBlanks_write (List.forall_mem_append.2 ⟨hblanks, hs.before _⟩) _ hfits.2.1 _
    rw [hwrite] at hbound ⊢
    have hlong := length_lt_write s (depth + 1) hfits.1 (put (',' :: gap) more)
    simp only [htext, List.length_append, List.length_cons] at hlong
    have ih : readItems bound more.text = _ :=
      readItems_write hs depth hfits.2 (fun v hmem => hv v (List.mem_cons_of_mem _ hmem))
        (show more.text.length ≤ _ by omega)
    have hstop : skipBlanks (',' :: (gap ++ more.text)) = ',' :: (gap ++ more.text) := rfl
    rw [readItems_writeItem (hv _ List.mem_cons_self) (depth + 1)
      (by rw [htext]; exact endsNumber_cons (.inl rfl) _), htext]
    · exact readItemsAfter_comma hstop (by rw [hskip, ih]) item
    · simp only [htext, List.length_append, List.length_cons]
      omega

/-- Fields go before what comes after them. -/
theorem length_lt_fields (s : Spacing) (depth inside : Nat) {field : String × Json}
    {fields : List (String × Json)} (h : fitsFields (field :: fields) = true) (c : Char)
    (after : Written) :
    after.text.length < (writeField s inside field
      (writeFields s inside fields (put (s.after depth ++ [c]) after))).text.length := by
  obtain ⟨name, value⟩ := field
  rw [fitsFields, Bool.and_eq_true] at h
  rw [writeField_of_fits s inside h.1, writeFields_of_fits s inside h.2]
  simp only [Written.put_text, List.length_append, List.length_cons, writeField, quote]
  omega

/-- The fields of an object, once the first one is read. -/
def readFieldsAfter (bound : Nat) (field : String × Json) (text : List Char) :
    Except Flaw (List (String × Json) × List Char) :=
  match skipBlanks text with
  | '\x7d' :: after => return ([field], after)
  | ',' :: more => do
    let (fields, after) ← readFields bound (skipBlanks more)
    return (field :: fields, after)
  | _ => throw .malformed

/-- A brace ends the fields. -/
theorem readFieldsAfter_close {text after : List Char} (h : skipBlanks text = '\x7d' :: after)
    (bound : Nat) (field : String × Json) :
    readFieldsAfter bound field text = .ok ([field], after) := by
  rw [readFieldsAfter, h]
  rfl

/-- A comma goes on to others. -/
theorem readFieldsAfter_comma {text more after : List Char} {bound : Nat}
    {fields : List (String × Json)} (h : skipBlanks text = ',' :: more)
    (hmore : readFields bound (skipBlanks more) = .ok (fields, after)) (field : String × Json) :
    readFieldsAfter bound field text = .ok (field :: fields, after) := by
  rw [readFieldsAfter, h]
  simp only [hmore]
  rfl

/-- A field is read as it is written, and then what comes after it. -/
theorem readFields_writeField {s : Spacing} {value : Json} (hfits : value.fits = true)
    (hv : ReadsBack s value) (name : String) (depth : Nat) {tail : Written}
    (htail : EndsNumber tail.text) {bound : Nat}
    (hbound : (write s depth value tail).text.length ≤ bound + tail.text.length) :
    readFields (bound + 1) (writeField s depth (name, value) tail).text
      = readFieldsAfter bound (name, value) tail.text := by
  let text := (write s depth value tail).text
  have hname : readString? (name.toList.flatMap escape ++ '"' :: ':' :: ' ' :: text)
      = some (name.toList, ':' :: ' ' :: text) :=
    readString?_quote _ _
  have hcolon : skipBlanks (':' :: ' ' :: text) = ':' :: ' ' :: text := rfl
  have hskip : skipBlanks (' ' :: text) = text :=
    skipBlanks_write (s := s) (b := [' ']) (by simp [isBlank]) depth hfits tail
  have htext : (writeField s depth (name, value) tail).text
      = '"' :: (name.toList.flatMap escape ++ '"' :: ':' :: ' ' :: text) := by
    simp [writeField, quote, text]
  have hread : readValue bound text = .ok (value, tail.text) := hv depth tail bound htail hbound
  rw [htext, readFields]
  simp only [hname, orMalformed, bind, Except.bind, hcolon, hskip, hread, String.ofList_toList]
  rfl

/-- **Fields are read as they are written**, if the value of each of them
is. -/
theorem readFields_write {s : Spacing} (hs : s.Blank) (depth : Nat) {after : Written} :
    ∀ {field : String × Json} {fields : List (String × Json)} {bound : Nat},
      fitsFields (field :: fields) = true → (∀ f ∈ field :: fields, ReadsBack s f.2) →
      (writeField s (depth + 1) field
        (writeFields s (depth + 1) fields (put (s.after depth ++ ['\x7d']) after))).text.length
          ≤ bound + after.text.length →
      readFields bound (writeField s (depth + 1) field
          (writeFields s (depth + 1) fields (put (s.after depth ++ ['\x7d']) after))).text
        = .ok (field :: fields, after.text)
  | field, fields, 0, hfits, _, hbound => by
    have := length_lt_fields s depth (depth + 1) hfits '\x7d' after
    omega
  | (name, value), [], bound + 1, hfits, hv, hbound => by
    rw [fitsFields, Bool.and_eq_true] at hfits
    have hclose : (put (s.after depth ++ ['\x7d']) after).text
        = s.after depth ++ '\x7d' :: after.text := by simp
    have hread := @readFields_writeField s value hfits.1 (hv _ List.mem_cons_self) name (depth + 1)
      (put (s.after depth ++ ['\x7d']) after) (by
        rw [hclose]
        exact endsNumber_append (hs.after depth) (endsNumber_cons (.inr (.inr rfl)) _)) bound (by
        rw [writeFields, writeField] at hbound
        simp only [hclose, Written.put_text, quote, List.length_append, List.length_cons] at hbound ⊢
        omega)
    rw [writeFields, hread, hclose]
    exact readFieldsAfter_close (skipBlanks_close (hs.after depth) rfl _) _ _
  | (name, value), (next, inside) :: fields, bound + 1, hfits, hv, hbound => by
    rw [fitsFields, Bool.and_eq_true] at hfits
    obtain ⟨blanks, hcomma, hblanks⟩ := hs.comma
    let more := writeField s (depth + 1) (next, inside)
      (writeFields s (depth + 1) fields (put (s.after depth ++ ['\x7d']) after))
    let gap := blanks ++ s.before (depth + 1)
    have hwrite : writeFields s (depth + 1) ((next, inside) :: fields)
        (put (s.after depth ++ ['\x7d']) after) = put (',' :: gap) more := by
      rw [writeFields, hcomma]
      rfl
    have htext : (put (',' :: gap) more).text = ',' :: (gap ++ more.text) := rfl
    have hmore : after.text.length < more.text.length :=
      length_lt_fields s depth (depth + 1) hfits.2 '\x7d' after
    have hskip : skipBlanks (gap ++ more.text) = more.text :=
      skipBlanks_append (List.forall_mem_append.2 ⟨hblanks, hs.before _⟩) (by
        simp [more, writeField, quote, isBlank])
    rw [hwrite] at hbound ⊢
    have hlong := length_lt_write s (depth + 1) hfits.1 (put (',' :: gap) more)
    rw [writeField] at hbound
    simp only [htext, Written.put_text, quote, List.length_append, List.length_cons] at hbound hlong
    have ih : readFields bound more.text = _ :=
      readFields_write hs depth hfits.2 (fun f hmem => hv f (List.mem_cons_of_mem _ hmem))
        (show more.text.length ≤ _ by omega)
    have hstop : skipBlanks (',' :: (gap ++ more.text)) = ',' :: (gap ++ more.text) := rfl
    rw [readFields_writeField hfits.1 (hv _ List.mem_cons_self) name (depth + 1)
      (by rw [htext]; exact endsNumber_cons (.inl rfl) _), htext]
    · exact readFieldsAfter_comma hstop (by rw [hskip, ih]) (name, value)
    · simp only [htext, List.length_append, List.length_cons]
      omega

/-- An array that does not close at once has items. -/
theorem readValue_arr {text w : List Char} {c : Char} (hskip : skipBlanks text = c :: w)
    (hc : c ≠ ']') (bound : Nat) :
    readValue (bound + 1) ('[' :: text)
      = (readItems bound (c :: w)).map fun (items, after) => (.arr items, after) := by
  rw [readValue, hskip]
  split
  · exact absurd (List.cons.inj ‹_›).1 hc
  · rfl

/-- An object that does not close at once has fields. -/
theorem readValue_obj {text w : List Char} {c : Char} (hskip : skipBlanks text = c :: w)
    (hc : c ≠ '\x7d') (bound : Nat) :
    readValue (bound + 1) ('\x7b' :: text)
      = (readFields bound (c :: w)).map fun (fields, after) => (ofFields fields, after) := by
  rw [readValue, hskip]
  split
  · exact absurd (List.cons.inj ‹_›).1 hc
  · rfl

/-- **A value that fits is read as it is written.** -/
theorem readsBack {s : Spacing} (hs : s.Blank) {v : Json} (hfits : v.fits = true)
    (hd : v.Distinct) : ReadsBack s v := by
  rintro depth after (_ | bound) hafter hbound
  · have := length_lt_write s depth hfits after
    omega
  · match v, hfits, hd with
    | .null, _, _ => rfl
    | .bool true, _, _ => rfl
    | .bool false, _, _ => rfl
    | .int n, hfits, _ =>
      rw [fits] at hfits
      rw [write, if_pos hfits, Written.put_text, readValue_intDigits n bound hafter, if_pos hfits]
    | .float x, _, _ => exact readValue_write x bound hafter
    | .str text, _, _ =>
      have htext : (write s depth (.str text) after).text
          = '"' :: (text.toList.flatMap escape ++ '"' :: after.text) := by
        simp [write, quote]
      rw [htext, readValue, readString?_quote]
      simp [orMalformed, Except.map]
    | .arr [], _, _ => rfl
    | .arr (item :: items), hfits, hd =>
      rw [fits] at hfits
      have hitem : item.fits = true := by
        rw [fitsItems, Bool.and_eq_true] at hfits
        exact hfits.1
      have hitems := @readItems_write s hs depth after item items bound hfits
        (fun w hw => readsBack hs (fits_of_mem hfits hw) (DistinctItems.of_mem hd hw)) (by
          rw [write] at hbound
          simp only [Written.put_text, List.length_append, List.length_cons] at hbound
          omega)
      obtain ⟨c, w, hwrite, hc, hclose⟩ := exists_cons_write s (depth + 1) hitem
        (writeItems s (depth + 1) items (put (s.after depth ++ [']']) after))
      rw [hwrite] at hitems
      rw [write, Written.put_text, hwrite, List.cons_append, readValue_arr
        (skipBlanks_append (hs.before _) (by simpa using hc)) hclose, hitems]
      rfl
    | .obj [], _, _ => rfl
    | .obj ((name, value) :: fields), hfits, hd =>
      rw [fits] at hfits
      have hfields := @readFields_write s hs depth after (name, value) fields bound hfits
        (fun f hf => readsBack hs (fits_of_mem_fields hfits hf) (DistinctFields.of_mem hd.2 hf)) (by
          rw [write] at hbound
          simp only [Written.put_text, List.length_append, List.length_cons] at hbound
          omega)
      rw [writeField, quote, Written.put_text, List.cons_append, List.cons_append,
        List.cons_append] at hfields
      rw [write, writeField, quote, Written.put_text, Written.put_text, List.cons_append,
        List.cons_append, List.cons_append, List.cons_append,
        readValue_obj (skipBlanks_append (hs.before _) (by simp [isBlank])) (by decide), hfields]
      simp [Except.map, ofFields_of_nodup hd.1]
termination_by sizeOf v
decreasing_by
  · simp only [Json.arr.sizeOf_spec]
    have := List.sizeOf_lt_of_mem hw
    omega
  · simp only [Json.obj.sizeOf_spec]
    have := List.sizeOf_lt_of_mem hf
    have : sizeOf f.2 < sizeOf f := by cases f; simp
    omega

/-! ## Whole texts -/

/-- **A value's text is parsed as the value.** -/
theorem parse_write {s : Spacing} (hs : s.Blank) {v : Json} (hd : v.Distinct) {text : String}
    (h : (write s 0 v {}).whole = .ok text) : parse text = .ok v := by
  rw [whole_write] at h
  split_ifs at h with hfits
  obtain rfl := Except.ok.inj h
  have hread := readsBack hs hfits hd 0 {} ((write s 0 v {}).text.length + 1)
    (by simp [EndsNumber]) (by simp)
  have hskip := skipBlanks_write (s := s) (b := []) (by simp) 0 hfits {}
  rw [List.nil_append] at hskip
  simp only [parse, String.toList_ofList, hskip, hread]
  rfl

/-- A value set out over lines is parsed as itself. -/
theorem parse_pretty {v : Json} (hd : v.Distinct) {text : String} (h : v.pretty = .ok text) :
    parse text = .ok v :=
  parse_write blank_indented hd h

/-- A value on one line is parsed as itself. -/
theorem parse_compact {v : Json} (hd : v.Distinct) {text : String} (h : v.compact = .ok text) :
    parse text = .ok v :=
  parse_write blank_oneLine hd h

end Lox.Json
