import CouncilDaemon.Lib.Json

/-!
# Texts of objects of strings

`JSON.stringify` on an object whose fields are strings can be read back: an escaped character is told
from what follows it (`unescape_escape`), and so is a quoted string (`quote_append_inj`). Two such
objects with the same text have the same fields (`stringify_ofStrings_injective`).
-/

namespace Json

def digitValue (digit : Char) : ℕ := if digit.toNat < 58 then digit.toNat - 48 else digit.toNat - 87

/-- The first character of a quoted text, with what follows it. -/
def unescape : List Char → Option (Char × List Char)
  | '\\' :: 'n' :: rest => some ('\n', rest)
  | '\\' :: 'r' :: rest => some ('\r', rest)
  | '\\' :: 't' :: rest => some ('\t', rest)
  | '\\' :: 'b' :: rest => some (Char.ofNat 8, rest)
  | '\\' :: 'f' :: rest => some (Char.ofNat 12, rest)
  | '\\' :: 'u' :: _ :: _ :: high :: low :: rest =>
    some (Char.ofNat (16 * digitValue high + digitValue low), rest)
  | '\\' :: c :: rest => some (c, rest)
  | c :: rest => some (c, rest)
  | [] => none

/-- The escaped control characters. -/
theorem unescape_control {c : Char} (h : c.toNat < 32) (rest : List Char) :
    unescape (("\\u00" ++ String.ofList
      [Nat.digitChar (c.toNat / 16), Nat.digitChar (c.toNat % 16)]).toList ++ rest) =
      some (c, rest) := by
  have hc : c = Char.ofNat c.toNat := (Char.ofNat_toNat c).symm
  rw [hc]
  have hvalid : (Char.ofNat c.toNat).toNat = c.toNat := by rw [← hc]
  rw [hvalid]
  generalize c.toNat = n at h
  interval_cases n <;> rfl

theorem unescape_escape (c : Char) (rest : List Char) :
    unescape ((escape c).toList ++ rest) = some (c, rest) := by
  unfold escape
  split_ifs with hquote hslash hn hr ht hb hf hcontrol
  · rw [hquote]; rfl
  · rw [hslash]; rfl
  · rw [hn]; rfl
  · rw [hr]; rfl
  · rw [ht]; rfl
  · rw [← Char.ofNat_toNat c, hb]; rfl
  · rw [← Char.ofNat_toNat c, hf]; rfl
  · exact unescape_control hcontrol rest
  · rw [String.toList_singleton, List.singleton_append]
    unfold unescape
    split <;> simp_all

/-- No escaped character starts with the quote that ends a string. -/
theorem escape_ne_quote (c : Char) (rest : List Char) (others : List Char) :
    (escape c).toList ++ rest ≠ '"' :: others := by
  unfold escape
  split_ifs with hquote
  all_goals intro h
  all_goals simp_all

/-- The characters of a quoted string, up to the quote that ends it. -/
def escaped (s : List Char) : List Char := s.flatMap fun c => (escape c).toList

theorem toList_quote (s : String) :
    (quote s).toList = '"' :: (escaped s.toList ++ ['"']) := by
  unfold quote escaped
  rw [String.toList_append, String.toList_append, String.toList_join, List.flatMap_map]
  rfl

/-- The text up to the quote is the escaped string, and determines it. -/
theorem escaped_append_inj : ∀ {s t : List Char} {rest rest' : List Char},
    escaped s ++ '"' :: rest = escaped t ++ '"' :: rest' → s = t ∧ rest = rest' := by
  intro s
  induction s with
  | nil =>
    intro t rest rest' h
    cases t with
    | nil => exact ⟨rfl, (List.cons.inj h).2⟩
    | cons d t =>
      unfold escaped at h
      rw [List.flatMap_cons, List.append_assoc] at h
      exact absurd h.symm (escape_ne_quote d _ _)
  | cons c s ih =>
    intro t rest rest' h
    unfold escaped at h
    rw [List.flatMap_cons, List.append_assoc] at h
    cases t with
    | nil => exact absurd h (escape_ne_quote c _ _)
    | cons d t =>
      rw [List.flatMap_cons, List.append_assoc] at h
      have hfirst := unescape_escape c (escaped s ++ '"' :: rest)
      rw [show (escape c).toList ++ (escaped s ++ '"' :: rest) =
        (escape d).toList ++ (escaped t ++ '"' :: rest') from h, unescape_escape] at hfirst
      obtain ⟨hc, hrest⟩ := Prod.mk.inj (Option.some.inj hfirst)
      obtain ⟨hs, hrest'⟩ := ih hrest.symm
      exact ⟨by rw [hc, hs], hrest'⟩

theorem quote_append_inj {s t : String} {rest rest' : List Char}
    (h : (quote s).toList ++ rest = (quote t).toList ++ rest') : s = t ∧ rest = rest' := by
  rw [toList_quote, toList_quote, List.cons_append, List.cons_append, List.append_assoc,
    List.append_assoc] at h
  obtain ⟨hs, hrest⟩ := escaped_append_inj (List.cons.inj h).2
  exact ⟨String.toList_injective hs, hrest⟩

/-- The object with strings in its fields. -/
def ofStrings (fields : List (String × String)) : Json :=
  obj (fields.map fun field => (field.1, str field.2))

/-- The name and the value of a field, before a text. -/
def fieldText (field : String × String) (rest : List Char) : List Char :=
  (quote field.1).toList ++ ':' :: ((quote field.2).toList ++ rest)

/-- The fields after the first one, and the brace that ends them. -/
def laterFields : List (String × String) → List Char
  | [] => ['\x7d']
  | field :: fields => ',' :: fieldText field (laterFields fields)

theorem fieldText_inj {field field' : String × String} {rest rest' : List Char}
    (h : fieldText field rest = fieldText field' rest') : field = field' ∧ rest = rest' := by
  obtain ⟨hname, htail⟩ := quote_append_inj h
  obtain ⟨hvalue, hrest⟩ := quote_append_inj (List.cons.inj htail).2
  exact ⟨Prod.ext hname hvalue, hrest⟩

theorem laterFields_inj : ∀ {fields fields' : List (String × String)},
    laterFields fields = laterFields fields' → fields = fields' := by
  intro fields
  induction fields with
  | nil =>
    intro fields' h
    cases fields' with
    | nil => rfl
    | cons field' fields' =>
      have hbrace := (List.cons.inj h).1
      exact absurd hbrace (by decide)
  | cons field fields ih =>
    intro fields' h
    cases fields' with
    | nil =>
      have hcomma := (List.cons.inj h).1
      exact absurd hcomma (by decide)
    | cons field' fields' =>
      obtain ⟨hfield, hrest⟩ := fieldText_inj (List.cons.inj h).2
      rw [hfield, ih hrest]

theorem toList_stringifyFields (fields : List (String × String)) : ∀ field : String × String,
    (String.intercalate "," (stringifyFields ((field :: fields).map fun field =>
      (field.1, str field.2)))).toList ++ ['\x7d'] = fieldText field (laterFields fields) := by
  induction fields with
  | nil =>
    intro field
    simp [stringifyFields, stringify, fieldText, laterFields]
  | cons other fields ih =>
    intro field
    have hother := ih other
    rw [List.map_cons, stringifyFields] at hother
    rw [List.map_cons, List.map_cons, stringifyFields, stringifyFields,
      String.intercalate_cons_cons, String.toList_append, String.toList_append, List.append_assoc,
      List.append_assoc, hother]
    simp [stringify, fieldText, laterFields]

/-- **Texts.** The text of an object of strings determines its fields. -/
theorem stringify_ofStrings_injective :
    Function.Injective fun fields => stringify (ofStrings fields) := by
  intro fields fields' h
  have htext := congrArg String.toList h
  simp only [ofStrings, stringify, String.toList_append] at htext
  cases fields with
  | nil =>
    cases fields' with
    | nil => rfl
    | cons field' fields' =>
      rw [List.append_assoc, List.append_assoc] at htext
      have hrest := List.append_cancel_left htext
      rw [show "\x7d".toList = ['\x7d'] from rfl, toList_stringifyFields] at hrest
      unfold fieldText at hrest
      rw [toList_quote] at hrest
      exact absurd (List.cons.inj hrest).1 (by decide)
  | cons field fields =>
    rw [List.append_assoc, List.append_assoc] at htext
    have hrest := List.append_cancel_left htext
    rw [show "\x7d".toList = ['\x7d'] from rfl, toList_stringifyFields] at hrest
    cases fields' with
    | nil =>
      unfold fieldText at hrest
      rw [toList_quote] at hrest
      exact absurd (List.cons.inj hrest).1 (by decide)
    | cons field' fields' =>
      rw [toList_stringifyFields] at hrest
      obtain ⟨hfield, hlater⟩ := fieldText_inj hrest
      rw [hfield, laterFields_inj hlater]

end Json
